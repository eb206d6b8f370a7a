import Mathlib.Data.List.Forall2
import Mathlib.Algebra.BigOperators.Group.List.Basic
import RazorTrade.Daemon.OrderSizing

/-! # The checklist and less risk

An approved leverage signal stays approved when it asks for less, or when the account or the book
is better: a smaller notional or leverage, more realised or unrealised P&L, a higher NAV per unit,
more quantity at the levels of the book.  Four of the eight checks read none of this; the notional
cap, the hard limit and the depth are monotone in all of it, without rounding.

  `approves_relieved` :  approved stays approved -/

namespace RazorTrade

open CheckOutcome

/-- The same levels, with at least the quantity at each of them. -/
structure OrderBookSnapshot.Deepened (b b' : OrderBookSnapshot) : Prop where
  bids : List.Forall₂ (fun l l' => l'.price = l.price ∧ l.quantity ≤ l'.quantity) b.bids b'.bids
  asks : List.Forall₂ (fun l l' => l'.price = l.price ∧ l.quantity ≤ l'.quantity) b.asks b'.asks
  timestamp : b'.timestamp = b.timestamp

/-- What may become better. -/
structure Relief where
  notionalChf : ℚ
  leverage : ℚ
  sleeves : List SleeveState
  navPerUnit : ℚ
  orderBook : OrderBookSnapshot

namespace PreTradeContext

/-- The context with the new values, everything else unchanged. -/
def relieved (ctx : PreTradeContext) (r : Relief) : PreTradeContext :=
  { ctx with
    signal := { ctx.signal with notionalChf := r.notionalChf, leverage := r.leverage }
    portfolio := { ctx.portfolio with sleeves := r.sleeves, navPerUnit := r.navPerUnit }
    market := { ctx.market with orderBook := r.orderBook } }

/-- The new values are no worse. -/
structure Relieves (r : Relief) (ctx : PreTradeContext) : Prop where
  notional_nonneg : 0 ≤ r.notionalChf
  notional : r.notionalChf ≤ ctx.signal.notionalChf
  leverage_nonneg : 0 ≤ r.leverage
  leverage : r.leverage ≤ ctx.signal.leverage
  realized : ctx.portfolio.leverageSleeveRealizedPnl ≤
    (ctx.relieved r).portfolio.leverageSleeveRealizedPnl
  unrealized : ctx.portfolio.leverageSleeveUnrealizedPnl ≤
    (ctx.relieved r).portfolio.leverageSleeveUnrealizedPnl
  nav : ctx.portfolio.navPerUnit ≤ r.navPerUnit
  book : ctx.market.orderBook.Deepened r.orderBook

end PreTradeContext

/-- No fraction and no multiple of the configuration is negative. -/
structure RiskConfig.NonnegFractions (c : RiskConfig) : Prop where
  losses : c.NonnegLossFractions
  drawdown : 0 ≤ c.maxPortfolioDrawdown
  depth : 0 ≤ c.minBookDepthMultiple

open PreTradeContext

/-! ## Lemmas -/

section Checks

variable {ctx : PreTradeContext} {r : Relief}

/-! ### The hard limit -/

theorem effectivePnl_le (h : Relieves r ctx) :
    ctx.portfolio.effectivePnl ≤ (ctx.relieved r).portfolio.effectivePnl := by
  unfold PortfolioState.effectivePnl
  exact add_le_add h.realized (min_le_min_right 0 h.unrealized)

/-- What the hard limit takes as the worst case. -/
theorem worstCaseLoss_exact (signal : Signal) (config : RiskConfig) :
    HardLimitCheck.worstCaseLoss .exact signal config =
      some (signal.notionalChf * signal.leverage * config.lossFraction) := by
  unfold HardLimitCheck.worstCaseLoss RiskConfig.lossFraction
  simp only [Arith.exact_mul, Arith.exact_add, Option.bind_eq_bind, Option.bind_some]
  rw [mul_add, mul_add]

theorem loss_le (hconfig : ctx.config.NonnegFractions) (h : Relieves r ctx) :
    r.notionalChf * r.leverage * ctx.config.lossFraction ≤
      ctx.signal.notionalChf * ctx.signal.leverage * ctx.config.lossFraction := by
  have hfraction := hconfig.losses.lossFraction_nonneg
  have hnotional := h.notional_nonneg.trans h.notional
  have hexposure : r.notionalChf * r.leverage ≤ ctx.signal.notionalChf * ctx.signal.leverage :=
    mul_le_mul h.notional h.leverage h.leverage_nonneg hnotional
  exact mul_le_mul_of_nonneg_right hexposure hfraction

theorem budgetGuards_exact (ctx : PreTradeContext) : ctx.budgetGuards .exact =
    (decide (ctx.config.leverageKillSwitchBudgetChf < ctx.portfolio.effectivePnl) &&
      decide (ctx.config.leverageKillSwitchBudgetChf < ctx.portfolio.effectivePnl -
        ctx.signal.notionalChf * ctx.signal.leverage * ctx.config.lossFraction)) := by
  unfold budgetGuards
  rw [worstCaseLoss_exact]
  rfl

theorem budgetGuards_relieved (hconfig : ctx.config.NonnegFractions) (h : Relieves r ctx)
    (hguards : ctx.budgetGuards .exact = true) :
    (ctx.relieved r).budgetGuards .exact = true := by
  have heffective := effectivePnl_le h
  have hloss := loss_le hconfig h
  rw [budgetGuards_exact, Bool.and_eq_true, decide_eq_true_eq, decide_eq_true_eq] at hguards ⊢
  obtain ⟨hbudget, hworst⟩ := hguards
  refine ⟨hbudget.trans_le heffective, hworst.trans_le ?_⟩
  show _ ≤ (ctx.relieved r).portfolio.effectivePnl -
    r.notionalChf * r.leverage * ctx.config.lossFraction
  linarith

theorem drawdownFraction_exact (p : PortfolioState) : p.drawdownFraction .exact =
    some (if p.navHwmPerUnit = 0 ∨ p.navHwmPerUnit ≤ p.navPerUnit then 0
      else (p.navHwmPerUnit - p.navPerUnit) / p.navHwmPerUnit) := by
  unfold PortfolioState.drawdownFraction
  by_cases hzero : p.navHwmPerUnit = 0
  · simp [hzero]
  by_cases habove : p.navHwmPerUnit ≤ p.navPerUnit
  · simp [hzero, habove]
  · simp [hzero, habove, Arith.exact_div]

/-- A drawdown within a limit that is not negative stays within it when the NAV rises.  Against a
mark below zero the fraction is negative. -/
theorem drawdown_le {hwm nav nav' limit : ℚ} (hlimit : 0 ≤ limit) (hnav : nav ≤ nav')
    (h : (if hwm = 0 ∨ hwm ≤ nav then 0 else (hwm - nav) / hwm) ≤ limit) :
    (if hwm = 0 ∨ hwm ≤ nav' then 0 else (hwm - nav') / hwm) ≤ limit := by
  by_cases habove : hwm = 0 ∨ hwm ≤ nav'
  · rw [if_pos habove]
    exact hlimit
  obtain ⟨hzero, hlt⟩ := not_or.mp habove
  have hlt' : ¬ hwm ≤ nav := fun hle => hlt (hle.trans hnav)
  rw [if_neg habove]
  rw [if_neg (not_or.mpr ⟨hzero, hlt'⟩)] at h
  rcases lt_or_gt_of_ne hzero with hneg | hpos
  · have hfraction : (hwm - nav') / hwm ≤ 0 :=
      div_nonpos_of_nonneg_of_nonpos (by linarith) hneg.le
    linarith
  · have hfraction : (hwm - nav') / hwm ≤ (hwm - nav) / hwm := by gcongr
    linarith

theorem capAndDrawdownGuards_relieved (hconfig : ctx.config.NonnegFractions) (h : Relieves r ctx)
    (hguards : ctx.capAndDrawdownGuards .exact = true) :
    (ctx.relieved r).capAndDrawdownGuards .exact = true := by
  unfold capAndDrawdownGuards at hguards ⊢
  rw [drawdownFraction_exact] at hguards ⊢
  simp only [Option.map_some, Option.getD_some, Bool.and_eq_true, decide_eq_true_eq,
    Bool.or_eq_true] at hguards ⊢
  obtain ⟨hcap, hsleeve⟩ := hguards
  exact ⟨h.leverage.trans hcap, hsleeve.imp_right fun hdd => drawdown_le hconfig.drawdown h.nav hdd⟩

theorem hardLimit_relieved (hconfig : ctx.config.NonnegFractions) (h : Relieves r ctx)
    (hpass : (⟨"hard_limit", HardLimitCheck.evaluate .exact⟩ : PreTradeCheck).passes ctx = true) :
    (⟨"hard_limit", HardLimitCheck.evaluate .exact⟩ : PreTradeCheck).passes (ctx.relieved r) =
      true := by
  unfold PreTradeCheck.passes at hpass ⊢
  rw [hardLimit_passes, Bool.and_eq_true] at hpass ⊢
  refine ⟨capAndDrawdownGuards_relieved hconfig h hpass.1, ?_⟩
  rw [Bool.or_eq_true] at hpass ⊢
  exact hpass.2.imp_right (budgetGuards_relieved hconfig h)

/-! ### The book -/

theorem OrderBookSnapshot.Deepened.samePrices {b b' : OrderBookSnapshot} (h : b.Deepened b') :
    b'.SamePrices b := by
  have hside : ∀ {xs ys : List OrderBookLevel},
      List.Forall₂ (fun l l' => l'.price = l.price ∧ l.quantity ≤ l'.quantity) xs ys →
        ys.map (·.price) = xs.map (·.price) := by
    intro xs ys hxs
    induction hxs with
    | nil => rfl
    | cons hl _ ih => rw [List.map_cons, List.map_cons, hl.1, ih]
  exact ⟨hside h.bids, hside h.asks⟩

theorem OrderBookSnapshot.Deepened.depthAgainst_le {b b' : OrderBookSnapshot} (h : b.Deepened b')
    (side : Side) (levels : ℕ) : b.depthAgainst side levels ≤ b'.depthAgainst side levels := by
  have hside : List.Forall₂ (fun l l' => l'.price = l.price ∧ l.quantity ≤ l'.quantity)
      (b.against side) (b'.against side) := by
    cases side with
    | buy => exact h.asks
    | sell => exact h.bids
  have htop := List.forall₂_take levels hside
  unfold OrderBookSnapshot.depthAgainst
  generalize (b.against side).take levels = top at htop ⊢
  generalize (b'.against side).take levels = top' at htop ⊢
  induction htop with
  | nil => exact le_rfl
  | cons hl _ ih =>
    rw [List.map_cons, List.map_cons, List.sum_cons, List.sum_cons]
    exact add_le_add hl.2 ih

/-- The depth part either approves or rejects. -/
theorem depth_ne_notApplicable (A : Arith) (ctx : PreTradeContext) (mid : ℚ) :
    SpreadLiquidityCheck.depth A ctx mid ≠ some notApplicable := by
  intro h
  unfold SpreadLiquidityCheck.depth at h
  simp only [Option.bind_eq_bind, Option.bind_eq_some_iff] at h
  obtain ⟨_, -, _, -, required, -, h⟩ := h
  cases hside : ctx.signal.side with
  | buy =>
    simp only [hside, Option.bind_eq_some_iff] at h
    obtain ⟨available, -, h⟩ := h
    split at h <;> cases h
  | sell =>
    simp only [hside, Option.bind_eq_some_iff] at h
    obtain ⟨available, -, h⟩ := h
    split at h <;> cases h

/-- And so does the whole check. -/
theorem spreadLiquidity_ne_notApplicable (A : Arith) (ctx : PreTradeContext) :
    SpreadLiquidityCheck.evaluate A ctx ≠ some notApplicable := by
  intro h
  unfold SpreadLiquidityCheck.evaluate at h
  split at h
  · cases h
  simp only [Option.bind_eq_bind, Option.bind_eq_some_iff] at h
  obtain ⟨spread, -, h⟩ := h
  cases spread with
  | none => cases h
  | some bps =>
    simp only at h
    split at h
    · cases h
    split at h
    · simp only [Option.bind_eq_some_iff] at h
      obtain ⟨_, -, mid, -, h⟩ := h
      split at h
      · cases h
      · exact depth_ne_notApplicable A ctx mid h
    · cases h

theorem spreadLiquidity_passes :
    (⟨"spread_liquidity", SpreadLiquidityCheck.evaluate .exact⟩ : PreTradeCheck).passes ctx = true ↔
      SpreadLiquidityCheck.evaluate .exact ctx = some approved := by
  unfold PreTradeCheck.passes
  constructor
  · intro h
    cases hvalue : SpreadLiquidityCheck.evaluate .exact ctx with
    | none => simp [hvalue] at h
    | some outcome =>
      cases outcome with
      | approved => rfl
      | rejected reason => simp [hvalue] at h
      | notApplicable => exact absurd hvalue (spreadLiquidity_ne_notApplicable _ _)
  · intro h
    simp [h]

theorem spreadLiquidity_relieved (hconfig : ctx.config.NonnegFractions)
    (hfx : 0 < ctx.market.fxQuotePerChf) (hprices : ctx.market.orderBook.PositivePrices)
    (h : Relieves r ctx) (hpass : SpreadLiquidityCheck.evaluate .exact ctx = some approved) :
    SpreadLiquidityCheck.evaluate .exact (ctx.relieved r) = some approved := by
  obtain ⟨bid, ask, hbid, hask, hspread, hdepth⟩ :=
    spreadLiquidity_approved Arith.exact_unrounded hpass
  obtain ⟨-, hmid, -⟩ := hprices.mid_pos hbid hask
  obtain ⟨bid', ask', hbid', hask', hbp, hap⟩ := h.book.samePrices.best hbid hask
  refine spreadLiquidity_exact hfx hbid' hask' ?_ ?_ ?_
  · rw [hbp, hap]
    linarith
  · rw [hbp, hap]
    exact hspread
  · rw [hbp, hap]
    have hquote : r.notionalChf * ctx.market.fxQuotePerChf ≤
        ctx.signal.notionalChf * ctx.market.fxQuotePerChf :=
      mul_le_mul_of_nonneg_right h.notional hfx.le
    have hmultiple := hconfig.depth
    calc (ctx.relieved r).signal.notionalQuote (ctx.relieved r).market /
          ((bid.price + ask.price) / 2) * ctx.config.minBookDepthMultiple
        ≤ ctx.signal.notionalQuote ctx.market / ((bid.price + ask.price) / 2) *
          ctx.config.minBookDepthMultiple := by
          show r.notionalChf * ctx.market.fxQuotePerChf / _ * _ ≤ _
          unfold Signal.notionalQuote
          gcongr
      _ ≤ ctx.market.orderBook.depthAgainst ctx.signal.side ctx.config.bookDepthLevels := hdepth
      _ ≤ r.orderBook.depthAgainst ctx.signal.side ctx.config.bookDepthLevels :=
        h.book.depthAgainst_le _ _

/-! ### The other checks -/

theorem liquidationLoop_relieved (xs : List OpenPositionSummary) (anyChecked : Bool) :
    LiquidationDistanceCheck.loop .exact (ctx.relieved r) xs anyChecked =
      LiquidationDistanceCheck.loop .exact ctx xs anyChecked := by
  induction xs generalizing anyChecked with
  | nil => rfl
  | cons pos rest ih =>
    unfold LiquidationDistanceCheck.loop
    rw [ih, ih]
    rfl

/-- The checks that read neither the sizes nor the P&L nor the levels. -/
theorem unread_relieved (h : Relieves r ctx) :
    StalenessCheck.evaluate (ctx.relieved r) = StalenessCheck.evaluate ctx ∧
      VolatilityRegimeCheck.evaluate (ctx.relieved r) = VolatilityRegimeCheck.evaluate ctx ∧
      DuplicatePositionCheck.evaluate (ctx.relieved r) = DuplicatePositionCheck.evaluate ctx ∧
      LiquidationDistanceCheck.evaluate .exact (ctx.relieved r) =
        LiquidationDistanceCheck.evaluate .exact ctx ∧
      FundingRateCheck.evaluate (ctx.relieved r) = FundingRateCheck.evaluate ctx := by
  refine ⟨?_, rfl, rfl, ?_, rfl⟩
  · have htime : (ctx.relieved r).market.orderBook.timestamp = ctx.market.orderBook.timestamp :=
      h.book.timestamp
    unfold StalenessCheck.evaluate
    rw [htime]
    rfl
  · unfold LiquidationDistanceCheck.evaluate
    rw [liquidationLoop_relieved]
    rfl

theorem passes_congr {id : String} {evaluate : PreTradeContext → Option CheckOutcome}
    {ctx' : PreTradeContext} (h : evaluate ctx' = evaluate ctx)
    (hpass : (⟨id, evaluate⟩ : PreTradeCheck).passes ctx = true) :
    (⟨id, evaluate⟩ : PreTradeCheck).passes ctx' = true := by
  show ((evaluate ctx').map CheckOutcome.passes).getD false = true
  rw [h]
  exact hpass

theorem notionalCap_relieved (h : Relieves r ctx)
    (hpass : (⟨"notional_cap", NotionalCapCheck.evaluate⟩ : PreTradeCheck).passes ctx = true) :
    (⟨"notional_cap", NotionalCapCheck.evaluate⟩ : PreTradeCheck).passes (ctx.relieved r) =
      true := by
  have hle : ∀ ctx : PreTradeContext,
      (⟨"notional_cap", NotionalCapCheck.evaluate⟩ : PreTradeCheck).passes ctx = true ↔
        ctx.signal.notionalChf ≤ ctx.config.maxNotionalChfPerOrder := by
    intro ctx
    unfold PreTradeCheck.passes NotionalCapCheck.evaluate
    by_cases hlt : ctx.config.maxNotionalChfPerOrder < ctx.signal.notionalChf
    · simp [hlt]
    · simp [hlt, not_lt.mp hlt]
  rw [hle] at hpass ⊢
  exact h.notional.trans hpass

end Checks

/-! ## Top theorem (proved from the lemmas above) -/

/-- **Less risk stays approved.**  Without rounding, with prices and a rate above zero and no
negative fraction in the configuration, an approved signal is still approved with a
smaller notional or leverage that is not negative, with more realised or unrealised P&L, with a
higher NAV per unit, and with more quantity at the levels of the book. -/
theorem approves_relieved {ctx : PreTradeContext} {r : Relief}
    (hprices : ctx.market.orderBook.PositivePrices) (hfx : 0 < ctx.market.fxQuotePerChf)
    (hconfig : ctx.config.NonnegFractions) (hrelief : Relieves r ctx)
    (happroved : PreTradeChecklist.approves (PreTradeChecklist.standard .exact) ctx = true) :
    PreTradeChecklist.approves (PreTradeChecklist.standard .exact) (ctx.relieved r) = true := by
  rw [PreTradeChecklist.approves_eq, Bool.and_eq_true] at happroved ⊢
  obtain ⟨hgate, hchecks⟩ := happroved
  refine ⟨hgate, ?_⟩
  obtain ⟨hstale, hvolatility, hduplicate, hliquidation, hfunding⟩ := unread_relieved hrelief
  simp only [PreTradeChecklist.standard, List.all_cons, List.all_nil, Bool.and_true,
    Bool.and_eq_true] at hchecks ⊢
  obtain ⟨h₁, h₂, h₃, h₄, h₅, h₆, h₇, h₈⟩ := hchecks
  refine ⟨passes_congr hstale h₁, ?_, passes_congr hvolatility h₃,
    hardLimit_relieved hconfig hrelief h₄, passes_congr hduplicate h₅,
    passes_congr hliquidation h₆, passes_congr hfunding h₇, notionalCap_relieved hrelief h₈⟩
  rw [spreadLiquidity_passes] at h₂ ⊢
  exact spreadLiquidity_relieved hconfig hfx hprices hrelief h₂

/-! ### Half the size, with a better account and a deeper book -/

def sizingContext : PreTradeContext :=
  ⟨halfLeverageSignal, sizingMarket, nearBudgetPortfolio, {}, 0⟩

def sizingRelief : Relief :=
  ⟨500, 1 / 4, [⟨.cryptoLeverage, 0, 0, -900, 5⟩], 2,
    ⟨[⟨50000, 300⟩], [⟨50010, 200⟩], 0⟩⟩

theorem approves_relieved_sample :
    PreTradeChecklist.approves (PreTradeChecklist.standard .exact)
      (sizingContext.relieved sizingRelief) = true := by
  have hprices : sizingContext.market.orderBook.PositivePrices := by
    intro l hl
    simp only [sizingContext, sizingMarket, List.mem_append, List.mem_singleton] at hl
    rcases hl with rfl | rfl
    · norm_num
    · norm_num
  have hconfig : sizingContext.config.NonnegFractions := by
    refine ⟨⟨?_, ?_, ?_⟩, ?_, ?_⟩ <;> norm_num [sizingContext]
  have hrelief : Relieves sizingRelief sizingContext := by
    refine ⟨?_, ?_, ?_, ?_, by decide +kernel, by decide +kernel, ?_, ?_⟩
    · norm_num [sizingRelief]
    · norm_num [sizingRelief, sizingContext, halfLeverageSignal]
    · norm_num [sizingRelief]
    · norm_num [sizingRelief, sizingContext, halfLeverageSignal]
    · norm_num [sizingRelief, sizingContext, nearBudgetPortfolio]
    · exact ⟨.cons ⟨rfl, by norm_num⟩ .nil, .cons ⟨rfl, by norm_num⟩ .nil, rfl⟩
  exact approves_relieved hprices (by norm_num [sizingContext, sizingMarket]) hconfig hrelief
    (by decide +kernel)

end RazorTrade
