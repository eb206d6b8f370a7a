import Mathlib.Tactic.Linarith
import Mathlib.Tactic.Positivity
import Mathlib.Tactic.FieldSimp
import RazorTrade.Daemon.System
import RazorTrade.Risk.LossStops

/-! # What is checked and what is submitted

The checklist sizes an order on its own: the worst case is `notional * leverage`, the depth
is a quantity of base currency.  The builder sizes it a second time: whole contracts of one
USD, from the notional and the rate.  This file relates the two sizes.

  `submitted_inside_checked_iff` :  exposure within the checked loss  ↔  leverage at least one
  `depth_covers_order_iff`       :  depth check covers the contracts  ↔  not `DepthUncovered`

The arithmetic may panic but does not round here (`Arith.Unrounded`). -/

namespace RazorTrade

open CheckOutcome

/-- The adverse move and the reserves are not negative. -/
structure RiskConfig.NonnegLossFractions (c : RiskConfig) : Prop where
  adverse : 0 ≤ c.adverseMoveForWorstCase
  fees : 0 ≤ c.expectedRoundTripFeeFraction
  funding : 0 ≤ c.expectedFundingReserveFraction

/-- What one CHF of exposure loses in the worst case. -/
def RiskConfig.lossFraction (c : RiskConfig) : ℚ :=
  c.adverseMoveForWorstCase + c.expectedRoundTripFeeFraction + c.expectedFundingReserveFraction

theorem RiskConfig.NonnegLossFractions.lossFraction_nonneg {c : RiskConfig}
    (h : c.NonnegLossFractions) : 0 ≤ c.lossFraction :=
  add_nonneg (add_nonneg h.adverse h.fees) h.funding

/-- Realised P&L of the leverage sleeve plus the adverse part of the unrealised one. -/
def PortfolioState.effectivePnl (p : PortfolioState) : ℚ :=
  p.leverageSleeveRealizedPnl + min p.leverageSleeveUnrealizedPnl 0

/-- The exposure of an order of one-USD contracts, in CHF. -/
def Order.exposureChf (o : Order) (market : MarketSnapshot) : ℚ :=
  o.quantity / market.fxQuotePerChf

/-- The exposure is below the cap, and its worst case leaves the budget intact. -/
structure InsideChecked (config : RiskConfig) (portfolio : PortfolioState) (exposure : ℚ) :
    Prop where
  cap : exposure ≤ config.maxNotionalChfPerOrder
  budget : config.leverageKillSwitchBudgetChf <
    portfolio.effectivePnl - exposure * config.lossFraction

/-- What is submitted for this signal stays inside what was checked: under every arithmetic,
configuration, market and portfolio. -/
def SubmittedInsideChecked (signal : Signal) : Prop :=
  ∀ (d : Daemon) (market : MarketSnapshot) (portfolio : PortfolioState) (now : Instant)
    (order : Order), d.A.Unrounded → d.risk.NonnegLossFractions →
    PreTradeChecklist.approves (PreTradeChecklist.standard d.A)
      ⟨signal, market, portfolio, d.risk, now⟩ = true →
    d.buildKrakenFuturesOrder signal market portfolio = .ok order →
    InsideChecked d.risk portfolio (order.exposureChf market)

namespace OrderBookSnapshot

/-- The side that an order of this direction would take from. -/
def against (b : OrderBookSnapshot) : Side → List OrderBookLevel
  | .buy => b.asks
  | .sell => b.bids

/-- The summed quantity of the top levels. -/
def depthAgainst (b : OrderBookSnapshot) (side : Side) (levels : ℕ) : ℚ :=
  (((b.against side).take levels).map (·.quantity)).sum

/-- Two books that differ in their quantities only. -/
def SamePrices (b b' : OrderBookSnapshot) : Prop :=
  b.bids.map (·.price) = b'.bids.map (·.price) ∧ b.asks.map (·.price) = b'.asks.map (·.price)

def PositivePrices (b : OrderBookSnapshot) : Prop :=
  ∀ l ∈ b.bids ++ b.asks, 0 < l.price

end OrderBookSnapshot

def MarketSnapshot.withBook (m : MarketSnapshot) (b : OrderBookSnapshot) : MarketSnapshot :=
  { m with orderBook := b }

/-- At the prices of this market the depth check covers the order that is sent, whatever the
quantities of the levels. -/
def DepthCovered (signal : Signal) (market : MarketSnapshot) (config : RiskConfig) : Prop :=
  ∀ (d : Daemon) (book : OrderBookSnapshot) (portfolio : PortfolioState) (now : Instant)
    (order : Order), d.A.Unrounded → d.risk = config → book.SamePrices market.orderBook →
    SpreadLiquidityCheck.evaluate d.A
      ⟨signal, market.withBook book, portfolio, config, now⟩ = some approved →
    d.buildKrakenFuturesOrder signal (market.withBook book) portfolio = .ok order →
    config.minBookDepthMultiple * order.quantity ≤
      book.depthAgainst signal.side config.bookDepthLevels

/-- The notional in quote currency, which is the number of contracts before the floor. -/
def Signal.notionalQuote (signal : Signal) (market : MarketSnapshot) : ℚ :=
  signal.notionalChf * market.fxQuotePerChf

/-- The order can be built, the spread is within the limit, and the multiple of its contracts
exceeds the multiple of the notional divided by the mid price. -/
structure DepthUncovered (signal : Signal) (market : MarketSnapshot) (config : RiskConfig) :
    Prop where
  fx : 0 < market.fxQuotePerChf
  levels : 0 < config.bookDepthLevels
  atLeastOne : 1 ≤ ⌊signal.notionalQuote market⌋
  atMostMax : ⌊signal.notionalQuote market⌋ ≤ maxContractsPerOrder
  twoSided : ∃ bid ask, market.orderBook.bestBid = some bid ∧
    market.orderBook.bestAsk = some ask ∧
    (ask.price - bid.price) / ((bid.price + ask.price) / 2) * 10000 ≤ config.maxSpreadBps ∧
    config.minBookDepthMultiple * signal.notionalQuote market <
      (bid.price + ask.price) / 2 * (config.minBookDepthMultiple * ⌊signal.notionalQuote market⌋)

/-! ## Lemmas -/

section Entry

variable {d : Daemon} {signal : Signal} {market : MarketSnapshot} {order : Order}

/-- An entry order: a positive rate and between one and the maximum of whole contracts. -/
theorem buildEntryOrder_ok (hA : d.A.Unrounded) (h : d.buildEntryOrder signal market = .ok order) :
    0 < market.fxQuotePerChf ∧ order.quantity = ⌊signal.notionalQuote market⌋ ∧
      1 ≤ ⌊signal.notionalQuote market⌋ ∧
      ⌊signal.notionalQuote market⌋ ≤ (maxContractsPerOrder : ℤ) := by
  obtain ⟨usd, level, hallowed, rfl⟩ := buildEntryOrder_iff.mp h
  have hquote : usd = signal.notionalQuote market := hA.mul_eq hallowed.product
  subst hquote
  exact ⟨hallowed.rate, rfl, hallowed.atLeastOne, hallowed.atMost⟩

/-- In exact arithmetic such a notional and a positive own side of the book build an order. -/
theorem buildEntryOrder_exact (hA : d.A = .exact) (hfx : 0 < market.fxQuotePerChf)
    (hlo : 1 ≤ ⌊signal.notionalQuote market⌋)
    (hhi : ⌊signal.notionalQuote market⌋ ≤ (maxContractsPerOrder : ℤ)) {p : ℚ}
    (hprice : Daemon.joinPrice signal market = some p) (hp : 0 < p) :
    d.buildEntryOrder signal market =
      .ok (d.krakenOrder signal .postOnly .gtc ⌊signal.notionalQuote market⌋ (some p) none) := by
  have hquote : d.A.mul signal.notionalChf market.fxQuotePerChf =
      some (signal.notionalQuote market) := by
    rw [hA]
    rfl
  rw [joinPrice_eq] at hprice
  obtain ⟨level, hbest, rfl⟩ := Option.map_eq_some_iff.mp hprice
  exact buildEntryOrder_of_allowed ⟨hfx, hquote, hlo, hhi, hbest, hp⟩

/-- The floor never adds exposure. -/
theorem exposureChf_le_notional (hfx : 0 < market.fxQuotePerChf)
    (hq : order.quantity = ⌊signal.notionalQuote market⌋) :
    order.exposureChf market ≤ signal.notionalChf := by
  rw [Order.exposureChf, hq, div_le_iff₀ hfx]
  exact Int.floor_le _

end Entry

/-- The notional cap and the hard limit, as bounds on an approved leverage signal. -/
theorem bounds_of_approves {A : Arith} {ctx : PreTradeContext} (hA : A.Unrounded)
    (hsleeve : ctx.signal.sleeve = .cryptoLeverage)
    (h : PreTradeChecklist.approves (PreTradeChecklist.standard A) ctx = true) :
    ctx.signal.notionalChf ≤ ctx.config.maxNotionalChfPerOrder ∧
      ctx.config.leverageKillSwitchBudgetChf <
        ctx.portfolio.effectivePnl -
          ctx.signal.notionalChf * ctx.signal.leverage * ctx.config.lossFraction := by
  rw [approves_standard, Bool.and_eq_true] at h
  obtain ⟨hother, hstops⟩ := h
  have hcap : NotionalCapCheck.evaluate ctx = some approved := by
    have hall := (Bool.and_eq_true _ _ ▸ hother).1
    have hnotional := List.all_eq_true.mp hall ⟨"notional_cap", NotionalCapCheck.evaluate⟩
      (by simp [PreTradeChecklist.standard])
    by_cases hn : ctx.config.maxNotionalChfPerOrder < ctx.signal.notionalChf
    · simp [PreTradeCheck.passes, NotionalCapCheck.evaluate, hn] at hnotional
    · simp [NotionalCapCheck.evaluate, hn]
  have hnotional : ctx.signal.notionalChf ≤ ctx.config.maxNotionalChfPerOrder := by
    by_contra hn
    simp [NotionalCapCheck.evaluate, not_le.mp hn] at hcap
  refine ⟨hnotional, ?_⟩
  have hguards : ctx.budgetGuards A = true := by
    have := hstops
    simp only [PreTradeContext.lossStopsClear, hsleeve, ne_eq, not_true_eq_false, decide_false,
      Bool.false_or, Bool.and_eq_true] at this
    exact this.2
  unfold PreTradeContext.budgetGuards at hguards
  split at hguards
  · cases hguards
  rename_i effective heffective
  have he : effective = ctx.portfolio.effectivePnl := hA.add_eq heffective
  simp only [Bool.and_eq_true] at hguards
  have hworst := hguards.2
  split at hworst
  · cases hworst
  rename_i loss hloss
  unfold HardLimitCheck.worstCaseLoss at hloss
  simp only [Option.bind_eq_bind, Option.bind_eq_some_iff] at hloss
  obtain ⟨n, hn, a, ha, f, hf, r, hr, s, hs, ht⟩ := hloss
  have hlossEq : loss =
      ctx.signal.notionalChf * ctx.signal.leverage * ctx.config.lossFraction := by
    rw [hA.add_eq ht, hA.add_eq hs, hA.mul_eq ha, hA.mul_eq hf, hA.mul_eq hr, hA.mul_eq hn]
    unfold RiskConfig.lossFraction
    ring
  cases hsub : A.sub effective loss with
  | none => simp [hsub] at hworst
  | some x =>
    simp only [hsub, Option.map_some, Option.getD_some, decide_eq_true_eq] at hworst
    rw [hA.sub_eq hsub, he, hlossEq] at hworst
    exact hworst

/-! ### What the depth check demands -/

section Depth

variable {A : Arith} {ctx : PreTradeContext} {bid ask : OrderBookLevel}

theorem askDepth_eq (hA : A.Unrounded) {b : OrderBookSnapshot} {n : ℕ} {x : ℚ}
    (h : b.askDepth A n = some x) : x = b.depthAgainst .buy n :=
  hA.sum_eq h

theorem bidDepth_eq (hA : A.Unrounded) {b : OrderBookSnapshot} {n : ℕ} {x : ℚ}
    (h : b.bidDepth A n = some x) : x = b.depthAgainst .sell n :=
  hA.sum_eq h

/-- An approved depth: the top levels hold the buffered base quantity. -/
theorem depth_approved (hA : A.Unrounded) {mid : ℚ}
    (h : SpreadLiquidityCheck.depth A ctx mid = some approved) :
    ctx.signal.notionalQuote ctx.market / mid * ctx.config.minBookDepthMultiple ≤
      ctx.market.orderBook.depthAgainst ctx.signal.side ctx.config.bookDepthLevels := by
  unfold SpreadLiquidityCheck.depth at h
  simp only [Option.bind_eq_bind, Option.bind_eq_some_iff] at h
  obtain ⟨quote, hquote, base, hbase, required, hrequired, h⟩ := h
  have hreq : required =
      ctx.signal.notionalQuote ctx.market / mid * ctx.config.minBookDepthMultiple := by
    rw [hA.mul_eq hrequired, hA.div_eq hbase, hA.mul_eq hquote]
    rfl
  rw [← hreq]
  cases hside : ctx.signal.side with
  | buy =>
    simp only [hside, Option.bind_eq_some_iff, Option.map_eq_some_iff] at h
    obtain ⟨_, ⟨available, havailable, rfl⟩, h⟩ := h
    rw [← askDepth_eq hA havailable]
    by_contra hlt
    simp [not_le.mp hlt] at h
  | sell =>
    simp only [hside, Option.bind_eq_some_iff, Option.map_eq_some_iff] at h
    obtain ⟨_, ⟨available, havailable, rfl⟩, h⟩ := h
    rw [← bidDepth_eq hA havailable]
    by_contra hlt
    simp [not_le.mp hlt] at h

/-- An approved check: a two-sided book within the spread limit, and an approved depth. -/
theorem spreadLiquidity_approved (hA : A.Unrounded)
    (h : SpreadLiquidityCheck.evaluate A ctx = some approved) :
    ∃ bid ask, ctx.market.orderBook.bestBid = some bid ∧
      ctx.market.orderBook.bestAsk = some ask ∧
      (ask.price - bid.price) / ((bid.price + ask.price) / 2) * 10000 ≤ ctx.config.maxSpreadBps ∧
      ctx.signal.notionalQuote ctx.market / ((bid.price + ask.price) / 2) *
          ctx.config.minBookDepthMultiple ≤
        ctx.market.orderBook.depthAgainst ctx.signal.side ctx.config.bookDepthLevels := by
  unfold SpreadLiquidityCheck.evaluate at h
  by_cases hfx : ctx.market.fxQuotePerChf ≤ 0
  · simp [hfx] at h
  simp only [hfx, if_false, Option.bind_eq_bind, Option.pure_def, Option.bind_eq_some_iff] at h
  obtain ⟨spread, hspread, h⟩ := h
  cases spread with
  | none => simp [SpreadLiquidityCheck.noBook] at h
  | some bps =>
    by_cases hwide : ctx.config.maxSpreadBps < bps
    · simp [hwide] at h
    simp only [hwide, if_false] at h
    split at h
    case h_2 => simp [SpreadLiquidityCheck.noBook] at h
    rename_i bid ask hbid hask
    simp only [Option.bind_eq_some_iff] at h
    obtain ⟨sum, hsum, mid, hmid, h⟩ := h
    have hmidEq : mid = (bid.price + ask.price) / 2 := by rw [hA.div_eq hmid, hA.add_eq hsum]
    by_cases hzero : mid = 0
    · simp [hzero, SpreadLiquidityCheck.noBook] at h
    simp only [hzero, if_false] at h
    refine ⟨bid, ask, hbid, hask, ?_, hmidEq ▸ depth_approved hA h⟩
    -- the spread that was compared with the limit
    unfold OrderBookSnapshot.spreadBps at hspread
    simp only [hbid, hask, Option.bind_eq_bind, Option.pure_def,
      Option.bind_eq_some_iff] at hspread
    obtain ⟨sum', hsum', mid', hmid', hspread⟩ := hspread
    have hmidEq' : mid' = (bid.price + ask.price) / 2 := by rw [hA.div_eq hmid', hA.add_eq hsum']
    have hzero' : mid' ≠ 0 := by rwa [hmidEq', ← hmidEq]
    simp only [hzero', if_false, Option.bind_eq_some_iff] at hspread
    obtain ⟨diff, hdiff, rel, hrel, x, hx, hbps⟩ := hspread
    cases hbps
    rw [hA.mul_eq hx, hA.div_eq hrel, hA.sub_eq hdiff, hmidEq'] at hwide
    exact not_lt.mp hwide

/-- In exact arithmetic those demands are all. -/
theorem spreadLiquidity_exact (hfx : 0 < ctx.market.fxQuotePerChf)
    (hbid : ctx.market.orderBook.bestBid = some bid)
    (hask : ctx.market.orderBook.bestAsk = some ask)
    (hsum : bid.price + ask.price ≠ 0)
    (hspread : (ask.price - bid.price) / ((bid.price + ask.price) / 2) * 10000 ≤
      ctx.config.maxSpreadBps)
    (hdepth : ctx.signal.notionalQuote ctx.market / ((bid.price + ask.price) / 2) *
        ctx.config.minBookDepthMultiple ≤
      ctx.market.orderBook.depthAgainst ctx.signal.side ctx.config.bookDepthLevels) :
    SpreadLiquidityCheck.evaluate .exact ctx = some approved := by
  have hmid : (bid.price + ask.price) / 2 ≠ 0 := div_ne_zero hsum two_ne_zero
  have hbook : ctx.market.orderBook.spreadBps .exact =
      some (some ((ask.price - bid.price) / ((bid.price + ask.price) / 2) * 10000)) := by
    simp [OrderBookSnapshot.spreadBps, hbid, hask, Arith.exact_div, hsum]
  have hlevels : SpreadLiquidityCheck.depth .exact ctx ((bid.price + ask.price) / 2) =
      some approved := by
    unfold SpreadLiquidityCheck.depth
    rw [Signal.notionalQuote] at hdepth
    cases hside : ctx.signal.side <;>
      simp [hside, OrderBookSnapshot.depthAgainst, OrderBookSnapshot.against] at hdepth <;>
      simp [OrderBookSnapshot.askDepth, OrderBookSnapshot.bidDepth, Arith.exact_div, hmid,
        not_lt.mpr hdepth]
  unfold SpreadLiquidityCheck.evaluate
  simp [not_le.mpr hfx, hbook, not_lt.mpr hspread, hbid, hask, Arith.exact_div, hsum, hlevels]

end Depth

/-! ### The exposure -/

/-- A leverage of at least one makes the checked worst case an upper bound. -/
theorem insideChecked_of_leverage {config : RiskConfig} {portfolio : PortfolioState}
    {notional leverage exposure : ℚ} (hnonneg : config.NonnegLossFractions)
    (hlev : 1 ≤ leverage) (hpos : 0 ≤ notional) (hexp : exposure ≤ notional)
    (hcap : notional ≤ config.maxNotionalChfPerOrder)
    (hbudget : config.leverageKillSwitchBudgetChf <
      portfolio.effectivePnl - notional * leverage * config.lossFraction) :
    InsideChecked config portfolio exposure := by
  refine ⟨hexp.trans hcap, lt_of_lt_of_le hbudget (sub_le_sub_left ?_ _)⟩
  have hchecked : exposure ≤ notional * leverage :=
    hexp.trans (le_mul_of_one_le_right hpos hlev)
  exact mul_le_mul_of_nonneg_right hchecked hnonneg.lossFraction_nonneg

/-! The other direction needs one market and one portfolio for every signal whose checked
worst case is too small: a rate at which the notional is exactly one contract, a worst case
of the whole exposure, and an effective P&L of the notional over a budget of zero. -/

def oneContractConfig (signal : Signal) : RiskConfig :=
  { maxLeverage := 1, maxNotionalChfPerOrder := signal.notionalChf, minBookDepthMultiple := 0,
    leverageKillSwitchBudgetChf := 0, adverseMoveForWorstCase := 1,
    expectedRoundTripFeeFraction := 0, expectedFundingReserveFraction := 0 }

def oneContractMarket (signal : Signal) : MarketSnapshot :=
  ⟨signal.instrumentSymbol, ⟨[⟨1, 1⟩], [⟨1, 1⟩], 0⟩, 1, 0, 0, 0, none, 1 / signal.notionalChf⟩

def oneContractPortfolio (signal : Signal) : PortfolioState :=
  ⟨0, [⟨.cryptoLeverage, 0, 0, signal.notionalChf, 0⟩], 0, 0, 0, false, []⟩

def oneContractContext (signal : Signal) : PreTradeContext :=
  ⟨signal, oneContractMarket signal, oneContractPortfolio signal, oneContractConfig signal, 0⟩

def oneContractDaemon (signal : Signal) : Daemon :=
  { sampleDaemon with risk := oneContractConfig signal }

section OneContract

variable {signal : Signal}

theorem oneContract_effectivePnl :
    (oneContractPortfolio signal).effectivePnl = signal.notionalChf := by
  simp [PortfolioState.effectivePnl, PortfolioState.leverageSleeveRealizedPnl,
    PortfolioState.leverageSleeveUnrealizedPnl, PortfolioState.sleeve, oneContractPortfolio]

theorem oneContract_spread (hpos : 0 < signal.notionalChf) :
    SpreadLiquidityCheck.evaluate .exact (oneContractContext signal) = some approved := by
  have hbid : (oneContractContext signal).market.orderBook.bestBid = some ⟨1, 1⟩ := rfl
  have hask : (oneContractContext signal).market.orderBook.bestAsk = some ⟨1, 1⟩ := rfl
  refine spreadLiquidity_exact (one_div_pos.mpr hpos) hbid hask (by norm_num) (by norm_num [oneContractContext, oneContractConfig]) ?_
  cases hside : signal.side <;>
    simp [oneContractContext, oneContractConfig, oneContractMarket, hside,
      OrderBookSnapshot.depthAgainst, OrderBookSnapshot.against]

theorem oneContract_hardLimit (hpos : 0 < signal.notionalChf) (hlev : signal.leverage < 1) :
    HardLimitCheck.evaluate .exact (oneContractContext signal) = some approved := by
  have hloss : signal.notionalChf * signal.leverage < signal.notionalChf :=
    mul_lt_of_lt_one_right hpos hlev
  have hdrawdown : ¬ (2 / 10 : ℚ) < 0 := by norm_num
  simp [HardLimitCheck.evaluate, HardLimitCheck.worstCaseLoss, oneContractContext,
    oneContractConfig, oneContractPortfolio, PortfolioState.leverageSleeveEffectivePnl,
    PortfolioState.leverageSleeveRealizedPnl, PortfolioState.leverageSleeveUnrealizedPnl,
    PortfolioState.sleeve, PortfolioState.drawdownFraction, not_le.mpr hpos, not_le.mpr hloss,
    not_lt.mpr hlev.le, hdrawdown]

theorem oneContract_approved (hpos : 0 < signal.notionalChf) (hlev : signal.leverage < 1) :
    PreTradeChecklist.approves (PreTradeChecklist.standard .exact) (oneContractContext signal) =
      true := by
  have hgate : PreTradeChecklist.killSwitchGate (oneContractContext signal) = [] := rfl
  have hvolatility : VolatilityRegimeCheck.evaluate (oneContractContext signal) =
      some approved := by
    norm_num [VolatilityRegimeCheck.evaluate, oneContractContext, oneContractMarket,
      oneContractConfig]
  have hduplicate : (⟨"duplicate_position", DuplicatePositionCheck.evaluate⟩ :
      PreTradeCheck).passes (oneContractContext signal) = true := by
    by_cases hs : signal.sleeve = .cryptoLeverage <;>
      simp [PreTradeCheck.passes, DuplicatePositionCheck.evaluate, oneContractContext,
        oneContractPortfolio, hs]
  have hliquidation : (⟨"liquidation_distance", LiquidationDistanceCheck.evaluate .exact⟩ :
      PreTradeCheck).passes (oneContractContext signal) = true := by
    by_cases hs : signal.sleeve = .cryptoLeverage <;>
      simp [PreTradeCheck.passes, LiquidationDistanceCheck.evaluate, oneContractContext,
        oneContractMarket, hs]
  have hnotional : NotionalCapCheck.evaluate (oneContractContext signal) = some approved := by
    simp [NotionalCapCheck.evaluate, oneContractContext, oneContractConfig]
  rw [PreTradeChecklist.approves_eq, hgate]
  simp only [PreTradeChecklist.standard, List.all_cons, List.all_nil, hduplicate, hliquidation]
  simp only [PreTradeCheck.passes, oneContract_spread hpos, oneContract_hardLimit hpos hlev, hvolatility,
    hnotional]
  rfl

/-- The order of one contract that is built there. -/
theorem oneContract_order (hpos : 0 < signal.notionalChf) (htype : signal.signalType ≠ .trendExit) :
    ∃ order, (oneContractDaemon signal).buildKrakenFuturesOrder signal (oneContractMarket signal)
        (oneContractPortfolio signal) = .ok order ∧ order.quantity = 1 := by
  have hquote : signal.notionalQuote (oneContractMarket signal) = 1 :=
    mul_one_div_cancel (ne_of_gt hpos)
  have hfloor : ⌊signal.notionalQuote (oneContractMarket signal)⌋ = 1 := by
    rw [hquote, Int.floor_one]
  have hprice : Daemon.joinPrice signal (oneContractMarket signal) = some 1 := by
    unfold Daemon.joinPrice oneContractMarket
    cases signal.side <;> rfl
  have hbuild := buildEntryOrder_exact (d := oneContractDaemon signal) rfl (one_div_pos.mpr hpos)
    hfloor.ge (by norm_num [hfloor, maxContractsPerOrder]) hprice one_pos
  refine ⟨_, (buildKrakenFuturesOrder_entry _ htype).trans hbuild, ?_⟩
  simp [Daemon.krakenOrder, hfloor]

end OneContract

/-! ### The depth -/

/-- The book with this quantity on every level. -/
def OrderBookSnapshot.withQuantity (b : OrderBookSnapshot) (q : ℚ) : OrderBookSnapshot :=
  { b with
    bids := b.bids.map fun l => { l with quantity := q }
    asks := b.asks.map fun l => { l with quantity := q } }

theorem withQuantity_samePrices (b : OrderBookSnapshot) (q : ℚ) :
    (b.withQuantity q).SamePrices b := by
  simp [OrderBookSnapshot.SamePrices, OrderBookSnapshot.withQuantity, Function.comp_def]

theorem withQuantity_depthAgainst (b : OrderBookSnapshot) (q : ℚ) (side : Side) (levels : ℕ) :
    (b.withQuantity q).depthAgainst side levels =
      (min levels (b.against side).length : ℕ) * q := by
  have hagainst : (b.withQuantity q).against side =
      (b.against side).map fun l => { l with quantity := q } := by
    cases side <;> rfl
  rw [OrderBookSnapshot.depthAgainst, hagainst, ← List.map_take, List.map_map]
  simp [Function.comp_def]

theorem depthAgainst_zero (b : OrderBookSnapshot) (side : Side) : b.depthAgainst side 0 = 0 := by
  simp [OrderBookSnapshot.depthAgainst]

/-- The best price of each side is a price of the book. -/
theorem OrderBookSnapshot.PositivePrices.mid_pos {b : OrderBookSnapshot} {bid ask : OrderBookLevel}
    (h : b.PositivePrices) (hbid : b.bestBid = some bid) (hask : b.bestAsk = some ask) :
    0 < bid.price ∧ 0 < (bid.price + ask.price) / 2 ∧ 0 < ask.price := by
  have hb : 0 < bid.price := h bid (List.mem_append_left _ (List.mem_of_mem_head? hbid))
  have ha : 0 < ask.price := h ask (List.mem_append_right _ (List.mem_of_mem_head? hask))
  exact ⟨hb, by positivity, ha⟩

/-- Books of the same prices have the same best prices. -/
theorem OrderBookSnapshot.SamePrices.best {b b' : OrderBookSnapshot} {bid' ask' : OrderBookLevel}
    (h : b.SamePrices b') (hbid : b'.bestBid = some bid') (hask : b'.bestAsk = some ask') :
    ∃ bid ask, b.bestBid = some bid ∧ b.bestAsk = some ask ∧ bid.price = bid'.price ∧
      ask.price = ask'.price := by
  have hb : b.bids.head?.map (·.price) = some bid'.price := by
    rw [← List.head?_map, h.1, List.head?_map]
    exact congrArg _ hbid
  have ha : b.asks.head?.map (·.price) = some ask'.price := by
    rw [← List.head?_map, h.2, List.head?_map]
    exact congrArg _ hask
  obtain ⟨bid, hbid, hbp⟩ := Option.map_eq_some_iff.mp hb
  obtain ⟨ask, hask, hap⟩ := Option.map_eq_some_iff.mp ha
  exact ⟨bid, ask, hbid, hask, hbp, hap⟩

theorem OrderBookSnapshot.SamePrices.symm {b b' : OrderBookSnapshot} (h : b.SamePrices b') : b'.SamePrices b :=
  ⟨h.1.symm, h.2.symm⟩

theorem against_length_pos {b : OrderBookSnapshot} {bid ask : OrderBookLevel} (side : Side)
    (hbid : b.bestBid = some bid) (hask : b.bestAsk = some ask) :
    0 < (b.against side).length := by
  cases side with
  | buy => exact List.length_pos_of_mem (List.mem_of_mem_head? hask)
  | sell => exact List.length_pos_of_mem (List.mem_of_mem_head? hbid)

theorem joinPrice_pos (signal : Signal) (market : MarketSnapshot) {bid ask : OrderBookLevel}
    (hbid : market.orderBook.bestBid = some bid) (hask : market.orderBook.bestAsk = some ask)
    (hb : 0 < bid.price) (ha : 0 < ask.price) :
    ∃ p, Daemon.joinPrice signal market = some p ∧ 0 < p := by
  unfold Daemon.joinPrice
  cases signal.side with
  | buy => exact ⟨bid.price, congrArg (Option.map OrderBookLevel.price) hbid, hb⟩
  | sell => exact ⟨ask.price, congrArg (Option.map OrderBookLevel.price) hask, ha⟩

/-- An approved check and a built order that are short of depth meet `DepthUncovered`. -/
theorem depthUncovered_of_short {d : Daemon} {signal : Signal} {market : MarketSnapshot}
    {book : OrderBookSnapshot} {portfolio : PortfolioState} {config : RiskConfig} {now : Instant}
    {order : Order} (hA : d.A.Unrounded) (htype : signal.signalType ≠ .trendExit)
    (hprices : market.orderBook.PositivePrices) (hsame : book.SamePrices market.orderBook)
    (hcheck : SpreadLiquidityCheck.evaluate d.A
      ⟨signal, market.withBook book, portfolio, config, now⟩ = some approved)
    (hbuild : d.buildKrakenFuturesOrder signal (market.withBook book) portfolio = .ok order)
    (hshort : book.depthAgainst signal.side config.bookDepthLevels <
      config.minBookDepthMultiple * order.quantity) :
    DepthUncovered signal market config := by
  rw [buildKrakenFuturesOrder_entry _ htype] at hbuild
  obtain ⟨hfx, hquantity, hlo, hhi⟩ := buildEntryOrder_ok hA hbuild
  obtain ⟨bid', ask', hbid', hask', hspread, hdepth⟩ := spreadLiquidity_approved hA hcheck
  obtain ⟨bid, ask, hbid, hask, hb, ha⟩ := hsame.symm.best hbid' hask'
  obtain ⟨-, hmid, -⟩ := hprices.mid_pos hbid hask
  rw [← hb, ← ha] at hspread hdepth
  have hq : order.quantity = ⌊signal.notionalQuote market⌋ := hquantity
  have hN : (market.withBook book).fxQuotePerChf = market.fxQuotePerChf := rfl
  have hneed : signal.notionalQuote market / ((bid.price + ask.price) / 2) *
      config.minBookDepthMultiple < config.minBookDepthMultiple * ⌊signal.notionalQuote market⌋ :=
    lt_of_le_of_lt hdepth (hq ▸ hshort)
  refine ⟨hfx, Nat.pos_of_ne_zero fun hzero => ?_, hlo, hhi, bid, ask, hbid, hask, hspread, ?_⟩
  · -- with no level at all the check passes only for a multiple that demands nothing
    rw [hzero, depthAgainst_zero] at hshort
    have hdepth0 := hdepth
    simp only [hzero, depthAgainst_zero] at hdepth0
    have hpos : 0 < order.quantity := by
      rw [hq]
      exact_mod_cast hlo
    have hmult : 0 < config.minBookDepthMultiple := (mul_pos_iff_of_pos_right hpos).mp hshort
    have hnotional : 0 < signal.notionalQuote market :=
      lt_of_lt_of_le (by exact_mod_cast hlo) (Int.floor_le _)
    exact absurd hdepth0 (not_le.mpr (by positivity))
  · rw [div_mul_eq_mul_div, div_lt_iff₀ hmid] at hneed
    linarith

/-! ## Top theorems (proved from the lemmas above) -/

/-- **The submitted exposure and the checked loss.**  For a leveraged entry the order stays
inside what the checklist approved, under every market, portfolio and configuration, exactly
when the signal's leverage is at least one or its notional builds no order. -/
theorem submitted_inside_checked_iff (signal : Signal) (hsleeve : signal.sleeve = .cryptoLeverage)
    (htype : signal.signalType = .trendEntry) :
    SubmittedInsideChecked signal ↔ signal.notionalChf ≤ 0 ∨ 1 ≤ signal.leverage := by
  have hentry : signal.signalType ≠ .trendExit := by simp [htype]
  constructor
  · intro hinside
    by_contra hcond
    obtain ⟨hpos, hlev⟩ := not_or.mp hcond
    rw [not_le] at hpos hlev
    obtain ⟨order, hbuild, hquantity⟩ := oneContract_order hpos hentry
    have hnonneg : (oneContractConfig signal).NonnegLossFractions :=
      ⟨zero_le_one, le_refl 0, le_refl 0⟩
    have hbudget := (hinside (oneContractDaemon signal) _ _ 0 order Arith.exact_unrounded hnonneg
      (oneContract_approved hpos hlev) hbuild).budget
    have hexposure : order.exposureChf (oneContractMarket signal) = signal.notionalChf := by
      simp [Order.exposureChf, hquantity, oneContractMarket]
    rw [oneContract_effectivePnl, hexposure] at hbudget
    norm_num [oneContractDaemon, oneContractConfig, RiskConfig.lossFraction] at hbudget
  · intro hcond d market portfolio now order hA hnonneg happroved hbuild
    rw [buildKrakenFuturesOrder_entry _ hentry] at hbuild
    obtain ⟨hfx, hquantity, hlo, -⟩ := buildEntryOrder_ok hA hbuild
    have hquote : 0 < signal.notionalChf * market.fxQuotePerChf :=
      lt_of_lt_of_le (by exact_mod_cast hlo) (Int.floor_le _)
    have hpos : 0 < signal.notionalChf := (mul_pos_iff_of_pos_right hfx).mp hquote
    have hlev : 1 ≤ signal.leverage := hcond.resolve_left (not_le.mpr hpos)
    obtain ⟨hcap, hbudget⟩ := bounds_of_approves hA hsleeve happroved
    exact insideChecked_of_leverage hnonneg hlev hpos.le
      (exposureChf_le_notional hfx hquantity) hcap hbudget

/-! ### A row with a leverage below one

The worst case is checked on half the exposure: 51.5 CHF over a P&L of -940 CHF.  The order
of 1100 contracts stands for 103 CHF. -/

def halfLeverageRow : SignalRow :=
  { sampleSignal with id := 1, notionalChf := "1000", leverage := "0.5" }

def halfLeverageSignal : Signal :=
  ⟨1, sampleTime, perpSymbol, .buy, .trendEntry, .cryptoLeverage, 1000, 1 / 2,
    some (.obj [("atr_absolute", .str "400"), ("atr_pct", .str "0.8"),
      ("fx_quote_per_chf", .str "1.1")]), .pending, none, none⟩

theorem halfLeverage_parsed :
    sampleDaemon.rowToSignal halfLeverageRow = .ok halfLeverageSignal := by
  have hnotional : parsePlain "1000" = .ok 1000 := by decide +kernel
  have hleverage : parsePlain "0.5" = .ok (1 / 2) := by decide +kernel
  simp [Daemon.rowToSignal, halfLeverageRow, halfLeverageSignal, sampleSignal, sampleDaemon,
    orError, withPrefix, hnotional, hleverage, Side.ofText?, SignalType.ofText?, Sleeve.ofText?,
    SignalStatus.ofText?, parseOptional, JsonText.parse, Except.map, bind, Except.bind, pure,
    Except.pure]

def sizingMarket : MarketSnapshot :=
  ⟨perpSymbol, ⟨[⟨50000, 200⟩], [⟨50010, 200⟩], 0⟩, 50000, 0, 400, 8 / 10, none, 11 / 10⟩

def nearBudgetPortfolio : PortfolioState :=
  ⟨0, [⟨.cryptoLeverage, 0, 0, -940, 0⟩], 1, 1, 1, false, []⟩

theorem halfLeverage_order :
    ∃ order, sampleDaemon.buildKrakenFuturesOrder halfLeverageSignal sizingMarket
      nearBudgetPortfolio = .ok order ∧ order.reduceOnly = none ∧ order.quantity = 1100 := by
  have hfloor : ⌊halfLeverageSignal.notionalQuote sizingMarket⌋ = 1100 := by decide +kernel
  have hfx : 0 < sizingMarket.fxQuotePerChf := by norm_num [sizingMarket]
  have hentry : sampleDaemon.buildEntryOrder halfLeverageSignal sizingMarket = .ok _ :=
    buildEntryOrder_exact rfl hfx (by norm_num [hfloor]) (by norm_num [hfloor, maxContractsPerOrder])
      rfl (by norm_num : (0 : ℚ) < 50000)
  have hbuild := (buildKrakenFuturesOrder_entry nearBudgetPortfolio (by decide)).trans hentry
  refine ⟨_, hbuild, rfl, ?_⟩
  simp [Daemon.krakenOrder, hfloor]

theorem submitted_inside_checked_iff_sample :
    SubmittedInsideChecked halfLeverageSignal ↔
      halfLeverageSignal.notionalChf ≤ 0 ∨ 1 ≤ halfLeverageSignal.leverage :=
  submitted_inside_checked_iff halfLeverageSignal rfl rfl

theorem submitted_outside_checked :
    sampleDaemon.rowToSignal halfLeverageRow = .ok halfLeverageSignal ∧
      halfLeverageSignal.sleeve = .cryptoLeverage ∧ halfLeverageSignal.signalType = .trendEntry ∧
      sampleDaemon.risk.NonnegLossFractions ∧
      PreTradeChecklist.approves (PreTradeChecklist.standard sampleDaemon.A)
        ⟨halfLeverageSignal, sizingMarket, nearBudgetPortfolio, sampleDaemon.risk, 0⟩ = true ∧
      ∃ order, sampleDaemon.buildKrakenFuturesOrder halfLeverageSignal sizingMarket
          nearBudgetPortfolio = .ok order ∧ order.quantity = 1100 ∧
        ¬ InsideChecked sampleDaemon.risk nearBudgetPortfolio (order.exposureChf sizingMarket) := by
  refine ⟨halfLeverage_parsed, rfl, rfl, ⟨?_, ?_, ?_⟩, by decide +kernel, ?_⟩
  · norm_num [sampleDaemon]
  · norm_num [sampleDaemon]
  · norm_num [sampleDaemon]
  · obtain ⟨order, hbuild, -, hquantity⟩ := halfLeverage_order
    refine ⟨order, hbuild, hquantity, fun hinside => ?_⟩
    have hbudget := hinside.budget
    norm_num [Order.exposureChf, hquantity, sizingMarket, sampleDaemon, RiskConfig.lossFraction,
      PortfolioState.effectivePnl, PortfolioState.leverageSleeveRealizedPnl,
      PortfolioState.leverageSleeveUnrealizedPnl, PortfolioState.sleeve,
      nearBudgetPortfolio] at hbudget

/-- **The depth check and the order.**  At these prices the approved depth covers the
contracts of the order, for every book of these prices, exactly when the unit of the check is
not the smaller one: not `DepthUncovered`. -/
theorem depth_covers_order_iff (signal : Signal) (market : MarketSnapshot) (config : RiskConfig)
    (hprices : market.orderBook.PositivePrices) (htype : signal.signalType ≠ .trendExit) :
    DepthCovered signal market config ↔ ¬ DepthUncovered signal market config := by
  constructor
  · rintro hcovered ⟨hfx, hlevels, hlo, hhi, bid, ask, hbid, hask, hspread, hshort⟩
    obtain ⟨hbidPos, hmid, haskPos⟩ := hprices.mid_pos hbid hask
    -- the thinnest book that the check approves, with the depth spread over its levels
    set required := signal.notionalQuote market / ((bid.price + ask.price) / 2) *
      config.minBookDepthMultiple with hrequired
    set counted : ℕ :=
      min config.bookDepthLevels (market.orderBook.against signal.side).length with hcounted
    have hcountedPos : (0 : ℚ) < counted := by
      have hlength : 0 < (market.orderBook.against signal.side).length :=
        against_length_pos signal.side hbid hask
      exact_mod_cast lt_min hlevels hlength
    set book := market.orderBook.withQuantity (required / counted) with hbook
    have hdepth : book.depthAgainst signal.side config.bookDepthLevels = required := by
      rw [hbook, withQuantity_depthAgainst]
      exact mul_div_cancel₀ _ hcountedPos.ne'
    have hsame : book.SamePrices market.orderBook := withQuantity_samePrices _ _
    obtain ⟨bid', ask', hbid', hask', hb, ha⟩ := hsame.best hbid hask
    have hsum : bid'.price + ask'.price ≠ 0 := by
      rw [hb, ha]
      exact (add_pos hbidPos haskPos).ne'
    have hcheck : SpreadLiquidityCheck.evaluate .exact
        ⟨signal, market.withBook book, sampleExit.portfolio, config, 0⟩ = some approved := by
      refine spreadLiquidity_exact hfx hbid' hask' hsum ?_ ?_
      · rw [hb, ha]
        exact hspread
      · rw [hb, ha]
        exact hdepth.ge
    obtain ⟨p, hprice, hp⟩ := joinPrice_pos signal (market.withBook book) hbid' hask'
      (hb ▸ hbidPos) (ha ▸ haskPos)
    have hfxBook : 0 < (market.withBook book).fxQuotePerChf := hfx
    have hentry : Daemon.buildEntryOrder { sampleDaemon with risk := config } signal
        (market.withBook book) = .ok _ := buildEntryOrder_exact rfl hfxBook hlo hhi hprice hp
    have hbuild := (buildKrakenFuturesOrder_entry sampleExit.portfolio htype).trans hentry
    have hcover := hcovered _ book _ 0 _ Arith.exact_unrounded rfl hsame hcheck hbuild
    rw [hdepth] at hcover
    have hcover' : config.minBookDepthMultiple * (⌊signal.notionalQuote market⌋ : ℚ) ≤
      signal.notionalQuote market / ((bid.price + ask.price) / 2) *
        config.minBookDepthMultiple := hcover
    rw [div_mul_eq_mul_div, le_div_iff₀ hmid] at hcover'
    linarith
  · intro hnot d book portfolio now order hA hrisk hsame hcheck hbuild
    by_contra hshort
    exact hnot (depthUncovered_of_short hA htype hprices hsame hcheck hbuild (not_le.mp hshort))

/-! ### A thin book

The check asks for three times 0.022 bitcoin, which 200 contracts exceed by far when they are
read as bitcoin.  The order is 1100 contracts. -/

theorem depth_covers_order_iff_sample :
    DepthCovered halfLeverageSignal sizingMarket {} ↔
      ¬ DepthUncovered halfLeverageSignal sizingMarket {} :=
  depth_covers_order_iff halfLeverageSignal sizingMarket {}
    (by simp [OrderBookSnapshot.PositivePrices, sizingMarket]) (by decide)

theorem depth_not_covered :
    sizingMarket.orderBook.PositivePrices ∧
      SpreadLiquidityCheck.evaluate sampleDaemon.A
        ⟨halfLeverageSignal, sizingMarket, nearBudgetPortfolio, sampleDaemon.risk, 0⟩ =
          some approved ∧
      ∃ order, sampleDaemon.buildKrakenFuturesOrder halfLeverageSignal sizingMarket
          nearBudgetPortfolio = .ok order ∧ order.reduceOnly = none ∧ order.quantity = 1100 ∧
        sizingMarket.orderBook.depthAgainst halfLeverageSignal.side
            sampleDaemon.risk.bookDepthLevels = 200 ∧
        ¬ sampleDaemon.risk.minBookDepthMultiple * order.quantity ≤
          sizingMarket.orderBook.depthAgainst halfLeverageSignal.side
            sampleDaemon.risk.bookDepthLevels := by
  refine ⟨by simp [OrderBookSnapshot.PositivePrices, sizingMarket], by decide +kernel, ?_⟩
  obtain ⟨order, hbuild, hentry, hquantity⟩ := halfLeverage_order
  have hdepth : sizingMarket.orderBook.depthAgainst halfLeverageSignal.side
      sampleDaemon.risk.bookDepthLevels = 200 := by decide +kernel
  refine ⟨order, hbuild, hentry, hquantity, hdepth, ?_⟩
  rw [hdepth, hquantity]
  norm_num [sampleDaemon]

end RazorTrade
