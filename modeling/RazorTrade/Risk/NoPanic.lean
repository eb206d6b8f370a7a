import RazorTrade.Core.Rounding
import RazorTrade.Risk.Checklist

/-! # When the checklist panics

Under the crate's arithmetic (`Arith.decimal`) a check panics where an exact result does
not fit (`Arith.InRange`).  Only two of the eight checks compute: the spread and the depth of
the book (`BookFits`) and the hard limits (`LimitsFit`).  The conditions name the results that
can be too large; all other results of these checks always fit, and no divisor is zero.

Liquidation prices are not fed yet, so the liquidation check has nothing to measure.

Main result:

  `PreTradeChecklist.evaluate_isSome_iff` :
      the standard checklist returns  ↔  the results of the book and of the limits fit -/

namespace RazorTrade

namespace Arith

/-- The rounded result, where it fits. -/
def rounded (q : ℚ) : ℚ := (fit? q 28).getD 0

/-- Every partial sum fits. -/
def SumFits : ℚ → List ℚ → Prop
  | _, [] => True
  | acc, x :: xs => InRange (acc + x) ∧ SumFits (rounded (acc + x)) xs

end Arith

open Arith CheckOutcome RejectionReason

namespace PreTradeContext

/-- The mid price, as it is computed. -/
def mid (bid ask : ℚ) : ℚ := rounded (rounded (bid + ask) / 2)

/-- The spread relative to the mid price. -/
def relativeSpread (bid ask : ℚ) : ℚ := rounded (rounded (ask - bid) / mid bid ask)

variable (ctx : PreTradeContext)

/-- The quantities of the levels that the order would take. -/
def takenQuantities : List ℚ :=
  match ctx.signal.side with
  | .buy => (ctx.market.orderBook.asks.take ctx.config.bookDepthLevels).map (·.quantity)
  | .sell => (ctx.market.orderBook.bids.take ctx.config.bookDepthLevels).map (·.quantity)

/-- The notional in the quote currency. -/
def notionalQuote : ℚ := ctx.signal.notionalChf * ctx.market.fxQuotePerChf

/-- What the spread and depth check computes of these best prices fits. -/
structure BookFits (bid ask : ℚ) : Prop where
  sum : InRange (bid + ask)
  spread : mid bid ask ≠ 0 → InRange (ask - bid) ∧ InRange (rounded (ask - bid) / mid bid ask) ∧
    InRange (relativeSpread bid ask * 10000)
  depth : mid bid ask ≠ 0 → rounded (relativeSpread bid ask * 10000) ≤ ctx.config.maxSpreadBps →
    InRange ctx.notionalQuote ∧ InRange (rounded ctx.notionalQuote / mid bid ask) ∧
    InRange (rounded (rounded ctx.notionalQuote / mid bid ask) * ctx.config.minBookDepthMultiple) ∧
    SumFits 0 ctx.takenQuantities

/-- Realised P&L plus the adverse part of the unrealised P&L, exactly. -/
def exactEffective : ℚ :=
  ctx.portfolio.leverageSleeveRealizedPnl + min ctx.portfolio.leverageSleeveUnrealizedPnl 0

/-- The NAV is below its high. -/
def InDrawdown : Prop :=
  ctx.portfolio.navHwmPerUnit ≠ 0 ∧ ctx.portfolio.navPerUnit < ctx.portfolio.navHwmPerUnit

instance : Decidable ctx.InDrawdown := inferInstanceAs (Decidable (_ ∧ _))

/-- The drawdown fraction, as it is computed. -/
def drawdown : ℚ :=
  if ctx.InDrawdown then
    rounded (rounded (ctx.portfolio.navHwmPerUnit - ctx.portfolio.navPerUnit) /
      ctx.portfolio.navHwmPerUnit)
  else 0

/-- The worst-case loss on the leveraged notional, as it is computed. -/
def worstCase : ℚ :=
  let notional := rounded (ctx.signal.notionalChf * ctx.signal.leverage)
  rounded (rounded (rounded (notional * ctx.config.adverseMoveForWorstCase) +
    rounded (notional * ctx.config.expectedRoundTripFeeFraction)) +
      rounded (notional * ctx.config.expectedFundingReserveFraction))

/-- What the hard limits compute fits. -/
structure LimitsFit : Prop where
  effective : InRange ctx.exactEffective
  drawdown : ctx.config.leverageKillSwitchBudgetChf < rounded ctx.exactEffective → ctx.InDrawdown →
    InRange (ctx.portfolio.navHwmPerUnit - ctx.portfolio.navPerUnit) ∧
    InRange (rounded (ctx.portfolio.navHwmPerUnit - ctx.portfolio.navPerUnit) /
      ctx.portfolio.navHwmPerUnit)
  worstCase : ctx.config.leverageKillSwitchBudgetChf < rounded ctx.exactEffective →
    ctx.drawdown ≤ ctx.config.maxPortfolioDrawdown →
    InRange (ctx.signal.notionalChf * ctx.signal.leverage) ∧
    InRange (rounded ctx.exactEffective - ctx.worstCase)

/-- Everything that the checklist computes fits. -/
structure Fits : Prop where
  book : 0 < ctx.market.fxQuotePerChf → ∀ bid ask, ctx.market.orderBook.bestBid = some bid →
    ctx.market.orderBook.bestAsk = some ask → ctx.BookFits bid.price ask.price
  limits : ctx.signal.leverage ≤ ctx.config.maxLeverage → ctx.signal.sleeve = .cryptoLeverage →
    ctx.LimitsFit

end PreTradeContext

/-! ## Lemmas -/

namespace Arith

variable {α : Type} {q a b : ℚ}

/-- A rounded result, then the rest. -/
theorem isSome_fit_bind {f : ℚ → Option α} :
    ((fit? q 28).bind f).isSome ↔ InRange q ∧ (f (rounded q)).isSome := by
  rw [← fit?_isSome_iff]
  unfold rounded
  cases fit? q 28 <;> simp

theorem isSome_div_bind {f : ℚ → Option α} (hb : b ≠ 0) :
    ((decimal.div a b).bind f).isSome ↔ InRange (a / b) ∧ (f (rounded (a / b))).isSome := by
  have hdiv : decimal.div a b = fit? (a / b) 28 := if_neg hb
  rw [hdiv, isSome_fit_bind]

theorem rounded_near (h : InRange q) : |rounded q - q| ≤ 1 / 2 ∧ |rounded q| ≤ 2 ^ 96 - 1 := by
  obtain ⟨c, hc⟩ := Option.isSome_iff_exists.mp (fit?_isSome_iff.mpr h)
  unfold rounded
  rw [hc]
  exact fit?_near hc

theorem abs_rounded_le : |rounded q| ≤ 2 ^ 96 - 1 := by
  unfold rounded
  cases h : fit? q 28 with
  | none => norm_num
  | some c => exact (fit?_near h).2

/-- The half of a rounded result always fits. -/
theorem inRange_half : InRange (rounded q / 2) := by
  unfold InRange
  rw [abs_div, abs_of_pos (by norm_num : (0 : ℚ) < 2), div_lt_iff₀ (by norm_num)]
  have := abs_rounded_le (q := q)
  linarith

theorem isSome_sum_iff {acc : ℚ} {xs : List ℚ} :
    (xs.foldlM decimal.add acc).isSome ↔ SumFits acc xs := by
  induction xs generalizing acc with
  | nil => simp [SumFits]
  | cons x xs ih =>
    rw [List.foldlM_cons, SumFits, ← ih]
    exact isSome_fit_bind

end Arith

namespace SpreadLiquidityCheck

variable {ctx : PreTradeContext}

theorem depth_isSome_iff {mid : ℚ} (hmid : mid ≠ 0) :
    (depth decimal ctx mid).isSome ↔
      InRange ctx.notionalQuote ∧ InRange (rounded ctx.notionalQuote / mid) ∧
      InRange (rounded (rounded ctx.notionalQuote / mid) * ctx.config.minBookDepthMultiple) ∧
      SumFits 0 ctx.takenQuantities := by
  unfold depth
  change (Option.bind (fit? ctx.notionalQuote 28) _).isSome ↔ _
  rw [isSome_fit_bind]
  change _ ∧ (Option.bind (decimal.div _ mid) _).isSome ↔ _
  rw [isSome_div_bind hmid]
  change _ ∧ _ ∧ (Option.bind (fit? _ 28) _).isSome ↔ _
  rw [isSome_fit_bind]
  refine and_congr_right fun _ => and_congr_right fun _ => and_congr_right fun _ => ?_
  unfold PreTradeContext.takenQuantities
  rw [← isSome_sum_iff]
  cases ctx.signal.side with
  | buy =>
    change _ ↔ (ctx.market.orderBook.askDepth decimal ctx.config.bookDepthLevels).isSome
    dsimp only
    cases ctx.market.orderBook.askDepth decimal ctx.config.bookDepthLevels with
    | none => rfl
    | some available =>
      refine iff_of_true ?_ rfl
      dsimp only [Option.map, bind, Option.bind]
      split_ifs <;> rfl
  | sell =>
    change _ ↔ (ctx.market.orderBook.bidDepth decimal ctx.config.bookDepthLevels).isSome
    dsimp only
    cases ctx.market.orderBook.bidDepth decimal ctx.config.bookDepthLevels with
    | none => rfl
    | some available =>
      refine iff_of_true ?_ rfl
      dsimp only [Option.map, bind, Option.bind]
      split_ifs <;> rfl

theorem mid_isSome_iff {α : Type} {bid ask : ℚ} {f : ℚ → Option α} :
    ((decimal.add bid ask).bind fun s => (decimal.div s 2).bind f).isSome ↔
      InRange (bid + ask) ∧ (f (PreTradeContext.mid bid ask)).isSome := by
  change ((fit? (bid + ask) 28).bind _).isSome ↔ _
  rw [isSome_fit_bind, isSome_div_bind (by norm_num)]
  exact and_congr_right fun _ => and_iff_right inRange_half

/-- The spread, then the rest. -/
theorem spread_isSome_iff {α : Type} {b : OrderBookSnapshot} {bid ask : OrderBookLevel}
    (hb : b.bestBid = some bid) (ha : b.bestAsk = some ask) {f : Option ℚ → Option α} :
    ((b.spreadBps decimal).bind f).isSome ↔ InRange (bid.price + ask.price) ∧
      (if PreTradeContext.mid bid.price ask.price = 0 then (f none).isSome = true
      else InRange (ask.price - bid.price) ∧
        InRange (rounded (ask.price - bid.price) / PreTradeContext.mid bid.price ask.price) ∧
        InRange (PreTradeContext.relativeSpread bid.price ask.price * 10000) ∧
        (f (some (rounded (PreTradeContext.relativeSpread bid.price ask.price * 10000)))).isSome) := by
  unfold OrderBookSnapshot.spreadBps
  rw [hb, ha]
  dsimp only [bind]
  rw [Option.bind_assoc]
  simp only [Option.bind_assoc]
  rw [mid_isSome_iff]
  refine and_congr_right fun _ => ?_
  split_ifs with hmid
  · rfl
  · change ((fit? _ 28).bind _ |>.bind f).isSome ↔ _
    rw [Option.bind_assoc, isSome_fit_bind, Option.bind_assoc, isSome_div_bind hmid, Option.bind_assoc]
    change _ ∧ _ ∧ ((fit? _ 28).bind _).isSome ↔ _
    rw [isSome_fit_bind]
    rfl

theorem evaluate_isSome_of_oneSided (h : ¬ ∃ bid ask, ctx.market.orderBook.bestBid = some bid ∧
    ctx.market.orderBook.bestAsk = some ask) : (evaluate decimal ctx).isSome := by
  have hnone : ctx.market.orderBook.spreadBps decimal = some none := by
    unfold OrderBookSnapshot.spreadBps
    split
    · rename_i bid ask hb ha
      exact absurd ⟨bid, ask, hb, ha⟩ h
    · rfl
  unfold evaluate
  split
  · rfl
  · rw [hnone]
    rfl

theorem evaluate_isSome_iff :
    (evaluate decimal ctx).isSome ↔ (0 < ctx.market.fxQuotePerChf → ∀ bid ask,
      ctx.market.orderBook.bestBid = some bid → ctx.market.orderBook.bestAsk = some ask →
      ctx.BookFits bid.price ask.price) := by
  by_cases hbook : ∃ bid ask, ctx.market.orderBook.bestBid = some bid ∧
      ctx.market.orderBook.bestAsk = some ask
  swap
  · refine iff_of_true (evaluate_isSome_of_oneSided hbook) fun _ bid ask hb ha => ?_
    exact absurd ⟨bid, ask, hb, ha⟩ hbook
  obtain ⟨bid, ask, hb, ha⟩ := hbook
  unfold evaluate
  by_cases hfx : ctx.market.fxQuotePerChf ≤ 0
  · rw [if_pos hfx]
    exact iff_of_true rfl fun hpos => absurd hfx (not_le.mpr hpos)
  rw [if_neg hfx]
  change (Option.bind (ctx.market.orderBook.spreadBps decimal) _).isSome ↔ _
  rw [spread_isSome_iff hb ha, hb, ha]
  dsimp only
  have hgoal : (0 < ctx.market.fxQuotePerChf → ∀ bid' ask', some bid = some bid' →
      some ask = some ask' → ctx.BookFits bid'.price ask'.price) ↔
      ctx.BookFits bid.price ask.price := by
    constructor
    · intro h
      exact h (not_le.mp hfx) bid ask rfl rfl
    · rintro h - bid' ask' hb' ha'
      cases hb'
      cases ha'
      exact h
  rw [hgoal]
  by_cases hmid : PreTradeContext.mid bid.price ask.price = 0
  · rw [if_pos hmid]
    constructor
    · rintro ⟨hsum, -⟩
      exact ⟨hsum, fun h => absurd hmid h, fun h => absurd hmid h⟩
    · intro h
      exact ⟨h.sum, rfl⟩
  rw [if_neg hmid]
  by_cases hwide : ctx.config.maxSpreadBps <
      rounded (PreTradeContext.relativeSpread bid.price ask.price * 10000)
  · rw [if_pos hwide]
    constructor
    · rintro ⟨hsum, hsub, hdiv, hmul, -⟩
      exact ⟨hsum, fun _ => ⟨hsub, hdiv, hmul⟩, fun _ hle => absurd hwide (not_lt.mpr hle)⟩
    · intro h
      obtain ⟨hsub, hdiv, hmul⟩ := h.spread hmid
      exact ⟨h.sum, hsub, hdiv, hmul, rfl⟩
  · rw [if_neg hwide]
    have hrest : (((decimal.add bid.price ask.price).bind fun s => (decimal.div s 2).bind fun mid =>
        if mid = 0 then some noBook else depth decimal ctx mid).isSome) ↔
        InRange (bid.price + ask.price) ∧
          (depth decimal ctx (PreTradeContext.mid bid.price ask.price)).isSome := by
      rw [mid_isSome_iff, if_neg hmid]
    constructor
    · rintro ⟨hsum, hsub, hdiv, hmul, hsome⟩
      have hdepth := (hrest.mp hsome).2
      exact ⟨hsum, fun _ => ⟨hsub, hdiv, hmul⟩, fun _ _ => (depth_isSome_iff hmid).mp hdepth⟩
    · intro h
      obtain ⟨hsub, hdiv, hmul⟩ := h.spread hmid
      have hdepth := (depth_isSome_iff hmid).mpr (h.depth hmid (not_lt.mp hwide))
      exact ⟨h.sum, hsub, hdiv, hmul, hrest.mpr ⟨h.sum, hdepth⟩⟩

end SpreadLiquidityCheck

namespace HardLimitCheck

variable {ctx : PreTradeContext}

/-- The worst-case loss is about a tenth of the largest result. -/
theorem worstCase_small (hc : ctx.config = {}) {n : ℚ}
    (hn : n = rounded (ctx.signal.notionalChf * ctx.signal.leverage)) :
    InRange (n * ctx.config.adverseMoveForWorstCase) ∧
    InRange (n * ctx.config.expectedRoundTripFeeFraction) ∧
    InRange (n * ctx.config.expectedFundingReserveFraction) ∧
    InRange (rounded (n * ctx.config.adverseMoveForWorstCase) +
      rounded (n * ctx.config.expectedRoundTripFeeFraction)) ∧
    InRange (rounded (rounded (n * ctx.config.adverseMoveForWorstCase) +
      rounded (n * ctx.config.expectedRoundTripFeeFraction)) +
        rounded (n * ctx.config.expectedFundingReserveFraction)) ∧
    |ctx.worstCase| ≤ 2 ^ 94 := by
  unfold PreTradeContext.worstCase
  rw [hc, ← hn]
  dsimp only
  have hlarge := abs_le.mp (hn ▸ abs_rounded_le : |n| ≤ 2 ^ 96 - 1)
  have hadverse : InRange (n * (1 / 10)) := abs_lt.mpr (by constructor <;> linarith)
  have hfee : InRange (n * (1 / 1000)) := abs_lt.mpr (by constructor <;> linarith)
  have hfunding : InRange (n * (2 / 1000)) := abs_lt.mpr (by constructor <;> linarith)
  have hadverse' := abs_le.mp (rounded_near hadverse).1
  have hfee' := abs_le.mp (rounded_near hfee).1
  have hfunding' := abs_le.mp (rounded_near hfunding).1
  have hsum : InRange (rounded (n * (1 / 10)) + rounded (n * (1 / 1000))) :=
    abs_lt.mpr (by constructor <;> linarith)
  have hsum' := abs_le.mp (rounded_near hsum).1
  have htotal : InRange (rounded (rounded (n * (1 / 10)) + rounded (n * (1 / 1000))) +
      rounded (n * (2 / 1000))) := abs_lt.mpr (by constructor <;> linarith)
  have htotal' := abs_le.mp (rounded_near htotal).1
  refine ⟨hadverse, hfee, hfunding, hsum, htotal, abs_le.mpr ?_⟩
  constructor <;> linarith

/-- The worst-case loss, then the rest. -/
theorem worstCaseLoss_isSome_iff (hc : ctx.config = {}) {α : Type} {f : ℚ → Option α} :
    ((worstCaseLoss decimal ctx.signal ctx.config).bind f).isSome ↔
      InRange (ctx.signal.notionalChf * ctx.signal.leverage) ∧ (f ctx.worstCase).isSome := by
  obtain ⟨hadverse, hfee, hfunding, hsum, htotal, -⟩ := worstCase_small hc rfl
  unfold worstCaseLoss
  change (((fit? _ 28).bind _).bind f).isSome ↔ _
  rw [Option.bind_assoc, isSome_fit_bind]
  refine and_congr_right fun _ => ?_
  change (((fit? _ 28).bind fun _ => (fit? _ 28).bind fun _ => (fit? _ 28).bind fun _ =>
    (fit? _ 28).bind fun _ => fit? _ 28).bind f).isSome ↔ _
  simp only [Option.bind_assoc, isSome_fit_bind, and_iff_right hadverse, and_iff_right hfee,
    and_iff_right hfunding, and_iff_right hsum, and_iff_right htotal]
  rfl

/-- The drawdown fraction, then the rest. -/
theorem drawdownFraction_isSome_iff {α : Type} {f : ℚ → Option α} :
    ((ctx.portfolio.drawdownFraction decimal).bind f).isSome ↔
      (ctx.InDrawdown → InRange (ctx.portfolio.navHwmPerUnit - ctx.portfolio.navPerUnit) ∧
        InRange (rounded (ctx.portfolio.navHwmPerUnit - ctx.portfolio.navPerUnit) /
          ctx.portfolio.navHwmPerUnit)) ∧ (f ctx.drawdown).isSome := by
  unfold PortfolioState.drawdownFraction PreTradeContext.drawdown
  by_cases hzero : ctx.portfolio.navHwmPerUnit = 0
  · have hout : ¬ ctx.InDrawdown := fun h => h.1 hzero
    rw [if_pos hzero, if_neg hout]
    exact ⟨fun h => ⟨fun hin => absurd hin hout, h⟩, fun h => h.2⟩
  rw [if_neg hzero]
  by_cases hhigh : ctx.portfolio.navHwmPerUnit ≤ ctx.portfolio.navPerUnit
  · have hout : ¬ ctx.InDrawdown := fun h => absurd h.2 (not_lt.mpr hhigh)
    rw [if_pos hhigh, if_neg hout]
    exact ⟨fun h => ⟨fun hin => absurd hin hout, h⟩, fun h => h.2⟩
  · have hin : ctx.InDrawdown := ⟨hzero, not_le.mp hhigh⟩
    rw [if_neg hhigh, if_pos hin]
    change (((fit? _ 28).bind _).bind f).isSome ↔ _
    rw [Option.bind_assoc, isSome_fit_bind, isSome_div_bind hzero]
    constructor
    · rintro ⟨hsub, hdiv, hf⟩
      exact ⟨fun _ => ⟨hsub, hdiv⟩, hf⟩
    · rintro ⟨hfits, hf⟩
      exact ⟨(hfits hin).1, (hfits hin).2, hf⟩

/-- What remains of the budget fits where the projection is below it. -/
theorem inRange_remaining (hc : ctx.config = {}) {effective : ℚ}
    (habove : ctx.config.leverageKillSwitchBudgetChf < effective)
    (hfits : InRange (effective - ctx.worstCase))
    (hbelow : rounded (effective - ctx.worstCase) ≤ ctx.config.leverageKillSwitchBudgetChf) :
    InRange (effective - ctx.config.leverageKillSwitchBudgetChf) := by
  obtain ⟨-, -, -, -, -, hworst⟩ := worstCase_small hc rfl
  have hworst' := abs_le.mp hworst
  have hnear := abs_le.mp (rounded_near hfits).1
  rw [hc] at habove hbelow ⊢
  dsimp only at habove hbelow ⊢
  refine abs_lt.mpr ?_
  constructor <;> linarith

theorem evaluate_isSome_iff (hc : ctx.config = {}) :
    (evaluate decimal ctx).isSome ↔ (ctx.signal.leverage ≤ ctx.config.maxLeverage →
      ctx.signal.sleeve = .cryptoLeverage → ctx.LimitsFit) := by
  unfold evaluate
  by_cases hcap : ctx.config.maxLeverage < ctx.signal.leverage
  · rw [if_pos hcap]
    exact iff_of_true rfl fun hle => absurd hcap (not_lt.mpr hle)
  rw [if_neg hcap]
  by_cases hsleeve : ctx.signal.sleeve ≠ .cryptoLeverage
  · rw [if_pos hsleeve]
    exact iff_of_true rfl fun _ h => absurd h hsleeve
  rw [if_neg hsleeve]
  have hgoal : (ctx.signal.leverage ≤ ctx.config.maxLeverage →
      ctx.signal.sleeve = .cryptoLeverage → ctx.LimitsFit) ↔ ctx.LimitsFit :=
    ⟨fun h => h (not_lt.mp hcap) (not_not.mp hsleeve), fun h _ _ => h⟩
  rw [hgoal]
  change ((fit? ctx.exactEffective 28).bind _).isSome ↔ _
  rw [isSome_fit_bind]
  by_cases hbudget : rounded ctx.exactEffective ≤ ctx.config.leverageKillSwitchBudgetChf
  · rw [if_pos hbudget]
    constructor
    · rintro ⟨heffective, -⟩
      exact ⟨heffective, fun h => absurd h (not_lt.mpr hbudget),
        fun h => absurd h (not_lt.mpr hbudget)⟩
    · intro h
      exact ⟨h.effective, rfl⟩
  rw [if_neg hbudget]
  have habove := not_le.mp hbudget
  change _ ∧ ((ctx.portfolio.drawdownFraction decimal).bind _).isSome ↔ _
  rw [drawdownFraction_isSome_iff]
  by_cases hdrawdown : ctx.config.maxPortfolioDrawdown < ctx.drawdown
  · rw [if_pos hdrawdown]
    constructor
    · rintro ⟨heffective, hfits, -⟩
      exact ⟨heffective, fun _ => hfits, fun _ hle => absurd hdrawdown (not_lt.mpr hle)⟩
    · intro h
      exact ⟨h.effective, h.drawdown habove, rfl⟩
  rw [if_neg hdrawdown]
  have hwithin := not_lt.mp hdrawdown
  change _ ∧ _ ∧ ((worstCaseLoss decimal ctx.signal ctx.config).bind _).isSome ↔ _
  rw [worstCaseLoss_isSome_iff hc]
  have hlast : ((fit? (rounded ctx.exactEffective - ctx.worstCase) 28).bind fun projected =>
      if projected ≤ ctx.config.leverageKillSwitchBudgetChf then
        (fit? (rounded ctx.exactEffective - ctx.config.leverageKillSwitchBudgetChf) 28).bind
          fun remaining => some (rejected (worstCaseLossWouldExhaustBudget ctx.worstCase
            (max remaining 0)))
      else some approved).isSome ↔ InRange (rounded ctx.exactEffective - ctx.worstCase) := by
    rw [isSome_fit_bind]
    refine and_iff_left_of_imp fun hfits => ?_
    split_ifs with hbelow
    · rw [isSome_fit_bind]
      exact ⟨inRange_remaining hc habove hfits hbelow, rfl⟩
    · rfl
  constructor
  · rintro ⟨heffective, hfits, hnotional, hsome⟩
    exact ⟨heffective, fun _ => hfits, fun _ _ => ⟨hnotional, hlast.mp hsome⟩⟩
  · intro h
    obtain ⟨hnotional, hprojected⟩ := h.worstCase habove hwithin
    exact ⟨h.effective, h.drawdown habove, hnotional, hlast.mpr hprojected⟩

end HardLimitCheck

/-- Without a liquidation price there is nothing to measure. -/
theorem LiquidationDistanceCheck.evaluate_isSome {A : Arith} {ctx : PreTradeContext}
    (h : ∀ pos ∈ ctx.portfolio.openPositions, pos.liquidationPrice = none) :
    (evaluate A ctx).isSome := by
  have hloop : ∀ (l : List OpenPositionSummary) (anyChecked : Bool),
      (∀ pos ∈ l, pos.liquidationPrice = none) → (loop A ctx l anyChecked).isSome := by
    intro l
    induction l with
    | nil => exact fun _ _ => rfl
    | cons pos l ih =>
      intro anyChecked hl
      have hrest := ih anyChecked fun p hp => hl p (List.mem_cons_of_mem pos hp)
      unfold loop
      split_ifs
      · exact hrest
      · exact hrest
      · rw [hl pos List.mem_cons_self]
        exact hrest
  unfold evaluate
  split_ifs
  · rfl
  · rfl
  · exact hloop _ _ h

namespace PreTradeChecklist

theorem runChecks_isSome_iff {checks : List PreTradeCheck} {ctx : PreTradeContext} :
    (runChecks checks ctx).isSome ↔ ∀ c ∈ checks, (c.evaluate ctx).isSome := by
  induction checks with
  | nil => simp [runChecks]
  | cons c cs ih =>
    rw [runChecks_cons, List.forall_mem_cons, ← ih]
    cases c.evaluate ctx with
    | none => simp
    | some o => simp

/-! ## Top theorem (proved from the lemmas above) -/

/-- **When the checklist returns.**  With the default thresholds and no liquidation prices, the
standard checklist returns exactly where the results of the book and of the limits fit. -/
theorem evaluate_isSome_iff {ctx : PreTradeContext} (hconfig : ctx.config = {})
    (hliq : ∀ pos ∈ ctx.portfolio.openPositions, pos.liquidationPrice = none) :
    (evaluate (standard decimal) ctx).isSome ↔ ctx.Fits := by
  have hrun : (evaluate (standard decimal) ctx).isSome ↔
      (runChecks (standard decimal) ctx).isSome := by
    unfold evaluate
    cases runChecks (standard decimal) ctx <;> simp
  rw [hrun, runChecks_isSome_iff]
  have hliquidation := LiquidationDistanceCheck.evaluate_isSome (A := decimal) hliq
  constructor
  · intro h
    have hbook := h ⟨"spread_liquidity", SpreadLiquidityCheck.evaluate decimal⟩ (by simp [standard])
    have hlimits := h ⟨"hard_limit", HardLimitCheck.evaluate decimal⟩ (by simp [standard])
    exact ⟨SpreadLiquidityCheck.evaluate_isSome_iff.mp hbook,
      (HardLimitCheck.evaluate_isSome_iff hconfig).mp hlimits⟩
  · intro h c hc
    have hbook := SpreadLiquidityCheck.evaluate_isSome_iff.mpr h.book
    have hlimits := (HardLimitCheck.evaluate_isSome_iff hconfig).mpr h.limits
    simp only [standard, List.mem_cons, List.not_mem_nil, or_false] at hc
    rcases hc with rfl | rfl | rfl | rfl | rfl | rfl | rfl | rfl
    · rfl
    · exact hbook
    · show (VolatilityRegimeCheck.evaluate ctx).isSome
      unfold VolatilityRegimeCheck.evaluate
      dsimp only
      split_ifs <;> rfl
    · exact hlimits
    · show (DuplicatePositionCheck.evaluate ctx).isSome
      unfold DuplicatePositionCheck.evaluate
      split_ifs
      · rfl
      · split <;> rfl
    · exact hliquidation
    · show (FundingRateCheck.evaluate ctx).isSome
      unfold FundingRateCheck.evaluate
      split <;> rfl
    · rfl

end PreTradeChecklist

end RazorTrade
