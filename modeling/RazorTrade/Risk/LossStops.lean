import RazorTrade.Risk.Checklist

/-! # Exits and the loss stops

The soft stop is documented to leave positions to close by their own stops, and the
hard-limit check to refuse further leveraged *entries*.  Both see an exit as one more
leverage signal.  This file separates what the checklist reads of the loss state (the
kill-switch flag and the leverage sleeve's P&L) from the rest:

  `approves_standard` :  approves  =  other checks pass  &&  the loss stops are clear

so two portfolios that differ in their loss state only are treated alike exactly when
another check rejects anyway or both are on the same side of the loss stops
(`exit_approval_unchanged_iff`).  `exit_blocked_by_flag` is an exit that is approved
with the flag down and rejected with the flag up. -/

namespace RazorTrade

namespace PortfolioState

/-- The portfolio without its loss state: flag down, leverage P&L zero. -/
def eraseLossState (p : PortfolioState) : PortfolioState :=
  { p with
    killSwitchActive := false
    sleeves := p.sleeves.map fun s =>
      if s.sleeve = .cryptoLeverage then
        { s with realizedPnlLifetimeChf := 0, unrealizedPnlChf := 0 }
      else s }

end PortfolioState

/-- The side that reduces a position of this signed quantity. -/
def closingSide (quantity : ℚ) : Side := if 0 < quantity then .sell else .buy

/-- A `trend_exit` signal that closes an open leverage position of the portfolio. -/
def ClosingExit (signal : Signal) (p : PortfolioState) : Prop :=
  signal.signalType = .trendExit ∧ ∃ pos ∈ p.openPositions,
    pos.instrumentSymbol = signal.instrumentSymbol ∧ pos.sleeve = .cryptoLeverage ∧
      pos.quantity ≠ 0 ∧ signal.side = closingSide pos.quantity

namespace PreTradeContext

def withPortfolio (ctx : PreTradeContext) (p : PortfolioState) : PreTradeContext :=
  { ctx with portfolio := p }

/-- Guards 2 and 4 of the hard limit: the effective P&L is above the budget, now and
after the worst case of this signal. -/
def budgetGuards (A : Arith) (ctx : PreTradeContext) : Bool :=
  match ctx.portfolio.leverageSleeveEffectivePnl A with
  | none => false
  | some effective =>
    let budget := ctx.config.leverageKillSwitchBudgetChf
    decide (budget < effective) &&
      match HardLimitCheck.worstCaseLoss A ctx.signal ctx.config with
      | none => false
      | some loss => ((A.sub effective loss).map fun x => decide (budget < x)).getD false

/-- The flag is down and guards 2 and 4 let the signal through; no restriction for
the other sleeves. -/
def lossStopsClear (A : Arith) (ctx : PreTradeContext) : Bool :=
  ctx.signal.sleeve ≠ .cryptoLeverage || (!ctx.portfolio.killSwitchActive && ctx.budgetGuards A)

/-- Guards 1 and 3 of the hard limit: leverage cap and portfolio drawdown. -/
def capAndDrawdownGuards (A : Arith) (ctx : PreTradeContext) : Bool :=
  decide (ctx.signal.leverage ≤ ctx.config.maxLeverage) &&
    (ctx.signal.sleeve ≠ .cryptoLeverage ||
      ((ctx.portfolio.drawdownFraction A).map fun dd =>
        decide (dd ≤ ctx.config.maxPortfolioDrawdown)).getD false)

/-- Everything of the standard checklist that does not read the loss state. -/
def otherChecksPass (A : Arith) (ctx : PreTradeContext) : Bool :=
  (PreTradeChecklist.standard A).all (fun c => c.id = "hard_limit" || c.passes ctx) &&
    ctx.capAndDrawdownGuards A

end PreTradeContext

open PreTradeContext

/-! ## Lemmas -/

/-- The hard limit rejects by its guards only. -/
theorem hardLimit_passes (A : Arith) (ctx : PreTradeContext) :
    ((HardLimitCheck.evaluate A ctx).map CheckOutcome.passes).getD false =
      (ctx.capAndDrawdownGuards A &&
        (ctx.signal.sleeve ≠ .cryptoLeverage || ctx.budgetGuards A)) := by
  unfold HardLimitCheck.evaluate capAndDrawdownGuards budgetGuards
  by_cases hcap : ctx.config.maxLeverage < ctx.signal.leverage
  · simp [hcap]
  by_cases hsleeve : ctx.signal.sleeve = .cryptoLeverage
  · have hcap' : ctx.signal.leverage ≤ ctx.config.maxLeverage := not_lt.mp hcap
    cases he : ctx.portfolio.leverageSleeveEffectivePnl A with
    | none => simp [hcap, hsleeve]
    | some effective =>
      by_cases hb : effective ≤ ctx.config.leverageKillSwitchBudgetChf
      · simp [hcap, hsleeve, hb]
      cases hd : ctx.portfolio.drawdownFraction A with
      | none => simp [hcap, hsleeve, hb]
      | some dd =>
        by_cases hdd : ctx.config.maxPortfolioDrawdown < dd
        · simp [hcap, hsleeve, hb, hdd]
        cases hl : HardLimitCheck.worstCaseLoss A ctx.signal ctx.config with
        | none => simp [hcap, hsleeve, hb, hdd]
        | some loss =>
          cases hp : A.sub effective loss with
          | none => simp [hcap, hsleeve, hb, hdd, hp]
          | some projected =>
            by_cases hproj : projected ≤ ctx.config.leverageKillSwitchBudgetChf
            · cases hr : A.sub effective ctx.config.leverageKillSwitchBudgetChf <;>
                simp [hcap, hsleeve, hb, hdd, hp, hproj, hr]
            · simp [hcap, hcap', hsleeve, hb, not_le.mp hb, hdd, not_lt.mp hdd, hp, hproj,
                not_le.mp hproj]
  · simp [hcap, not_lt.mp hcap, hsleeve]

theorem killSwitchGate_all (ctx : PreTradeContext) :
    (PreTradeChecklist.killSwitchGate ctx).all (fun o => o.2.passes) =
      (ctx.signal.sleeve ≠ .cryptoLeverage || !ctx.portfolio.killSwitchActive) := by
  unfold PreTradeChecklist.killSwitchGate
  by_cases hs : ctx.signal.sleeve = .cryptoLeverage <;>
    cases hk : ctx.portfolio.killSwitchActive <;> simp [hs]

/-- **What the loss state decides.**  The standard checklist approves iff the rest of
it passes and the loss stops are clear. -/
theorem approves_standard (A : Arith) (ctx : PreTradeContext) :
    PreTradeChecklist.approves (PreTradeChecklist.standard A) ctx =
      (ctx.otherChecksPass A && ctx.lossStopsClear A) := by
  have hhard := hardLimit_passes A ctx
  rw [PreTradeChecklist.approves_eq, killSwitchGate_all]
  unfold otherChecksPass lossStopsClear
  simp only [PreTradeChecklist.standard, List.all_cons, List.all_nil, PreTradeCheck.passes,
    hhard]
  cases ctx.capAndDrawdownGuards A <;> cases ctx.budgetGuards A <;>
    cases decide (ctx.signal.sleeve ≠ .cryptoLeverage) <;>
    cases ctx.portfolio.killSwitchActive <;> simp

theorem liquidationLoop_withPortfolio (A : Arith) (ctx : PreTradeContext) (p : PortfolioState)
    (xs : List OpenPositionSummary) (anyChecked : Bool) :
    LiquidationDistanceCheck.loop A (ctx.withPortfolio p) xs anyChecked =
      LiquidationDistanceCheck.loop A ctx xs anyChecked := by
  induction xs generalizing anyChecked with
  | nil => rfl
  | cons pos rest ih =>
    unfold LiquidationDistanceCheck.loop
    rw [ih, ih]
    rfl

theorem liquidationDistance_eraseLossState (A : Arith) (ctx : PreTradeContext) :
    LiquidationDistanceCheck.evaluate A (ctx.withPortfolio ctx.portfolio.eraseLossState) =
      LiquidationDistanceCheck.evaluate A ctx := by
  unfold LiquidationDistanceCheck.evaluate
  rw [liquidationLoop_withPortfolio]
  rfl

/-- The rest of the checklist does not read the loss state. -/
theorem otherChecksPass_eraseLossState (A : Arith) (ctx : PreTradeContext) :
    (ctx.withPortfolio ctx.portfolio.eraseLossState).otherChecksPass A =
      ctx.otherChecksPass A := by
  simp only [otherChecksPass, PreTradeChecklist.standard, List.all_cons, List.all_nil,
    PreTradeCheck.passes, decide_true, Bool.true_or, liquidationDistance_eraseLossState]
  rfl

theorem otherChecksPass_congr (A : Arith) (ctx : PreTradeContext) {p p' : PortfolioState}
    (h : p.eraseLossState = p'.eraseLossState) :
    (ctx.withPortfolio p).otherChecksPass A = (ctx.withPortfolio p').otherChecksPass A := by
  have hp := otherChecksPass_eraseLossState A (ctx.withPortfolio p)
  have hp' := otherChecksPass_eraseLossState A (ctx.withPortfolio p')
  simp only [withPortfolio] at hp hp' ⊢
  rw [← hp, ← hp', h]

/-! ## Top theorems (proved from the lemmas above) -/

/-- **Exits and the loss state.**  For a closing exit and two portfolios that differ in
the kill-switch flag and the leverage P&L only, the checklist decides the same in both
exactly when another check rejects anyway or the loss stops are clear in both or in
neither. -/
theorem exit_approval_unchanged_iff (A : Arith) (ctx : PreTradeContext) (p p' : PortfolioState)
    (_hexit : ClosingExit ctx.signal p) (hsame : p.eraseLossState = p'.eraseLossState) :
    PreTradeChecklist.approves (PreTradeChecklist.standard A) (ctx.withPortfolio p) =
        PreTradeChecklist.approves (PreTradeChecklist.standard A) (ctx.withPortfolio p') ↔
      (ctx.withPortfolio p).otherChecksPass A = false ∨
        (ctx.withPortfolio p).lossStopsClear A = (ctx.withPortfolio p').lossStopsClear A := by
  rw [approves_standard, approves_standard, otherChecksPass_congr A ctx hsame]
  cases (ctx.withPortfolio p').otherChecksPass A <;> simp

/-! ### An exit that the flag blocks -/

/-- A sell exit of 100 contracts on a tight, deep book, everything within limits. -/
def sampleExit : PreTradeContext where
  signal := ⟨7, 0, "PI_XBTUSD", .sell, .trendExit, .cryptoLeverage, 100, 1, none, .pending,
    none, none⟩
  market := ⟨"PI_XBTUSD", ⟨[⟨50000, 100⟩], [⟨50010, 100⟩], 0⟩, 50000, 0, 400, 8 / 10, none,
    11 / 10⟩
  portfolio := ⟨0, [⟨.cryptoLeverage, 1000, 0, 0, 0⟩], 1, 1, 1, false,
    [⟨"PI_XBTUSD", .cryptoLeverage, 100, none⟩]⟩
  config := {}
  now := 0

def samplePortfolioFlagUp : PortfolioState := { sampleExit.portfolio with killSwitchActive := true }

theorem exit_approval_unchanged_iff_sample :
    PreTradeChecklist.approves (PreTradeChecklist.standard Arith.exact)
        (sampleExit.withPortfolio sampleExit.portfolio) =
      PreTradeChecklist.approves (PreTradeChecklist.standard Arith.exact)
        (sampleExit.withPortfolio samplePortfolioFlagUp) ↔
      (sampleExit.withPortfolio sampleExit.portfolio).otherChecksPass Arith.exact = false ∨
        (sampleExit.withPortfolio sampleExit.portfolio).lossStopsClear Arith.exact =
          (sampleExit.withPortfolio samplePortfolioFlagUp).lossStopsClear Arith.exact :=
  exit_approval_unchanged_iff Arith.exact sampleExit sampleExit.portfolio samplePortfolioFlagUp
    ⟨rfl, _, List.mem_singleton.mpr rfl, rfl, rfl, by decide +kernel, by decide +kernel⟩ rfl

/-- Raising the flag turns the approval of this exit into a rejection. -/
theorem exit_blocked_by_flag :
    ClosingExit sampleExit.signal sampleExit.portfolio ∧
      sampleExit.portfolio.eraseLossState = samplePortfolioFlagUp.eraseLossState ∧
      PreTradeChecklist.approves (PreTradeChecklist.standard Arith.exact)
        (sampleExit.withPortfolio sampleExit.portfolio) = true ∧
      PreTradeChecklist.approves (PreTradeChecklist.standard Arith.exact)
        (sampleExit.withPortfolio samplePortfolioFlagUp) = false :=
  ⟨⟨rfl, _, List.mem_singleton.mpr rfl, rfl, rfl, by decide +kernel, by decide +kernel⟩, rfl,
    by decide +kernel, by decide +kernel⟩

end RazorTrade
