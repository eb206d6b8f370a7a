import RazorTrade.Core.Rounding
import RazorTrade.Risk.KillSwitch
import RazorTrade.Risk.LossStops

/-! # The evaluator and the checklist

The kill-switch evaluator looks at the realised P&L, the effective P&L and the drawdown;
the hard limit looks at the effective P&L and the drawdown.  Where the evaluator would stop
leveraged trading, the checklist refuses a leveraged signal on the same portfolio: a
realised loss is at least as large in the effective P&L, which the hard limit compares with
the same budget.

  `evaluator_stop_refused` :  flag up, or any decision but `NoChange`  →  no approval -/

namespace RazorTrade

open KillSwitchEvaluator

variable {A : Arith} {D : ℚ → Prop} {ctx : PreTradeContext}

/-! ## Lemmas -/

/-- An effective P&L that has used up the budget closes guard 2. -/
theorem budgetGuards_of_le {effective : ℚ}
    (value : ctx.portfolio.leverageSleeveEffectivePnl A = some effective)
    (breach : effective ≤ ctx.config.leverageKillSwitchBudgetChf) : ctx.budgetGuards A = false := by
  unfold PreTradeContext.budgetGuards
  simp [value, not_lt.mpr breach]

/-- A drawdown beyond the limit closes guard 3. -/
theorem capAndDrawdownGuards_of_lt {dd : ℚ} (hsleeve : ctx.signal.sleeve = .cryptoLeverage)
    (fraction : ctx.portfolio.drawdownFraction A = some dd)
    (breach : ctx.config.maxPortfolioDrawdown < dd) : ctx.capAndDrawdownGuards A = false := by
  unfold PreTradeContext.capAndDrawdownGuards
  simp [hsleeve, fraction, not_le.mpr breach]

/-- The loss stops refuse a leveraged signal when the flag is up. -/
theorem not_approved_of_flag (hsleeve : ctx.signal.sleeve = .cryptoLeverage)
    (hflag : ctx.portfolio.killSwitchActive = true) :
    PreTradeChecklist.approves (PreTradeChecklist.standard A) ctx = false := by
  rw [approves_standard]
  simp [PreTradeContext.lossStopsClear, hsleeve, hflag]

theorem not_approved_of_budget (hsleeve : ctx.signal.sleeve = .cryptoLeverage)
    (hbudget : ctx.budgetGuards A = false) :
    PreTradeChecklist.approves (PreTradeChecklist.standard A) ctx = false := by
  rw [approves_standard]
  simp [PreTradeContext.lossStopsClear, hsleeve, hbudget]

theorem not_approved_of_drawdown (hdd : ctx.capAndDrawdownGuards A = false) :
    PreTradeChecklist.approves (PreTradeChecklist.standard A) ctx = false := by
  rw [approves_standard]
  simp [PreTradeContext.otherChecksPass, hdd]

/-- The effective P&L is at most the realised one. -/
theorem effective_le_realized {p : PortfolioState} {effective : ℚ} (hA : A.AddsBelow D)
    (hvalue : D p.leverageSleeveRealizedPnl)
    (value : p.leverageSleeveEffectivePnl A = some effective) :
    effective ≤ p.leverageSleeveRealizedPnl :=
  hA hvalue (min_le_right _ _) value

/-! ## Top theorem (proved from the lemmas above) -/

/-- **The evaluator and the checklist agree.**  On one portfolio and one configuration whose
effective threshold is not above the loss budget: when the flag is up, or the evaluator
decides anything but `NoChange`, the standard checklist does not approve a leveraged signal. -/
theorem evaluator_stop_refused (hA : A.AddsBelow D) (ctx : PreTradeContext) (now : Instant)
    (hvalue : D ctx.portfolio.leverageSleeveRealizedPnl)
    (hconfig : ctx.config.killSwitchEffectiveThresholdChf ≤ ctx.config.leverageKillSwitchBudgetChf)
    (hsleeve : ctx.signal.sleeve = .cryptoLeverage)
    (hstop : ctx.portfolio.killSwitchActive = true ∨ ∃ decision,
      evaluate A ctx.portfolio ctx.config now = some decision ∧ decision ≠ .noChange) :
    PreTradeChecklist.approves (PreTradeChecklist.standard A) ctx = false := by
  rcases hstop with hflag | ⟨decision, hdecision, hne⟩
  · exact not_approved_of_flag hsleeve hflag
  cases verdict_of_evaluate hdecision with
  | hard effective value breach =>
    exact not_approved_of_budget hsleeve (budgetGuards_of_le value (breach.trans hconfig))
  | flagUp => exact absurd rfl hne
  | budget effective value above flag breach =>
    have hle := effective_le_realized hA hvalue value
    exact not_approved_of_budget hsleeve (budgetGuards_of_le value (hle.trans breach))
  | drawdown effective dd value above flag within fraction breach =>
    exact not_approved_of_drawdown (capAndDrawdownGuards_of_lt hsleeve fraction breach)
  | nominal => exact absurd rfl hne

/-- An entry on a portfolio that has realised its loss budget, with two entries for the
leverage sleeve, of which the first counts. -/
def sampleBreach : PreTradeContext :=
  { sampleExit with
    signal := { sampleExit.signal with signalType := .trendEntry }
    portfolio := { sampleExit.portfolio with
      sleeves := [⟨.cryptoLeverage, 1000, 0, -1000, 50⟩, ⟨.cryptoLeverage, 0, 0, 500, 0⟩] } }

theorem evaluator_stop_refused_sample :
    PreTradeChecklist.approves (PreTradeChecklist.standard Arith.decimal) sampleBreach = false :=
  evaluator_stop_refused Arith.decimal_addsBelow sampleBreach 0
    ⟨-1000, 0, by decide, by decide, by decide +kernel⟩ (by decide +kernel) rfl
    (Or.inr ⟨.disable (.lifetimeRealisedLossBudgetExhausted (-1000) (-1000)) 0,
      by decide +kernel, by decide +kernel⟩)

end RazorTrade
