import RazorTrade.Risk.Checks

/-! # The kill-switch evaluator (`rt-risk/src/kill_switch.rs`)

A pure decision on the portfolio: nothing, a soft stop (realised loss budget or
drawdown), or a panic close (effective P&L).  The hard trigger comes first and does
not look at the flag.

  `verdict_of_evaluate` :  the case that a decision comes from -/

namespace RazorTrade

inductive KillSwitchReason where
  | lifetimeRealisedLossBudgetExhausted (realizedPnlChf budgetChf : ℚ)
  | effectivePnlBudgetExhausted (effectivePnlChf thresholdChf : ℚ)
  | portfolioDrawdown (drawdownFraction limitFraction : ℚ)
  | manualTrigger (operator : String)
deriving DecidableEq, Repr

namespace KillSwitchReason

/-- The `reason_kind` that a soft stop records. -/
def kind : KillSwitchReason → String
  | lifetimeRealisedLossBudgetExhausted .. => "lifetime_realised_loss_budget"
  | effectivePnlBudgetExhausted .. => "effective_pnl_budget"
  | portfolioDrawdown .. => "portfolio_drawdown"
  | manualTrigger _ => "manual_trigger"

/-- The serde form, tagged with `kind`. -/
def toJson : KillSwitchReason → Json
  | lifetimeRealisedLossBudgetExhausted realized budget =>
      .obj [("kind", .str "lifetime_realised_loss_budget_exhausted"),
        ("realized_pnl_chf", .str (decimalText realized)), ("budget_chf", .str (decimalText budget))]
  | effectivePnlBudgetExhausted effective threshold =>
      .obj [("kind", .str "effective_pnl_budget_exhausted"),
        ("effective_pnl_chf", .str (decimalText effective)),
        ("threshold_chf", .str (decimalText threshold))]
  | portfolioDrawdown dd limit =>
      .obj [("kind", .str "portfolio_drawdown"), ("drawdown_fraction", .str (decimalText dd)),
        ("limit_fraction", .str (decimalText limit))]
  | manualTrigger operator =>
      .obj [("kind", .str "manual_trigger"), ("operator", .str operator)]

end KillSwitchReason

inductive KillSwitchDecision where
  | noChange
  | disable (reason : KillSwitchReason) (at_ : Instant)
  | panicClose (reason : KillSwitchReason) (at_ : Instant)
deriving DecidableEq, Repr

namespace KillSwitchEvaluator

/-- `KillSwitchEvaluator::evaluate`; `none` is a panic. -/
def evaluate (A : Arith) (portfolio : PortfolioState) (config : RiskConfig) (now : Instant) :
    Option KillSwitchDecision := do
  let effective ← portfolio.leverageSleeveEffectivePnl A
  if effective ≤ config.killSwitchEffectiveThresholdChf then
    return .panicClose
      (.effectivePnlBudgetExhausted effective config.killSwitchEffectiveThresholdChf) now
  if portfolio.killSwitchActive then
    return .noChange
  let realized := portfolio.leverageSleeveRealizedPnl
  if realized ≤ config.leverageKillSwitchBudgetChf then
    return .disable
      (.lifetimeRealisedLossBudgetExhausted realized config.leverageKillSwitchBudgetChf) now
  let dd ← portfolio.drawdownFraction A
  if config.maxPortfolioDrawdown < dd then
    return .disable (.portfolioDrawdown dd config.maxPortfolioDrawdown) now
  return .noChange

/-- Why the evaluator decides as it does. -/
inductive Verdict (A : Arith) (p : PortfolioState) (config : RiskConfig) (now : Instant) :
    KillSwitchDecision → Prop
  | hard (effective : ℚ) (value : p.leverageSleeveEffectivePnl A = some effective)
      (breach : effective ≤ config.killSwitchEffectiveThresholdChf) :
      Verdict A p config now (.panicClose
        (.effectivePnlBudgetExhausted effective config.killSwitchEffectiveThresholdChf) now)
  | flagUp (effective : ℚ) (value : p.leverageSleeveEffectivePnl A = some effective)
      (above : config.killSwitchEffectiveThresholdChf < effective)
      (flag : p.killSwitchActive = true) : Verdict A p config now .noChange
  | budget (effective : ℚ) (value : p.leverageSleeveEffectivePnl A = some effective)
      (above : config.killSwitchEffectiveThresholdChf < effective)
      (flag : p.killSwitchActive = false)
      (breach : p.leverageSleeveRealizedPnl ≤ config.leverageKillSwitchBudgetChf) :
      Verdict A p config now (.disable (.lifetimeRealisedLossBudgetExhausted
        p.leverageSleeveRealizedPnl config.leverageKillSwitchBudgetChf) now)
  | drawdown (effective dd : ℚ) (value : p.leverageSleeveEffectivePnl A = some effective)
      (above : config.killSwitchEffectiveThresholdChf < effective)
      (flag : p.killSwitchActive = false)
      (within : config.leverageKillSwitchBudgetChf < p.leverageSleeveRealizedPnl)
      (fraction : p.drawdownFraction A = some dd) (breach : config.maxPortfolioDrawdown < dd) :
      Verdict A p config now (.disable (.portfolioDrawdown dd config.maxPortfolioDrawdown) now)
  | nominal (effective dd : ℚ) (value : p.leverageSleeveEffectivePnl A = some effective)
      (above : config.killSwitchEffectiveThresholdChf < effective)
      (flag : p.killSwitchActive = false)
      (within : config.leverageKillSwitchBudgetChf < p.leverageSleeveRealizedPnl)
      (fraction : p.drawdownFraction A = some dd) (below : dd ≤ config.maxPortfolioDrawdown) :
      Verdict A p config now .noChange

theorem verdict_of_evaluate {A : Arith} {p : PortfolioState} {config : RiskConfig} {now : Instant}
    {decision : KillSwitchDecision} (h : evaluate A p config now = some decision) :
    Verdict A p config now decision := by
  unfold evaluate at h
  obtain ⟨effective, heff, h⟩ := Option.bind_eq_some_iff.mp h
  by_cases hhard : effective ≤ config.killSwitchEffectiveThresholdChf
  · simp only [hhard, if_true] at h
    cases h
    exact .hard effective heff hhard
  have habove := not_le.mp hhard
  cases hflag : p.killSwitchActive with
  | true =>
    simp only [hhard, hflag, if_true, if_false] at h
    cases h
    exact .flagUp effective heff habove hflag
  | false =>
    by_cases hbudget : p.leverageSleeveRealizedPnl ≤ config.leverageKillSwitchBudgetChf
    · simp only [hhard, hflag, hbudget, if_true, if_false, Bool.false_eq_true] at h
      cases h
      exact .budget effective heff habove hflag hbudget
    · have hwithin := not_le.mp hbudget
      simp only [hhard, hflag, hbudget, if_false, Bool.false_eq_true] at h
      obtain ⟨dd, hdd, h⟩ := Option.bind_eq_some_iff.mp h
      by_cases hbreach : config.maxPortfolioDrawdown < dd
      · simp only [hbreach, if_true] at h
        cases h
        exact .drawdown effective dd heff habove hflag hwithin hdd hbreach
      · simp only [hbreach, if_false] at h
        cases h
        exact .nominal effective dd heff habove hflag hwithin hdd (not_lt.mp hbreach)

end KillSwitchEvaluator

end RazorTrade
