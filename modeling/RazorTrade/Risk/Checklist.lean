import RazorTrade.Risk.Checks

/-! # The pre-trade checklist (`rt-risk/src/checklist.rs`)

`PreTradeChecklist.evaluate` puts the kill-switch gate in front and then runs every
check, so a rejection never hides another one.

  `approves_eq` :  approved  =  the gate is open  &&  every check passes -/

namespace RazorTrade

structure ChecklistResult where
  /-- Check ids with their outcomes, in the order of evaluation. -/
  outcomes : List (String × CheckOutcome)
  evaluatedAt : Instant
  approved : Bool

namespace ChecklistResult

def rejections (r : ChecklistResult) : List (String × RejectionReason) :=
  r.outcomes.filterMap fun o => match o.2 with
    | .rejected reason => some (o.1, reason)
    | _ => none

/-- `summary` of a result that is not approved. -/
def rejectionSummary (r : ChecklistResult) : String :=
  "REJECTED (" ++ "; ".intercalate (r.rejections.map fun x => x.1 ++ ": " ++ x.2.summary) ++ ")"

def outcomesJson (r : ChecklistResult) : Json :=
  .arr (r.outcomes.map fun o => .arr [.str o.1, o.2.toJson])

end ChecklistResult

/-- A check with its stable id. -/
structure PreTradeCheck where
  id : String
  evaluate : PreTradeContext → Option CheckOutcome

/-- The check runs to its end and does not reject. -/
def PreTradeCheck.passes (c : PreTradeCheck) (ctx : PreTradeContext) : Bool :=
  ((c.evaluate ctx).map CheckOutcome.passes).getD false

namespace PreTradeChecklist

/-- The canonical checklist, in the documented order. -/
def standard (A : Arith) : List PreTradeCheck :=
  [⟨"staleness", StalenessCheck.evaluate⟩,
    ⟨"spread_liquidity", SpreadLiquidityCheck.evaluate A⟩,
    ⟨"volatility_regime", VolatilityRegimeCheck.evaluate⟩,
    ⟨"hard_limit", HardLimitCheck.evaluate A⟩,
    ⟨"duplicate_position", DuplicatePositionCheck.evaluate⟩,
    ⟨"liquidation_distance", LiquidationDistanceCheck.evaluate A⟩,
    ⟨"funding_rate", FundingRateCheck.evaluate⟩,
    ⟨"notional_cap", NotionalCapCheck.evaluate⟩]

/-- The gate that comes before the checks. -/
def killSwitchGate (ctx : PreTradeContext) : List (String × CheckOutcome) :=
  if ctx.portfolio.killSwitchActive ∧ ctx.signal.sleeve = .cryptoLeverage then
    [("kill_switch_gate", .rejected .killSwitchActive)]
  else []

/-- Run every check, in order; `none` when one of them panics. -/
def runChecks (checks : List PreTradeCheck) (ctx : PreTradeContext) :
    Option (List (String × CheckOutcome)) :=
  checks.mapM fun c => (c.evaluate ctx).map fun o => (c.id, o)

def evaluate (checks : List PreTradeCheck) (ctx : PreTradeContext) : Option ChecklistResult := do
  let outcomes := killSwitchGate ctx ++ (← runChecks checks ctx)
  return ⟨outcomes, ctx.now, outcomes.all fun o => o.2.passes⟩

/-- The checklist runs to the end and approves. -/
def approves (checks : List PreTradeCheck) (ctx : PreTradeContext) : Bool :=
  ((evaluate checks ctx).map (·.approved)).getD false

/-! ## Lemmas -/

theorem runChecks_cons (c : PreTradeCheck) (cs : List PreTradeCheck) (ctx : PreTradeContext) :
    runChecks (c :: cs) ctx =
      (c.evaluate ctx).bind fun o => (runChecks cs ctx).map fun os => (c.id, o) :: os := by
  unfold runChecks
  rw [List.mapM_cons]
  cases c.evaluate ctx with
  | none => rfl
  | some o => cases h : cs.mapM fun c => (c.evaluate ctx).map fun o => (c.id, o) <;> simp

theorem runChecks_all (checks : List PreTradeCheck) (ctx : PreTradeContext) :
    ((runChecks checks ctx).map fun os => os.all fun o => o.2.passes).getD false =
      checks.all fun c => c.passes ctx := by
  induction checks with
  | nil => rfl
  | cons c cs ih =>
    rw [runChecks_cons, List.all_cons, ← ih]
    unfold PreTradeCheck.passes
    cases c.evaluate ctx with
    | none => simp
    | some o => cases runChecks cs ctx <;> simp

/-- **Approval.**  A signal is approved iff the kill-switch gate is open for it and
every check returns `Approved` or `NotApplicable`. -/
theorem approves_eq (checks : List PreTradeCheck) (ctx : PreTradeContext) :
    approves checks ctx =
      ((killSwitchGate ctx).all (fun o => o.2.passes) && checks.all fun c => c.passes ctx) := by
  rw [← runChecks_all]
  unfold approves evaluate
  cases runChecks checks ctx <;> simp

end PreTradeChecklist

end RazorTrade
