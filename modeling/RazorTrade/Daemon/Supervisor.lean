import RazorTrade.Daemon.World
import RazorTrade.Risk.KillSwitch

/-! # Portfolio loading and the kill-switch supervisor (`portfolio_loader.rs`, `main.rs`)

`load_portfolio_state` builds the portfolio from the latest equity snapshot (it writes
a bootstrap snapshot into an empty table).  `evaluate_kill_switch_once` records a soft
stop, or records a hard stop and panic-closes every open leverage position.  It runs in
the supervisor and, after every leverage fill, in the fill reconciler.

  `evaluateKillSwitchOnce_all` :  what it issues (`SupervisorOp`): no statement on
                                  orders or fills, and only orders without a signal -/

namespace RazorTrade

open Interaction DaemonM

/-- The configuration of a daemon. -/
structure Daemon where
  A : Arith
  risk : RiskConfig
  executionMode : ExecutionMode
  instruments : InstrumentRegistry
  /-- `rust_decimal`'s `from_str`. -/
  parseDecimal : String → Except String ℚ
  /-- `chrono`'s `parse_from_rfc3339`. -/
  parseRfc3339 : String → Except String Instant

/-- A broker is configured in every mode but dry-run. -/
def Daemon.hasBroker (d : Daemon) : Bool := d.executionMode ≠ .dryRun

namespace Daemon

variable (d : Daemon)

/-- The sleeves that the loader knows. -/
def positionSleeve? : String → Option Sleeve
  | "crypto_leverage" => some .cryptoLeverage
  | "crypto_spot" => some .cryptoSpot
  | "etf" => some .etf
  | _ => none

/-- An open position as the portfolio shows it; liquidation prices are not fed yet. -/
def positionSummary (p : String × String × String × ℚ) : Except String OpenPositionSummary :=
  match positionSleeve? p.2.2.1 with
  | some s => .ok ⟨p.1, s, p.2.2.2, none⟩
  | none => .error ("unknown sleeve \"" ++ p.2.2.1 ++ "\" on open position for " ++ p.1)

/-- `materialise`. -/
def materialise (snap : EquitySnapshotRow) (snapshotAt : Instant) (killSwitchActive : Bool)
    (openPositions : List OpenPositionSummary) : PortfolioState where
  snapshotAt := snapshotAt
  sleeves :=
    [⟨.cryptoSpot, snap.cryptoSpotValueChf, snap.cashChf, 0, 0⟩,
      ⟨.etf, snap.etfValueChf, 0, 0, 0⟩,
      ⟨.cryptoLeverage, snap.cryptoLeverageValueChf, 0, snap.realizedPnlLeverageLifetime,
        snap.unrealizedPnlLeverageChf⟩]
  navPerUnit := snap.navPerUnit
  navHwmPerUnit := snap.navHwmPerUnit
  totalUnits := snap.totalUnits
  killSwitchActive := killSwitchActive
  openPositions := openPositions

/-- The latest snapshot, after a bootstrap snapshot was written into an empty table. -/
def latestOrBootstrap (snapshotAt : Instant) : DaemonM EquitySnapshotRow := do
  match ← dbContext "fetching latest equity snapshot" .latestEquitySnapshot with
  | some s => return s
  | none =>
    let _ ← dbContext "writing bootstrap equity snapshot"
      (.insertEquitySnapshot (Database.bootstrapRow (canonicalIso snapshotAt)))
    match ← db .latestEquitySnapshot with
    | some s => return s
    | none => throw "bootstrap snapshot not readable after insert"

/-- `load_portfolio_state`. -/
def loadPortfolioState (snapshotAt : Instant) : DaemonM PortfolioState := do
  let snap ← latestOrBootstrap snapshotAt
  let killSwitchActive ← dbContext "checking kill-switch state" .killSwitchActive
  let raw ← dbContext "listing open positions" .listOpenLeveragePositions
  let openPositions ← orReturn id (raw.mapM positionSummary)
  return materialise snap snapshotAt killSwitchActive openPositions

/-- The client order id of a panic-close order. -/
def panicCliOrdId (eventId : ℕ) (now : Instant) : String :=
  "rt-panic-" ++ toString eventId ++ "-" ++ toString (now / 1000000000)

/-- The order that closes one position at the market. -/
def panicOrder (eventId : ℕ) (now : Instant) (symbol : String) (qty : ℚ) : Order where
  signalId := none
  broker := .krakenFutures
  cliOrdId := some (panicCliOrdId eventId now)
  instrument :=
    ⟨symbol, .krakenFutures, .cryptoPerp, (d.instruments.lookup symbol).minOrderSize,
      (d.instruments.lookup symbol).tickSize⟩
  side := if 0 ≤ qty then .sell else .buy
  orderType := .market
  timeInForce := .ioc
  quantity := |qty|
  limitPrice := none
  stopPrice := none
  status := .pendingSubmission
  reduceOnly := some true

/-- `panic_close_leverage_positions`: one order a position; a failed submission is logged. -/
def panicCloseLeveragePositions (eventId : ℕ) : DaemonM Unit := do
  let positions ← db .listOpenLeveragePositions
  positions.forM fun p => do
    let t ← now
    let _ ← submitOrder (d.panicOrder eventId t p.1 p.2.2.2)

/-- What a decision leads to. -/
def applyDecision (portfolio : PortfolioState) (hardAlready : Bool) :
    KillSwitchDecision → DaemonM Unit
  | .noChange => pure ()
  | .disable reason t => do
    let _ ← db (.recordKillSwitch (canonicalIso t) reason.kind reason.toJson portfolio)
  | .panicClose reason t => do
    if hardAlready then return
    -- the event comes first, so that a failure below leaves a trace and blocks re-entry
    let eventId ← db (.recordKillSwitch (canonicalIso t) "hard_effective_pnl_budget"
      reason.toJson portfolio)
    if d.hasBroker then
      let _ ← attempt (d.panicCloseLeveragePositions eventId)

/-- `evaluate_kill_switch_once`. -/
def evaluateKillSwitchOnce : DaemonM Unit := do
  let t ← now
  let portfolio ← loadPortfolioState t
  let hardAlready ← db .hasActiveHardTrigger
  let decision ← orPanic (KillSwitchEvaluator.evaluate d.A portfolio d.risk t)
  d.applyDecision portfolio hardAlready decision

end Daemon

/-! ## The operations of these programs -/

/-- What the portfolio loader may issue. -/
def LoaderOp : Op → Prop
  | .db .latestEquitySnapshot | .db .killSwitchActive | .db .listOpenLeveragePositions => True
  | .db (.insertEquitySnapshot row) => ∃ t, row = Database.bootstrapRow t
  | _ => False

/-- What a kill-switch evaluation may issue: the loader's statements, the event, and
panic-close orders. -/
def SupervisorOp : Op → Prop
  | .db .latestEquitySnapshot | .db .killSwitchActive | .db .listOpenLeveragePositions
  | .db .hasActiveHardTrigger | .db (.recordKillSwitch ..) => True
  | .db (.insertEquitySnapshot row) => ∃ t, row = Database.bootstrapRow t
  | .now | .panic | .awaitAnswer _ => True
  | .sendOrder o => o.signalId = none ∧ ∃ e t, o.cliOrdId = some (Daemon.panicCliOrdId e t)
  | _ => False

namespace Daemon

open Fallible

variable (d : Daemon)

theorem latestOrBootstrap_all (t : Instant) : All LoaderOp (latestOrBootstrap t) := by
  refine all_bind (all_dbContext _ trivial) fun r => ?_
  cases r with
  | some s => exact all_pure s
  | none =>
    refine all_bind (all_dbContext _ ⟨_, rfl⟩) fun _ => all_bind (all_db trivial) fun r => ?_
    cases r with
    | some s => exact all_pure s
    | none => exact all_throw _

theorem loadPortfolioState_all (t : Instant) : All LoaderOp (loadPortfolioState t) := by
  refine all_bind (latestOrBootstrap_all t) fun snap => ?_
  refine all_bind (all_dbContext _ trivial) fun _ => all_bind (all_dbContext _ trivial) fun raw => ?_
  exact all_bind (all_orReturn _ _) fun _ => all_pure _

theorem supervisorOp_of_loaderOp (o : Op) (h : LoaderOp o) : SupervisorOp o := by
  unfold LoaderOp at h
  split at h
  · trivial
  · trivial
  · trivial
  · exact h
  · exact h.elim

theorem panicClose_all (eventId : ℕ) :
    All SupervisorOp (d.panicCloseLeveragePositions eventId) := by
  refine all_bind (all_db trivial) fun positions => all_forM _ _ fun p _ => ?_
  exact all_bind (all_now trivial) fun t =>
    all_bind (all_submitOrder ⟨rfl, eventId, t, rfl⟩ fun _ => trivial) fun _ => all_pure _

theorem applyDecision_all (portfolio : PortfolioState) (hardAlready : Bool)
    (decision : KillSwitchDecision) :
    All SupervisorOp (d.applyDecision portfolio hardAlready decision) := by
  cases decision with
  | noChange => exact all_pure _
  | disable reason t => exact all_bind (all_db trivial) fun _ => all_pure _
  | panicClose reason t =>
    simp only [applyDecision]
    split
    · exact all_pure _
    · refine all_bind (all_db trivial) fun eventId => ?_
      split
      · exact all_bind (all_attempt (d.panicClose_all eventId)) fun _ => all_pure _
      · exact all_pure _

/-- **What a kill-switch evaluation can do.**  It touches neither orders nor fills nor
positions, and the orders it sends belong to no signal. -/
theorem evaluateKillSwitchOnce_all : All SupervisorOp d.evaluateKillSwitchOnce := by
  refine all_bind (all_now trivial) fun t => ?_
  refine all_bind (all_mono supervisorOp_of_loaderOp (loadPortfolioState_all t)) fun portfolio => ?_
  refine all_bind (all_db trivial) fun hardAlready => ?_
  exact all_bind (all_orPanic trivial _) fun decision => d.applyDecision_all _ _ _

end Daemon

end RazorTrade
