import RazorTrade.Daemon.Supervisor

/-! # The fill reconciler (`fill_reconciler.rs`)

A tick reads the fill ring and takes the fills above the watermark in ring order.  Each
goes through the applied-fills check, the order, the position and the record, every one
of them a transaction of its own; an error ends the tick there.  A fill whose broker
order id no row carries is tried once more by its client order id (`catchOrphan`).

  `reconcileOnce_all` :  what a tick issues (`ReconcilerOp`) -/

namespace RazorTrade

open Interaction DaemonM

namespace Daemon

variable (d : Daemon)

/-- Record the fill and raise the watermark: the end of a fill's processing. -/
def recordFill (fill : FillEntry) (t : String) : DaemonM Unit := do
  db (.recordFillApplied Database.krakenFutures fill.fillId t)
  perform (.advance fill.seq)

/-- The position part for a fill that an order took; without a sleeve there is none. -/
def updatePosition (fill : FillEntry) (t : String) (outcome : Database.OrderFillOutcome) :
    DaemonM Unit :=
  match outcome.sleeve with
  | none => pure ()
  | some sleeve => do
    let _ ← db (.applyFillToPosition fill outcome.instrumentSymbol outcome.broker sleeve
      outcome.isBuy t)
    if sleeve = "crypto_leverage" then
      let _ ← attempt d.evaluateKillSwitchOnce

/-- Look for an order with the fill's client order id and give it the broker order id;
every error counts as not found. -/
def backfillByCliOrdId (fill : FillEntry) (t : String) : DaemonM Bool :=
  match fill.cliOrdId with
  | none => return false
  | some cli => do
    match ← tryDb (.findOrderIdByCliOrdId Database.krakenFutures cli) with
    | .ok (some orderId) =>
      match ← tryDb (.backfillBrokerOrderId orderId fill.orderId t) with
      | .ok _ => return true
      | .error _ => return false
    | .ok none => return false
    | .error _ => return false

/-- The orphan-catcher: a second attempt for a fill of an unknown broker order id. -/
def catchOrphan (fill : FillEntry) (t : String) : DaemonM Unit := do
  if ← backfillByCliOrdId fill t then
    match ← db (.applyFillToOrder fill t) with
    | some outcome => d.updatePosition fill t outcome
    | none => pure ()

/-- One fill of the tick that was not recorded before. -/
def applyFill (fill : FillEntry) (t : String) : DaemonM Unit := do
  match ← db (.applyFillToOrder fill t) with
  | some outcome => d.updatePosition fill t outcome
  | none => d.catchOrphan fill t
  recordFill fill t

/-- One fill of the tick. -/
def reconcileFill (fill : FillEntry) : DaemonM Unit := do
  let t ← nowIso
  if ← db (.hasFillBeenApplied Database.krakenFutures fill.fillId) then
    perform (.advance fill.seq)
  else d.applyFill fill t

/-- `reconcile_once`. -/
def reconcileOnce : DaemonM Unit := do
  let ring ← perform .readFills
  if !ring.isSynced then return
  let watermark ← perform .lastAppliedSeq
  if ring.highestSeq ≤ watermark then return
  (ring.fills.filter fun f => watermark < f.seq).forM d.reconcileFill

end Daemon

/-! ## The operations of these programs -/

/-- What a tick may issue besides the kill-switch evaluation. -/
def TickOp : Op → Prop
  | .readFills | .lastAppliedSeq | .advance _ => True
  | .db (.hasFillBeenApplied ..) | .db (.applyFillToOrder ..) | .db (.applyFillToPosition ..)
  | .db (.recordFillApplied ..) | .db (.findOrderIdByCliOrdId ..)
  | .db (.backfillBrokerOrderId ..) => True
  | _ => False

def ReconcilerOp (o : Op) : Prop := SupervisorOp o ∨ TickOp o

namespace Daemon

open Fallible

variable (d : Daemon) (fill : FillEntry) (t : String)

theorem updatePosition_all (out : Database.OrderFillOutcome) :
    All ReconcilerOp (d.updatePosition fill t out) := by
  unfold updatePosition
  split
  · exact all_pure _
  · refine all_bind (all_db (Or.inr trivial)) fun _ => ?_
    split
    · exact all_bind (all_attempt (all_mono (fun _ => Or.inl) d.evaluateKillSwitchOnce_all))
        fun _ => all_pure _
    · exact all_pure _

/-- The search for an order issues two statements. -/
theorem all_backfillByCliOrdId {I : Op → Prop}
    (hfind : ∀ broker cli, I (.db (.findOrderIdByCliOrdId broker cli)))
    (hbackfill : ∀ id broker now, I (.db (.backfillBrokerOrderId id broker now))) :
    All I (backfillByCliOrdId fill t) := by
  unfold backfillByCliOrdId
  split
  · exact all_pure _
  · refine all_bind (all_tryDb (hfind ..)) fun r => ?_
    split
    · refine all_bind (all_tryDb (hbackfill ..)) fun r => ?_
      split <;> exact all_pure _
    · exact all_pure _
    · exact all_pure _

/-- The record of a fill is one statement and the watermark. -/
theorem all_recordFill {I : Op → Prop}
    (hrecord : ∀ broker now, I (.db (.recordFillApplied broker fill.fillId now)))
    (hadvance : I (.advance fill.seq)) : All I (recordFill fill t) :=
  all_bind (all_db (hrecord ..)) fun _ => all_perform hadvance

theorem backfillByCliOrdId_all : All ReconcilerOp (backfillByCliOrdId fill t) :=
  all_backfillByCliOrdId fill t (fun _ _ => Or.inr trivial) fun _ _ _ => Or.inr trivial

theorem catchOrphan_all : All ReconcilerOp (d.catchOrphan fill t) := by
  refine all_bind (backfillByCliOrdId_all fill t) fun found => ?_
  split
  · refine all_bind (all_db (Or.inr trivial)) fun out => ?_
    split
    · exact d.updatePosition_all fill t _
    · exact all_pure _
  · exact all_pure _

theorem recordFill_all : All ReconcilerOp (recordFill fill t) :=
  all_recordFill fill t (fun _ _ => Or.inr trivial) (Or.inr trivial)

theorem applyFill_all : All ReconcilerOp (d.applyFill fill t) := by
  refine all_bind (all_db (Or.inr trivial)) fun out => ?_
  split
  · exact all_bind (d.updatePosition_all fill t _) fun _ => recordFill_all fill t
  · exact all_bind (d.catchOrphan_all fill t) fun _ => recordFill_all fill t

theorem reconcileFill_all : All ReconcilerOp (d.reconcileFill fill) := by
  refine all_bind (all_nowIso (Or.inl trivial)) fun t => ?_
  refine all_bind (all_db (Or.inr trivial)) fun applied => ?_
  split
  · exact all_perform (Or.inr trivial)
  · exact d.applyFill_all fill t

/-- **What a tick can do.** -/
theorem reconcileOnce_all : All ReconcilerOp d.reconcileOnce := by
  refine all_bind (all_perform (Or.inr trivial)) fun ring => ?_
  split
  · exact all_pure _
  · refine all_bind (all_perform (Or.inr trivial)) fun watermark => ?_
    split
    · exact all_pure _
    · exact all_forM _ _ fun fill _ => d.reconcileFill_all fill

end Daemon

end RazorTrade
