import RazorTrade.Daemon.System
import RazorTrade.Lib.Answers

/-! # The tasks under answers of one kind

`Given` for the primitives of the daemon, and for the tick of the reconciler: it updates a
position only after an order took the fill, so what a tick owes for positions it owes only under
such an answer.  `sound_of_db` is `Sound` for an invariant of the database alone.

  `given_reconcileOnce` :  a tick that may rely on the answers -/

namespace RazorTrade

open Interaction Relational DaemonM

section

open Fallible

variable {N : (o : Op) → Ans o → Prop} {P : Op → Prop} {α : Type} {Q : α → Prop}

/-- A value, or a panic. -/
theorem given_orPanic {a : Option α} (hpanic : P .panic) (h : ∀ x, a = some x → Q x) :
    Given N P Q (orPanic a) := by
  cases a with
  | some x => exact given_pure (h x rfl)
  | none => exact ⟨hpanic, fun x _ => x.elim⟩

theorem given_orReturn {ε : Type} {text : ε → String} {r : Except ε α}
    (h : ∀ x, r = .ok x → Q x) : Given N P Q (orReturn text r) := by
  cases r with
  | ok x => exact given_pure (h x rfl)
  | error e => exact given_throw _

theorem given_db {o : DbOp} (h : P (.db o)) : Given N P (fun x => N (.db o) (.ok x)) (db o) := by
  refine given_bind (given_perform h) fun r hr => given_orReturn fun x hx => ?_
  subst hx
  exact hr

theorem given_dbContext {o : DbOp} (context : String) (h : P (.db o)) :
    Given N P (fun x => N (.db o) (.ok x)) (dbContext context o) := by
  refine given_bind (given_perform h) fun r hr => given_orReturn fun x hx => ?_
  subst hx
  exact hr

end

/-- What a tick issues for every fill, whatever becomes of it. -/
def PlainTickOp : Op → Prop
  | .readFills | .lastAppliedSeq | .advance _ | .now => True
  | .db (.hasFillBeenApplied ..) | .db (.applyFillToOrder ..) | .db (.recordFillApplied ..)
  | .db (.findOrderIdByCliOrdId ..) | .db (.backfillBrokerOrderId ..) => True
  | _ => False

namespace Daemon

open Fallible

variable {d : Daemon} {N : (o : Op) → Ans o → Prop} {P : Op → Prop}

/-- A position may be updated under the answer that an order took the fill. -/
def OwesPositions (N : (o : Op) → Ans o → Prop) (P : Op → Prop) : Prop :=
  ∀ fill t out, N (.db (.applyFillToOrder fill t)) (.ok (some out)) → ∀ symbol broker sleeve isBuy,
    P (.db (.applyFillToPosition fill symbol broker sleeve isBuy t))

section Tick

variable (positions : OwesPositions N P)
variable (evaluation : Given N P (fun _ => True) d.evaluateKillSwitchOnce)
include positions evaluation

theorem given_updatePosition {fill : FillEntry} {t : String} {out : Database.OrderFillOutcome}
    (hout : N (.db (.applyFillToOrder fill t)) (.ok (some out))) :
    Given N P (fun _ => True) (d.updatePosition fill t out) := by
  unfold updatePosition
  split
  · exact given_pure trivial
  · refine given_seq (all_db (positions fill t out hout ..)) fun _ => ?_
    split
    · exact given_bind (given_attempt evaluation) fun _ _ => given_pure trivial
    · exact given_pure trivial

variable (tick : ∀ o, PlainTickOp o → P o)
include tick

/-- The orphan-catcher lets the order take the fill a second time. -/
theorem given_catchOrphan (fill : FillEntry) (t : String) :
    Given N P (fun _ => True) (d.catchOrphan fill t) := by
  refine given_seq (all_backfillByCliOrdId fill t (fun _ _ => tick _ trivial)
    fun _ _ _ => tick _ trivial) fun found => ?_
  split
  · refine given_bind (given_db (tick _ trivial)) fun out hout => ?_
    cases out with
    | some outcome => exact given_updatePosition positions evaluation hout
    | none => exact given_pure trivial
  · exact given_pure trivial

theorem given_applyFill (fill : FillEntry) (t : String) :
    Given N P (fun _ => True) (d.applyFill fill t) := by
  have hrecord : All P (recordFill fill t) :=
    all_recordFill fill t (fun _ _ => tick _ trivial) (tick _ trivial)
  refine given_bind (given_db (tick _ trivial)) fun out hout => ?_
  cases out with
  | some outcome =>
    exact given_bind (given_updatePosition positions evaluation hout) fun _ _ => given_all hrecord
  | none =>
    exact given_bind (given_catchOrphan positions evaluation tick fill t) fun _ _ =>
      given_all hrecord

/-- **A tick under answers.** -/
theorem given_reconcileOnce : Given N P (fun _ => True) d.reconcileOnce := by
  refine given_seq (all_perform (tick _ trivial)) fun ring => ?_
  split
  · exact given_pure trivial
  refine given_seq (all_perform (tick _ trivial)) fun watermark => ?_
  split
  · exact given_pure trivial
  refine given_forM fun fill _ => ?_
  refine given_seq (all_nowIso (tick _ trivial)) fun t => ?_
  refine given_seq (all_db (tick _ trivial)) fun applied => ?_
  split
  · exact given_all (all_perform (tick _ trivial))
  · exact given_applyFill positions evaluation tick fill t

end Tick

/-- An invariant of the database: each statement keeps it, and so does what Python and the
operator write. -/
theorem sound_of_db {I : Database → Prop} {C : d.system.Condition}
    (run : ∀ q db x db', I db → P (.db q) → q.run d.A db = some (.ok (x, db')) →
      N (.db q) (.ok x) ∧ I db')
    (error : ∀ q e, N (.db q) (.error e)) (other : ∀ o x, (∀ q, o ≠ .db q) → N o x)
    (insert : ∀ (db : Database) (row : SignalRow), I db →
      I { db with signals := db.signals.insert row.asInserted })
    (resolve : ∀ (db : Database) id t, I db → I { db with
      killSwitchEvents := db.killSwitchEvents.updateWhere (fun r => r.id = id)
        fun r => { r with resolvedAt := some t } }) :
    Sound C (fun w => I w.db) N P where
  act i w o ch x w' h hP _ hs := by
    have hstep : opStep d.A ch o w = some (x, w') := hs
    cases o with
    | db q =>
      rcases opStep_db hstep with ⟨e, rfl, rfl⟩ | ⟨y, db', rfl, hrun, rfl⟩
      · exact ⟨error q e, h⟩
      · exact run q w.db y db' h hP hrun
    | _ =>
      have hsame := (opStep_db_eq hstep (by simp)).1
      exact ⟨other _ _ (by simp), by rw [hsame]; exact h⟩
  env a w w' h _ ha := by
    have hstep : actStep a w = some w' := ha
    cases a with
    | accept n =>
      obtain ⟨e, -, rfl⟩ := Option.map_eq_some_iff.mp hstep
      exact h
    | insertSignal row =>
      cases hstep
      exact insert w.db row h
    | resolveKillSwitch id t =>
      cases hstep
      exact resolve w.db id t h
    | _ =>
      cases hstep
      exact h
  restart _ h _ := h

end Daemon

end RazorTrade
