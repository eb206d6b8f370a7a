import RazorTrade.Daemon.Rejection
import RazorTrade.Lib.Typestate

/-! # The life of a signal

A signal is inserted as pending.  The processor marks it processed or rejected, or puts it off
for the cooldown; nothing else writes the table.  A pass does so at most once for each signal
that its poll returned (`signalMonitor`), whatever fails in between, so what it marks is still
pending and a mark is never overwritten.

  `signal_lifecycle` :  in every run the columns of a signal say where it is, and a signal that
                        has been processed or rejected never changes again -/

namespace RazorTrade

open Interaction Relational Database DaemonM

/-- The columns of a signal that waits, was processed or was rejected. -/
def SignalRow.WellFormed (r : SignalRow) : Prop :=
  (r.status = "pending" ∧ r.processedAt = none ∧ r.rejectionReason = none) ∨
  (r.status = "processed" ∧ r.processedAt.isSome ∧ r.rejectionReason = none) ∨
  (r.status = "rejected" ∧ r.processedAt.isSome ∧ r.rejectionReason.isSome)

/-- The signal that an operation marks or puts off. -/
def Op.touches : Op → Option ℕ
  | .db (.markSignalProcessed s _) | .db (.markSignalRejected s _ _)
  | .db (.setSignalRetryAfter s _) => some s
  | _ => none

/-- Allows one such operation for each of the signals. -/
def signalMonitor (ids : List ℕ) (o : Op) : Option (List ℕ) :=
  match o.touches with
  | none => some ids
  | some s => if s ∈ ids then some (ids.filter (· ≠ s)) else none

def PendingAt (s : ℕ) (w : World) : Prop :=
  ∃ r, w.db.signals.get? s = some r ∧ r.status = "pending"

def lifecycleContract : Contract World Op Ans (Except String Unit) TaskId where
  Inv w := ∀ r ∈ w.db.signals.rows, r.WellFormed
  R
    | .processor => fun w w' => ∀ s, PendingAt s w → PendingAt s w'
    | _ => fun _ _ => True
  G
    | .processor => fun _ w o => ∀ s, o.touches = some s → PendingAt s w
    | _ => fun _ _ o => LeavesSubmission o

/-! ## Lemmas -/

/-! ### The program of the processor -/

section Monitor

open Fallible

variable {d : Daemon} {ids : List ℕ} {s : ℕ} {α β : Type}
variable {signal : Signal} {market : MarketSnapshot} {portfolio : PortfolioState}

/-- The monitor ignores the operation. -/
def Ignored (o : Op) : Prop := o.touches = none

theorem quiet_of_ignored {p : DaemonM α} (hp : All Ignored p) :
    All (fun o => signalMonitor ids o = some ids) p := by
  refine all_mono (fun o ho => ?_) hp
  unfold signalMonitor
  rw [show o.touches = none from ho]

/-- The program touches the signal at most once, and no other. -/
def TouchesOnce (s : ℕ) (p : DaemonM α) : Prop :=
  ∀ ids : List ℕ, s ∈ ids → Obeys signalMonitor (fun ids' _ => ∀ n ∈ ids, n ≠ s → n ∈ ids') ids p

theorem touchesOnce_of_ignored {p : DaemonM α} (hp : All Ignored p) : TouchesOnce s p := by
  intro ids _
  refine Prog.obeys_mono ?_ (Prog.obeys_of_all (quiet_of_ignored hp))
  rintro _ _ rfl n hn _
  exact hn

theorem touchesOnce_pure (a : α) : TouchesOnce s (pure a : DaemonM α) :=
  touchesOnce_of_ignored (all_pure a)

/-- What comes before may not touch. -/
theorem touchesOnce_bind {p : DaemonM α} {f : α → DaemonM β} (hp : All Ignored p)
    (hf : ∀ a, TouchesOnce s (f a)) : TouchesOnce s (p >>= f) := fun ids hs =>
  obeys_quiet (quiet_of_ignored hp) (fun a => hf a ids hs) fun _ _ hn _ => hn

/-- What comes after the one statement that touches may not. -/
theorem touchesOnce_mark {q : DbOp} {f : q.Ret → DaemonM β} (hq : (Op.db q).touches = some s)
    (hf : ∀ a, All Ignored (f a)) : TouchesOnce s (db q >>= f) := by
  intro ids hs
  unfold Obeys
  rw [run_db_bind]
  refine ⟨ids.filter (· ≠ s), ?_, fun x => ?_⟩
  · unfold signalMonitor
    rw [hq]
    exact if_pos hs
  · have hrest : ∀ n ∈ ids, n ≠ s → n ∈ ids.filter (· ≠ s) := fun n hn hne =>
      List.mem_filter.mpr ⟨hn, decide_eq_true hne⟩
    cases x with
    | error e => exact hrest
    | ok a =>
      refine Prog.obeys_mono ?_ (Prog.obeys_of_all (quiet_of_ignored (hf a)))
      rintro _ _ rfl
      exact hrest

theorem reject_once (reason : Json) : TouchesOnce s (Daemon.reject s reason) := by
  refine touchesOnce_bind (all_nowIso rfl) fun t => ?_
  rw [← bind_pure (db _)]
  exact touchesOnce_mark rfl fun _ => all_pure _

theorem finishSignal_once (t : String) : TouchesOnce s (Daemon.finishSignal s t) :=
  touchesOnce_mark rfl fun _ => all_db rfl

theorem coolDown_once : TouchesOnce s (Daemon.coolDown s) := by
  refine touchesOnce_bind (all_now rfl) fun t => ?_
  rw [← bind_pure (db _)]
  exact touchesOnce_mark rfl fun _ => all_pure _

/-- A part that touches, after which an outcome ends the program. -/
theorem touchesOnce_outcome {p : DaemonM α} {f : α → DaemonM β}
    (hp : ∀ ids : List ℕ, s ∈ ids → Obeys signalMonitor (fun ids' r =>
      (∀ n ∈ ids, n ≠ s → n ∈ ids') ∧ ∀ a, r = .ok a → s ∈ ids' ∨ All Ignored (f a)) ids p)
    (hf : ∀ a, TouchesOnce s (f a)) : TouchesOnce s (p >>= f) := by
  intro ids hs
  refine obeys_bind (obeys_mono ?_ (hp ids hs))
  rintro ids' r ⟨hrest, hr⟩
  cases r with
  | error e => exact hrest
  | ok a =>
    rcases hr a rfl with hin | hquiet
    · exact obeys_mono (fun _ _ h n hn hne => h n (hrest n hn hne) hne) (hf a ids' hin)
    · refine Prog.obeys_mono ?_ (Prog.obeys_of_all (quiet_of_ignored hquiet))
      rintro _ _ rfl
      exact hrest

/-- `try_reconcile_uncertain_order` touches the signal only when nothing is submitted after. -/
theorem tryReconcile_once {f : UncertainReconcileOutcome → DaemonM β} (hs : s ∈ ids)
    (hreconciled : All Ignored (f .alreadyReconciled)) (hretry : All Ignored (f .lookupFailedRetry))
    (hmalformed : All Ignored (f .malformedUnrecoverable)) :
    Obeys signalMonitor (fun ids' r => (∀ n ∈ ids, n ≠ s → n ∈ ids') ∧
      ∀ a, r = .ok a → s ∈ ids' ∨ All Ignored (f a)) ids (Daemon.tryReconcileUncertainOrder s) := by
  have hends {p : DaemonM Unit} {outcome : UncertainReconcileOutcome} (hp : TouchesOnce s p)
      (hf : All Ignored (f outcome)) : Obeys signalMonitor (fun ids' r =>
        (∀ n ∈ ids, n ≠ s → n ∈ ids') ∧ ∀ a, r = .ok a → s ∈ ids' ∨ All Ignored (f a)) ids
        (p >>= fun _ => pure outcome) := by
    refine obeys_bind (obeys_mono ?_ (hp ids hs))
    intro ids' r hrest
    cases r with
    | error e => exact ⟨hrest, fun a ha => by cases ha⟩
    | ok _ => exact ⟨hrest, fun a ha => by cases ha; exact Or.inr hf⟩
  have herror (e : String) : (∀ n ∈ ids, n ≠ s → n ∈ ids) ∧
      ∀ a, (.error e : Except String UncertainReconcileOutcome) = .ok a →
        s ∈ ids ∨ All Ignored (f a) := ⟨fun _ hn _ => hn, fun a ha => by cases ha⟩
  have hpure (outcome : UncertainReconcileOutcome) : Obeys signalMonitor (fun ids' r =>
      (∀ n ∈ ids, n ≠ s → n ∈ ids') ∧ ∀ a, r = .ok a → s ∈ ids' ∨ All Ignored (f a)) ids
      (pure outcome : DaemonM _) := obeys_pure ⟨fun _ hn _ => hn, fun _ _ => Or.inl hs⟩
  refine obeys_quiet (quiet_of_ignored (all_db rfl)) (fun r => ?_) herror
  rcases r with - | ⟨orderId, status, cli⟩
  · exact hpure _
  cases status with
  | acknowledged | partiallyFilled | filled | submitted =>
    exact obeys_quiet (quiet_of_ignored (all_nowIso rfl))
      (fun t => hends (finishSignal_once t) hreconciled) herror
  | uncertain =>
    cases cli with
    | none => exact hends (reject_once _) hmalformed
    | some c =>
      refine obeys_quiet (quiet_of_ignored (all_perform rfl)) (fun found => ?_) herror
      rcases found with err | - | summary
      · exact hends coolDown_once hretry
      · exact hpure _
      · refine obeys_quiet (quiet_of_ignored (all_nowIso rfl)) (fun t => ?_) herror
        exact obeys_quiet (quiet_of_ignored (all_db rfl))
          (fun _ => hends (finishSignal_once t) hreconciled) herror
  | pendingSubmission | cancelled | rejected | failed => exact hpure _

theorem recordSubmission_once (id : ℕ) (t : String)
    (result : Except ExecutionError SubmissionResult) :
    TouchesOnce s (Daemon.recordSubmission s id t result) := by
  cases result with
  | ok sub => exact touchesOnce_bind (all_db rfl) fun _ => finishSignal_once t
  | error err =>
    simp only [Daemon.recordSubmission]
    split
    · exact touchesOnce_bind (all_db rfl) fun _ => coolDown_once
    · refine touchesOnce_bind (all_db rfl) fun _ => ?_
      rw [← bind_pure (db _)]
      exact touchesOnce_mark rfl fun _ => all_pure _

theorem buildAndSubmit_once (resubmit : Option ℕ) :
    TouchesOnce signal.id (d.buildAndSubmit signal market portfolio resubmit) := by
  unfold Daemon.buildAndSubmit
  split
  · exact reject_once _
  · refine touchesOnce_bind ?_ fun id => ?_
    · refine all_bind (all_nowIso rfl) fun t => ?_
      cases resubmit with
      | none => exact all_db rfl
      | some n => exact all_pure n
    · refine touchesOnce_bind (all_submitOrder rfl fun _ => rfl) fun result => ?_
      exact touchesOnce_bind (all_nowIso rfl) fun t => recordSubmission_once _ _ _

theorem submitViaBroker_once :
    TouchesOnce signal.id (d.submitViaBroker signal market portfolio) := by
  unfold Daemon.submitViaBroker
  split
  · exact reject_once _
  split
  · exact reject_once _
  refine touchesOnce_outcome (fun ids hs =>
    tryReconcile_once hs (all_pure _) (all_pure _) (all_pure _)) fun outcome => ?_
  cases outcome with
  | noExistingOrder => exact buildAndSubmit_once none
  | resubmitWithOrderId n => exact buildAndSubmit_once (some n)
  | alreadyReconciled | lookupFailedRetry | malformedUnrecoverable => exact touchesOnce_pure _

theorem recordDryRunIntent_once : TouchesOnce signal.id (d.recordDryRunIntent signal market) := by
  refine touchesOnce_bind (all_nowIso rfl) fun t => ?_
  refine touchesOnce_bind (all_db rfl) fun _ => touchesOnce_bind (all_nowIso rfl) fun t' => ?_
  rw [← bind_pure (db _)]
  exact touchesOnce_mark rfl fun _ => all_pure _

theorem evaluateSignal_once : TouchesOnce signal.id (d.evaluateSignal signal market portfolio) := by
  refine touchesOnce_bind (all_now rfl) fun t => ?_
  refine touchesOnce_bind (all_orPanic (show Ignored .panic from rfl) _) fun result => ?_
  refine touchesOnce_bind (all_db rfl) fun _ => ?_
  split
  · unfold Daemon.handleApproval
    split
    · exact recordDryRunIntent_once
    · exact submitViaBroker_once
    · exact submitViaBroker_once
  · exact reject_once _

theorem ignored_of_loaderOp (o : Op) (h : LoaderOp o) : Ignored o := by
  unfold LoaderOp at h
  split at h
  case h_5 => exact h.elim
  all_goals rfl

theorem ignored_of_feedOp (o : Op) (h : FeedOp o) : Ignored o := by
  unfold FeedOp at h
  split at h
  case h_5 => exact h.elim
  all_goals rfl

theorem judgeSignal_once : TouchesOnce signal.id (d.judgeSignal signal) := by
  refine touchesOnce_bind (all_mono ignored_of_feedOp (d.snapshotForSignal_all _ _)) fun r => ?_
  cases r with
  | error e => exact reject_once _
  | ok market =>
    refine touchesOnce_bind (all_now rfl) fun t => ?_
    refine touchesOnce_bind (all_attempt (all_mono ignored_of_loaderOp
      (Daemon.loadPortfolioState_all t))) fun r => ?_
    cases r with
    | error e => exact reject_once _
    | ok portfolio => exact evaluateSignal_once

/-- **One signal.** -/
theorem processSignal_once (row : SignalRow) : TouchesOnce row.id (d.processSignal row) := by
  unfold Daemon.processSignal
  split
  · exact reject_once _
  · rename_i signal hsignal
    obtain ⟨hid, -, -, -⟩ := d.rowToSignal_ok hsignal
    rw [← hid]
    split
    · exact judgeSignal_once
    · refine touchesOnce_bind (all_now rfl) fun t => ?_
      split
      · rw [← bind_pure (db _)]
        exact touchesOnce_mark rfl fun _ => all_pure _
      · exact judgeSignal_once

/-- **The signals of a poll**, one after the other. -/
theorem pollLoop_obeys {rows : List SignalRow} (hnodup : (rows.map (·.id)).Nodup) :
    Obeys signalMonitor (fun _ _ => True) (rows.map (·.id))
      (rows.forM fun row => do
        let _ ← DaemonM.attempt (d.processSignal row) : DaemonM PUnit) := by
  refine obeys_mono (fun _ _ _ => trivial) (obeys_forM (A := fun (rows : List SignalRow) ids =>
    (rows.map (·.id)).Nodup ∧ ∀ n ∈ rows.map (·.id), n ∈ ids) ?_ ⟨hnodup, fun _ h => h⟩)
  rintro row rows ids ⟨hnodup, hids⟩
  obtain ⟨hs, hnodup⟩ := List.nodup_cons.mp hnodup
  refine obeys_bind (obeys_attempt (obeys_mono ?_
    (processSignal_once row ids (hids _ List.mem_cons_self))))
  intro ids' r h
  refine ⟨rfl, hnodup, fun n hn => h n (hids n (List.mem_cons_of_mem _ hn)) ?_⟩
  rintro rfl
  exact hs hn

end Monitor

/-! ### What a statement makes of a signal -/

/-- A row of the table and what one statement leaves in its place. -/
inductive SignalMove (r : SignalRow) : DbOp → SignalRow → Prop
  | keeps {o : DbOp} : SignalMove r o r
  | processes (t : String) : SignalMove r (.markSignalProcessed r.id t)
      { r with status := "processed", processedAt := some t }
  | rejects (t : String) (reason : Json) : SignalMove r (.markSignalRejected r.id t reason)
      { r with status := "rejected", processedAt := some t, rejectionReason := some reason }
  | putsOff (t : String) : SignalMove r (.setSignalRetryAfter r.id t)
      { r with retryAfterAt := some t }
  | clears : SignalMove r (.clearSignalRetryAfter r.id) { r with retryAfterAt := none }

theorem DbOp.run_signals {A : Arith} {o : DbOp} {x : o.Ret} {db db' : Database}
    (h : o.run A db = some (.ok (x, db'))) : ∃ g : SignalRow → SignalRow,
      (∀ s, db'.signals.get? s = (db.signals.get? s).map g) ∧ ∀ r, SignalMove r o (g r) := by
  have hs := (run_sameExcept h).signals
  have hmodify {o : DbOp} (n : ℕ) (f : SignalRow → SignalRow)
      (hf : ∀ r : SignalRow, r.id = n → SignalMove r o { f r with id := r.id }) :
      ∃ g : SignalRow → SignalRow,
        (∀ s, (db.modifySignal n f).signals.get? s = (db.signals.get? s).map g) ∧
          ∀ r, SignalMove r o (g r) := by
    refine ⟨Table.updateRow (fun r => r.id = n) f, Table.get?_updateWhere _ _ _, fun r => ?_⟩
    unfold Table.updateRow
    split
    · rename_i hn
      exact hf r (of_decide_eq_true hn)
    · exact .keeps
  cases o with
  | markSignalProcessed n t =>
    cases h
    exact hmodify n _ fun r hr => hr ▸ .processes t
  | markSignalRejected n t reason =>
    cases h
    exact hmodify n _ fun r hr => hr ▸ .rejects t reason
  | setSignalRetryAfter n t =>
    cases h
    exact hmodify n _ fun r hr => hr ▸ .putsOff t
  | clearSignalRetryAfter n =>
    cases h
    exact hmodify n _ fun r hr => hr ▸ .clears
  | _ =>
    refine ⟨id, fun s => ?_, fun r => .keeps⟩
    rw [hs (by simp [writes]), Option.map_id_fun, id]

/-- **A step and a signal.** -/
theorem signal_step {A : Arith} {c : Choice} {o : Op} {w w' : World} {x : Ans o}
    (h : (sem A).step c o w = some (x, w')) {s : ℕ} {r : SignalRow}
    (hr : w.db.signals.get? s = some r) : ∃ r', w'.db.signals.get? s = some r' ∧
      (r' = r ∨ ∃ q, o = .db q ∧ SignalMove r q r') := by
  rcases step_db h with hdb | ⟨q, y, rfl, hrun⟩
  · exact ⟨r, by rw [hdb]; exact hr, Or.inl rfl⟩
  · obtain ⟨g, hg, hmove⟩ := DbOp.run_signals hrun
    exact ⟨g r, by rw [hg, hr]; rfl, Or.inr ⟨q, rfl, hmove r⟩⟩

/-- An operation that does not touch the signal clears its cooldown at most. -/
theorem signal_untouched {A : Arith} {c : Choice} {o : Op} {w w' : World} {x : Ans o}
    (h : (sem A).step c o w = some (x, w')) {s : ℕ} {r : SignalRow}
    (hr : w.db.signals.get? s = some r) (ho : o.touches ≠ some s) :
    ∃ r', w'.db.signals.get? s = some r' ∧ (r' = r ∨ r' = { r with retryAfterAt := none }) := by
  have hid : r.id = s := w.db.signals.key_of_get? hr
  obtain ⟨r', hr', rfl | ⟨q, rfl, hmove⟩⟩ := signal_step h hr
  · exact ⟨_, hr', Or.inl rfl⟩
  · refine ⟨r', hr', ?_⟩
    subst hid
    cases hmove with
    | keeps => exact Or.inl rfl
    | clears => exact Or.inr rfl
    | _ => exact absurd rfl ho

/-! ### The contract -/

section Contract

variable {d : Daemon} {c : Choice} {o : Op} {w w' : World} {x : Ans o} {s : ℕ}

theorem SignalMove.wellFormed {r r' : SignalRow} {q : DbOp} (h : SignalMove r q r')
    (hr : r.WellFormed) (hq : (Op.db q).touches = some r.id → r.status = "pending") :
    r'.WellFormed := by
  have hwaits (hp : r.status = "pending") : r.rejectionReason = none := by
    rcases hr with ⟨-, -, hnone⟩ | ⟨hs, -, -⟩ | ⟨hs, -, -⟩
    · exact hnone
    · rw [hp] at hs
      exact absurd hs (by decide)
    · rw [hp] at hs
      exact absurd hs (by decide)
  cases h with
  | keeps | putsOff t | clears => exact hr
  | processes t => exact Or.inr (Or.inl ⟨rfl, rfl, hwaits (hq rfl)⟩)
  | rejects t reason => exact Or.inr (Or.inr ⟨rfl, rfl, rfl⟩)

theorem wellFormed_step (h : ∀ r ∈ w.db.signals.rows, r.WellFormed)
    (ho : ∀ s, o.touches = some s → PendingAt s w) (hs : (sem d.A).step c o w = some (x, w')) :
    ∀ r ∈ w'.db.signals.rows, r.WellFormed := by
  intro r' hr'
  rcases step_db hs with hdb | ⟨q, y, rfl, hrun⟩
  · rw [hdb] at hr'
    exact h r' hr'
  · obtain ⟨g, hg, hmove⟩ := DbOp.run_signals hrun
    have hget := w'.db.signals.get?_key hr'
    rw [hg] at hget
    obtain ⟨r, hr, rfl⟩ := Option.map_eq_some_iff.mp hget
    refine (hmove r).wellFormed (h r (w.db.signals.mem_of_get? hr)) fun hq => ?_
    obtain ⟨r₀, hr₀, hpending⟩ := ho _ hq
    have hsame := w.db.signals.get?_key (w.db.signals.mem_of_get? hr)
    cases hr₀.symm.trans hsame
    exact hpending

/-- A signal that waits still does after an operation that does not touch it. -/
theorem PendingAt.step (h : PendingAt s w) (ho : o.touches ≠ some s)
    (hs : (sem d.A).step c o w = some (x, w')) : PendingAt s w' := by
  obtain ⟨r, hr, hpending⟩ := h
  obtain ⟨r', hr', rfl | rfl⟩ := signal_untouched hs hr ho
  · exact ⟨_, hr', hpending⟩
  · exact ⟨_, hr', hpending⟩

theorem signals_act {a : Act} (h : actStep a w = some w') :
    (∀ s r, w.db.signals.get? s = some r → w'.db.signals.get? s = some r) ∧
      ((∀ r ∈ w.db.signals.rows, r.WellFormed) → ∀ r ∈ w'.db.signals.rows, r.WellFormed) := by
  rcases actStep_db h with hdb | ⟨row, hdb⟩ | ⟨t, hdb⟩
  · rw [hdb]
    exact ⟨fun _ _ hr => hr, fun h => h⟩
  · rw [hdb]
    refine ⟨fun s r hr => Table.get?_insert_of_some _ _ hr, fun h r hr => ?_⟩
    rcases (Table.mem_insert _ _ _).mp hr with hr | rfl
    · exact h r hr
    · exact Or.inl ⟨rfl, rfl, rfl⟩
  · rw [hdb]
    exact ⟨fun _ _ hr => hr, fun h => h⟩

theorem touches_of_leaves (h : LeavesSubmission o) : o.touches = none := by
  unfold Op.touches
  split
  · exact h.elim
  · exact h.elim
  · exact h.elim
  · rfl

/-- What the others do to the signals. -/
abbrev SignalRely (w w' : World) : Prop := ∀ s, PendingAt s w → PendingAt s w'

/-- **A pass of the processor.** -/
theorem pollOnce_touches (d : Daemon) (tr : List Ev) (w : World) :
    Safe (sem d.A) SignalRely (fun _ w o => ∀ s, o.touches = some s → PendingAt s w)
      (fun _ _ _ => True) d.pollOnce.run tr w := by
  refine Fallible.safe_seq (P := Ignored) (A := fun _ _ => True) (fun _ _ h => h)
    (fun _ _ _ _ _ => trivial) ?_ (fun _ _ _ _ _ _ _ _ _ => trivial) (all_nowIso rfl) trivial
    (fun t tr w _ => ?_) fun _ _ _ _ => trivial
  · intro tr w o ho _ s hs
    rw [show o.touches = none from ho] at hs
    cases hs
  refine safe_db fun w' _ => ⟨(fun s hs => by cases hs), fun _ _ _ => trivial, ?_⟩
  intro c rows w'' db' _ hrun hw''
  cases hrun
  obtain ⟨hnodup, hpending⟩ := pendingSignals_ids w'.db 64 t
  have hwait : ∀ s ∈ (w'.db.pendingSignals 64 t).map (·.id), PendingAt s w'' := by
    intro s hs
    obtain ⟨r, hr, rfl⟩ := List.mem_map.mp hs
    obtain ⟨hget, hstatus⟩ := hpending r hr
    exact ⟨r, by rw [hw'']; exact hget, hstatus⟩
  refine safe_mono (fun _ _ _ h => h) (fun _ _ _ _ => trivial) (safe_of_obeys
    (J := fun (ids : List ℕ) w => ∀ s ∈ ids, PendingAt s w) ?_ ?_ (pollLoop_obeys hnodup) hwait)
  · exact fun ids w w' h hw s hs => hw s (h s hs)
  · intro ids ids' o tr w hm h
    unfold signalMonitor at hm
    split at hm
    · rename_i hnone
      cases hm
      refine ⟨fun s hs => ?_, fun c x w' hstep s hs => (h s hs).step ?_ hstep⟩
      · rw [hnone] at hs
        cases hs
      · rw [hnone]
        simp
    · rename_i n hsome
      split at hm
      · rename_i hn
        cases hm
        refine ⟨fun s hs => ?_, fun c x w' hstep s hs => ?_⟩
        · rw [hsome] at hs
          cases hs
          exact h _ hn
        · obtain ⟨hs, hne⟩ := List.mem_filter.mp hs
          refine (h s hs).step ?_ hstep
          rw [hsome]
          rintro ⟨⟩
          exact of_decide_eq_true hne rfl
      · cases hm

end Contract

namespace Daemon

variable {d : Daemon} {now : Instant} {c₁ c₂ : Config}

theorem lifecycle_start (C : d.system.Condition) (i : TaskId) (w : World) :
    lifecycleContract.SafeFor C i (d.system.program i) [] w := by
  have hother {i : TaskId} {p : DaemonM Unit} (hp : Fallible.All LeavesSubmission p) :
      Safe ((sem d.A).restrict (C.act i)) (fun _ _ => True) (fun _ _ o => LeavesSubmission o)
        (fun _ _ _ => True) p.run [] w := by
    have hall : Prog.All LeavesSubmission p.run := hp
    exact safe_restrict (safe_of_all (P := LeavesSubmission) (A := fun _ _ => True)
      (fun _ _ _ _ _ => trivial) (fun _ _ _ ho _ => ho) (fun _ _ _ _ _ _ _ _ _ => trivial) hall
      trivial)
  cases i with
  | processor => exact safe_restrict (pollOnce_touches d [] w)
  | reconciler => exact hother (Fallible.all_mono leaves_of_reconcilerOp d.reconcileOnce_all)
  | supervisor =>
    exact hother (Fallible.all_mono (fun _ => leaves_of_supervisorOp) d.evaluateKillSwitchOnce_all)
  | equityWriter => exact hother (Fallible.all_mono leaves_of_equityOp d.equityWriter_all)

theorem lifecycle_valid (C : d.system.Condition) : lifecycleContract.Valid C where
  refl := by
    intro i w
    cases i with
    | processor => exact fun _ h => h
    | _ => trivial
  trans := by
    intro i a b c h h'
    cases i with
    | processor => exact fun s hs => h' s (h s hs)
    | _ => trivial
  stable := fun _ _ _ _ _ => trivial
  start := fun i w _ _ => lifecycle_start C i w
  act := by
    intro i tr w o ch x w' h hG _ hs
    cases i with
    | processor =>
      refine ⟨wellFormed_step h hG hs, fun j hj => ?_⟩
      cases j with
      | processor => exact absurd rfl hj
      | _ => trivial
    | _ =>
      have hnone : o.touches = none := touches_of_leaves hG
      refine ⟨wellFormed_step h (fun s hs => by rw [hnone] at hs; cases hs) hs, fun j _ => ?_⟩
      cases j with
      | processor => exact fun s hp => hp.step (by rw [hnone]; simp) hs
      | _ => trivial
  finish := fun _ _ _ _ _ _ _ => trivial
  env := by
    intro a w w' h _ ha
    obtain ⟨hkeep, hwell⟩ := signals_act ha
    refine ⟨hwell h, fun i => ?_⟩
    cases i with
    | processor => exact fun s ⟨r, hr, hp⟩ => ⟨r, hkeep s r hr, hp⟩
    | _ => trivial
  restart := fun w h _ => ⟨h, fun _ => trivial⟩

/-- In every reachable configuration what is about to touch a signal finds it pending. -/
theorem touches_pending (h : d.Reaches now c₁) {i : TaskId} {o : Op}
    {k : Ans o → Prog Op Ans (Except String Unit)} {tr : List Ev}
    (hp : c₁.pass i = some ⟨.op o k, tr⟩) {s : ℕ} (hs : o.touches = some s) :
    PendingAt s c₁.state := by
  have hG := Contract.guarantee_of_reaches (lifecycle_valid _) (Contract.holds_idle
    (s := World.initial now) (fun r hr => absurd hr List.not_mem_nil) fun _ => trivial) h hp
  cases i with
  | processor => exact hG s hs
  | _ =>
    rw [touches_of_leaves hG] at hs
    cases hs

/-! ## Main result -/

/-- **The life of a signal.**  In every reachable state the columns of a signal say where it is;
the signal is still there in every later state; and once it has been processed or rejected its
row never changes again, but that the end of its cooldown may be cleared. -/
theorem signal_lifecycle (h₁ : d.Reaches now c₁)
    (h₂ : (System.Condition.any (S := d.system)).Reaches c₁ c₂) {s : ℕ} {r : SignalRow}
    (hr : c₁.state.db.signals.get? s = some r) :
    r.WellFormed ∧ ∃ r', c₂.state.db.signals.get? s = some r' ∧
      (r.status ≠ "pending" → r' = r ∨ r' = { r with retryAfterAt := none }) := by
  have hwell := (Contract.hold_of_reaches (lifecycle_valid _) (Contract.holds_idle
    (s := World.initial now) (fun r hr => absurd hr List.not_mem_nil) fun _ => trivial) h₁).1
  refine ⟨hwell r (c₁.state.db.signals.mem_of_get? hr), ?_⟩
  refine System.invariant_of_steps (I := fun w => ∃ r', w.db.signals.get? s = some r' ∧
    (r.status ≠ "pending" → r' = r ∨ r' = { r with retryAfterAt := none })) ?_ ?_ ?_ h₂
    ⟨r, hr, fun _ => Or.inl rfl⟩
  · rintro c i o k tr ch x w h hp ⟨r', hr', hkept⟩ - hstep
    by_cases hsettled : r.status = "pending"
    · obtain ⟨r'', hr'', -⟩ := signal_step hstep hr'
      exact ⟨r'', hr'', fun hne => absurd hsettled hne⟩
    · have hstatus : r'.status = r.status := by rcases hkept hsettled with rfl | rfl <;> rfl
      have hfree : o.touches ≠ some s := by
        intro ho
        obtain ⟨r₀, hr₀, hpending⟩ := touches_pending (h₁.trans h) hp ho
        rw [hr'] at hr₀
        cases hr₀
        exact hsettled (hstatus ▸ hpending)
      obtain ⟨r'', hr'', hrest⟩ := signal_untouched hstep hr' hfree
      refine ⟨r'', hr'', fun hne => ?_⟩
      rcases hkept hne with rfl | rfl <;> rcases hrest with rfl | rfl
      · exact Or.inl rfl
      · exact Or.inr rfl
      · exact Or.inr rfl
      · exact Or.inr rfl
  · rintro c a w - ⟨r', hr', hkept⟩ - ha
    exact ⟨r', (signals_act ha).1 s r' hr', hkept⟩
  · exact fun _ h _ => h

/-- The sample signal is processed; a restart and another pass leave it alone. -/
theorem signal_lifecycle_sample : ∃ c₁ c₂ r r', sampleDaemon.Reaches sampleTime c₁ ∧
    (System.Condition.any (S := sampleDaemon.system)).Reaches c₁ c₂ ∧
    r.status = "processed" ∧ c₂.state.db.signals.get? 1 = some r' ∧
    (r' = r ∨ r' = { r with retryAfterAt := none }) := by
  have hrun : ((sampleDaemon.run sampleTime entryRun).any fun c₁ =>
      (sampleDaemon.system.run ([.restart, .start .processor] ++ smooth .processor 2) c₁).any
        fun _ => (c₁.state.db.signals.get? 1).any fun r => r.status = "processed") = true := by
    decide +kernel
  obtain ⟨c₁, hc₁, hrun⟩ := (Option.any_eq_true _ _).mp hrun
  obtain ⟨c₂, hc₂, hp⟩ := (Option.any_eq_true _ _).mp hrun
  obtain ⟨r, hr, hstatus⟩ := (Option.any_eq_true _ _).mp hp
  have hstatus : r.status = "processed" := of_decide_eq_true hstatus
  have h₁ := reaches_of_run sampleDaemon hc₁
  have h₂ := System.reaches_run .refl hc₂
  obtain ⟨-, r', hr', hkept⟩ := signal_lifecycle h₁ h₂ hr
  exact ⟨c₁, c₂, r, r', h₁, h₂, hstatus, hr', hkept (by rw [hstatus]; decide)⟩

end Daemon

end RazorTrade
