import RazorTrade.Daemon.RejectionInvariant

/-! # What is outstanding when a signal is rejected

The broker error branch keeps a signal pending after a timeout, because its order may be at
the exchange.  But a later pass runs every gate (expiry, market data, portfolio, checklist,
order build) before it looks for that order, and a gate that closes rejects the signal and
leaves the order behind (`uncertain_order_of_rejected_signal`).

Here a pass of the processor is followed with what it works on in hand: the polled signals
that are left (`Waiting`), and the order row of the current one (`WorksOn`).

Main result, for every run under `rejectionCondition`:

  `rejected_nothing_outstanding` :  no rejected signal has a live or a filled order row -/

namespace RazorTrade

open Interaction Relational Database DaemonM

/-- Operations that neither write orders, nor reject a signal, nor talk to the broker. -/
def CalmOp : Op → Prop
  | .db q => q.writes ≠ some .orders ∧ ∀ s t reason, q ≠ .markSignalRejected s t reason
  | .sendOrder _ | .awaitAnswer _ => False
  | _ => True

/-- The signals that a pass still has to process. -/
def Waiting (ids : List ℕ) (w : World) : Prop := ∀ s ∈ ids, NotRejected s w

/-- Safety of a part of the processor under the condition. -/
def RejectSafe {α : Type} (d : Daemon) (Q : World → Except String α → Prop) (p : DaemonM α)
    (tr : List Ev) (w : World) : Prop :=
  Safe ((sem d.A).restrict RejectionOk) RejectionRely (fun _ w o => RejectionG w o)
    (fun _ w r => Q w r) p.run tr w

/-! ## Lemmas -/

section Calm

open Fallible

theorem calm_of_loaderOp (o : Op) (h : LoaderOp o) : CalmOp o := by
  unfold LoaderOp at h
  split at h
  case h_5 => exact h.elim
  all_goals
    refine ⟨by simp [DbOp.writes], fun s t reason he => ?_⟩
    cases he

theorem calm_of_feedOp (o : Op) (h : FeedOp o) : CalmOp o := by
  unfold FeedOp at h
  split at h
  · trivial
  · trivial
  · trivial
  · trivial
  · exact h.elim

theorem calm_db {q : DbOp} (h : q.writes ≠ some .orders)
    (hr : ∀ s t reason, q ≠ .markSignalRejected s t reason) : All CalmOp (db q) :=
  all_db ⟨h, hr⟩

theorem finishSignal_calm (s : ℕ) (t : String) : All CalmOp (Daemon.finishSignal s t) :=
  all_bind (calm_db (by simp [DbOp.writes]) nofun) fun _ => calm_db (by simp [DbOp.writes]) nofun

theorem coolDown_calm (s : ℕ) : All CalmOp (Daemon.coolDown s) :=
  all_bind (all_now trivial) fun _ => calm_db (by simp [DbOp.writes]) nofun

theorem recordDryRunIntent_calm (d : Daemon) (signal : Signal) (market : MarketSnapshot) :
    All CalmOp (d.recordDryRunIntent signal market) :=
  all_bind (all_nowIso trivial) fun _ => all_bind (calm_db (by simp [DbOp.writes]) nofun)
    fun _ => all_bind (all_nowIso trivial) fun _ => calm_db (by simp [DbOp.writes]) nofun

end Calm

section Rules

variable {d : Daemon} {tr : List Ev} {w w' : World} {α β : Type}

theorem calm_allowed {o : Op} (h : CalmOp o) : RejectionG w o := by
  unfold RejectionG
  split
  · exact absurd rfl h.1
  · exact absurd rfl h.1
  · exact absurd rfl h.1
  · exact absurd rfl h.1
  · exact absurd rfl h.1
  · exact absurd rfl (h.2 _ _ _)
  · exact h.elim
  · trivial

/-- To the processor's assertions a calm operation of its own is like a step of others. -/
theorem calm_step {c : Choice} {o : Op} {x : Ans o} (h : CalmOp o)
    (hs : (sem d.A).step c o w = some (x, w')) : RejectionRely w w' where
  signals := by
    intro s hnot
    refine notRejected_step hs hnot fun t reason he => ?_
    subst he
    exact h.2 s t reason rfl
  rows := by
    funext id
    unfold rowView
    rcases step_db hs with hdb | ⟨q, r, rfl, hrun⟩
    · rw [hdb]
    · rw [(DbOp.run_sameExcept hrun).orders h.1]
  grows := step_grows hs
  held := by
    intro s hnone
    have hx : w'.exchange = w.exchange := by
      have hstep : opStep d.A c o w = some (x, w') := hs
      cases o with
      | db q => rcases opStep_db hstep with ⟨e, -, rfl⟩ | ⟨y, db', -, -, rfl⟩ <;> rfl
      | sendOrder order => exact h.elim
      | awaitAnswer n => exact h.elim
      | getOrderByCliOrdId cli => rw [(lookupStep_eq hstep).1]
      | getAccounts => rw [accountsStep_eq hstep]
      | panic => cases hstep
      | _ => rw [(inMemory_eq hstep).2]
    rwa [hx]

variable {B : World → Prop} {Q : World → Except String β → Prop}

/-- A calm part, then the rest. -/
theorem calm_seq (hB : ∀ w w', B w → RejectionRely w w' → B w') {p : DaemonM α}
    {f : α → DaemonM β} (hp : Fallible.All CalmOp p) (h : B w)
    (hf : ∀ a tr w, B w → RejectSafe d Q (f a) tr w) (he : ∀ e w, B w → Q w (.error e)) :
    RejectSafe d Q (p >>= f) tr w := by
  refine Fallible.safe_seq (P := CalmOp) RejectionRely.refl (fun _ w w' hw hr => hB w w' hw hr)
    (fun _ _ _ ho _ => calm_allowed ho) ?_ hp h hf fun e _ w hw => he e w hw
  intro tr w o c x w' ho hw hs
  exact hB w w' hw (calm_step ho (Sem.restrict_step.mp hs).2)

theorem calm_safe (hB : ∀ w w', B w → RejectionRely w w' → B w') {p : DaemonM α}
    (hp : Fallible.All CalmOp p) (h : B w) : RejectSafe d (fun w _ => B w) p tr w := by
  have hall : Prog.All CalmOp p.run := hp
  refine safe_of_all (P := CalmOp) (A := fun _ w => B w) (fun _ w w' hw hr => hB w w' hw hr)
    (fun _ _ _ ho _ => calm_allowed ho) ?_ hall h
  intro tr w o c x w' ho hw hs
  exact hB w w' hw (calm_step ho (Sem.restrict_step.mp hs).2)

theorem Waiting.rely {ids : List ℕ} (h : Waiting ids w) (hw : RejectionRely w w') :
    Waiting ids w' := fun s hs => hw.signals s (h s hs)

theorem WorksOn.rely {s id : ℕ} (h : WorksOn s id w) (hw : RejectionRely w w') :
    WorksOn s id w' := ⟨hw.signals s h.1, by rw [hw.rows]; exact h.2⟩

/-- A step that does not reject the signals that wait. -/
theorem Waiting.step {ids : List ℕ} {c : Choice} {o : Op} {x : Ans o} (h : Waiting ids w)
    (hs : (sem d.A).step c o w = some (x, w'))
    (ho : ∀ s ∈ ids, ∀ t reason, o ≠ .db (.markSignalRejected s t reason)) : Waiting ids w' :=
  fun s hmem => notRejected_step hs (h s hmem) (ho s hmem)

end Rules

/-! ### A signal that is rejected -/

section Reject

variable {d : Daemon} {tr : List Ev} {w : World} {ids : List ℕ} {s : ℕ}

theorem waiting_stable (ids : List ℕ) :
    ∀ w w', Waiting ids w → RejectionRely w w' → Waiting ids w' := fun _ _ h hw => h.rely hw

/-- The rejection of the current signal leaves the others as they are. -/
theorem markRejected_safe (hs : s ∉ ids) (h : Waiting ids w) {t : String} {reason : Json}
    (hG : ∀ w', RejectionRely w w' → RejectionG w' (.db (.markSignalRejected s t reason))) :
    RejectSafe d (fun w _ => Waiting ids w) (db (.markSignalRejected s t reason)) tr w := by
  unfold RejectSafe
  rw [← bind_pure (db _)]
  refine restrict_db fun w' hw => ⟨hG w' hw, fun e w'' hw' => (h.rely hw).rely hw', ?_⟩
  intro c x w'' db' _ hstep _ _ w₃ hw₃
  refine Waiting.rely ((h.rely hw).step hstep ?_) hw₃
  rintro n hn t' reason' he
  cases he
  exact hs hn

/-- A gate that closes. -/
theorem gate_safe (hs : s ∉ ids) (h : Waiting ids w) {reason : Json}
    (hreason : brokerErrorReason reason = false) :
    RejectSafe d (fun w _ => Waiting ids w) (Daemon.reject s reason) tr w := by
  refine calm_seq (waiting_stable ids) (all_nowIso trivial) h (fun t tr w h => ?_) fun _ _ h => h
  refine markRejected_safe hs h fun w' _ hbroker => ?_
  rw [hreason] at hbroker
  cases hbroker

/-- The order builder's errors are reasons of a gate. -/
theorem gate_of_build {signal : Signal} {market : MarketSnapshot} {portfolio : PortfolioState}
    {reason : Json} (h : d.buildKrakenFuturesOrder signal market portfolio = .error reason) :
    brokerErrorReason reason = false := by
  unfold Daemon.buildKrakenFuturesOrder at h
  split at h
  · unfold Daemon.buildExitOrder at h
    simp only at h
    repeat' split at h
    all_goals cases h
    all_goals rfl
  · unfold Daemon.buildEntryOrder at h
    simp only at h
    repeat' split at h
    all_goals cases h
    all_goals rfl

end Reject

/-! ### The reconciliation of an earlier order -/

section Reconcile

variable {d : Daemon} {tr : List Ev} {w : World} {ids : List ℕ} {s id : ℕ}

/-- What is known while the row of the current signal is worked on. -/
def Working (ids : List ℕ) (s id : ℕ) (w : World) : Prop := WorksOn s id w ∧ Waiting ids w

theorem working_stable (ids : List ℕ) (s id : ℕ) :
    ∀ w w', Working ids s id w → RejectionRely w w' → Working ids s id w' :=
  fun _ _ h hw => ⟨h.1.rely hw, h.2.rely hw⟩

/-- Only a statement could disturb the work. -/
theorem Working.step {w' : World} {c : Choice} {o : Op} {x : Ans o} (h : Working ids s id w)
    (hs : (sem d.A).step c o w = some (x, w')) (ho : ∀ q, o ≠ .db q) : Working ids s id w' := by
  have hdb : w'.db = w.db := (opStep_db_eq (A := d.A) hs ho).1
  have hkeep {n : ℕ} (hn : NotRejected n w) : NotRejected n w' := by
    unfold NotRejected
    rwa [hdb]
  refine ⟨⟨hkeep h.1.1, ?_⟩, fun n hn => hkeep (h.2 n hn)⟩
  rw [hdb]
  exact h.1.2

/-- The current signal before it has an order row. -/
theorem current_stable (ids : List ℕ) (s : ℕ) :
    ∀ w w', Waiting (s :: ids) w → RejectionRely w w' → Waiting (s :: ids) w' :=
  waiting_stable (s :: ids)

theorem Waiting.tail (h : Waiting (s :: ids) w) : Waiting ids w :=
  fun n hn => h n (List.mem_cons_of_mem s hn)

/-- Where the reconciliation leaves a signal. -/
def Reconciled (ids : List ℕ) (s : ℕ) (w : World) :
    Except String UncertainReconcileOutcome → Prop
  | .ok .noExistingOrder => Waiting (s :: ids) w
  | .ok (.resubmitWithOrderId id) => Working ids s id w
  | _ => Waiting ids w

/-- A part that ends with a fixed outcome, the signal being done for this pass. -/
theorem calm_then {p : DaemonM PUnit} {out : UncertainReconcileOutcome}
    (hp : Fallible.All CalmOp p) (h : Waiting ids w)
    (hout : ∀ w, Waiting ids w → Reconciled ids s w (.ok out)) :
    RejectSafe d (Reconciled ids s) (p >>= fun _ => pure out) tr w := by
  refine calm_seq (waiting_stable ids) hp h (fun _ tr w h w' hw => hout w' (h.rely hw)) ?_
  exact fun e w h => h

theorem reconcileUncertain_reject (cli : String) (h : Working ids s id w) :
    RejectSafe d (Reconciled ids s) (Daemon.reconcileUncertain s id cli) tr w := by
  refine restrict_perform fun w' hw => ⟨trivial, fun c x w'' _ hs => ?_⟩
  have h' := working_stable ids s id _ _ (working_stable ids s id _ _ h hw)
    (calm_step (o := .getOrderByCliOrdId cli) trivial hs)
  cases x with
  | error e => exact calm_then (coolDown_calm s) h'.2 fun _ h => h
  | ok found =>
    cases found with
    | none => exact fun w₃ hw₃ => working_stable ids s id _ _ h' hw₃
    | some summary =>
      refine calm_seq (working_stable ids s id) (all_nowIso trivial) h' (fun t tr w h => ?_)
        fun _ _ h => h.2
      refine restrict_db fun w' hw => ⟨⟨s, h.1.rely hw⟩, fun e w'' hw' => ?_, ?_⟩
      · exact (h.2.rely hw).rely hw'
      · intro c x w'' db' _ hs _ _
        exact calm_then (finishSignal_calm s t) ((h.2.rely hw).step hs nofun) fun _ h => h

theorem tryReconcile_reject (hs : s ∉ ids) (h : Waiting (s :: ids) w) :
    RejectSafe d (Reconciled ids s) (Daemon.tryReconcileUncertainOrder s) tr w := by
  refine restrict_db fun w' hw => ⟨trivial, fun e w'' hw' => ?_, ?_⟩
  · exact ((h.rely hw).rely hw').tail
  intro c x w'' db' _ hstep hrun hw''
  have h' : Waiting (s :: ids) w'' := (h.rely hw).step hstep nofun
  cases hrun
  cases hp : w'.db.pendingOrderForSignal s with
  | none => exact fun w₃ hw₃ => h'.rely hw₃
  | some found =>
    obtain ⟨id, status, cli⟩ := found
    have hdone {tr : List Ev} : RejectSafe d (Reconciled ids s)
        (nowIso >>= fun t => Daemon.finishSignal s t >>= fun _ => pure .alreadyReconciled) tr w'' :=
      calm_seq (waiting_stable ids) (all_nowIso trivial) h'.tail
        (fun t tr w h => calm_then (finishSignal_calm s t) h fun _ h => h) fun _ _ h => h
    cases status with
    | acknowledged | partiallyFilled | filled | submitted => exact hdone
    | uncertain =>
      obtain ⟨r, hr, hrs, hst, rfl⟩ := Daemon.pendingOrderForSignal_row hp
      cases hcli : r.cliOrdId with
      | none =>
        refine Fallible.safe_bind RejectionRely.refl (safe_mono (fun _ _ _ h => h) ?_
          (gate_safe hs h'.tail rfl))
        intro tr w e h
        cases e with
        | ok _ => exact fun w' hw => h.rely hw
        | error e => exact fun w' hw => h.rely hw
      | some cli =>
        refine reconcileUncertain_reject cli ⟨⟨h' s (List.mem_cons_self ..), ?_⟩, h'.tail⟩
        unfold rowView
        rw [hw'', hr]
        simp [hrs, hst]
    | _ => exact fun w₃ hw₃ => (h'.rely hw₃).tail

end Reconcile

/-! ### The submission -/

section Submit

variable {d : Daemon} {tr : List Ev} {w : World} {ids : List ℕ} {s id : ℕ}

/-- Where the choice of the order row leaves a submission. -/
def RowChosen (ids : List ℕ) (s : ℕ) (w : World) : Except String ℕ → Prop
  | .ok id => Working ids s id w
  | .error _ => Waiting ids w

theorem orderRowFor_new_reject {order : Order} (h : Waiting (s :: ids) w) :
    RejectSafe d (RowChosen ids s) (Daemon.orderRowFor s order none) tr w := by
  refine calm_seq (current_stable ids s) (all_nowIso trivial) h (fun t tr w h => ?_)
    fun _ _ h => h.tail
  unfold RejectSafe
  rw [← bind_pure (db _)]
  refine restrict_db fun w' hw => ⟨?_, fun e w'' hw' => ((h.rely hw).rely hw').tail, ?_⟩
  · rintro n ⟨⟩
    exact h.rely hw s (List.mem_cons_self ..)
  · intro c x w'' db' _ hstep hrun hw'' w₃ hw₃
    have h' : Waiting (s :: ids) w'' := (h.rely hw).step hstep nofun
    obtain ⟨-, -, rfl, hdb⟩ := insertPendingOrder_ok (Option.some.inj hrun)
    refine working_stable ids s _ _ _ ⟨⟨h' s (List.mem_cons_self ..), ?_⟩, h'.tail⟩ hw₃
    unfold rowView
    rw [hw'', hdb, Table.get?_insert_self]
    rfl

theorem orderRowFor_resubmit_reject {order : Order} (h : Working ids s id w) :
    RejectSafe d (RowChosen ids s) (Daemon.orderRowFor s order (some id)) tr w :=
  calm_seq (working_stable ids s id) (all_nowIso trivial) h
    (fun _ _ _ h _ hw => working_stable ids s id _ _ h hw) fun _ _ h => h.2

/-- How a call ends in an error. -/
theorem awaitStep_error {w' : World} {n : ℕ} {c : Choice} {e : ExecutionError}
    (h : awaitStep n w c = some (.error e, w')) : ∃ dropped, c = .failed e dropped ∧
      w' = if dropped then { w with exchange := w.exchange.drop n } else w := by
  unfold awaitStep at h
  split at h
  · obtain ⟨a, -, ha⟩ := Option.map_eq_some_iff.mp h
    cases ha
  · split at h
    · rename_i hd
      split at h <;> cases h
      exact ⟨_, rfl, (if_pos hd).symm⟩
    · rename_i hd
      cases h
      exact ⟨_, rfl, (if_neg hd).symm⟩
  · cases h

/-- No answer of the exchange reads as `failed`. -/
theorem awaitStep_status {w' : World} {n : ℕ} {c : Choice} {sub : SubmissionResult}
    (h : awaitStep n w c = some (.ok sub, w')) : orderStatusToRow sub.status ≠ .failed := by
  unfold awaitStep at h
  split at h
  · rename_i status
    obtain ⟨a, -, ha⟩ := Option.map_eq_some_iff.mp h
    cases ha
    simp only [fromKrakenStatus]
    repeat' split
    all_goals decide
  · split at h
    · split at h <;> cases h
    · cases h
  · cases h

/-- The row of the current signal has failed, and the exchange holds nothing. -/
theorem recordRejection_safe (hs : s ∉ ids) {t : String} {err : ExecutionError}
    (herr : err.isUncertain = false) (h : Working ids s id w)
    (hheld : w.exchange.mayHold (signalCliOrdId s) = false) :
    RejectSafe d (fun w _ => Waiting ids w) (Daemon.recordSubmission s id t (.error err)) tr w := by
  unfold Daemon.recordSubmission
  simp only [herr, Bool.false_eq_true, if_false]
  refine restrict_db fun w' hw => ⟨?_, fun e w'' hw' => (h.2.rely hw).rely hw', ?_⟩
  · exact ⟨s, false, (h.1.rely hw).2, hw.held s hheld⟩
  · intro c x w'' db' _ hstep hrun hw''
    have hview := (h.1.rely hw).2
    obtain ⟨r, hr, hv⟩ := Option.map_eq_some_iff.mp hview
    have hfailed : rowView w''.db id = some (some s, true) := by
      cases hrun
      have hid : r.id = id := w'.db.orders.key_of_get? hr
      rw [hw'']
      unfold rowView Database.markOrderFailed modifyOrder
      rw [Table.get?_updateWhere, hr]
      simp only [Prod.mk.injEq] at hv
      simp [Table.updateRow, Keyed.withKey, hid, hv.1]
    have hnot : ∀ s ∈ ids, ∀ t' reason, Op.db (.markOrderFailed id err.text t) ≠
        .db (.markSignalRejected s t' reason) := by
      intro s _ t' reason he
      cases he
    refine markRejected_safe hs ((h.2.rely hw).step hstep hnot) fun w₃ hw₃ _ => ⟨id, ?_⟩
    rw [hw₃.rows]
    exact hfailed

/-- The order that is sent is the signal's. -/
theorem submit_reject (hs : s ∉ ids) {order : Order} (hsig : order.signalId = some s)
    (hcli : order.cliOrdId = some (signalCliOrdId s)) (h : Working ids s id w) :
    RejectSafe d (fun w _ => Waiting ids w) (submitOrder order >>= fun result =>
      nowIso >>= fun t => Daemon.recordSubmission s id t result) tr w := by
  have hstable := working_stable ids s id
  unfold submitOrder
  rw [bind_assoc]
  refine restrict_perform fun w' hw => ⟨?_, fun c n w'' _ hstep => ?_⟩
  · intro s' hs'
    cases hsig.symm.trans hs'
    exact ⟨id, (h.1.rely hw).2⟩
  obtain ⟨rfl, rfl⟩ := inMemory_eq hstep
  have hsent := w'.exchange.requests_send order
  have h' : Working ids s id { w' with exchange := (w'.exchange.send order).2 } :=
    (hstable _ _ h hw).step hstep (fun q he => nomatch he)
  generalize (w'.exchange.send order).1 = n at hsent ⊢
  refine restrict_perform fun w₁ hw₁ => ⟨trivial, fun c x w₂ hok hstep₂ => ?_⟩
  have h₂ : Working ids s id w₂ := (hstable _ _ h' hw₁).step hstep₂ (fun q he => nomatch he)
  cases x with
  | ok sub =>
    refine calm_seq hstable (all_nowIso trivial) h₂ (fun t tr w h => ?_) fun _ _ h => h.2
    refine restrict_db fun w' hw => ⟨⟨awaitStep_status hstep₂, s, h.1.rely hw⟩, ?_, ?_⟩
    · exact fun e w'' hw' => (h.2.rely hw).rely hw'
    · intro c x w'' db' _ hstep _ _
      exact calm_safe (waiting_stable ids) (finishSignal_calm s t) ((h.2.rely hw).step hstep nofun)
  | error err =>
    by_cases herr : err.isUncertain = true
    · refine calm_seq hstable (all_nowIso trivial) h₂ (fun t tr w h => ?_) fun _ _ h => h.2
      unfold Daemon.recordSubmission
      simp only [herr, if_true]
      refine restrict_db fun w' hw => ⟨⟨s, h.1.rely hw⟩, ?_, ?_⟩
      · exact fun e w'' hw' => (h.2.rely hw).rely hw'
      · intro c x w'' db' _ hstep _ _
        exact calm_safe (waiting_stable ids) (coolDown_calm s) ((h.2.rely hw).step hstep nofun)
    · obtain ⟨dropped, rfl, hw₂⟩ := awaitStep_error hstep₂
      have hnot : err.isUncertain = false := by simpa using herr
      have hheld : w₂.exchange.mayHold (signalCliOrdId s) = false := by
        have hdef := hok.2 (n, dropped) (by simp [Op.definiteError, hnot])
        have hnone := hdef order (hw₁.grows.requests n order hsent) _ hcli (by rw [hsig]; rfl)
        rw [hw₂]
        split <;> simpa [*] using hnone
      refine calm_seq (B := fun w => Working ids s id w ∧
          w.exchange.mayHold (signalCliOrdId s) = false) ?_ (all_nowIso trivial) ⟨h₂, hheld⟩
        (fun t tr w h => recordRejection_safe hs hnot h.1 h.2) fun _ _ h => h.1.2
      exact fun _ _ h hw => ⟨hstable _ _ h.1 hw, hw.held s h.2⟩

end Submit

/-! ### One signal, one pass -/

section Pass

variable {d : Daemon} {tr : List Ev} {w : World} {ids : List ℕ}
variable {signal : Signal} {market : MarketSnapshot} {portfolio : PortfolioState}

theorem submitOrderRow_reject (hs : signal.id ∉ ids) {order : Order} {resubmit : Option ℕ}
    (hb : d.buildKrakenFuturesOrder signal market portfolio = .ok order)
    (h : RejectSafe d (RowChosen ids signal.id) (Daemon.orderRowFor signal.id order resubmit)
      tr w) :
    RejectSafe d (fun w _ => Waiting ids w) (Daemon.submitOrderRow signal.id order resubmit)
      tr w := by
  obtain ⟨ty, tif, q, lp, ro, rfl⟩ := d.krakenOrder_of_build hb
  refine Fallible.safe_bind RejectionRely.refl (safe_mono (fun _ _ _ h => h) ?_ h)
  intro tr w r hr
  cases r with
  | ok id => exact submit_reject hs rfl rfl hr
  | error e => exact fun w' hw => Waiting.rely hr hw

theorem buildAndSubmit_reject (hs : signal.id ∉ ids) {resubmit : Option ℕ}
    (h : match resubmit with
      | none => Waiting (signal.id :: ids) w
      | some id => Working ids signal.id id w) :
    RejectSafe d (fun w _ => Waiting ids w) (d.buildAndSubmit signal market portfolio resubmit)
      tr w := by
  unfold Daemon.buildAndSubmit
  split
  · rename_i reason hb
    refine gate_safe hs ?_ (gate_of_build hb)
    cases resubmit with
    | none => exact h.tail
    | some id => exact h.2
  · rename_i order hb
    cases resubmit with
    | none => exact submitOrderRow_reject hs hb (orderRowFor_new_reject h)
    | some id => exact submitOrderRow_reject hs hb (orderRowFor_resubmit_reject h)

theorem submitViaBroker_reject (hs : signal.id ∉ ids) (h : Waiting (signal.id :: ids) w) :
    RejectSafe d (fun w _ => Waiting ids w) (d.submitViaBroker signal market portfolio) tr w := by
  unfold Daemon.submitViaBroker
  split
  · exact gate_safe hs h.tail rfl
  split
  · exact gate_safe hs h.tail rfl
  refine Fallible.safe_bind RejectionRely.refl
    (safe_mono (fun _ _ _ h => h) ?_ (tryReconcile_reject hs h))
  intro tr w r hr
  cases r with
  | error e => exact fun w' hw => Waiting.rely hr hw
  | ok outcome =>
    cases outcome with
    | noExistingOrder => exact buildAndSubmit_reject hs hr
    | resubmitWithOrderId id => exact buildAndSubmit_reject hs hr
    | alreadyReconciled | lookupFailedRetry | malformedUnrecoverable =>
      exact fun w' hw => Waiting.rely hr hw

theorem evaluateSignal_reject (hs : signal.id ∉ ids) (h : Waiting (signal.id :: ids) w) :
    RejectSafe d (fun w _ => Waiting ids w) (d.evaluateSignal signal market portfolio) tr w := by
  have hstable := current_stable ids signal.id
  refine calm_seq hstable (all_now trivial) h (fun t tr w h => ?_) fun _ _ h => h.tail
  refine calm_seq hstable (all_orPanic trivial _) h (fun result tr w h => ?_) fun _ _ h => h.tail
  refine calm_seq hstable (calm_db (by simp [DbOp.writes]) nofun) h (fun _ tr w h => ?_)
    fun _ _ h => h.tail
  split
  · unfold Daemon.handleApproval
    split
    · exact calm_safe (waiting_stable ids) (recordDryRunIntent_calm d _ _) h.tail
    · exact submitViaBroker_reject hs h
    · exact submitViaBroker_reject hs h
  · exact gate_safe hs h.tail rfl

theorem judgeSignal_reject (hs : signal.id ∉ ids) (h : Waiting (signal.id :: ids) w) :
    RejectSafe d (fun w _ => Waiting ids w) (d.judgeSignal signal) tr w := by
  have hstable := current_stable ids signal.id
  refine calm_seq hstable (Fallible.all_mono calm_of_feedOp (d.snapshotForSignal_all _ _)) h
    (fun r tr w h => ?_) fun _ _ h => h.tail
  cases r with
  | error e => exact gate_safe hs h.tail rfl
  | ok market =>
    refine calm_seq hstable (all_now trivial) h (fun t tr w h => ?_) fun _ _ h => h.tail
    refine calm_seq hstable (Fallible.all_attempt (Fallible.all_mono calm_of_loaderOp
      (Daemon.loadPortfolioState_all t))) h (fun r tr w h => ?_) fun _ _ h => h.tail
    cases r with
    | error e => exact gate_safe hs h.tail rfl
    | ok portfolio => exact evaluateSignal_reject hs h

theorem processSignal_reject {row : SignalRow} (hs : row.id ∉ ids)
    (h : Waiting (row.id :: ids) w) :
    RejectSafe d (fun w _ => Waiting ids w) (d.processSignal row) tr w := by
  unfold Daemon.processSignal
  split
  · exact gate_safe hs h.tail rfl
  · rename_i signal hsignal
    obtain ⟨hid, -, -, -⟩ := d.rowToSignal_ok hsignal
    rw [← hid] at hs h
    split
    · exact judgeSignal_reject hs h
    · refine calm_seq (current_stable ids signal.id) (all_now trivial) h (fun t tr w h => ?_)
        fun _ _ h => h.tail
      split
      · exact markRejected_safe hs h.tail nofun
      · exact judgeSignal_reject hs h

/-- The rows that a poll returns are pending, each with an id of its own. -/
theorem pendingSignals_ids (db : Database) (limit : ℕ) (t : String) :
    ((db.pendingSignals limit t).map (·.id)).Nodup ∧
      ∀ r ∈ db.pendingSignals limit t, db.signals.get? r.id = some r ∧ r.status = "pending" := by
  constructor
  · have hnodup : (db.signals.rows.map fun r => r.id).Nodup :=
      List.Pairwise.map _ (fun _ _ hlt => Nat.ne_of_lt hlt) db.signals.ascending
    have hdue := hnodup.sublist (List.Sublist.map _ (List.filter_sublist (p := fun r =>
      r.status = "pending" && (r.retryAfterAt.elim true fun t' => decide (t' ≤ t)))))
    have hsorted := ((List.perm_insertionSort (fun a b : SignalRow => a.createdAt ≤ b.createdAt)
      _).map (·.id)).nodup_iff.mpr hdue
    exact hsorted.sublist ((List.take_sublist _ _).map _)
  · intro r hr
    have hmem := List.mem_of_mem_take hr
    rw [List.mem_insertionSort, List.mem_filter] at hmem
    have hstatus := hmem.2
    simp only [Bool.and_eq_true, decide_eq_true_eq] at hstatus
    exact ⟨db.signals.get?_key hmem.1, hstatus.1⟩

/-- **A pass of the processor** under the condition only issues what its guarantee allows. -/
theorem pollOnce_reject (d : Daemon) (tr : List Ev) (w : World) :
    RejectSafe d (fun _ _ => True) d.pollOnce tr w := by
  refine calm_seq (B := fun _ => True) (fun _ _ _ _ => trivial) (all_nowIso trivial) trivial
    (fun t tr w _ => ?_) fun _ _ _ => trivial
  refine restrict_db fun w' _ => ⟨trivial, fun e w'' _ => trivial, ?_⟩
  intro c x w'' db' _ hstep hrun hw''
  cases hrun
  obtain ⟨hnodup, hpending⟩ := pendingSignals_ids w'.db 64 t
  have hwait : Waiting ((w'.db.pendingSignals 64 t).map (·.id)) w'' := by
    intro s hs
    obtain ⟨r, hr, rfl⟩ := List.mem_map.mp hs
    obtain ⟨hget, hstatus⟩ := hpending r hr
    refine ⟨r, by rw [hw'']; exact hget, ?_⟩
    rw [hstatus]
    decide
  refine Fallible.safe_forM_rest (A := fun rows _ w =>
      (rows.map (·.id)).Nodup ∧ Waiting (rows.map (·.id)) w) RejectionRely.refl
    (fun _ _ _ _ _ => trivial) ?_ ⟨hnodup, hwait⟩
  rintro row rows tr w ⟨hnodup, hwait⟩
  obtain ⟨hs, hnodup⟩ := List.nodup_cons.mp hnodup
  refine Fallible.safe_bind RejectionRely.refl (Fallible.safe_attempt RejectionRely.refl
    (safe_mono (fun _ _ _ h => h) ?_ (processSignal_reject hs hwait)))
  intro tr w r h w₁ hw₁ w₂ hw₂
  exact ⟨hnodup, (Waiting.rely h hw₁).rely hw₂⟩

end Pass

/-! ### The other tasks -/

theorem leaves_of_supervisorOp {o : Op} (h : SupervisorOp o) : LeavesSubmission o := by
  unfold SupervisorOp at h
  split at h
  case h_11 => exact h.elim
  all_goals trivial

theorem leaves_of_reconcilerOp (o : Op) (h : ReconcilerOp o) : LeavesSubmission o := by
  rcases h with h | h
  · exact leaves_of_supervisorOp h
  · unfold TickOp at h
    split at h
    case h_10 => exact h.elim
    all_goals trivial

theorem leaves_of_equityOp (o : Op) (h : EquityOp o) : LeavesSubmission o := by
  unfold EquityOp at h
  split at h
  case h_7 => exact h.elim
  all_goals trivial

namespace Daemon

variable {d : Daemon}

theorem rejection_start (i : TaskId) (w : World) :
    rejectionContract.SafeFor d.rejectionCondition i (d.system.program i) [] w := by
  have hother {i : TaskId} {p : DaemonM Unit} (hp : Fallible.All LeavesSubmission p) :
      Safe ((sem d.A).restrict (d.rejectionCondition.act i)) (fun _ _ => True)
        (fun _ _ o => LeavesSubmission o) (fun _ _ _ => True) p.run [] w := by
    have hall : Prog.All LeavesSubmission p.run := hp
    refine safe_restrict (safe_of_all (P := LeavesSubmission) (A := fun _ _ => True) ?_ ?_ ?_ hall
      trivial)
    · exact fun _ _ _ _ _ => trivial
    · exact fun _ _ _ ho _ => ho
    · exact fun _ _ _ _ _ _ _ _ _ => trivial
  cases i with
  | processor => exact pollOnce_reject d [] w
  | reconciler => exact hother (Fallible.all_mono leaves_of_reconcilerOp d.reconcileOnce_all)
  | supervisor =>
    exact hother (Fallible.all_mono (fun _ => leaves_of_supervisorOp) d.evaluateKillSwitchOnce_all)
  | equityWriter =>
    refine hother (?_ : Fallible.All LeavesSubmission (d.program .equityWriter))
    dsimp only [program]
    split
    · refine Fallible.all_bind ?_ fun _ => Fallible.all_pure _
      exact Fallible.all_mono leaves_of_equityOp d.writeOneSnapshot_all
    · exact Fallible.all_pure _

theorem rejection_validOver : d.contract.ValidOver rejectionContract d.rejectionCondition where
  refl := by
    intro i w
    cases i with
    | processor => exact .refl w
    | _ => trivial
  trans := by
    intro i a b c h h'
    cases i with
    | processor => exact RejectionRely.trans h h'
    | _ => trivial
  stable := fun _ _ _ _ _ => trivial
  start := fun i w _ _ _ => rejection_start i w
  act := by
    intro i tr w o ch x w' hl hG h hK hok hs
    have hrely {j : TaskId} (hw : RejectionRely w w') : rejectionContract.R j w w' := by
      cases j with
      | processor => exact hw
      | _ => trivial
    cases i with
    | processor =>
      refine ⟨rejection_processor h hl hG hK hok hs, fun j hj => ?_⟩
      cases j with
      | processor => exact absurd rfl hj
      | _ => trivial
    | _ =>
      obtain ⟨hinv, hw⟩ := rejection_other h hl hK (linkOk_of_G hG) (TaskG.names hG)
        (TaskG.sends hG) hs
      exact ⟨hinv, fun j _ => hrely hw⟩
  finish := fun _ _ _ _ _ _ _ => trivial
  env := by
    intro a w w' hl h hok ha
    obtain ⟨hinv, hw⟩ := rejection_act h hl hok ha
    refine ⟨hinv, fun i => ?_⟩
    cases i with
    | processor => exact hw
    | _ => trivial
  restart := fun w _ h _ => ⟨h.reboot, fun _ => trivial⟩

theorem rejectionInv_of_reaches {now : Instant} {c : Config}
    (h : d.rejectionCondition.Reaches (initial now) c) : RejectionInv c.state := by
  have hvalid := (contract_valid (d := d) d.rejectionCondition).and rejection_validOver
  have hstart : RejectionInv (World.initial now) :=
    ⟨fun r hr => (nomatch hr), fun f hf => (nomatch hf), fun f hf => (nomatch hf)⟩
  refine (Contract.hold_of_reaches hvalid (Contract.holds_idle ?_ ?_) h).1.2
  · exact ⟨linked_initial now, hstart⟩
  · exact fun _ => ⟨trivial, trivial⟩

/-! ## Top theorem (proved from the lemmas above) -/

/-- **A rejected signal has nothing outstanding**: in every state that a run under the
condition reaches, its order rows, if there are any, are dead and unfilled. -/
theorem rejected_nothing_outstanding {now : Instant} {c : Config}
    (h : d.rejectionCondition.Reaches (initial now) c) : NothingOutstanding c.state.db := by
  have hinv := rejectionInv_of_reaches h
  have hl := linked_of_reaches (System.Condition.reaches_any h)
  intro r hr s x hs hx hrej
  have hrow := hinv.rows r hr
  have hfailed := hrow.rejected s x hs hx hrej
  refine ⟨by rw [hfailed]; rfl, le_of_eq ?_⟩
  by_contra hfilled
  obtain ⟨n, -, hcli⟩ := hl.cliOrdId hr
  exact hrow.live hcli (hrow.named (hrow.filled hfilled) _ hcli) hfailed

/-- The broker refuses the order, the row has failed and the signal is rejected. -/
def refusedRun : List sampleDaemon.system.Label :=
  sampleSetup ++ [.start .processor] ++ smooth .processor 18 ++
    [.act .processor (.failed (.insufficientMargin "margin") true)] ++ smooth .processor 3

theorem rejected_nothing_outstanding_sample :
    ∃ c, sampleDaemon.rejectionCondition.Reaches (initial sampleTime) c ∧
      (c.state.db.orders.rows.any fun r => decide (r.status = .failed) && r.signalId.any fun s =>
        (c.state.db.signals.get? s).any fun x => x.status = "rejected") = true ∧
      NothingOutstanding c.state.db := by
  have hrun : ((sampleDaemon.rejectionCondition.runTested refusedRun (initial sampleTime)).any
      fun c => c.state.db.orders.rows.any fun r => decide (r.status = .failed) &&
        r.signalId.any fun s => (c.state.db.signals.get? s).any fun x => x.status = "rejected") =
          true := by decide +kernel
  obtain ⟨c, hc, hrej⟩ := reaches_of_test hrun
  exact ⟨c, hc, hrej, rejected_nothing_outstanding hc⟩

/-! ### A gate that closes while the order is uncertain -/

/-- The call of the first pass has timed out after the exchange executed the order; when the
cooldown is over the feeds have not published yet. -/
def closedGateRun : List sampleDaemon.system.Label :=
  timeoutRun ++ [.env (.clock (sampleTime + seconds 91)), .restart, .start .processor] ++
    smooth .processor 5

theorem uncertain_order_of_rejected_signal :
    ∃ c, sampleDaemon.Reaches sampleTime c ∧ ¬ NothingOutstanding c.state.db := by
  have hrun : ((sampleDaemon.run sampleTime closedGateRun).any fun c =>
      c.state.db.orders.rows.any fun r => isPendingStatus r.status && r.signalId.any fun s =>
        (c.state.db.signals.get? s).any fun x => x.status = "rejected") = true := by decide +kernel
  obtain ⟨c, hc, hp⟩ := reaches_of_check sampleDaemon hrun
  refine ⟨c, hc, fun hnot => ?_⟩
  obtain ⟨r, hr, hlive⟩ := List.any_eq_true.mp hp
  obtain ⟨hlive, hsig⟩ := Bool.and_eq_true_iff.mp hlive
  obtain ⟨s, hs, hx⟩ := (Option.any_eq_true _ _).mp hsig
  obtain ⟨x, hx, hrej⟩ := (Option.any_eq_true _ _).mp hx
  rw [(hnot r hr s x hs hx (of_decide_eq_true hrej)).1] at hlive
  cases hlive

end Daemon

end RazorTrade
