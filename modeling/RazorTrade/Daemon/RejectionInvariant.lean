import RazorTrade.Daemon.Submission

/-! # Rejected signals and their orders: the invariant

`rejectionCondition` is about the steps of a run.  A gate of the processor (expiry, market
data, portfolio, checklist, order build) rejects a signal only if its order row, if it has
one, has failed; a call that ends in a definite error leaves nothing at the exchange; and
the feed delivers fills of orders that the exchange accepted.

`RejectionInv` is what then holds in every state: the order rows of a rejected signal have
failed, nothing is or may be at the exchange for a failed row, and a row that names a broker
order or has a filled quantity has an accepted order.

  `rejection_processor` :  a step of the processor keeps it, as far as `RejectionG` allows
  `rejection_other`     :  a step of another task keeps it, unnoticed (`RejectionRely`)
  `rejection_act`       :  so does what happens outside the daemon -/

namespace RazorTrade

open Interaction Relational Database DaemonM

/-- A rejected signal has no order row in a live status and none with a filled quantity. -/
def NothingOutstanding (db : Database) : Prop :=
  ∀ r ∈ db.orders.rows, ∀ s x, r.signalId = some s → db.signals.get? s = some x →
    x.status = "rejected" → isPendingStatus r.status = false ∧ r.filledQuantity ≤ 0

/-- The exchange accepted an order under this client order id. -/
def Exchange.hasAccepted (cli : String) (e : Exchange) : Bool :=
  e.accepted.any fun a => a.order.cliOrdId = some cli

/-- The exchange accepted an order under this client order id, or may still do so. -/
def Exchange.mayHold (cli : String) (e : Exchange) : Bool :=
  e.hasAccepted cli ||
    e.inFlight.any fun n => (e.requests[n]?).any fun o => o.cliOrdId = some cli

/-! ## The condition -/

/-- The reason that the broker error branch writes; the gates write others. -/
def brokerErrorReason : Json → Bool
  | .obj [(k₁, _), (k₂, _), (k₃, _)] => k₁ = "kind" && k₂ = "order_id" && k₃ = "detail"
  | _ => false

/-- A gate rejects a signal only if its order row, if it has one, has failed. -/
def GateOk (w : World) (s : ℕ) (reason : Json) : Prop :=
  brokerErrorReason reason = false →
    ∀ r ∈ w.db.orders.rows, r.signalId = some s → r.status = .failed

/-- The signal that an operation rejects, and the reason. -/
def Op.rejects : Op → Option (ℕ × Json)
  | .db (.markSignalRejected s _ reason) => some (s, reason)
  | _ => none

/-- The request whose call ends with a definite error, and whether it is dropped. -/
def Op.definiteError : Op → Choice → Option (ℕ × Bool)
  | .awaitAnswer n, .failed e dropped => if e.isUncertain then none else some (n, dropped)
  | _, _ => none

/-- A definite error means that the exchange holds nothing of the signal's, now or later. -/
def DefiniteErrorOk (w : World) (n : ℕ) (dropped : Bool) : Prop :=
  ∀ o ∈ w.exchange.requests[n]?, ∀ cli ∈ o.cliOrdId, o.signalId.isSome →
    (if dropped then w.exchange.drop n else w.exchange).mayHold cli = false

def RejectionOk (w : World) (o : Op) (c : Choice) : Prop :=
  (∀ x ∈ o.rejects, GateOk w x.1 x.2) ∧ ∀ x ∈ o.definiteError c, DefiniteErrorOk w x.1 x.2

/-- A fill that carries a client order id is one of an order accepted under it. -/
def GenuineFill (e : Exchange) (f : FillEntry) : Prop :=
  ∀ cli ∈ f.cliOrdId, e.hasAccepted cli = true

/-- The fills that the feed delivers. -/
def Act.fills : Act → List FillEntry
  | .fillsSnapshot fs | .fillsUpdate fs => fs
  | _ => []

def FeedOk (w : World) (a : Act) : Prop := ∀ f ∈ a.fills, GenuineFill w.exchange f

instance (w : World) (s : ℕ) (reason : Json) : Decidable (GateOk w s reason) :=
  inferInstanceAs (Decidable (brokerErrorReason reason = false → _))

instance (w : World) (n : ℕ) (dropped : Bool) : Decidable (DefiniteErrorOk w n dropped) :=
  inferInstanceAs (Decidable (∀ o ∈ w.exchange.requests[n]?, _))

instance RejectionOk.decidable (w : World) (o : Op) (c : Choice) : Decidable (RejectionOk w o c) :=
  inferInstanceAs (Decidable ((∀ x ∈ o.rejects, GateOk w x.1 x.2) ∧ _))

instance (e : Exchange) (f : FillEntry) : Decidable (GenuineFill e f) :=
  inferInstanceAs (Decidable (∀ cli ∈ f.cliOrdId, _))

instance FeedOk.decidable (w : World) (a : Act) : Decidable (FeedOk w a) :=
  inferInstanceAs (Decidable (∀ f ∈ a.fills, _))

namespace Daemon

variable (d : Daemon)

def rejectionCondition : d.system.Condition where
  act _ w o ch := RejectionOk w o ch
  env w a := FeedOk w a

instance : d.rejectionCondition.Testable where
  act _ w o ch := RejectionOk.decidable w o ch
  finish _ _ _ := inferInstanceAs (Decidable True)
  env w a := FeedOk.decidable w a
  restart _ := inferInstanceAs (Decidable True)

end Daemon

/-! ## The invariant and the contract -/

/-- An order row fits its signal and the exchange. -/
structure RowOk (w : World) (r : OrderRow) : Prop where
  rejected : ∀ s x, r.signalId = some s → w.db.signals.get? s = some x → x.status = "rejected" →
    r.status = .failed
  failed : r.status = .failed → ∀ cli, r.cliOrdId = some cli → w.exchange.mayHold cli = false
  named : r.brokerOrderId.isSome → ∀ cli, r.cliOrdId = some cli → w.exchange.hasAccepted cli = true
  filled : r.filledQuantity ≠ 0 → r.brokerOrderId.isSome

structure RejectionInv (w : World) : Prop where
  rows : ∀ r ∈ w.db.orders.rows, RowOk w r
  ring : ∀ f ∈ w.fills.fills, GenuineFill w.exchange f
  read : ∀ f ∈ w.lastRead.fills, GenuineFill w.exchange f

/-- The signal exists and was not rejected. -/
def NotRejected (s : ℕ) (w : World) : Prop :=
  ∃ x, w.db.signals.get? s = some x ∧ x.status ≠ "rejected"

/-- What the processor has to know of an order row. -/
def rowView (db : Database) (id : ℕ) : Option (Option ℕ × Bool) :=
  (db.orders.get? id).map fun r => (r.signalId, decide (r.status = .failed))

/-- The row belongs to a signal that is not rejected, and has not failed. -/
def WorksOn (s id : ℕ) (w : World) : Prop :=
  NotRejected s w ∧ rowView w.db id = some (some s, false)

/-- What the processor relies on. -/
structure RejectionRely (w w' : World) : Prop where
  signals : ∀ s, NotRejected s w → NotRejected s w'
  rows : rowView w'.db = rowView w.db
  grows : w.exchange.Grows w'.exchange
  held : ∀ s, w.exchange.mayHold (signalCliOrdId s) = false →
    w'.exchange.mayHold (signalCliOrdId s) = false

/-- What the processor guarantees. -/
def RejectionG (w : World) : Op → Prop
  | .db (.insertPendingOrder signalId ..) => ∀ s, signalId = some s → NotRejected s w
  | .db (.backfillBrokerOrderId id ..) | .db (.markOrderUncertain id ..) => ∃ s, WorksOn s id w
  | .db (.markOrderSubmitted id _ st _) => st ≠ .failed ∧ ∃ s, WorksOn s id w
  | .db (.markOrderFailed id ..) => ∃ s b, rowView w.db id = some (some s, b) ∧
    w.exchange.mayHold (signalCliOrdId s) = false
  | .db (.markSignalRejected s _ reason) => brokerErrorReason reason = true →
    ∃ id, rowView w.db id = some (some s, true)
  | .sendOrder o => ∀ s, o.signalId = some s → ∃ id, rowView w.db id = some (some s, false)
  | _ => True

/-- What the other tasks do not issue. -/
def LeavesSubmission : Op → Prop
  | .db (.insertPendingOrder ..) | .db (.markOrderSubmitted ..) | .db (.markOrderFailed ..)
  | .db (.markOrderUncertain ..) | .db (.markSignalProcessed ..) | .db (.markSignalRejected ..)
  | .db (.setSignalRetryAfter ..) | .db (.clearSignalRetryAfter ..) => False
  | _ => True

def rejectionContract : Contract World Op Ans (Except String Unit) TaskId where
  Inv := RejectionInv
  R
    | .processor => RejectionRely
    | _ => fun _ _ => True
  G
    | .processor => fun _ w o => RejectionG w o
    | _ => fun _ _ o => LeavesSubmission o

/-! ## Lemmas -/

namespace Exchange

variable {e e' : Exchange} {cli : String}

theorem hasAccepted_iff : e.hasAccepted cli = true ↔ ∃ a ∈ e.accepted, a.order.cliOrdId = some cli := by
  simp [hasAccepted]

theorem mayHold_iff : e.mayHold cli = true ↔ e.hasAccepted cli = true ∨
    ∃ n ∈ e.inFlight, ∃ o, e.requests[n]? = some o ∧ o.cliOrdId = some cli := by
  simp [mayHold, Option.any_eq_true]

theorem mayHold_of_hasAccepted (h : e.hasAccepted cli = true) : e.mayHold cli = true :=
  mayHold_iff.mpr (Or.inl h)

theorem Grows.hasAccepted (h : e.Grows e') (ha : e.hasAccepted cli = true) :
    e'.hasAccepted cli = true := by
  obtain ⟨a, ha, hc⟩ := hasAccepted_iff.mp ha
  obtain ⟨a', ha', -, -, ho⟩ := h.accepted a ha
  exact hasAccepted_iff.mpr ⟨a', ha', by rw [ho, hc]⟩

/-- A change that adds neither an accepted order nor anything in flight. -/
theorem mayHold_shrink (h : e'.mayHold cli = true) (hr : e'.requests = e.requests)
    (ha : ∀ a' ∈ e'.accepted, ∃ a ∈ e.accepted, a'.order = a.order)
    (hn : ∀ n ∈ e'.inFlight, n ∈ e.inFlight) : e.mayHold cli = true := by
  rcases mayHold_iff.mp h with h | ⟨n, hmem, o, ho, hc⟩
  · obtain ⟨a', ha', hc⟩ := hasAccepted_iff.mp h
    obtain ⟨a, hmem, horder⟩ := ha a' ha'
    exact mayHold_of_hasAccepted (hasAccepted_iff.mpr ⟨a, hmem, by rw [← horder, hc]⟩)
  · rw [hr] at ho
    exact mayHold_iff.mpr (Or.inr ⟨n, hn n hmem, o, ho, hc⟩)

theorem mayHold_drop {n : ℕ} (h : (e.drop n).mayHold cli = true) : e.mayHold cli = true := by
  refine mayHold_shrink h rfl ?_ ?_
  · exact fun a ha => ⟨a, ha, rfl⟩
  · exact fun m hm => List.mem_of_mem_filter hm

/-- A change of accepted orders that keeps what was ordered. -/
theorem mayHold_map {g : AcceptedOrder → AcceptedOrder} (hg : ∀ a, (g a).order = a.order)
    (h : mayHold cli { e with accepted := e.accepted.map g } = true) :
    e.mayHold cli = true := by
  refine mayHold_shrink h rfl ?_ fun _ hm => hm
  intro a' ha'
  obtain ⟨a, ha, rfl⟩ := List.mem_map.mp ha'
  exact ⟨a, ha, hg a⟩

theorem mayHold_execute {b : String} {q : ℚ} (h : (e.execute b q).mayHold cli = true) :
    e.mayHold cli = true := by
  refine mayHold_map (fun a => ?_) h
  split <;> rfl

theorem mayHold_cancel {b : String} (h : (e.cancel b).mayHold cli = true) :
    e.mayHold cli = true := by
  refine mayHold_map (fun a => ?_) h
  split <;> rfl

/-- An acceptance takes its order from what was in flight. -/
theorem mayHold_accept {n : ℕ} (hn : e.accept n = some e') (h : e'.mayHold cli = true) :
    e.mayHold cli = true := by
  unfold accept at hn
  split at hn
  · rename_i hmem
    obtain ⟨o, ho, rfl⟩ := Option.map_eq_some_iff.mp hn
    rcases mayHold_iff.mp h with h | ⟨m, hm, o', ho', hc⟩
    · obtain ⟨a, ha, hc⟩ := hasAccepted_iff.mp h
      rcases List.mem_append.mp ha with ha | ha
      · exact mayHold_of_hasAccepted (hasAccepted_iff.mpr ⟨a, ha, hc⟩)
      · cases List.mem_singleton.mp ha
        exact mayHold_iff.mpr (Or.inr ⟨n, hmem, o, ho, hc⟩)
    · exact mayHold_iff.mpr (Or.inr ⟨m, List.mem_of_mem_filter hm, o', ho', hc⟩)
  · cases hn

/-- A request adds what it carries and nothing else. -/
theorem mayHold_send {o : Order} (h : (e.send o).2.mayHold cli = true) :
    e.mayHold cli = true ∨ o.cliOrdId = some cli := by
  rcases mayHold_iff.mp h with h | ⟨n, hn, o', ho', hc⟩
  · exact Or.inl (mayHold_of_hasAccepted h)
  · rcases List.mem_append.mp hn with hn | hn
    · by_cases hlt : n < e.requests.length
      · rw [send, List.getElem?_append_left hlt] at ho'
        exact Or.inl (mayHold_iff.mpr (Or.inr ⟨n, hn, o', ho', hc⟩))
      · rw [send, List.getElem?_append_right (not_lt.mp hlt)] at ho'
        have hmem : o' ∈ [o] := List.mem_of_getElem? ho'
        cases List.mem_singleton.mp hmem
        exact Or.inr hc
    · cases List.mem_singleton.mp hn
      have hlast : (e.requests ++ [o])[e.requests.length]? = some o := by simp
      cases hlast.symm.trans ho'
      exact Or.inr hc

end Exchange

/-- A panic close carries no signal's client order id. -/
theorem panicCliOrdId_ne (s e : ℕ) (t : Instant) :
    Daemon.panicCliOrdId e t ≠ signalCliOrdId s := by
  intro h
  have hlist := congrArg String.toList h
  simp [Daemon.panicCliOrdId, signalCliOrdId, String.toList_append] at hlist

section Rows

variable {w w' : World} {r r' : OrderRow} {s id : ℕ}

theorem NotRejected.status (h : NotRejected s w) {x : SignalRow}
    (hx : w.db.signals.get? s = some x) : x.status ≠ "rejected" := by
  obtain ⟨y, hy, hstatus⟩ := h
  cases hy.symm.trans hx
  exact hstatus

/-- The row that a view shows. -/
theorem rowView_some {db : Database} {v : Option ℕ × Bool} (h : rowView db id = some v) :
    ∃ r ∈ db.orders.rows, r.id = id ∧ r.signalId = v.1 ∧ decide (r.status = .failed) = v.2 := by
  obtain ⟨r, hr, rfl⟩ := Option.map_eq_some_iff.mp h
  exact ⟨r, db.orders.mem_of_get? hr, db.orders.key_of_get? hr, rfl, rfl⟩

/-- What makes a row fit when signals and exchange have moved. -/
theorem RowOk.mono (h : RowOk w r)
    (hs : ∀ s x', r.signalId = some s → w'.db.signals.get? s = some x' → x'.status = "rejected" →
      (∃ x, w.db.signals.get? s = some x ∧ x.status = "rejected") ∨ r.status = .failed)
    (hg : w.exchange.Grows w'.exchange)
    (hheld : ∀ cli, r.status = .failed → r.cliOrdId = some cli →
      w'.exchange.mayHold cli = true → w.exchange.mayHold cli = true) : RowOk w' r where
  rejected := by
    intro s x' hrs hx' hrej
    rcases hs s x' hrs hx' hrej with ⟨x, hx, hxr⟩ | hf
    · exact h.rejected s x hrs hx hxr
    · exact hf
  failed := by
    intro hf cli hcli
    have hnone := h.failed hf cli hcli
    by_contra hsome
    rw [hheld cli hf hcli (by simpa using hsome)] at hnone
    cases hnone
  named := fun hb cli hcli => hg.hasAccepted (h.named hb cli hcli)
  filled := h.filled

/-- A row whose order is at the exchange has not failed, and its signal is not rejected. -/
theorem RowOk.live (h : RowOk w r) {cli : String} (hcli : r.cliOrdId = some cli)
    (ha : w.exchange.hasAccepted cli = true) : r.status ≠ .failed := by
  intro hf
  have hnone := h.failed hf cli hcli
  rw [Exchange.mayHold_of_hasAccepted ha] at hnone
  cases hnone

/-- A row of a signal that is not rejected, rewritten. -/
theorem RowOk.rewrite (h : RowOk w r) (hsig : r'.signalId = r.signalId)
    (hlive : r.status ≠ .failed ∨ ∃ s, r.signalId = some s ∧
      NotRejected s w)
    (hfailed : r'.status = .failed → ∀ cli, r'.cliOrdId = some cli →
      w.exchange.mayHold cli = false)
    (hnamed : r'.brokerOrderId.isSome → ∀ cli, r'.cliOrdId = some cli →
      w.exchange.hasAccepted cli = true)
    (hfilled : r'.filledQuantity ≠ 0 → r'.brokerOrderId.isSome) : RowOk w r' where
  rejected := by
    intro s x hs hx hrej
    rw [hsig] at hs
    rcases hlive with hlive | ⟨s', hs', hnot⟩
    · exact absurd (h.rejected s x hs hx hrej) hlive
    · cases hs.symm.trans hs'
      exact absurd hrej (hnot.status hx)
  failed := hfailed
  named := hnamed
  filled := hfilled

/-- Signals, exchange and feed have moved, orders have not. -/
theorem RejectionInv.frame (h : RejectionInv w) (ho : w'.db.orders = w.db.orders)
    (hs : ∀ s x', w'.db.signals.get? s = some x' → x'.status = "rejected" →
      ∃ x, w.db.signals.get? s = some x ∧ x.status = "rejected")
    (hg : w.exchange.Grows w'.exchange)
    (hheld : ∀ r ∈ w.db.orders.rows, ∀ cli, r.status = .failed → r.cliOrdId = some cli →
      w'.exchange.mayHold cli = true → w.exchange.mayHold cli = true)
    (hring : ∀ f ∈ w'.fills.fills, f ∈ w.fills.fills ∨ GenuineFill w.exchange f)
    (hread : ∀ f ∈ w'.lastRead.fills, f ∈ w.fills.fills ∨ f ∈ w.lastRead.fills) :
    RejectionInv w' where
  rows := by
    rw [ho]
    intro r hr
    refine (h.rows r hr).mono (fun s x' _ hx' hrej => Or.inl (hs s x' hx' hrej)) hg ?_
    exact hheld r hr
  ring := by
    intro f hf cli hcli
    rcases hring f hf with hf | hf
    · exact hg.hasAccepted (h.ring f hf cli hcli)
    · exact hg.hasAccepted (hf cli hcli)
  read := by
    intro f hf cli hcli
    rcases hread f hf with hf | hf
    · exact hg.hasAccepted (h.ring f hf cli hcli)
    · exact hg.hasAccepted (h.read f hf cli hcli)

/-- A restart empties the ring. -/
theorem RejectionInv.reboot (h : RejectionInv w) : RejectionInv w.reboot := by
  have hfills : w.reboot.fills.fills = [] := rfl
  have hread : w.reboot.lastRead.fills = [] := rfl
  refine h.frame rfl (fun s x' hx' hrej => ⟨x', hx', hrej⟩) (.refl _) (fun _ _ _ _ _ hc => hc) ?_ ?_
  · intro f hf
    rw [hfills] at hf
    cases hf
  · intro f hf
    rw [hread] at hf
    cases hf

theorem RejectionRely.refl (w : World) : RejectionRely w w :=
  ⟨fun _ h => h, rfl, .refl _, fun _ h => h⟩

theorem RejectionRely.trans {a b c : World} (h : RejectionRely a b) (h' : RejectionRely b c) :
    RejectionRely a c where
  signals := fun s hs => h'.signals s (h.signals s hs)
  rows := h'.rows.trans h.rows
  grows := h.grows.trans h'.grows
  held := fun s hs => h'.held s (h.held s hs)

end Rows

/-! ### What happens outside the processor -/

section Others

variable {w w' : World} {d : Daemon}

theorem Daemon.Linked.cliOrdId (h : d.Linked w) {r : OrderRow} (hr : r ∈ w.db.orders.rows) :
    ∃ s, r.signalId = some s ∧ r.cliOrdId = some (signalCliOrdId s) := by
  obtain ⟨s, sig, hl⟩ := h.orders r.id _ (orderColumns_of_mem hr)
  exact ⟨s, hl.signalId, hl.cliOrdId⟩

/-- The orders stay, and nothing new may be held for a signal. -/
theorem rejection_frame (h : RejectionInv w) (hl : d.Linked w) (ho : w'.db.orders = w.db.orders)
    (hs : ∀ s x', w'.db.signals.get? s = some x' → x'.status = "rejected" →
      w.db.signals.get? s = some x')
    (hkept : ∀ s, NotRejected s w → NotRejected s w') (hg : w.exchange.Grows w'.exchange)
    (hheld : ∀ s, w'.exchange.mayHold (signalCliOrdId s) = true →
      w.exchange.mayHold (signalCliOrdId s) = true)
    (hring : ∀ f ∈ w'.fills.fills, f ∈ w.fills.fills ∨ GenuineFill w.exchange f)
    (hread : ∀ f ∈ w'.lastRead.fills, f ∈ w.fills.fills ∨ f ∈ w.lastRead.fills) :
    RejectionInv w' ∧ RejectionRely w w' := by
  constructor
  · refine h.frame ho (fun s x' hx' hrej => ⟨x', hs s x' hx' hrej, hrej⟩) hg ?_ hring hread
    intro r hr cli _ hcli hsome
    obtain ⟨s, -, hc⟩ := hl.cliOrdId hr
    cases hc.symm.trans hcli
    exact hheld s hsome
  · refine ⟨hkept, ?_, hg, fun s hnone => ?_⟩
    · funext id
      unfold rowView
      rw [ho]
    · by_contra hsome
      rw [hheld s (by simpa using hsome)] at hnone
      cases hnone

/-- Signals stay, but for new pending ones. -/
theorem act_signals {a : Act} (ha : actStep a w = some w') :
    (∀ s x', w'.db.signals.get? s = some x' → x'.status = "rejected" →
      w.db.signals.get? s = some x') ∧ ∀ s, NotRejected s w → NotRejected s w' := by
  rcases actStep_db ha with hdb | ⟨row, hdb⟩ | ⟨t, hdb⟩
  · unfold NotRejected
    rw [hdb]
    exact ⟨fun _ _ hx _ => hx, fun _ h => h⟩
  · unfold NotRejected
    rw [hdb]
    refine ⟨fun s x' hx' hrej => ?_, fun s ⟨x, hx, hstatus⟩ => ?_⟩
    · rcases (Table.mem_insert _ _ _).mp (Table.mem_of_get? _ hx') with hmem | rfl
      · rw [← Table.key_of_get? _ hx']
        exact w.db.signals.get?_key hmem
      · exact absurd (show "pending" = "rejected" from hrej) (by decide)
    · exact ⟨x, Table.get?_insert_of_some _ _ hx, hstatus⟩
  · unfold NotRejected
    rw [hdb]
    exact ⟨fun _ _ hx _ => hx, fun _ h => h⟩

theorem act_mayHold {a : Act} (ha : actStep a w = some w') {cli : String}
    (h : w'.exchange.mayHold cli = true) : w.exchange.mayHold cli = true := by
  cases a with
  | accept n =>
    obtain ⟨e, he, rfl⟩ := Option.map_eq_some_iff.mp ha
    exact Exchange.mayHold_accept he h
  | execute b q =>
    cases ha
    exact Exchange.mayHold_execute h
  | cancel b =>
    cases ha
    exact Exchange.mayHold_cancel h
  | _ =>
    cases ha
    exact h

/-- The ring after an act: what was there, or what the feed delivered. -/
theorem act_ring {a : Act} (ha : actStep a w = some w') {f : FillEntry}
    (hf : f ∈ w'.fills.fills) : f ∈ w.fills.fills ∨ f ∈ a.fills := by
  cases a with
  | fillsSnapshot fs =>
    cases ha
    exact Or.inr (FillsRing.mem_applySnapshot hf)
  | fillsUpdate fs =>
    cases ha
    exact FillsRing.mem_applyFills hf
  | fillsInvalidate =>
    cases ha
    cases hf
  | accept n =>
    obtain ⟨e, he, rfl⟩ := Option.map_eq_some_iff.mp ha
    exact Or.inl hf
  | _ =>
    cases ha
    exact Or.inl hf

/-- What happens outside the daemon keeps the invariant, and the processor does not notice. -/
theorem rejection_act {a : Act} (h : RejectionInv w) (hl : d.Linked w) (hok : FeedOk w a)
    (ha : actStep a w = some w') : RejectionInv w' ∧ RejectionRely w w' := by
  obtain ⟨ho, -, -, -, -⟩ := Daemon.act_tables ha
  obtain ⟨-, -, hg⟩ := Daemon.act_exchange hl.exchange ha
  obtain ⟨hs, hkept⟩ := act_signals ha
  refine rejection_frame h hl ho hs hkept hg (fun s => act_mayHold ha) ?_ ?_
  · intro f hf
    exact (act_ring ha hf).imp_right (hok f)
  · intro f hf
    rw [Daemon.act_lastRead ha] at hf
    exact Or.inr hf

/-- The rows of the orders table are rewritten, or new ones are added. -/
theorem RejectionInv.write (h : RejectionInv w) (db' : Database) (hs : db'.signals = w.db.signals)
    (ht : ∀ r ∈ db'.orders.rows, r ∈ w.db.orders.rows ∨ RowOk w r) (j : List Commit) :
    RejectionInv { w with db := db', journal := j } where
  rows := by
    intro r hr
    have hrow : RowOk w r := by
      rcases ht r hr with hr | hr
      · exact h.rows r hr
      · exact hr
    refine hrow.mono (fun s x _ hx hrej => Or.inl ⟨x, ?_, hrej⟩) (.refl _) fun _ _ _ hc => hc
    rwa [show db'.signals = w.db.signals from hs] at hx
  ring := h.ring
  read := h.read

/-- The order rows with this id, by client order id, have an accepted order. -/
def RowAccepted (w : World) (id : ℕ) : Prop :=
  ∀ r ∈ w.db.orders.rows, r.id = id → ∃ cli, r.cliOrdId = some cli ∧
    w.exchange.hasAccepted cli = true

/-- A backfill for an accepted order. -/
theorem rejection_backfill (h : RejectionInv w) {id : ℕ} (ha : RowAccepted w id) (b t : String)
    (j : List Commit) :
    RejectionInv { w with db := w.db.backfillBrokerOrderId id b t, journal := j } ∧
      rowView (w.db.backfillBrokerOrderId id b t) = rowView w.db := by
  constructor
  · refine h.write (w.db.backfillBrokerOrderId id b t) rfl (fun r' hr' => ?_) j
    refine (Table.mem_updateWhere _ hr').imp_right ?_
    rintro ⟨r, hr, hp, rfl⟩
    obtain ⟨cli, hcli, hacc⟩ := ha r hr (by simp at hp; exact hp.1)
    have hlive := (h.rows r hr).live hcli hacc
    refine (h.rows r hr).rewrite rfl (Or.inl hlive) ?_ ?_ fun _ => rfl
    · intro hf
      have hf' : (backfillRow b t r).status = .failed := hf
      unfold backfillRow at hf'
      split at hf'
      · cases hf'
      · exact absurd hf' hlive
    · intro _ cli' hcli'
      cases hcli.symm.trans hcli'
      exact hacc
  · funext n
    refine updateWhere_view w.db.orders _ (backfillRow b t) _ (fun r => ?_) n
    have hstatus : (backfillRow b t r).status = .failed ↔ r.status = .failed := by
      unfold backfillRow
      split
      · rename_i hp
        rcases hp with hp | hp <;> simp [hp]
      · rfl
    exact Prod.ext rfl (decide_eq_decide.mpr hstatus)

/-- A fill that is applied to an order. -/
theorem rejection_fill (h : RejectionInv w) (hlink : ∀ r ∈ w.db.orders.rows, r.cliOrdId.isSome)
    {A : Arith} {b t : String} {q p fee : ℚ} {out : Option OrderFillOutcome} {db' : Database}
    (hrun : w.db.applyFillToOrder A b q p fee t = some (.ok (out, db'))) (j : List Commit) :
    RejectionInv { w with db := db', journal := j } ∧ rowView db' = rowView w.db := by
  rcases applyFillToOrder_ok hrun with ⟨-, -, rfl⟩ | ⟨r, r', _, hr, hr', -, -, -, -, -, -, rfl⟩
  · exact ⟨h.write _ rfl (fun r hr => Or.inl hr) j, rfl⟩
  obtain ⟨hmem, hb⟩ := mem_of_orderOfBrokerId hr
  obtain ⟨cli, hcli⟩ := Option.isSome_iff_exists.mp (hlink r hmem)
  have hacc := (h.rows r hmem).named (by rw [hb]; rfl) cli hcli
  have hlive := (h.rows r hmem).live hcli hacc
  obtain ⟨newFilled, newAvg, newFees, -, -, -, rfl⟩ := filledRow_some hr'
  have hnot : filledStatus r newFilled ≠ .failed := by
    unfold filledStatus
    split <;> decide
  constructor
  · refine h.write (w.db.modifyOrder r.id _) rfl (fun x hx => ?_) j
    refine (Table.mem_updateWhere _ hx).imp_right ?_
    rintro ⟨y, hy, hp, rfl⟩
    have hyr : y = r := w.db.orders.eq_of_key_eq hy hmem (of_decide_eq_true hp)
    subst hyr
    refine (h.rows y hmem).rewrite rfl (Or.inl hlive) (fun hf => absurd hf hnot) ?_ ?_
    · intro _ cli' hcli'
      cases hcli.symm.trans hcli'
      exact hacc
    · have hsome : y.brokerOrderId.isSome := by
        rw [hb]
        rfl
      exact fun _ => hsome
  · funext n
    unfold rowView modifyOrder
    rw [Table.get?_updateWhere]
    cases hn : w.db.orders.get? n with
    | none => rfl
    | some x =>
      simp only [Option.map_some, Table.updateRow]
      split
      · rename_i hx
        have hxr : x = r :=
          w.db.orders.eq_of_key_eq (w.db.orders.mem_of_get? hn) hmem (of_decide_eq_true hx)
        subst hxr
        simp [Keyed.withKey, hnot, hlive]
      · rfl

/-- A statement of another task that writes neither signals nor orders. -/
theorem sameTables_of_leaves {q : DbOp} (h : LeavesSubmission (.db q))
    (hb : ∀ id b t, q ≠ .backfillBrokerOrderId id b t) (hf : ∀ f t, q ≠ .applyFillToOrder f t) :
    q.writes ≠ some .signals ∧ q.writes ≠ some .orders := by
  cases q with
  | backfillBrokerOrderId id b t => exact absurd rfl (hb id b t)
  | applyFillToOrder f t => exact absurd rfl (hf f t)
  | insertPendingOrder => exact h.elim
  | markOrderSubmitted | markOrderFailed | markOrderUncertain => exact h.elim
  | markSignalProcessed | markSignalRejected => exact h.elim
  | setSignalRetryAfter | clearSignalRetryAfter => exact h.elim
  | _ => exact ⟨by simp [DbOp.writes], by simp [DbOp.writes]⟩

/-- A row that the reconciler backfills has an accepted order. -/
theorem rowAccepted_of_adoptsFill (h : RejectionInv w) (hl : d.Linked w) {id : ℕ} {b : String}
    (ha : AdoptsFill w id b) : RowAccepted w id := by
  obtain ⟨f, hf, -, -, row, hrow, hcli⟩ := ha
  rintro r hr rfl
  obtain ⟨s, -, hc⟩ := hl.cliOrdId hr
  rw [orderColumns_of_mem hr] at hrow
  cases hrow
  exact ⟨_, hc, h.read f hf _ (hcli.symm.trans hc)⟩

/-- A step that touches neither signals nor orders. -/
theorem rejection_still (h : RejectionInv w) (hl : d.Linked w)
    (hsignals : w'.db.signals = w.db.signals) (ho : w'.db.orders = w.db.orders)
    (hg : w.exchange.Grows w'.exchange)
    (hheld : ∀ s, w'.exchange.mayHold (signalCliOrdId s) = true →
      w.exchange.mayHold (signalCliOrdId s) = true) (hring : w'.fills = w.fills)
    (hread : w'.lastRead = w.fills ∨ w'.lastRead = w.lastRead) :
    RejectionInv w' ∧ RejectionRely w w' := by
  refine rejection_frame h hl ho ?_ ?_ hg hheld ?_ ?_
  · rw [hsignals]
    exact fun _ _ hx _ => hx
  · unfold NotRejected
    rw [hsignals]
    exact fun _ hx => hx
  · rw [hring]
    exact fun f hf => Or.inl hf
  · intro f hf
    rcases hread with hr | hr
    · rw [hr] at hf
      exact Or.inl hf
    · rw [hr] at hf
      exact Or.inr hf

/-- A backfill or a fill: the rows are rewritten, and look the same to the processor. -/
theorem RejectionRely.rows_eq (db' : Database) (hs : db'.signals = w.db.signals)
    (hview : rowView db' = rowView w.db) (j : List Commit) :
    RejectionRely w { w with db := db', journal := j } := by
  refine ⟨fun s hnot => ?_, hview, .refl _, fun _ hnone => hnone⟩
  unfold NotRejected
  rwa [show db'.signals = w.db.signals from hs]

/-- **A step of another task** keeps the invariant, and the processor does not notice. -/
theorem rejection_other {c : Choice} {o : Op} {x : Ans o} (h : RejectionInv w) (hl : d.Linked w)
    (hleaves : LeavesSubmission o) (hok : d.LinkOk w o) (hnames : NamesOk w o)
    (hsends : ∀ order, o = .sendOrder order → order.signalId = none)
    (hs : (sem d.A).step c o w = some (x, w')) : RejectionInv w' ∧ RejectionRely w w' := by
  have hsame : w' = w → RejectionInv w' ∧ RejectionRely w w' := by
    rintro rfl
    exact ⟨h, .refl _⟩
  have hstep : opStep d.A c o w = some (x, w') := hs
  cases o with
  | db q =>
    rcases opStep_db hstep with ⟨e, -, rfl⟩ | ⟨y, db', -, hrun, rfl⟩
    · exact ⟨h, .refl _⟩
    have htables := DbOp.run_sameExcept hrun
    by_cases hb : ∃ id b t, q = .backfillBrokerOrderId id b t
    · obtain ⟨id, b, t, rfl⟩ := hb
      cases hrun
      obtain ⟨hinv, hview⟩ := rejection_backfill h (rowAccepted_of_adoptsFill h hl hnames) b t
        (w.journal ++ [⟨.backfillBrokerOrderId id b t, ()⟩])
      exact ⟨hinv, .rows_eq (w.db.backfillBrokerOrderId id b t) rfl hview _⟩
    by_cases hf : ∃ f t, q = .applyFillToOrder f t
    · obtain ⟨f, t, rfl⟩ := hf
      have hcli : ∀ r ∈ w.db.orders.rows, r.cliOrdId.isSome := by
        intro r hr
        obtain ⟨s, -, hc⟩ := hl.cliOrdId hr
        rw [hc]
        rfl
      obtain ⟨hinv, hview⟩ := rejection_fill h hcli hrun (w.journal ++ [⟨.applyFillToOrder f t, y⟩])
      exact ⟨hinv, .rows_eq db' (htables.signals (by simp [DbOp.writes])) hview _⟩
    obtain ⟨hsig, hord⟩ := sameTables_of_leaves hleaves
      (fun id b t he => hb ⟨id, b, t, he⟩) fun f t he => hf ⟨f, t, he⟩
    exact rejection_still h hl (htables.signals hsig) (htables.orders hord) (.refl _)
      (fun _ hc => hc) rfl (Or.inr rfl)
  | sendOrder order =>
    obtain ⟨-, rfl⟩ := inMemory_eq hstep
    obtain ⟨e, t, hcli⟩ := hok.2 (hsends order rfl)
    refine rejection_still h hl rfl rfl (w.exchange.grows_send order) (fun s hheld => ?_) rfl
      (Or.inr rfl)
    rcases Exchange.mayHold_send hheld with hheld | hc
    · exact hheld
    · exact absurd (Option.some.inj (hcli.symm.trans hc)) (panicCliOrdId_ne s e t)
  | awaitAnswer n =>
    rcases awaitStep_eq hstep with hw | rfl
    · exact hsame hw
    · exact rejection_still h hl rfl rfl (w.exchange.grows_drop n)
        (fun s hheld => Exchange.mayHold_drop hheld) rfl (Or.inr rfl)
  | readFills =>
    obtain ⟨-, rfl⟩ := inMemory_eq hstep
    exact rejection_still h hl rfl rfl (.refl _) (fun _ hc => hc) rfl (Or.inl rfl)
  | getOrderByCliOrdId cli => exact hsame (lookupStep_eq hstep).1
  | getAccounts => exact hsame (accountsStep_eq hstep)
  | panic => cases hstep
  | _ =>
    obtain ⟨-, rfl⟩ := inMemory_eq hstep
    exact rejection_still h hl rfl rfl (.refl _) (fun _ hc => hc) rfl (Or.inr rfl)

end Others

/-! ### The steps of the processor -/

section Processor

variable {w w' : World} {d : Daemon} {tr : List Ev}

/-- No statement but the rejection itself makes a signal a rejected one. -/
theorem notRejected_step {c : Choice} {o : Op} {x : Ans o} {s : ℕ}
    (hs : (sem d.A).step c o w = some (x, w')) (h : NotRejected s w)
    (ho : ∀ t reason, o ≠ .db (.markSignalRejected s t reason)) : NotRejected s w' := by
  obtain ⟨y, hy, hstatus⟩ := h
  rcases step_db hs with hdb | ⟨q, r, rfl, hrun⟩
  · exact ⟨y, by rw [hdb]; exact hy, hstatus⟩
  · obtain ⟨g, hg, hrej⟩ := DbOp.run_signalStatus hrun
    refine ⟨g y, by rw [hg, hy]; rfl, fun hbad => ?_⟩
    rcases hrej y hbad with hold | ⟨t, reason, rfl⟩
    · exact hstatus hold
    · have hid : y.id = s := w.db.signals.key_of_get? hy
      rw [hid] at ho
      exact ho t reason rfl

/-- A row that the processor backfills or marks submitted has an accepted order. -/
theorem rowAccepted_of_adopts (hl : d.Linked w) {id : ℕ} {b : String} (ha : Adopts w id b) :
    RowAccepted w id := by
  obtain ⟨a, hacc, -, row, hrow, hcli⟩ := ha
  rintro r hr rfl
  obtain ⟨s, -, hc⟩ := hl.cliOrdId hr
  rw [orderColumns_of_mem hr] at hrow
  cases hrow
  exact ⟨_, hc, Exchange.hasAccepted_iff.mpr ⟨a, hacc, hcli.symm.trans hc⟩⟩

/-- The row that a view shows, among the rows of the table. -/
theorem WorksOn.row {s id : ℕ} (h : WorksOn s id w) {r : OrderRow} (hr : r ∈ w.db.orders.rows)
    (hid : r.id = id) : r.signalId = some s ∧ r.status ≠ .failed := by
  obtain ⟨r', hr', hid', hsig, hstatus⟩ := rowView_some h.2
  cases w.db.orders.eq_of_key_eq hr hr' (hid.trans hid'.symm)
  exact ⟨hsig, of_decide_eq_false hstatus⟩

/-- An update by id of the one row that is worked on. -/
theorem rejection_modify (h : RejectionInv w) {id : ℕ} (f : OrderRow → OrderRow)
    (hf : ∀ r ∈ w.db.orders.rows, r.id = id → RowOk w (Keyed.withKey r.id (f r)))
    (j : List Commit) :
    RejectionInv { w with db := w.db.modifyOrder id f, journal := j } := by
  refine h.write (w.db.modifyOrder id f) rfl (fun r' hr' => ?_) j
  refine (Table.mem_updateWhere _ hr').imp_right ?_
  rintro ⟨r, hr, hp, rfl⟩
  exact hf r hr (of_decide_eq_true hp)

/-- The signal that is being rejected has no order row but failed ones. -/
theorem failed_of_guarantee (hl : d.Linked w) {s : ℕ} {reason : Json} {t : String}
    (hG : RejectionG w (.db (.markSignalRejected s t reason))) (hok : GateOk w s reason)
    {r : OrderRow} (hr : r ∈ w.db.orders.rows) (hs : r.signalId = some s) : r.status = .failed := by
  cases hreason : brokerErrorReason reason with
  | false => exact hok hreason r hr hs
  | true =>
    obtain ⟨id, hview⟩ := hG hreason
    obtain ⟨r', hr', hid, hs', hf⟩ := rowView_some hview
    have heq : r.id = r'.id := hl.row_unique (orderColumns_of_mem hr) (orderColumns_of_mem hr') hs hs'
    cases w.db.orders.eq_of_key_eq hr hr' heq
    exact of_decide_eq_true hf

/-- **A statement of the processor** keeps the invariant. -/
theorem rejection_processor_db {q : DbOp} {x : q.Ret} {db' : Database} (h : RejectionInv w)
    (hl : d.Linked w) (hG : d.ProcessorG tr w (.db q)) (hK : RejectionG w (.db q))
    (hok : ∀ x ∈ Op.rejects (.db q), GateOk w x.1 x.2)
    (hrun : q.run d.A w.db = some (.ok (x, db'))) (j : List Commit) :
    RejectionInv { w with db := db', journal := j } := by
  have htables := DbOp.run_sameExcept hrun
  cases q with
  | insertPendingOrder signalId b sym sd ty tif qty l st t cli =>
    obtain ⟨-, -, -, rfl⟩ := insertPendingOrder_ok (Option.some.inj hrun)
    refine h.write { w.db with orders := w.db.orders.insert _ } rfl (fun r hr => ?_) j
    refine ((Table.mem_insert _ _ _).mp hr).imp_right ?_
    rintro rfl
    refine ⟨fun s y hs hy hrej => ?_, nofun, nofun, fun hne => absurd rfl hne⟩
    exact absurd hrej ((hK s hs).status hy)
  | backfillBrokerOrderId id b t =>
    cases hrun
    exact (rejection_backfill h (rowAccepted_of_adopts hl hG.adopts) b t j).1
  | markOrderSubmitted id b st t =>
    cases hrun
    obtain ⟨hst, s, hwork⟩ := hK
    refine rejection_modify h _ (fun r hr hid => ?_) j
    obtain ⟨cli, hcli, hacc⟩ := rowAccepted_of_adopts hl hG.adopts r hr hid
    refine (h.rows r hr).rewrite rfl (Or.inr ⟨s, (hwork.row hr hid).1, hwork.1⟩)
      (fun hf => absurd hf hst) ?_ fun _ => rfl
    intro _ cli' hcli'
    cases hcli.symm.trans hcli'
    exact hacc
  | markOrderUncertain id e t =>
    cases hrun
    obtain ⟨s, hwork⟩ := hK
    refine rejection_modify h _ (fun r hr hid => ?_) j
    exact (h.rows r hr).rewrite rfl (Or.inr ⟨s, (hwork.row hr hid).1, hwork.1⟩) nofun
      (h.rows r hr).named (h.rows r hr).filled
  | markOrderFailed id e t =>
    cases hrun
    obtain ⟨s, b, hview, hheld⟩ := hK
    refine rejection_modify h _ (fun r hr hid => ?_) j
    refine ⟨fun _ _ _ _ _ => rfl, fun _ cli hcli => ?_, (h.rows r hr).named, (h.rows r hr).filled⟩
    obtain ⟨r', hr', hid', hs', -⟩ := rowView_some hview
    cases w.db.orders.eq_of_key_eq hr hr' (hid.trans hid'.symm)
    obtain ⟨s'', hs'', hc⟩ := hl.cliOrdId hr
    cases hs'.symm.trans hs''
    cases hc.symm.trans hcli
    exact hheld
  | markSignalRejected s t reason =>
    refine ⟨fun r hr => ?_, h.ring, h.read⟩
    have hr' : r ∈ w.db.orders.rows := by rwa [htables.orders (by simp [DbOp.writes])] at hr
    obtain ⟨g, hg, hrej⟩ := DbOp.run_signalStatus hrun
    refine (h.rows r hr').mono (fun n y hn hy hy' => ?_) (.refl _) fun _ _ _ hc => hc
    have hget : (w.db.signals.get? n).map g = some y := (hg n).symm.trans hy
    obtain ⟨z, hz, rfl⟩ := Option.map_eq_some_iff.mp hget
    rcases hrej z hy' with hold | ⟨_, _, he⟩
    · exact Or.inl ⟨z, hz, hold⟩
    · have hid : z.id = n := w.db.signals.key_of_get? hz
      cases he
      rw [← hid] at hn
      exact Or.inr (failed_of_guarantee hl hK (hok _ rfl) hr' hn)
  | applyFillToOrder | applyFillToPosition | recordFillApplied => exact absurd trivial hG.noFill
  | _ =>
    refine h.frame (htables.orders (by simp [DbOp.writes])) (fun s y hy hy' => ?_) (.refl _)
      (fun _ _ _ _ _ hc => hc) (fun f hf => Or.inl hf) fun f hf => Or.inr hf
    obtain ⟨g, hg, hrej⟩ := DbOp.run_signalStatus hrun
    have hget : (w.db.signals.get? s).map g = some y := (hg s).symm.trans hy
    obtain ⟨z, hz, rfl⟩ := Option.map_eq_some_iff.mp hget
    rcases hrej z hy' with hold | ⟨_, _, he⟩
    · exact ⟨z, hz, hold⟩
    · cases he

/-- **A step of the processor** under the condition keeps the invariant. -/
theorem rejection_processor {c : Choice} {o : Op} {x : Ans o} (h : RejectionInv w)
    (hl : d.Linked w) (hG : d.ProcessorG tr w o) (hK : RejectionG w o) (hok : RejectionOk w o c)
    (hs : (sem d.A).step c o w = some (x, w')) : RejectionInv w' := by
  have hstep : opStep d.A c o w = some (x, w') := hs
  cases o with
  | db q =>
    rcases opStep_db hstep with ⟨e, -, rfl⟩ | ⟨y, db', -, hrun, rfl⟩
    · exact h
    · exact rejection_processor_db h hl hG hK hok.1 hrun _
  | sendOrder order =>
    obtain ⟨-, rfl⟩ := inMemory_eq hstep
    obtain ⟨s, hsig, -⟩ := hG.sends order rfl
    obtain ⟨sig, hlink⟩ := hG.link.1 s hsig
    obtain ⟨id, hview⟩ := hK s hsig
    obtain ⟨r', hr', -, hs', hlive⟩ := rowView_some hview
    refine h.frame rfl (fun n y hy hy' => ⟨y, hy, hy'⟩) (w.exchange.grows_send order) ?_
      (fun f hf => Or.inl hf) fun f hf => Or.inr hf
    intro r hr cli hf hcli hheld
    rcases Exchange.mayHold_send hheld with hheld | hc
    · exact hheld
    · -- the request is for a signal whose only row has not failed
      obtain ⟨n, hn, hc'⟩ := hl.cliOrdId hr'
      cases hs'.symm.trans hn
      have heq : r.id = r'.id := by
        refine hl.unique _ _ _ _ (orderColumns_of_mem hr) (orderColumns_of_mem hr') ?_
        exact hcli.trans (hc.symm.trans (hlink.cliOrdId.trans hc'.symm))
      cases w.db.orders.eq_of_key_eq hr hr' heq
      exact absurd hf (of_decide_eq_false hlive)
  | awaitAnswer n =>
    rcases awaitStep_eq hstep with rfl | rfl
    · exact h
    · refine And.left (b := RejectionRely w _) (rejection_still h hl rfl rfl
        (w.exchange.grows_drop n) (fun s hheld => ?_) rfl (Or.inr rfl))
      exact Exchange.mayHold_drop hheld
  | readFills => exact absurd rfl hG.reads
  | getOrderByCliOrdId cli =>
    rw [(lookupStep_eq hstep).1]
    exact h
  | getAccounts =>
    rw [accountsStep_eq hstep]
    exact h
  | panic => cases hstep
  | _ =>
    obtain ⟨-, rfl⟩ := inMemory_eq hstep
    exact And.left (b := RejectionRely _ _)
      (rejection_still h hl rfl rfl (.refl _) (fun _ hc => hc) rfl (Or.inr rfl))

end Processor

end RazorTrade
