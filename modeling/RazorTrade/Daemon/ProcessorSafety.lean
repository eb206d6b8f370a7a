import RazorTrade.Daemon.Links

/-! # What the signal processor does to orders

Whatever the other tasks, the feeds, Python and the exchange do between its steps, a pass
of the processor inserts an order row only for a `crypto_leverage` signal and under that
signal's client order id, and sends an order only for a signal with such a row.  Before
that send

* no request for the signal was ever sent (`insert_pending_order` has just succeeded, and
  the unique index refuses a second row for the client order id), or
* it is a resubmission (`Resubmission`): in this pass the row was `uncertain` and the
  exchange then listed no open order with the client order id.

A row is only given the broker order id of an order that the exchange accepted under the
row's client order id (`Adopts`).

Main result:

  `pollOnce_safe` :  Linked w  →  a pass from `w` only issues what `ProcessorG` allows -/

namespace RazorTrade

open Interaction Relational Database DaemonM

/-- The writes of the fill reconciler. -/
def FillOp : Op → Prop
  | .db (.applyFillToOrder ..) | .db (.applyFillToPosition ..) | .db (.recordFillApplied ..)
  | .advance _ => True
  | _ => False

/-- Operations of the processor that neither insert an order, nor send one, nor name its
broker order id. -/
def QuietOp : Op → Prop
  | .db (.applyFillToOrder ..) | .db (.applyFillToPosition ..) | .db (.recordFillApplied ..)
  | .advance _ => False
  | .db (.insertPendingOrder ..) | .sendOrder _ | .readFills => False
  | .db (.markOrderSubmitted ..) | .db (.backfillBrokerOrderId ..) => False
  | .db (.insertEquitySnapshot row) => ∃ t, row = bootstrapRow t
  | _ => True

/-- The row of the signal was `uncertain`, and then the exchange listed no open order. -/
def Resubmission (s : ℕ) (tr : List Ev) : Prop :=
  ∃ id w₁ w₂, List.Sublist
    [⟨w₁, .db (.pendingOrderForSignal s), .ok (some (id, .uncertain, some (signalCliOrdId s)))⟩,
      ⟨w₂, .getOrderByCliOrdId (signalCliOrdId s), .ok none⟩] tr ∧
    w₂.exchange.openOrder? (signalCliOrdId s) = none

/-- No request for the signal was ever sent. -/
def Fresh (s : ℕ) (w : World) : Prop := ∀ q ∈ w.exchange.requests, q.signalId ≠ some s

/-- The order row belongs to the signal. -/
def RowOf (s id : ℕ) (w : World) : Prop :=
  ∃ r, w.db.orderColumns id = some r ∧ r.signalId = some s ∧ r.cliOrdId = some (signalCliOrdId s)

/-- The exchange accepted an order under the row's client order id, with this id of its own. -/
def Adopts (w : World) (id : ℕ) (b : String) : Prop :=
  ∃ a ∈ w.exchange.accepted, a.brokerOrderId = b ∧
    ∃ r, w.db.orderColumns id = some r ∧ r.cliOrdId = a.order.cliOrdId

/-- What an operation that names a broker order id must respect. -/
def AdoptsOk (w : World) : Op → Prop
  | .db (.markOrderSubmitted id b _ _) | .db (.backfillBrokerOrderId id b _) => Adopts w id b
  | _ => True

namespace Daemon

variable (d : Daemon)

/-- What the processor relies on. -/
def Rely (w w' : World) : Prop := (d.Linked w → d.Linked w') ∧ Follows w w'

/-- What the processor guarantees. -/
structure ProcessorG (tr : List Ev) (w : World) (o : Op) : Prop where
  noFill : ¬ FillOp o
  reads : o ≠ .readFills
  link : d.LinkOk w o
  adopts : AdoptsOk w o
  sends : ∀ order, o = .sendOrder order →
    ∃ s, order.signalId = some s ∧ (Fresh s w ∨ Resubmission s tr)

/-- Safety of a part of the processor. -/
def ProcSafe {α : Type} (Q : List Ev → World → Except String α → Prop) (p : DaemonM α)
    (tr : List Ev) (w : World) : Prop :=
  Safe (sem d.A) d.Rely d.ProcessorG Q p.run tr w

/-- An assertion that quiet operations and the others keep. -/
structure Steady (B : List Ev → World → Prop) : Prop where
  linked : ∀ tr w, B tr w → d.Linked w
  stable : ∀ tr w w', B tr w → d.Rely w w' → B tr w'
  mono : ∀ tr e w, B tr w → B (tr ++ [e]) w

/-- The invariant, and that the rows are still in the signals table. -/
def Knows (rows : List SignalRow) (_ : List Ev) (w : World) : Prop :=
  d.Linked w ∧ ∀ row ∈ rows, w.db.signalColumns row.id = some row.fixedColumns

end Daemon

/-! ## Lemmas -/

theorem Resubmission.append {s : ℕ} {tr : List Ev} (h : Resubmission s tr) (es : List Ev) :
    Resubmission s (tr ++ es) := by
  obtain ⟨id, w₁, w₂, hsub, hnone⟩ := h
  exact ⟨id, w₁, w₂, hsub.trans (List.sublist_append_left _ _), hnone⟩

theorem RowOf.follows {s id : ℕ} {w w' : World} (h : RowOf s id w) (hw : Follows w w') :
    RowOf s id w' := by
  obtain ⟨r, hr, hs⟩ := h
  exact ⟨r, hw.orders id r hr, hs⟩

theorem Adopts.follows {w w' : World} {id : ℕ} {b : String} (h : Adopts w id b)
    (hw : Follows w w') : Adopts w' id b := by
  obtain ⟨a, ha, hb, r, hr, hc⟩ := h
  obtain ⟨a', ha', -, hb', ho⟩ := hw.exchange.accepted a ha
  exact ⟨a', ha', hb'.trans hb, r, hw.orders id r hr, by rw [ho, hc]⟩

theorem Fresh.follows {s : ℕ} {w w' : World} (h : Fresh s w) (hw : Follows w w') :
    Fresh s w' := fun q hq hs => h q (hw.requests q hq s hs) hs

/-! ### The quiet parts: loading, judging, recording -/

section Quiet

open Fallible

theorem quiet_of_loaderOp (o : Op) (h : LoaderOp o) : QuietOp o := by
  unfold LoaderOp at h
  split at h
  · trivial
  · trivial
  · trivial
  · exact h
  · exact h.elim

theorem reject_quiet (s : ℕ) (reason : Json) : All QuietOp (Daemon.reject s reason) :=
  all_bind (all_nowIso trivial) fun _ => all_db trivial

theorem finishSignal_quiet (s : ℕ) (t : String) : All QuietOp (Daemon.finishSignal s t) :=
  all_bind (all_db trivial) fun _ => all_db trivial

theorem coolDown_quiet (s : ℕ) : All QuietOp (Daemon.coolDown s) :=
  all_bind (all_now trivial) fun _ => all_db trivial

theorem recordSubmission_error_quiet (s id : ℕ) (t : String) (err : ExecutionError) :
    All QuietOp (Daemon.recordSubmission s id t (.error err)) := by
  simp only [Daemon.recordSubmission]
  split
  · exact all_bind (all_db trivial) fun _ => coolDown_quiet s
  · exact all_bind (all_db trivial) fun _ => all_db trivial

variable (d : Daemon)

theorem quiet_of_feedOp (o : Op) (h : FeedOp o) : QuietOp o := by
  unfold FeedOp at h
  split at h
  · trivial
  · trivial
  · trivial
  · trivial
  · exact h.elim

theorem snapshotForSignal_quiet (symbol : String) (metadata : Option Json) :
    All QuietOp (d.snapshotForSignal symbol metadata) :=
  all_mono quiet_of_feedOp (d.snapshotForSignal_all symbol metadata)

theorem recordDryRunIntent_quiet (signal : Signal) (market : MarketSnapshot) :
    All QuietOp (d.recordDryRunIntent signal market) :=
  all_bind (all_nowIso trivial) fun _ => all_bind (all_db trivial) fun _ =>
    all_bind (all_nowIso trivial) fun _ => all_db trivial

end Quiet

namespace Daemon

variable {d : Daemon}

theorem Rely.refl (w : World) : d.Rely w w := ⟨id, .refl w⟩

theorem Rely.trans {a b c : World} (h₁ : d.Rely a b) (h₂ : d.Rely b c) : d.Rely a c :=
  ⟨fun h => h₂.1 (h₁.1 h), h₁.2.trans h₂.2⟩

theorem linkOk_of_quiet {w : World} {o : Op} (h : QuietOp o) : d.LinkOk w o := by
  unfold QuietOp at h
  split at h
  case h_10 row =>
    obtain ⟨t, rfl⟩ := h
    exact Or.inl rfl
  case h_11 h₁ h₂ h₃ h₄ h₅ h₆ h₇ h₈ h₉ h₁₀ =>
    unfold LinkOk
    split
    · exact absurd rfl (h₅ _ _ _ _ _ _ _ _ _ _ _)
    · exact absurd rfl (h₂ _ _ _ _ _ _)
    · exact absurd rfl (h₁₀ _)
    · exact absurd rfl (h₆ _)
    · trivial
  all_goals exact h.elim

theorem quiet_allowed {tr : List Ev} {w : World} {o : Op} (h : QuietOp o) :
    d.ProcessorG tr w o where
  noFill := by
    intro hf
    unfold FillOp at hf
    split at hf <;> first | exact h | exact hf
  reads := by
    rintro rfl
    exact h
  link := linkOk_of_quiet h
  adopts := by
    unfold AdoptsOk
    split
    · exact h.elim
    · exact h.elim
    · trivial
  sends := by
    rintro order rfl
    exact h.elim

theorem quiet_step {c : Choice} {o : Op} {w w' : World} {x : Ans o} (h : QuietOp o)
    (hs : (sem d.A).step c o w = some (x, w')) : d.Rely w w' := by
  refine ⟨fun hl => linked_step hl (linkOk_of_quiet h) hs, follows_step hs ?_⟩
  rintro order rfl
  exact h.elim

variable {B : List Ev → World → Prop} {tr : List Ev} {w : World} {α β : Type}

/-- A quiet operation keeps every steady assertion. -/
theorem Steady.quiet (hB : d.Steady B) (tr : List Ev) (w : World) (o : Op) (c : Choice)
    (x : Ans o) (w' : World) (ho : QuietOp o) (h : B tr w)
    (hs : (sem d.A).step c o w = some (x, w')) : B (tr ++ [⟨w, o, x⟩]) w' :=
  hB.mono _ _ _ (hB.stable tr _ _ h (quiet_step ho hs))

/-- A quiet part keeps every steady assertion. -/
theorem quiet_safe (hB : d.Steady B) {p : DaemonM α} (hp : Fallible.All QuietOp p) (h : B tr w) :
    d.ProcSafe (fun tr w _ => B tr w) p tr w := by
  have hall : Prog.All QuietOp p.run := hp
  refine safe_of_all hB.stable ?_ hB.quiet hall h
  exact fun _ _ _ ho _ => quiet_allowed ho

/-- A quiet part, then the rest. -/
theorem quiet_seq (hB : d.Steady B) {Q : List Ev → World → Except String β → Prop}
    {p : DaemonM α} {f : α → DaemonM β} (hp : Fallible.All QuietOp p) (h : B tr w)
    (hf : ∀ a tr w, B tr w → d.ProcSafe Q (f a) tr w)
    (he : ∀ e tr w, B tr w → Q tr w (.error e)) : d.ProcSafe Q (p >>= f) tr w :=
  Fallible.safe_seq Rely.refl hB.stable (fun _ _ _ ho _ => quiet_allowed ho) hB.quiet hp h hf he

theorem knows_steady (rows : List SignalRow) : d.Steady (d.Knows rows) where
  linked := fun _ _ h => h.1
  stable := fun _ _ _ h hw => ⟨hw.1 h.1, fun row hr => hw.2.signals _ _ (h.2 row hr)⟩
  mono := fun _ _ _ h => h

/-- A statement that names a broker order id, then the rest. -/
theorem adopt_then {rows : List SignalRow} {Q : List Ev → World → Except String β → Prop}
    {o : DbOp} {f : o.Ret → DaemonM β} (hK : d.Knows rows tr w)
    (hlink : ∀ w, d.LinkOk w (.db o)) (hfill : ¬ FillOp (.db o))
    (hadopt : ∀ w', d.Rely w w' → AdoptsOk w' (.db o))
    (hf : ∀ x tr w, d.Knows rows tr w → d.ProcSafe Q (f x) tr w)
    (he : ∀ e tr w, d.Knows rows tr w → Q tr w (.error e)) : d.ProcSafe Q (db o >>= f) tr w := by
  have hsteady := knows_steady (d := d) rows
  refine safe_db fun w' hw =>
    ⟨⟨hfill, nofun, hlink w', hadopt w' hw, fun order ho => nomatch ho⟩, fun e w'' hw' => ?_, ?_⟩
  · exact he _ _ _ (hsteady.stable tr w' w'' (hsteady.stable tr w w' hK hw) hw')
  · intro c x w'' db' hs _ _
    have hrel : d.Rely w' w'' :=
      ⟨fun hl => linked_step hl (hlink w') hs, follows_step hs fun _ ho => nomatch ho⟩
    exact hf x _ _ (hsteady.stable tr w' w'' (hsteady.stable tr w w' hK hw) hrel)

/-- The assertion while a broker order id is at hand. -/
theorem adopts_steady (rows : List SignalRow) (id : ℕ) (b : String) :
    d.Steady fun tr w => d.Knows rows tr w ∧ Adopts w id b where
  linked := fun _ _ h => h.1.1
  stable := fun tr w w' h hw => ⟨(knows_steady rows).stable tr w w' h.1 hw, h.2.follows hw.2⟩
  mono := fun _ _ _ h => h

/-! ### The reconciliation of an earlier order -/

/-- The row that `pending_order_for_signal` finds. -/
theorem pendingOrderForSignal_row {db : Database} {s id : ℕ} {st : OrderRowStatus}
    {cli : Option String} (h : db.pendingOrderForSignal s = some (id, st, cli)) :
    ∃ r, db.orders.get? id = some r ∧ r.signalId = some s ∧ r.status = st ∧ r.cliOrdId = cli := by
  obtain ⟨r, hr, he⟩ := Option.map_eq_some_iff.mp h
  cases he
  have hmem : r ∈ db.orders.rows := by simpa using List.mem_of_find?_eq_some hr
  have hp := List.find?_some hr
  simp only [Bool.and_eq_true, decide_eq_true_eq] at hp
  exact ⟨r, db.orders.get?_key hmem, hp.1, rfl, rfl⟩

/-- The fixed columns of that row. -/
theorem pendingOrderForSignal_some {db : Database} {s id : ℕ} {st : OrderRowStatus}
    {cli : Option String} (h : db.pendingOrderForSignal s = some (id, st, cli)) :
    ∃ r, db.orderColumns id = some r ∧ r.signalId = some s ∧ r.cliOrdId = cli := by
  obtain ⟨r, hr, hs, -, hc⟩ := pendingOrderForSignal_row h
  refine ⟨r.fixedColumns, ?_, hs, hc⟩
  unfold orderColumns
  rw [hr]
  rfl

/-- Where the reconciliation leaves a signal. -/
def AfterReconcile (rows : List SignalRow) (s : ℕ) (tr : List Ev) (w : World)
    (r : Except String UncertainReconcileOutcome) : Prop :=
  d.Knows rows tr w ∧
    ∀ id, r = .ok (.resubmitWithOrderId id) → RowOf s id w ∧ Resubmission s tr

theorem Knows.after {rows : List SignalRow} {s : ℕ} (h : d.Knows rows tr w)
    {r : Except String UncertainReconcileOutcome} (hr : ∀ id, r ≠ .ok (.resubmitWithOrderId id)) :
    d.AfterReconcile rows s tr w r := ⟨h, fun id he => absurd he (hr id)⟩

/-- A quiet part that ends with a fixed outcome other than a resubmission. -/
theorem quiet_then {rows : List SignalRow} {s : ℕ} {p : DaemonM α}
    {out : UncertainReconcileOutcome} (hp : Fallible.All QuietOp p) (h : d.Knows rows tr w)
    (hout : ∀ id, out ≠ .resubmitWithOrderId id) :
    d.ProcSafe (d.AfterReconcile rows s) (p >>= fun _ => pure out) tr w := by
  refine quiet_seq (knows_steady rows) hp h (fun a tr w hK w' hw => ?_) fun e tr w hK => ?_
  · exact ((knows_steady rows).stable tr w w' hK hw).after fun id he => hout id (by cases he; rfl)
  · exact hK.after fun id he => nomatch he

theorem reconcileUncertain_safe {rows : List SignalRow} {s id : ℕ} {w₁ : World}
    (h : d.Knows rows tr w) (hrow : RowOf s id w)
    (hread : ⟨w₁, .db (.pendingOrderForSignal s),
      .ok (some (id, .uncertain, some (signalCliOrdId s)))⟩ ∈ tr) :
    d.ProcSafe (d.AfterReconcile rows s) (reconcileUncertain s id (signalCliOrdId s)) tr w := by
  have hsteady := knows_steady (d := d) rows
  refine safe_perform fun w' hw => ⟨quiet_allowed trivial, fun c x w'' hs => ?_⟩
  have hK := hsteady.quiet tr w' _ c x w'' trivial (hsteady.stable tr w w' h hw) hs
  obtain ⟨rfl, hans⟩ := lookupStep_eq hs
  cases x with
  | error e => exact quiet_then (coolDown_quiet s) hK fun id => nofun
  | ok found =>
    cases found with
    | some summary =>
      have hadopt : Adopts w'' id summary.brokerOrderId := by
        obtain ⟨a, ha, he⟩ := Option.map_eq_some_iff.mp (hans _ rfl)
        obtain ⟨hmem, hcli⟩ := Exchange.mem_of_openOrder? ha
        obtain ⟨r, hr, -, hrc⟩ := hrow.follows hw.2
        exact ⟨a, hmem, congrArg OpenOrderSummary.brokerOrderId he, r, hr, hrc.trans hcli.symm⟩
      refine quiet_seq (adopts_steady rows id _) (all_nowIso trivial) ⟨hK, hadopt⟩
        (fun t tr w hK => ?_) fun e tr w hK => hK.1.after fun id => nofun
      refine adopt_then hK.1 (fun _ => trivial) (fun hf => hf) (fun w' hw => hK.2.follows hw.2)
        (fun _ tr w hK => ?_) fun e tr w hK => hK.after fun id => nofun
      exact quiet_then (finishSignal_quiet s t) hK fun id => nofun
    | none =>
      intro w₃ hw₃
      refine ⟨hsteady.stable _ _ _ hK hw₃, fun id' hid => ⟨?_, id, w₁, w'', ?_, ?_⟩⟩
      · cases hid
        exact (hrow.follows hw.2).follows hw₃.2
      · exact (List.singleton_sublist.mpr hread).append (List.Sublist.refl [_])
      · exact Option.map_eq_none_iff.mp (hans none rfl)

theorem tryReconcile_safe {rows : List SignalRow} (s : ℕ) (h : d.Knows rows tr w) :
    d.ProcSafe (d.AfterReconcile rows s) (tryReconcileUncertainOrder s) tr w := by
  have hsteady := knows_steady (d := d) rows
  refine safe_db fun w' hw => ⟨quiet_allowed trivial, fun e w'' hw' => ?_, ?_⟩
  · exact (hsteady.stable _ _ _ (hsteady.mono _ _ _ (hsteady.stable tr w w' h hw)) hw').after
      fun id => nofun
  intro c x w'' db' hs hr hw''
  have hK' := hsteady.stable tr w w' h hw
  have hK := hsteady.quiet tr w' (.db (.pendingOrderForSignal s)) c _ w'' trivial hK' hs
  cases hr
  cases hp : w'.db.pendingOrderForSignal s with
  | none =>
    rw [hp] at hK
    exact fun w₃ hw₃ => (hsteady.stable _ _ _ hK hw₃).after fun id => nofun
  | some found =>
    obtain ⟨id, status, cli⟩ := found
    rw [hp] at hK
    have hdone : d.ProcSafe (d.AfterReconcile rows s)
        (nowIso >>= fun t => finishSignal s t >>= fun _ => pure .alreadyReconciled) _ w'' :=
      quiet_seq hsteady (all_nowIso trivial) hK
        (fun t tr w hK => quiet_then (finishSignal_quiet s t) hK fun id => nofun)
        fun e tr w hK => hK.after fun id => nofun
    cases status with
    | acknowledged | partiallyFilled | filled | submitted => exact hdone
    | uncertain =>
      obtain ⟨r, hr, hrs, rfl⟩ := pendingOrderForSignal_some hp
      obtain ⟨s', sig, hl⟩ := hK'.1.orders id r hr
      have hs' : s' = s := Option.some.inj (hl.signalId.symm.trans hrs)
      subst hs'
      rw [hl.cliOrdId] at hK ⊢
      refine reconcileUncertain_safe hK ⟨r, ?_, hrs, hl.cliOrdId⟩
        (List.mem_append_right _ (List.mem_singleton_self _))
      rw [hw'']
      exact hr
    | _ => exact fun w₃ hw₃ => (hsteady.stable _ _ _ hK hw₃).after fun id => nofun

/-! ### The submission -/

/-- The order that is going to be sent belongs to the signal of a row. -/
structure OrderFor (row : SignalRow) (s : ℕ) (order : Order) : Prop where
  id : s = row.id
  signalId : order.signalId = some s
  cliOrdId : order.cliOrdId = some (signalCliOrdId s)
  symbol : order.instrument.symbol = row.instrumentSymbol
  side : order.side.text = row.side
  sleeve : row.sleeve = "crypto_leverage"

/-- Ready to send: there is a row, and this is the first send or a resubmission. -/
def Ready (rows : List SignalRow) (s id : ℕ) (tr : List Ev) (w : World) : Prop :=
  d.Knows rows tr w ∧ RowOf s id w ∧ (Fresh s w ∨ Resubmission s tr)

theorem ready_steady (rows : List SignalRow) (s id : ℕ) : d.Steady (d.Ready rows s id) where
  linked := fun _ _ h => h.1.1
  stable := fun tr w w' h hw => ⟨(knows_steady rows).stable tr w w' h.1 hw, h.2.1.follows hw.2,
    h.2.2.imp_left fun hf => hf.follows hw.2⟩
  mono := fun _ _ _ h => ⟨h.1, h.2.1, h.2.2.imp_right fun hr => hr.append _⟩

/-- A signal whose order row has just been refused by no unique index was never sent. -/
theorem fresh_of_insert {s : ℕ} {sym sd ty tif t : String} {q : ℚ} {l st : Option ℚ}
    {id : ℕ} {db' : Database} (h : d.Linked w)
    (hrun : w.db.insertPendingOrder (some s) krakenFutures sym sd ty tif q l st t
      (some (signalCliOrdId s)) = .ok (id, db')) : Fresh s w := by
  obtain ⟨-, huniq, -, -⟩ := insertPendingOrder_ok hrun
  intro o ho hs
  obtain ⟨sig, hl⟩ := h.requests o ho s hs
  obtain ⟨n, r, hr, hrs⟩ := hl.row
  obtain ⟨s', sig', hl'⟩ := h.orders n r hr
  have hs' : s' = s := Option.some.inj (hl'.signalId.symm.trans hrs)
  subst hs'
  obtain ⟨x, hx, rfl⟩ := Option.map_eq_some_iff.mp hr
  exact huniq rfl x (w.db.orders.mem_of_get? hx) hl'.broker hl'.cliOrdId

/-- Where the choice of the order row leaves a submission. -/
def AfterRow (rows : List SignalRow) (s : ℕ) (tr : List Ev) (w : World) (r : Except String ℕ) :
    Prop := d.Knows rows tr w ∧ ∀ id, r = .ok id → d.Ready rows s id tr w

theorem orderRowFor_new_safe {rows : List SignalRow} {row : SignalRow} (hrow : row ∈ rows) {s : ℕ}
    {order : Order} (ho : OrderFor row s order) (h : d.Knows rows tr w) :
    d.ProcSafe (d.AfterRow rows s) (orderRowFor s order none) tr w := by
  have hsteady := knows_steady (d := d) rows
  refine quiet_seq hsteady (all_nowIso trivial) h (fun t tr w h => ?_)
    fun e tr w h => ⟨h, fun id => nofun⟩
  unfold ProcSafe
  rw [← bind_pure (db _)]
  refine safe_db fun w' hw => ⟨?_, ?_, ?_⟩
  · have hsig := (hsteady.stable tr w w' h hw).2 row hrow
    refine ⟨id, nofun, ⟨rfl, s, row.fixedColumns, rfl, ho.cliOrdId, ?_, ho.sleeve, ho.symbol,
      ho.side⟩, trivial, ?_⟩
    · rw [ho.id]
      exact hsig
    · exact fun order' he => nomatch he
  · intro e w'' hw'
    exact ⟨hsteady.stable _ _ _ (hsteady.mono _ _ _ (hsteady.stable tr w w' h hw)) hw',
      fun id => nofun⟩
  · intro c x w'' db' hs hr hw'' w₃ hw₃
    have hK' := hsteady.stable tr w w' h hw
    have hok : d.LinkOk w' (.db (.insertPendingOrder (some s) "kraken_futures"
        order.instrument.symbol order.side.text order.orderType.text order.timeInForce.text
        order.quantity order.limitPrice none t order.cliOrdId)) :=
      ⟨rfl, s, row.fixedColumns, rfl, ho.cliOrdId, by rw [ho.id]; exact hK'.2 row hrow, ho.sleeve,
        ho.symbol, ho.side⟩
    have hfollow : Follows w' w'' := follows_step hs fun _ he => nomatch he
    have hrel : d.Rely w' w'' := ⟨fun hl => linked_step hl hok hs, hfollow⟩
    have hK := hsteady.mono tr ⟨w', .db _, .ok x⟩ w'' (hsteady.stable _ _ _ hK' hrel)
    have hins := Option.some.inj hr
    rw [ho.cliOrdId] at hins
    have hfresh : Fresh s w'' := (fresh_of_insert hK'.1 hins).follows hfollow
    obtain ⟨-, -, rfl, hdb⟩ := insertPendingOrder_ok hins
    have hrow : RowOf s (w'.db.orders.lastId + 1) w'' := by
      rw [hw'', hdb]
      exact ⟨_, orderColumns_insert_self w'.db _, rfl, rfl⟩
    have hready (tr' : List Ev) : d.Ready rows s _ tr' w'' := ⟨hK, hrow, Or.inl hfresh⟩
    have hr₃ (tr' : List Ev) := (ready_steady rows s _).stable tr' _ _ (hready tr') hw₃
    refine ⟨(hr₃ _).1, fun id hid => ?_⟩
    cases hid
    exact hr₃ _

theorem orderRowFor_resubmit_safe {rows : List SignalRow} {s id : ℕ} {order : Order}
    (h : d.Ready rows s id tr w) :
    d.ProcSafe (d.AfterRow rows s) (orderRowFor s order (some id)) tr w := by
  refine quiet_seq (ready_steady rows s id) (all_nowIso trivial) h (fun t tr w h => ?_)
    fun e tr w h => ⟨h.1, fun id => nofun⟩
  intro w' hw
  have h' := (ready_steady rows s id).stable tr w w' h hw
  refine ⟨h'.1, fun id hid => ?_⟩
  cases hid
  exact h'

/-- What follows the end of the call. -/
theorem recordSubmission_safe {rows : List SignalRow} {s id : ℕ}
    {r : Except ExecutionError SubmissionResult} (hK : d.Knows rows tr w)
    (hr : ∀ sub, r = .ok sub → Adopts w id sub.brokerOrderId) :
    d.ProcSafe (fun tr w _ => d.Knows rows tr w)
      (nowIso >>= fun t => recordSubmission s id t r) tr w := by
  cases r with
  | error err =>
    exact quiet_safe (knows_steady rows) (Fallible.all_bind (all_nowIso trivial) fun t =>
      recordSubmission_error_quiet s id t err) hK
  | ok sub =>
    refine quiet_seq (adopts_steady rows id sub.brokerOrderId) (all_nowIso trivial)
      ⟨hK, hr sub rfl⟩ (fun t tr w hK => ?_) fun e tr w hK => hK.1
    exact adopt_then hK.1 (fun _ => trivial) (fun hf => hf) (fun w' hw => hK.2.follows hw.2)
      (fun _ tr w hK => quiet_safe (knows_steady rows) (finishSignal_quiet s t) hK)
      fun e tr w hK => hK

/-- The send itself, and what follows it. -/
theorem submit_safe {rows : List SignalRow} {row : SignalRow} (hrow : row ∈ rows) {s id : ℕ}
    {order : Order} (ho : OrderFor row s order) (h : d.Ready rows s id tr w) :
    d.ProcSafe (fun tr w _ => d.Knows rows tr w)
      (submitOrder order >>= fun result => nowIso >>= fun t =>
        recordSubmission s id t result) tr w := by
  have hsteady := knows_steady (d := d) rows
  unfold submitOrder
  rw [bind_assoc]
  refine safe_perform fun w' hw => ?_
  have h' := (ready_steady rows s id).stable tr w w' h hw
  obtain ⟨r, hr, hrs, hrc⟩ := h'.2.1
  have hok : d.LinkOk w' (.sendOrder order) := by
    refine ⟨fun s' hs' => ?_, fun hnone => ?_⟩
    · have hss : s' = s := Option.some.inj (hs'.symm.trans ho.signalId)
      subst hss
      refine ⟨row.fixedColumns, ho.cliOrdId, ?_, ho.symbol, ho.side, id, r, hr, hrs⟩
      rw [ho.id]
      exact h'.1.2 row hrow
    · rw [ho.signalId] at hnone
      cases hnone
  refine ⟨⟨fun hf => hf, nofun, hok, trivial, ?_⟩, fun c n w'' hs => ?_⟩
  · rintro order' he
    cases he
    exact ⟨s, ho.signalId, h'.2.2⟩
  obtain ⟨rfl, rfl⟩ := inMemory_eq hs
  have hK : d.Knows rows tr { w' with exchange := (w'.exchange.send order).2 } :=
    ⟨linked_step h'.1.1 hok hs, h'.1.2⟩
  have hsent := w'.exchange.requests_send order
  generalize (w'.exchange.send order).1 = n at hsent ⊢
  refine safe_perform fun w₁ hw₁ => ⟨quiet_allowed trivial, fun c x w₂ hs₂ => ?_⟩
  have hK₁ : d.Knows rows tr w₁ := hsteady.stable tr _ w₁ hK hw₁
  have hrel : d.Rely w₁ w₂ := quiet_step (o := .awaitAnswer n) trivial hs₂
  refine recordSubmission_safe (hsteady.stable tr _ w₂ hK₁ hrel) ?_
  rintro sub rfl
  obtain ⟨rfl, a, ha, hb⟩ := awaitStep_ok hs₂
  obtain ⟨hmem, hn⟩ := Exchange.mem_of_ofRequest? ha
  have horder : a.order = order := by
    have ha' := (hK₁.1.exchange a hmem).1
    rw [hn, hw₁.2.exchange.requests n order hsent] at ha'
    exact (Option.some.inj ha').symm
  exact ⟨a, hmem, hb.symm, r, hw₁.2.orders id r hr, by rw [horder, hrc, ho.cliOrdId]⟩

theorem submitOrderRow_safe {rows : List SignalRow} {row : SignalRow} (hrow : row ∈ rows) {s : ℕ}
    {order : Order} {resubmit : Option ℕ} (ho : OrderFor row s order)
    (h : d.ProcSafe (d.AfterRow rows s) (orderRowFor s order resubmit) tr w) :
    d.ProcSafe (fun tr w _ => d.Knows rows tr w) (submitOrderRow s order resubmit) tr w := by
  refine Fallible.safe_bind Rely.refl (safe_mono (fun _ _ _ => id) ?_ h)
  intro tr w r hr
  cases r with
  | ok id => exact submit_safe hrow ho (hr.2 id rfl)
  | error e => exact fun w' hw => (knows_steady rows).stable tr w w' hr.1 hw

/-- Every order that the processor builds has the form of `krakenOrder`. -/
theorem krakenOrder_of_build (d : Daemon) {signal : Signal} {market : MarketSnapshot}
    {portfolio : PortfolioState} {order : Order}
    (hb : d.buildKrakenFuturesOrder signal market portfolio = .ok order) :
    ∃ ty tif q lp ro, order = d.krakenOrder signal ty tif q lp ro := by
  unfold buildKrakenFuturesOrder at hb
  split at hb
  · obtain ⟨pos, -, rfl⟩ := buildExitOrder_iff.mp hb
    exact ⟨_, _, _, _, _, rfl⟩
  · obtain ⟨usd, level, -, rfl⟩ := buildEntryOrder_iff.mp hb
    exact ⟨_, _, _, _, _, rfl⟩

/-- The orders that the processor builds belong to the signal. -/
theorem orderFor_of_build {row : SignalRow} {signal : Signal} {market : MarketSnapshot}
    {portfolio : PortfolioState} {order : Order} (hs : d.rowToSignal row = .ok signal)
    (hl : signal.sleeve = .cryptoLeverage)
    (hb : d.buildKrakenFuturesOrder signal market portfolio = .ok order) :
    OrderFor row signal.id order := by
  obtain ⟨hid, hsym, hside, hsleeve⟩ := d.rowToSignal_ok hs
  obtain ⟨ty, tif, q, lp, ro, rfl⟩ := d.krakenOrder_of_build hb
  exact ⟨hid, rfl, rfl, hsym, hside.symm, by rw [hsleeve, hl]; rfl⟩

/-! ### One signal, one pass -/

theorem buildAndSubmit_safe {rows : List SignalRow} {row : SignalRow} (hrow : row ∈ rows)
    {signal : Signal} {market : MarketSnapshot} {portfolio : PortfolioState}
    {resubmit : Option ℕ} (hs : d.rowToSignal row = .ok signal)
    (hl : signal.sleeve = .cryptoLeverage) (h : d.Knows rows tr w)
    (hready : ∀ id, resubmit = some id → d.Ready rows signal.id id tr w) :
    d.ProcSafe (fun tr w _ => d.Knows rows tr w)
      (d.buildAndSubmit signal market portfolio resubmit) tr w := by
  unfold buildAndSubmit
  split
  · exact quiet_safe (knows_steady rows) (reject_quiet _ _) h
  · rename_i order hb
    have ho := orderFor_of_build hs hl hb
    cases resubmit with
    | none => exact submitOrderRow_safe hrow ho (orderRowFor_new_safe hrow ho h)
    | some id => exact submitOrderRow_safe hrow ho (orderRowFor_resubmit_safe (hready id rfl))

theorem submitViaBroker_safe {rows : List SignalRow} {row : SignalRow} (hrow : row ∈ rows)
    {signal : Signal} {market : MarketSnapshot} {portfolio : PortfolioState}
    (hs : d.rowToSignal row = .ok signal) (h : d.Knows rows tr w) :
    d.ProcSafe (fun tr w _ => d.Knows rows tr w) (d.submitViaBroker signal market portfolio)
      tr w := by
  unfold submitViaBroker
  split
  · exact quiet_safe (knows_steady rows) (reject_quiet _ _) h
  rename_i hsleeve
  have hl : signal.sleeve = .cryptoLeverage := not_not.mp hsleeve
  split
  · exact quiet_safe (knows_steady rows) (reject_quiet _ _) h
  refine Fallible.safe_bind Rely.refl (safe_mono (fun _ _ _ => id) ?_ (tryReconcile_safe signal.id h))
  intro tr w r hr
  cases r with
  | error e => exact fun w' hw => (knows_steady rows).stable tr w w' hr.1 hw
  | ok outcome =>
    cases outcome with
    | noExistingOrder => exact buildAndSubmit_safe hrow hs hl hr.1 fun id he => nomatch he
    | resubmitWithOrderId id =>
      obtain ⟨hrow', hre⟩ := hr.2 id rfl
      refine buildAndSubmit_safe hrow hs hl hr.1 fun id' hid => ?_
      cases hid
      exact ⟨hr.1, hrow', Or.inr hre⟩
    | alreadyReconciled | lookupFailedRetry | malformedUnrecoverable =>
      exact fun w' hw => (knows_steady rows).stable tr w w' hr.1 hw

theorem evaluateSignal_safe {rows : List SignalRow} {row : SignalRow} (hrow : row ∈ rows)
    {signal : Signal} {market : MarketSnapshot} {portfolio : PortfolioState}
    (hs : d.rowToSignal row = .ok signal) (h : d.Knows rows tr w) :
    d.ProcSafe (fun tr w _ => d.Knows rows tr w) (d.evaluateSignal signal market portfolio)
      tr w := by
  have hsteady := knows_steady (d := d) rows
  have herr : ∀ (e : String) tr w, d.Knows rows tr w → d.Knows rows tr w := fun _ _ _ h => h
  refine quiet_seq hsteady (all_now trivial) h (fun t tr w h => ?_) herr
  refine quiet_seq hsteady (all_orPanic trivial _) h (fun result tr w h => ?_) herr
  refine quiet_seq hsteady (all_db trivial) h (fun _ tr w h => ?_) herr
  split
  · unfold handleApproval
    split
    · exact quiet_safe hsteady (recordDryRunIntent_quiet d _ _) h
    · exact submitViaBroker_safe hrow hs h
    · exact submitViaBroker_safe hrow hs h
  · exact quiet_safe hsteady (reject_quiet _ _) h

theorem judgeSignal_safe {rows : List SignalRow} {row : SignalRow} (hrow : row ∈ rows)
    {signal : Signal} (hs : d.rowToSignal row = .ok signal) (h : d.Knows rows tr w) :
    d.ProcSafe (fun tr w _ => d.Knows rows tr w) (d.judgeSignal signal) tr w := by
  have hsteady := knows_steady (d := d) rows
  have herr : ∀ (e : String) tr w, d.Knows rows tr w → d.Knows rows tr w := fun _ _ _ h => h
  refine quiet_seq hsteady (snapshotForSignal_quiet d _ _) h (fun r tr w h => ?_) herr
  cases r with
  | error e => exact quiet_safe hsteady (reject_quiet _ _) h
  | ok market =>
    refine quiet_seq hsteady (all_now trivial) h (fun t tr w h => ?_) herr
    refine quiet_seq hsteady (Fallible.all_attempt (Fallible.all_mono quiet_of_loaderOp
      (loadPortfolioState_all t))) h (fun r tr w h => ?_) herr
    cases r with
    | error e => exact quiet_safe hsteady (reject_quiet _ _) h
    | ok portfolio => exact evaluateSignal_safe hrow hs h

theorem processSignal_safe {rows : List SignalRow} {row : SignalRow} (hrow : row ∈ rows)
    (h : d.Knows rows tr w) :
    d.ProcSafe (fun tr w _ => d.Knows rows tr w) (d.processSignal row) tr w := by
  have hsteady := knows_steady (d := d) rows
  unfold processSignal
  split
  · exact quiet_safe hsteady (reject_quiet _ _) h
  · rename_i signal hs
    split
    · exact judgeSignal_safe hrow hs h
    · refine quiet_seq hsteady (all_now trivial) h (fun t tr w h => ?_) fun _ _ _ h => h
      split
      · exact quiet_safe hsteady (all_db trivial) h
      · exact judgeSignal_safe hrow hs h

/-- The rows that a poll returns are rows of the table. -/
theorem knows_pendingSignals (h : d.Linked w) (limit : ℕ) (t : String) (tr : List Ev) :
    d.Knows (w.db.pendingSignals limit t) tr w := by
  refine ⟨h, fun row hrow => ?_⟩
  have hmem := List.mem_of_mem_take hrow
  rw [List.mem_insertionSort, List.mem_filter] at hmem
  unfold signalColumns
  rw [show w.db.signals.get? row.id = some row from w.db.signals.get?_key hmem.1]
  rfl

/-! ## Top theorem (proved from the lemmas above) -/

/-- **A pass of the processor** only issues what its guarantee allows, whatever happens
between its steps. -/
theorem pollOnce_safe (h : d.Linked w) :
    d.ProcSafe (fun _ w _ => d.Linked w) d.pollOnce tr w := by
  have hnone := knows_steady (d := d) []
  refine quiet_seq hnone (all_nowIso trivial) ⟨h, by simp⟩ (fun t tr w hK => ?_) fun _ _ _ h => h.1
  refine safe_db fun w' hw => ⟨quiet_allowed trivial, fun e w'' hw' => ?_, ?_⟩
  · exact hw'.1 (hw.1 hK.1)
  · intro c x w'' db' hs hr hw''
    have hl := quiet_step (d := d) (o := .db (.pendingSignals 64 t)) trivial hs
    cases hr
    have hrows (tr' : List Ev) : d.Knows (w'.db.pendingSignals 64 t) tr' w'' := by
      refine ⟨hl.1 (hw.1 hK.1), ?_⟩
      rw [hw'']
      exact (knows_pendingSignals (hw.1 hK.1) 64 t []).2
    refine safe_mono (fun _ _ _ => id) (fun _ _ _ h => h.1)
      (Fallible.safe_forM Rely.refl (knows_steady (w'.db.pendingSignals 64 t)).stable ?_ (hrows _))
    intro row hrow tr w h
    refine Fallible.safe_bind Rely.refl (Fallible.safe_attempt Rely.refl
      (safe_mono (fun _ _ _ => id) ?_ (processSignal_safe hrow h)))
    intro tr w r h w₁ hw₁ w₂ hw₂
    exact (knows_steady _).stable _ _ _ ((knows_steady _).stable _ _ _ h hw₁) hw₂

end Daemon

end RazorTrade
