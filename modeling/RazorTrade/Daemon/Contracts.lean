import RazorTrade.Daemon.ProcessorSafety

/-! # The contract of the four tasks

Each task keeps `Linked`, whatever the others do meanwhile.  For the reconciler that is so
because an order that takes a fill belongs to a `crypto_leverage` signal, for the equity
writer because no position carries the sleeve that it sums.  Only the processor sends for
a signal, only the reconciler writes what fills change, and the broker order ids that the
reconciler writes come from fills that carry the row's client order id.

Main results, for every run, any failures and any restarts:

  `linked_of_reaches`    :  every reachable state is `Linked`
  `guarantee_of_reaches` :  every operation about to be issued is guaranteed -/

namespace RazorTrade

open Interaction Relational Database DaemonM

/-- Operations that respect every link whatever they meet, and read no ring. -/
def PlainOp : Op → Prop
  | .db (.insertPendingOrder ..) | .db (.applyFillToPosition ..) => False
  | .db (.markOrderSubmitted ..) | .db (.backfillBrokerOrderId ..) => False
  | .db (.insertEquitySnapshot row) => ∃ t, row = bootstrapRow t
  | .sendOrder o => o.signalId = none ∧ ∃ e t, o.cliOrdId = some (Daemon.panicCliOrdId e t)
  | .readFills => False
  | _ => True

/-- What an order that takes a fill says about the position. -/
structure Leverage (out : OrderFillOutcome) : Prop where
  sleeve : out.sleeve = some "crypto_leverage"
  broker : out.broker = krakenFutures

/-- A fill of the ring last read carries the row's client order id and this broker order id. -/
def AdoptsFill (w : World) (id : ℕ) (b : String) : Prop :=
  ∃ f ∈ w.lastRead.fills, f.orderId = b ∧ f.cliOrdId.isSome ∧
    ∃ r, w.db.orderColumns id = some r ∧ r.cliOrdId = f.cliOrdId

/-- What an operation that names a broker order id must respect, outside the processor. -/
def NamesOk (w : World) : Op → Prop
  | .db (.markOrderSubmitted ..) => False
  | .db (.backfillBrokerOrderId id b _) => AdoptsFill w id b
  | _ => True

namespace Daemon

variable (d : Daemon)

/-- What a task other than the processor guarantees. -/
structure TaskG (i : TaskId) (_ : List Ev) (w : World) (o : Op) : Prop where
  fills : FillOp o → i = .reconciler
  reads : o = .readFills → i = .reconciler
  link : d.LinkOk w o
  names : NamesOk w o
  sends : ∀ order, o = .sendOrder order → order.signalId = none

/-- What such a task relies on. -/
structure TaskRely (i : TaskId) (w w' : World) : Prop where
  linked : d.Linked w → d.Linked w'
  orders : ∀ id r, w.db.orderColumns id = some r → w'.db.orderColumns id = some r
  lastRead : i = .reconciler → w'.lastRead = w.lastRead

/-- Safety of a part of such a task that keeps `B`. -/
def TaskSafe {α : Type} (i : TaskId) (B : World → Prop) (p : DaemonM α) (tr : List Ev)
    (w : World) : Prop :=
  Safe (sem d.A) (d.TaskRely i) (d.TaskG i) (fun _ w _ => B w) p.run tr w

def contract : Contract World Op Ans (Except String Unit) TaskId where
  Inv := d.Linked
  R
    | .processor => d.Rely
    | i => d.TaskRely i
  G
    | .processor => d.ProcessorG
    | i => d.TaskG i

/-- The invariant while the reconciler works on a ring that it read. -/
def HasRead (ring : FillsRing) (w : World) : Prop := d.Linked w ∧ w.lastRead = ring

end Daemon

/-! ## Lemmas -/

theorem plain_of_supervisorOp {o : Op} (h : SupervisorOp o) : PlainOp o ∧ ¬ FillOp o := by
  unfold SupervisorOp at h
  split at h
  case h_6 row => exact ⟨h, id⟩
  case h_10 order => exact ⟨h, id⟩
  case h_11 => exact h.elim
  all_goals exact ⟨trivial, id⟩

/-- Only a read of the ring changes what was read last. -/
theorem step_lastRead {A : Arith} {c : Choice} {o : Op} {w w' : World} {x : Ans o}
    (h : (sem A).step c o w = some (x, w')) (ho : o ≠ .readFills) : w'.lastRead = w.lastRead := by
  have hstep : opStep A c o w = some (x, w') := h
  cases o with
  | db q =>
    rcases opStep_db hstep with ⟨e, -, rfl⟩ | ⟨r, db, -, -, rfl⟩ <;> rfl
  | awaitAnswer n =>
    rcases awaitStep_eq hstep with rfl | rfl <;> rfl
  | getOrderByCliOrdId cli => rw [(lookupStep_eq hstep).1]
  | getAccounts => rw [accountsStep_eq hstep]
  | panic => cases hstep
  | readFills => exact absurd rfl ho
  | _ => rw [(inMemory_eq hstep).2]

namespace Daemon

variable {d : Daemon} {tr : List Ev} {w : World} {i : TaskId} {α β : Type}

theorem linkOk_of_plain {o : Op} (h : PlainOp o) : d.LinkOk w o := by
  unfold PlainOp at h
  split at h
  case h_5 row =>
    obtain ⟨t, rfl⟩ := h
    exact Or.inl rfl
  case h_6 order =>
    refine ⟨fun s hs => ?_, fun _ => h.2⟩
    rw [h.1] at hs
    cases hs
  case h_8 h₁ h₂ h₃ h₄ h₅ h₆ h₇ =>
    unfold LinkOk
    split
    · exact absurd rfl (h₁ _ _ _ _ _ _ _ _ _ _ _)
    · exact absurd rfl (h₂ _ _ _ _ _ _)
    · exact absurd rfl (h₅ _)
    · exact absurd rfl (h₆ _)
    · trivial
  all_goals exact h.elim

/-- The operations of a part that needs no argument. -/
def PlainFor (i : TaskId) (o : Op) : Prop := PlainOp o ∧ (FillOp o → i = .reconciler)

theorem plain_allowed {o : Op} (h : PlainFor i o) : d.TaskG i tr w o where
  fills := h.2
  reads := by
    rintro rfl
    exact h.1.elim
  link := linkOk_of_plain h.1
  names := by
    unfold NamesOk
    split
    · exact h.1
    · exact h.1.elim
    · trivial
  sends := by
    rintro order rfl
    exact h.1.1

theorem TaskRely.refl (w : World) : d.TaskRely i w w := ⟨id, fun _ _ h => h, fun _ => rfl⟩

theorem TaskRely.trans {a b c : World} (h : d.TaskRely i a b) (h' : d.TaskRely i b c) :
    d.TaskRely i a c where
  linked := fun hl => h'.linked (h.linked hl)
  orders := fun id r hr => h'.orders id r (h.orders id r hr)
  lastRead := fun hi => (h'.lastRead hi).trans (h.lastRead hi)

/-- An assertion that the others and the task's own plain operations keep. -/
structure Kept (d : Daemon) (i : TaskId) (B : World → Prop) : Prop where
  linked : ∀ w, B w → d.Linked w
  stable : ∀ {w w'}, B w → d.TaskRely i w w' → B w'
  step : ∀ {c o w x w'}, B w → d.LinkOk w o → o ≠ .readFills →
    (sem d.A).step c o w = some (x, w') → B w'

theorem linked_kept (i : TaskId) : d.Kept i d.Linked where
  linked := fun _ h => h
  stable := fun h hw => hw.linked h
  step := fun h ok _ hs => linked_step h ok hs

theorem hasRead_kept (ring : FillsRing) : d.Kept .reconciler (d.HasRead ring) where
  linked := fun _ h => h.1
  stable := fun h hw => ⟨hw.linked h.1, (hw.lastRead rfl).trans h.2⟩
  step := fun h ok hne hs => ⟨linked_step h.1 ok hs, (step_lastRead hs hne).trans h.2⟩

variable {B : World → Prop}

theorem plain_safe (hB : d.Kept i B) {p : DaemonM α} (hp : Fallible.All (PlainFor i) p)
    (h : B w) : d.TaskSafe i B p tr w := by
  have hall : Prog.All (PlainFor i) p.run := hp
  refine safe_of_all ?_ ?_ ?_ hall h
  · exact fun _ _ _ h hw => hB.stable h hw
  · exact fun _ _ _ ho _ => plain_allowed ho
  · intro tr w o c x w' ho h hs
    refine hB.step h (linkOk_of_plain ho.1) ?_ hs
    rintro rfl
    exact ho.1

theorem TaskSafe.bind (hB : d.Kept i B) {p : DaemonM α} {f : α → DaemonM β}
    (h : d.TaskSafe i B p tr w) (hf : ∀ a tr w, B w → d.TaskSafe i B (f a) tr w) :
    d.TaskSafe i B (p >>= f) tr w := by
  refine Fallible.safe_bind TaskRely.refl (safe_mono (fun _ _ _ => id) ?_ h)
  intro tr w r h
  cases r with
  | ok a => exact hf a tr w h
  | error e => exact fun w' hw => hB.stable h hw

/-- A plain part, then the rest. -/
theorem plain_seq (hB : d.Kept i B) {p : DaemonM α} {f : α → DaemonM β}
    (hp : Fallible.All (PlainFor i) p) (h : B w)
    (hf : ∀ a tr w, B w → d.TaskSafe i B (f a) tr w) : d.TaskSafe i B (p >>= f) tr w :=
  (plain_safe hB hp h).bind hB hf

theorem evaluateKillSwitch_plain : Fallible.All (PlainFor i) d.evaluateKillSwitchOnce := by
  refine Fallible.all_mono (fun o ho => ?_) d.evaluateKillSwitchOnce_all
  obtain ⟨hplain, hfill⟩ := plain_of_supervisorOp ho
  exact ⟨hplain, fun h => absurd h hfill⟩

/-! ### The reconciler -/

section Reconciler

variable {ring : FillsRing} (fill : FillEntry) (t : String)

/-- An order that takes a fill belongs to a leverage signal. -/
theorem Linked.leverage (h : d.Linked w) {b t : String} {q p fee : ℚ} {out : OrderFillOutcome}
    {db' : Database} (hrun : w.db.applyFillToOrder d.A b q p fee t = some (.ok (some out, db'))) :
    Leverage out := by
  rcases applyFillToOrder_ok hrun with ⟨-, hout, -⟩ | ⟨r, r', out', hr, -, ho, -, hs, hb, -, -, -⟩
  · cases hout
  cases ho
  have hcols : w.db.orderColumns r.id = some r.fixedColumns :=
    orderColumns_of_mem (mem_of_orderOfBrokerId hr).1
  obtain ⟨s, sig, hl⟩ := h.orders _ _ hcols
  obtain ⟨x, hx, rfl⟩ := Option.map_eq_some_iff.mp hl.signal
  have hid : r.signalId = some s := hl.signalId
  have hsleeve : x.sleeve = "crypto_leverage" := hl.sleeve
  refine ⟨?_, hb.trans hl.broker⟩
  rw [hs, hid, Option.bind_some, hx, Option.map_some, hsleeve]

theorem updatePosition_safe {out : OrderFillOutcome} (hout : Leverage out)
    (h : d.HasRead ring w) :
    d.TaskSafe .reconciler (d.HasRead ring) (d.updatePosition fill t out) tr w := by
  have hB := hasRead_kept (d := d) ring
  unfold updatePosition
  rw [hout.sleeve, hout.broker]
  refine safe_db fun w' hw =>
    ⟨⟨fun _ => rfl, nofun, ⟨rfl, rfl⟩, trivial, fun order he => nomatch he⟩, ?_, ?_⟩
  · exact fun e w'' hw' => hB.stable (hB.stable h hw) hw'
  · intro c x w'' db' hs hr hw''
    refine plain_safe hB ?_ (hB.step (o := .db (.applyFillToPosition fill out.instrumentSymbol
      krakenFutures "crypto_leverage" out.isBuy t)) (hB.stable h hw) ⟨rfl, rfl⟩ nofun hs)
    exact Fallible.all_bind (Fallible.all_attempt evaluateKillSwitch_plain) fun _ =>
      Fallible.all_pure _

/-- One attempt to apply the fill to an order, and what follows. -/
theorem applyToOrder_safe {f : Option OrderFillOutcome → DaemonM β} (h : d.HasRead ring w)
    (hnone : ∀ tr w, d.HasRead ring w → d.TaskSafe .reconciler (d.HasRead ring) (f none) tr w)
    (hsome : ∀ out tr w, Leverage out → d.HasRead ring w →
      d.TaskSafe .reconciler (d.HasRead ring) (f (some out)) tr w) :
    d.TaskSafe .reconciler (d.HasRead ring) (db (.applyFillToOrder fill t) >>= f) tr w := by
  have hB := hasRead_kept (d := d) ring
  refine safe_db fun w' hw => ⟨plain_allowed ⟨trivial, fun _ => rfl⟩, fun e w'' hw' => ?_, ?_⟩
  · exact hB.stable (hB.stable h hw) hw'
  · intro c x w'' db' hs hr hw''
    have hl := hB.step (o := .db (.applyFillToOrder fill t)) (hB.stable h hw) trivial nofun hs
    cases x with
    | none => exact hnone _ _ hl
    | some out => exact hsome out _ _ ((hw.linked h.1).leverage hr) hl

/-- The row that `find_order_id_by_cli_ord_id` finds. -/
theorem findOrderIdByCliOrdId_some {db : Database} {broker cli : String} {id : ℕ}
    (h : db.findOrderIdByCliOrdId broker cli = some id) :
    ∃ r ∈ db.orders.rows, r.id = id ∧ r.broker = broker ∧ r.cliOrdId = some cli := by
  obtain ⟨r, hr, rfl⟩ := Option.map_eq_some_iff.mp h
  have hp := List.find?_some hr
  simp only [Bool.and_eq_true, decide_eq_true_eq] at hp
  exact ⟨r, List.mem_of_find?_eq_some hr, rfl, hp⟩

theorem backfillByCliOrdId_safe (hmem : fill ∈ ring.fills) (h : d.HasRead ring w) :
    d.TaskSafe .reconciler (d.HasRead ring) (backfillByCliOrdId fill t) tr w := by
  have hB := hasRead_kept (d := d) ring
  have hend {a : Bool} {tr : List Ev} {w : World} (h : d.HasRead ring w) :
      d.TaskSafe .reconciler (d.HasRead ring) (pure a) tr w := fun w' hw => hB.stable h hw
  unfold backfillByCliOrdId
  split
  · exact hend h
  rename_i cli hcli
  refine safe_perform fun w' hw =>
    ⟨plain_allowed ⟨trivial, fun _ => rfl⟩, fun c x w'' hs => ?_⟩
  have h' := hB.stable h hw
  have h'' := hB.step (o := .db (.findOrderIdByCliOrdId krakenFutures cli)) h' trivial nofun hs
  rcases opStep_db hs with ⟨e, rfl, -⟩ | ⟨found, db', rfl, hrun, hw''⟩
  · exact hend h''
  cases found with
  | none => exact hend h''
  | some id =>
    have hfind : w'.db.findOrderIdByCliOrdId krakenFutures cli = some id :=
      congrArg Prod.fst (Except.ok.inj (Option.some.inj hrun))
    obtain ⟨r, hr, rfl, -, hrc⟩ := findOrderIdByCliOrdId_some hfind
    refine safe_perform fun w₁ hw₁ =>
      ⟨⟨fun _ => rfl, (fun he => nomatch he), trivial, ?_, fun order he => nomatch he⟩,
        fun c x w₂ hs₂ => ?_⟩
    · have hcols := step_orderColumns hs _ _ (orderColumns_of_mem hr)
      refine ⟨fill, ?_, rfl, by rw [hcli]; rfl, _, hw₁.orders _ _ hcols, by rw [hcli]; exact hrc⟩
      rw [(hB.stable h'' hw₁).2]
      exact hmem
    · have h₂ := hB.step (o := .db (.backfillBrokerOrderId r.id fill.orderId t))
        (hB.stable h'' hw₁) trivial nofun hs₂
      cases x <;> exact hend h₂

theorem catchOrphan_safe (hmem : fill ∈ ring.fills) (h : d.HasRead ring w) :
    d.TaskSafe .reconciler (d.HasRead ring) (d.catchOrphan fill t) tr w := by
  have hB := hasRead_kept (d := d) ring
  refine (backfillByCliOrdId_safe fill t hmem h).bind hB fun found tr w h => ?_
  cases found with
  | false => exact fun w' hw => hB.stable h hw
  | true =>
    exact applyToOrder_safe fill t h (fun _ _ h w' hw => hB.stable h hw)
      fun out _ _ hout h => updatePosition_safe fill t hout h

theorem recordFill_plain : Fallible.All (PlainFor .reconciler) (recordFill fill t) :=
  Fallible.all_bind (all_db ⟨trivial, fun _ => rfl⟩) fun _ =>
    Fallible.all_perform ⟨trivial, fun _ => rfl⟩

theorem reconcileFill_safe (hmem : fill ∈ ring.fills) (h : d.HasRead ring w) :
    d.TaskSafe .reconciler (d.HasRead ring) (d.reconcileFill fill) tr w := by
  have hB := hasRead_kept (d := d) ring
  refine plain_seq hB (all_nowIso ⟨trivial, fun _ => rfl⟩) h fun t tr w h => ?_
  refine plain_seq hB (all_db ⟨trivial, fun _ => rfl⟩) h fun applied tr w h => ?_
  cases applied with
  | true => exact plain_safe hB (Fallible.all_perform ⟨trivial, fun _ => rfl⟩) h
  | false =>
    have hrecord : ∀ tr w, d.HasRead ring w →
        d.TaskSafe .reconciler (d.HasRead ring) (recordFill fill t) tr w :=
      fun _ _ h => plain_safe hB (recordFill_plain fill t) h
    refine applyToOrder_safe fill t h (fun tr w h => ?_) fun out tr w hout h => ?_
    · exact (catchOrphan_safe fill t hmem h).bind hB fun _ => hrecord
    · exact (updatePosition_safe fill t hout h).bind hB fun _ => hrecord

theorem reconcileOnce_safe (h : d.Linked w) :
    d.TaskSafe .reconciler d.Linked d.reconcileOnce tr w := by
  unfold reconcileOnce
  refine safe_perform fun w' hw =>
    ⟨⟨fun hf => hf.elim, fun _ => rfl, trivial, trivial, fun order he => nomatch he⟩,
      fun c ring w'' hs => ?_⟩
  have hl : d.Linked w'' := linked_step (o := .readFills) (hw.linked h) trivial hs
  obtain ⟨hring, hw''⟩ := inMemory_eq hs
  have h' : d.HasRead ring w'' := by
    refine ⟨hl, ?_⟩
    rw [hw'', hring]
  have hB := hasRead_kept (d := d) ring
  refine safe_mono (fun _ _ _ => id) (fun _ w _ h => h.1)
    (?_ : d.TaskSafe .reconciler (d.HasRead ring) _ _ _)
  split
  · exact fun w' hw => hB.stable h' hw
  refine plain_seq hB (Fallible.all_perform ⟨trivial, fun _ => rfl⟩) h' fun watermark tr w h => ?_
  split
  · exact fun w' hw => hB.stable h hw
  · refine Fallible.safe_forM TaskRely.refl (fun _ _ _ h hw => hB.stable h hw) ?_ h
    exact fun fill hfill _ _ h => reconcileFill_safe fill (List.mem_of_mem_filter hfill) h

end Reconciler

/-! ### The equity writer -/

/-- No position carries the sleeve that the equity writer sums. -/
theorem Linked.sum_leverageSleeve (h : d.Linked w) :
    w.db.sumRealizedPnlBtcBySleeve d.A leverageSleeve = some (.ok 0) := by
  have hnone : (w.db.positions.rows.filter fun r => r.sleeve = leverageSleeve) = [] := by
    rw [List.filter_eq_nil_iff]
    intro r hr
    rw [(h.positions r hr).1]
    decide
  simp [sumRealizedPnlBtcBySleeve, hnone, Arith.sum]

theorem btcMark_plain : Fallible.All (PlainFor .equityWriter) btcMark := by
  refine Fallible.all_bind (Fallible.all_perform ⟨trivial, fun h => h.elim⟩) fun ticker => ?_
  split
  · exact Fallible.all_throw _
  · split
    · exact Fallible.all_throw _
    · exact Fallible.all_pure _

/-- The end of `write_one_snapshot`: the row that it stores has summed no position. -/
theorem storeSnapshot_safe (h : d.Linked w) {btcUsd fx realized : ℚ} (hfx : 0 < fx)
    (hr : d.toChf 0 btcUsd fx = some realized) (total value cash unrealized : ℚ) :
    d.TaskSafe .equityWriter d.Linked (do
      let t ← nowIso
      orReturn (fun e => "inserting equity_snapshot: " ++ PersistenceError.text e)
        (← tryDb (.insertEquitySnapshot (snapshotRow t total value cash realized unrealized))))
      tr w := by
  have hB := linked_kept (d := d) .equityWriter
  refine plain_seq hB (all_nowIso ⟨trivial, fun h => h.elim⟩) h fun t tr w h => ?_
  have hok (w' : World) : d.LinkOk w' (.db (.insertEquitySnapshot
      (snapshotRow t total value cash realized unrealized))) := Or.inr ⟨btcUsd, fx, hfx, hr⟩
  refine safe_perform fun w' hw =>
    ⟨⟨fun hf => hf.elim, nofun, hok w', trivial, fun order he => nomatch he⟩, fun c x w'' hs => ?_⟩
  exact plain_safe hB (all_orReturn _ x) (linked_step (hw.linked h) (hok w') hs)

theorem writeOneSnapshot_safe (h : d.Linked w) :
    d.TaskSafe .equityWriter d.Linked d.writeOneSnapshot tr w := by
  have hB := linked_kept (d := d) .equityWriter
  have hplain {o : Op} (ho : PlainOp o) (hf : ¬ FillOp o) : PlainFor .equityWriter o :=
    ⟨ho, fun h => absurd h hf⟩
  have hpanic : ∀ (w : World) (tr : List Ev), d.TaskG .equityWriter tr w .panic :=
    fun _ _ => plain_allowed (hplain trivial id)
  unfold writeOneSnapshot
  dsimp only
  split
  · exact fun w' hw => hw.linked h
  rename_i hfx
  refine plain_seq hB btcMark_plain h fun btcUsd tr w h => ?_
  refine plain_seq hB (Fallible.all_perform (hplain trivial id)) h fun r tr w h => ?_
  refine plain_seq hB (all_orReturn _ _) h fun accounts tr w h => ?_
  refine plain_seq hB (all_orPanic (hplain trivial id) _) h fun leverageValue tr w h => ?_
  refine plain_seq hB (all_orPanic (hplain trivial id) _) h fun unrealized tr w h => ?_
  refine plain_seq hB (all_orPanic (hplain trivial id) _) h fun cash tr w h => ?_
  refine safe_perform fun w' hw => ⟨plain_allowed (hplain trivial id), fun c x w'' hs => ?_⟩
  have h' : d.Linked w'' :=
    linked_step (o := .db (.sumRealizedPnlBtcBySleeve leverageSleeve)) (hw.linked h) trivial hs
  refine safe_orReturn (fun realizedBtc hx => ?_) fun e w₁ _ hw₁ => hw₁.linked h'
  have hzero : realizedBtc = 0 := by
    subst hx
    obtain ⟨db', hrun, -⟩ := opStep_db_ok hs
    rw [DbOp.run, (hw.linked h).sum_leverageSleeve] at hrun
    cases hrun
    rfl
  subst hzero
  refine safe_orPanic (fun realized hr => ?_) fun w₁ _ => hpanic w₁ _
  refine plain_seq hB (all_orPanic (hplain trivial id) _) h' fun total tr w h => ?_
  split
  · exact fun w' hw => hw.linked h
  · exact storeSnapshot_safe h (not_le.mp hfx) hr total leverageValue cash unrealized

/-! ### The contract -/

theorem fillOp_of_G {i : TaskId} {o : Op} (h : d.contract.G i tr w o) (hf : FillOp o) :
    i = .reconciler := by
  cases i with
  | processor => exact absurd hf h.noFill
  | _ => exact h.fills hf

theorem linkOk_of_G {i : TaskId} {o : Op} (h : d.contract.G i tr w o) : d.LinkOk w o := by
  cases i with
  | processor => exact ProcessorG.link h
  | _ => exact TaskG.link h

/-- Whatever the others do, each task does its part. -/
theorem contract_start (C : d.system.Condition) (i : TaskId) (w : World) (h : d.Linked w) :
    d.contract.SafeFor C i (d.system.program i) [] w := by
  have hdone {R : World → World → Prop} {G : List Ev → World → Op → Prop} {p : DaemonM Unit}
      (hp : Safe (sem d.A) R G (fun _ w _ => d.Linked w) p.run [] w) :
      Safe ((sem d.A).restrict (C.act i)) R G (fun _ _ _ => True) p.run [] w :=
    safe_restrict (safe_mono (fun _ _ _ => id) (fun _ _ _ _ => trivial) hp)
  cases i with
  | processor => exact hdone (pollOnce_safe h)
  | reconciler => exact hdone (reconcileOnce_safe h)
  | supervisor => exact hdone (plain_safe (linked_kept _) evaluateKillSwitch_plain h)
  | equityWriter =>
    have hB := linked_kept (d := d) .equityWriter
    refine hdone (?_ : d.TaskSafe .equityWriter d.Linked (d.program .equityWriter) [] w)
    dsimp only [program]
    split
    · exact (writeOneSnapshot_safe h).bind hB fun _ _ _ h =>
        plain_safe hB (Fallible.all_pure _) h
    · exact plain_safe hB (Fallible.all_pure _) h

theorem contract_valid (C : d.system.Condition) : d.contract.Valid C where
  refl := by
    intro i w
    cases i with
    | processor => exact .refl w
    | _ => exact TaskRely.refl w
  trans := by
    intro i a b c h₁ h₂
    cases i with
    | processor => exact Rely.trans h₁ h₂
    | _ => exact TaskRely.trans h₁ h₂
  stable := fun _ _ _ _ _ => trivial
  start := fun i w h _ => contract_start C i w h
  act := by
    intro i tr w o ch x w' h hG _ hs
    have h' : d.Linked w' := linked_step h (linkOk_of_G hG) hs
    refine ⟨h', fun j hj => ?_⟩
    cases j with
    | processor =>
      refine ⟨fun _ => h', follows_step hs ?_⟩
      cases i with
      | processor => exact absurd rfl hj
      | _ => exact TaskG.sends hG
    | _ =>
      refine ⟨fun _ => h', step_orderColumns hs, ?_⟩
      rintro ⟨⟩
      try
        refine step_lastRead hs ?_
        rintro rfl
        cases i with
        | reconciler => exact hj rfl
        | processor => exact (ProcessorG.reads hG rfl).elim
        | _ => cases TaskG.reads hG rfl
  finish := fun _ _ _ _ _ _ _ => trivial
  env := by
    intro a w w' h _ ha
    obtain ⟨h', hf⟩ := linked_act h ha
    refine ⟨h', fun i => ?_⟩
    cases i with
    | processor => exact ⟨fun _ => h', hf⟩
    | _ => exact ⟨fun _ => h', hf.orders, fun _ => act_lastRead ha⟩
  restart := fun w h _ =>
    ⟨⟨h.orders, h.unique, h.requests, h.panics, h.exchange, h.positions, h.snapshots⟩,
      fun _ => trivial⟩

/-! ## Top theorems (proved from the lemmas above) -/

theorem contract_holds (now : Instant) (C : d.system.Condition) :
    d.contract.Holds C (initial now) :=
  Contract.holds_idle (linked_initial now) fun _ => trivial

/-- **Every reachable state is linked.** -/
theorem linked_of_reaches {now : Instant} {c : Config} (h : d.Reaches now c) :
    d.Linked c.state :=
  (Contract.hold_of_reaches (contract_valid _) (contract_holds now _) h).1

/-- **Every operation that a task is about to issue is guaranteed.** -/
theorem guarantee_of_reaches {now : Instant} {c : Config} (h : d.Reaches now c) {i : TaskId}
    {o : Op} {k : Ans o → Prog Op Ans (Except String Unit)} {tr : List Ev}
    (hp : c.pass i = some ⟨.op o k, tr⟩) : d.contract.G i tr c.state o :=
  Contract.guarantee_of_reaches (contract_valid _) (contract_holds now _) h hp

end Daemon

end RazorTrade
