import RazorTrade.Daemon.FillWriteOff
import RazorTrade.Daemon.RejectionInvariant

/-! # Which fills reach the positions

The reconciler knows an order by its row, and only `submit_via_broker` inserts rows.  A panic
close has none: its fills are recorded and the position that it closed stays open.  A second
order that the exchange accepted for a signal has none of its own either.

`NamesAccepted` is what the rows say of the exchange, in every run whose feed reports fills
under the client order id of their order.

The tick tries the order rows by the broker order id, and once more after a backfill; the
processor may put an id under the row between any two of these statements.

Main result, for every run:

  `fill_applied_iff` :  a fill that the tick comes through with reaches the position of its order
                        exactly when the order is one for a signal and, at the last try, the row
                        of the signal is free for it (`RowFree`) -/

namespace RazorTrade

open Interaction Relational Database DaemonM

/-- A client order id of the kind that the processor gives to a signal's order. -/
def SignalCli (cli : String) : Prop := "rt-s".toList <+: cli.toList

/-- A fill under such an id is one of an order that the exchange accepted under it. -/
def FillNamesOrder (e : Exchange) (f : FillEntry) : Prop :=
  ∀ cli ∈ f.cliOrdId, SignalCli cli →
    ∃ a ∈ e.accepted, a.brokerOrderId = f.orderId ∧ a.order.cliOrdId = some cli

def FeedNamesOrders (w : World) (a : Act) : Prop := ∀ f ∈ a.fills, FillNamesOrder w.exchange f

/-- The signal's row carries no broker order id, or the fill's. -/
def RowFree (db : Database) (fill : FillEntry) : Prop :=
  ∀ r ∈ db.orders.rows, r.cliOrdId = fill.cliOrdId →
    r.brokerOrderId = none ∨ r.brokerOrderId = some fill.orderId

instance (cli : String) : Decidable (SignalCli cli) :=
  inferInstanceAs (Decidable ("rt-s".toList <+: cli.toList))

instance (e : Exchange) (f : FillEntry) : Decidable (FillNamesOrder e f) :=
  inferInstanceAs (Decidable (∀ cli ∈ f.cliOrdId, _))

instance FeedNamesOrders.decidable (w : World) (a : Act) : Decidable (FeedNamesOrders w a) :=
  inferInstanceAs (Decidable (∀ f ∈ a.fills, _))

namespace Daemon

variable (d : Daemon)

def feedCondition : d.system.Condition where
  env w a := FeedNamesOrders w a

instance : d.feedCondition.Testable where
  act _ _ _ _ := inferInstanceAs (Decidable True)
  finish _ _ _ := inferInstanceAs (Decidable True)
  env w a := FeedNamesOrders.decidable w a
  restart _ := inferInstanceAs (Decidable True)

end Daemon

/-! ## The invariant -/

/-- A row that names a broker order names one that the exchange accepted under the row's client
order id. -/
structure NamesAccepted (w : World) : Prop where
  rows : ∀ r ∈ w.db.orders.rows, ∀ b, r.brokerOrderId = some b → Adopts w r.id b
  ring : ∀ f ∈ w.fills.fills, FillNamesOrder w.exchange f
  read : ∀ f ∈ w.lastRead.fills, FillNamesOrder w.exchange f

def namesContract : Contract World Op Ans (Except String Unit) TaskId where
  Inv := NamesAccepted
  R _ _ _ := True
  G _ _ _ _ := True

section Names

variable {d : Daemon} {c : Choice} {o : Op} {w w' : World} {x : Ans o} {i : TaskId}
variable {tr : List Ev}

theorem signalCli_signalCliOrdId (s : ℕ) : SignalCli (signalCliOrdId s) := by
  unfold SignalCli signalCliOrdId
  rw [String.toList_append]
  exact List.prefix_append _ _

theorem FillNamesOrder.grows {e e' : Exchange} {f : FillEntry} (h : FillNamesOrder e f)
    (hg : e.Grows e') : FillNamesOrder e' f := by
  intro cli hcli hsignal
  obtain ⟨a, ha, hid, hc⟩ := h cli hcli hsignal
  obtain ⟨a', ha', -, hb, ho⟩ := hg.accepted a ha
  exact ⟨a', ha', hb.trans hid, by rw [ho, hc]⟩

/-- What an accepted order says of a row stays. -/
theorem Adopts.mono {id : ℕ} {b : String} (h : Adopts w id b) (hg : w.exchange.Grows w'.exchange)
    (hr : ∀ r, w.db.orderColumns id = some r → w'.db.orderColumns id = some r) :
    Adopts w' id b := by
  obtain ⟨a, ha, hb, r, hcols, hc⟩ := h
  obtain ⟨a', ha', -, hb', ho⟩ := hg.accepted a ha
  exact ⟨a', ha', hb'.trans hb, r, hr r hcols, by rw [ho, hc]⟩

/-- A task names an order only by an id that the exchange gave to one under the row's client
order id. -/
theorem adopts_of_G (h : NamesAccepted w) (hl : d.Linked w) {id : ℕ} {b : String}
    (hG : d.contract.G i tr w o)
    (ho : (∃ st t, o = .db (.markOrderSubmitted id b st t)) ∨
      ∃ t, o = .db (.backfillBrokerOrderId id b t)) : Adopts w id b := by
  by_cases hi : i = .processor
  · subst hi
    have hadopts : AdoptsOk w o := Daemon.ProcessorG.adopts hG
    rcases ho with ⟨st, t, rfl⟩ | ⟨t, rfl⟩
    · exact hadopts
    · exact hadopts
  · have hnames : NamesOk w o := by
      cases i with
      | processor => exact absurd rfl hi
      | _ => exact Daemon.TaskG.names hG
    rcases ho with ⟨st, t, rfl⟩ | ⟨t, rfl⟩
    · exact hnames.elim
    obtain ⟨f, hf, rfl, hsome, r, hr, hc⟩ := hnames
    obtain ⟨s, sig, hlink⟩ := hl.orders _ _ hr
    have hcli : f.cliOrdId = some (signalCliOrdId s) := hc.symm.trans hlink.cliOrdId
    obtain ⟨a, ha, hb, hac⟩ := h.read f hf _ hcli (signalCli_signalCliOrdId s)
    exact ⟨a, ha, hb, r, hr, by rw [hac, ← hcli, hc]⟩

/-- **Step.** -/
theorem namesAccepted_step (h : NamesAccepted w) (hl : d.Linked w) (hG : d.contract.G i tr w o)
    (hs : (sem d.A).step c o w = some (x, w')) : NamesAccepted w' := by
  have hmono {id : ℕ} {b : String} (ha : Adopts w id b) : Adopts w' id b :=
    ha.mono (step_grows hs) (step_orderColumns hs id)
  obtain ⟨hfills, hread⟩ := step_ring hs
  refine ⟨fun r hr b hb => ?_, fun f hf => ?_, fun f hf => ?_⟩
  · rcases step_db hs with hdb | ⟨q, y, rfl, hrun⟩
    · rw [hdb] at hr
      exact hmono (h.rows r hr b hb)
    · rcases DbOp.run_brokerOrderId hrun hr hb with ⟨r₀, hr₀, hid, hb₀⟩ | hnames
      · rw [← hid]
        exact hmono (h.rows r₀ hr₀ b hb₀)
      · refine hmono (adopts_of_G h hl hG ?_)
        rcases hnames with ⟨st, t, rfl⟩ | ⟨t, rfl⟩
        · exact Or.inl ⟨st, t, rfl⟩
        · exact Or.inr ⟨t, rfl⟩
  · rw [hfills] at hf
    exact (h.ring f hf).grows (step_grows hs)
  · rcases hread with hsame | hnew
    · rw [hsame] at hf
      exact (h.read f hf).grows (step_grows hs)
    · rw [hnew] at hf
      exact (h.ring f hf).grows (step_grows hs)

theorem namesAccepted_act {a : Act} (h : NamesAccepted w) (hl : d.Linked w)
    (hok : FeedNamesOrders w a) (ha : actStep a w = some w') : NamesAccepted w' := by
  obtain ⟨ho, -, -, -, -⟩ := Daemon.act_tables ha
  obtain ⟨-, -, hg⟩ := Daemon.act_exchange hl.exchange ha
  refine ⟨fun r hr b hb => ?_, fun f hf => ?_, fun f hf => ?_⟩
  · rw [ho] at hr
    refine (h.rows r hr b hb).mono hg fun x hx => ?_
    unfold orderColumns at hx ⊢
    rwa [ho]
  · rcases act_ring ha hf with hold | hnew
    · exact (h.ring f hold).grows hg
    · exact (hok f hnew).grows hg
  · rw [Daemon.act_lastRead ha] at hf
    exact (h.read f hf).grows hg

end Names

namespace Daemon

variable {d : Daemon}

theorem names_validOver : d.contract.ValidOver namesContract d.feedCondition where
  refl := fun _ _ => trivial
  trans := fun _ _ _ _ _ _ => trivial
  stable := fun _ _ _ _ _ => trivial
  start := fun _ _ _ _ _ => safe_top _ _ _
  act := fun _ _ _ _ _ _ _ hl hG h _ _ hs => ⟨namesAccepted_step h hl hG hs, fun _ _ => trivial⟩
  finish := fun _ _ _ _ _ _ _ => trivial
  env := fun _ _ _ hl h hok ha => ⟨namesAccepted_act h hl hok ha, fun _ => trivial⟩
  restart := fun _ _ h _ => ⟨⟨h.rows, nofun, nofun⟩, fun _ => trivial⟩

/-- Every reachable state: the links hold, and rows name accepted orders. -/
theorem namesAccepted_of_reaches {now : Instant} {c : Config}
    (h : d.feedCondition.Reaches (initial now) c) : d.Linked c.state ∧ NamesAccepted c.state := by
  have hvalid := (contract_valid (d := d) d.feedCondition).and names_validOver
  have hstart : NamesAccepted (World.initial now) :=
    ⟨fun r hr => absurd hr List.not_mem_nil, fun f hf => absurd hf List.not_mem_nil,
      fun f hf => absurd hf List.not_mem_nil⟩
  exact (Contract.hold_of_reaches hvalid (Contract.holds_idle
    ⟨linked_initial now, hstart⟩ fun _ => ⟨trivial, trivial⟩) h).1

/-! ## The row of an order -/

section Rows

variable {w : World} {a : AcceptedOrder} {r r' : OrderRow} {fill : FillEntry}

theorem signalCliOrdId_injective {s s' : ℕ} (h : signalCliOrdId s = signalCliOrdId s') :
    s = s' :=
  Numeral.eq_of_toString (Numeral.eq_of_append h)

/-- The client order id identifies the row. -/
theorem Linked.row_of_cli (h : d.Linked w) (hr : r ∈ w.db.orders.rows)
    (hr' : r' ∈ w.db.orders.rows) (hc : r.cliOrdId = r'.cliOrdId) : r = r' := by
  refine w.db.orders.eq_of_key_eq hr hr' ?_
  exact h.unique _ _ _ _ (orderColumns_of_mem hr) (orderColumns_of_mem hr') hc

/-- An accepted order under the client order id of a row is one for the row's signal. -/
theorem Linked.signal_of_row (h : d.Linked w) (ha : a ∈ w.exchange.accepted) {id : ℕ}
    (hr : w.db.orderColumns id = some r) (hc : r.cliOrdId = a.order.cliOrdId) :
    ∃ s sig, a.order.signalId = some s ∧ OrderLink w.db r s sig ∧
      RequestLink w.db a.order s sig := by
  obtain ⟨s, sig, hlink⟩ := h.orders _ _ hr
  have hcli : a.order.cliOrdId = some (signalCliOrdId s) := hc.symm.trans hlink.cliOrdId
  have hmem : a.order ∈ w.exchange.requests := List.mem_of_getElem? (h.exchange a ha).1
  cases hs : a.order.signalId with
  | none =>
    obtain ⟨e, t, hpanic⟩ := h.panics _ hmem hs
    exact absurd (Option.some.inj (hpanic.symm.trans hcli)) (panicCliOrdId_ne s e t)
  | some s' =>
    obtain ⟨sig', hrequest⟩ := h.requests _ hmem s' hs
    have hsame : s' = s :=
      signalCliOrdId_injective (Option.some.inj (hrequest.cliOrdId.symm.trans hcli))
    subst hsame
    cases hrequest.signal.symm.trans hlink.signal
    exact ⟨s', sig, rfl, hlink, hrequest⟩

/-- … on its instrument and side. -/
theorem Linked.order_of_row (h : d.Linked w) (ha : a ∈ w.exchange.accepted)
    (hr : r ∈ w.db.orders.rows) (hc : r.cliOrdId = a.order.cliOrdId) :
    a.order.signalId.isSome = true ∧ r.instrumentSymbol = a.order.instrument.symbol ∧
      r.side = a.order.side.text := by
  obtain ⟨s, sig, hs, hlink, hrequest⟩ := h.signal_of_row ha (orderColumns_of_mem hr) hc
  exact ⟨by rw [hs]; rfl, hlink.symbol.trans hrequest.symbol.symm,
    hlink.side.trans hrequest.side.symm⟩

/-- An order for a signal has its row. -/
theorem Linked.row_of_order (h : d.Linked w) (ha : a ∈ w.exchange.accepted)
    (hs : a.order.signalId.isSome = true) :
    ∃ r ∈ w.db.orders.rows, r.broker = krakenFutures ∧ r.cliOrdId = a.order.cliOrdId := by
  obtain ⟨s, hs⟩ := Option.isSome_iff_exists.mp hs
  have hmem : a.order ∈ w.exchange.requests := List.mem_of_getElem? (h.exchange a ha).1
  obtain ⟨sig, hrequest⟩ := h.requests _ hmem s hs
  obtain ⟨id, cols, hcols, hsignal⟩ := hrequest.row
  obtain ⟨s', sig', hlink⟩ := h.orders id cols hcols
  obtain ⟨r, hr, rfl⟩ := Option.map_eq_some_iff.mp hcols
  cases hsignal.symm.trans hlink.signalId
  refine ⟨r, w.db.orders.mem_of_get? hr, hlink.broker, ?_⟩
  exact hlink.cliOrdId.trans hrequest.cliOrdId.symm

/-- The row that the fill's broker order id names is the row of its client order id. -/
theorem cli_of_named (h : NamesAccepted w) (hl : d.Linked w)
    (ha : a ∈ w.exchange.accepted) (hr : r ∈ w.db.orders.rows)
    (hb : r.brokerOrderId = some a.brokerOrderId) : r.cliOrdId = a.order.cliOrdId := by
  obtain ⟨a', ha', hid, cols, hcols, hc⟩ := h.rows r hr _ hb
  rw [orderColumns_of_mem hr] at hcols
  cases hcols
  exact hc.trans (congrArg Order.cliOrdId (hl.exchange.order_eq ha' ha hid))

end Rows

/-! ## The tick -/

/-- The event is a statement that answered an error. -/
def dbFailed : Ev → Bool
  | ⟨_, .db _, .error _⟩ => true
  | _ => false

def NoDbError (es : List Ev) : Prop := ∀ e ∈ es, dbFailed e = false

theorem NoDbError.left {tr es : List Ev} (h : NoDbError (tr ++ es)) : NoDbError tr :=
  fun e he => h e (List.mem_append_left _ he)

theorem NoDbError.right {tr es : List Ev} (h : NoDbError (tr ++ es)) : NoDbError es :=
  fun e he => h e (List.mem_append_right _ he)

/-- `apply_fill_to_position` committed the fill, on the instrument and side of the order. -/
def AppliedTo (fill : FillEntry) (o : Order) (es : List Ev) : Prop :=
  ∃ w sleeve t y, (⟨w, .db (.applyFillToPosition fill o.instrument.symbol krakenFutures sleeve
    (decide (o.side = .buy)) t), .ok y⟩ : Ev) ∈ es

def PositionOp : Op → Prop
  | .db (.applyFillToPosition ..) => True
  | _ => False

/-- The operation tries the order rows for a fill. -/
def TryOp : Op → Prop
  | .db (.applyFillToOrder ..) => True
  | _ => False

/-- The state in which the tick last tried the order rows for the fill. -/
def LastTry (fill : FillEntry) (seg : List Ev) (w : World) : Prop :=
  ∃ pre t x post, seg = pre ++ ⟨w, .db (.applyFillToOrder fill t), x⟩ :: post ∧
    ∀ e ∈ post, ¬ TryOp e.op

/-- The tick has come through with the fill, which was not recorded before, and no statement
failed: `seg` is what it did, from `w₀` on. -/
structure FillProcessed (d : Daemon) (c : Config) (fill : FillEntry) (w₀ : World)
    (seg : List Ev) : Prop where
  tick : seg <:+: c.events .reconciler
  begins : seg.head?.map (·.pre) = some w₀
  ends : Fallible.Ends seg (d.reconcileFill fill) (.ok ())
  unrecorded : ∃ w, ⟨w, .db (.hasFillBeenApplied krakenFutures fill.fillId), .ok false⟩ ∈ seg
  fine : NoDbError seg

/-- How the search for the row ended: `pre` comes before the last try, `post` after it. -/
inductive SearchEnd (d : Daemon) (fill : FillEntry) (pre : List Ev) (t : String)
    (post : List Ev) : Option OrderFillOutcome → Prop
  /-- A row took the fill. -/
  | taken {out : OrderFillOutcome} {es : List Ev} (sub : es ⊆ post)
      (ends : Fallible.Ends es (d.updatePosition fill t out) (.ok ())) :
      SearchEnd d fill pre t post (some out)
  /-- No row, and none under the client order id. -/
  | unknown (missed : ∀ cli ∈ fill.cliOrdId, ∃ w,
      ⟨w, .db (.findOrderIdByCliOrdId krakenFutures cli), .ok none⟩ ∈ post) :
      SearchEnd d fill pre t post none
  /-- No row, after the backfill of one. -/
  | backfilled {cli : String} {id : ℕ} {w w' : World} {t' : String} (hcli : cli ∈ fill.cliOrdId)
      (found : ⟨w, .db (.findOrderIdByCliOrdId krakenFutures cli), .ok (some id)⟩ ∈ pre)
      (named : ⟨w', .db (.backfillBrokerOrderId id fill.orderId t'), .ok ()⟩ ∈ pre) :
      SearchEnd d fill pre t post none

/-! ### What it does -/

section Text

open Fallible

variable {fill : FillEntry} {t : String} {es seg : List Ev}

/-- Neither a try nor a write of a position. -/
def AsideOp (o : Op) : Prop := ¬ TryOp o ∧ ¬ PositionOp o

theorem recordFill_aside : All AsideOp (recordFill fill t) :=
  all_recordFill fill t (fun _ _ => ⟨id, id⟩) ⟨id, id⟩

theorem backfillByCliOrdId_aside : All AsideOp (backfillByCliOrdId fill t) :=
  all_backfillByCliOrdId fill t (fun _ _ => ⟨id, id⟩) fun _ _ _ => ⟨id, id⟩

theorem updatePosition_noTry {out : OrderFillOutcome} :
    All (fun o => ¬ TryOp o) (d.updatePosition fill t out) := by
  have hevaluate : All (fun o => ¬ TryOp o) d.evaluateKillSwitchOnce := by
    refine all_mono (fun o ho => ?_) d.evaluateKillSwitchOnce_all
    unfold SupervisorOp at ho
    split at ho
    case h_11 => exact ho.elim
    all_goals exact id
  unfold updatePosition
  split
  · exact all_pure _
  · refine all_bind (all_db id) fun _ => ?_
    split
    · exact all_bind (all_attempt hevaluate) fun _ => all_pure _
    · exact all_pure _

/-- A position part that has ended well has written the position. -/
theorem updatePosition_ends {out : OrderFillOutcome} {sleeve : String}
    (h : Ends es (d.updatePosition fill t out) (.ok ())) (hout : out.sleeve = some sleeve) :
    ∃ w y, ⟨w, .db (.applyFillToPosition fill out.instrumentSymbol out.broker sleeve out.isBuy t),
      .ok y⟩ ∈ es := by
  unfold updatePosition at h
  rw [hout] at h
  obtain ⟨es₁, es₂, y, rfl, hwrite, -⟩ := ends_bind h
  obtain ⟨w, rfl⟩ := ends_db hwrite
  exact ⟨w, y, by simp⟩

/-- The lookup and the backfill, where no statement fails. -/
theorem backfillByCliOrdId_ends {found : Bool}
    (h : Ends es (backfillByCliOrdId fill t) (.ok found)) (hok : NoDbError es) :
    (found = false ∧ ∀ cli ∈ fill.cliOrdId, ∃ w,
      ⟨w, .db (.findOrderIdByCliOrdId krakenFutures cli), .ok none⟩ ∈ es) ∨
    (found = true ∧ ∃ cli ∈ fill.cliOrdId, ∃ id w w',
      ⟨w, .db (.findOrderIdByCliOrdId krakenFutures cli), .ok (some id)⟩ ∈ es ∧
      ⟨w', .db (.backfillBrokerOrderId id fill.orderId t), .ok ()⟩ ∈ es) := by
  unfold backfillByCliOrdId at h
  cases hcli : fill.cliOrdId with
  | none =>
    rw [hcli] at h
    obtain ⟨-, hfound⟩ := ends_pure h
    exact Or.inl ⟨Except.ok.inj hfound, nofun⟩
  | some cli =>
    rw [hcli] at h
    obtain ⟨es₁, es₂, found?, rfl, hfind, h₁⟩ := ends_bind h
    obtain ⟨w, rfl⟩ := ends_perform hfind
    rcases found? with e | - | id
    · cases hok _ List.mem_cons_self
    · obtain ⟨-, hfound⟩ := ends_pure h₁
      refine Or.inl ⟨Except.ok.inj hfound, ?_⟩
      rintro _ ⟨⟩
      exact ⟨w, by simp⟩
    · obtain ⟨es₃, es₄, done, rfl, hbackfill, h₂⟩ := ends_bind h₁
      obtain ⟨w', rfl⟩ := ends_perform hbackfill
      rcases done with e | ⟨⟩
      · cases hok _ (List.mem_cons_of_mem _ List.mem_cons_self)
      · obtain ⟨-, hfound⟩ := ends_pure h₂
        exact Or.inr ⟨Except.ok.inj hfound, cli, rfl, id, w, w', by simp, by simp⟩

theorem ends_aside {α : Type} {p : DaemonM α} {r : Except String α} (hp : All AsideOp p)
    (h : Ends es p r) : ∀ e ∈ es, AsideOp e.op :=
  (all_of_leads hp h).1

/-- The tick asks whether the fill is recorded, and goes to the order rows if it is not. -/
theorem reconcileFill_ends (h : Ends seg (d.reconcileFill fill) (.ok ())) :
    ∃ w₀ t w applied rest, seg = ⟨w₀, .now, t⟩ ::
        ⟨w, .db (.hasFillBeenApplied krakenFutures fill.fillId), .ok applied⟩ :: rest ∧
      (applied = true → ∃ w', rest = [⟨w', .advance fill.seq, ()⟩]) ∧
      (applied = false → Ends rest (d.applyFill fill (canonicalIso t)) (.ok ())) := by
  unfold reconcileFill at h
  obtain ⟨es₁, es₂, t, rfl, hnow, h₁⟩ := ends_bind h
  obtain ⟨es₃, es₄, instant, rfl, hclock, hiso⟩ := ends_bind hnow
  obtain ⟨w₀, rfl⟩ := ends_perform hclock
  obtain ⟨rfl, ht⟩ := ends_pure hiso
  obtain rfl := Except.ok.inj ht
  obtain ⟨es₅, rest, applied, rfl, hasked, h₂⟩ := ends_bind h₁
  obtain ⟨w, rfl⟩ := ends_db hasked
  refine ⟨w₀, instant, w, applied, rest, rfl, ?_, ?_⟩
  · rintro rfl
    exact ends_perform h₂
  · rintro rfl
    exact h₂

/-- A tick that has ended well took nothing, or has come through with each fill that it took. -/
theorem reconcileOnce_ends (h : Ends es d.reconcileOnce (.ok ())) :
    es.length ≤ 2 ∨ ∃ w ring w' watermark rest,
      es = ⟨w, .readFills, ring⟩ :: ⟨w', .lastAppliedSeq, watermark⟩ :: rest ∧
      ∀ fill ∈ ring.fills, watermark < fill.seq →
        ∃ seg, seg <:+: rest ∧ Ends seg (d.reconcileFill fill) (.ok ()) := by
  unfold reconcileOnce at h
  obtain ⟨es₁, es₂, ring, rfl, hread, h₁⟩ := ends_bind h
  obtain ⟨w, rfl⟩ := ends_perform hread
  split at h₁
  · obtain ⟨rfl, -⟩ := ends_pure h₁
    exact Or.inl (by simp)
  obtain ⟨es₃, rest, watermark, rfl, hseq, h₂⟩ := ends_bind h₁
  obtain ⟨w', rfl⟩ := ends_perform hseq
  split at h₂
  · obtain ⟨rfl, -⟩ := ends_pure h₂
    exact Or.inl (by simp)
  refine Or.inr ⟨w, ring, w', watermark, rest, rfl, fun fill hfill hnew => ?_⟩
  exact ends_forM h₂ fill (List.mem_filter.mpr ⟨hfill, decide_eq_true hnew⟩)

/-- The orphan-catcher finds no row under the client order id, or it comes to a second try. -/
theorem catchOrphan_ends (h : Ends es (d.catchOrphan fill t) (.ok ())) (hok : NoDbError es) :
    ((∀ e ∈ es, AsideOp e.op) ∧ ∀ cli ∈ fill.cliOrdId, ∃ w,
      ⟨w, .db (.findOrderIdByCliOrdId krakenFutures cli), .ok none⟩ ∈ es) ∨
    ∃ pre w out post, es = pre ++ ⟨w, .db (.applyFillToOrder fill t), .ok out⟩ :: post ∧
      (∀ e ∈ pre, AsideOp e.op) ∧
      (∃ cli ∈ fill.cliOrdId, ∃ id w₁ w₂,
        ⟨w₁, .db (.findOrderIdByCliOrdId krakenFutures cli), .ok (some id)⟩ ∈ pre ∧
        ⟨w₂, .db (.backfillBrokerOrderId id fill.orderId t), .ok ()⟩ ∈ pre) ∧
      ((out = none ∧ post = []) ∨
        ∃ o, out = some o ∧ Ends post (d.updatePosition fill t o) (.ok ())) := by
  unfold catchOrphan at h
  obtain ⟨es₁, es₂, found, rfl, hsearch, h₁⟩ := ends_bind h
  have hlooked := ends_aside backfillByCliOrdId_aside hsearch
  rcases backfillByCliOrdId_ends hsearch hok.left with
    ⟨rfl, hmissed⟩ | ⟨rfl, hfound⟩
  · obtain ⟨rfl, -⟩ := ends_pure h₁
    rw [List.append_nil]
    exact Or.inl ⟨hlooked, hmissed⟩
  · obtain ⟨es₃, es₄, out, rfl, htry, h₂⟩ := ends_bind h₁
    obtain ⟨w, rfl⟩ := ends_db htry
    refine Or.inr ⟨es₁, w, out, es₄, rfl, hlooked, hfound, ?_⟩
    cases out with
    | none => exact Or.inl ⟨rfl, (ends_pure h₂).1⟩
    | some o => exact Or.inr ⟨o, rfl, h₂⟩

/-- **The last try**, read off the text of the tick. -/
theorem applyFill_ends (h : Ends seg (d.applyFill fill t) (.ok ())) (hok : NoDbError seg) :
    ∃ pre w out post, seg = pre ++ ⟨w, .db (.applyFillToOrder fill t), .ok out⟩ :: post ∧
      (∀ e ∈ post, ¬ TryOp e.op) ∧ SearchEnd d fill pre t post out ∧
      (out = none → ∀ e ∈ seg, ¬ PositionOp e.op) := by
  unfold applyFill at h
  obtain ⟨es₁, es₂, out, rfl, htry, h₁⟩ := ends_bind h
  obtain ⟨w, rfl⟩ := ends_db htry
  cases out with
  | some out =>
    obtain ⟨es₃, es₄, _, rfl, hposition, hrecord⟩ := ends_bind h₁
    refine ⟨[], w, some out, es₃ ++ es₄, rfl, List.forall_mem_append.mpr
      ⟨(all_of_leads updatePosition_noTry hposition).1,
        fun e he => (ends_aside recordFill_aside hrecord e he).1⟩,
      .taken (List.subset_append_left _ _) hposition, nofun⟩
  | none =>
    obtain ⟨es₃, es₄, _, rfl, hcatch, hrecord⟩ := ends_bind h₁
    have hrecorded := ends_aside recordFill_aside hrecord
    rcases catchOrphan_ends hcatch hok.right.left with ⟨hlooked, hmissed⟩ |
      ⟨pre, w', out, post, rfl, hlooked, ⟨cli, hcli, n, w₁, w₂, hfound, hnamed⟩, hend⟩
    · have haside := List.forall_mem_append.mpr ⟨hlooked, hrecorded⟩
      refine ⟨[], w, none, es₃ ++ es₄, rfl, fun e he => (haside e he).1,
        .unknown fun cli hcli => ?_, fun _ => ?_⟩
      · obtain ⟨w₁, hmem⟩ := hmissed cli hcli
        exact ⟨w₁, List.mem_append_left _ hmem⟩
      · exact List.forall_mem_cons.mpr ⟨id, fun e he => (haside e he).2⟩
    · refine ⟨⟨w, .db (.applyFillToOrder fill t), .ok none⟩ :: pre, w', out, post ++ es₄,
        by simp, List.forall_mem_append.mpr ⟨?_, fun e he => (hrecorded e he).1⟩, ?_, ?_⟩
      · rcases hend with ⟨-, rfl⟩ | ⟨o, -, hposition⟩
        · exact List.forall_mem_nil _
        · exact (all_of_leads updatePosition_noTry hposition).1
      · rcases hend with ⟨rfl, -⟩ | ⟨o, rfl, hposition⟩
        · exact .backfilled hcli (List.mem_cons_of_mem _ hfound) (List.mem_cons_of_mem _ hnamed)
        · exact .taken (List.subset_append_left _ _) hposition
      · rintro rfl
        rcases hend with ⟨-, rfl⟩ | ⟨o, ho, -⟩
        · rw [List.singleton_append]
          exact List.forall_mem_cons.mpr ⟨id, List.forall_mem_append.mpr
            ⟨List.forall_mem_append.mpr ⟨fun e he => (hlooked e he).2,
              List.forall_mem_singleton.mpr id⟩, fun e he => (hrecorded e he).2⟩⟩
        · cases ho

end Text

/-! ### The states it met -/

section Met

variable {now : Instant} {c : Config} {a : AcceptedOrder} {fill : FillEntry}
variable {w₀ w w' : World} {seg pre post : List Ev} {t : String} {out : Option OrderFillOutcome}

theorem SearchEnd.after {es : List Ev} (h : SearchEnd d fill pre t post out) :
    SearchEnd d fill (es ++ pre) t post out := by
  cases h with
  | taken sub ends => exact .taken sub ends
  | unknown missed => exact .unknown missed
  | backfilled hcli found named =>
    exact .backfilled hcli (List.mem_append_right _ found) (List.mem_append_right _ named)

theorem FillProcessed.lastTry (h : FillProcessed d c fill w₀ seg) : ∃ pre w t out post,
    seg = pre ++ ⟨w, .db (.applyFillToOrder fill t), .ok out⟩ :: post ∧
      (∀ e ∈ post, ¬ TryOp e.op) ∧ SearchEnd d fill pre t post out ∧
      (out = none → ∀ e ∈ seg, ¬ PositionOp e.op) := by
  obtain ⟨w₁, t, w₂, applied, rest, rfl, hrecorded, hgoes⟩ := reconcileFill_ends h.ends
  obtain ⟨w, hnew⟩ := h.unrecorded
  have hfalse : applied = false := by
    by_contra happlied
    rw [Bool.not_eq_false] at happlied
    obtain ⟨w', rfl⟩ := hrecorded happlied
    simp [happlied] at hnew
  obtain ⟨pre, w, out, post, rfl, hlast, hend, hnone⟩ :=
    applyFill_ends (hgoes hfalse) fun e he => h.fine e (by simp [he])
  refine ⟨[_, _] ++ pre, w, canonicalIso t, out, post, rfl, hlast, hend.after, fun ho => ?_⟩
  exact List.forall_mem_cons.mpr ⟨id, List.forall_mem_cons.mpr ⟨id, hnone ho⟩⟩

/-- The pass of the tick, with the fill's events in it. -/
theorem FillProcessed.pass (h : FillProcessed d c fill w₀ seg) : ∃ p before after,
    c.pass .reconciler = some p ∧ p.events = before ++ seg ++ after := by
  obtain ⟨before, after, hsplit⟩ := h.tick
  obtain ⟨w, hmem⟩ := h.unrecorded
  obtain ⟨p, hp, hevents⟩ := pass_of_events (i := .reconciler) (c := c) (by
    rw [← hsplit]
    exact List.mem_append_left _ (List.mem_append_right _ hmem))
  exact ⟨p, before, after, hp, hevents.symm.trans hsplit.symm⟩

/-- The links and the names hold in the state that an event met. -/
theorem FillProcessed.met (h : FillProcessed d c fill w₀ seg)
    (hc : d.feedCondition.Reaches (initial now) c) {e : Ev} (he : e ∈ seg) :
    d.Linked e.pre ∧ NamesAccepted e.pre ∧
      ∃ ch w, (sem d.A).step ch e.op e.pre = some (e.ans, w) := by
  obtain ⟨p, before, after, hp, hevents⟩ := h.pass
  obtain ⟨c₁, ch, w, h₁, hpre, hstep, -⟩ := later_of_event hc hp (e := e) (by simp [hevents, he])
  obtain ⟨hl, hn⟩ := namesAccepted_of_reaches h₁
  rw [hpre] at hl hn
  exact ⟨hl, hn, ch, w, hstep⟩

/-- What an event left is kept in the state that a later one met. -/
theorem FillProcessed.kept (h : FillProcessed d c fill w₀ seg)
    (hc : d.feedCondition.Reaches (initial now) c) {e : Ev} (hseg : seg = pre ++ e :: post)
    {e' : Ev} (he' : e' ∈ pre) : ∃ ch w, (sem d.A).step ch e'.op e'.pre = some (e'.ans, w) ∧
      Later e'.pre e.pre ∧ ∀ id, Named id w.db → Named id e.pre.db := by
  obtain ⟨p, before, after, hp, hevents⟩ := h.pass
  subst hseg
  have hsplit : p.events = (before ++ pre) ++ e :: (post ++ after) := by simp [hevents]
  exact later_of_events hc hp hsplit e' (List.mem_append_right _ he')

theorem FillProcessed.first (h : FillProcessed d c fill w₀ seg) : ∃ e ∈ seg, e.pre = w₀ := by
  obtain ⟨e, he, hpre⟩ := Option.map_eq_some_iff.mp h.begins
  exact ⟨e, List.mem_of_mem_head? he, hpre⟩

/-- Nothing is lost since the tick came to the fill. -/
theorem FillProcessed.since (h : FillProcessed d c fill w₀ seg)
    (hc : d.feedCondition.Reaches (initial now) c) {e : Ev} (he : e ∈ seg) : Later w₀ e.pre := by
  have hbegins := h.begins
  cases seg with
  | nil => cases hbegins
  | cons e₀ rest =>
    cases hbegins
    rcases List.mem_cons.mp he with rfl | he
    · exact .refl _
    · obtain ⟨es₁, es₂, rfl⟩ := List.append_of_mem he
      have hsplit : e₀ :: (es₁ ++ e :: es₂) = (e₀ :: es₁) ++ e :: es₂ := rfl
      obtain ⟨-, -, -, hlater, -⟩ := h.kept hc hsplit List.mem_cons_self
      exact hlater

/-- A row that takes the fill is the row of the order, and free for it. -/
theorem taken_row {out : OrderFillOutcome} {ch : Choice} (hl : d.Linked w) (hn : NamesAccepted w)
    (ha : a ∈ w.exchange.accepted) (hid : fill.orderId = a.brokerOrderId)
    (hcli : fill.cliOrdId = a.order.cliOrdId)
    (hs : (sem d.A).step ch (.db (.applyFillToOrder fill t)) w = some (.ok (some out), w')) :
    (Leverage out ∧ out.instrumentSymbol = a.order.instrument.symbol ∧
      out.isBuy = decide (a.order.side = .buy)) ∧
      a.order.signalId.isSome = true ∧ RowFree w.db fill := by
  obtain ⟨db, hrun, -⟩ := opStep_db_ok hs
  have hleverage := hl.leverage hrun
  rcases applyFillToOrder_ok hrun with ⟨-, ho, -⟩ | ⟨r, _, _, hr, -, ho, -, -, -, hsymbol, hbuy, -⟩
  · cases ho
  cases ho
  obtain ⟨hmem, hb⟩ := mem_of_orderOfBrokerId hr
  have hc := cli_of_named hn hl ha hmem (by rw [hb, hid])
  obtain ⟨hsignal, hrow, hside⟩ := hl.order_of_row ha hmem hc
  refine ⟨⟨hleverage, hsymbol.trans hrow, ?_⟩, hsignal, fun r' hr' hc' => Or.inr ?_⟩
  · obtain ⟨side, htext, hbuy⟩ := hbuy
    rw [hside, Side.ofText?_text] at htext
    cases htext
    exact hbuy
  · rw [hl.row_of_cli hr' hmem (hc'.trans (hcli.trans hc.symm))]
    exact hb

/-- The lookup by the client order id finds a row that is there. -/
theorem found_of_row {db : Database} {cli : String} {r : OrderRow} (hr : r ∈ db.orders.rows)
    (hbroker : r.broker = krakenFutures) (hcli : r.cliOrdId = some cli) :
    db.findOrderIdByCliOrdId krakenFutures cli ≠ none := by
  unfold findOrderIdByCliOrdId
  rw [ne_eq, Option.map_eq_none_iff, List.find?_eq_none]
  intro hnone
  exact hnone r hr (by simp [hbroker, hcli])

theorem named_backfill {db : Database} {r : OrderRow} (hr : r ∈ db.orders.rows) (b : String) :
    Named r.id (db.backfillBrokerOrderId r.id b t) := by
  refine ⟨_, List.mem_map_of_mem hr, Table.key_updateRow _ _ r, ?_⟩
  unfold Table.updateRow
  split
  · rfl
  · rename_i hp
    cases hb : r.brokerOrderId with
    | none => simp [hb] at hp
    | some b => rfl

theorem lookup_answer {ch : Choice} {cli : String} {found : Option ℕ}
    (hs : (sem d.A).step ch (.db (.findOrderIdByCliOrdId krakenFutures cli)) w =
      some (.ok found, w')) : w.db.findOrderIdByCliOrdId krakenFutures cli = found := by
  obtain ⟨db, hrun, -⟩ := opStep_db_ok hs
  exact congrArg Prod.fst (Except.ok.inj (Option.some.inj hrun))

/-- The row of an order, in each state that the tick met. -/
theorem FillProcessed.row (h : FillProcessed d c fill w₀ seg)
    (hc : d.feedCondition.Reaches (initial now) c) (ha : a ∈ w₀.exchange.accepted)
    (hsignal : a.order.signalId.isSome = true) :
    ∃ id s, a.order.cliOrdId = some (signalCliOrdId s) ∧
      ∀ e ∈ seg, ∃ r ∈ e.pre.db.orders.rows, r.id = id ∧ r.broker = krakenFutures ∧
        r.cliOrdId = some (signalCliOrdId s) := by
  obtain ⟨e₀, he₀, rfl⟩ := h.first
  obtain ⟨hl, -, -⟩ := h.met hc he₀
  obtain ⟨r₀, hr₀, hbroker, hrow⟩ := hl.row_of_order ha hsignal
  obtain ⟨s, -, hcr⟩ := hl.cliOrdId hr₀
  refine ⟨r₀.id, s, hrow.symm.trans hcr, fun e he => ?_⟩
  obtain ⟨r, hr, hid, hb, hcli⟩ := (h.since hc he).orderRow hr₀
  exact ⟨r, hr, hid, hb.trans hbroker, hcli.trans hcr⟩

/-- Where no row took the fill of a signal's order at the last try, another broker order id is
on the row. -/
theorem FillProcessed.missed (h : FillProcessed d c fill w₀ seg)
    (hc : d.feedCondition.Reaches (initial now) c) (ha : a ∈ w₀.exchange.accepted)
    (hcli : fill.cliOrdId = a.order.cliOrdId)
    (hseg : seg = pre ++ ⟨w, .db (.applyFillToOrder fill t), .ok none⟩ :: post)
    (hend : SearchEnd d fill pre t post none) (hsignal : a.order.signalId.isSome = true) :
    ¬ RowFree w.db fill := by
  have hpre {e : Ev} (he : e ∈ pre) : e ∈ seg := by simp [hseg, he]
  have hpost {e : Ev} (he : e ∈ post) : e ∈ seg := by simp [hseg, he]
  obtain ⟨id, s, hacli, hrows⟩ := h.row hc ha hsignal
  have hfcli : fill.cliOrdId = some (signalCliOrdId s) := hcli.trans hacli
  cases hend with
  | unknown missed =>
    obtain ⟨w₁, hfind⟩ := missed _ hfcli
    obtain ⟨-, -, ch, w₂, hs⟩ := h.met hc (hpost hfind)
    obtain ⟨r, hr, -, hbroker, hcr⟩ := hrows _ (hpost hfind)
    exact absurd (lookup_answer hs) (found_of_row hr hbroker hcr)
  | @backfilled cli n w₁ w₂ t' hmem hfind hnamed =>
    cases Option.mem_unique hmem hfcli
    -- the row that the lookup found is the row of the order
    obtain ⟨hl₁, -, ch₁, w₁', hs₁⟩ := h.met hc (hpre hfind)
    obtain ⟨r₁, hr₁, hid₁, -, hcr₁⟩ := hrows _ (hpre hfind)
    obtain ⟨r, hr, rfl, -, hcr⟩ := findOrderIdByCliOrdId_some (lookup_answer hs₁)
    have hid : r.id = id := by
      rw [hl₁.row_of_cli hr hr₁ (hcr.trans hcr₁.symm), hid₁]
    -- the backfill left it with an id, and it has one since
    obtain ⟨r₂, hr₂, hid₂, -, -⟩ := hrows _ (hpre hnamed)
    obtain ⟨ch₂, w₂', hs₂, -, hkept⟩ := h.kept hc hseg hnamed
    have hleft : Named id w₂'.db := by
      obtain ⟨db, hrun, rfl⟩ := opStep_db_ok hs₂
      cases hrun
      rw [hid, ← hid₂]
      exact named_backfill hr₂ _
    obtain ⟨r₃, hr₃, hid₃, hsome⟩ := hkept id hleft
    -- so another id than the fill's
    intro hfree
    have hlast : (⟨w, .db (.applyFillToOrder fill t), .ok none⟩ : Ev) ∈ seg := by simp [hseg]
    obtain ⟨-, -, ch, w', hs⟩ := h.met hc hlast
    obtain ⟨r₄, hr₄, hid₄, -, hcr₄⟩ := hrows _ hlast
    cases w.db.orders.eq_of_key_eq hr₃ hr₄ (hid₃.trans hid₄.symm)
    rcases hfree r₃ hr₃ (hcr₄.trans hfcli.symm) with hnone | hfill
    · rw [hnone] at hsome
      cases hsome
    · have htried := named_of_attempt hs
      rw [show (w.db.orderOfBrokerId fill.orderId).isSome = true from
        List.find?_isSome.mpr ⟨r₃, hr₃, decide_eq_true hfill⟩] at htried
      cases htried

end Met

/-! ## Top theorem (proved from the lemmas above) -/

/-- **Which fills reach the positions.**  In every run, let the reconciler come through with a
fill of an accepted order, delivered under the order's client order id and not recorded before,
and let no statement of it fail; the other tasks go on all the while.  The fill is applied to the
position of the order exactly when the order is one for a signal and, at the last try of the order
rows, the signal's row carries no other broker order id; otherwise no position is written. -/
theorem fill_applied_iff {now : Instant} {c : Config}
    (h : d.feedCondition.Reaches (initial now) c) {a : AcceptedOrder} {fill : FillEntry}
    {w₀ : World} {seg : List Ev} (hp : FillProcessed d c fill w₀ seg)
    (ha : a ∈ w₀.exchange.accepted) (hid : fill.orderId = a.brokerOrderId)
    (hcli : fill.cliOrdId = a.order.cliOrdId) :
    ∃ w, LastTry fill seg w ∧
      (AppliedTo fill a.order seg ↔ a.order.signalId.isSome = true ∧ RowFree w.db fill) ∧
      (¬ AppliedTo fill a.order seg → ∀ e ∈ seg, ¬ PositionOp e.op) := by
  obtain ⟨pre, w, t, out, post, hseg, hlast, hend, hnone⟩ := hp.lastTry
  refine ⟨w, ⟨pre, t, .ok out, post, hseg, hlast⟩, ?_⟩
  cases out with
  | none =>
    have hunwritten := hnone rfl
    have hnot : ¬ AppliedTo fill a.order seg := by
      rintro ⟨w₁, sleeve, t', y, hwrite⟩
      exact hunwritten _ hwrite trivial
    refine ⟨iff_of_false hnot ?_, fun _ => hunwritten⟩
    rintro ⟨hsignal, hfree⟩
    exact hp.missed h ha hcli hseg hend hsignal hfree
  | some out =>
    have hmem : (⟨w, .db (.applyFillToOrder fill t), .ok (some out)⟩ : Ev) ∈ seg := by simp [hseg]
    obtain ⟨hl, hn, ch, w', hs⟩ := hp.met h hmem
    obtain ⟨a', ha', -, hb, ho⟩ := (hp.since h hmem).exchange.accepted a ha
    rw [← hb] at hid
    rw [← ho] at hcli ⊢
    obtain ⟨⟨hout, hsymbol, hside⟩, hfree⟩ := taken_row hl hn ha' hid hcli hs
    cases hend with
    | taken sub ends =>
      obtain ⟨w₁, y, hwrite⟩ := updatePosition_ends ends hout.sleeve
      rw [hsymbol, hout.broker, hside] at hwrite
      have happlied : AppliedTo fill a'.order seg := by
        refine ⟨w₁, "crypto_leverage", t, y, ?_⟩
        rw [hseg]
        exact List.mem_append_right _ (List.mem_cons_of_mem _ (sub hwrite))
      exact ⟨iff_of_true happlied hfree, fun hnot => absurd happlied hnot⟩

/-- The exchange accepts the entry and reports its fill while the call is open; the tick looks for
the order, the call returns and the processor puts the order id under the row, and the tick goes
on. -/
def crossedRun : List sampleDaemon.system.Label :=
  openCallRun ++ [.start .reconciler] ++ smooth .reconciler 6 ++
    [.act .processor (.answered "placed")] ++ smooth .processor 2 ++ smooth .reconciler 10

/-- The tick has ended well after these events, and took the fill. -/
def tookIn (fill : FillEntry) (c : Config) : Bool :=
  match c.pass .reconciler with
  | some ⟨.ret (.ok ()), ⟨_, .readFills, ring⟩ :: ⟨_, .lastAppliedSeq, watermark⟩ :: _ :: _⟩ =>
    ring.fills.any fun f => decide (f = fill) && decide (watermark < fill.seq)
  | _ => false

/-- The event found the fill to be recorded. -/
def foundRecorded : Ev → Bool
  | ⟨_, .db (.hasFillBeenApplied ..), .ok true⟩ => true
  | _ => false

theorem processed_of_tookIn {c : Config} {fill : FillEntry}
    (h : d.feedCondition.Reaches (initial sampleTime) c) (htook : tookIn fill c = true)
    (hfine : ∀ e ∈ c.events .reconciler, dbFailed e = false ∧ foundRecorded e = false) :
    ∃ w₀ seg, FillProcessed d c fill w₀ seg := by
  unfold tookIn at htook
  split at htook
  case h_2 => cases htook
  rename_i w ring w' watermark e rest hp
  obtain ⟨f, hf, hboth⟩ := List.any_eq_true.mp htook
  obtain ⟨hsame, hnew⟩ := Bool.and_eq_true_iff.mp hboth
  cases of_decide_eq_true hsame
  have hends : Fallible.Ends (⟨w, .readFills, ring⟩ :: ⟨w', .lastAppliedSeq, watermark⟩ :: e ::
      rest) d.reconcileOnce (.ok ()) := System.leads_of_reaches h rfl hp
  have hevents : c.events .reconciler =
      ⟨w, .readFills, ring⟩ :: ⟨w', .lastAppliedSeq, watermark⟩ :: e :: rest := by
    unfold Config.events
    rw [hp]
    rfl
  rcases reconcileOnce_ends hends with hshort | ⟨_, _, _, _, _, heq, htaken⟩
  · simp at hshort
  cases heq
  obtain ⟨seg, hsub, hseg⟩ := htaken fill hf (of_decide_eq_true hnew)
  have htick : seg <:+: c.events .reconciler := by
    rw [hevents]
    exact hsub.trans ((List.suffix_cons _ _).trans (List.suffix_cons _ _)).isInfix
  obtain ⟨w₀, t, w₁, applied, tail, rfl, -, -⟩ := reconcileFill_ends hseg
  cases applied with
  | true => cases (hfine _ (htick.subset (List.mem_cons_of_mem _ List.mem_cons_self))).2
  | false =>
    exact ⟨w₀, _, htick, rfl, hseg, ⟨w₁, List.mem_cons_of_mem _ List.mem_cons_self⟩,
      fun e he => (hfine e (htick.subset he)).1⟩

/-- The processor's record and the tick's backfill cross, with the same broker order id. -/
theorem fill_applied_iff_sample :
    ∃ c a w₀ seg w, sampleDaemon.feedCondition.Reaches (initial sampleTime) c ∧
      FillProcessed sampleDaemon c sampleFill w₀ seg ∧ a ∈ w₀.exchange.accepted ∧
      LastTry sampleFill seg w ∧ (AppliedTo sampleFill a.order seg ↔
        a.order.signalId.isSome = true ∧ RowFree w.db sampleFill) := by
  have hrun : ((sampleDaemon.feedCondition.runTested crossedRun (initial sampleTime)).any fun c =>
      tookIn sampleFill c && (Config.events c .reconciler).all fun e =>
        !dbFailed e && !foundRecorded e && e.pre.exchange.accepted.any fun a =>
          decide (sampleFill.orderId = a.brokerOrderId ∧
            sampleFill.cliOrdId = a.order.cliOrdId)) = true := by decide +kernel
  obtain ⟨c, hc, hp⟩ := reaches_of_test hrun
  obtain ⟨htook, hall⟩ := Bool.and_eq_true_iff.mp hp
  have hevents : ∀ e ∈ Config.events c .reconciler, (dbFailed e = false ∧ foundRecorded e = false) ∧
      ∃ a ∈ e.pre.exchange.accepted, sampleFill.orderId = a.brokerOrderId ∧
        sampleFill.cliOrdId = a.order.cliOrdId := by
    intro e he
    simpa using List.all_eq_true.mp hall e he
  obtain ⟨w₀, seg, hdone⟩ := processed_of_tookIn hc htook fun e he => (hevents e he).1
  obtain ⟨e, he, rfl⟩ := hdone.first
  obtain ⟨-, a, ha, hid, hcli⟩ := hevents e (hdone.tick.subset he)
  obtain ⟨w, hlast, hiff, -⟩ := fill_applied_iff hc hdone ha hid hcli
  exact ⟨c, a, e.pre, seg, w, hc, hdone, ha, hlast, hiff⟩

/-! ### A panic close -/

/-- The exchange shows a loss of one BTC on the open position. -/
def lossAccounts : AccountsResponse := ⟨.parsed ⟨0, -1⟩, .parsed ⟨100000⟩⟩

/-- The entry is filled, and the next equity snapshot carries the loss. -/
def lossRun : List sampleDaemon.system.Label :=
  fillRun ++ [.start .equityWriter, .act .equityWriter .ok,
    .act .equityWriter (.accounts (.ok lossAccounts))] ++ smooth .equityWriter 3 ++
    [.finish .equityWriter]

/-- The fill of the whole panic close. -/
def panicFill : FillEntry :=
  ⟨perpSymbol, 45000, 2, false, 110, "order-1", "fill-2", 0, some (panicCliOrdId 1 sampleTime)⟩

/-- The supervisor panic-closes the position, the exchange executes the order, and a tick
without failures processes its fill. -/
def panicRun : List sampleDaemon.system.Label :=
  lossRun ++ [.start .supervisor] ++ smooth .supervisor 9 ++
    [.env (.accept 1), .act .supervisor (.answered "placed"), .finish .supervisor,
      .env (.execute "order-1" 110), .env (.fillsUpdate [panicFill]), .start .reconciler] ++
    smooth .reconciler 8 ++ [.finish .reconciler]

/-- The panic close is fully executed, its fill is recorded, and the position is still open. -/
theorem panic_fill_not_applied :
    ∃ c, ∃ a ∈ c.state.exchange.accepted, ∃ r ∈ c.state.db.positions.rows,
      sampleDaemon.feedCondition.Reaches (initial sampleTime) c ∧
      a.order.signalId = none ∧ a.executed = a.order.quantity ∧
      panicFill.orderId = a.brokerOrderId ∧ panicFill.cliOrdId = a.order.cliOrdId ∧
      panicFill.qty = a.order.quantity ∧
      c.state.db.hasFillBeenApplied krakenFutures panicFill.fillId = true ∧
      c.state.timesPositioned panicFill.fillId = 0 ∧ r.sleeve = "crypto_leverage" ∧
      r.closedAt = none ∧ r.quantity = 110 := by
  have hrun : ((sampleDaemon.feedCondition.runTested panicRun (initial sampleTime)).any fun c =>
      (c.state.exchange.accepted.any fun a => decide (a.order.signalId = none ∧
        a.executed = a.order.quantity ∧ panicFill.orderId = a.brokerOrderId ∧
        panicFill.cliOrdId = a.order.cliOrdId ∧ panicFill.qty = a.order.quantity)) &&
      (c.state.db.positions.rows.any fun r => decide (r.sleeve = "crypto_leverage" ∧
        r.closedAt = none ∧ r.quantity = 110)) &&
      decide (c.state.db.hasFillBeenApplied krakenFutures panicFill.fillId = true ∧
        c.state.timesPositioned panicFill.fillId = 0)) = true := by decide +kernel
  obtain ⟨c, hc, hp⟩ := reaches_of_test hrun
  obtain ⟨hp, hfill⟩ := Bool.and_eq_true_iff.mp hp
  obtain ⟨horder, hposition⟩ := Bool.and_eq_true_iff.mp hp
  obtain ⟨a, ha, hpanic⟩ := List.any_eq_true.mp horder
  obtain ⟨r, hr, hopen⟩ := List.any_eq_true.mp hposition
  obtain ⟨hnone, hexecuted, hid, hcli, hqty⟩ := of_decide_eq_true hpanic
  obtain ⟨hrecorded, hnever⟩ := of_decide_eq_true hfill
  exact ⟨c, a, ha, r, hr, hc, hnone, hexecuted, hid, hcli, hqty, hrecorded, hnever,
    of_decide_eq_true hopen⟩

end Daemon

end RazorTrade
