import Mathlib.Algebra.BigOperators.Group.Finset.Basic
import Mathlib.Tactic.Linarith
import RazorTrade.Daemon.GateTiming
import RazorTrade.Daemon.PanicRounds
import RazorTrade.Daemon.TickCompleteness

/-! # After a hard stop

A hard stop closes the open positions and looks at nothing else.  An entry that rests at the
exchange, an order whose call ended in doubt and was accepted all the same, and a pass of the
processor that is behind the gate all outlive it, and a fill of theirs raises the exposure again
(`reopened_after_stop`).

Once nothing of a signal is under way (`Settled`), nothing gets under way until the operator
resolves the event: a call that reads the flag finds it up, and a fill that is reported again is
recorded.

  `settled_step` :  what a step keeps while the event is unresolved
  `stays_flat`   :  from then on no fill opens, increases or flips a leverage position -/

namespace RazorTrade

open Interaction Relational Database DaemonM Fallible

/-- The fills of a broker order that orders took, as ids and quantities. -/
def World.takenOf (w : World) (brokerOrderId : String) : Finset (String × ℚ) :=
  ((w.orderTakes.filter fun x => x.fill.orderId = brokerOrderId).map
    fun x => (x.fill.fillId, x.fill.qty)).toFinset

/-- A fill is an execution of its order, beyond those that were taken under other ids. -/
def FillExecuted (w : World) (f : FillEntry) : Prop :=
  0 < f.qty ∧ ∀ a ∈ w.exchange.accepted, a.brokerOrderId = f.orderId →
    ∑ x ∈ insert (f.fillId, f.qty) (w.takenOf f.orderId), x.2 ≤ a.executed

/-- What the broker does: the feed reports executions, under the client order id of their order. -/
def BrokerOk (w : World) (a : Act) : Prop :=
  ∀ f ∈ a.fills, FillNamesOrder w.exchange f ∧ FillExecuted w f

def Act.resolves (n : ℕ) : Act → Bool
  | .resolveKillSwitch id _ => id = n
  | _ => false

/-- The reads of the kill-switch flag. -/
def readsFlag : Op → Bool
  | .db .killSwitchActive => true
  | _ => false

def flagReads (es : List Ev) : List Ev := es.filter fun e => readsFlag e.op

/-- The program may send an order before it reads the flag again. -/
def PastGate (p : Prog Op Ans (Except String Unit)) : Prop :=
  ∃ es order k, Leads es p (.op (.sendOrder order) k) ∧ flagReads es = []

/-- The exchange accepted an order for a signal under the id. -/
def OfSignal (w : World) (brokerOrderId : String) : Prop :=
  ∃ a ∈ w.exchange.accepted, a.brokerOrderId = brokerOrderId ∧ a.order.signalId.isSome = true

/-- No order for a signal is on its way to the exchange. -/
def NoSignalInFlight (e : Exchange) : Prop :=
  ∀ m ∈ e.inFlight, ∀ order, e.requests[m]? = some order → order.signalId = none

/-- The orders for signals are closed, and orders took all that was executed of them. -/
def SignalsClosed (w : World) : Prop :=
  ∀ a ∈ w.exchange.accepted, a.order.signalId.isSome = true →
    a.isOpen = false ∧ a.executed ≤ ∑ x ∈ w.takenOf a.brokerOrderId, x.2

/-- The kill-switch event is there and unresolved. -/
def EventOpen (n : ℕ) (w : World) : Prop :=
  ∃ r ∈ w.db.killSwitchEvents.rows, r.id = n ∧ r.resolvedAt = none

/-- The commit opens, increases or flips a leverage position. -/
def Commit.raisesExposure : Commit → Bool
  | ⟨.applyFillToPosition _ _ _ sleeve _ _, y⟩ =>
    sleeve = "crypto_leverage" &&
      (y.transition = .opened || y.transition = .added || y.transition = .flipped)
  | _ => false

instance (w : World) (f : FillEntry) : Decidable (FillExecuted w f) :=
  inferInstanceAs (Decidable (_ ∧ ∀ a ∈ w.exchange.accepted, _))

instance BrokerOk.decidable (w : World) (a : Act) : Decidable (BrokerOk w a) :=
  inferInstanceAs (Decidable (∀ f ∈ a.fills, _))

namespace Daemon

variable (d : Daemon)

def brokerCondition : d.system.Condition where
  env w a := BrokerOk w a

instance : d.brokerCondition.Testable where
  act _ _ _ _ := inferInstanceAs (Decidable True)
  finish _ _ _ := inferInstanceAs (Decidable True)
  env w a := BrokerOk.decidable w a
  restart _ := inferInstanceAs (Decidable True)

/-- … and the operator does not resolve the event. -/
def unresolvedCondition (n : ℕ) : d.system.Condition where
  env w a := BrokerOk w a ∧ a.resolves n = false

instance (n : ℕ) : (d.unresolvedCondition n).Testable where
  act _ _ _ _ := inferInstanceAs (Decidable True)
  finish _ _ _ := inferInstanceAs (Decidable True)
  env w a := @instDecidableAnd _ _ (BrokerOk.decidable w a) (instDecidableEqBool _ _)
  restart _ := inferInstanceAs (Decidable True)

/-- A hard trigger is unresolved, and the orders that its panic close sent have filled. -/
structure HardStopped (n : ℕ) (c : Config) : Prop where
  event : ∃ r ∈ c.state.db.killSwitchEvents.rows, r.id = n ∧ likeHard r.reasonKind = true ∧
    r.resolvedAt = none
  filled : ∀ m order, c.state.exchange.requests[m]? = some order →
    (∃ t, order.cliOrdId = some (panicCliOrdId n t)) →
      ∃ a ∈ c.state.exchange.accepted, a.request = m ∧ a.executed = order.quantity

/-- Nothing of a signal is under way: no call of the processor is behind the gate, no order is on
its way to the exchange or open there, and the executions are all reported and recorded. -/
structure Settled (c : Config) : Prop where
  gate : ∀ p, c.pass .processor = some p → ¬ PastGate p.rest
  flight : NoSignalInFlight c.state.exchange
  closed : SignalsClosed c.state
  taken : ∀ x ∈ c.state.orderTakes, c.state.recorded x.fill = true
  shown : ∀ f ∈ c.state.fills.fills, OfSignal c.state f.orderId → c.state.recorded f = true
  read : ∀ p, c.pass .reconciler = some p → ∀ w ring, (⟨w, .readFills, ring⟩ : Ev) ∈ p.events →
    ∀ f ∈ ring.fills, OfSignal c.state f.orderId → c.state.recorded f = true

end Daemon

/-! ## The gate reads the flag once -/

namespace Daemon

section Flag

variable {d : Daemon} {es es' : List Ev} {o : Op} {signal : Signal} {α : Type}

theorem flagReads_append : flagReads (es ++ es') = flagReads es ++ flagReads es' :=
  List.filter_append ..

theorem flagReads_cons (e : Ev) (h : readsFlag e.op = false) :
    flagReads (e :: es) = flagReads es := by
  simp [flagReads, h]

theorem flagReads_of_all {p : DaemonM α} (hp : All (fun o => readsFlag o = false) p)
    {q : Prog Op Ans (Except String α)} (h : Leads es p.run q) : flagReads es = [] := by
  refine List.filter_eq_nil_iff.mpr fun e he => ?_
  rw [(all_of_leads hp h).1 e he]
  exact Bool.false_ne_true

theorem readsFlag_of_feedOp (o : Op) (h : FeedOp o) : readsFlag o = false := by
  unfold FeedOp at h
  split at h
  case h_5 => exact h.elim
  all_goals rfl

theorem readsFlag_of_signalOp (o : Op) (h : SignalOp o) : readsFlag o = false := by
  unfold readsFlag
  split
  · exact h.elim
  · rfl

theorem latestOrBootstrap_noFlag (t : Instant) :
    All (fun o => readsFlag o = false) (latestOrBootstrap t) := by
  refine all_bind (all_dbContext _ rfl) fun found => ?_
  split
  · exact all_pure _
  · refine all_bind (all_dbContext _ rfl) fun _ => all_bind (all_db rfl) fun latest => ?_
    split
    · exact all_pure _
    · exact all_throw _

/-- The loader reads the flag that it reports, and reads it once. -/
theorem loadPortfolioState_flagReads {t : Instant} {portfolio : PortfolioState}
    (h : Ends es (loadPortfolioState t) (.ok portfolio)) :
    ∃ w, flagReads es = [⟨w, .db .killSwitchActive, .ok portfolio.killSwitchActive⟩] := by
  obtain ⟨es₁, es₂, snap, rfl, hsnap, h₁⟩ := ends_bind h
  obtain ⟨es₃, es₄, flag, rfl, hflag, h₂⟩ := ends_bind h₁
  obtain ⟨es₅, es₆, raw, rfl, hraw, h₃⟩ := ends_bind h₂
  obtain ⟨es₇, es₈, positions, rfl, hpositions, h₄⟩ := ends_bind h₃
  obtain ⟨rfl, hp⟩ := ends_pure h₄
  cases hp
  obtain ⟨w, rfl⟩ := ends_dbContext hflag
  refine ⟨w, ?_⟩
  rw [flagReads_append, flagReads_of_all (latestOrBootstrap_noFlag t) hsnap, flagReads_append,
    flagReads_append, flagReads_append, flagReads_of_all (all_dbContext _ rfl) hraw,
    flagReads_of_all (all_orReturn _ _) hpositions]
  rfl

theorem judgeSignal_flagReads (h : Issues es (d.judgeSignal signal) o) (ho : ¬ GateOp o) :
    ∃ e, flagReads es = [e] := by
  obtain ⟨pre, w, t, load, post, market, portfolio, rfl, hsnap, hload, hlast⟩ :=
    judgeSignal_parts h ho
  obtain ⟨w', hread⟩ := loadPortfolioState_flagReads hload
  obtain ⟨k, hlast⟩ := hlast
  refine ⟨⟨w', .db .killSwitchActive, .ok portfolio.killSwitchActive⟩, ?_⟩
  rw [flagReads_append, flagReads_of_all
      (all_mono readsFlag_of_feedOp (d.snapshotForSignal_all _ _)) hsnap, flagReads_cons _ rfl,
    flagReads_append, hread,
    flagReads_of_all (all_mono readsFlag_of_signalOp d.evaluateSignal_all) hlast]
  rfl

/-- **One call**, up to what it submits, reads the flag once. -/
theorem processSignal_flagReads {row : SignalRow} (h : Issues es (d.processSignal row) o)
    (ho : ¬ GateOp o) : ∃ e, flagReads es = [e] := by
  unfold processSignal at h
  split at h
  · exact absurd (issues_all (reject_gateOp _ _) h) ho
  split at h
  · exact judgeSignal_flagReads h ho
  obtain ⟨w, t, es₁, rfl, h₁⟩ := judge_now h ho
  split at h₁
  · obtain ⟨-, rfl⟩ := issues_db_last h₁
    exact (ho (gateOp_of_settleOp _ trivial)).elim
  · rw [flagReads_cons _ rfl]
    exact judgeSignal_flagReads h₁ ho

/-- **The last read before a send** found the flag down. -/
theorem lastFlag_of_send {order : Order} (h : Issues es d.pollOnce (.sendOrder order)) :
    ∃ w, (flagReads es).getLast? = some ⟨w, .db .killSwitchActive, .ok false⟩ := by
  obtain ⟨row, pre, call, -, -, -, rfl, -, -, hcall⟩ :=
    pollOnce_issues h (behind_gate rfl)
  obtain ⟨e, hone⟩ := processSignal_flagReads hcall (behind_gate rfl)
  obtain ⟨signal, market, portfolio, gate, post, rfl, hcleared, hpost⟩ :=
    processSignal_issues hcall (behind_gate rfl)
  obtain ⟨w, hmem⟩ := flag_down_of_cleared hcleared (sleeve_of_send hpost)
  have hread : (⟨w, .db .killSwitchActive, .ok false⟩ : Ev) ∈ flagReads (gate ++ post) :=
    List.mem_filter.mpr ⟨List.mem_append_left _ hmem, rfl⟩
  rw [hone, List.mem_singleton] at hread
  refine ⟨w, ?_⟩
  rw [flagReads_append, hone, hread]
  exact List.getLast?_concat ..

/-- A pass begins in front of the gate. -/
theorem not_pastGate_start : ¬ PastGate (d.program .processor) := by
  rintro ⟨es, order, k, h, hnone⟩
  obtain ⟨w, hlast⟩ := lastFlag_of_send (d := d) ⟨k, h⟩
  rw [hnone] at hlast
  cases hlast

/-- A step leads behind the gate only when it reads the flag and finds it down. -/
theorem not_pastGate_act {k : Ans o → Prog Op Ans (Except String Unit)} {w : World} {x : Ans o}
    (hp : Leads es (d.program .processor) (.op o k)) (h : ¬ PastGate (.op o k))
    (hup : ∀ w', (⟨w, o, x⟩ : Ev) ≠ ⟨w', .db .killSwitchActive, .ok false⟩) :
    ¬ PastGate (k x) := by
  rintro ⟨es', order, k', h', hnone⟩
  by_cases hread : readsFlag o = true
  · obtain ⟨w', hlast⟩ := lastFlag_of_send (d := d) ⟨k', leads_append (leads_snoc hp) h'⟩
    have hone : flagReads [(⟨w, o, x⟩ : Ev)] = [⟨w, o, x⟩] := by simp [flagReads, hread]
    rw [flagReads_append, hnone, List.append_nil, flagReads_append, hone,
      List.getLast?_concat] at hlast
    exact hup w' (Option.some.inj hlast)
  · refine h ⟨⟨w, o, x⟩ :: es', order, k', leads_cons.mpr ⟨k, rfl, h'⟩, ?_⟩
    rw [flagReads_cons _ (by simpa using hread), hnone]

/-- In front of the gate the next operation is no send. -/
theorem not_send_of_gate {order : Order} {k : Ans (.sendOrder order) → Prog Op Ans _}
    (h : ¬ PastGate (.op (.sendOrder order) k)) : False :=
  h ⟨[], order, k, leads_nil.mpr rfl, rfl⟩

end Flag

end Daemon

/-! ## What a tick takes -/

/-- What takes a fill finds it unrecorded; a position takes only what an order took. -/
def TakesUnrecorded (w : World) : Op → Prop
  | .db (.applyFillToOrder fill _) => w.recorded fill = false
  | .db (.applyFillToPosition fill ..) =>
    w.recorded fill = false ∧ ∃ x ∈ w.orderTakes, x.fill = fill
  | _ => True

def UnrecordedAt : FillPhase → World → Prop
  | .fresh fill, w => w.recorded fill = false
  | .taken fill _, w => w.recorded fill = false ∧ ∃ x ∈ w.orderTakes, x.fill = fill
  | _, _ => True

theorem UnrecordedAt.frame {φ : FillPhase} {w w' : World} (h : UnrecordedAt φ w)
    (hw : SameFills w w') : UnrecordedAt φ w' := by
  cases φ with
  | fresh fill => exact (recorded_congr hw.applied fill).trans h
  | taken fill out =>
    refine ⟨(recorded_congr hw.applied fill).trans h.1, ?_⟩
    rw [hw.orders]
    exact h.2
  | _ => trivial

namespace Daemon

variable {d : Daemon} {now : Instant} {c c' : Config} {es tr : List Ev} {w w' : World}
variable {fill : FillEntry}

def unrecordedProof (d : Daemon) :
    FillProof d (d.brokerCondition.act .reconciler) TakesUnrecorded where
  At := UnrecordedAt
  frame := UnrecordedAt.frame
  allowed := by
    intro w o ho
    unfold TakesUnrecorded
    split
    · exact absurd trivial ho
    · exact absurd trivial ho
    · trivial
  unrecorded := fun _ h => h
  leave := fun _ => trivial
  abandon := fun _ => trivial
  noSleeve := fun _ _ => trivial
  order := by
    refine fun h => ⟨h, fun c out w' _ hs => ?_⟩
    obtain ⟨horders, -, happlied⟩ := order_takes hs
    refine ⟨(recorded_congr happlied _).trans h, ?_⟩
    rw [horders]
    exact ⟨_, List.mem_append_right _ (List.mem_singleton_self _), rfl⟩
  position := fun h _ => ⟨h, fun _ _ => ⟨fun _ _ _ => trivial, fun _ _ _ => trivial⟩⟩
  record := fun _ => ⟨trivial, fun _ _ _ _ _ => trivial⟩

/-- What the reconciler is about to take is not recorded. -/
theorem takes_unrecorded (h : d.brokerCondition.Reaches (initial now) c) {o : Op}
    {k : Ans o → Prog Op Ans (Except String Unit)}
    (hp : c.pass .reconciler = some ⟨.op o k, tr⟩) : TakesUnrecorded c.state o := by
  have hover := (unrecordedProof d).validOver (C := d.brokerCondition)
    (fun _ _ _ _ => trivial) (fun h _ => h) fun h _ => ⟨h, trivial⟩
  have hidle : ∀ i, (fillContract (fun _ => True) (UnrecordedAt .idle) TakesUnrecorded).Idle i
      (World.initial now) := by
    intro i
    cases i <;> trivial
  have hstart := Contract.holds_idle (C := d.brokerCondition) (K := d.contract.and
    (fillContract (fun _ => True) (UnrecordedAt .idle) TakesUnrecorded))
    (s := World.initial now) ⟨linked_initial now, trivial⟩ fun i => ⟨trivial, hidle i⟩
  exact (Contract.guarantee_of_reaches ((contract_valid d.brokerCondition).and hover) hstart h hp).2

/-- The orders that a tick lets take a fill, it lets take the one at hand. -/
theorem reconcileFill_fill (fill : FillEntry) :
    All (fun o => ∀ f t, o = .db (.applyFillToOrder f t) → f = fill) (d.reconcileFill fill) := by
  have hplain {o : Op} (ho : ∀ f t, o ≠ .db (.applyFillToOrder f t)) :
      ∀ f t, o = .db (.applyFillToOrder f t) → f = fill := fun f t he => absurd he (ho f t)
  have htake (t : String) : ∀ f t', Op.db (.applyFillToOrder fill t) =
      .db (.applyFillToOrder f t') → f = fill := by
    intro f t' he
    cases he
    rfl
  have hposition (t : String) (out : OrderFillOutcome) :
      All (fun o => ∀ f t, o = .db (.applyFillToOrder f t) → f = fill)
        (d.updatePosition fill t out) := by
    unfold updatePosition
    split
    · exact all_pure _
    · refine all_bind (all_db (hplain (by simp))) fun _ => ?_
      split
      · refine all_bind (all_attempt (all_mono (fun o ho => hplain ?_)
          d.evaluateKillSwitchOnce_all)) fun _ => all_pure _
        rintro f t rfl
        exact ho
      · exact all_pure _
  have hbackfill (t : String) : All (fun o => ∀ f t, o = .db (.applyFillToOrder f t) → f = fill)
      (backfillByCliOrdId fill t) := by
    refine all_mono (fun o ho => hplain ?_) (backfillByCliOrdId_noWrite fill t)
    rintro f t rfl
    exact ho trivial
  have hrecord (t : String) : All (fun o => ∀ f t, o = .db (.applyFillToOrder f t) → f = fill)
      (recordFill fill t) :=
    all_recordFill fill t (fun _ _ => hplain (by simp)) (hplain (by simp))
  refine all_bind (all_nowIso (hplain (by simp))) fun t => ?_
  refine all_bind (all_db (hplain (by simp))) fun applied => ?_
  split
  · exact all_perform (hplain (by simp))
  refine all_bind (all_db (htake t)) fun out => ?_
  split
  · exact all_bind (hposition t _) fun _ => hrecord t
  refine all_bind (all_bind (hbackfill t) fun found => ?_) fun _ => hrecord t
  split
  · refine all_bind (all_db (htake t)) fun out => ?_
    split
    · exact hposition t _
    · exact all_pure _
  · exact all_pure _

/-- A fill that a tick lets an order take is one of the ring that the tick read. -/
theorem tick_reads {t : String} (h : Issues es d.reconcileOnce (.db (.applyFillToOrder fill t))) :
    ∃ w ring, (⟨w, .readFills, ring⟩ : Ev) ∈ es ∧ fill ∈ ring.fills := by
  rcases issues_perform_bind h with ⟨-, he⟩ | ⟨w, ring, es₁, rfl, h₁⟩
  · cases he
  refine ⟨w, ring, List.mem_cons_self, ?_⟩
  split at h₁
  · exact absurd h₁ (not_issues_pure _)
  rcases issues_perform_bind h₁ with ⟨-, he⟩ | ⟨w₁, watermark, es₂, rfl, h₂⟩
  · cases he
  split at h₂
  · exact absurd h₂ (not_issues_pure _)
  obtain ⟨f, hf, pre, seg, rfl, hfill⟩ := issues_forM h₂
  rw [issues_all (reconcileFill_fill f) hfill fill t rfl]
  exact List.mem_of_mem_filter hf

/-- A row that names a broker order is the row of a signal's order. -/
theorem ofSignal_of_named {r : OrderRow} {b : String} (h : NamesAccepted w) (hl : d.Linked w)
    (hr : r ∈ w.db.orders.rows) (hb : r.brokerOrderId = some b) : OfSignal w b := by
  obtain ⟨a, ha, hid, cols, hcols, hc⟩ := h.rows r hr b hb
  obtain ⟨s, sig, hs, -, -⟩ := hl.signal_of_row ha hcols hc
  exact ⟨a, ha, hid, by rw [hs]; rfl⟩

end Daemon

/-! ## What is under way -/

section World

variable {A : Arith} {ch : Choice} {o : Op} {w w' : World} {x : Ans o} {n : ℕ} {b : String}
variable {f : FillEntry} {a : Act}

theorem takenOf_congr (h : w'.orderTakes = w.orderTakes) (b : String) :
    w'.takenOf b = w.takenOf b := by
  unfold World.takenOf
  rw [h]

theorem eventOpen_step (h : EventOpen n w) (hs : (sem A).step ch o w = some (x, w')) :
    EventOpen n w' := by
  obtain ⟨r, hr, hid, hopen⟩ := h
  exact ⟨r, keepsUnresolved_step hs r hr hopen, hid, hopen⟩

theorem eventOpen_act (h : EventOpen n w) (hn : a.resolves n = false)
    (ha : actStep a w = some w') : EventOpen n w' := by
  obtain ⟨r, hr, hid, hopen⟩ := h
  by_cases hresolve : ∃ id t, a = .resolveKillSwitch id t
  · obtain ⟨id, t, rfl⟩ := hresolve
    cases ha
    have hne : ¬ r.id = id := by
      rintro rfl
      exact of_decide_eq_false hn hid
    refine ⟨r, List.mem_map.mpr ⟨r, hr, ?_⟩, hid, hopen⟩
    unfold Table.updateRow
    rw [if_neg (by simpa using hne)]
  · refine ⟨r, keepsUnresolved_act ha (fun id t he => hresolve ⟨id, t, he⟩) r hr hopen,
      hid, hopen⟩

theorem recorded_step (h : w.recorded f = true) (hs : (sem A).step ch o w = some (x, w')) :
    w'.recorded f = true := by
  rcases step_db hs with hdb | ⟨q, y, rfl, hrun⟩
  · exact (recorded_congr (by rw [hdb]) f).trans h
  by_cases hq : q.writes = some .appliedFills
  · cases q with
    | recordFillApplied broker fillId t =>
      have hdb : w'.db = w.db.recordFillApplied broker fillId t :=
        (congrArg Prod.snd (Except.ok.inj (Option.some.inj hrun))).symm
      unfold World.recorded hasFillBeenApplied at h ⊢
      rw [hdb]
      unfold recordFillApplied
      split
      · exact h
      · rw [List.any_append, h]
        rfl
    | _ => cases hq
  · exact (recorded_congr ((DbOp.run_sameExcept hrun).appliedFills hq) f).trans h

theorem ofSignal_step (h : OfSignal w' b) (hs : (sem A).step ch o w = some (x, w')) :
    OfSignal w b := by
  unfold OfSignal at h ⊢
  rcases step_exchange hs with ⟨-, haccepted⟩ | ⟨order, -, -, he⟩
  · rwa [haccepted] at h
  · rw [he] at h
    exact h

/-- What is in flight after an operation was before, or is the order that it sends. -/
theorem flight_step (h : NoSignalInFlight w.exchange)
    (ho : ∀ order, o = .sendOrder order → order.signalId = none)
    (hs : (sem A).step ch o w = some (x, w')) : NoSignalInFlight w'.exchange := by
  have hstep : opStep A ch o w = some (x, w') := hs
  cases o with
  | db q => rcases opStep_db hstep with ⟨e, -, rfl⟩ | ⟨r, db, -, -, rfl⟩ <;> exact h
  | sendOrder order =>
    obtain ⟨-, rfl⟩ := inMemory_eq hstep
    intro m hm order' horder'
    by_cases hlt : m < w.exchange.requests.length
    · rcases List.mem_append.mp hm with hold | hnew
      · exact h m hold order' (by rwa [Exchange.send, List.getElem?_append_left hlt] at horder')
      · rw [List.mem_singleton.mp hnew] at hlt
        exact absurd hlt (Nat.lt_irrefl _)
    · rw [Exchange.send, List.getElem?_append_right (Nat.le_of_not_lt hlt)] at horder'
      cases List.mem_singleton.mp (List.mem_of_getElem? horder')
      exact ho order rfl
  | awaitAnswer m =>
    rcases awaitStep_eq hstep with rfl | rfl
    · exact h
    · exact fun m' hm' => h m' (List.mem_of_mem_filter hm')
  | getOrderByCliOrdId cli =>
    rw [(lookupStep_eq hstep).1]
    exact h
  | getAccounts =>
    rw [accountsStep_eq hstep]
    exact h
  | panic => cases hstep
  | _ =>
    rw [(inMemory_eq hstep).2]
    exact h

theorem closed_step (h : SignalsClosed w) (htakes : w'.orderTakes = w.orderTakes)
    (hs : (sem A).step ch o w = some (x, w')) : SignalsClosed w' := by
  have haccepted : w'.exchange.accepted = w.exchange.accepted := by
    rcases step_exchange hs with ⟨-, haccepted⟩ | ⟨order, -, -, he⟩
    · exact haccepted
    · rw [he]
      rfl
  intro acc hacc hsignal
  rw [haccepted] at hacc
  rw [takenOf_congr htakes]
  exact h acc hacc hsignal

/-- An accepted request was in flight. -/
theorem inFlight_of_accept {m : ℕ} {e e' : Exchange} (h : e.accept m = some e') :
    m ∈ e.inFlight := by
  unfold Exchange.accept at h
  split at h
  · assumption
  · cases h

/-- **What the broker does** while nothing of a signal is under way: the orders for signals stay
as they are. -/
theorem exchange_act (hflight : NoSignalInFlight w.exchange) (hclosed : SignalsClosed w)
    (ha : actStep a w = some w') :
    NoSignalInFlight w'.exchange ∧ SignalsClosed w' ∧ ∀ b, OfSignal w' b → OfSignal w b := by
  cases a with
  | accept m =>
    obtain ⟨e, he, rfl⟩ := Option.map_eq_some_iff.mp ha
    obtain ⟨order, horder, rfl⟩ := Exchange.accept_some he
    have hnone : order.signalId = none := hflight m (inFlight_of_accept he) order horder
    have hold {acc : AcceptedOrder} (hacc : acc ∈ w.exchange.accepted ++
        [⟨m, Exchange.freshOrderId m, order, 0, true⟩])
        (hsignal : acc.order.signalId.isSome = true) : acc ∈ w.exchange.accepted := by
      rcases List.mem_append.mp hacc with hacc | hacc
      · exact hacc
      · rw [List.mem_singleton.mp hacc, hnone] at hsignal
        cases hsignal
    refine ⟨fun m' hm' => hflight m' (List.mem_of_mem_filter hm'), ?_, ?_⟩
    · exact fun acc hacc hsignal => hclosed acc (hold hacc hsignal) hsignal
    · exact fun b ⟨acc, hacc, hid, hsignal⟩ => ⟨acc, hold hacc hsignal, hid, hsignal⟩
  | execute b q =>
    cases ha
    have hsame {acc : AcceptedOrder} (hacc : acc ∈ (w.exchange.execute b q).accepted)
        (hsignal : acc.order.signalId.isSome = true) : acc ∈ w.exchange.accepted := by
      obtain ⟨acc₀, hacc₀, rfl⟩ := List.mem_map.mp hacc
      split at hsignal
      · rename_i hopen
        rw [(hclosed acc₀ hacc₀ hsignal).1] at hopen
        cases hopen.2
      · rename_i hshut
        rw [if_neg hshut]
        exact hacc₀
    refine ⟨hflight, fun acc hacc hsignal => hclosed acc (hsame hacc hsignal) hsignal, ?_⟩
    exact fun b' ⟨acc, hacc, hid, hsignal⟩ => ⟨acc, hsame hacc hsignal, hid, hsignal⟩
  | cancel b =>
    cases ha
    refine ⟨hflight, fun acc hacc hsignal => ?_, ?_⟩
    · obtain ⟨acc₀, hacc₀, rfl⟩ := List.mem_map.mp hacc
      split at hsignal
      · rename_i hid
        rw [if_pos hid]
        exact ⟨rfl, (hclosed acc₀ hacc₀ hsignal).2⟩
      · rename_i hid
        rw [if_neg hid]
        exact hclosed acc₀ hacc₀ hsignal
    · rintro b' ⟨acc, hacc, hid, hsignal⟩
      obtain ⟨acc₀, hacc₀, rfl⟩ := List.mem_map.mp hacc
      refine ⟨acc₀, hacc₀, ?_, ?_⟩
      · split at hid <;> exact hid
      · split at hsignal <;> exact hsignal
  | _ =>
    cases ha
    exact ⟨hflight, hclosed, fun _ h => h⟩

/-- An execution of an order that was taken in full is one that was taken, so it is recorded. -/
theorem recorded_of_executed (hf : FillExecuted w f) (hclosed : SignalsClosed w)
    (htaken : ∀ x ∈ w.orderTakes, w.recorded x.fill = true) (hsignal : OfSignal w f.orderId) :
    w.recorded f = true := by
  obtain ⟨acc, hacc, hid, hsome⟩ := hsignal
  have hle := hf.2 acc hacc hid
  have hall := (hclosed acc hacc hsome).2
  rw [hid] at hall
  by_cases hmem : (f.fillId, f.qty) ∈ w.takenOf f.orderId
  · obtain ⟨x, hx, heq⟩ := List.mem_map.mp (List.mem_toFinset.mp hmem)
    have hrecorded := htaken x (List.mem_of_mem_filter hx)
    unfold World.recorded at hrecorded ⊢
    rwa [(Prod.mk.inj heq).1] at hrecorded
  · rw [Finset.sum_insert hmem] at hle
    have hqty := hf.1
    dsimp only at hle
    linarith

end World

/-! ## Steps -/

namespace Daemon

variable {d : Daemon} {now : Instant} {c c' : Config} {i : TaskId} {o : Op} {ch : Choice}
variable {k : Ans o → Prog Op Ans (Except String Unit)} {tr : List Ev} {x : Ans o} {w : World}
variable {n : ℕ}

theorem feedCondition_of_broker (h : d.brokerCondition.Reaches (initial now) c) :
    d.feedCondition.Reaches (initial now) c := by
  refine h.mono fun c l hmeets => ?_
  cases l with
  | env a => exact fun f hf => (hmeets f hf).1
  | _ => exact hmeets

/-- In front of the gate nothing is sent for a signal. -/
theorem send_of_settled (h : d.Reaches now c) (hs : Settled c)
    (hp : c.pass i = some ⟨.op o k, tr⟩) (order : Order) (ho : o = .sendOrder order) :
    order.signalId = none := by
  subst ho
  have hG := guarantee_of_reaches h hp
  cases i with
  | processor => exact (not_send_of_gate (hs.gate _ hp)).elim
  | _ => exact TaskG.sends hG order rfl

/-- No order takes a fill. -/
theorem orderTakes_step (h : d.brokerCondition.Reaches (initial now) c) (hs : Settled c)
    (hp : c.pass i = some ⟨.op o k, tr⟩) (hstep : (sem d.A).step ch o c.state = some (x, w)) :
    w.orderTakes = c.state.orderTakes := by
  by_cases hw : FillWrite o
  · have hi : i = .reconciler :=
      fillOp_of_G (guarantee_of_reaches (System.Condition.reaches_any h) hp) (fillOp_of_fillWrite hw)
    subst hi
    cases o with
    | db q =>
      cases x with
      | error e => rw [(opStep_db_error hstep).1]
      | ok y =>
        cases q with
        | applyFillToOrder fill t =>
          cases y with
          | none => exact (sameFills_unmatched hstep).orders
          | some out =>
            -- the fill is one of the ring that the tick read, and recorded if it is a signal's
            obtain ⟨hl, hn⟩ := namesAccepted_of_reaches (feedCondition_of_broker h)
            have hnew : c.state.recorded fill = false := takes_unrecorded h hp
            obtain ⟨r, hr⟩ := Option.isSome_iff_exists.mp (named_of_attempt hstep)
            obtain ⟨hmem, hb⟩ := mem_of_orderOfBrokerId hr
            obtain ⟨w₀, ring, hread, hring⟩ := tick_reads (d.issues_of_reaches (System.Condition.reaches_any h) hp)
            have hold := hs.read _ hp w₀ ring hread fill hring (ofSignal_of_named hn hl hmem hb)
            rw [hnew] at hold
            cases hold
        | applyFillToPosition fill symbol broker sleeve isBuy t => exact (position_takes hstep).1
        | recordFillApplied broker fillId t => exact (record_takes hstep).1
        | _ => exact hw.elim
    | _ => exact hw.elim
  · exact (sameFills_step hstep hw).orders

/-- No position takes a fill. -/
theorem not_positionOp_of_settled (h : d.brokerCondition.Reaches (initial now) c) (hs : Settled c)
    (hp : c.pass i = some ⟨.op o k, tr⟩) : ¬ PositionOp o := by
  intro ho
  unfold PositionOp at ho
  split at ho
  · have hi : i = .reconciler := fillOp_of_G (guarantee_of_reaches (System.Condition.reaches_any h) hp) trivial
    subst hi
    obtain ⟨hnew, y, hy, rfl⟩ := takes_unrecorded h hp
    rw [hs.taken y hy] at hnew
    cases hnew
  · exact ho

/-- The flag is up while the event is unresolved. -/
theorem flag_up (hopen : EventOpen n c.state)
    (hstep : (sem d.A).step ch o c.state = some (x, w)) (w' : World) :
    (⟨c.state, o, x⟩ : Ev) ≠ ⟨w', .db .killSwitchActive, .ok false⟩ := by
  intro he
  cases he
  obtain ⟨r, hr, -, hnone⟩ := hopen
  have hactive : c.state.db.killSwitchActive = true := killSwitchActive_iff.mpr ⟨r, hr, hnone⟩
  obtain ⟨db, hrun, -⟩ := opStep_db_ok hstep
  obtain ⟨hread, -⟩ := Prod.mk.inj (Except.ok.inj (Option.some.inj hrun))
  rw [hactive] at hread
  cases hread

/-- An operation of a task. -/
theorem settled_act (h : d.brokerCondition.Reaches (initial now) c) (hopen : EventOpen n c.state)
    (hs : Settled c) (hp : c.pass i = some ⟨.op o k, tr⟩)
    (hstep : (sem d.A).step ch o c.state = some (x, w)) :
    Settled ⟨w, Function.update c.pass i (some ⟨k x, tr ++ [⟨c.state, o, x⟩]⟩)⟩ := by
  have htakes := orderTakes_step h hs hp hstep
  have hmono {f : FillEntry} (hf : c.state.recorded f = true) : w.recorded f = true :=
    recorded_step hf hstep
  have hcovered {f : FillEntry} (hf : OfSignal c.state f.orderId → c.state.recorded f = true)
      (hsignal : OfSignal w f.orderId) : w.recorded f = true :=
    hmono (hf (ofSignal_step hsignal hstep))
  refine ⟨fun p hp' => ?_, ?_, closed_step hs.closed htakes hstep, ?_, ?_, ?_⟩
  · rcases System.pass_update hp' with ⟨rfl, hp'⟩ | hold
    · cases hp'
      exact not_pastGate_act (System.leads_of_reaches h rfl hp) (hs.gate _ hp)
        (flag_up hopen hstep)
    · exact hs.gate p hold
  · exact flight_step hs.flight (send_of_settled (System.Condition.reaches_any h) hs hp) hstep
  · intro y hy
    rw [htakes] at hy
    exact hmono (hs.taken y hy)
  · intro f hf
    rw [(step_ring hstep).1] at hf
    exact hcovered (hs.shown f hf)
  · intro p hp' w₀ ring hread f hf
    rcases System.pass_update hp' with ⟨rfl, hp'⟩ | hold
    · cases hp'
      rcases List.mem_append.mp hread with hread | hnew
      · exact hcovered (hs.read _ hp w₀ ring hread f hf)
      · cases List.mem_singleton.mp hnew
        rw [(inMemory_eq hstep).1] at hf
        exact hcovered (hs.shown f hf)
    · exact hcovered (hs.read p hold w₀ ring hread f hf)

/-- What happens outside the tasks. -/
theorem settled_env (hs : Settled c) {a : Act} (hok : BrokerOk c.state a)
    (ha : actStep a c.state = some w) : Settled ⟨w, c.pass⟩ := by
  obtain ⟨hflight, hclosed, hsignal⟩ := exchange_act hs.flight hs.closed ha
  have hrecorded (f : FillEntry) : w.recorded f = c.state.recorded f :=
    recorded_congr (act_tables ha).2.2.2.1 f
  have htakes : w.orderTakes = c.state.orderTakes := (sameFills_act ha).orders
  refine ⟨hs.gate, hflight, hclosed, ?_, ?_, ?_⟩
  · intro y hy
    rw [htakes] at hy
    rw [hrecorded]
    exact hs.taken y hy
  · intro f hf hof
    rw [hrecorded]
    rcases act_ring ha hf with hold | hnew
    · exact hs.shown f hold (hsignal _ hof)
    · exact recorded_of_executed (hok f hnew).2 hs.closed hs.taken (hsignal _ hof)
  · intro p hp w₀ ring hread f hf hof
    rw [hrecorded]
    exact hs.read p hp w₀ ring hread f hf (hsignal _ hof)

/-- A pass begins or ends, and the state stays. -/
theorem settled_pass (hs : Settled c) {pass : TaskId → Option (Pass World Op Ans _)}
    (hpass : ∀ j p, pass j = some p → c.pass j = some p ∨ p = ⟨d.program j, []⟩) :
    Settled ⟨c.state, pass⟩ := by
  refine ⟨fun p hp => ?_, hs.flight, hs.closed, hs.taken, hs.shown, fun p hp w ring hread => ?_⟩
  · rcases hpass _ p hp with hold | rfl
    · exact hs.gate p hold
    · exact not_pastGate_start
  · rcases hpass _ p hp with hold | rfl
    · exact hs.read p hold w ring hread
    · cases hread

/-- **Step.**  While the event is unresolved, nothing of a signal gets under way. -/
theorem settled_step (h : d.brokerCondition.Reaches (initial now) c) (hopen : EventOpen n c.state)
    (hs : Settled c) {l : d.system.Label} (hmeets : (d.unresolvedCondition n).Meets c l)
    (hstep : d.system.step l c = some c') : Settled c' ∧ EventOpen n c'.state := by
  cases l with
  | start i =>
    simp only [System.step] at hstep
    split at hstep
    · cases hstep
      refine ⟨settled_pass (d := d) hs fun j p hp => ?_, hopen⟩
      rcases System.pass_update hp with ⟨rfl, hnew⟩ | hold
      · exact Or.inr (Option.some.inj hnew).symm
      · exact Or.inl hold
    · cases hstep
  | act i ch =>
    simp only [System.step] at hstep
    split at hstep
    · rename_i o k tr hp
      obtain ⟨⟨x, w⟩, hr, rfl⟩ := Option.map_eq_some_iff.mp hstep
      exact ⟨settled_act h hopen hs hp hr, eventOpen_step hopen hr⟩
    · cases hstep
  | finish i =>
    simp only [System.step] at hstep
    split at hstep
    · cases hstep
      refine ⟨settled_pass (d := d) hs fun j p hp => ?_, hopen⟩
      rcases System.pass_update hp with ⟨-, hnew⟩ | hold
      · cases hnew
      · exact Or.inl hold
    · cases hstep
  | env a =>
    obtain ⟨w, ha, rfl⟩ := Option.map_eq_some_iff.mp hstep
    exact ⟨settled_env hs hmeets.1 ha, eventOpen_act hopen hmeets.2 ha⟩
  | restart =>
    cases hstep
    refine ⟨⟨fun p hp => ?_, hs.flight, hs.closed, hs.taken, fun f hf => ?_, fun p hp => ?_⟩, hopen⟩
    · cases hp
    · cases hf
    · cases hp

/-- What a step does to the journal. -/
theorem journal_cases {l : d.system.Label} (hstep : d.system.step l c = some c') :
    c'.state.journal = c.state.journal ∨ ∃ i q y k tr, c.pass i = some ⟨.op (.db q) k, tr⟩ ∧
      c'.state.journal = c.state.journal ++ [⟨q, y⟩] := by
  cases l with
  | act i ch =>
    simp only [System.step] at hstep
    split at hstep
    · rename_i o k tr hp
      obtain ⟨⟨x, w⟩, hr, rfl⟩ := Option.map_eq_some_iff.mp hstep
      by_cases hdb : ∃ q, o = .db q
      · obtain ⟨q, rfl⟩ := hdb
        rcases opStep_db hr with ⟨e, -, hw⟩ | ⟨y, db, -, -, hw⟩
        · exact Or.inl (congrArg World.journal hw)
        · exact Or.inr ⟨i, q, y, k, tr, hp, congrArg World.journal hw⟩
      · exact Or.inl (opStep_db_eq (A := d.A) hr fun q hq => hdb ⟨q, hq⟩).2
    · cases hstep
  | env a =>
    obtain ⟨w, ha, rfl⟩ := Option.map_eq_some_iff.mp hstep
    exact Or.inl (act_journal ha)
  | restart =>
    cases hstep
    exact Or.inl rfl
  | _ =>
    simp only [System.step] at hstep
    split at hstep
    · cases hstep
      exact Or.inl rfl
    · cases hstep

/-- The journal only grows. -/
theorem journal_grows {C : d.system.Condition} {c₁ c₂ : Config} (h : C.Reaches c₁ c₂) :
    ∃ new, c₂.state.journal = c₁.state.journal ++ new := by
  induction h with
  | refl => exact ⟨[], (List.append_nil _).symm⟩
  | step _ _ hstep ih =>
    obtain ⟨old, hold⟩ := ih
    rcases journal_cases hstep with hsame | ⟨i, q, y, k, tr, -, hnew⟩
    · exact ⟨old, hsame.trans hold⟩
    · exact ⟨old ++ [⟨q, y⟩], by rw [hnew, hold, List.append_assoc]⟩

/-- What a step adds to the journal raises no exposure. -/
theorem journal_step (h : d.brokerCondition.Reaches (initial now) c) (hs : Settled c)
    {l : d.system.Label} (hstep : d.system.step l c = some c') :
    ∃ new, c'.state.journal = c.state.journal ++ new ∧ ∀ m ∈ new, m.raisesExposure = false := by
  rcases journal_cases hstep with hsame | ⟨i, q, y, k, tr, hp, hnew⟩
  · exact ⟨[], hsame.trans (List.append_nil _).symm, fun m hm => absurd hm List.not_mem_nil⟩
  · refine ⟨[⟨q, y⟩], hnew, fun m hm => ?_⟩
    rw [List.mem_singleton.mp hm]
    cases q with
    | applyFillToPosition => exact absurd trivial (not_positionOp_of_settled h hs hp)
    | _ => rfl

/-! ## Top theorem (proved from the lemmas above) -/

/-- **A settled hard stop stays flat.**  In every run in which the feed reports executions only,
take a state in which a hard trigger is unresolved, the orders of its panic close have filled, and
nothing of a signal is under way.  However the run goes on, as long as the operator does not
resolve the event, no fill opens, increases or flips a leverage position. -/
theorem stays_flat {c₁ c₂ : Config} (h : d.brokerCondition.Reaches (initial now) c₁)
    (hstop : HardStopped n c₁) (hs : Settled c₁) (hrun : (d.unresolvedCondition n).Reaches c₁ c₂) :
    ∃ new, c₂.state.journal = c₁.state.journal ++ new ∧ ∀ m ∈ new, m.raisesExposure = false := by
  suffices hall : d.brokerCondition.Reaches (initial now) c₂ ∧ Settled c₂ ∧ EventOpen n c₂.state ∧
      ∃ new, c₂.state.journal = c₁.state.journal ++ new ∧
        ∀ m ∈ new, m.raisesExposure = false from hall.2.2.2
  induction hrun with
  | refl =>
    obtain ⟨r, hr, hid, -, hopen⟩ := hstop.event
    exact ⟨h, hs, ⟨r, hr, hid, hopen⟩, [], (List.append_nil _).symm,
      fun m hm => absurd hm List.not_mem_nil⟩
  | @step c c' l _ hmeets hstep ih =>
    obtain ⟨hreach, hset, hopen, old, hold, hall⟩ := ih
    obtain ⟨hset', hopen'⟩ := settled_step hreach hopen hset hmeets hstep
    obtain ⟨new, hnew, hflat⟩ := journal_step hreach hset hstep
    refine ⟨hreach.step ?_ hstep, hset', hopen', old ++ new, ?_, fun m hm => ?_⟩
    · cases l with
      | env a => exact hmeets.1
      | _ => exact hmeets
    · rw [hnew, hold, List.append_assoc]
    · rcases List.mem_append.mp hm with hm | hm
      · exact hall m hm
      · exact hflat m hm

/-- The panic close of event `n` is over and its orders have filled; the other requests are for
the signal `s`. -/
def stopped (n s : ℕ) (c : Config) : Bool :=
  (c.state.db.killSwitchEvents.rows.any fun r =>
    decide (r.id = n ∧ likeHard r.reasonKind = true ∧ r.resolvedAt = none)) &&
  c.state.exchange.requests.zipIdx.all fun x =>
    decide (x.1.cliOrdId = some (signalCliOrdId s)) || c.state.exchange.accepted.any fun a =>
      decide (a.request = x.2 ∧ a.executed = x.1.quantity)

theorem hardStopped_of_stopped {n s : ℕ} {c : Config} (h : stopped n s c = true) :
    HardStopped n c := by
  obtain ⟨hevent, hfilled⟩ := Bool.and_eq_true_iff.mp h
  constructor
  · obtain ⟨r, hr, hp⟩ := List.any_eq_true.mp hevent
    exact ⟨r, hr, of_decide_eq_true hp⟩
  · rintro m order hm ⟨t, hcli⟩
    have hcheck := List.all_eq_true.mp hfilled (order, m) (List.mem_zipIdx_iff_getElem?.mpr hm)
    rcases Bool.or_eq_true_iff.mp hcheck with hsignal | hfill
    · have hsame := hcli.symm.trans (of_decide_eq_true hsignal)
      exact absurd (Option.some.inj hsame) (panicCliOrdId_ne s n t)
    · obtain ⟨a, ha, hp⟩ := List.any_eq_true.mp hfill
      exact ⟨a, ha, of_decide_eq_true hp⟩

/-- Every task is between two passes. -/
def allIdle (c : Config) : Bool :=
  (c.pass .processor).isNone && (c.pass .reconciler).isNone && (c.pass .supervisor).isNone &&
    (c.pass .equityWriter).isNone

theorem pass_of_allIdle {c : Config} (h : allIdle c = true) (i : TaskId) : c.pass i = none := by
  unfold allIdle at h
  simp only [Bool.and_eq_true, Option.isNone_iff_eq_none] at h
  cases i with
  | processor => exact h.1.1.1
  | reconciler => exact h.1.1.2
  | supervisor => exact h.1.2
  | equityWriter => exact h.2

/-- Every task is between two passes, nothing is in flight, and every fill is recorded. -/
def settledIdle (c : Config) : Bool :=
  allIdle c && c.state.exchange.inFlight.isEmpty &&
  (c.state.exchange.accepted.all fun a => a.order.signalId.isNone ||
    !a.isOpen && decide (a.executed ≤ ∑ x ∈ c.state.takenOf a.brokerOrderId, x.2)) &&
  (c.state.orderTakes.all fun x => c.state.recorded x.fill) &&
  c.state.fills.fills.all fun f => c.state.recorded f

theorem settled_of_idle {c : Config} (h : settledIdle c = true) : Settled c := by
  unfold settledIdle at h
  simp only [Bool.and_eq_true] at h
  obtain ⟨⟨⟨⟨hidle, hflight⟩, hclosed⟩, htaken⟩, hshown⟩ := h
  have hpass := pass_of_allIdle hidle
  refine ⟨fun p hp => ?_, fun m hm => ?_, fun a ha hsignal => ?_, List.all_eq_true.mp htaken,
    fun f hf _ => List.all_eq_true.mp hshown f hf, fun p hp => ?_⟩
  · rw [hpass] at hp
    cases hp
  · rw [List.isEmpty_iff.mp hflight] at hm
    cases hm
  · rcases Bool.or_eq_true_iff.mp (List.all_eq_true.mp hclosed a ha) with hnone | hdone
    · rw [Option.isNone_iff_eq_none.mp hnone] at hsignal
      cases hsignal
    · obtain ⟨hopen, hsum⟩ := Bool.and_eq_true_iff.mp hdone
      exact ⟨by simpa using hopen, of_decide_eq_true hsum⟩
  · rw [hpass] at hp
    cases hp

/-- The entry is bought in full, a loss follows, and the panic close sells it. -/
def closedRun : List sampleDaemon.system.Label :=
  entryRun ++ [.env (.execute "order-0" 110), .env (.fillsSnapshot [sampleFill]),
      .start .reconciler] ++ smooth .reconciler 13 ++ [.finish .reconciler, .start .equityWriter,
      .act .equityWriter .ok, .act .equityWriter (.accounts (.ok lossAccounts))] ++
    smooth .equityWriter 3 ++ [.finish .equityWriter, .start .supervisor] ++
    smooth .supervisor 9 ++ [.env (.accept 1), .act .supervisor (.answered "placed"),
      .finish .supervisor, .env (.execute "order-1" 110)]

/-- The feed starts over with both fills, and a tick goes through them. -/
def replayedRun : List sampleDaemon.system.Label :=
  [.env (.fillsSnapshot [sampleFill, panicFill]), .start .reconciler] ++
    smooth .reconciler 8 ++ [.finish .reconciler]

theorem stays_flat_sample : ∃ c₁ c₂ new,
    sampleDaemon.brokerCondition.Reaches (initial sampleTime) c₁ ∧
    (sampleDaemon.unresolvedCondition 1).Reaches c₁ c₂ ∧
    c₂.state.db.hasFillBeenApplied krakenFutures panicFill.fillId = true ∧
    c₂.state.journal = c₁.state.journal ++ new ∧ ∀ m ∈ new, m.raisesExposure = false := by
  have hrun : ((sampleDaemon.brokerCondition.runTested closedRun (initial sampleTime)).any
      fun c₁ => stopped 1 1 c₁ && settledIdle c₁ &&
        ((sampleDaemon.unresolvedCondition 1).runTested replayedRun c₁).any fun c₂ =>
          c₂.state.db.hasFillBeenApplied krakenFutures panicFill.fillId) = true := by
    decide +kernel
  obtain ⟨c₁, h₁, hp⟩ := reaches_of_test hrun
  obtain ⟨hp, hrest⟩ := Bool.and_eq_true_iff.mp hp
  obtain ⟨hstop, hsettled⟩ := Bool.and_eq_true_iff.mp hp
  obtain ⟨c₂, h₂, hrecorded⟩ := (Option.any_eq_true _ _).mp hrest
  have hreach := System.Condition.reaches_runTested .refl h₂
  obtain ⟨new, hnew, hflat⟩ :=
    stays_flat h₁ (hardStopped_of_stopped hstop) (settled_of_idle hsettled) hreach
  exact ⟨c₁, c₂, new, h₁, hreach, hrecorded, hnew, hflat⟩

/-! ### An entry that rests -/

/-- A fill of ten contracts of the entry, and one of the other hundred. -/
def firstFill : FillEntry :=
  ⟨perpSymbol, 50000, 1, true, 10, "order-0", "fill-1", 0, some (signalCliOrdId 1)⟩

def secondFill : FillEntry :=
  ⟨perpSymbol, 50000, 2, true, 100, "order-0", "fill-2", 0, some (signalCliOrdId 1)⟩

/-- Ten contracts of the entry are bought, a loss follows, and the panic close sells the ten. -/
def restingRun : List sampleDaemon.system.Label :=
  entryRun ++ [.env (.execute "order-0" 10), .env (.fillsSnapshot [firstFill]),
      .start .reconciler] ++ smooth .reconciler 13 ++ [.finish .reconciler, .start .equityWriter,
      .act .equityWriter .ok, .act .equityWriter (.accounts (.ok lossAccounts))] ++
    smooth .equityWriter 3 ++ [.finish .equityWriter, .start .supervisor] ++
    smooth .supervisor 9 ++ [.env (.accept 1), .act .supervisor (.answered "placed"),
      .finish .supervisor, .env (.execute "order-1" 10)]

/-- The rest of the entry executes, and a tick takes the fill. -/
def reopeningRun : List sampleDaemon.system.Label :=
  [.env (.execute "order-0" 100), .env (.fillsUpdate [secondFill]), .start .reconciler] ++
    smooth .reconciler 13 ++ [.finish .reconciler]

/-- Every task is idle, the panic close has filled, and the event stays unresolved: then the
entry fills and adds to the position. -/
theorem reopened_after_stop : ∃ c₁ c₂ new,
    sampleDaemon.brokerCondition.Reaches (initial sampleTime) c₁ ∧ HardStopped 1 c₁ ∧
    (∀ i, c₁.pass i = none) ∧
    (∃ a ∈ c₁.state.exchange.accepted, a.order.signalId = none ∧
      a.executed = a.order.quantity) ∧
    (sampleDaemon.unresolvedCondition 1).Reaches c₁ c₂ ∧
    c₂.state.journal = c₁.state.journal ++ new ∧ ∃ m ∈ new, m.raisesExposure = true := by
  have hrun : ((sampleDaemon.brokerCondition.runTested restingRun (initial sampleTime)).any
      fun c₁ => stopped 1 1 c₁ && allIdle c₁ && (c₁.state.exchange.accepted.any fun a =>
          decide (a.order.signalId = none ∧ a.executed = a.order.quantity)) &&
        ((sampleDaemon.unresolvedCondition 1).runTested reopeningRun c₁).any fun c₂ =>
          (c₂.state.journal.drop c₁.state.journal.length).any Commit.raisesExposure) = true := by
    decide +kernel
  obtain ⟨c₁, h₁, hp⟩ := reaches_of_test hrun
  obtain ⟨hp, hrest⟩ := Bool.and_eq_true_iff.mp hp
  obtain ⟨hp, hpanic⟩ := Bool.and_eq_true_iff.mp hp
  obtain ⟨hstop, hidle⟩ := Bool.and_eq_true_iff.mp hp
  obtain ⟨a, ha, hfilled⟩ := List.any_eq_true.mp hpanic
  obtain ⟨c₂, h₂, hraises⟩ := (Option.any_eq_true _ _).mp hrest
  obtain ⟨m, hm, hup⟩ := List.any_eq_true.mp hraises
  have hreach := System.Condition.reaches_runTested .refl h₂
  obtain ⟨new, hnew⟩ := journal_grows hreach
  rw [hnew, List.drop_left] at hm
  exact ⟨c₁, c₂, new, h₁, hardStopped_of_stopped hstop, pass_of_allIdle hidle,
    ⟨a, ha, of_decide_eq_true hfilled⟩, hreach, hnew, m, hm, hup⟩

end Daemon

end RazorTrade
