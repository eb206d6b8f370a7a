import RazorTrade.Daemon.FillJournal

/-! # How often a fill is counted

A fill is written in three transactions: the order, the position, the record in
`applied_fills`.  The record is what keeps the fill from being applied again, so a fill that
is between the first and the third (`HalfApplied`) is applied a second time after a restart,
and also after an error of the second or third write, since the next tick starts over.

Main result, for every run in which neither happens:

  `fill_counted_once` :  orders took each fill at most once, and so did positions -/

namespace RazorTrade

open Interaction Relational Database DaemonM

namespace World

/-- How often orders took the fill. -/
def timesOrdered (fillId : String) (w : World) : ℕ :=
  w.orderTakes.countP fun x => x.fill.fillId = fillId

/-- How often positions took the fill. -/
def timesPositioned (fillId : String) (w : World) : ℕ :=
  w.positionTakes.countP fun x => x.fill.fillId = fillId

end World

/-- A table took the fill, and it is not recorded. -/
def HalfApplied (w : World) (fillId : String) : Prop :=
  0 < w.timesOrdered fillId + w.timesPositioned fillId ∧
    w.db.hasFillBeenApplied krakenFutures fillId = false

/-! ## The condition -/

/-- The fill that a write brings nearer to its end. -/
def Op.completes : Op → Option String
  | .db (.applyFillToPosition fill ..) => some fill.fillId
  | .db (.recordFillApplied _ fillId _) => some fillId
  | _ => none

/-- The second and the third write of a half-applied fill do not fail. -/
def CompletesOk (w : World) (o : Op) (c : Choice) : Prop :=
  ∀ fillId ∈ o.completes, HalfApplied w fillId → c.fails = false

/-- No fill is half applied. -/
def NoneHalfApplied (w : World) : Prop :=
  ∀ x ∈ w.orderTakes ++ w.positionTakes, ¬ HalfApplied w x.fill.fillId

instance (w : World) (fillId : String) : Decidable (HalfApplied w fillId) :=
  inferInstanceAs (Decidable (_ ∧ _))

instance CompletesOk.decidable (w : World) (o : Op) (c : Choice) : Decidable (CompletesOk w o c) :=
  inferInstanceAs (Decidable (∀ fillId ∈ o.completes, _))

instance NoneHalfApplied.decidable (w : World) : Decidable (NoneHalfApplied w) :=
  inferInstanceAs (Decidable (∀ x ∈ w.orderTakes ++ w.positionTakes, _))

namespace Daemon

variable (d : Daemon)

/-- No restart while a fill is half applied, and no failure of its other writes. -/
def completionCondition : d.system.Condition where
  act _ w o ch := CompletesOk w o ch
  restart w := NoneHalfApplied w

instance : d.completionCondition.Testable where
  act _ w o ch := CompletesOk.decidable w o ch
  finish _ _ _ := inferInstanceAs (Decidable True)
  env _ _ := inferInstanceAs (Decidable True)
  restart w := NoneHalfApplied.decidable w

end Daemon

/-! ## The invariant and the contract -/

def CountedOnce (w : World) : Prop :=
  ∀ fillId, w.timesOrdered fillId ≤ 1 ∧ w.timesPositioned fillId ≤ 1

/-- What holds in each phase of a fill. -/
def CountedAt : FillPhase → World → Prop
  | .idle, w => ∀ fillId, ¬ HalfApplied w fillId
  | .fresh fill, w => (∀ fillId, ¬ HalfApplied w fillId) ∧
    w.db.hasFillBeenApplied krakenFutures fill.fillId = false
  | .taken fill _, w => (∀ fillId, fillId ≠ fill.fillId → ¬ HalfApplied w fillId) ∧
    HalfApplied w fill.fillId ∧ w.timesPositioned fill.fillId = 0
  | .done fill, w => ∀ fillId, fillId ≠ fill.fillId → ¬ HalfApplied w fillId

/-- An order or a position takes a fill only if none has. -/
def TakesNew (w : World) : Op → Prop
  | .db (.applyFillToOrder fill _) => w.timesOrdered fill.fillId = 0
  | .db (.applyFillToPosition fill ..) => w.timesPositioned fill.fillId = 0
  | _ => True

def dedupContract : Contract World Op Ans (Except String Unit) TaskId where
  Inv := CountedOnce
  Idle
    | .reconciler => CountedAt .idle
    | _ => fun _ => True
  R
    | .reconciler => SameFills
    | _ => fun _ _ => True
  G
    | .reconciler => fun _ w o => TakesNew w o
    | _ => fun _ _ _ => True
  Q
    | .reconciler => fun _ w _ => CountedAt .idle w
    | _ => fun _ _ _ => True

/-! ## Lemmas -/

section Counts

variable {A : Arith} {c : Choice} {w w' : World} {fill : FillEntry} {t fillId : String}

theorem SameFills.counts (h : SameFills w w') (fillId : String) :
    w'.timesOrdered fillId = w.timesOrdered fillId ∧
      w'.timesPositioned fillId = w.timesPositioned fillId := by
  unfold World.timesOrdered World.timesPositioned
  rw [h.orders, h.positions]
  exact ⟨rfl, rfl⟩

theorem SameFills.recorded (h : SameFills w w') (fillId : String) :
    w'.db.hasFillBeenApplied krakenFutures fillId =
      w.db.hasFillBeenApplied krakenFutures fillId := by
  unfold hasFillBeenApplied
  rw [h.applied]

theorem SameFills.halfApplied (h : SameFills w w') (fillId : String) :
    HalfApplied w' fillId ↔ HalfApplied w fillId := by
  unfold HalfApplied
  rw [(h.counts fillId).1, (h.counts fillId).2, h.recorded fillId]

theorem noneHalfApplied_iff : NoneHalfApplied w ↔ ∀ fillId, ¬ HalfApplied w fillId := by
  refine ⟨fun h id hid => ?_, fun h x _ => h x.fill.fillId⟩
  have hpos := hid.1
  by_cases hordered : 0 < w.timesOrdered id
  · obtain ⟨x, hx, hxid⟩ := List.countP_pos_iff.mp hordered
    cases of_decide_eq_true hxid
    exact h x (List.mem_append_left _ hx) hid
  · have hpositioned : 0 < w.timesPositioned id := by omega
    obtain ⟨x, hx, hxid⟩ := List.countP_pos_iff.mp hpositioned
    cases of_decide_eq_true hxid
    exact h x (List.mem_append_right _ hx) hid

/-- What an order that takes a fill does to the counts. -/
theorem order_counts {out : OrderFillOutcome}
    (h : (sem A).step c (.db (.applyFillToOrder fill t)) w = some (.ok (some out), w'))
    (fillId : String) :
    w'.timesOrdered fillId = w.timesOrdered fillId + (if fill.fillId = fillId then 1 else 0) ∧
      w'.timesPositioned fillId = w.timesPositioned fillId ∧
      w'.db.appliedFills = w.db.appliedFills := by
  obtain ⟨horders, hpositions, happlied⟩ := order_takes h
  refine ⟨?_, ?_, happlied⟩
  · unfold World.timesOrdered
    rw [horders]
    simp [List.countP_append]
  · unfold World.timesPositioned
    rw [hpositions]

/-- What a position that takes a fill does to the counts. -/
theorem position_counts {symbol broker sleeve : String} {isBuy : Bool} {y : PositionFillOutcome}
    (h : (sem A).step c (.db (.applyFillToPosition fill symbol broker sleeve isBuy t)) w =
      some (.ok y, w')) (fillId : String) :
    w'.timesOrdered fillId = w.timesOrdered fillId ∧
      w'.timesPositioned fillId = w.timesPositioned fillId +
        (if fill.fillId = fillId then 1 else 0) ∧
      w'.db.appliedFills = w.db.appliedFills := by
  obtain ⟨horders, hpositions, happlied⟩ := position_takes h
  refine ⟨?_, ?_, happlied⟩
  · unfold World.timesOrdered
    rw [horders]
  · unfold World.timesPositioned
    rw [hpositions]
    simp [List.countP_append]

end Counts

/-! ### The phases -/

section Phases

variable {A : Arith} {c : Choice} {w w' : World} {fill : FillEntry} {t : String}

theorem CountedAt.frame {φ : FillPhase} (h : CountedAt φ w) (hw : SameFills w w') :
    CountedAt φ w' := by
  cases φ with
  | idle => exact fun id hid => h id ((hw.halfApplied id).mp hid)
  | fresh fill =>
    exact ⟨fun id hid => h.1 id ((hw.halfApplied id).mp hid), (hw.recorded _).trans h.2⟩
  | taken fill out =>
    refine ⟨fun id hne hid => h.1 id hne ((hw.halfApplied id).mp hid), ?_, ?_⟩
    · exact (hw.halfApplied _).mpr h.2.1
    · exact (hw.counts _).2.trans h.2.2
  | done fill => exact fun id hne hid => h id hne ((hw.halfApplied id).mp hid)

/-- A fill that is not recorded was not taken, as long as none is half applied. -/
theorem CountedAt.new (h : CountedAt (.fresh fill) w) :
    w.timesOrdered fill.fillId = 0 ∧ w.timesPositioned fill.fillId = 0 := by
  have hnot := h.1 fill.fillId
  have hzero : ¬ 0 < w.timesOrdered fill.fillId + w.timesPositioned fill.fillId :=
    fun hpos => hnot ⟨hpos, h.2⟩
  omega

theorem CountedAt.order {out : OrderFillOutcome} (h : CountedAt (.fresh fill) w)
    (hs : (sem A).step c (.db (.applyFillToOrder fill t)) w = some (.ok (some out), w')) :
    CountedAt (.taken fill out) w' := by
  have hrecorded (id : String) : w'.db.hasFillBeenApplied krakenFutures id =
      w.db.hasFillBeenApplied krakenFutures id := by
    unfold hasFillBeenApplied
    rw [(order_counts hs id).2.2]
  refine ⟨fun id hne hhalf => ?_, ⟨?_, ?_⟩, ?_⟩
  · obtain ⟨hordered, hpositioned, -⟩ := order_counts hs id
    rw [if_neg (Ne.symm hne)] at hordered
    refine h.1 id ⟨?_, (hrecorded id).symm.trans hhalf.2⟩
    have hpos := hhalf.1
    omega
  · obtain ⟨hordered, -, -⟩ := order_counts hs fill.fillId
    rw [if_pos rfl] at hordered
    omega
  · exact (hrecorded _).trans h.2
  · exact (order_counts hs fill.fillId).2.1.trans h.new.2

theorem CountedAt.position {symbol broker sleeve : String} {isBuy : Bool} {out : OrderFillOutcome}
    {y : PositionFillOutcome} (h : CountedAt (.taken fill out) w)
    (hs : (sem A).step c (.db (.applyFillToPosition fill symbol broker sleeve isBuy t)) w =
      some (.ok y, w')) : CountedAt (.done fill) w' := by
  intro id hne hhalf
  obtain ⟨hordered, hpositioned, happlied⟩ := position_counts hs id
  rw [if_neg (Ne.symm hne)] at hpositioned
  refine h.1 id hne ⟨?_, ?_⟩
  · have hpos := hhalf.1
    omega
  · have hrecorded := hhalf.2
    unfold hasFillBeenApplied at hrecorded ⊢
    rwa [happlied] at hrecorded

theorem CountedAt.record {x : Unit} (h : CountedAt (.done fill) w)
    (hs : (sem A).step c (.db (.recordFillApplied krakenFutures fill.fillId t)) w =
      some (.ok x, w')) : CountedAt .idle w' := by
  intro id hhalf
  obtain ⟨horders, hpositions, hdb⟩ := record_takes hs
  have hrecorded := hhalf.2
  rw [hdb, hasFillBeenApplied_record, Bool.or_eq_false_iff, decide_eq_false_iff_not] at hrecorded
  refine h id (Ne.symm hrecorded.2) ⟨?_, hrecorded.1⟩
  have hpos := hhalf.1
  unfold World.timesOrdered World.timesPositioned at hpos ⊢
  rwa [horders, hpositions] at hpos

/-- A write that the condition does not let fail ends well. -/
theorem CompletesOk.noError {q : DbOp} {e : PersistenceError} {fillId : String}
    (hok : CompletesOk w (.db q) c) (hq : fillId ∈ (Op.db q).completes) (hhalf : HalfApplied w fillId)
    (hrun : ∀ e', q.run A w.db ≠ some (.error e'))
    (hs : (sem A).step c (.db q) w = some (.error e, w')) : False := by
  obtain ⟨-, hfails | ⟨e', he'⟩⟩ := opStep_db_error hs
  · rw [hok fillId hq hhalf] at hfails
    cases hfails
  · exact hrun e' he'

end Phases

namespace Daemon

variable {d : Daemon}

/-- The three writes of the tick, under the condition. -/
def dedupProof (d : Daemon) :
    FillProof d (d.completionCondition.act .reconciler) TakesNew where
  At := CountedAt
  frame := CountedAt.frame
  allowed := by
    intro w o ho
    unfold TakesNew
    split
    · exact absurd trivial ho
    · exact absurd trivial ho
    · trivial
  unrecorded := fun h hnew => ⟨h, hnew⟩
  leave := fun h => h.1
  abandon := fun h id _ => h.1 id
  noSleeve := fun h _ => h.1
  order := fun h => ⟨h.new.1, fun c out w' _ hs => h.order hs⟩
  position := by
    intro w fill out sleeve t h hsleeve
    refine ⟨h.2.2, fun c hok => ⟨fun e w' hs => ?_, fun y w' hs => h.position hs⟩⟩
    refine (CompletesOk.noError hok rfl h.2.1 (fun e' he' => ?_) hs).elim
    obtain ⟨y, -, hy⟩ := Option.map_eq_some_iff.mp he'
    cases hy
  record := by
    intro w fill t h
    refine ⟨trivial, fun c x w' hok hs => ?_⟩
    cases x with
    | ok x => exact h.record hs
    | error e =>
      obtain ⟨rfl, -⟩ := opStep_db_error hs
      intro id hhalf
      by_cases hid : id = fill.fillId
      · subst hid
        exact CompletesOk.noError hok rfl hhalf (fun e' he' => nomatch he') hs
      · exact h id hid hhalf

/-- **Step.**  No count rises above one, as far as the guarantees allow. -/
theorem countedOnce_step {i : TaskId} {tr : List Ev} {w w' : World} {o : Op} {c : Choice}
    {x : Ans o} (h : CountedOnce w) (hL : d.contract.G i tr w o) (hG : dedupContract.G i tr w o)
    (hs : (sem d.A).step c o w = some (x, w')) : CountedOnce w' := by
  have hkeep (hsame : SameFills w w') : CountedOnce w' := by
    intro id
    rw [(hsame.counts id).1, (hsame.counts id).2]
    exact h id
  by_cases hw : FillWrite o
  · have hi := fillOp_of_G hL (fillOp_of_fillWrite hw)
    subst hi
    cases o with
    | db q =>
      cases x with
      | error e =>
        rw [(opStep_db_error hs).1]
        exact h
      | ok x =>
        cases q with
        | applyFillToOrder fill t =>
          cases x with
          | none => exact hkeep (sameFills_unmatched hs)
          | some out =>
            intro id
            obtain ⟨hordered, hpositioned, -⟩ := order_counts hs id
            obtain ⟨ho, hp⟩ := h id
            by_cases hid : fill.fillId = id
            · subst hid
              have hnew : w.timesOrdered fill.fillId = 0 := hG
              rw [if_pos rfl] at hordered
              omega
            · rw [if_neg hid] at hordered
              omega
        | applyFillToPosition fill symbol broker sleeve isBuy t =>
          intro id
          obtain ⟨hordered, hpositioned, -⟩ := position_counts hs id
          obtain ⟨ho, hp⟩ := h id
          by_cases hid : fill.fillId = id
          · subst hid
            have hnew : w.timesPositioned fill.fillId = 0 := hG
            rw [if_pos rfl] at hpositioned
            omega
          · rw [if_neg hid] at hpositioned
            omega
        | recordFillApplied broker f t =>
          obtain ⟨horders, hpositions, -⟩ := record_takes hs
          intro id
          unfold World.timesOrdered World.timesPositioned
          rw [horders, hpositions]
          exact h id
        | _ => exact hw.elim
    | _ => exact hw.elim
  · exact hkeep (sameFills_step hs hw)

theorem dedup_validOver : d.contract.ValidOver dedupContract d.completionCondition := by
  refine (dedupProof d).validOver ?_ ?_ ?_
  · exact fun hL hG h hs => countedOnce_step h hL hG hs
  · intro a w w' h ha id
    rw [((sameFills_act ha).counts id).1, ((sameFills_act ha).counts id).2]
    exact h id
  · exact fun h hnone => ⟨h, noneHalfApplied_iff.mp hnone⟩

/-! ## Top theorem (proved from the lemmas above) -/

/-- **Counted once.**  In every run under the condition, in every state, orders took each fill
at most once, and so did positions. -/
theorem fill_counted_once {now : Instant} {c : Config}
    (h : d.completionCondition.Reaches (initial now) c) (fillId : String) :
    c.state.timesOrdered fillId ≤ 1 ∧ c.state.timesPositioned fillId ≤ 1 := by
  have hvalid := (contract_valid (d := d) d.completionCondition).and dedup_validOver
  have hidle : ∀ i, dedupContract.Idle i (World.initial now) := by
    intro i
    cases i with
    | reconciler => exact fun id hid => Nat.lt_irrefl 0 hid.1
    | _ => trivial
  have hstart : CountedOnce (World.initial now) := fun id => ⟨Nat.zero_le 1, Nat.zero_le 1⟩
  have hholds := Contract.hold_of_reaches hvalid (Contract.holds_idle
    ⟨linked_initial now, hstart⟩ fun i => ⟨trivial, hidle i⟩) h
  exact hholds.1.2 fillId

theorem fill_counted_once_sample :
    ∃ c, sampleDaemon.completionCondition.Reaches (initial sampleTime) c ∧
      c.state.timesOrdered sampleFill.fillId = 1 ∧
      ∀ fillId, c.state.timesOrdered fillId ≤ 1 ∧ c.state.timesPositioned fillId ≤ 1 := by
  have hrun : ((sampleDaemon.completionCondition.runTested fillRun (initial sampleTime)).any
      fun c => c.state.timesOrdered sampleFill.fillId = 1) = true := by decide +kernel
  obtain ⟨c, hc, hone⟩ := reaches_of_test hrun
  exact ⟨c, hc, of_decide_eq_true hone, fun fillId => fill_counted_once hc fillId⟩

/-! ### The position write fails and the next tick starts over -/

def retriedFillRun : List sampleDaemon.system.Label :=
  entryRun ++ [.env (.fillsSnapshot [sampleFill]), .start .reconciler] ++
    smooth .reconciler 5 ++ [.act .reconciler (.dbError "disk I/O error"), .finish .reconciler,
      .start .reconciler] ++ smooth .reconciler 13 ++ [.finish .reconciler]

/-- The order of 110 contracts has taken the fill of 110 contracts twice. -/
theorem fill_counted_twice :
    ∃ c, sampleDaemon.Reaches sampleTime c ∧ c.state.timesOrdered sampleFill.fillId = 2 ∧
      ∃ r ∈ c.state.db.orders.rows, r.quantity = 110 ∧ r.filledQuantity = 220 := by
  have hrun : ((sampleDaemon.run sampleTime retriedFillRun).any fun c =>
      decide (c.state.timesOrdered sampleFill.fillId = 2) && c.state.db.orders.rows.any fun r =>
        decide (r.quantity = 110) && decide (r.filledQuantity = 220)) = true := by decide +kernel
  obtain ⟨c, hc, hp⟩ := reaches_of_check sampleDaemon hrun
  obtain ⟨htwice, hrow⟩ := Bool.and_eq_true_iff.mp hp
  obtain ⟨r, hr, hq⟩ := List.any_eq_true.mp hrow
  obtain ⟨hq, hf⟩ := Bool.and_eq_true_iff.mp hq
  exact ⟨c, hc, of_decide_eq_true htwice, r, hr, of_decide_eq_true hq, of_decide_eq_true hf⟩

end Daemon

end RazorTrade
