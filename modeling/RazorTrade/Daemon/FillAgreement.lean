import RazorTrade.Daemon.FillJournal

/-! # Orders and positions agree

A fill reaches the orders table and the positions table in two transactions.  Whenever the
reconciler is between two ticks the positions have taken what the orders took (`Paired`),
unless a restart or a failing position write has come in between.

Main result, for every run without either in which the sums of quantities do not round:

  `orders_and_positions_agree` :  between two ticks the open position of every instrument is
                                  the sum of its filled orders -/

namespace RazorTrade

open Interaction Relational Database DaemonM

/-- Positions took every fill that an order with a sleeve took, in the same order. -/
def Paired (w : World) : Prop :=
  w.orderTakes.filter (fun x => x.sleeve.isSome) = w.positionTakes

/-! ## The condition -/

/-- A position write does not fail. -/
def PositionWriteOk (o : Op) (c : Choice) : Prop :=
  match o with
  | .db (.applyFillToPosition ..) => c.fails = false
  | _ => True

instance Paired.decidable (w : World) : Decidable (Paired w) :=
  inferInstanceAs (Decidable (_ = _))

instance PositionWriteOk.decidable (o : Op) (c : Choice) : Decidable (PositionWriteOk o c) := by
  unfold PositionWriteOk
  split <;> infer_instance

instance DbOp.SumsExact.decidable (A : Arith) (db : Database) (q : DbOp) :
    Decidable (q.SumsExact A db) := by
  unfold DbOp.SumsExact
  split <;> infer_instance

instance Op.SumsExact.decidable (A : Arith) (w : World) (o : Op) :
    Decidable (o.SumsExact A w) := by
  unfold Op.SumsExact
  split <;> infer_instance

namespace Daemon

variable (d : Daemon)

/-- No restart while an order is ahead of its position, no failing position write, exact
sums. -/
def agreementCondition : d.system.Condition where
  act _ w o ch := o.SumsExact d.A w ∧ PositionWriteOk o ch
  restart w := Paired w

instance : d.agreementCondition.Testable where
  act _ w o ch :=
    @instDecidableAnd _ _ (Op.SumsExact.decidable d.A w o) (PositionWriteOk.decidable o ch)
  finish _ _ _ := inferInstanceAs (Decidable True)
  env _ _ := inferInstanceAs (Decidable True)
  restart w := Paired.decidable w

end Daemon

/-! ## The invariant and the contract -/

structure AgreementInv (w : World) : Prop where
  ledger : FillLedger w
  sleeved : ∀ x ∈ w.orderTakes, x.sleeve.isSome = true

/-- What holds in each phase of a fill. -/
def PairedAt : FillPhase → World → Prop
  | .taken fill out, w => w.orderTakes.filter (fun x => x.sleeve.isSome) = w.positionTakes ++
    [(⟨fill, out.instrumentSymbol, out.isBuy, out.sleeve⟩ : Take)].filter fun x => x.sleeve.isSome
  | _, w => Paired w

def agreementContract : Contract World Op Ans (Except String Unit) TaskId where
  Inv := AgreementInv
  Idle
    | .reconciler => Paired
    | _ => fun _ => True
  R
    | .reconciler => SameFills
    | _ => fun _ _ => True
  G _ _ _ _ := True
  Q
    | .reconciler => fun _ w _ => Paired w
    | _ => fun _ _ _ => True

/-! ## Lemmas -/

section Phases

variable {A : Arith} {c : Choice} {w w' : World} {fill : FillEntry} {t : String}

theorem PairedAt.frame {φ : FillPhase} (h : PairedAt φ w) (hw : SameFills w w') :
    PairedAt φ w' := by
  have hkeep (ahead : List Take)
      (h : w.orderTakes.filter (fun x => x.sleeve.isSome) = w.positionTakes ++ ahead) :
      w'.orderTakes.filter (fun x => x.sleeve.isSome) = w'.positionTakes ++ ahead := by
    rw [hw.orders, hw.positions]
    exact h
  cases φ with
  | taken fill out => exact hkeep _ h
  | _ => exact (hkeep [] (h.trans (List.append_nil _).symm)).trans (List.append_nil _)

theorem PairedAt.order {out : OrderFillOutcome} (h : Paired w)
    (hs : (sem A).step c (.db (.applyFillToOrder fill t)) w = some (.ok (some out), w')) :
    PairedAt (.taken fill out) w' := by
  obtain ⟨horders, hpositions, -⟩ := order_takes hs
  show w'.orderTakes.filter _ = w'.positionTakes ++ _
  rw [horders, hpositions, List.filter_append, h]

theorem PairedAt.position {out : OrderFillOutcome} {sleeve : String} {y : PositionFillOutcome}
    (h : PairedAt (.taken fill out) w) (hsleeve : out.sleeve = some sleeve)
    (hs : (sem A).step c (.db (.applyFillToPosition fill out.instrumentSymbol out.broker sleeve
      out.isBuy t)) w = some (.ok y, w')) : Paired w' := by
  obtain ⟨horders, hpositions, -⟩ := position_takes hs
  unfold Paired
  rw [horders, hpositions]
  refine h.trans ?_
  rw [hsleeve]
  rfl

theorem takenSum_of_paired {symbol : String} (h : AgreementInv w) (hp : Paired w) :
    takenSum symbol w.orderTakes = takenSum symbol w.positionTakes := by
  have hall : w.orderTakes.filter (fun x => x.sleeve.isSome) = w.orderTakes :=
    List.filter_eq_self.mpr h.sleeved
  rw [← hp, hall]

end Phases

theorem agreementInv_initial (now : Instant) : AgreementInv (World.initial now) where
  ledger := ⟨fun _ => rfl, fun _ => rfl⟩
  sleeved := fun _ hx => nomatch hx

namespace Daemon

variable {d : Daemon}

/-- The three writes of the tick, under the condition. -/
def agreementProof (d : Daemon) :
    FillProof d (d.agreementCondition.act .reconciler) fun _ _ => True where
  At := PairedAt
  frame := PairedAt.frame
  allowed := fun _ => trivial
  unrecorded := fun h _ => h
  leave := fun h => h
  abandon := fun h => h
  noSleeve := by
    intro w fill out h hsleeve
    have hnone : [(⟨fill, out.instrumentSymbol, out.isBuy, out.sleeve⟩ : Take)].filter
        (fun x => x.sleeve.isSome) = [] := by
      rw [hsleeve]
      rfl
    exact h.trans (by rw [hnone, List.append_nil])
  order := fun h => ⟨trivial, fun c out w' _ hs => PairedAt.order h hs⟩
  position := by
    intro w fill out sleeve t h hsleeve
    refine ⟨trivial, fun c hok => ⟨fun e w' hs => ?_, fun y w' hs => h.position hsleeve hs⟩⟩
    obtain ⟨-, hfails | ⟨e', he'⟩⟩ := opStep_db_error hs
    · have hwrite : c.fails = false := hok.2
      rw [hwrite] at hfails
      cases hfails
    · obtain ⟨y, -, hy⟩ := Option.map_eq_some_iff.mp he'
      cases hy
  record := by
    intro w fill t h
    refine ⟨trivial, fun c x w' _ hs => ?_⟩
    cases x with
    | error e =>
      rw [(opStep_db_error hs).1]
      exact h
    | ok x =>
      obtain ⟨horders, hpositions, -⟩ := record_takes hs
      show w'.orderTakes.filter _ = w'.positionTakes
      rw [horders, hpositions]
      exact h

/-- **Step.**  The sums of the tables stay those of the journal, and an order that takes a
fill has a sleeve. -/
theorem agreementInv_step {w w' : World} {o : Op} {c : Choice} {x : Ans o} (hl : d.Linked w)
    (h : AgreementInv w) (hexact : o.SumsExact d.A w)
    (hs : (sem d.A).step c o w = some (x, w')) : AgreementInv w' := by
  refine ⟨fillLedger_step h.ledger hexact hs, ?_⟩
  by_cases hw : FillWrite o
  · cases o with
    | db q =>
      cases x with
      | error e =>
        rw [(opStep_db_error hs).1]
        exact h.sleeved
      | ok x =>
        cases q with
        | applyFillToOrder fill t =>
          cases x with
          | none =>
            rw [(sameFills_unmatched hs).orders]
            exact h.sleeved
          | some out =>
            have hleverage : Leverage out := by
              obtain ⟨db, hr, -⟩ := opStep_db_ok hs
              exact hl.leverage hr
            rw [(order_takes hs).1]
            intro y hy
            rcases List.mem_append.mp hy with hy | hy
            · exact h.sleeved y hy
            · cases List.mem_singleton.mp hy
              rw [hleverage.sleeve]
              rfl
        | applyFillToPosition fill symbol broker sleeve isBuy t =>
          rw [(position_takes hs).1]
          exact h.sleeved
        | recordFillApplied broker f t =>
          rw [(record_takes hs).1]
          exact h.sleeved
        | _ => exact hw.elim
    | _ => exact hw.elim
  · rw [(sameFills_step hs hw).orders]
    exact h.sleeved

theorem agreement_validOver : d.contract.ValidOver agreementContract d.agreementCondition where
  refl := by
    intro i w
    cases i with
    | reconciler => exact .refl w
    | _ => trivial
  trans := by
    intro i a b c h h'
    cases i with
    | reconciler => exact SameFills.trans h h'
    | _ => trivial
  stable := by
    intro i w w' h hw
    cases i with
    | reconciler =>
      show PairedAt .idle w'
      exact PairedAt.frame h hw
    | _ => trivial
  start := by
    intro i w _ _ hidle
    cases i with
    | reconciler => exact (agreementProof d).tick hidle
    | _ => exact safe_top _ _ _
  act := by
    intro i tr w o ch x w' hl hL h _ hok hs
    refine ⟨agreementInv_step hl h hok.1 hs, fun j hj => ?_⟩
    cases j with
    | reconciler =>
      refine sameFills_step hs fun hw => hj ?_
      exact (fillOp_of_G hL (fillOp_of_fillWrite hw)).symm
    | _ => trivial
  finish := by
    intro i tr w v _ hQ _
    cases i with
    | reconciler => exact hQ
    | _ => trivial
  env := by
    intro a w w' _ h _ ha
    have hsame := sameFills_act ha
    obtain ⟨horders, hpositions, -⟩ := act_tables ha
    refine ⟨⟨⟨fun s => ?_, fun s => ?_⟩, ?_⟩, fun i => ?_⟩
    · rw [hsame.orders, filledSumAll, horders]
      exact h.ledger.orders s
    · rw [hsame.positions, openSum, hpositions]
      exact h.ledger.positions s
    · rw [hsame.orders]
      exact h.sleeved
    · cases i with
      | reconciler => exact hsame
      | _ => trivial
  restart := by
    intro w _ h hpaired
    refine ⟨⟨⟨h.ledger.orders, h.ledger.positions⟩, h.sleeved⟩, fun i => ?_⟩
    cases i with
    | reconciler => exact hpaired
    | _ => trivial

/-- Every order row has a sleeve. -/
theorem Linked.filledSum_eq {w : World} (h : d.Linked w) (symbol : String) :
    w.db.filledSum symbol = w.db.filledSumAll symbol := by
  unfold filledSum filledSumAll
  congr 1
  refine List.map_congr_left fun r hr => if_pos ?_
  obtain ⟨s, sig, hlink⟩ := h.orders _ _ (orderColumns_of_mem hr)
  obtain ⟨x, hx, -⟩ := Option.map_eq_some_iff.mp hlink.signal
  have hs : r.signalId = some s := hlink.signalId
  unfold sleeveOf
  rw [hs, Option.bind_some, hx]
  rfl

/-! ## Top theorem (proved from the lemmas above) -/

/-- **Orders and positions agree.**  In every run under the condition, whenever the reconciler
is between two ticks, the open signed quantity of each instrument is the signed filled
quantity of its orders that have a sleeve. -/
theorem orders_and_positions_agree {now : Instant} {c : Config}
    (h : d.agreementCondition.Reaches (initial now) c) (hidle : c.pass .reconciler = none)
    (symbol : String) : c.state.db.openSum symbol = c.state.db.filledSum symbol := by
  have hvalid := (contract_valid (d := d) d.agreementCondition).and agreement_validOver
  have hstart : ∀ i, agreementContract.Idle i (World.initial now) := by
    intro i
    cases i with
    | reconciler => exact (rfl : Paired (World.initial now))
    | _ => trivial
  have hholds := Contract.hold_of_reaches hvalid (Contract.holds_idle
    ⟨linked_initial now, agreementInv_initial now⟩ fun i => ⟨trivial, hstart i⟩) h
  obtain ⟨hl, hinv⟩ := hholds.1
  have hpaired : Paired c.state := (hholds.idle hidle).2
  calc c.state.db.openSum symbol
      = takenSum symbol c.state.positionTakes := hinv.ledger.positions symbol
    _ = takenSum symbol c.state.orderTakes := (takenSum_of_paired hinv hpaired).symm
    _ = c.state.db.filledSumAll symbol := (hinv.ledger.orders symbol).symm
    _ = c.state.db.filledSum symbol := (hl.filledSum_eq symbol).symm

theorem orders_and_positions_agree_sample :
    ∃ c, sampleDaemon.agreementCondition.Reaches (initial sampleTime) c ∧
      c.state.db.filledSum perpSymbol = 110 ∧
      ∀ symbol, c.state.db.openSum symbol = c.state.db.filledSum symbol := by
  have hrun : ((sampleDaemon.agreementCondition.runTested fillRun (initial sampleTime)).any
      fun c => decide (c.state.db.filledSum perpSymbol = 110) &&
        (c.pass .reconciler).isNone) = true := by decide +kernel
  obtain ⟨c, hc, hp⟩ := reaches_of_test hrun
  obtain ⟨hfilled, hidle⟩ := Bool.and_eq_true_iff.mp hp
  have hnone : c.pass .reconciler = none := Option.isNone_iff_eq_none.mp hidle
  exact ⟨c, hc, of_decide_eq_true hfilled, fun symbol => orders_and_positions_agree hc hnone symbol⟩

/-! ### A restart between the two writes -/

/-- The daemon stops when the order has taken the fill; the next ticks take it again. -/
def interruptedFillRun : List sampleDaemon.system.Label :=
  entryRun ++ [.env (.fillsSnapshot [sampleFill]), .start .reconciler] ++ smooth .reconciler 5 ++
    [.restart, .env (.fillsSnapshot [sampleFill]), .start .reconciler] ++
    smooth .reconciler 13 ++ [.finish .reconciler]

/-- No statement fails, and the orders have filled twice what the position carries. -/
theorem filled_twice_opened_once :
    ∃ c, sampleDaemon.Reaches sampleTime c ∧ c.pass .reconciler = none ∧
      c.state.db.filledSum perpSymbol = 220 ∧ c.state.db.openSum perpSymbol = 110 := by
  have hrun : ((sampleDaemon.run sampleTime interruptedFillRun).any fun c =>
      (c.pass .reconciler).isNone && decide (c.state.db.filledSum perpSymbol = 220) &&
        decide (c.state.db.openSum perpSymbol = 110)) = true := by decide +kernel
  obtain ⟨c, hc, hp⟩ := reaches_of_check sampleDaemon hrun
  obtain ⟨hp, hopen⟩ := Bool.and_eq_true_iff.mp hp
  obtain ⟨hidle, hfilled⟩ := Bool.and_eq_true_iff.mp hp
  exact ⟨c, hc, Option.isNone_iff_eq_none.mp hidle, of_decide_eq_true hfilled,
    of_decide_eq_true hopen⟩

end Daemon

end RazorTrade
