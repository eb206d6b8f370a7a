import RazorTrade.Daemon.Contracts
import RazorTrade.Persistence.Exposure

/-! # The fills in the journal, and the phases of a fill

`orderTakes` and `positionTakes` list the fills that an order and a position took, in the
order of the commits.  Only three statements add to them or to `applied_fills`, and only the
reconciler issues these (`FillWrite`).  The sums of both tables are the sums of the two lists
(`FillLedger`).

A tick leads every fill through the phases of `FillPhase`.  A `FillProof` gives each phase an
assertion; that the three writes lead from one to the next is all that it has to show.

  `fillLedger_step`  :  the tables and the lists keep the same sums
  `sameFills_step`   :  what is not one of the three writes leaves the lists alone
  `FillProof.tick`   :  a tick keeps the assertion of the idle phase -/

namespace RazorTrade

open Interaction Relational Database DaemonM

/-- A fill that a table took, with the instrument, side and sleeve that its order has. -/
structure Take where
  fill : FillEntry
  symbol : String
  isBuy : Bool
  sleeve : Option String
deriving DecidableEq, Repr

def Take.signed (x : Take) : ℚ := signedQty x.isBuy x.fill.qty

/-- The fill that a commit added to an order. -/
def Commit.orderTake : Commit → Option Take
  | ⟨.applyFillToOrder fill _, some out⟩ =>
    some ⟨fill, out.instrumentSymbol, out.isBuy, out.sleeve⟩
  | _ => none

/-- The fill that a commit added to a position. -/
def Commit.positionTake : Commit → Option Take
  | ⟨.applyFillToPosition fill symbol _ sleeve isBuy _, _⟩ =>
    some ⟨fill, symbol, isBuy, some sleeve⟩
  | _ => none

namespace World

def orderTakes (w : World) : List Take := w.journal.filterMap Commit.orderTake

def positionTakes (w : World) : List Take := w.journal.filterMap Commit.positionTake

end World

/-- Signed quantity of the fills of an instrument. -/
def takenSum (symbol : String) (xs : List Take) : ℚ :=
  (xs.map fun x => if symbol = x.symbol then x.signed else 0).sum

/-- The tables carry what the journal says that they took. -/
structure FillLedger (w : World) : Prop where
  orders : ∀ s, w.db.filledSumAll s = takenSum s w.orderTakes
  positions : ∀ s, w.db.openSum s = takenSum s w.positionTakes

/-- Nothing about fills has changed. -/
structure SameFills (w w' : World) : Prop where
  orders : w'.orderTakes = w.orderTakes
  positions : w'.positionTakes = w.positionTakes
  applied : w'.db.appliedFills = w.db.appliedFills

/-- The three statements that write what fills change. -/
def FillWrite : Op → Prop
  | .db (.applyFillToOrder ..) | .db (.applyFillToPosition ..) | .db (.recordFillApplied ..) => True
  | _ => False

/-- The database fails. -/
def Choice.fails : Choice → Bool
  | .dbError _ => true
  | _ => false

/-- The sums of quantities that an operation makes are exact. -/
def Op.SumsExact (A : Arith) (w : World) : Op → Prop
  | .db q => q.SumsExact A w.db
  | _ => True

/-- Where a tick is with a fill. -/
inductive FillPhase where
  /-- Between two fills. -/
  | idle
  /-- The fill is not recorded, and no order has taken it in this tick. -/
  | fresh (fill : FillEntry)
  /-- An order has taken it. -/
  | taken (fill : FillEntry) (out : OrderFillOutcome)
  /-- What is left is to record it. -/
  | done (fill : FillEntry)

/-- The write of a position for a fill that an order took. -/
def positionWrite (fill : FillEntry) (out : OrderFillOutcome) (sleeve t : String) : Op :=
  .db (.applyFillToPosition fill out.instrumentSymbol out.broker sleeve out.isBuy t)

/-- An assertion for each phase, and that the three writes lead from one phase to the next.
`P` restricts the choices and `G` says what the tick may issue. -/
structure FillProof (d : Daemon) (P : World → Op → Choice → Prop) (G : World → Op → Prop) where
  At : FillPhase → World → Prop
  frame : ∀ {φ w w'}, At φ w → SameFills w w' → At φ w'
  allowed : ∀ {w o}, ¬ FillWrite o → G w o
  unrecorded : ∀ {w fill}, At .idle w →
    w.db.hasFillBeenApplied krakenFutures fill.fillId = false → At (.fresh fill) w
  leave : ∀ {w fill}, At (.fresh fill) w → At .idle w
  abandon : ∀ {w fill}, At (.fresh fill) w → At (.done fill) w
  noSleeve : ∀ {w fill out}, At (.taken fill out) w → out.sleeve = none → At (.done fill) w
  order : ∀ {w fill t}, At (.fresh fill) w → G w (.db (.applyFillToOrder fill t)) ∧
    ∀ c out w', P w (.db (.applyFillToOrder fill t)) c →
      (sem d.A).step c (.db (.applyFillToOrder fill t)) w = some (.ok (some out), w') →
      At (.taken fill out) w'
  position : ∀ {w fill out sleeve t}, At (.taken fill out) w → out.sleeve = some sleeve →
    G w (positionWrite fill out sleeve t) ∧ ∀ c, P w (positionWrite fill out sleeve t) c →
      (∀ e w', (sem d.A).step c (positionWrite fill out sleeve t) w = some (.error e, w') →
        At .idle w') ∧
      ∀ y w', (sem d.A).step c (positionWrite fill out sleeve t) w = some (.ok y, w') →
        At (.done fill) w'
  record : ∀ {w fill t}, At (.done fill) w →
    G w (.db (.recordFillApplied krakenFutures fill.fillId t)) ∧
      ∀ c x w', P w (.db (.recordFillApplied krakenFutures fill.fillId t)) c →
        (sem d.A).step c (.db (.recordFillApplied krakenFutures fill.fillId t)) w = some (x, w') →
        At .idle w'

/-- The contract of a system whose reconciler is at `I` between two ticks and issues what `G`
allows, while the others leave the fills alone. -/
def fillContract (Inv I : World → Prop) (G : World → Op → Prop) :
    Contract World Op Ans (Except String Unit) TaskId where
  Inv := Inv
  Idle
    | .reconciler => I
    | _ => fun _ => True
  R
    | .reconciler => SameFills
    | _ => fun _ _ => True
  G
    | .reconciler => fun _ w o => G w o
    | _ => fun _ _ _ => True
  Q
    | .reconciler => fun _ w _ => I w
    | _ => fun _ _ _ => True

/-! ## Lemmas -/

theorem fillOp_of_fillWrite {o : Op} (h : FillWrite o) : FillOp o := by
  unfold FillWrite at h
  split at h
  case h_4 => exact h.elim
  all_goals trivial

theorem not_fillWrite_of_supervisorOp {o : Op} (h : SupervisorOp o) : ¬ FillWrite o := by
  intro hw
  exact (plain_of_supervisorOp h).2 (fillOp_of_fillWrite hw)

theorem SameFills.refl (w : World) : SameFills w w := ⟨rfl, rfl, rfl⟩

theorem SameFills.trans {a b c : World} (h : SameFills a b) (h' : SameFills b c) :
    SameFills a c :=
  ⟨h'.orders.trans h.orders, h'.positions.trans h.positions, h'.applied.trans h.applied⟩

/-- A step that leaves the journal and the applied fills alone. -/
theorem SameFills.of_eq {w w' : World} (hj : w'.journal = w.journal)
    (ha : w'.db.appliedFills = w.db.appliedFills) : SameFills w w' := by
  refine ⟨?_, ?_, ha⟩
  · unfold World.orderTakes
    rw [hj]
  · unfold World.positionTakes
    rw [hj]

theorem takenSum_append (s : String) (xs ys : List Take) :
    takenSum s (xs ++ ys) = takenSum s xs + takenSum s ys := by
  simp [takenSum]

section Step

variable {A : Arith} {c : Choice} {o : Op} {w w' : World} {x : Ans o}

/-- What a commit appends to the journal. -/
theorem takes_commit (w : World) (db : Database) (m : Commit) :
    { w with db := db, journal := w.journal ++ [m] }.orderTakes =
        w.orderTakes ++ m.orderTake.toList ∧
      { w with db := db, journal := w.journal ++ [m] }.positionTakes =
        w.positionTakes ++ m.positionTake.toList := by
  unfold World.orderTakes World.positionTakes
  constructor
  · rw [List.filterMap_append]
    cases h : m.orderTake <;> simp [h]
  · rw [List.filterMap_append]
    cases h : m.positionTake <;> simp [h]

/-- A statement fails by the choice, or by what it finds. -/
theorem opStep_db_error {o : DbOp} {e : PersistenceError}
    (h : (sem A).step c (.db o) w = some (.error e, w')) :
    w' = w ∧ (c.fails = true ∨ ∃ e', o.run A w.db = some (.error e')) := by
  have hstep : opStep A c (.db o) w = some (.error e, w') := h
  simp only [opStep] at hstep
  split at hstep
  · refine ⟨dbStep_error hstep, Or.inr ?_⟩
    unfold dbStep at hstep
    split at hstep
    · cases hstep
    · rename_i e' he
      exact ⟨e', he⟩
    · cases hstep
  · cases hstep
    exact ⟨rfl, Or.inl rfl⟩
  · cases hstep

/-- **The other operations leave the fills alone.** -/
theorem sameFills_step (h : (sem A).step c o w = some (x, w')) (ho : ¬ FillWrite o) :
    SameFills w w' := by
  by_cases hdb : ∃ q, o = .db q
  · obtain ⟨q, rfl⟩ := hdb
    rcases opStep_db h with ⟨e, -, rfl⟩ | ⟨r, db, -, hr, rfl⟩
    · exact .refl _
    obtain ⟨horders, hpositions⟩ := takes_commit w db ⟨q, r⟩
    refine ⟨?_, ?_, ?_⟩
    · rw [horders]
      cases q with
      | applyFillToOrder => exact absurd trivial ho
      | _ => exact List.append_nil _
    · rw [hpositions]
      cases q with
      | applyFillToPosition => exact absurd trivial ho
      | _ => exact List.append_nil _
    · refine (DbOp.run_sameExcept hr).appliedFills ?_
      cases q with
      | recordFillApplied => exact absurd trivial ho
      | _ => simp [DbOp.writes]
  · obtain ⟨hsame, hj⟩ := opStep_db_eq (A := A) h fun q hq => hdb ⟨q, hq⟩
    exact .of_eq hj (by rw [hsame])

theorem sameFills_act {a : Act} (h : actStep a w = some w') : SameFills w w' := by
  refine .of_eq ?_ (Daemon.act_tables h).2.2.2.1
  cases a with
  | accept n =>
    obtain ⟨e, -, rfl⟩ := Option.map_eq_some_iff.mp h
    rfl
  | _ =>
    cases h
    rfl

/-- An attempt that finds no order leaves the fills alone. -/
theorem sameFills_unmatched {fill : FillEntry} {t : String}
    (h : (sem A).step c (.db (.applyFillToOrder fill t)) w = some (.ok none, w')) :
    SameFills w w' := by
  obtain ⟨db, hr, rfl⟩ := opStep_db_ok h
  obtain ⟨horders, hpositions⟩ := takes_commit w db ⟨.applyFillToOrder fill t, none⟩
  rcases applyFillToOrder_ok hr with ⟨-, -, rfl⟩ | ⟨_, _, out, -, -, ho, -⟩
  · exact ⟨horders.trans (List.append_nil _), hpositions.trans (List.append_nil _), rfl⟩
  · cases ho

/-- An order takes a fill. -/
theorem order_takes {fill : FillEntry} {t : String} {out : OrderFillOutcome}
    (h : (sem A).step c (.db (.applyFillToOrder fill t)) w = some (.ok (some out), w')) :
    w'.orderTakes =
        w.orderTakes ++ [⟨fill, out.instrumentSymbol, out.isBuy, out.sleeve⟩] ∧
      w'.positionTakes = w.positionTakes ∧ w'.db.appliedFills = w.db.appliedFills := by
  obtain ⟨db, hr, rfl⟩ := opStep_db_ok h
  obtain ⟨horders, hpositions⟩ := takes_commit w db ⟨.applyFillToOrder fill t, some out⟩
  refine ⟨horders, hpositions.trans (List.append_nil _), ?_⟩
  exact (DbOp.run_sameExcept hr).appliedFills (by simp [DbOp.writes])

/-- A position takes a fill. -/
theorem position_takes {fill : FillEntry} {symbol broker sleeve t : String} {isBuy : Bool}
    {y : PositionFillOutcome}
    (h : (sem A).step c (.db (.applyFillToPosition fill symbol broker sleeve isBuy t)) w =
      some (.ok y, w')) :
    w'.orderTakes = w.orderTakes ∧
      w'.positionTakes = w.positionTakes ++ [⟨fill, symbol, isBuy, some sleeve⟩] ∧
      w'.db.appliedFills = w.db.appliedFills := by
  obtain ⟨db, hr, rfl⟩ := opStep_db_ok h
  obtain ⟨horders, hpositions⟩ :=
    takes_commit w db ⟨.applyFillToPosition fill symbol broker sleeve isBuy t, y⟩
  refine ⟨horders.trans (List.append_nil _), hpositions, ?_⟩
  exact (DbOp.run_sameExcept hr).appliedFills (by simp [DbOp.writes])

/-- A recorded fill stays recorded, and the record adds its fill. -/
theorem hasFillBeenApplied_record (db : Database) (broker f t fillId : String) :
    (db.recordFillApplied broker f t).hasFillBeenApplied broker fillId =
      (db.hasFillBeenApplied broker fillId || decide (f = fillId)) := by
  unfold recordFillApplied
  by_cases hf : f = fillId
  · subst hf
    split
    · rename_i h
      simp [h]
    · simp [hasFillBeenApplied]
  · split
    · simp [hf]
    · simp [hasFillBeenApplied, hf]

/-- A fill is recorded. -/
theorem record_takes {broker f t : String} {x : Unit}
    (h : (sem A).step c (.db (.recordFillApplied broker f t)) w = some (.ok x, w')) :
    w'.orderTakes = w.orderTakes ∧ w'.positionTakes = w.positionTakes ∧
      w'.db = w.db.recordFillApplied broker f t := by
  obtain ⟨db, hr, rfl⟩ := opStep_db_ok h
  obtain ⟨horders, hpositions⟩ := takes_commit w db ⟨.recordFillApplied broker f t, x⟩
  refine ⟨horders.trans (List.append_nil _), hpositions.trans (List.append_nil _), ?_⟩
  cases hr
  rfl

/-- What a commit does to the filled orders. -/
theorem filledSumAll_commit {q : DbOp} {r : q.Ret} {db db' : Database}
    (hr : q.run A db = some (.ok (r, db'))) (hexact : q.SumsExact A db) (s : String) :
    db'.filledSumAll s = db.filledSumAll s + takenSum s (Commit.orderTake ⟨q, r⟩).toList := by
  by_cases hq : ∃ fill t, q = .applyFillToOrder fill t
  · obtain ⟨fill, t, rfl⟩ := hq
    rcases applyFillToOrder_ok hr with ⟨-, rfl, rfl⟩ | ⟨_, _, out, -, -, rfl, -⟩
    · exact (add_zero _).symm
    · rw [filledSumAll_applyFill hr hexact s]
      simp [Commit.orderTake, takenSum, Take.signed]
  · have hnone : Commit.orderTake ⟨q, r⟩ = none := by
      cases q with
      | applyFillToOrder fill t => exact absurd ⟨fill, t, rfl⟩ hq
      | _ => rfl
    rw [DbOp.run_filledSumAll hr (fun fill t he => hq ⟨fill, t, he⟩) s, hnone]
    exact (add_zero _).symm

/-- What a commit does to the open positions. -/
theorem openSum_commit {q : DbOp} {r : q.Ret} {db db' : Database}
    (hr : q.run A db = some (.ok (r, db'))) (hexact : q.SumsExact A db) (s : String) :
    db'.openSum s = db.openSum s + takenSum s (Commit.positionTake ⟨q, r⟩).toList := by
  by_cases hq : ∃ fill i b sl buy t, q = .applyFillToPosition fill i b sl buy t
  · obtain ⟨fill, i, b, sl, buy, t, rfl⟩ := hq
    obtain ⟨y, hy, he⟩ := Option.map_eq_some_iff.mp hr
    cases he
    rw [(positionMove_of_apply hy).openSum (fun r hr => (hexact r hr).1)
      (fun r hr => (hexact r hr).2) s]
    simp [Commit.positionTake, takenSum, Take.signed]
  · have hnone : Commit.positionTake ⟨q, r⟩ = none := by
      cases q with
      | applyFillToPosition fill i b sl buy t => exact absurd ⟨fill, i, b, sl, buy, t, rfl⟩ hq
      | _ => rfl
    rw [DbOp.run_openSum hr (fun fill i b sl buy t he => hq ⟨fill, i, b, sl, buy, t, he⟩) s, hnone]
    exact (add_zero _).symm

/-- **Step.**  The tables and the journal keep the same sums. -/
theorem fillLedger_step (h : FillLedger w) (hexact : o.SumsExact A w)
    (hs : (sem A).step c o w = some (x, w')) : FillLedger w' := by
  by_cases hdb : ∃ q, o = .db q
  · obtain ⟨q, rfl⟩ := hdb
    rcases opStep_db hs with ⟨e, -, rfl⟩ | ⟨r, db, -, hr, rfl⟩
    · exact h
    obtain ⟨horders, hpositions⟩ := takes_commit w db ⟨q, r⟩
    refine ⟨fun s => ?_, fun s => ?_⟩
    · rw [horders, takenSum_append, ← h.orders s]
      exact filledSumAll_commit hr hexact s
    · rw [hpositions, takenSum_append, ← h.positions s]
      exact openSum_commit hr hexact s
  · obtain ⟨hsame, hj⟩ := opStep_db_eq (A := A) hs fun q hq => hdb ⟨q, hq⟩
    have hf : SameFills w w' := .of_eq hj (by rw [hsame])
    refine ⟨fun s => ?_, fun s => ?_⟩
    · rw [hsame, hf.orders, h.orders]
    · rw [hsame, hf.positions, h.positions]

end Step

/-! ## The tick -/

section Quiet

open Fallible

variable (d : Daemon) (fill : FillEntry) (t : String)

theorem evaluateKillSwitch_noWrite : All (fun o => ¬ FillWrite o) d.evaluateKillSwitchOnce :=
  all_mono (fun _ => not_fillWrite_of_supervisorOp) d.evaluateKillSwitchOnce_all

theorem backfillByCliOrdId_noWrite :
    All (fun o => ¬ FillWrite o) (Daemon.backfillByCliOrdId fill t) :=
  Daemon.all_backfillByCliOrdId fill t (fun _ _ => id) fun _ _ _ => id

end Quiet

namespace FillProof

variable {d : Daemon} {P : World → Op → Choice → Prop} {G : World → Op → Prop}
variable (F : FillProof d P G) {α β : Type} {φ ψ : FillPhase} {tr : List Ev} {w : World}
variable {fill : FillEntry} {t : String}

/-- The part ends in the phase, or in an error and the idle phase. -/
def SafeTo (ψ : FillPhase) (p : DaemonM α) (tr : List Ev) (w : World) : Prop :=
  Safe ((sem d.A).restrict P) SameFills (fun _ w o => G w o)
    (fun _ w r => match r with
      | .ok _ => F.At ψ w
      | .error _ => F.At .idle w) p.run tr w

theorem safeTo_pure (h : F.At ψ w) (a : α) : F.SafeTo ψ (pure a) tr w :=
  fun _ hw => F.frame h hw

theorem safeTo_bind {p : DaemonM α} {f : α → DaemonM β} (hp : F.SafeTo φ p tr w)
    (hf : ∀ a tr w, F.At φ w → F.SafeTo ψ (f a) tr w) : F.SafeTo ψ (p >>= f) tr w := by
  refine Fallible.safe_bind SameFills.refl (safe_mono (fun _ _ _ => id) ?_ hp)
  intro tr w r hr
  cases r with
  | ok a => exact hf a tr w hr
  | error e => exact fun w' hw => F.frame hr hw

/-- A part without writes keeps every assertion. -/
theorem noWrite_safe {p : DaemonM α} (hp : Fallible.All (fun o => ¬ FillWrite o) p)
    (h : F.At φ w) : Safe ((sem d.A).restrict P) SameFills (fun _ w o => G w o)
      (fun _ w _ => F.At φ w) p.run tr w := by
  have hall : Prog.All (fun o => ¬ FillWrite o) p.run := hp
  refine safe_restrict (safe_of_all (A := fun _ w => F.At φ w) ?_ ?_ ?_ hall h)
  · exact fun _ _ _ h hw => F.frame h hw
  · exact fun _ _ _ ho _ => F.allowed ho
  · exact fun _ _ _ _ _ _ ho h hs => F.frame h (sameFills_step hs ho)

/-- A part without writes, where an error may leave the fill. -/
theorem safeTo_noWrite (hleave : ∀ w, F.At φ w → F.At .idle w) {p : DaemonM α}
    (hp : Fallible.All (fun o => ¬ FillWrite o) p) (h : F.At φ w) : F.SafeTo φ p tr w := by
  refine safe_mono (fun _ _ _ => id) ?_ (F.noWrite_safe hp h)
  intro _ w r hr
  cases r with
  | ok _ => exact hr
  | error _ => exact hleave w hr

theorem updatePosition_safe {out : OrderFillOutcome} (h : F.At (.taken fill out) w) :
    F.SafeTo (.done fill) (d.updatePosition fill t out) tr w := by
  unfold Daemon.updatePosition
  split
  · rename_i hsleeve
    exact F.safeTo_pure (F.noSleeve h hsleeve) ()
  rename_i sleeve hsleeve
  refine restrict_dbStep fun w' hw => ?_
  obtain ⟨hG, hstep⟩ := F.position (t := t) (F.frame h hw) hsleeve
  refine ⟨hG, fun c hP => ⟨fun e w'' hs w₁ hw₁ => ?_, fun y w'' hs => ?_⟩⟩
  · exact F.frame ((hstep c hP).1 e w'' hs) hw₁
  have hdone := (hstep c hP).2 y w'' hs
  split
  · refine Fallible.safe_bind SameFills.refl (Fallible.safe_attempt SameFills.refl ?_)
    refine safe_mono (fun _ _ _ => id) ?_ (F.noWrite_safe (evaluateKillSwitch_noWrite d) hdone)
    exact fun tr w r hr w₁ hw₁ => F.safeTo_pure (F.frame hr hw₁) ()
  · exact F.safeTo_pure hdone ()

/-- One attempt to apply the fill to an order, then the rest. -/
theorem applyToOrder_safe {f : Option OrderFillOutcome → DaemonM β} (h : F.At (.fresh fill) w)
    (hnone : ∀ tr w, F.At (.fresh fill) w → F.SafeTo ψ (f none) tr w)
    (hsome : ∀ out tr w, F.At (.taken fill out) w → F.SafeTo ψ (f (some out)) tr w) :
    F.SafeTo ψ (db (.applyFillToOrder fill t) >>= f) tr w := by
  refine restrict_dbStep fun w' hw => ?_
  have hfresh := F.frame h hw
  obtain ⟨hG, hstep⟩ := F.order (t := t) hfresh
  refine ⟨hG, fun c hP => ⟨fun e w'' hs w₁ hw₁ => ?_, fun x w'' hs => ?_⟩⟩
  · rcases opStep_db hs with ⟨e, -, rfl⟩ | ⟨y, db, he, -⟩
    · exact F.leave (F.frame hfresh hw₁)
    · cases he
  cases x with
  | some out => exact hsome out _ _ (hstep c out w'' hP hs)
  | none =>
    refine hnone _ _ (F.frame hfresh ?_)
    exact sameFills_unmatched hs

theorem catchOrphan_safe (h : F.At (.fresh fill) w) :
    F.SafeTo (.done fill) (d.catchOrphan fill t) tr w := by
  have hbackfill : F.SafeTo (.fresh fill) (Daemon.backfillByCliOrdId fill t) tr w :=
    F.safeTo_noWrite (fun _ => F.leave) (backfillByCliOrdId_noWrite fill t) h
  refine F.safeTo_bind hbackfill fun found tr w h => ?_
  cases found with
  | false => exact F.safeTo_pure (F.abandon h) ()
  | true =>
    refine F.applyToOrder_safe h ?_ ?_
    · exact fun _ _ h => F.safeTo_pure (F.abandon h) ()
    · exact fun out _ _ h => F.updatePosition_safe h

theorem recordFill_safe (h : F.At (.done fill) w) :
    F.SafeTo .idle (Daemon.recordFill fill t) tr w := by
  refine restrict_dbStep fun w' hw => ?_
  obtain ⟨hG, hstep⟩ := F.record (t := t) (F.frame h hw)
  refine ⟨hG, fun c hP => ⟨fun e w'' hs w₁ hw₁ => ?_, fun x w'' hs => ?_⟩⟩
  · exact F.frame (hstep c _ w'' hP hs) hw₁
  · exact F.safeTo_noWrite (fun _ h => h) (Fallible.all_perform id) (hstep c _ w'' hP hs)

theorem reconcileFill_safe (fill : FillEntry) (h : F.At .idle w) :
    F.SafeTo .idle (d.reconcileFill fill) tr w := by
  refine F.safeTo_bind (F.safeTo_noWrite (fun _ h => h) (all_nowIso id) h) fun t tr w h => ?_
  refine restrict_dbStep fun w' hw => ?_
  have hidle := F.frame h hw
  refine ⟨F.allowed id, fun c _ => ⟨fun e w'' hs w₁ hw₁ => ?_, fun applied w'' hs => ?_⟩⟩
  · exact F.frame (F.frame hidle (sameFills_step hs id)) hw₁
  have hidle' := F.frame hidle (sameFills_step hs id)
  cases applied with
  | true => exact F.safeTo_noWrite (fun _ h => h) (Fallible.all_perform id) hidle'
  | false =>
    have hfresh : F.At (.fresh fill) w'' := by
      refine F.unrecorded hidle' ?_
      obtain ⟨db, hr, rfl⟩ := opStep_db_ok hs
      obtain ⟨hfalse, rfl⟩ := Prod.mk.inj (Except.ok.inj (Option.some.inj hr))
      exact hfalse
    refine F.applyToOrder_safe hfresh (fun tr w h => ?_) fun out tr w h => ?_
    · exact F.safeTo_bind (F.catchOrphan_safe h) fun _ _ _ h => F.recordFill_safe h
    · exact F.safeTo_bind (F.updatePosition_safe h) fun _ _ _ h => F.recordFill_safe h

/-- **A tick**, whatever it finds and wherever it stops, ends idle. -/
theorem tick (h : F.At .idle w) : Safe ((sem d.A).restrict P) SameFills (fun _ w o => G w o)
    (fun _ w _ => F.At .idle w) d.reconcileOnce.run tr w := by
  have hend {α : Type} {p : DaemonM α} {tr : List Ev} {w : World} (hp : F.SafeTo .idle p tr w) :
      Safe ((sem d.A).restrict P) SameFills (fun _ w o => G w o) (fun _ w _ => F.At .idle w)
        p.run tr w := by
    refine safe_mono (fun _ _ _ => id) ?_ hp
    intro _ w r hr
    cases r <;> exact hr
  unfold Daemon.reconcileOnce
  refine hend (F.safeTo_bind (F.safeTo_noWrite (fun _ h => h) (Fallible.all_perform id) h)
    fun ring tr w h => ?_)
  split
  · exact F.safeTo_pure h ()
  refine F.safeTo_bind (F.safeTo_noWrite (fun _ h => h) (Fallible.all_perform id) h)
    fun watermark tr w h => ?_
  split
  · exact F.safeTo_pure h ()
  refine safe_mono (fun _ _ _ => id) ?_ (Fallible.safe_forM SameFills.refl
    (A := fun _ w => F.At .idle w) (fun _ _ _ h hw => F.frame h hw)
    (fun fill _ tr w h => hend (F.reconcileFill_safe fill h)) h)
  intro _ w r hr
  cases r <;> exact hr

/-- **The contract of a tick**, over the contract of the four tasks. -/
theorem validOver {C : d.system.Condition} {G : World → Op → Prop} {Inv : World → Prop}
    (F : FillProof d (C.act .reconciler) G)
    (hstep : ∀ {i tr w o ch x w'}, d.contract.G i tr w o →
      (fillContract Inv (F.At .idle) G).G i tr w o → Inv w →
      (sem d.A).step ch o w = some (x, w') → Inv w')
    (hact : ∀ {a w w'}, Inv w → actStep a w = some w' → Inv w')
    (hrestart : ∀ {w}, Inv w → C.restart w → Inv w.reboot ∧ F.At .idle w.reboot) :
    d.contract.ValidOver (fillContract Inv (F.At .idle) G) C where
  refl := by
    intro i w
    cases i with
    | reconciler => exact .refl w
    | _ => trivial
  trans := by
    intro i a b c h h'
    cases i with
    | reconciler => exact SameFills.trans h h'
    | _ => trivial
  stable := by
    intro i w w' h hw
    cases i with
    | reconciler => exact F.frame h hw
    | _ => trivial
  start := by
    intro i w _ _ hidle
    cases i with
    | reconciler => exact F.tick hidle
    | _ => exact safe_top _ _ _
  act := by
    intro i tr w o ch x w' _ hL h hG _ hs
    refine ⟨hstep hL hG h hs, fun j hj => ?_⟩
    cases j with
    | reconciler =>
      refine sameFills_step hs fun hw => hj ?_
      exact (Daemon.fillOp_of_G hL (fillOp_of_fillWrite hw)).symm
    | _ => trivial
  finish := by
    intro i tr w v _ hQ _
    cases i with
    | reconciler => exact hQ
    | _ => trivial
  env := by
    intro a w w' _ h _ ha
    refine ⟨hact h ha, fun i => ?_⟩
    cases i with
    | reconciler => exact sameFills_act ha
    | _ => trivial
  restart := by
    intro w _ h hc
    obtain ⟨hInv, hidle⟩ := hrestart h hc
    refine ⟨hInv, fun i => ?_⟩
    cases i with
    | reconciler => exact hidle
    | _ => trivial

end FillProof

end RazorTrade
