import Mathlib.Data.List.Sort
import RazorTrade.Daemon.FillWriteOff
import RazorTrade.Kraken.FillsWindow

/-! # The order in which fills take effect

A tick takes the fills above the watermark as the ring has them.  Increments come in ascending
sequence numbers, but a snapshot keeps its own order, and the transitions of a position do not
commute.

`takeFill` is what one fill does to the tables, and `takeAll` a list of them one by one.

Main result, for every ring, database and watermark:

  `takes_in_order` :  where the fills to be applied are stored in ascending sequence numbers, a
                      tick that returns `Ok` does what `takeAll` does with them in that order

and they are so stored in every run with ordered snapshots (`ascending_of_reaches`). -/

namespace RazorTrade

open Interaction Relational Database DaemonM

/-! ## What a fill does to the tables -/

/-- The answer of a statement that succeeds, and the database after it. -/
def DbOp.answer? (A : Arith) (o : DbOp) (db : Database) : Option (o.Ret × Database) :=
  match o.run A db with
  | some (.ok r) => some r
  | _ => none

section Spec

variable (A : Arith) (t : String)

/-- Give the order with the client order id of the fill its broker order id. -/
def adoptOrder (fill : FillEntry) (db : Database) : Database :=
  match fill.cliOrdId.bind fun cli => db.findOrderIdByCliOrdId krakenFutures cli with
  | some id => db.backfillBrokerOrderId id fill.orderId t
  | none => db

/-- The fill at the position of its order. -/
def takeAtPosition (fill : FillEntry) (out : OrderFillOutcome) (db : Database) : Option Database :=
  match out.sleeve with
  | none => some db
  | some sleeve => (DbOp.answer? A (.applyFillToPosition fill out.instrumentSymbol out.broker sleeve
      out.isBuy t) db).map (·.2)

/-- The fill at the order with its broker order id and at the position of that, or `orElse` where
there is no such order. -/
def takeAtOrder (fill : FillEntry) (orElse : Database → Option Database) (db : Database) :
    Option Database := do
  match ← DbOp.answer? A (.applyFillToOrder fill t) db with
  | (some out, db) => takeAtPosition A t fill out db
  | (none, db) => orElse db

/-- One fill: not a second time, at its order, which may first have to be adopted, and recorded. -/
def takeFill (db : Database) (fill : FillEntry) : Option Database :=
  if db.hasFillBeenApplied krakenFutures fill.fillId then some db
  else do
    let db ← takeAtOrder A t fill (fun db => takeAtOrder A t fill some (adoptOrder t fill db)) db
    return db.recordFillApplied krakenFutures fill.fillId t

/-- The fills one by one. -/
def takeAll (fills : List FillEntry) (db : Database) : Option Database :=
  fills.foldlM (takeFill A t) db

end Spec

/-- The fills of the ring that are still to be applied. -/
def World.pendingFills (w : World) : List FillEntry :=
  w.fills.fills.filter fun f =>
    w.lastAppliedSeq < f.seq && !w.db.hasFillBeenApplied krakenFutures f.fillId

/-- In ascending sequence numbers. -/
def bySeq (fills : List FillEntry) : List FillEntry := fills.insertionSort fun f g => f.seq ≤ g.seq

/-- Stored in ascending sequence numbers. -/
def Ascending (fills : List FillEntry) : Prop := fills.Pairwise fun f g => f.seq ≤ g.seq

/-! ## The tables that matter -/

/-- The databases agree on the tables that fills change, and on the signals, which name the
sleeves. -/
structure SameTables (db db' : Database) : Prop where
  signals : db'.signals = db.signals
  orders : db'.orders = db.orders
  positions : db'.positions = db.positions
  appliedFills : db'.appliedFills = db.appliedFills

/-- The statements that a fill issues. -/
def FillStatement : DbOp → Prop
  | .hasFillBeenApplied .. | .applyFillToOrder .. | .applyFillToPosition ..
  | .recordFillApplied .. | .findOrderIdByCliOrdId .. | .backfillBrokerOrderId .. => True
  | _ => False

section Tables

variable {A : Arith} {db db' : Database}

theorem SameTables.refl (db : Database) : SameTables db db := ⟨rfl, rfl, rfl, rfl⟩

theorem SameTables.trans {a b c : Database} (h : SameTables a b) (h' : SameTables b c) :
    SameTables a c :=
  ⟨h'.signals.trans h.signals, h'.orders.trans h.orders, h'.positions.trans h.positions,
    h'.appliedFills.trans h.appliedFills⟩

/-- What a fill does to the positions depends on the positions alone. -/
theorem applyFillToPosition_congr (A : Arith) (symbol broker sleeve : String) (isBuy : Bool)
    (q p : ℚ) (t : String) (h : db.positions = db'.positions) :
    (db.applyFillToPosition A symbol broker sleeve isBuy q p t).map (fun r => (r.1, r.2.positions)) =
      (db'.applyFillToPosition A symbol broker sleeve isBuy q p t).map
        fun r => (r.1, r.2.positions) := by
  obtain ⟨_, _, positions, _, _, _, _, _⟩ := db
  obtain ⟨_, _, positions', _, _, _, _, _⟩ := db'
  obtain rfl : positions = positions' := h
  unfold Database.applyFillToPosition openPosition?
  cases positions.rows.reverse.find? fun r => PositionOf symbol broker r && r.closedAt.isNone with
  | none => rfl
  | some row =>
    by_cases hside : sameSide row.quantity isBuy = true
    · simp only [hside, if_true, addToPosition, Option.bind_eq_bind, Option.map_bind,
        Function.comp_def, Option.pure_def, Option.map_some]
      rfl
    · simp only [hside, reducePosition, Option.bind_eq_bind, Bool.false_eq_true, if_false]
      cases inversePnlPerContract A row.avgEntryPrice p with
      | none => rfl
      | some perContract =>
        simp only [Option.bind_some]
        by_cases hreduced : q < |row.quantity|
        · simp only [hreduced, if_true, Option.map_bind, Function.comp_def, Option.pure_def,
            Option.map_some]
          rfl
        by_cases hclosed : q = |row.quantity|
        · simp only [if_neg hreduced, if_pos hclosed, Option.map_bind, Function.comp_def,
            Option.pure_def, Option.map_some]
          rfl
        · simp only [if_neg hreduced, if_neg hclosed, Option.map_bind, Function.comp_def,
            Option.pure_def, Option.map_some]
          rfl

/-- The order that a fill is applied to depends on the orders, and its sleeve on the signals. -/
theorem applyFillToOrder_congr (A : Arith) (b : String) (q p fee : ℚ) (t : String)
    {out : Option OrderFillOutcome} {db₁ : Database} (h : SameTables db db₁)
    (hr : db₁.applyFillToOrder A b q p fee t = some (.ok (out, db'))) :
    ∃ db₂, db.applyFillToOrder A b q p fee t = some (.ok (out, db₂)) ∧
      db'.orders = db₂.orders := by
  unfold Database.applyFillToOrder orderOfBrokerId at hr ⊢
  rw [← h.orders, ← h.signals]
  split at hr
  · cases hr
    exact ⟨_, rfl, h.orders⟩
  · split at hr
    · cases hr
    · obtain ⟨r', hr', he⟩ := Option.map_eq_some_iff.mp hr
      cases he
      rw [hr']
      refine ⟨_, rfl, ?_⟩
      unfold modifyOrder
      rw [h.orders]

/-- Two databases with the same tables, after a statement that writes the same into its table. -/
theorem SameTables.of_writes {o : DbOp} {x x₂ : o.Ret} {db₁ db₂ : Database}
    (h : SameTables db db₁) (hr : o.run A db₁ = some (.ok (x, db')))
    (hr₂ : o.run A db = some (.ok (x₂, db₂))) (hs : o.writes ≠ some .signals)
    (ho : o.writes = some .orders → db'.orders = db₂.orders)
    (hp : o.writes = some .positions → db'.positions = db₂.positions)
    (ha : o.writes = some .appliedFills → db'.appliedFills = db₂.appliedFills) :
    SameTables db₂ db' := by
  have hframe := DbOp.run_sameExcept hr
  have hframe₂ := DbOp.run_sameExcept hr₂
  refine ⟨?_, ?_, ?_, ?_⟩
  · rw [hframe.signals hs, hframe₂.signals hs, h.signals]
  · by_cases hw : o.writes = some .orders
    · exact ho hw
    · rw [hframe.orders hw, hframe₂.orders hw, h.orders]
  · by_cases hw : o.writes = some .positions
    · exact hp hw
    · rw [hframe.positions hw, hframe₂.positions hw, h.positions]
  · by_cases hw : o.writes = some .appliedFills
    · exact ha hw
    · rw [hframe.appliedFills hw, hframe₂.appliedFills hw, h.appliedFills]

/-- **The other tables do not matter** to a statement of a fill. -/
theorem SameTables.run {o : DbOp} {x : o.Ret} {db₁ : Database} (h : SameTables db db₁)
    (ho : FillStatement o) (hr : o.run A db₁ = some (.ok (x, db'))) :
    ∃ db₂, o.run A db = some (.ok (x, db₂)) ∧ SameTables db₂ db' := by
  cases o with
  | hasFillBeenApplied b f =>
    obtain ⟨rfl, rfl⟩ := Prod.mk.inj (Except.ok.inj (Option.some.inj hr))
    refine ⟨db, ?_, h⟩
    show some (Except.ok (db.hasFillBeenApplied b f, db)) = _
    unfold Database.hasFillBeenApplied
    rw [h.appliedFills]
  | findOrderIdByCliOrdId b cli =>
    obtain ⟨rfl, rfl⟩ := Prod.mk.inj (Except.ok.inj (Option.some.inj hr))
    refine ⟨db, ?_, h⟩
    show some (Except.ok (db.findOrderIdByCliOrdId b cli, db)) = _
    unfold Database.findOrderIdByCliOrdId
    rw [h.orders]
  | backfillBrokerOrderId id b t =>
    obtain ⟨-, rfl⟩ := Prod.mk.inj (Except.ok.inj (Option.some.inj hr))
    refine ⟨db.backfillBrokerOrderId id b t, rfl, h.signals, ?_, h.positions, h.appliedFills⟩
    unfold Database.backfillBrokerOrderId
    rw [h.orders]
  | recordFillApplied b f t =>
    have hrun := hr
    obtain ⟨-, rfl⟩ := Prod.mk.inj (Except.ok.inj (Option.some.inj hr))
    refine ⟨db.recordFillApplied b f t, rfl, h.of_writes hrun rfl (fun hw => by cases hw)
      (fun hw => by cases hw) (fun hw => by cases hw) fun _ => ?_⟩
    unfold Database.recordFillApplied Database.hasFillBeenApplied
    rw [h.appliedFills]
    split
    · exact h.appliedFills
    · rfl
  | applyFillToOrder fill t =>
    obtain ⟨db₂, hr₂, horders⟩ := applyFillToOrder_congr A _ _ _ _ _ h hr
    exact ⟨db₂, hr₂, h.of_writes hr hr₂ (fun hw => by cases hw) (fun _ => horders)
      (fun hw => by cases hw) fun hw => by cases hw⟩
  | applyFillToPosition fill i b s buy t =>
    have hrun := hr
    obtain ⟨y, hy, he⟩ := Option.map_eq_some_iff.mp hr
    cases he
    have hsame := applyFillToPosition_congr A i b s buy fill.qty fill.price t h.positions
    rw [hy] at hsame
    obtain ⟨y₂, hy₂, he⟩ := Option.map_eq_some_iff.mp hsame.symm
    obtain ⟨hx, hpositions⟩ := Prod.mk.inj he
    have hr₂ : (DbOp.applyFillToPosition fill i b s buy t).run A db = some (.ok (y₂.1, y₂.2)) :=
      Option.map_eq_some_iff.mpr ⟨y₂, hy₂, rfl⟩
    rw [hx] at hr₂
    exact ⟨y₂.2, hr₂, h.of_writes hrun hr₂ (fun hw => by cases hw) (fun hw => by cases hw)
      (fun _ => hpositions.symm) fun hw => by cases hw⟩
  | _ => exact absurd ho id

theorem answer?_eq_some {o : DbOp} {x : o.Ret} :
    o.answer? A db = some (x, db') ↔ o.run A db = some (.ok (x, db')) := by
  unfold DbOp.answer?
  constructor
  · intro h
    split at h
    · rename_i r hr
      rw [hr, Option.some.inj h]
    · cases h
  · intro h
    rw [h]

end Tables

/-! ## The tick -/

namespace Daemon

variable {d : Daemon} {tr : List Ev} {w : World} {fill : FillEntry} {t : String} {db : Database}

/-- The world has the tables of `db`, and the time of the tick. -/
structure Follows (t : String) (db : Database) (w : World) : Prop where
  tables : SameTables db w.db
  time : canonicalIso w.clock = t

/-- What the kill switch writes is none of the tables of the fills. -/
theorem Follows.step {c : Choice} {o : Op} {x : Ans o} {w' : World} (h : Follows t db w)
    (hs : (sem d.A).step c o w = some (x, w')) (ho : SupervisorOp o) : Follows t db w' := by
  refine ⟨h.tables.trans ?_, ?_⟩
  · rcases step_db hs with hdb | ⟨q, r, rfl, hr⟩
    · rw [hdb]
      exact .refl _
    · have hframe := DbOp.run_sameExcept hr
      have hw : q.writes ≠ some .signals ∧ q.writes ≠ some .orders ∧ q.writes ≠ some .positions ∧
          q.writes ≠ some .appliedFills := by
        cases q with
        | latestEquitySnapshot | killSwitchActive | listOpenLeveragePositions |
          hasActiveHardTrigger | recordKillSwitch | insertEquitySnapshot =>
          simp [DbOp.writes]
        | _ => exact ho.elim
      exact ⟨hframe.signals hw.1, hframe.orders hw.2.1, hframe.positions hw.2.2.1,
        hframe.appliedFills hw.2.2.2⟩
  · rw [clock_step hs]
    exact h.time

/-- A statement of a fill does with the tables of `db` what it does with those of the world. -/
theorem Follows.statement {q : DbOp} {x : q.Ret} {db' : Database} {w' : World}
    (h : Follows t db w) (hr : q.run d.A w.db = some (.ok (x, db')))
    (hw : w' = { w with db := db', journal := w.journal ++ [⟨q, x⟩] }) (hq : FillStatement q) :
    ∃ db₂, q.answer? d.A db = some (x, db₂) ∧ Follows t db₂ w' := by
  obtain ⟨db₂, hr₂, htables⟩ := h.tables.run hq hr
  rw [hw]
  exact ⟨db₂, answer?_eq_some.mpr hr₂, htables, h.time⟩

/-- A part of the tick that takes the tables to those of `r`, unless the orphan-catcher meets an
error. -/
def TakesTo (d : Daemon) (t : String) (r : Option Database) (p : DaemonM Unit) (tr : List Ev)
    (w : World) : Prop :=
  Fallible.Alone (sem d.A) (Fallible.OnOk fun _ tr w => AdoptionFine tr →
    ∃ db, r = some db ∧ Follows t db w) p tr w

theorem adoptionFine_of_append (tr : List Ev) (e : Ev) (h : AdoptionFine (tr ++ [e])) :
    AdoptionFine tr :=
  fun e' he' => h e' (List.mem_append_left _ he')

theorem takesTo_pure (h : Follows t db w) : d.TakesTo t (some db) (pure ()) tr w :=
  Fallible.alone_pure fun _ => ⟨db, rfl, h⟩

theorem updatePosition_takesTo {out : OrderFillOutcome} (h : Follows t db w) :
    d.TakesTo t (takeAtPosition d.A t fill out db) (d.updatePosition fill t out) tr w := by
  unfold updatePosition takeAtPosition
  cases hsleeve : out.sleeve with
  | none => exact takesTo_pure h
  | some sleeve =>
    refine alone_db (fun _ => trivial) fun c y w' db' _ hr hw => ?_
    obtain ⟨db₂, hanswer, hfollows⟩ := h.statement hr hw trivial
    simp only [hanswer, Option.map_some]
    split
    · refine Fallible.alone_attempt (Fallible.alone_mono (fun tr w r h => takesTo_pure h)
        (Fallible.alone_frame (A := fun _ => Follows t db₂) ?_ d.evaluateKillSwitchOnce_all hfollows))
      exact fun _ _ _ _ _ _ ho h hs => h.step hs ho
    · exact takesTo_pure hfollows

/-- Once the fill is looked for under its client order id. -/
theorem backfillByCliOrdId_takesTo (h : Follows t db w) :
    Fallible.Alone (sem d.A) (Fallible.OnOk fun found tr w => AdoptionFine tr →
      Follows t (adoptOrder t fill db) w ∧ (found = false → adoptOrder t fill db = db))
      (backfillByCliOrdId fill t) tr w := by
  unfold backfillByCliOrdId adoptOrder
  cases hcli : fill.cliOrdId with
  | none => exact Fallible.alone_pure fun _ => ⟨h, fun _ => rfl⟩
  | some cli =>
    refine Fallible.alone_perform fun c found w₁ hs => ?_
    rcases opStep_db hs with ⟨e, rfl, rfl⟩ | ⟨id?, db₁, rfl, hr, hw₁⟩
    · exact Fallible.alone_pure fun hfine => absurd hfine (not_fine_of_failed rfl)
    obtain ⟨db₂, hanswer, hfollows⟩ := h.statement hr hw₁ trivial
    obtain ⟨hid, rfl⟩ := Prod.mk.inj (Except.ok.inj (Option.some.inj (answer?_eq_some.mp hanswer)))
    simp only [Option.bind_some, hid]
    cases id? with
    | none => exact Fallible.alone_pure fun _ => ⟨hfollows, fun _ => rfl⟩
    | some id =>
      refine Fallible.alone_perform fun c done w₂ hs₂ => ?_
      rcases opStep_db hs₂ with ⟨e, rfl, rfl⟩ | ⟨_, db₃, rfl, hr₂, hw₂⟩
      · exact Fallible.alone_pure fun hfine => absurd hfine (not_fine_of_failed rfl)
      obtain ⟨db₄, hanswer₂, hfollows₂⟩ := hfollows.statement hr₂ hw₂ trivial
      obtain ⟨-, rfl⟩ :=
        Prod.mk.inj (Except.ok.inj (Option.some.inj (answer?_eq_some.mp hanswer₂)))
      exact Fallible.alone_pure fun _ => ⟨hfollows₂, fun hfound => by cases hfound⟩

/-- An attempt to apply the fill to its order, then the position or `p`. -/
def attemptFill (d : Daemon) (fill : FillEntry) (t : String) (p : DaemonM Unit) : DaemonM Unit := do
  match ← DaemonM.db (.applyFillToOrder fill t) with
  | some outcome => d.updatePosition fill t outcome
  | none => p

theorem applyFill_eq : d.applyFill fill t =
    d.attemptFill fill t (d.catchOrphan fill t) >>= fun _ => recordFill fill t := by
  unfold applyFill attemptFill
  rw [bind_assoc]
  congr 1
  funext out
  cases out <;> rfl

theorem attemptFill_takesTo (orElse : Database → Option Database) {p : DaemonM Unit}
    (h : Follows t db w)
    (hp : ∀ tr w, DbOp.answer? d.A (.applyFillToOrder fill t) db = some (none, db) →
      Follows t db w → d.TakesTo t (orElse db) p tr w) :
    d.TakesTo t (takeAtOrder d.A t fill orElse db) (d.attemptFill fill t p) tr w := by
  refine alone_db (fun _ => trivial) fun c out w' db' _ hr hw => ?_
  obtain ⟨db₂, hanswer, hfollows⟩ := h.statement hr hw trivial
  unfold takeAtOrder
  cases out with
  | some out =>
    rw [hanswer]
    exact updatePosition_takesTo hfollows
  | none =>
    have hsame : db₂ = db := by
      rcases applyFillToOrder_ok (answer?_eq_some.mp hanswer) with
        ⟨-, -, hdb⟩ | ⟨_, _, _, -, -, ho, -⟩
      · exact hdb
      · cases ho
    subst hsame
    rw [hanswer]
    exact hp _ _ hanswer hfollows

theorem catchOrphan_takesTo (h : Follows t db w)
    (hnone : DbOp.answer? d.A (.applyFillToOrder fill t) db = some (none, db)) :
    d.TakesTo t (takeAtOrder d.A t fill some (adoptOrder t fill db)) (d.catchOrphan fill t) tr w := by
  refine Fallible.alone_onOk (backfillByCliOrdId_takesTo h) fun found tr w hfound => ?_
  refine Fallible.alone_provided adoptionFine_of_append fun hfine => ?_
  obtain ⟨hfollows, hsame⟩ := hfound hfine
  cases found with
  | true => exact attemptFill_takesTo some hfollows fun _ _ _ h => takesTo_pure h
  | false =>
    rw [hsame rfl] at hfollows ⊢
    unfold takeAtOrder
    rw [hnone]
    exact takesTo_pure hfollows

theorem advance_takesTo (seq : ℕ) (h : Follows t db w) :
    d.TakesTo t (some db) (perform (.advance seq)) tr w := by
  rw [← bind_pure (perform (.advance seq))]
  refine Fallible.alone_perform fun c y w'' hs => ?_
  obtain ⟨-, rfl⟩ := inMemory_eq hs
  exact takesTo_pure ⟨h.tables, h.time⟩

theorem recordFill_takesTo (h : Follows t db w) :
    d.TakesTo t (some (db.recordFillApplied krakenFutures fill.fillId t)) (recordFill fill t)
      tr w := by
  refine alone_db (fun _ => trivial) fun c x w' db' _ hr hw => ?_
  obtain ⟨db₂, hanswer, hfollows⟩ := h.statement hr hw trivial
  obtain ⟨-, rfl⟩ := Prod.mk.inj (Except.ok.inj (Option.some.inj (answer?_eq_some.mp hanswer)))
  exact advance_takesTo _ hfollows

theorem applyFill_takesTo (h : Follows t db w)
    (hnew : db.hasFillBeenApplied krakenFutures fill.fillId = false) :
    d.TakesTo t (takeFill d.A t db fill) (d.applyFill fill t) tr w := by
  rw [applyFill_eq]
  refine Fallible.alone_onOk (attemptFill_takesTo
    (fun db => takeAtOrder d.A t fill some (adoptOrder t fill db)) h
    fun _ _ hnone h => catchOrphan_takesTo h hnone) fun _ tr w hr => ?_
  refine Fallible.alone_provided adoptionFine_of_append fun hfine => ?_
  obtain ⟨db', htaken, hfollows⟩ := hr hfine
  have htake : takeFill d.A t db fill =
      some (db'.recordFillApplied krakenFutures fill.fillId t) := by
    unfold takeFill
    rw [if_neg (by rw [hnew]; exact Bool.false_ne_true), htaken]
    rfl
  rw [htake]
  exact recordFill_takesTo hfollows

/-- **One fill.** -/
theorem reconcileFill_takesTo (h : Follows t db w) :
    d.TakesTo t (takeFill d.A t db fill) (d.reconcileFill fill) tr w := by
  unfold reconcileFill nowIso now
  rw [bind_assoc]
  refine Fallible.alone_perform fun c clock w₁ hs₁ => ?_
  obtain ⟨rfl, rfl⟩ := inMemory_eq hs₁
  rw [pure_bind]
  refine alone_db (fun _ => trivial) fun c applied w₂ db₂ _ hr hw => ?_
  obtain ⟨db₃, hanswer, hfollows⟩ := h.statement hr hw trivial
  obtain ⟨happlied, rfl⟩ :=
    Prod.mk.inj (Except.ok.inj (Option.some.inj (answer?_eq_some.mp hanswer)))
  cases applied with
  | true =>
    unfold takeFill
    rw [if_pos happlied]
    exact advance_takesTo _ hfollows
  | false =>
    have htime := h.time
    rw [htime]
    exact applyFill_takesTo hfollows happlied

/-- **The tick.**  The fills above the watermark, as the ring has them. -/
theorem reconcileOnce_takesTo (h : Follows t db w) (hsynced : w.fills.isSynced = true) :
    d.TakesTo t (takeAll d.A t (w.fills.fills.filter fun f => w.lastAppliedSeq < f.seq) db)
      d.reconcileOnce tr w := by
  unfold reconcileOnce
  refine Fallible.alone_perform fun c ring w₁ hs₁ => ?_
  obtain ⟨rfl, rfl⟩ := inMemory_eq hs₁
  simp only [hsynced, Bool.not_true, Bool.false_eq_true, if_false]
  refine Fallible.alone_perform fun c watermark w₂ hs₂ => ?_
  obtain ⟨rfl, rfl⟩ := inMemory_eq hs₂
  have hfollows : Follows t db { w with lastRead := w.fills } := ⟨h.tables, h.time⟩
  by_cases hold : w.fills.highestSeq ≤ w.lastAppliedSeq
  · have hnone : (w.fills.fills.filter fun f => w.lastAppliedSeq < f.seq) = [] := by
      refine List.filter_eq_nil_iff.mpr fun f hf => ?_
      have hbounded := w.fills.bounded f hf
      simp only [decide_eq_true_eq]
      omega
    simp only [hold, if_true]
    rw [hnone]
    exact takesTo_pure hfollows
  · simp only [hold, if_false]
    have hfill : ∀ fill db tr w, AdoptionFine tr → Follows t db w →
        d.TakesTo t (takeFill d.A t db fill) (d.reconcileFill fill) tr w :=
      fun fill db tr w _ h => reconcileFill_takesTo h
    exact Fallible.alone_fold adoptionFine_of_append hfill _ fun _ => hfollows

end Daemon

/-! ## Fills that are already recorded -/

section Pending

variable {A : Arith} {t : String} {db db' : Database}

theorem takeAtPosition_appliedFills {fill : FillEntry} {out : OrderFillOutcome}
    (h : takeAtPosition A t fill out db = some db') : db'.appliedFills = db.appliedFills := by
  unfold takeAtPosition at h
  split at h
  · rw [Option.some.inj h]
  · obtain ⟨⟨y, db₂⟩, hanswer, rfl⟩ := Option.map_eq_some_iff.mp h
    exact (DbOp.run_sameExcept (answer?_eq_some.mp hanswer)).appliedFills (fun hw => by cases hw)

theorem takeAtOrder_appliedFills {fill : FillEntry} {orElse : Database → Option Database}
    (horElse : ∀ db db', orElse db = some db' → db'.appliedFills = db.appliedFills)
    (h : takeAtOrder A t fill orElse db = some db') : db'.appliedFills = db.appliedFills := by
  obtain ⟨⟨out, db₂⟩, hanswer, hrest⟩ := Option.bind_eq_some_iff.mp h
  have hsame := (DbOp.run_sameExcept (answer?_eq_some.mp hanswer)).appliedFills
    (fun hw => by cases hw)
  cases out with
  | none => exact (horElse _ _ hrest).trans hsame
  | some out => exact (takeAtPosition_appliedFills hrest).trans hsame

/-- No fill removes a record. -/
theorem applied_of_takeFill {fill : FillEntry} (h : takeFill A t db fill = some db') {id : String}
    (happlied : db.hasFillBeenApplied krakenFutures id = true) :
    db'.hasFillBeenApplied krakenFutures id = true := by
  unfold takeFill at h
  split at h
  · rw [← Option.some.inj h]
    exact happlied
  · obtain ⟨db₂, htaken, hrecord⟩ := Option.bind_eq_some_iff.mp h
    have hsame : db₂.appliedFills = db.appliedFills := by
      refine takeAtOrder_appliedFills (fun db₃ db₄ h₄ => ?_) htaken
      refine (takeAtOrder_appliedFills (fun _ _ h₅ => by rw [Option.some.inj h₅]) h₄).trans ?_
      unfold adoptOrder
      split <;> rfl
    have hstill : db₂.hasFillBeenApplied krakenFutures id = true := by
      unfold hasFillBeenApplied
      rw [hsame]
      exact happlied
    rw [← Option.some.inj hrecord, hasFillBeenApplied_record, hstill, Bool.true_or]

/-- A recorded fill changes nothing, so it may be left out. -/
theorem takeAll_filter (fills : List FillEntry) (p : FillEntry → Bool)
    (h : ∀ f ∈ fills, p f = false → db.hasFillBeenApplied krakenFutures f.fillId = true) :
    takeAll A t (fills.filter p) db = takeAll A t fills db := by
  induction fills generalizing db with
  | nil => rfl
  | cons f fills ih =>
    have hrest : ∀ g ∈ fills, p g = false →
        db.hasFillBeenApplied krakenFutures g.fillId = true :=
      fun g hg => h g (List.mem_cons_of_mem _ hg)
    unfold takeAll at ih ⊢
    rw [List.foldlM_cons]
    cases hp : p f with
    | false =>
      have hskip : takeFill A t db f = some db := by
        unfold takeFill
        rw [if_pos (h f List.mem_cons_self hp)]
      rw [List.filter_cons_of_neg (by rw [hp]; exact Bool.false_ne_true), hskip]
      exact ih hrest
    | true =>
      rw [List.filter_cons_of_pos hp, List.foldlM_cons]
      cases htake : takeFill A t db f with
      | none => rfl
      | some db' =>
        exact ih fun g hg hnot => applied_of_takeFill htake (hrest g hg hnot)

theorem bySeq_eq {fills : List FillEntry} (h : Ascending fills) : bySeq fills = fills :=
  List.Pairwise.insertionSort_eq h

end Pending

/-! ### Rings -/

/-- The call that an act makes on the ring. -/
def Act.ringCall : Act → Option RingCall
  | .fillsSnapshot fills => some (.snapshot fills)
  | .fillsUpdate fills => some (.increment fills)
  | .fillsInvalidate => some .invalidate
  | _ => none

theorem actStep_ring {e : Act} {w w' : World} (h : actStep e w = some w') :
    w'.fills = e.ringCall.elim w.fills fun c => w.fills.call c := by
  cases e with
  | accept n =>
    obtain ⟨e, -, rfl⟩ := Option.map_eq_some_iff.mp h
    rfl
  | _ =>
    cases h
    rfl

namespace Daemon

/-- The feed sends its snapshots in strictly increasing positive numbers. -/
def orderedFeed (d : Daemon) : d.system.Condition where
  env _ e := ∀ call, Act.ringCall e = some call → call.Ordered

instance (d : Daemon) : d.orderedFeed.Testable where
  act _ _ _ _ := inferInstanceAs (Decidable True)
  finish _ _ _ := inferInstanceAs (Decidable True)
  env _ e := inferInstanceAs (Decidable (∀ call ∈ Act.ringCall e, call.Ordered))
  restart _ := inferInstanceAs (Decidable True)

variable {d : Daemon} {start : Instant} {c : Config}

/-- **Run.**  The ring is the one of the calls since the last restart. -/
theorem ring_of_reaches (h : d.orderedFeed.Reaches (initial start) c) :
    ∃ cs, (∀ call ∈ cs, call.Ordered) ∧
      c.state.fills = FillsRing.after fillsRingCapacity cs := by
  refine System.invariant_of_reaches (I := fun w => ∃ cs, (∀ call ∈ cs, RingCall.Ordered call) ∧
    w.fills = FillsRing.after fillsRingCapacity cs) ?_ ?_ ?_ h ?_
  · rintro i w o ch x w' ⟨cs, hcs, hring⟩ - hstep
    exact ⟨cs, hcs, (step_ring hstep).1.trans hring⟩
  · rintro e w w' ⟨cs, hcs, hring⟩ hordered hstep
    have hact := actStep_ring hstep
    cases hcall : Act.ringCall e with
    | none =>
      rw [hcall] at hact
      exact ⟨cs, hcs, hact.trans hring⟩
    | some call =>
      rw [hcall] at hact
      refine ⟨cs ++ [call], fun one hone => ?_, ?_⟩
      · rcases List.mem_append.mp hone with hone | hone
        · exact hcs one hone
        · rw [List.mem_singleton.mp hone]
          exact hordered call hcall
      · rw [FillsRing.after_concat, ← hring]
        exact hact
  · rintro w - -
    exact ⟨[], fun call hcall => absurd hcall List.not_mem_nil, rfl⟩
  · exact ⟨[], fun call hcall => absurd hcall List.not_mem_nil, rfl⟩

/-- **Rings in order.**  In every run with such snapshots the pending fills are stored in ascending
sequence numbers. -/
theorem ascending_of_reaches (h : d.orderedFeed.Reaches (initial start) c) :
    Ascending c.state.pendingFills := by
  obtain ⟨cs, hcs, hring⟩ := ring_of_reaches h
  have hroom : 1 ≤ fillsRingCapacity := by decide
  obtain ⟨hshows, -⟩ := FillsRing.after_shows hroom hcs
  have hstrict : c.state.fills.fills.Pairwise fun f g => f.seq < g.seq := by
    rw [hring, hshows.fills]
    exact hshows.strict.sublist (Window.rtake_sublist _ _)
  unfold World.pendingFills
  exact (hstrict.imp Nat.le_of_lt).filter _

end Daemon

/-! ## Top theorem (proved from the lemmas above) -/

namespace Daemon

/-- The orders and the positions are those of `takeAll` with the pending fills of `w` in ascending
sequence numbers. -/
def TookInOrder (d : Daemon) (w w' : World) : Prop :=
  ∃ db, takeAll d.A (canonicalIso w.clock) (bySeq w.pendingFills) w.db = some db ∧
    w'.db.orders = db.orders ∧ w'.db.positions = db.positions

/-- **Fills in order.**  A tick that returns `Ok`, from a synced ring, any database and any
watermark, applies the pending fills in ascending sequence numbers, if the ring has them so and no
statement of the orphan-catcher fails. -/
theorem takes_in_order {d : Daemon} {w w' : World} {cs : List Choice} {es : List Ev}
    (hsynced : w.fills.isSynced = true) (horder : Ascending w.pendingFills)
    (hx : exec (sem d.A) cs d.reconcileOnce.run w = some (.ret (.ok ()), w', es))
    (hfine : AdoptionFine es) : d.TookInOrder w w' := by
  have hstart : Follows (canonicalIso w.clock) w.db w := ⟨.refl _, rfl⟩
  have htick : d.TakesTo (canonicalIso w.clock) _ d.reconcileOnce [] w :=
    reconcileOnce_takesTo hstart hsynced
  obtain ⟨db, htaken, hfollows⟩ := Fallible.alone_exec htick hx hfine
  refine ⟨db, ?_, hfollows.tables.orders, hfollows.tables.positions⟩
  rw [bySeq_eq horder, ← htaken]
  have hpending : w.pendingFills = (w.fills.fills.filter fun f => w.lastAppliedSeq < f.seq).filter
      fun f => !w.db.hasFillBeenApplied krakenFutures f.fillId := by
    unfold World.pendingFills
    rw [List.filter_filter]
    refine List.filter_congr fun f _ => ?_
    rw [Bool.and_comm]
  rw [hpending]
  exact takeAll_filter _ _ fun f _ hnot => by simpa using hnot

/-! ### A snapshot with the latest fill first -/

/-- The row of a submitted market order for a signal. -/
def submittedRow (signalId : ℕ) (side brokerOrderId : String) (quantity : ℚ) : OrderRow where
  id := 0
  signalId := some signalId
  broker := krakenFutures
  brokerOrderId := some brokerOrderId
  instrumentSymbol := perpSymbol
  side := side
  orderType := "market"
  timeInForce := "ioc"
  quantity := quantity
  limitPrice := none
  stopPrice := none
  status := .acknowledged
  createdAt := canonicalIso sampleTime
  updatedAt := canonicalIso sampleTime
  cliOrdId := some (signalCliOrdId signalId)

def boughtFill : FillEntry :=
  ⟨perpSymbol, 50000, 1, true, 10, "order-a", "fill-a", 0, some (signalCliOrdId 1)⟩

def soldFill : FillEntry :=
  ⟨perpSymbol, 60000, 2, false, 4, "order-b", "fill-b", 0, some (signalCliOrdId 2)⟩

/-- Ten contracts are bought and four of them sold, both filled; the snapshot lists `fills`. -/
def tradedWorld (fills : List FillEntry) : World :=
  { World.initial sampleTime with
    db := { Database.empty with
      signals := (Table.empty.insert sampleSignal).insert { sampleSignal with side := "sell" }
      orders := (Table.empty.insert (submittedRow 1 "buy" "order-a" 10)).insert
        (submittedRow 2 "sell" "order-b" 4) }
    fills := (FillsRing.new fillsRingCapacity).applySnapshot fills }

/-- A tick of `k` operations without failures ends with `Ok`, the orphan-catcher met no error, and
the positions have `n` rows. -/
def ticksTo (k n : ℕ) (w : World) : Bool :=
  match exec (sem sampleDaemon.A) (List.replicate k .ok) sampleDaemon.reconcileOnce.run w with
  | some (.ret (.ok _), w', es) =>
    (es.all fun e => !adoptionFailed e) && w'.db.positions.rows.length == n
  | _ => false

theorem exec_of_ticksTo {k n : ℕ} {w : World} (h : ticksTo k n w = true) :
    ∃ w' es, exec (sem sampleDaemon.A) (List.replicate k .ok) sampleDaemon.reconcileOnce.run w =
        some (.ret (.ok ()), w', es) ∧
      AdoptionFine es ∧ w'.db.positions.rows.length = n := by
  unfold ticksTo at h
  split at h
  · rename_i w' es hx
    obtain ⟨hfine, hrows⟩ := Bool.and_eq_true_iff.mp h
    refine ⟨w', es, hx, fun e he => ?_, by simpa using hrows⟩
    simpa using List.all_eq_true.mp hfine e he
  · cases h

/-- The entry rests at the exchange, and a snapshot brings its fill in two parts. -/
def partsRun : List sampleDaemon.system.Label :=
  entryRun ++ [.env (.fillsSnapshot [{ sampleFill with qty := 60 },
    { sampleFill with seq := 2, qty := 50, fillId := "fill-2" }])]

theorem takes_in_order_sample :
    ∃ c w' es, sampleDaemon.orderedFeed.Reaches (initial sampleTime) c ∧
      c.state.pendingFills.length = 2 ∧
      exec (sem sampleDaemon.A) (List.replicate 24 .ok) sampleDaemon.reconcileOnce.run c.state =
        some (.ret (.ok ()), w', es) ∧
      sampleDaemon.TookInOrder c.state w' := by
  have hrun : ((sampleDaemon.orderedFeed.runTested partsRun (initial sampleTime)).any fun c =>
      decide (c.state.pendingFills.length = 2) && c.state.fills.isSynced &&
        ticksTo 24 1 c.state) = true := by decide +kernel
  obtain ⟨c, hc, hp⟩ := (Option.any_eq_true _ _).mp hrun
  obtain ⟨hp, htick⟩ := Bool.and_eq_true_iff.mp hp
  obtain ⟨htwo, hsynced⟩ := Bool.and_eq_true_iff.mp hp
  have hreach := System.Condition.reaches_runTested .refl hc
  obtain ⟨w', es, hx, hfine, -⟩ := exec_of_ticksTo htick
  exact ⟨c, w', es, hreach, of_decide_eq_true htwo, hx,
    takes_in_order hsynced (ascending_of_reaches hreach) hx hfine⟩

/-- The sale is applied first: it opens a short position, and the purchase closes that and opens
another one. -/
theorem snapshot_order_taken :
    ∃ w' es, exec (sem sampleDaemon.A) (List.replicate 26 .ok) sampleDaemon.reconcileOnce.run
        (tradedWorld [soldFill, boughtFill]) = some (.ret (.ok ()), w', es) ∧
      AdoptionFine es ∧
      (tradedWorld [soldFill, boughtFill]).fills =
        (FillsRing.new fillsRingCapacity).applySnapshot [soldFill, boughtFill] ∧
      ¬ sampleDaemon.TookInOrder (tradedWorld [soldFill, boughtFill]) w' := by
  have htick : ticksTo 26 2 (tradedWorld [soldFill, boughtFill]) = true := by decide +kernel
  obtain ⟨w', es, hx, hfine, hrows⟩ := exec_of_ticksTo htick
  have hspec : ((takeAll sampleDaemon.A (canonicalIso (tradedWorld [soldFill, boughtFill]).clock)
      (bySeq (tradedWorld [soldFill, boughtFill]).pendingFills)
      (tradedWorld [soldFill, boughtFill]).db).all fun db =>
        db.positions.rows.length == 1) = true := by decide +kernel
  refine ⟨w', es, hx, hfine, rfl, ?_⟩
  rintro ⟨db, htaken, -, hpositions⟩
  rw [htaken] at hspec
  have hone : db.positions.rows.length = 1 := by simpa using hspec
  rw [hpositions, hone] at hrows
  omega

end Daemon

end RazorTrade
