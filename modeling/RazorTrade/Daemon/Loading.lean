import RazorTrade.Daemon.System

/-! # What the portfolio loader returns

The loader answers from the database alone: the figures of the latest equity snapshot, or
those of the bootstrap snapshot that it writes into an empty table, the kill-switch flag and
the open leverage positions (`portfolioAt`).  Only a failure of the database keeps it from
that, with an error, and it changes nothing but the empty table.

A statement may also answer an error of its own, when a constraint of the schema is in its
way; `Broken` is about the other failures.

  `alone_reliable`           :  a statement that answers, in a run without such failures
  `loadPortfolioState_value` :  what the loader returns -/

namespace RazorTrade

open Interaction Relational Database DaemonM

/-- Of a snapshot the loader does not use the id and the time. -/
def EquitySnapshotRow.figures (r : EquitySnapshotRow) : EquitySnapshotRow :=
  { r with id := 0, timestamp := "" }

namespace Database

/-- The figures that the loader uses. -/
def loadedSnapshot (db : Database) : EquitySnapshotRow :=
  (db.latestEquitySnapshot.getD (bootstrapRow "")).figures

/-- The open leverage positions, as the loader shows them. -/
def openPositions (db : Database) : List OpenPositionSummary :=
  ((db.listOpenLeveragePositions.mapM Daemon.positionSummary).toOption).getD []

/-- The portfolio at a time. -/
def portfolioAt (t : Instant) (db : Database) : PortfolioState :=
  Daemon.materialise db.loadedSnapshot t db.killSwitchActive db.openPositions

end Database

/-- A statement failed that would have answered. -/
def dbBroke (A : Arith) : Ev → Bool
  | ⟨w, .db o, .error _⟩ =>
    match o.run A w.db with
    | some (.error _) => false
    | _ => true
  | _ => false

def Broken (A : Arith) (es : List Ev) : Prop := es.any (dbBroke A) = true

/-- The loader has run: the snapshot table may have got its first row. -/
structure AfterLoad (w w' : World) : Prop where
  figures : w'.db.loadedSnapshot = w.db.loadedSnapshot
  frame : w' = { w with
    db := { w.db with equitySnapshots := w'.db.equitySnapshots }, journal := w'.journal }

/-! ## Lemmas -/

section Broken

variable {A : Arith} {tr : List Ev} {w : World} {o : DbOp} {e : PersistenceError}

theorem Broken.append (h : Broken A tr) (es : List Ev) : Broken A (tr ++ es) := by
  unfold Broken at h ⊢
  rw [List.any_append, h, Bool.true_or]

/-- The failure of a statement that would have answered. -/
theorem broken_of_run {x : o.Ret} {db : Database} (h : o.run A w.db = some (.ok (x, db))) :
    Broken A (tr ++ [⟨w, .db o, .error e⟩]) := by
  unfold Broken
  rw [List.any_append]
  simp [dbBroke, h]

end Broken

namespace DaemonM

open Fallible

variable {A : Arith} {tr : List Ev} {w : World} {β : Type}
variable {Q : List Ev → World → Except String β → Prop}

/-- A statement that answers, then the rest. -/
theorem alone_reliable {o : DbOp} {f : o.Ret → DaemonM β} {x : o.Ret} {db' : Database}
    (hrun : o.run A w.db = some (.ok (x, db')))
    (hbroken : ∀ tr e, Broken A tr → Q tr w (.error e))
    (hok : Alone (sem A) Q (f x) (tr ++ [⟨w, .db o, .ok x⟩])
      { w with db := db', journal := w.journal ++ [⟨o, x⟩] }) :
    Alone (sem A) Q (db o >>= f) tr w := by
  refine alone_db (fun e => hbroken _ _ (broken_of_run hrun)) fun c y w' db'' _ hrun' hw' => ?_
  rw [hrun] at hrun'
  cases hrun'
  rw [hw']
  exact hok

/-- The same for a statement with `.context(..)`. -/
theorem alone_reliableContext {context : String} {o : DbOp} {f : o.Ret → DaemonM β} {x : o.Ret}
    {db' : Database} (hrun : o.run A w.db = some (.ok (x, db')))
    (hbroken : ∀ tr e, Broken A tr → Q tr w (.error e))
    (hok : Alone (sem A) Q (f x) (tr ++ [⟨w, .db o, .ok x⟩])
      { w with db := db', journal := w.journal ++ [⟨o, x⟩] }) :
    Alone (sem A) Q (dbContext context o >>= f) tr w := by
  refine alone_dbContext (fun e => hbroken _ _ (broken_of_run hrun)) fun c y w' db'' _ hrun' hw' => ?_
  rw [hrun] at hrun'
  cases hrun'
  rw [hw']
  exact hok

end DaemonM

section Snapshot

variable {w w' : World} {db : Database}

theorem latestEquitySnapshot_eq_none :
    db.latestEquitySnapshot = none ↔ db.equitySnapshots.rows = [] := by
  unfold latestEquitySnapshot
  constructor
  · intro h
    by_contra hne
    obtain ⟨rows, last, hrows⟩ := List.eq_nil_or_concat' db.equitySnapshots.rows |>.resolve_left hne
    rw [hrows, List.foldl_append] at h
    simp only [List.foldl_cons, List.foldl_nil] at h
    split at h
    · cases h
    · split at h <;> cases h
  · intro h
    rw [h]
    rfl

/-- The first snapshot of a table is the latest. -/
theorem latest_of_bootstrap (h : db.latestEquitySnapshot = none) (row : EquitySnapshotRow) :
    (db.insertEquitySnapshot row).2.latestEquitySnapshot =
      some { row with id := db.equitySnapshots.lastId + 1 } := by
  have hrows := latestEquitySnapshot_eq_none.mp h
  unfold latestEquitySnapshot insertEquitySnapshot
  simp only [Table.insert_rows, hrows, List.nil_append, List.foldl_cons, List.foldl_nil]
  rfl

theorem AfterLoad.refl (w : World) : AfterLoad w w := ⟨rfl, rfl⟩

/-- A query leaves its entry in the journal. -/
theorem AfterLoad.journal (h : AfterLoad w w') (j : List Commit) :
    AfterLoad w { w' with journal := j } := by
  refine ⟨h.figures, ?_⟩
  rw [h.frame]

theorem AfterLoad.bootstrap (h : w.db.latestEquitySnapshot = none) (t : String) (j : List Commit) :
    AfterLoad w { w with db := (w.db.insertEquitySnapshot (bootstrapRow t)).2, journal := j } := by
  refine ⟨?_, rfl⟩
  unfold loadedSnapshot
  rw [latest_of_bootstrap h, h]
  rfl

/-- The leverage positions all have a sleeve that the loader knows. -/
theorem mapM_positionSummary (db : Database) :
    db.listOpenLeveragePositions.mapM Daemon.positionSummary = .ok db.openPositions := by
  have hknown : ∀ p ∈ db.listOpenLeveragePositions, p.2.2.1 = "crypto_leverage" := by
    intro p hp
    obtain ⟨r, hr, rfl⟩ := List.mem_map.mp hp
    have hsel := (List.mem_filter.mp hr).2
    simp only [Bool.and_eq_true, decide_eq_true_eq] at hsel
    exact hsel.1.2
  unfold openPositions
  generalize db.listOpenLeveragePositions = l at hknown
  suffices hok : ∃ ps, l.mapM Daemon.positionSummary = .ok ps by
    obtain ⟨ps, hps⟩ := hok
    rw [hps]
    rfl
  induction l with
  | nil => exact ⟨[], rfl⟩
  | cons p l ih =>
    obtain ⟨ps, hps⟩ := ih fun q hq => hknown q (List.mem_cons_of_mem p hq)
    refine ⟨⟨p.1, .cryptoLeverage, p.2.2.2, none⟩ :: ps, ?_⟩
    rw [List.mapM_cons, hps]
    simp only [Daemon.positionSummary, hknown p List.mem_cons_self, Daemon.positionSleeve?]
    rfl

end Snapshot

namespace Daemon

open Fallible

variable {A : Arith} {tr : List Ev} {w : World} {t : Instant}

/-- The figures that are loaded. -/
theorem latestOrBootstrap_value :
    Alone (sem A) (fun tr' w' r => (∃ e, r = .error e ∧ Broken A tr') ∨
        AfterLoad w w' ∧ ∃ snap, r = .ok snap ∧ snap.figures = w.db.loadedSnapshot)
      (latestOrBootstrap t) tr w := by
  cases hlatest : w.db.latestEquitySnapshot with
  | some snap =>
    have hrun : DbOp.latestEquitySnapshot.run A w.db = some (.ok (some snap, w.db)) := by
      rw [← hlatest]
      rfl
    refine alone_reliableContext hrun (fun _ e hb => Or.inl ⟨e, rfl, hb⟩) ?_
    refine alone_pure (Or.inr ⟨(AfterLoad.refl w).journal _, snap, rfl, ?_⟩)
    unfold loadedSnapshot
    rw [hlatest]
    rfl
  | none =>
    have hrun : DbOp.latestEquitySnapshot.run A w.db = some (.ok (none, w.db)) := by
      rw [← hlatest]
      rfl
    refine alone_reliableContext hrun (fun _ e hb => Or.inl ⟨e, rfl, hb⟩) ?_
    refine alone_reliableContext (x := w.db.equitySnapshots.lastId + 1)
      (o := .insertEquitySnapshot (bootstrapRow (canonicalIso t))) rfl (fun _ e hb => Or.inl ⟨e, rfl, hb⟩) ?_
    have hagain : DbOp.latestEquitySnapshot.run A
        (w.db.insertEquitySnapshot (bootstrapRow (canonicalIso t))).2 = some (.ok
          (some { bootstrapRow (canonicalIso t) with id := w.db.equitySnapshots.lastId + 1 },
            (w.db.insertEquitySnapshot (bootstrapRow (canonicalIso t))).2)) := by
      rw [← latest_of_bootstrap hlatest (bootstrapRow (canonicalIso t))]
      rfl
    refine alone_reliable hagain (fun _ e hb => Or.inl ⟨e, rfl, hb⟩) ?_
    refine alone_pure (Or.inr ⟨(AfterLoad.bootstrap hlatest _ []).journal _, _, rfl, ?_⟩)
    unfold loadedSnapshot
    rw [hlatest]
    rfl

/-- **What the loader returns.** -/
theorem loadPortfolioState_value :
    Alone (sem A) (fun tr' w' r => (∃ e, r = .error e ∧ Broken A tr') ∨
        AfterLoad w w' ∧ r = .ok (w.db.portfolioAt t))
      (loadPortfolioState t) tr w := by
  refine alone_bind (alone_mono ?_ latestOrBootstrap_value)
  rintro tr' w₁ r (⟨e, rfl, hbroken⟩ | ⟨hafter, snap, rfl, hfigures⟩)
  · exact Or.inl ⟨e, rfl, hbroken⟩
  · refine alone_reliableContext (o := .killSwitchActive) rfl (fun _ e hb => Or.inl ⟨e, rfl, hb⟩) ?_
    refine alone_reliableContext (o := .listOpenLeveragePositions) rfl (fun _ e hb => Or.inl ⟨e, rfl, hb⟩) ?_
    have hpositions := mapM_positionSummary w₁.db
    refine alone_orReturn (fun ps hps => ?_) fun e he => ?_
    · obtain rfl := Except.ok.inj (hpositions.symm.trans hps)
      refine alone_pure (Or.inr ⟨(hafter.journal _).journal _, ?_⟩)
      have hflag : w₁.db.killSwitchActive = w.db.killSwitchActive := by rw [hafter.frame]; rfl
      have hopen : w₁.db.openPositions = w.db.openPositions := by rw [hafter.frame]; rfl
      show Except.ok (materialise snap.figures t w₁.db.killSwitchActive w₁.db.openPositions) = _
      rw [hfigures, hflag, hopen]
      rfl
    · cases hpositions.symm.trans he

end Daemon

end RazorTrade
