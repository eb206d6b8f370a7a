import RazorTrade.Persistence.Frame
import RazorTrade.Persistence.TimeOrder

/-! # Snapshots that are pruned (`prune-equity-snapshots.sh`)

The weekly prune deletes the equity snapshots before a cut-off.  Of that table the daemon reads
the newest row only, so a table that lost rows older than a row it kept (`Trimmed`) answers every
statement like the whole one.

  `latest_prune_iff` :  the newest snapshot stays the newest  ↔  the prune leaves a snapshot, or
                          deletes none
  `run_trimmed`      :  every statement answers alike on a trimmed table, and leaves one -/

namespace RazorTrade

open Relational

namespace Database

/-- The `DELETE` of `prune-equity-snapshots.sh`. -/
def pruneEquitySnapshots (cutoff : String) (db : Database) : Database :=
  { db with equitySnapshots := db.equitySnapshots.deleteWhere fun r => r.timestamp < cutoff }

/-- The same database with other snapshots. -/
def withSnapshots (db : Database) (t : Table EquitySnapshotRow) : Database :=
  { db with equitySnapshots := t }

/-- Where the prune deletes a snapshot, it leaves one. -/
def LeavesSnapshot (cutoff : String) (db : Database) : Prop :=
  (∃ r ∈ db.equitySnapshots.rows, r.timestamp < cutoff) →
    ∃ r ∈ db.equitySnapshots.rows, cutoff ≤ r.timestamp

end Database

/-- `ORDER BY timestamp DESC, id DESC`: the row comes at or after the other one. -/
def EquitySnapshotRow.AtLeast (r r' : EquitySnapshotRow) : Prop :=
  r'.timestamp < r.timestamp ∨ r'.timestamp = r.timestamp ∧ r'.id ≤ r.id

/-- `t` is `u` without rows that are older than a row of `t`. -/
structure Trimmed (t u : Table EquitySnapshotRow) : Prop where
  lastId : t.lastId = u.lastId
  kept : ∀ r ∈ t.rows, r ∈ u.rows
  newer : ∀ r ∈ u.rows, r ∉ t.rows → ∃ r' ∈ t.rows, r.timestamp < r'.timestamp

/-! ## Lemmas -/

/-! ### The newest row -/

namespace EquitySnapshotRow

theorem AtLeast.refl (r : EquitySnapshotRow) : r.AtLeast r := Or.inr ⟨rfl, le_refl _⟩

theorem AtLeast.trans {a b c : EquitySnapshotRow} (h : a.AtLeast b) (h' : b.AtLeast c) :
    a.AtLeast c := by
  rcases h with h | ⟨h, hid⟩
  · rcases h' with h' | ⟨h', -⟩
    · exact Or.inl (h'.trans h)
    · exact Or.inl (h' ▸ h)
  · rcases h' with h' | ⟨h', hid'⟩
    · exact Or.inl (h ▸ h')
    · exact Or.inr ⟨h'.trans h, hid'.trans hid⟩

theorem AtLeast.id_eq {a b : EquitySnapshotRow} (h : a.AtLeast b) (h' : b.AtLeast a) :
    a.id = b.id := by
  rcases h with h | ⟨h, hid⟩
  · rcases h' with h' | ⟨h', -⟩
    · exact absurd h (lt_asymm h')
    · exact absurd h' (ne_of_gt h)
  · rcases h' with h' | ⟨-, hid'⟩
    · exact absurd h (ne_of_gt h')
    · omega

end EquitySnapshotRow

namespace Database

variable {db : Database}

/-- The fold of `latestEquitySnapshot` over rows that come after `b`. -/
theorem newest_foldl {step : Option EquitySnapshotRow → EquitySnapshotRow → Option EquitySnapshotRow}
    (hstep : ∀ b r, step (some b) r = if b.timestamp ≤ r.timestamp then some r else some b)
    (rows : List EquitySnapshotRow) (b : EquitySnapshotRow)
    (hids : (b :: rows).Pairwise fun a c => a.id < c.id) :
    ∃ r, rows.foldl step (some b) = some r ∧ r ∈ b :: rows ∧ ∀ r' ∈ b :: rows, r.AtLeast r' := by
  induction rows generalizing b with
  | nil => exact ⟨b, rfl, by simp, fun r' hr' => by simpa using List.mem_singleton.mp hr' ▸ .refl _⟩
  | cons x rows ih =>
    obtain ⟨hb, hrest⟩ := List.pairwise_cons.mp hids
    rw [List.foldl_cons, hstep]
    by_cases hle : b.timestamp ≤ x.timestamp
    · rw [if_pos hle]
      obtain ⟨r, hr, hmem, hmax⟩ := ih x hrest
      refine ⟨r, hr, List.mem_cons_of_mem b hmem, fun r' hr' => ?_⟩
      rcases List.mem_cons.mp hr' with rfl | hr'
      · refine (hmax x List.mem_cons_self).trans ?_
        rcases lt_or_eq_of_le hle with hlt | heq
        · exact Or.inl hlt
        · exact Or.inr ⟨heq, le_of_lt (hb x List.mem_cons_self)⟩
      · exact hmax r' hr'
    · rw [if_neg hle]
      have hids' : (b :: rows).Pairwise fun a c => a.id < c.id :=
        List.pairwise_cons.mpr ⟨fun c hc => hb c (List.mem_cons_of_mem x hc),
          (List.pairwise_cons.mp hrest).2⟩
      obtain ⟨r, hr, hmem, hmax⟩ := ih b hids'
      refine ⟨r, hr, ?_, fun r' hr' => ?_⟩
      · rcases List.mem_cons.mp hmem with rfl | hmem
        · exact List.mem_cons_self
        · exact List.mem_cons_of_mem b (List.mem_cons_of_mem x hmem)
      · rcases List.mem_cons.mp hr' with rfl | hr'
        · exact hmax r' List.mem_cons_self
        · rcases List.mem_cons.mp hr' with rfl | hr'
          · exact (hmax b List.mem_cons_self).trans (Or.inl (lt_of_not_ge hle))
          · exact hmax r' (List.mem_cons_of_mem b hr')

theorem exists_newest (h : db.equitySnapshots.rows ≠ []) : ∃ r, db.latestEquitySnapshot = some r ∧
    r ∈ db.equitySnapshots.rows ∧ ∀ r' ∈ db.equitySnapshots.rows, r.AtLeast r' := by
  obtain ⟨b, rows, hrows⟩ := List.exists_cons_of_ne_nil h
  have hids := db.equitySnapshots.ascending
  rw [hrows] at hids
  unfold latestEquitySnapshot
  rw [hrows]
  exact newest_foldl (fun b r => rfl) rows b hids

/-- **The newest snapshot**, by timestamp and then by id. -/
theorem latestEquitySnapshot_iff {r : EquitySnapshotRow} : db.latestEquitySnapshot = some r ↔
    r ∈ db.equitySnapshots.rows ∧ ∀ r' ∈ db.equitySnapshots.rows, r.AtLeast r' := by
  constructor
  · intro h
    obtain ⟨x, hx, hmem, hmax⟩ := exists_newest (List.ne_nil_of_mem (mem_of_latestEquitySnapshot h))
    rw [h] at hx
    cases hx
    exact ⟨hmem, hmax⟩
  · rintro ⟨hr, hrmax⟩
    obtain ⟨x, hx, hmem, hmax⟩ := exists_newest (List.ne_nil_of_mem hr)
    have hid : x.id = r.id := (hmax r hr).id_eq (hrmax x hmem)
    rw [hx, db.equitySnapshots.eq_of_key_eq hmem hr hid]

/-- A trimmed table has the same newest row. -/
theorem latest_of_trimmed {t : Table EquitySnapshotRow} (h : Trimmed t db.equitySnapshots) :
    (db.withSnapshots t).latestEquitySnapshot = db.latestEquitySnapshot := by
  refine Option.ext fun r => ?_
  rw [latestEquitySnapshot_iff, latestEquitySnapshot_iff]
  constructor
  · rintro ⟨hr, hmax⟩
    refine ⟨h.kept r hr, fun r' hr' => ?_⟩
    by_cases hin : r' ∈ t.rows
    · exact hmax r' hin
    · obtain ⟨x, hx, hlt⟩ := h.newer r' hr' hin
      exact (hmax x hx).trans (Or.inl hlt)
  · rintro ⟨hr, hmax⟩
    refine ⟨?_, fun r' hr' => hmax r' (h.kept r' hr')⟩
    by_contra hin
    obtain ⟨x, hx, hlt⟩ := h.newer r hr hin
    rcases hmax x (h.kept x hx) with hlt' | ⟨heq, -⟩
    · exact lt_asymm hlt hlt'
    · exact absurd heq (ne_of_gt hlt)

end Database

/-! ### A prune -/

theorem Trimmed.refl (t : Table EquitySnapshotRow) : Trimmed t t :=
  ⟨rfl, fun _ h => h, fun _ h hn => absurd h hn⟩

theorem Trimmed.prune {t u : Table EquitySnapshotRow} {cutoff : String} (h : Trimmed t u)
    (hleaves : (∃ r ∈ t.rows, r.timestamp < cutoff) → ∃ r ∈ t.rows, cutoff ≤ r.timestamp) :
    Trimmed (t.deleteWhere fun r => r.timestamp < cutoff) u := by
  have hmem : ∀ r, r ∈ (t.deleteWhere fun r => r.timestamp < cutoff).rows ↔
      r ∈ t.rows ∧ cutoff ≤ r.timestamp := fun r => by
      rw [Table.mem_deleteWhere, decide_eq_false_iff_not, not_lt]
  have hgone : ∀ r ∈ t.rows, r.timestamp < cutoff →
      ∃ r' ∈ (t.deleteWhere fun r => r.timestamp < cutoff).rows, r.timestamp < r'.timestamp := by
    intro r hr hlt
    obtain ⟨x, hx, hle⟩ := hleaves ⟨r, hr, hlt⟩
    exact ⟨x, (hmem x).mpr ⟨hx, hle⟩, hlt.trans_le hle⟩
  refine ⟨h.lastId, fun r hr => h.kept r ((hmem r).mp hr).1, fun r hr hnot => ?_⟩
  by_cases hin : r ∈ t.rows
  · exact hgone r hin (lt_of_not_ge fun hle => hnot ((hmem r).mpr ⟨hin, hle⟩))
  · obtain ⟨x, hx, hlt⟩ := h.newer r hr hin
    by_cases hold : x.timestamp < cutoff
    · obtain ⟨y, hy, hlt'⟩ := hgone x hx hold
      exact ⟨y, hy, hlt.trans hlt'⟩
    · exact ⟨x, (hmem x).mpr ⟨hx, le_of_not_gt hold⟩, hlt⟩

theorem Trimmed.insert {t u : Table EquitySnapshotRow} (h : Trimmed t u) (row : EquitySnapshotRow) :
    Trimmed (t.insert row) (u.insert row) := by
  refine ⟨congrArg (· + 1) h.lastId, fun r hr => ?_, fun r hr hnot => ?_⟩
  · rcases (t.mem_insert row r).mp hr with hr | rfl
    · exact (u.mem_insert row r).mpr (Or.inl (h.kept r hr))
    · rw [h.lastId]
      exact (u.mem_insert row _).mpr (Or.inr rfl)
  · rcases (u.mem_insert row r).mp hr with hr | rfl
    · obtain ⟨x, hx, hlt⟩ := h.newer r hr fun hin => hnot ((t.mem_insert row r).mpr (Or.inl hin))
      exact ⟨x, (t.mem_insert row x).mpr (Or.inl hx), hlt⟩
    · rw [← h.lastId] at hnot
      exact absurd ((t.mem_insert row _).mpr (Or.inr rfl)) hnot

namespace Database

variable {db db' : Database} {cutoff : String} {A : Arith}

/-- **When a prune is not seen.** -/
theorem latest_prune_iff : (db.pruneEquitySnapshots cutoff).latestEquitySnapshot =
    db.latestEquitySnapshot ↔ db.LeavesSnapshot cutoff := by
  constructor
  · rintro h ⟨r, hr, -⟩
    obtain ⟨x, hx, -⟩ := latestEquitySnapshot_spec (List.ne_nil_of_mem hr)
    have hkept := mem_of_latestEquitySnapshot (h.trans hx)
    obtain ⟨hmem, hnew⟩ := (Table.mem_deleteWhere _ _ _).mp hkept
    exact ⟨x, hmem, le_of_not_gt (of_decide_eq_false hnew)⟩
  · intro h
    exact latest_of_trimmed ((Trimmed.refl _).prune h)

/-! ### The other statements -/

/-- What a statement leaves, over other snapshots. -/
def overSnapshots {ρ : Type} (t : Table EquitySnapshotRow)
    (r : Except PersistenceError (ρ × Database)) : Except PersistenceError (ρ × Database) :=
  r.map fun y => (y.1, y.2.withSnapshots t)

/-- A check of another table, then the write. -/
theorem check_withSnapshots {ρ : Type} {p : Prop} {D D' : Decidable p}
    {e : PersistenceError} {t : Table EquitySnapshotRow}
    {x y : Except PersistenceError (ρ × Database)} (h : x = overSnapshots t y) :
    @ite _ p D (.error e) x = overSnapshots t (@ite _ p D' (.error e) y) := by
  by_cases hp : p
  · rw [if_pos hp, if_pos hp]
    rfl
  · rw [if_neg hp, if_neg hp, h]

/-- A computation that may panic, then the rest. -/
theorem bind_withSnapshots {ρ γ : Type} {t : Table EquitySnapshotRow} {x : Option γ}
    {f g : γ → Option (ρ × Database)}
    (h : ∀ a, f a = (g a).map fun y => (y.1, y.2.withSnapshots t)) :
    (x >>= f) = (x >>= g).map fun y => (y.1, y.2.withSnapshots t) := by
  cases x with
  | none => rfl
  | some a => exact h a

theorem applyFillToOrder_withSnapshots {b : String} {q p fee : ℚ} {now : String}
    (t : Table EquitySnapshotRow) :
    (db.withSnapshots t).applyFillToOrder A b q p fee now =
      (db.applyFillToOrder A b q p fee now).map (overSnapshots t) := by
  unfold applyFillToOrder
  have horder : (db.withSnapshots t).orderOfBrokerId b = db.orderOfBrokerId b := rfl
  rw [horder]
  cases db.orderOfBrokerId b with
  | none => rfl
  | some r =>
    dsimp only
    cases Side.ofText? r.side with
    | none => rfl
    | some side =>
      dsimp only
      rw [Option.map_map]
      rfl

theorem addToPosition_withSnapshots {row : PositionRow} {signed q p : ℚ} {now : String}
    (t : Table EquitySnapshotRow) :
    (db.withSnapshots t).addToPosition A row signed q p now =
      (db.addToPosition A row signed q p now).map fun y => (y.1, y.2.withSnapshots t) := by
  unfold addToPosition
  refine bind_withSnapshots fun newQty => ?_
  refine bind_withSnapshots fun old => bind_withSnapshots fun new => ?_
  refine bind_withSnapshots fun weighted => bind_withSnapshots fun newEntry => rfl

theorem reducePosition_withSnapshots {row : PositionRow} {s b sleeve : String} {isBuy : Bool}
    {signed q p : ℚ} {now : String} (t : Table EquitySnapshotRow) :
    (db.withSnapshots t).reducePosition A row s b sleeve isBuy signed q p now =
      (db.reducePosition A row s b sleeve isBuy signed q p now).map
        fun y => (y.1, y.2.withSnapshots t) := by
  unfold reducePosition
  refine bind_withSnapshots fun perContract => ?_
  by_cases hless : q < |row.quantity|
  · rw [if_pos hless, if_pos hless]
    refine bind_withSnapshots fun realized => bind_withSnapshots fun newQty => ?_
    exact bind_withSnapshots fun newRealized => rfl
  rw [if_neg hless, if_neg hless]
  by_cases hall : q = |row.quantity|
  · rw [if_pos hall, if_pos hall]
    exact bind_withSnapshots fun realized => bind_withSnapshots fun newRealized => rfl
  · rw [if_neg hall, if_neg hall]
    refine bind_withSnapshots fun realized => bind_withSnapshots fun newRealized => ?_
    exact bind_withSnapshots fun residual => rfl

theorem applyFillToPosition_withSnapshots {s b sleeve : String} {isBuy : Bool} {q p : ℚ}
    {now : String} (t : Table EquitySnapshotRow) :
    (db.withSnapshots t).applyFillToPosition A s b sleeve isBuy q p now =
      (db.applyFillToPosition A s b sleeve isBuy q p now).map
        fun y => (y.1, y.2.withSnapshots t) := by
  unfold applyFillToPosition
  have hopen : (db.withSnapshots t).openPosition? s b = db.openPosition? s b := rfl
  rw [hopen]
  cases db.openPosition? s b with
  | none => rfl
  | some row =>
    dsimp only
    by_cases hside : sameSide row.quantity isBuy
    · rw [if_pos hside, if_pos hside]
      exact addToPosition_withSnapshots t
    · rw [if_neg hside, if_neg hside]
      exact reducePosition_withSnapshots t

/-- The statement reads or writes no snapshot. -/
def NoSnapshots : DbOp → Prop
  | .latestEquitySnapshot | .insertEquitySnapshot _ => False
  | _ => True

theorem run_withSnapshots {o : DbOp} (ho : NoSnapshots o) (t : Table EquitySnapshotRow) :
    o.run A (db.withSnapshots t) = (o.run A db).map (overSnapshots t) := by
  cases o with
  | latestEquitySnapshot => exact ho.elim
  | insertEquitySnapshot row => exact ho.elim
  | recordChecklistEvaluation => exact congrArg some (check_withSnapshots rfl)
  | recordDryRunOrder => exact congrArg some (check_withSnapshots rfl)
  | insertPendingOrder =>
    exact congrArg some (check_withSnapshots (check_withSnapshots rfl))
  | applyFillToOrder fill at_ => exact applyFillToOrder_withSnapshots t
  | applyFillToPosition =>
    simp only [DbOp.run, applyFillToPosition_withSnapshots, Option.map_map]
    rfl
  | recordFillApplied b f at_ =>
    simp only [DbOp.run, recordFillApplied, DbOp.update]
    have hseen : (db.withSnapshots t).hasFillBeenApplied b f = db.hasFillBeenApplied b f := rfl
    rw [hseen]
    cases db.hasFillBeenApplied b f <;> rfl
  | sumRealizedPnlBtcBySleeve s =>
    have hsum : (db.withSnapshots t).sumRealizedPnlBtcBySleeve A s =
      db.sumRealizedPnlBtcBySleeve A s := rfl
    simp only [DbOp.run, hsum, Option.map_map]
    congr 1
    funext r
    cases r <;> rfl
  | _ => rfl

/-- **On a trimmed table every statement answers alike**, and leaves a trimmed one. -/
theorem run_trimmed {o : DbOp} {t : Table EquitySnapshotRow} {x : o.Ret}
    (h : Trimmed t db.equitySnapshots) (hrun : o.run A (db.withSnapshots t) = some (.ok (x, db'))) :
    ∃ db'' t', o.run A db = some (.ok (x, db'')) ∧ Trimmed t' db''.equitySnapshots ∧
      db' = db''.withSnapshots t' := by
  by_cases ho : NoSnapshots o
  · rw [run_withSnapshots ho t] at hrun
    obtain ⟨r, hr, he⟩ := Option.map_eq_some_iff.mp hrun
    cases r with
    | error e => cases he
    | ok y =>
      cases he
      refine ⟨y.2, t, hr, ?_, rfl⟩
      have hsame := (DbOp.run_sameExcept hr).equitySnapshots fun hw => ?_
      · rw [hsame]
        exact h
      · cases o <;> first | exact ho | cases hw
  · cases o with
    | latestEquitySnapshot =>
      cases hrun
      exact ⟨db, t, by rw [latest_of_trimmed h]; rfl, h, rfl⟩
    | insertEquitySnapshot row =>
      cases hrun
      refine ⟨(db.insertEquitySnapshot row).2, t.insert row, ?_, h.insert row, rfl⟩
      have hid : (db.withSnapshots t).equitySnapshots.lastId + 1 = db.equitySnapshots.lastId + 1 :=
        congrArg (· + 1) h.lastId
      rw [hid]
      rfl
    | _ => exact absurd trivial ho

/-- … also where it answers an error, or panics. -/
theorem run_trimmed_error {o : DbOp} {t : Table EquitySnapshotRow} {e : PersistenceError}
    (hrun : o.run A (db.withSnapshots t) = some (.error e)) : o.run A db = some (.error e) := by
  by_cases ho : NoSnapshots o
  · rw [run_withSnapshots ho t] at hrun
    obtain ⟨r, hr, he⟩ := Option.map_eq_some_iff.mp hrun
    cases r with
    | error e' =>
      cases he
      exact hr
    | ok y => cases he
  · cases o with
    | latestEquitySnapshot => cases hrun
    | insertEquitySnapshot row => cases hrun
    | _ => exact absurd trivial ho

end Database

end RazorTrade
