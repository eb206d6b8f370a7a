import Mathlib.Data.List.Basic
import Mathlib.Data.List.Nodup
import Mathlib.Algebra.BigOperators.Group.List.Basic
import Mathlib.Tactic.Abel

/-! # Tables with an ascending integer key

A table keeps its rows in the order of insertion and gives every row the next free
key (`INTEGER PRIMARY KEY AUTOINCREMENT`).  That the keys ascend and that the last
key given out bounds them are fields, so a table with a repeated key cannot be
built.  `updateWhere` cannot touch a key.

* `insert_rows`, `get?_insert_of_le`: an insert appends and leaves old rows alone.
* `get?_updateWhere`: an update is pointwise on the rows.
* `eq_of_key_eq`, `get?_eq_some_iff`: the key identifies the row. -/

namespace Relational

/-- A row type with its key column. -/
class Keyed (α : Type) where
  key : α → ℕ
  withKey : ℕ → α → α
  key_withKey : ∀ n r, key (withKey n r) = n
  withKey_key : ∀ r, withKey (key r) r = r

open Keyed (key withKey)

attribute [simp] Keyed.key_withKey Keyed.withKey_key

structure Table (α : Type) [Keyed α] where
  rows : List α
  /-- The last key given out. -/
  lastId : ℕ
  ascending : rows.Pairwise fun a b => key a < key b
  bounded : ∀ r ∈ rows, key r ≤ lastId

namespace Table

variable {α : Type} [Keyed α]

def empty : Table α := ⟨[], 0, .nil, by simp⟩

/-- Append a row under the next key; that key is the new `lastId`. -/
def insert (t : Table α) (r : α) : Table α where
  rows := t.rows ++ [withKey (t.lastId + 1) r]
  lastId := t.lastId + 1
  ascending := by
    refine List.pairwise_append.mpr ⟨t.ascending, List.pairwise_singleton _ _, ?_⟩
    intro a ha b hb
    rw [List.mem_singleton] at hb
    have := t.bounded a ha
    simp only [hb, Keyed.key_withKey]
    omega
  bounded := by
    intro a ha
    rcases List.mem_append.mp ha with ha | ha
    · exact Nat.le_succ_of_le (t.bounded a ha)
    · rw [List.mem_singleton] at ha
      simp [ha]

/-- The row that an update writes in place of `r`. -/
def updateRow (p : α → Bool) (f : α → α) (r : α) : α :=
  if p r then withKey (key r) (f r) else r

@[simp] theorem key_updateRow (p : α → Bool) (f : α → α) (r : α) :
    key (updateRow p f r) = key r := by
  unfold updateRow
  split <;> simp

/-- Rewrite the rows that satisfy `p`; the keys stay. -/
def updateWhere (t : Table α) (p : α → Bool) (f : α → α) : Table α where
  rows := t.rows.map (updateRow p f)
  lastId := t.lastId
  ascending := by simpa [List.pairwise_map] using t.ascending
  bounded := by simpa using t.bounded

/-- Delete the rows that satisfy `p`; their keys are not given out again. -/
def deleteWhere (t : Table α) (p : α → Bool) : Table α where
  rows := t.rows.filter fun r => !p r
  lastId := t.lastId
  ascending := t.ascending.sublist List.filter_sublist
  bounded r hr := t.bounded r (List.mem_of_mem_filter hr)

def get? (t : Table α) (n : ℕ) : Option α := t.rows.find? fun r => key r = n

/-! ## Lemmas -/

@[simp] theorem empty_rows : (empty : Table α).rows = [] := rfl

@[simp] theorem insert_rows (t : Table α) (r : α) :
    (t.insert r).rows = t.rows ++ [withKey (t.lastId + 1) r] := rfl

@[simp] theorem insert_lastId (t : Table α) (r : α) : (t.insert r).lastId = t.lastId + 1 := rfl

@[simp] theorem updateWhere_rows (t : Table α) (p : α → Bool) (f : α → α) :
    (t.updateWhere p f).rows = t.rows.map (updateRow p f) := rfl

@[simp] theorem updateWhere_lastId (t : Table α) (p : α → Bool) (f : α → α) :
    (t.updateWhere p f).lastId = t.lastId := rfl

theorem mem_deleteWhere (t : Table α) (p : α → Bool) (r : α) :
    r ∈ (t.deleteWhere p).rows ↔ r ∈ t.rows ∧ p r = false := by
  simp [deleteWhere]

theorem eq_of_key_eq (t : Table α) {a b : α} (ha : a ∈ t.rows) (hb : b ∈ t.rows)
    (h : key a = key b) : a = b := by
  have hn : (t.rows.map key).Nodup :=
    List.Pairwise.map _ (fun _ _ h => Nat.ne_of_lt h) t.ascending
  exact List.inj_on_of_nodup_map hn ha hb h

theorem get?_eq_some_iff (t : Table α) (n : ℕ) (r : α) :
    t.get? n = some r ↔ r ∈ t.rows ∧ key r = n := by
  unfold get?
  constructor
  · intro h
    exact ⟨List.mem_of_find?_eq_some h, by simpa using List.find?_some h⟩
  · rintro ⟨hr, rfl⟩
    cases h : t.rows.find? fun r' => key r' = key r with
    | none => simpa using List.find?_eq_none.mp h r hr
    | some r' =>
      have hk : key r' = key r := by simpa using List.find?_some h
      rw [t.eq_of_key_eq (List.mem_of_find?_eq_some h) hr hk]

theorem get?_key (t : Table α) {r : α} (hr : r ∈ t.rows) : t.get? (key r) = some r :=
  (t.get?_eq_some_iff _ _).mpr ⟨hr, rfl⟩

theorem mem_of_get? (t : Table α) {n : ℕ} {r : α} (h : t.get? n = some r) : r ∈ t.rows :=
  ((t.get?_eq_some_iff n r).mp h).1

theorem key_of_get? (t : Table α) {n : ℕ} {r : α} (h : t.get? n = some r) : key r = n :=
  ((t.get?_eq_some_iff n r).mp h).2

theorem le_lastId_of_get? (t : Table α) {n : ℕ} {r : α} (h : t.get? n = some r) :
    n ≤ t.lastId := by
  rw [← t.key_of_get? h]
  exact t.bounded r (t.mem_of_get? h)

/-- An insert keeps every row that a key already names. -/
theorem get?_insert_of_le (t : Table α) (r : α) {n : ℕ} (h : n ≤ t.lastId) :
    (t.insert r).get? n = t.get? n := by
  have hk : ¬ (t.lastId + 1 = n) := by omega
  simp [get?, List.find?_append, hk]

theorem get?_insert_self (t : Table α) (r : α) :
    (t.insert r).get? (t.lastId + 1) = some (withKey (t.lastId + 1) r) :=
  (get?_eq_some_iff _ _ _).mpr ⟨by simp, by simp⟩

theorem get?_insert_of_some (t : Table α) (r : α) {n : ℕ} {x : α} (h : t.get? n = some x) :
    (t.insert r).get? n = some x := by
  rw [t.get?_insert_of_le r (t.le_lastId_of_get? h), h]

/-- An update is pointwise: the row under each key is rewritten or kept. -/
theorem get?_updateWhere (t : Table α) (p : α → Bool) (f : α → α) (n : ℕ) :
    (t.updateWhere p f).get? n = (t.get? n).map (updateRow p f) := by
  have hkey : (fun r => decide (key r = n)) ∘ updateRow p f = fun r => decide (key r = n) := by
    funext r
    rw [Function.comp_apply, key_updateRow]
  unfold get?
  rw [updateWhere_rows, List.find?_map, hkey]

/-- A row of a table after an insert is the new one or was there before. -/
theorem mem_insert (t : Table α) (r x : α) :
    x ∈ (t.insert r).rows ↔ x ∈ t.rows ∨ x = withKey (t.lastId + 1) r := by simp

theorem map_updateRow_of_ne {r : α} (f : α → α) {l : List α} (h : ∀ x ∈ l, key x ≠ key r) :
    l.map (updateRow (fun x => key x = key r) f) = l := by
  induction l with
  | nil => rfl
  | cons x l ih =>
    have hx := h x (by simp)
    rw [List.map_cons, ih fun y hy => h y (by simp [hy])]
    simp [updateRow, hx]

/-- An update by key rewrites the one row and leaves both sides of it alone. -/
theorem updateWhere_key_split (t : Table α) {r : α} (hr : r ∈ t.rows) (f : α → α) :
    ∃ l₁ l₂, t.rows = l₁ ++ r :: l₂ ∧
      (t.updateWhere (fun x => key x = key r) f).rows = l₁ ++ withKey (key r) (f r) :: l₂ := by
  obtain ⟨l₁, l₂, hl⟩ := List.append_of_mem hr
  have hasc := t.ascending
  rw [hl, List.pairwise_append, List.pairwise_cons] at hasc
  obtain ⟨-, ⟨hr₂, -⟩, hr₁⟩ := hasc
  refine ⟨l₁, l₂, hl, ?_⟩
  have h₁ : ∀ x ∈ l₁, key x ≠ key r := fun x hx => Nat.ne_of_lt (hr₁ x hx r (by simp))
  have h₂ : ∀ x ∈ l₂, key x ≠ key r := fun x hx => Nat.ne_of_gt (hr₂ x hx)
  rw [updateWhere_rows, hl, List.map_append, List.map_cons, map_updateRow_of_ne f h₁,
    map_updateRow_of_ne f h₂]
  simp [updateRow]

theorem sum_updateWhere_key {M : Type} [AddCommGroup M] (t : Table α) (g : α → M) {r : α}
    (hr : r ∈ t.rows) (f : α → α) :
    ((t.updateWhere (fun x => key x = key r) f).rows.map g).sum =
      (t.rows.map g).sum - g r + g (withKey (key r) (f r)) := by
  obtain ⟨l₁, l₂, hl, hl'⟩ := t.updateWhere_key_split hr f
  rw [hl', hl]
  simp only [List.map_append, List.map_cons, List.sum_append, List.sum_cons]
  abel

/-- The rows of a table after an update: kept or rewritten. -/
theorem mem_updateWhere (t : Table α) {p : α → Bool} {f : α → α} {x : α}
    (h : x ∈ (t.updateWhere p f).rows) :
    x ∈ t.rows ∨ ∃ r ∈ t.rows, p r = true ∧ x = withKey (key r) (f r) := by
  obtain ⟨r, hr, rfl⟩ := List.mem_map.mp h
  unfold updateRow
  split
  · rename_i hp
    exact Or.inr ⟨r, hr, hp, rfl⟩
  · exact Or.inl hr

/-- The rows of a table after an update by key. -/
theorem mem_updateWhere_key (t : Table α) {r : α} (hr : r ∈ t.rows) (f : α → α) (x : α) :
    x ∈ (t.updateWhere (fun x => key x = key r) f).rows ↔
      x = withKey (key r) (f r) ∨ (x ∈ t.rows ∧ key x ≠ key r) := by
  rw [updateWhere_rows, List.mem_map]
  constructor
  · rintro ⟨y, hy, rfl⟩
    by_cases hk : key y = key r
    · rw [t.eq_of_key_eq hy hr hk]
      exact Or.inl (by simp [updateRow])
    · exact Or.inr ⟨by simpa [updateRow, hk] using hy, by simpa using hk⟩
  · rintro (rfl | ⟨hx, hk⟩)
    · exact ⟨r, hr, by simp [updateRow]⟩
    · exact ⟨x, hx, by simp [updateRow, hk]⟩

end Table

end Relational
