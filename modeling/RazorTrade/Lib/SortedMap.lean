import Mathlib.Data.List.Basic
import Mathlib.Data.List.Induction
import Mathlib.Order.Lattice
import Mathlib.Tactic.Common

/-! # Ordered maps as sorted lists

A map is the list of its entries, sorted strictly by their key (`Sorted key`).  An insert
replaces the entry of its key (`insert`), a removal drops it (`erase`), and a lookup finds
it (`find`).  What a lookup finds after an insert or a removal needs no sortedness.

  `sorted_insert`, `sorted_erase` :  both keep the order
  `find_insert`, `find_erase`     :  what a lookup finds afterwards

`Map key` bundles a list with its order: the key identifies the entry (`get?_eq_some_iff`),
and an insert keeps exactly the entries of other keys (`mem_insert_iff`). -/

namespace SortedMap

variable {α κ : Type} [LinearOrder κ] (key : α → κ)

def Sorted (xs : List α) : Prop := xs.Pairwise fun a b => key a < key b

def insert (x : α) : List α → List α
  | [] => [x]
  | y :: ys =>
    if key x < key y then x :: y :: ys
    else if key x = key y then x :: ys
    else y :: insert x ys

def erase (k : κ) (xs : List α) : List α := xs.filter fun x => key x ≠ k

def find (k : κ) (xs : List α) : Option α := xs.find? fun x => key x = k

variable {key}

/-! ## Lemmas -/

theorem mem_of_find {k : κ} {xs : List α} {x : α} (h : find key k xs = some x) :
    x ∈ xs ∧ key x = k :=
  ⟨List.mem_of_find?_eq_some h, by simpa using List.find?_some h⟩

theorem mem_insert {x y : α} {xs : List α} (h : y ∈ insert key x xs) : y = x ∨ y ∈ xs := by
  induction xs with
  | nil => exact Or.inl (List.mem_singleton.mp h)
  | cons z zs ih =>
    rw [insert] at h
    split at h
    · exact List.mem_cons.mp h
    · split at h
      · rcases List.mem_cons.mp h with hy | hy
        · exact Or.inl hy
        · exact Or.inr (List.mem_cons_of_mem z hy)
      · rcases List.mem_cons.mp h with hy | hy
        · exact Or.inr (by rw [hy]; exact List.mem_cons_self)
        · exact (ih hy).imp_right (List.mem_cons_of_mem z)

theorem mem_erase {k : κ} {x : α} {xs : List α} (h : x ∈ erase key k xs) : x ∈ xs :=
  List.mem_of_mem_filter h

theorem sorted_insert (x : α) {xs : List α} (h : Sorted key xs) :
    Sorted key (insert key x xs) := by
  induction xs with
  | nil => exact List.pairwise_singleton _ _
  | cons z zs ih =>
    obtain ⟨hz, hzs⟩ := List.pairwise_cons.mp h
    rw [insert]
    split
    · rename_i hx
      refine List.pairwise_cons.mpr ⟨fun y hy => ?_, h⟩
      rcases List.mem_cons.mp hy with rfl | hy
      · exact hx
      · exact hx.trans (hz y hy)
    · split
      · rename_i hx
        exact List.pairwise_cons.mpr ⟨fun y hy => by rw [hx]; exact hz y hy, hzs⟩
      · rename_i hlt hne
        refine List.pairwise_cons.mpr ⟨fun y hy => ?_, ih hzs⟩
        rcases mem_insert hy with rfl | hy
        · exact lt_of_le_of_ne (not_lt.mp hlt) (Ne.symm hne)
        · exact hz y hy

theorem sorted_erase (k : κ) {xs : List α} (h : Sorted key xs) : Sorted key (erase key k xs) :=
  List.Pairwise.filter _ h

theorem find_cons (k : κ) (x : α) (xs : List α) :
    find key k (x :: xs) = if key x = k then some x else find key k xs := by
  unfold find
  rw [List.find?_cons]
  split <;> simp_all

/-- **Lookup after an insert.** -/
theorem find_insert (k : κ) (x : α) (xs : List α) :
    find key k (insert key x xs) = if key x = k then some x else find key k xs := by
  induction xs with
  | nil => exact find_cons k x []
  | cons z zs ih =>
    rw [insert]
    split
    · exact find_cons k x (z :: zs)
    · split
      · rename_i hx
        rw [find_cons, find_cons k z zs, ← hx]
        split <;> simp_all
      · rename_i hne
        rw [find_cons, find_cons k z zs, ih]
        by_cases hz : key z = k
        · have hx : key x ≠ k := fun hx => hne (hx.trans hz.symm)
          simp [hz, hx]
        · simp [hz]

/-- **Lookup after a removal.** -/
theorem find_erase (k k' : κ) (xs : List α) :
    find key k (erase key k' xs) = if k' = k then none else find key k xs := by
  induction xs with
  | nil => simp [erase, find]
  | cons z zs ih =>
    unfold erase at ih ⊢
    rw [List.filter_cons, find_cons]
    by_cases hz : key z = k'
    · rw [if_neg (by simp [hz]), ih, hz]
      split <;> rfl
    · rw [if_pos (by simp [hz]), find_cons, ih]
      by_cases hk : k' = k
      · subst hk
        simp [hz]
      · simp [hk]

/-! ### The ends of the list -/

/-- Nothing lies below the first entry. -/
theorem le_of_head? {xs : List α} (h : Sorted key xs) {x y : α} (hx : xs.head? = some x)
    (hy : y ∈ xs) : key x ≤ key y := by
  cases xs with
  | nil => cases hx
  | cons z zs =>
    cases hx
    rcases List.mem_cons.mp hy with rfl | hy
    · exact le_rfl
    · exact ((List.pairwise_cons.mp h).1 y hy).le

/-- Nothing lies above the last entry. -/
theorem le_of_getLast? {xs : List α} (h : Sorted key xs) {x y : α} (hx : xs.getLast? = some x)
    (hy : y ∈ xs) : key y ≤ key x := by
  obtain ⟨ys, rfl⟩ := List.getLast?_eq_some_iff.mp hx
  rcases List.mem_append.mp hy with hy | hy
  · exact ((List.pairwise_append.mp h).2.2 y hy x (by simp)).le
  · exact (congrArg key (List.mem_singleton.mp hy)).le

/-! ### Membership -/

/-- The key identifies the entry. -/
theorem find_eq_some_iff {xs : List α} (h : Sorted key xs) {k : κ} {x : α} :
    find key k xs = some x ↔ x ∈ xs ∧ key x = k := by
  refine ⟨mem_of_find, ?_⟩
  rintro ⟨hx, rfl⟩
  induction xs with
  | nil => cases hx
  | cons y ys ih =>
    obtain ⟨hy, hys⟩ := List.pairwise_cons.mp h
    rw [find_cons]
    rcases List.mem_cons.mp hx with rfl | hx
    · exact if_pos rfl
    · rw [if_neg (hy x hx).ne]
      exact ih hys hx

/-! ## Bundled maps -/

/-- A map whose entries carry their key. -/
structure Map (key : α → κ) where
  entries : List α
  sorted : Sorted key entries

namespace Map

def empty : Map key := ⟨[], .nil⟩

def insert (x : α) (m : Map key) : Map key :=
  ⟨SortedMap.insert key x m.entries, sorted_insert x m.sorted⟩

def erase (k : κ) (m : Map key) : Map key :=
  ⟨SortedMap.erase key k m.entries, sorted_erase k m.sorted⟩

def get? (k : κ) (m : Map key) : Option α := find key k m.entries

/-- Insert one after the other; the last of equal keys stays. -/
def ofList (xs : List α) : Map key := xs.foldl (fun m x => m.insert x) empty

/-- Change every entry, but not its key. -/
def map (f : α → α) (hf : ∀ x, key (f x) = key x) (m : Map key) : Map key where
  entries := m.entries.map f
  sorted := by
    refine List.pairwise_map.mpr (m.sorted.imp fun {a b} hab => ?_)
    rw [hf, hf]
    exact hab

theorem get?_eq_some_iff {m : Map key} {k : κ} {x : α} :
    m.get? k = some x ↔ x ∈ m.entries ∧ key x = k :=
  find_eq_some_iff m.sorted

theorem get?_eq_none_iff {m : Map key} {k : κ} :
    m.get? k = none ↔ ∀ x ∈ m.entries, key x ≠ k := by
  unfold get? find
  rw [List.find?_eq_none]
  simp

theorem get?_insert (k : κ) (x : α) (m : Map key) :
    (m.insert x).get? k = if key x = k then some x else m.get? k :=
  find_insert k x m.entries

theorem get?_erase (k k' : κ) (m : Map key) :
    (m.erase k').get? k = if k' = k then none else m.get? k :=
  find_erase k k' m.entries

/-- The last entry of a key stays. -/
theorem get?_ofList (k : κ) (xs : List α) :
    (ofList xs : Map key).get? k = xs.reverse.find? fun x => key x = k := by
  unfold ofList
  induction xs using List.reverseRecOn with
  | nil => rfl
  | append_singleton xs x ih =>
    rw [List.foldl_append, List.foldl_cons, List.foldl_nil, get?_insert, ih, List.reverse_append,
      List.reverse_singleton, List.singleton_append, List.find?_cons]
    by_cases hk : key x = k
    · simp [hk]
    · simp [hk]

/-- **Entries after an insert.** -/
theorem mem_insert_iff {m : Map key} {x y : α} :
    y ∈ (m.insert x).entries ↔ y = x ∨ y ∈ m.entries ∧ key y ≠ key x := by
  have hget : y ∈ (m.insert x).entries ↔ (m.insert x).get? (key y) = some y :=
    get?_eq_some_iff.trans (and_iff_left rfl) |>.symm
  rw [hget, get?, insert, find_insert]
  by_cases hk : key x = key y
  · rw [if_pos hk, Option.some.injEq]
    exact ⟨fun h => Or.inl h.symm, fun h => h.elim Eq.symm fun h => absurd hk.symm h.2⟩
  · rw [if_neg hk, find_eq_some_iff m.sorted]
    constructor
    · exact fun h => Or.inr ⟨h.1, Ne.symm hk⟩
    · rintro (rfl | h)
      · exact absurd rfl hk
      · exact ⟨h.1, rfl⟩

theorem mem_of_mem_insert {m : Map key} {x y : α} (h : y ∈ (m.insert x).entries) :
    y = x ∨ y ∈ m.entries :=
  (mem_insert_iff.mp h).imp_right And.left

theorem mem_ofList {xs : List α} {y : α} (h : y ∈ (ofList xs : Map key).entries) : y ∈ xs := by
  unfold ofList at h
  induction xs using List.reverseRecOn with
  | nil => cases h
  | append_singleton xs x ih =>
    rw [List.foldl_append, List.foldl_cons, List.foldl_nil] at h
    rcases mem_of_mem_insert h with rfl | h
    · exact List.mem_append_right _ (List.mem_singleton.mpr rfl)
    · exact List.mem_append_left _ (ih h)

end Map

end SortedMap
