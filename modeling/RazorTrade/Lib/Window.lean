import Mathlib.Data.List.DropRight
import Mathlib.Order.Lattice
import Mathlib.Tactic.Common

/-! # A window over a growing list

A queue of bounded length gives up its first element for a new one when it is full (`push`).  It
holds the end of the list of all elements that were pushed, `List.rtake capacity`.

  `push_rtake`    :  one more element in the queue
  `concat_eq_iff` :  the places of the list, after one more element -/

namespace Window

variable {α : Type} {capacity : ℕ} {xs : List α}

/-- Append an element; a full queue loses its first one. -/
def push (capacity : ℕ) (queue : List α) (x : α) : List α :=
  (if queue.length = capacity then queue.tail else queue) ++ [x]

/-! ## Lemmas -/

theorem length_rtake (n : ℕ) (xs : List α) : (xs.rtake n).length = min n xs.length := by
  unfold List.rtake
  rw [List.length_drop]
  omega

theorem rtake_min (n : ℕ) (xs : List α) : xs.rtake (min n xs.length) = xs.rtake n := by
  unfold List.rtake
  congr 1
  omega

theorem rtake_sublist (n : ℕ) (xs : List α) : (xs.rtake n).Sublist xs := List.drop_sublist _ _

/-- A full window gives up what the next shorter one has not. -/
theorem tail_rtake {n : ℕ} (h : n < xs.length) : (xs.rtake (n + 1)).tail = xs.rtake n := by
  unfold List.rtake
  rw [List.tail_drop]
  congr 1
  omega

/-- **One more element.** -/
theorem push_rtake (hcapacity : 1 ≤ capacity) (x : α) :
    push capacity (xs.rtake capacity) x = (xs ++ [x]).rtake capacity := by
  obtain ⟨n, rfl⟩ := Nat.exists_eq_add_of_le' hcapacity
  rw [List.rtake_concat_succ]
  unfold push
  congr 1
  rw [length_rtake]
  split
  · rename_i hfull
    exact tail_rtake (by omega)
  · rename_i hroom
    have hshort : xs.length - (n + 1) = xs.length - n := by omega
    unfold List.rtake
    rw [hshort]

/-- The places in a list that has grown by one element. -/
theorem concat_eq_iff {x y : α} {before rest : List α} : xs ++ [y] = before ++ x :: rest ↔
    (before = xs ∧ x = y ∧ rest = []) ∨
      ∃ rest', rest = rest' ++ [y] ∧ xs = before ++ x :: rest' := by
  constructor
  · intro h
    rcases List.eq_nil_or_concat rest with rfl | ⟨rest, last, rfl⟩
    · obtain ⟨rfl, hx⟩ := List.append_inj' h rfl
      exact Or.inl ⟨rfl, (List.cons.inj hx).1.symm, rfl⟩
    · rw [List.concat_eq_append, ← List.cons_append, ← List.append_assoc] at h
      obtain ⟨hxs, hlast⟩ := List.append_inj' h rfl
      refine Or.inr ⟨rest, ?_, hxs⟩
      rw [List.concat_eq_append, hlast]
  · rintro (⟨rfl, rfl, rfl⟩ | ⟨rest, rfl, rfl⟩)
    · rfl
    · simp

end Window
