import Mathlib.Data.Int.Init

/-! # Decimal numerals as text

What a number's text says about the number, for identifiers that are made of numbers: the text
determines the number, and it has digits only, so a separator between two numerals can be found
again.

  `eq_of_toString`     :  a natural number is determined by its text
  `eq_of_toString_int` :  so is an integer
  `eq_of_separated`    :  a list is determined up to its first separator -/

namespace Numeral

/-- The digits of a number. -/
theorem toList_toString (n : ℕ) : (toString n).toList = Nat.toDigits 10 n := by
  rw [Nat.toString_eq_repr, Nat.toList_repr]

theorem eq_of_toString {n m : ℕ} (h : toString n = toString m) : n = m := by
  have hdigits := congrArg String.toList h
  rw [toList_toString, toList_toString] at hdigits
  have hvalue := congrArg (Nat.ofDigitChars 10 · 0) hdigits
  simpa only [Nat.ofDigitChars_ten_toDigits] using hvalue

theorem isDigit_of_mem {n : ℕ} {c : Char} (h : c ∈ (toString n).toList) : c.isDigit = true := by
  rw [toList_toString] at h
  exact Nat.isDigit_of_mem_toDigits (by decide) (by decide) h

/-- No sign stands in the text of a natural number. -/
theorem minus_notMem (n : ℕ) : '-' ∉ (toString n).toList := by
  intro h
  exact absurd (isDigit_of_mem h) (by decide)

/-- The text that follows a given one. -/
theorem eq_of_append {s t u : String} (h : s ++ t = s ++ u) : t = u := by
  have hlist := congrArg String.toList h
  rw [String.toList_append, String.toList_append, List.append_cancel_left_eq] at hlist
  exact String.toList_injective hlist

theorem eq_of_toString_int {a b : ℤ} (h : toString a = toString b) : a = b := by
  have hminus (n m : ℕ) : toString n ≠ "-" ++ toString m := by
    intro he
    refine minus_notMem n ?_
    rw [he, String.toList_append]
    exact List.mem_append_left _ (by decide)
  cases a with
  | ofNat n =>
    cases b with
    | ofNat m => exact congrArg Int.ofNat (eq_of_toString h)
    | negSucc m => exact absurd h (hminus n (m + 1))
  | negSucc n =>
    cases b with
    | ofNat m => exact absurd h.symm (hminus m (n + 1))
    | negSucc m =>
      have hsucc : n + 1 = m + 1 := eq_of_toString (eq_of_append h)
      exact congrArg Int.negSucc (Nat.succ.inj hsucc)

/-- What stands before the first separator, and what stands after it. -/
theorem eq_of_separated {α : Type} {c : α} {xs ys us vs : List α} (hx : c ∉ xs) (hy : c ∉ ys)
    (h : xs ++ c :: us = ys ++ c :: vs) : xs = ys ∧ us = vs := by
  induction xs generalizing ys with
  | nil =>
    cases ys with
    | nil => exact ⟨rfl, (List.cons.inj h).2⟩
    | cons y ys =>
      obtain ⟨rfl, -⟩ := List.cons.inj h
      exact absurd List.mem_cons_self hy
  | cons x xs ih =>
    cases ys with
    | nil =>
      obtain ⟨rfl, -⟩ := List.cons.inj h
      exact absurd List.mem_cons_self hx
    | cons y ys =>
      obtain ⟨rfl, hrest⟩ := List.cons.inj h
      obtain ⟨rfl, hvs⟩ := ih (fun hm => hx (List.mem_cons_of_mem _ hm))
        (fun hm => hy (List.mem_cons_of_mem _ hm)) hrest
      exact ⟨rfl, hvs⟩

end Numeral
