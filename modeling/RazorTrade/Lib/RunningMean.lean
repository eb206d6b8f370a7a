import Mathlib.Algebra.Order.BigOperators.Group.List
import Mathlib.Algebra.Order.Field.Basic
import Mathlib.Tactic.FieldSimp
import Mathlib.Tactic.Ring

/-! # A weighted mean, kept one value at a time

`Mean.add` takes one more value into a mean.  Over positive weights a run of it is the quotient
of the sums (`foldl_add`), so the order of the values does not matter. -/

namespace RunningMean

variable {K : Type} [Field K] [LinearOrder K] [IsStrictOrderedRing K]

/-- Weight and mean of the values so far. -/
structure Mean (K : Type) where
  weight : K
  mean : K

/-- Sum of the weights. -/
def weights (xs : List (K × K)) : K := (xs.map Prod.fst).sum

/-- Sum of the values by weight. -/
def total (xs : List (K × K)) : K := (xs.map fun x => x.1 * x.2).sum

/-- One more value with its weight. -/
def Mean.add (m : Mean K) (x : K × K) : Mean K :=
  ⟨m.weight + x.1, (m.weight * m.mean + x.1 * x.2) / (m.weight + x.1)⟩

/-! ## Lemmas -/

omit [LinearOrder K] [IsStrictOrderedRing K] in
@[simp] theorem weights_cons (x : K × K) (xs : List (K × K)) :
    weights (x :: xs) = x.1 + weights xs := by
  simp [weights]

omit [LinearOrder K] [IsStrictOrderedRing K] in
@[simp] theorem total_cons (x : K × K) (xs : List (K × K)) :
    total (x :: xs) = x.1 * x.2 + total xs := by
  simp [total]

/-- **A run.** -/
theorem foldl_add {m : Mean K} (hm : 0 < m.weight) {xs : List (K × K)} (h : ∀ x ∈ xs, 0 < x.1) :
    xs.foldl Mean.add m =
      ⟨m.weight + weights xs, (m.weight * m.mean + total xs) / (m.weight + weights xs)⟩ := by
  induction xs generalizing m with
  | nil =>
    have hne : m.weight ≠ 0 := hm.ne'
    simp [weights, total, hne]
  | cons x xs ih =>
    have hx := h x List.mem_cons_self
    have hnew : 0 < (m.add x).weight := add_pos hm hx
    rw [List.foldl_cons, ih hnew fun y hy => h y (List.mem_cons_of_mem _ hy)]
    have hne : m.weight + x.1 ≠ 0 := hnew.ne'
    have hmean : (m.add x).weight * (m.add x).mean = m.weight * m.mean + x.1 * x.2 := by
      unfold Mean.add
      field_simp
    rw [hmean, weights_cons, total_cons]
    unfold Mean.add
    simp only [add_assoc]

omit [LinearOrder K] [IsStrictOrderedRing K] in
theorem sums_perm {xs ys : List (K × K)} (h : xs.Perm ys) :
    weights xs = weights ys ∧ total xs = total ys :=
  ⟨(h.map _).sum_eq, (h.map _).sum_eq⟩

end RunningMean
