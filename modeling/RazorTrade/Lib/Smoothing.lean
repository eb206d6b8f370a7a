import Mathlib.Algebra.BigOperators.Field
import Mathlib.Algebra.BigOperators.Intervals
import Mathlib.Algebra.Order.BigOperators.Ring.Finset
import Mathlib.Algebra.Order.Field.Basic
import Mathlib.Tactic.FieldSimp
import Mathlib.Tactic.Ring

/-! # Exponential smoothing of a sequence

The mean of the first `p` values, and after it one step `smooth` for each later one, which keeps
`(p - 1) / p` of the mean and takes in `1 / p` of the value.  The result is a weighted average of
all values (`smoothed_eq_sum`): the weights are not negative (`weight_nonneg`) and add up to one
(`sum_weight`). -/

namespace Smoothing

open Finset

variable {K : Type} [Field K] {p len i : ℕ} {f : ℕ → K}

/-- One more value. -/
def smooth (p mean x : K) : K := (mean * (p - 1) + x) / p

/-- What a step keeps. -/
def kept (p : ℕ) : K := ((p : K) - 1) / p

/-- The mean of the first `p` values, then one step for each later one. -/
def smoothed (p : ℕ) (xs : List K) : K := (xs.drop p).foldl (smooth p) ((xs.take p).sum / p)

/-- The weight of the value `i` of `len` values. -/
def weight (p len i : ℕ) : K :=
  if i < p then kept p ^ (len - p) / p else 1 / p * kept p ^ (len - 1 - i)

/-! ## Lemmas -/

theorem smooth_eq (p : ℕ) (mean x : K) : smooth (p : K) mean x = kept p * mean + 1 / p * x := by
  unfold smooth kept
  ring

/-- **A run of steps.** -/
theorem foldl_smooth (p : ℕ) (mean : K) (f : ℕ → K) (len : ℕ) :
    ((List.range len).map f).foldl (smooth (p : K)) mean =
      kept p ^ len * mean + ∑ i ∈ range len, 1 / p * kept p ^ (len - 1 - i) * f i := by
  induction len with
  | zero => simp
  | succ len ih =>
    rw [List.range_succ, List.map_append, List.foldl_append, ih, List.map_singleton,
      List.foldl_cons, List.foldl_nil, smooth_eq, sum_range_succ, mul_add, mul_sum, pow_succ]
    have hshift : ∀ i ∈ range len, kept p * (1 / p * kept p ^ (len - 1 - i) * f i) =
        1 / p * kept p ^ (len + 1 - 1 - i) * f i := by
      intro i hi
      have hexp : len + 1 - 1 - i = (len - 1 - i) + 1 := by
        have := mem_range.mp hi
        omega
      rw [hexp, pow_succ]
      ring
    rw [sum_congr rfl hshift, Nat.add_sub_cancel, Nat.sub_self, pow_zero]
    ring

/-- **A weighted sum.** -/
theorem smoothed_eq_sum (hp : p ≤ len) (f : ℕ → K) :
    smoothed p ((List.range len).map f) = ∑ i ∈ range len, weight p len i * f i := by
  obtain ⟨rest, rfl⟩ := Nat.exists_eq_add_of_le hp
  have hseed : ((List.range (p + rest)).map f).take p = (List.range p).map f := by
    rw [← List.map_take, List.take_range, Nat.min_eq_left hp]
  have hlater : ((List.range (p + rest)).map f).drop p =
      (List.range rest).map fun i => f (p + i) := by
    rw [List.range_add, List.map_append, List.drop_left' (by simp), List.map_map]
    rfl
  have hsum : ((List.range p).map f).sum = ∑ i ∈ range p, f i := rfl
  unfold smoothed
  rw [hseed, hlater, foldl_smooth, sum_range_add, hsum, sum_div, mul_sum]
  congr 1
  · refine sum_congr rfl fun i hi => ?_
    unfold weight
    rw [if_pos (mem_range.mp hi), Nat.add_sub_cancel_left]
    ring
  · refine sum_congr rfl fun i hi => ?_
    have hexp : p + rest - 1 - (p + i) = rest - 1 - i := by omega
    unfold weight
    rw [if_neg (by omega), hexp]

/-- Equal values stay. -/
theorem foldl_smooth_const (hp : (p : K) ≠ 0) {x : K} {xs : List K} (h : ∀ y ∈ xs, y = x) :
    xs.foldl (smooth (p : K)) x = x := by
  induction xs with
  | nil => rfl
  | cons y ys ih =>
    have hstep : smooth (p : K) x y = x := by
      rw [h y List.mem_cons_self]
      unfold smooth
      field_simp
      ring
    rw [List.foldl_cons, hstep]
    exact ih fun z hz => h z (List.mem_cons_of_mem _ hz)

/-- **The weights add up to one.** -/
theorem sum_weight (hzero : (p : K) ≠ 0) (hp : p ≤ len) :
    ∑ i ∈ range len, (weight p len i : K) = 1 := by
  have hones : ∑ i ∈ range len, (weight p len i : K) =
      smoothed p ((List.range len).map fun _ => (1 : K)) := by
    rw [smoothed_eq_sum hp]
    simp only [mul_one]
  have hseed : ((((List.range len).map fun _ => (1 : K)).take p).sum) = p := by
    rw [← List.map_take, List.take_range, Nat.min_eq_left hp]
    simp
  rw [hones]
  unfold smoothed
  rw [hseed, div_self hzero]
  refine foldl_smooth_const hzero fun y hy => ?_
  obtain ⟨i, -, rfl⟩ := List.mem_map.mp (List.mem_of_mem_drop hy)
  rfl

section Order

variable [LinearOrder K] [IsStrictOrderedRing K]

/-- **No weight is negative.** -/
theorem weight_nonneg (hp : 1 ≤ p) (len i : ℕ) : 0 ≤ (weight p len i : K) := by
  have hone : (1 : K) ≤ p := by exact_mod_cast hp
  have hpos : (0 : K) ≤ p := zero_le_one.trans hone
  have hkept : (0 : K) ≤ kept p := div_nonneg (sub_nonneg.mpr hone) hpos
  unfold weight
  split
  · exact div_nonneg (pow_nonneg hkept _) hpos
  · exact mul_nonneg (div_nonneg zero_le_one hpos) (pow_nonneg hkept _)

/-- An average is not below all values, and not above all. -/
theorem sum_between (hp : 1 ≤ p) (hlen : p ≤ len) {lo hi : K}
    (h : ∀ i < len, lo ≤ f i ∧ f i ≤ hi) :
    lo ≤ ∑ i ∈ range len, weight p len i * f i ∧ ∑ i ∈ range len, weight p len i * f i ≤ hi := by
  have hzero : (p : K) ≠ 0 := by
    have : p ≠ 0 := by omega
    exact_mod_cast this
  have hsame : ∀ x : K, ∑ i ∈ range len, weight p len i * x = x := fun x => by
    rw [← sum_mul, sum_weight hzero hlen, one_mul]
  constructor
  · calc lo = ∑ i ∈ range len, weight p len i * lo := (hsame lo).symm
      _ ≤ ∑ i ∈ range len, weight p len i * f i := sum_le_sum fun i hi =>
        mul_le_mul_of_nonneg_left (h i (mem_range.mp hi)).1 (weight_nonneg hp len i)
  · calc ∑ i ∈ range len, weight p len i * f i
        ≤ ∑ i ∈ range len, weight p len i * hi := sum_le_sum fun i hi =>
          mul_le_mul_of_nonneg_left (h i (mem_range.mp hi)).2 (weight_nonneg hp len i)
      _ = hi := hsame hi

end Order

end Smoothing
