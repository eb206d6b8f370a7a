import Mathlib.Tactic.Linarith
import Mathlib.Tactic.Positivity
import Mathlib.Tactic.FieldSimp
import RazorTrade.Core.Decimal

/-! # Rounding of the crate

`Arith.decimal` rounds the exact result to the nearest decimal that fits.  Decimals that
fit are not rounded past: a result below one of them stays below it (`fit?_le`).  So adding
a loss to a value of the type never raises it, whatever is rounded, and that is all that
the loss limits rely on (`AddsBelow`).

  `roundEven_mono`     :  x ≤ y  →  roundEven x ≤ roundEven y
  `fit?_le`            :  x ≤ a, a a decimal  →  the rounded x is at most a
  `decimal_addsBelow`  :  the crate's addition of a loss goes down
  `decimal_signedAdd`  :  its addition is the same on both sides of zero, within the type
  `fit?_isSome_iff`    :  a result fits  ↔  it is less than 2 ^ 96 - 1 / 2 away from zero -/

namespace RazorTrade

namespace Arith

/-- A value of the type: at most 28 fractional digits and a 96-bit mantissa. -/
def IsDecimal (a : ℚ) : Prop :=
  ∃ (m : ℤ) (t : ℕ), t ≤ 28 ∧ |m| < 2 ^ 96 ∧ a * 10 ^ t = m

/-- Adding what is not positive to a value in `D` does not raise it. -/
def AddsBelow (A : Arith) (D : ℚ → Prop) : Prop :=
  ∀ {a b c : ℚ}, D a → b ≤ 0 → A.add a b = some c → c ≤ a

/-! ## Lemmas -/

theorem Unrounded.addsBelow {A : Arith} (hA : A.Unrounded) (D : ℚ → Prop) : A.AddsBelow D := by
  intro a b c _ hb h
  rw [hA.add_eq h]
  linarith

theorem roundEven_abs_sub_le (x : ℚ) : |(roundEven x : ℚ) - x| ≤ 1 / 2 := by
  have hfloor : (⌊x⌋ : ℚ) ≤ x := Int.floor_le x
  have hceil : x < ⌊x⌋ + 1 := Int.lt_floor_add_one x
  unfold roundEven
  dsimp only
  rw [abs_le]
  split_ifs with hlow hhigh heven
  · constructor <;> linarith
  · push_cast
    constructor <;> linarith
  · constructor <;> linarith
  · push_cast
    constructor <;> linarith

@[simp] theorem roundEven_intCast (n : ℤ) : roundEven n = n := by
  simp [roundEven]

theorem roundEven_mono {x y : ℚ} (h : x ≤ y) : roundEven x ≤ roundEven y := by
  by_contra hlt
  have hstep : (roundEven y : ℚ) + 1 ≤ roundEven x := by exact_mod_cast not_le.mp hlt
  have hx := abs_le.mp (roundEven_abs_sub_le x)
  have hy := abs_le.mp (roundEven_abs_sub_le y)
  -- both are half a step away, so there is one point between them
  have heq : x = y := by linarith
  exact hlt (by rw [heq])

/-- What does not fit with `s` digits is at least half a step beyond the largest mantissa. -/
theorem le_of_roundEven_le {x : ℚ} {n : ℤ} (h : roundEven x ≤ n) : x ≤ n + 1 / 2 := by
  have hx := abs_le.mp (roundEven_abs_sub_le x)
  have hn : (roundEven x : ℚ) ≤ n := by exact_mod_cast h
  linarith

/-- The largest mantissa bounds a decimal at fewer digits than it has, too. -/
theorem abs_mul_pow_le {a : ℚ} {m : ℤ} {t s : ℕ} (hm : |m| < 2 ^ 96) (ha : a * 10 ^ t = m)
    (hs : s ≤ t) : |a * 10 ^ s| ≤ ((2 ^ 96 - 1 : ℤ) : ℚ) := by
  have hpos : (0 : ℚ) < 10 ^ (t - s) := by positivity
  have hone : (1 : ℚ) ≤ 10 ^ (t - s) := one_le_pow₀ (by norm_num)
  have hscale : a * 10 ^ s * 10 ^ (t - s) = m := by
    rw [mul_assoc, ← pow_add, Nat.add_sub_cancel' hs, ha]
  have hmant : |(m : ℚ)| ≤ ((2 ^ 96 - 1 : ℤ) : ℚ) := by
    have hle : |m| ≤ 2 ^ 96 - 1 := by omega
    exact_mod_cast hle
  calc |a * 10 ^ s| ≤ |a * 10 ^ s| * 10 ^ (t - s) := le_mul_of_one_le_right (abs_nonneg _) hone
    _ = |(m : ℚ)| := by rw [← hscale, abs_mul (a * 10 ^ s), abs_of_pos hpos]
    _ ≤ ((2 ^ 96 - 1 : ℤ) : ℚ) := hmant

/-- A mantissa at the digits of a decimal above, or at more. -/
theorem mantissa_le {a x : ℚ} {m : ℤ} {t s : ℕ} (ha : a * 10 ^ t = m) (hs : t ≤ s) (hx : x ≤ a) :
    (roundEven (x * 10 ^ s) : ℚ) ≤ a * 10 ^ s := by
  have hint : a * 10 ^ s = ((m * 10 ^ (s - t) : ℤ) : ℚ) := by
    push_cast
    rw [← ha, mul_assoc, ← pow_add, Nat.add_sub_cancel' hs]
  have hle : x * 10 ^ s ≤ a * 10 ^ s := by gcongr
  have hround := roundEven_mono hle
  rw [hint, roundEven_intCast] at hround
  rw [hint]
  exact_mod_cast hround

/-- A mantissa at fewer digits than a decimal above, where one digit more does not fit. -/
theorem mantissa_le_of_overflow {a x : ℚ} {m : ℤ} {t s : ℕ} (hm : |m| < 2 ^ 96)
    (ha : a * 10 ^ t = m) (hs : s < t) (hover : x * 10 ^ (s + 1) ≤ -2 ^ 96 + 1 / 2) :
    (roundEven (x * 10 ^ s) : ℚ) ≤ a * 10 ^ s := by
  -- 2 ^ 96 ends in 6: a tenth of it rounds away from zero
  have htenth : roundEven ((-2 ^ 96 + 1 / 2) / 10) = -7922816251426433759354395034 := by
    decide +kernel
  have hx : x * 10 ^ s ≤ (-2 ^ 96 + 1 / 2) / 10 := by
    rw [pow_succ (10 : ℚ)] at hover
    linarith
  have hround : (roundEven (x * 10 ^ s) : ℚ) ≤ -7922816251426433759354395034 := by
    have h := roundEven_mono hx
    rw [htenth] at h
    exact_mod_cast h
  have hlow := (abs_le.mp (abs_mul_pow_le hm ha (Nat.succ_le_of_lt hs))).1
  rw [Nat.succ_eq_add_one, pow_succ (10 : ℚ)] at hlow
  push_cast at hlow
  linarith

/-- A mantissa that does not fit is a negative one, below a decimal. -/
theorem overflow_of_not_fits {a x : ℚ} {m : ℤ} {t s : ℕ} (hm : |m| < 2 ^ 96)
    (ha : a * 10 ^ t = m) (hs : s ≤ t) (hx : x ≤ a)
    (hfit : ¬ |roundEven (x * 10 ^ s)| < 2 ^ 96) : x * 10 ^ s ≤ -2 ^ 96 + 1 / 2 := by
  have hle : x * 10 ^ s ≤ ((2 ^ 96 - 1 : ℤ) : ℚ) := by
    have hmono : x * 10 ^ s ≤ a * 10 ^ s := by gcongr
    exact hmono.trans (abs_le.mp (abs_mul_pow_le hm ha hs)).2
  have hhigh := roundEven_mono hle
  rw [roundEven_intCast] at hhigh
  have hneg : roundEven (x * 10 ^ s) ≤ -2 ^ 96 := by
    rcases abs_cases (roundEven (x * 10 ^ s)) with ⟨habs', -⟩ | ⟨habs', -⟩ <;> omega
  have hfinal := le_of_roundEven_le hneg
  push_cast at hfinal
  exact hfinal

/-- Rounding from `s` digits on does not pass a decimal above. -/
theorem fit?_le_of {a x : ℚ} {m : ℤ} {t : ℕ} (hm : |m| < 2 ^ 96) (ha : a * 10 ^ t = m)
    (hx : x ≤ a) {s : ℕ} {c : ℚ} (h : fit? x s = some c)
    (hs : s < t → x * 10 ^ (s + 1) ≤ -2 ^ 96 + 1 / 2) : c ≤ a := by
  have hmantissa : ∀ s : ℕ, (s < t → x * 10 ^ (s + 1) ≤ -2 ^ 96 + 1 / 2) →
      (roundEven (x * 10 ^ s) : ℚ) ≤ a * 10 ^ s := by
    intro s hs
    by_cases hst : s < t
    · exact mantissa_le_of_overflow hm ha hst (hs hst)
    · exact mantissa_le ha (not_lt.mp hst) hx
  induction s with
  | zero =>
    have hle := hmantissa 0 hs
    simp only [pow_zero, mul_one] at hle
    unfold fit? at h
    split at h
    · cases h
      exact hle
    · cases h
  | succ s ih =>
    unfold fit? at h
    dsimp only at h
    split at h
    · cases h
      rw [div_le_iff₀ (by positivity)]
      exact hmantissa (s + 1) hs
    · rename_i hfit
      exact ih h fun hst => overflow_of_not_fits hm ha hst hx hfit

/-! ## Top theorems (proved from the lemmas above) -/

/-- **Rounding does not pass a decimal.** -/
theorem fit?_le {a x c : ℚ} (ha : IsDecimal a) (hx : x ≤ a) (h : fit? x 28 = some c) : c ≤ a := by
  obtain ⟨m, t, ht, hm, ham⟩ := ha
  exact fit?_le_of hm ham hx h fun hlt => absurd ht (not_le.mpr hlt)

/-- Adding a loss to a decimal does not raise it, rounded as the crate does. -/
theorem decimal_addsBelow : decimal.AddsBelow IsDecimal := by
  intro a b c ha hb h
  refine fit?_le ha ?_ h
  linarith

/-! ## What fits -/

/-- The exact result fits, once rounded. -/
def InRange (q : ℚ) : Prop := |q| < 2 ^ 96 - 1 / 2

theorem abs_roundEven_lt_iff {x : ℚ} : |roundEven x| < 2 ^ 96 ↔ InRange x := by
  have hdist := abs_le.mp (roundEven_abs_sub_le x)
  constructor
  · intro h
    by_contra hout
    have htop : roundEven (2 ^ 96 - 1 / 2) = 2 ^ 96 := by decide +kernel
    have hbottom : roundEven (-(2 ^ 96 - 1 / 2)) = -2 ^ 96 := by decide +kernel
    rcases le_abs.mp (not_lt.mp hout) with hx | hx
    · have hmono := roundEven_mono hx
      rw [htop] at hmono
      exact absurd (abs_lt.mp h).2 (not_lt.mpr hmono)
    · have hmono := roundEven_mono (le_neg_of_le_neg hx)
      rw [hbottom] at hmono
      exact absurd (abs_lt.mp h).1 (not_lt.mpr hmono)
  · intro h
    obtain ⟨hlow, hhigh⟩ := abs_lt.mp h
    have hlt : (roundEven x : ℚ) < 2 ^ 96 := by linarith
    have hgt : -2 ^ 96 < (roundEven x : ℚ) := by linarith
    exact abs_lt.mpr ⟨by exact_mod_cast hgt, by exact_mod_cast hlt⟩

theorem fit?_isSome_iff {q : ℚ} {scale : ℕ} : (fit? q scale).isSome ↔ InRange q := by
  induction scale with
  | zero =>
    rw [← abs_roundEven_lt_iff]
    unfold fit?
    split <;> simp_all
  | succ scale ih =>
    unfold fit?
    dsimp only
    split
    · rename_i hfit
      have hone : (1 : ℚ) ≤ 10 ^ (scale + 1) := one_le_pow₀ (by norm_num)
      have hscaled := abs_roundEven_lt_iff.mp hfit
      unfold InRange at hscaled ⊢
      rw [abs_mul, abs_of_pos (by positivity : (0 : ℚ) < 10 ^ (scale + 1))] at hscaled
      have hle : |q| ≤ |q| * 10 ^ (scale + 1) := le_mul_of_one_le_right (abs_nonneg q) hone
      simp only [Option.isSome_some, true_iff]
      exact hle.trans_lt hscaled
    · exact ih

/-- A rounded result is at most half a unit off, and within the largest mantissa. -/
theorem fit?_near {q c : ℚ} {scale : ℕ} (h : fit? q scale = some c) :
    |c - q| ≤ 1 / 2 ∧ |c| ≤ 2 ^ 96 - 1 := by
  induction scale with
  | zero =>
    unfold fit? at h
    split at h
    · rename_i hfit
      cases h
      have hle : |roundEven q| ≤ 2 ^ 96 - 1 := by omega
      exact ⟨roundEven_abs_sub_le q, by exact_mod_cast hle⟩
    · cases h
  | succ scale ih =>
    unfold fit? at h
    dsimp only at h
    split at h
    · rename_i hfit
      cases h
      have hpos : (0 : ℚ) < 10 ^ (scale + 1) := by positivity
      have hone : (1 : ℚ) ≤ 10 ^ (scale + 1) := one_le_pow₀ (by norm_num)
      have hdist := roundEven_abs_sub_le (q * 10 ^ (scale + 1))
      have hle : |roundEven (q * 10 ^ (scale + 1))| ≤ 2 ^ 96 - 1 := by omega
      have hmant : |(roundEven (q * 10 ^ (scale + 1)) : ℚ)| ≤ 2 ^ 96 - 1 := by exact_mod_cast hle
      constructor
      · have hsub : (roundEven (q * 10 ^ (scale + 1)) : ℚ) / 10 ^ (scale + 1) - q =
            (roundEven (q * 10 ^ (scale + 1)) - q * 10 ^ (scale + 1)) / 10 ^ (scale + 1) := by
          field_simp
        rw [hsub, abs_div, abs_of_pos hpos, div_le_iff₀ hpos]
        linarith
      · rw [abs_div, abs_of_pos hpos, div_le_iff₀ hpos]
        have hbig : (2 ^ 96 - 1 : ℚ) ≤ (2 ^ 96 - 1) * 10 ^ (scale + 1) :=
          le_mul_of_one_le_right (by norm_num) hone
        linarith
    · exact ih h

/-! ## Signs -/

/-- Rounding is the same on both sides of zero. -/
theorem roundEven_neg (x : ℚ) : roundEven (-x) = -roundEven x := by
  by_cases hint : x = ⌊x⌋
  · rw [hint, ← Int.cast_neg, roundEven_intCast, roundEven_intCast]
  have hfloor : ⌊-x⌋ = -⌊x⌋ - 1 := by
    have hlow := Int.floor_le x
    have hhigh := Int.lt_floor_add_one x
    have hne : (⌊x⌋ : ℚ) < x := lt_of_le_of_ne hlow (Ne.symm hint)
    rw [Int.floor_eq_iff]
    push_cast
    constructor <;> linarith
  unfold roundEven
  simp only [hfloor]
  push_cast
  by_cases hlow : x - ⌊x⌋ < 1 / 2
  · have hnot : ¬ (-x - (-(⌊x⌋ : ℚ) - 1) < 1 / 2) := by linarith
    have hhigh : 1 / 2 < -x - (-(⌊x⌋ : ℚ) - 1) := by linarith
    simp only [hlow, hnot, hhigh, if_true, if_false]
    omega
  by_cases hhigh : 1 / 2 < x - ⌊x⌋
  · have hneg : -x - (-(⌊x⌋ : ℚ) - 1) < 1 / 2 := by linarith
    simp only [hlow, hhigh, hneg, if_true, if_false]
    omega
  · have hnot : ¬ (-x - (-(⌊x⌋ : ℚ) - 1) < 1 / 2) := by linarith
    have hnot' : ¬ (1 / 2 < -x - (-(⌊x⌋ : ℚ) - 1)) := by linarith
    simp only [hlow, hhigh, hnot, hnot', if_false]
    split_ifs <;> omega

theorem fit?_neg (q : ℚ) (scale : ℕ) : fit? (-q) scale = (fit? q scale).map Neg.neg := by
  induction scale with
  | zero =>
    unfold fit?
    rw [roundEven_neg, abs_neg]
    split
    · simp
    · rfl
  | succ scale ih =>
    unfold fit?
    simp only [neg_mul, roundEven_neg, abs_neg, ih]
    split
    · simp [neg_div]
    · rfl

/-- A rounded result is a value of the type. -/
theorem isDecimal_of_fit? {q c : ℚ} {scale : ℕ} (hscale : scale ≤ 28)
    (h : fit? q scale = some c) : IsDecimal c := by
  induction scale with
  | zero =>
    unfold fit? at h
    split at h
    · rename_i hfits
      rw [← Option.some.inj h]
      exact ⟨roundEven q, 0, by omega, hfits, by simp⟩
    · cases h
  | succ scale ih =>
    unfold fit? at h
    simp only at h
    split at h
    · rename_i hfits
      rw [← Option.some.inj h]
      refine ⟨_, scale + 1, hscale, hfits, ?_⟩
      field_simp
    · exact ih (by omega) h

/-- Adding two values of `D` gives one, no smaller than the first if the second is positive, and
the signs do not matter; zero adds nothing. -/
structure SignedAdd (A : Arith) (D : ℚ → Prop) : Prop where
  add_neg : ∀ a b, A.add (-a) (-b) = (A.add a b).map Neg.neg
  closed : ∀ {a b c}, D a → D b → A.add a b = some c → D c
  neg_mem : ∀ {a}, D a → D (-a)
  from_zero : ∀ {a c}, D a → A.add 0 a = some c → c = a
  below : A.AddsBelow D

theorem exact_signedAdd : exact.SignedAdd fun _ => True where
  add_neg a b := by
    show some (-a + -b) = some (-(a + b))
    rw [neg_add]
  closed _ _ _ := trivial
  neg_mem _ := trivial
  from_zero _ h := by
    rw [exact_unrounded.add_eq h, zero_add]
  below := exact_unrounded.addsBelow fun _ => True

theorem isDecimal_neg {a : ℚ} (h : IsDecimal a) : IsDecimal (-a) := by
  obtain ⟨m, t, ht, hm, ha⟩ := h
  refine ⟨-m, t, ht, by rwa [abs_neg], ?_⟩
  push_cast
  rw [neg_mul, ha]

/-- A value of the type is not rounded. -/
theorem fit?_of_isDecimal {a c : ℚ} (ha : IsDecimal a) (h : fit? a 28 = some c) : c = a := by
  have hneg : fit? (-a) 28 = some (-c) := by
    rw [fit?_neg, h]
    rfl
  have hle := fit?_le ha le_rfl h
  have hge := fit?_le (isDecimal_neg ha) le_rfl hneg
  linarith

theorem inRange_of_isDecimal {a : ℚ} (h : IsDecimal a) : InRange a := by
  obtain ⟨m, t, -, hm, ha⟩ := h
  have hmant := abs_mul_pow_le hm ha (Nat.zero_le t)
  simp only [pow_zero, mul_one] at hmant
  unfold InRange
  push_cast at hmant
  linarith

/-- The floor of a value of the type is one. -/
theorem isDecimal_floor {a : ℚ} (h : IsDecimal a) : IsDecimal ⌊a⌋ := by
  obtain ⟨m, t, ht, hm, ha⟩ := h
  refine ⟨⌊a⌋, 0, by omega, ?_, by simp⟩
  cases t with
  | zero =>
    rw [pow_zero, mul_one] at ha
    rwa [ha, Int.floor_intCast]
  | succ t =>
    -- with a fractional digit the value is less than a tenth of the largest mantissa
    have hmant := abs_mul_pow_le hm ha (Nat.succ_le_succ (Nat.zero_le t))
    obtain ⟨hlow, hhigh⟩ := abs_le.mp hmant
    simp only [Nat.succ_eq_add_one, zero_add, pow_one] at hlow hhigh
    push_cast at hlow hhigh
    have hfloor := Int.floor_le a
    have hnext := Int.lt_floor_add_one a
    have htop : (⌊a⌋ : ℚ) < 2 ^ 96 := by linarith
    have hbottom : -2 ^ 96 < (⌊a⌋ : ℚ) := by linarith
    exact abs_lt.mpr ⟨by exact_mod_cast hbottom, by exact_mod_cast htop⟩

/-- A sum that is a value of the type is the result. -/
theorem decimal_add_eq {a b : ℚ} (h : IsDecimal (a + b)) : decimal.add a b = some (a + b) := by
  show fit? (a + b) 28 = _
  obtain ⟨c, hc⟩ := Option.isSome_iff_exists.mp (fit?_isSome_iff.mpr (inRange_of_isDecimal h))
  rw [hc, fit?_of_isDecimal h hc]

theorem decimal_signedAdd : decimal.SignedAdd IsDecimal where
  add_neg a b := by
    show fit? (-a + -b) 28 = _
    rw [← neg_add, fit?_neg]
    rfl
  closed _ _ h := isDecimal_of_fit? le_rfl h
  neg_mem := isDecimal_neg
  from_zero {a c} ha h := by
    refine fit?_of_isDecimal ha ?_
    rw [← zero_add a]
    exact h
  below := decimal_addsBelow

/-- The sum of positive values is no smaller than the first. -/
theorem SignedAdd.le_add {A : Arith} {D : ℚ → Prop} (h : A.SignedAdd D) {a b c : ℚ} (ha : D a)
    (hb : 0 < b) (hc : A.add a b = some c) : a ≤ c := by
  have hneg : A.add (-a) (-b) = some (-c) := by
    rw [h.add_neg, hc]
    rfl
  have hle := h.below (h.neg_mem ha) (by linarith) hneg
  linarith

end Arith

end RazorTrade
