import Mathlib.Algebra.Order.Field.Power
import Mathlib.Algebra.Order.Field.Rat
import Mathlib.Data.Nat.Cast.Order.Field
import Mathlib.Data.Nat.Log
import Mathlib.Tactic.Linarith
import Mathlib.Tactic.Positivity
import Mathlib.Tactic.Ring

/-! # Python's `decimal.Decimal`

A finite decimal is a coefficient and an exponent; two of them can have one value and
different texts (`1.0`, `1.00`).  The operators round as the default context does: 28
digits, ties to even, exponents up to 999999; an overflow or a division by zero raises
(`none`).  There is no negative zero.

  `fix_value_le`  :  rounding at most doubles a value
  `div_value_le`  :  a quotient is at most four times the exact one
  `fix_digits`    :  a rounded coefficient has at most 28 digits

The factors are coarse: what matters to the users of these bounds is the scale. -/

namespace RazorTrade

structure PyDecimal where
  coefficient : ℤ
  exponent : ℤ
deriving DecidableEq, Repr

namespace PyDecimal

def value (x : PyDecimal) : ℚ := x.coefficient * 10 ^ x.exponent

/-- `Decimal(n)`. -/
def ofInt (n : ℤ) : PyDecimal := ⟨n, 0⟩

/-- Length of the decimal numeral. -/
def numDigits (n : ℕ) : ℕ := Nat.log 10 n + 1

/-! ## The default context -/

def prec : ℕ := 28
def emax : ℤ := 999999
/-- Smallest exponent, `Emin - prec + 1`. -/
def etiny : ℤ := -1000026
/-- Largest exponent of a coefficient of full length, `Emax - prec + 1`. -/
def etop : ℤ := 999972

/-- `c / 10 ^ k` to the nearest integer, ties to even. -/
def roundHalfEven (c k : ℕ) : ℕ :=
  let q := c / 10 ^ k
  let r := c % 10 ^ k
  if 10 ^ k < 2 * r ∨ (2 * r = 10 ^ k ∧ q % 2 = 1) then q + 1 else q

/-- `_fix`: fold `c * 10 ^ e` into the context. -/
def fix (c e : ℤ) : Option PyDecimal :=
  if c = 0 then some ⟨0, min (max e etiny) emax⟩
  else
    let excess : ℤ := numDigits c.natAbs + e - prec
    let lowest := max excess etiny
    if etop < excess then none
    else if e < lowest then
      let r := roundHalfEven c.natAbs (lowest - e).toNat
      -- a carry can add a digit
      let carried := prec < numDigits r
      let exponent := if carried then lowest + 1 else lowest
      if etop < exponent then none
      else some ⟨c.sign * (if carried then r / 10 else r : ℕ), exponent⟩
    else some ⟨c, e⟩

/-- The coefficient of `x` at a smaller exponent. -/
def rescale (x : PyDecimal) (e : ℤ) : ℤ := x.coefficient * 10 ^ (x.exponent - e).toNat

def add (a b : PyDecimal) : Option PyDecimal :=
  let e := min a.exponent b.exponent
  fix (a.rescale e + b.rescale e) e

def neg (a : PyDecimal) : PyDecimal := ⟨-a.coefficient, a.exponent⟩

def sub (a b : PyDecimal) : Option PyDecimal := add a b.neg

def mul (a b : PyDecimal) : Option PyDecimal :=
  fix (a.coefficient * b.coefficient) (a.exponent + b.exponent)

def abs (a : PyDecimal) : Option PyDecimal := fix |a.coefficient| a.exponent

/-- Drop trailing zeros while the exponent is below the ideal one. -/
def stripZeros (ideal : ℤ) : ℕ → ℤ → ℕ → ℕ × ℤ
  | c, e, 0 => (c, e)
  | c, e, fuel + 1 =>
    if e < ideal ∧ c % 10 = 0 then stripZeros ideal (c / 10) (e + 1) fuel else (c, e)

/-- `__truediv__`: one digit more than the precision, made odd when the division is not exact so
that the rounding is right. -/
def div (a b : PyDecimal) : Option PyDecimal :=
  if b.coefficient = 0 then none
  else if a.coefficient = 0 then fix 0 (a.exponent - b.exponent)
  else
    let n := a.coefficient.natAbs
    let m := b.coefficient.natAbs
    let shift : ℤ := numDigits m - numDigits n + prec + 1
    let e := a.exponent - b.exponent - shift
    let num := n * 10 ^ shift.toNat
    let den := m * 10 ^ (-shift).toNat
    let q := num / den
    let c := if num % den ≠ 0 then (if q % 5 = 0 then q + 1 else q, e)
      else stripZeros (a.exponent - b.exponent) q e q
    fix (a.coefficient.sign * b.coefficient.sign * (c.1 : ℕ)) c.2

/-- `__str__` without an exponent part. -/
def plain (x : PyDecimal) : Bool :=
  decide (x.exponent ≤ 0) && decide (-6 < x.exponent + numDigits x.coefficient.natAbs)

def zeros (n : ℕ) : String := String.ofList (List.replicate n '0')

/-- `__str__`. -/
def str (x : PyDecimal) : String :=
  let digits := (Nat.toDigits 10 x.coefficient.natAbs)
  let leftdigits : ℤ := x.exponent + digits.length
  let dotplace : ℤ := if x.plain then leftdigits else 1
  let mantissa :=
    if dotplace ≤ 0 then "0." ++ zeros (-dotplace).toNat ++ String.ofList digits
    else if (digits.length : ℤ) ≤ dotplace then
      String.ofList digits ++ zeros (dotplace.toNat - digits.length)
    else String.ofList (digits.take dotplace.toNat) ++ "." ++
      String.ofList (digits.drop dotplace.toNat)
  let power :=
    if leftdigits = dotplace then ""
    else "E" ++ (if dotplace ≤ leftdigits then "+" else "") ++ toString (leftdigits - dotplace)
  (if x.coefficient < 0 then "-" else "") ++ mantissa ++ power

example : (div (ofInt 10) (ofInt 125)).map str = some "0.08" := by decide +kernel
example : (div (ofInt 2) (ofInt 3)).map str = some "0.6666666666666666666666666667" := by
  decide +kernel
example : str ⟨123, -9⟩ = "1.23E-7" := by decide +kernel

/-! ## Rounding -/

theorem pow_lt_of_numDigits {n : ℕ} (hn : n ≠ 0) : 10 ^ (numDigits n - 1) ≤ n := by
  have := Nat.pow_log_le_self 10 hn
  simpa [numDigits] using this

theorem lt_pow_numDigits (n : ℕ) : n < 10 ^ numDigits n :=
  Nat.lt_pow_succ_log_self (by omega) n

/-- Rounding up happens from the half on, so it at most doubles. -/
theorem roundHalfEven_mul_le (c k : ℕ) : roundHalfEven c k * 10 ^ k ≤ 2 * c := by
  have hsplit : 10 ^ k * (c / 10 ^ k) + c % 10 ^ k = c := Nat.div_add_mod c (10 ^ k)
  have hcomm : c / 10 ^ k * 10 ^ k = 10 ^ k * (c / 10 ^ k) := Nat.mul_comm _ _
  unfold roundHalfEven
  dsimp only
  split
  · rename_i hup
    rw [Nat.add_mul, hcomm, Nat.one_mul]
    have : 10 ^ k ≤ 2 * (c % 10 ^ k) := by omega
    omega
  · rw [hcomm]
    omega

theorem roundHalfEven_le (c k : ℕ) : roundHalfEven c k ≤ c / 10 ^ k + 1 := by
  unfold roundHalfEven
  dsimp only
  split <;> omega

/-- A coefficient that is cut to the precision rounds to at most a carry. -/
theorem roundHalfEven_le_pow {c k : ℕ} (h : numDigits c ≤ prec + k) :
    roundHalfEven c k ≤ 10 ^ prec := by
  have hc : c < 10 ^ prec * 10 ^ k := by
    rw [← Nat.pow_add]
    exact (lt_pow_numDigits c).trans_le (Nat.pow_le_pow_right (by omega) h)
  have hdiv : c / 10 ^ k < 10 ^ prec := Nat.div_lt_of_lt_mul (by rwa [Nat.mul_comm])
  have := roundHalfEven_le c k
  omega

theorem pow_pos_ten (e : ℤ) : (0 : ℚ) < 10 ^ e := zpow_pos (by norm_num) e

/-- A coefficient moved `k` digits to the right. -/
theorem mul_pow_shift_le {r c k : ℕ} (h : r * 10 ^ k ≤ 2 * c) (e : ℤ) :
    (r : ℚ) * 10 ^ (e + k) ≤ 2 * ((c : ℚ) * 10 ^ e) := by
  have hq : (r : ℚ) * 10 ^ k ≤ 2 * c := by exact_mod_cast h
  rw [zpow_add₀ (by norm_num : (10 : ℚ) ≠ 0), zpow_natCast]
  have := mul_le_mul_of_nonneg_right hq (pow_pos_ten e).le
  linarith

/-- What `fix` returns: the sign is kept, the magnitude at most doubles, and the coefficient
has at most 28 digits. -/
theorem fix_spec {c e : ℤ} {d : PyDecimal} (h : fix c e = some d) :
    ∃ r : ℕ, d.coefficient = c.sign * r ∧ r < 10 ^ prec ∧
      (r : ℚ) * 10 ^ d.exponent ≤ 2 * ((c.natAbs : ℚ) * 10 ^ e) := by
  unfold fix at h
  by_cases hc : c = 0
  · rw [if_pos hc] at h
    cases h
    exact ⟨0, by simp [hc], Nat.pow_pos (by omega), by simp [hc]⟩
  rw [if_neg hc] at h
  dsimp only at h
  by_cases hover : etop < (numDigits c.natAbs + e - prec : ℤ)
  · simp [hover] at h
  rw [if_neg hover] at h
  by_cases hlow : e < max (numDigits c.natAbs + e - prec : ℤ) etiny
  · rw [if_pos hlow] at h
    set lowest := max (numDigits c.natAbs + e - prec : ℤ) etiny with hlowest
    set k := (lowest - e).toNat with hk
    have hke : e + k = lowest := by omega
    have hdigits : numDigits c.natAbs ≤ prec + k := by omega
    have hmul := roundHalfEven_mul_le c.natAbs k
    have hpow := roundHalfEven_le_pow hdigits
    by_cases hcarry : prec < numDigits (roundHalfEven c.natAbs k)
    · simp only [hcarry, if_true] at h
      split at h
      · cases h
      cases h
      refine ⟨roundHalfEven c.natAbs k / 10, rfl, ?_, ?_⟩
      · have : (0 : ℕ) < 10 ^ prec := Nat.pow_pos (by omega)
        omega
      · have hten : roundHalfEven c.natAbs k / 10 * 10 ^ (k + 1) ≤ 2 * c.natAbs := by
          have hdrop : roundHalfEven c.natAbs k / 10 * 10 ≤ roundHalfEven c.natAbs k :=
            Nat.div_mul_le_self _ _
          calc roundHalfEven c.natAbs k / 10 * 10 ^ (k + 1)
              = roundHalfEven c.natAbs k / 10 * 10 * 10 ^ k := by ring
            _ ≤ roundHalfEven c.natAbs k * 10 ^ k := Nat.mul_le_mul_right _ hdrop
            _ ≤ 2 * c.natAbs := hmul
        have hexp : lowest + 1 = e + ((k + 1 : ℕ) : ℤ) := by
          push_cast
          omega
        rw [hexp]
        exact mul_pow_shift_le hten e
    · simp only [hcarry, if_false] at h
      split at h
      · cases h
      cases h
      refine ⟨roundHalfEven c.natAbs k, rfl, ?_, ?_⟩
      · have hlt := lt_pow_numDigits (roundHalfEven c.natAbs k)
        exact hlt.trans_le (Nat.pow_le_pow_right (by omega) (by omega))
      · rw [← hke]
        exact mul_pow_shift_le hmul e
  · rw [if_neg hlow] at h
    cases h
    have hdigits : numDigits c.natAbs ≤ prec := by omega
    refine ⟨c.natAbs, (Int.sign_mul_natAbs c).symm, ?_, ?_⟩
    · exact (lt_pow_numDigits _).trans_le (Nat.pow_le_pow_right (by omega) hdigits)
    · have : (0 : ℚ) ≤ (c.natAbs : ℚ) * 10 ^ e := by positivity
      linarith

theorem fix_digits {c e : ℤ} {d : PyDecimal} (h : fix c e = some d) :
    d.coefficient.natAbs < 10 ^ prec := by
  obtain ⟨r, hcoeff, hr, -⟩ := fix_spec h
  rw [hcoeff, Int.natAbs_mul, Int.natAbs_natCast]
  have : c.sign.natAbs ≤ 1 := by
    rcases Int.sign_trichotomy c with hs | hs | hs <;> simp [hs]
  calc c.sign.natAbs * r ≤ 1 * r := Nat.mul_le_mul_right r this
    _ < 10 ^ prec := by omega

/-- Rounding keeps a value from turning negative. -/
theorem fix_nonneg {c e : ℤ} {d : PyDecimal} (h : fix c e = some d) (hc : 0 ≤ c) :
    0 ≤ d.value := by
  obtain ⟨r, hcoeff, -, -⟩ := fix_spec h
  have hsign : 0 ≤ c.sign := Int.sign_nonneg_iff.mpr hc
  have : 0 ≤ d.coefficient := by
    rw [hcoeff]
    exact Int.mul_nonneg hsign (by omega)
  unfold value
  have := pow_pos_ten d.exponent
  positivity

theorem fix_value_le {c e : ℤ} {d : PyDecimal} (h : fix c e = some d) (hc : 0 ≤ c) :
    d.value ≤ 2 * (c * 10 ^ e) := by
  obtain ⟨r, hcoeff, -, hle⟩ := fix_spec h
  have hmag : (d.coefficient : ℚ) ≤ r := by
    have : d.coefficient ≤ r := by
      rw [hcoeff]
      rcases Int.sign_trichotomy c with hs | hs | hs
      · simp [hs]
      · simp [hs]
      · rw [Int.sign_eq_neg_one_iff_neg] at hs
        omega
    exact_mod_cast this
  have habs : (c.natAbs : ℚ) = c := by
    rw [Nat.cast_natAbs, abs_of_nonneg hc]
  rw [habs] at hle
  exact (mul_le_mul_of_nonneg_right hmag (pow_pos_ten _).le).trans hle

/-! ## The operators and signs -/

@[simp] theorem value_ofInt (n : ℤ) : (ofInt n).value = n := by
  simp [value, ofInt]

@[simp] theorem value_neg (a : PyDecimal) : a.neg.value = -a.value := by
  simp [value, neg]

theorem value_nonneg_iff {a : PyDecimal} : 0 ≤ a.value ↔ 0 ≤ a.coefficient := by
  unfold value
  rw [mul_nonneg_iff_of_pos_right (pow_pos_ten a.exponent)]
  exact_mod_cast Iff.rfl

theorem value_pos_iff {a : PyDecimal} : 0 < a.value ↔ 0 < a.coefficient := by
  unfold value
  rw [mul_pos_iff_of_pos_right (pow_pos_ten a.exponent)]
  exact_mod_cast Iff.rfl

theorem rescale_value {x : PyDecimal} {e : ℤ} (h : e ≤ x.exponent) :
    (x.rescale e : ℚ) * 10 ^ e = x.value := by
  have hexp : ((x.exponent - e).toNat : ℤ) + e = x.exponent := by omega
  unfold rescale value
  push_cast
  rw [mul_assoc, ← zpow_natCast, ← zpow_add₀ (by norm_num : (10 : ℚ) ≠ 0), hexp]

theorem value_add_nonneg {a b c : PyDecimal} (h : add a b = some c) (hab : 0 ≤ a.value + b.value) :
    0 ≤ c.value := by
  refine fix_nonneg h ?_
  set e := min a.exponent b.exponent with he
  have hsum : ((a.rescale e + b.rescale e : ℤ) : ℚ) * 10 ^ e = a.value + b.value := by
    push_cast
    rw [add_mul, rescale_value (by omega), rescale_value (by omega)]
  have hpos : 0 ≤ ((a.rescale e + b.rescale e : ℤ) : ℚ) := by
    rw [← mul_nonneg_iff_of_pos_right (pow_pos_ten e), hsum]
    exact hab
  exact_mod_cast hpos

theorem value_sub_nonneg {a b c : PyDecimal} (h : sub a b = some c) (hab : b.value ≤ a.value) :
    0 ≤ c.value := by
  refine value_add_nonneg h ?_
  rw [value_neg]
  linarith

theorem value_mul_nonneg {a b c : PyDecimal} (h : mul a b = some c) (ha : 0 ≤ a.value)
    (hb : 0 ≤ b.value) : 0 ≤ c.value :=
  fix_nonneg h (Int.mul_nonneg (value_nonneg_iff.mp ha) (value_nonneg_iff.mp hb))

theorem value_abs_nonneg {a c : PyDecimal} (h : abs a = some c) : 0 ≤ c.value :=
  fix_nonneg h (by positivity)

theorem stripZeros_value (ideal : ℤ) (c : ℕ) (e : ℤ) (fuel : ℕ) :
    ((stripZeros ideal c e fuel).1 : ℚ) * 10 ^ (stripZeros ideal c e fuel).2 = c * 10 ^ e := by
  induction fuel generalizing c e with
  | zero => rfl
  | succ fuel ih =>
    unfold stripZeros
    by_cases h : e < ideal ∧ c % 10 = 0
    · have hten : ((c / 10 : ℕ) : ℚ) * 10 = c := by
        have : c / 10 * 10 = c := by omega
        exact_mod_cast this
      rw [if_pos h, ih, zpow_add_one₀ (by norm_num : (10 : ℚ) ≠ 0), ← hten]
      ring
    · rw [if_neg h]

/-! ## Division -/

/-- The scaling of a division leaves a quotient of at least one. -/
theorem den_le_num {n m : ℕ} (hn : n ≠ 0) {shift : ℤ}
    (hshift : shift = numDigits m - numDigits n + prec + 1) :
    m * 10 ^ (-shift).toNat ≤ n * 10 ^ shift.toNat := by
  have hlow := pow_lt_of_numDigits hn
  have hhigh := lt_pow_numDigits m
  have hprec : prec = 28 := rfl
  have hone : 1 ≤ numDigits n := by simp [numDigits]
  rcases le_or_gt 0 shift with hs | hs
  · have hzero : (-shift).toNat = 0 := by omega
    rw [hzero, pow_zero, Nat.mul_one]
    calc m ≤ 10 ^ numDigits m := hhigh.le
      _ ≤ 10 ^ (numDigits n - 1 + shift.toNat) := Nat.pow_le_pow_right (by omega) (by omega)
      _ = 10 ^ (numDigits n - 1) * 10 ^ shift.toNat := Nat.pow_add _ _ _
      _ ≤ n * 10 ^ shift.toNat := Nat.mul_le_mul_right _ hlow
  · have hzero : shift.toNat = 0 := by omega
    rw [hzero, pow_zero, Nat.mul_one]
    calc m * 10 ^ (-shift).toNat ≤ 10 ^ numDigits m * 10 ^ (-shift).toNat :=
          Nat.mul_le_mul_right _ hhigh.le
      _ = 10 ^ (numDigits m + (-shift).toNat) := (Nat.pow_add _ _ _).symm
      _ ≤ 10 ^ (numDigits n - 1) := Nat.pow_le_pow_right (by omega) (by omega)
      _ ≤ n := hlow

/-- The scaled quotient at its exponent is the exact one. -/
theorem scaled_quotient (n m : ℕ) (x y shift : ℤ) :
    ((n * 10 ^ shift.toNat : ℕ) : ℚ) / ((m * 10 ^ (-shift).toNat : ℕ) : ℚ) * 10 ^ (x - y - shift) =
      (n * 10 ^ x) / (m * 10 ^ y) := by
  have hten : (10 : ℚ) ≠ 0 := by norm_num
  have hpow : (10 : ℚ) ^ shift.toNat / 10 ^ (-shift).toNat = 10 ^ shift := by
    rw [← zpow_natCast, ← zpow_natCast, ← zpow_sub₀ hten]
    congr 1
    omega
  push_cast
  rw [mul_div_mul_comm, hpow, mul_div_mul_comm, ← zpow_sub₀ hten, mul_assoc, ← zpow_add₀ hten]
  congr 2
  omega

/-- A quotient of nonnegative decimals: rounding and the sticky digit at most double each. -/
theorem div_value_le {a b q : PyDecimal} (h : div a b = some q) (ha : 0 ≤ a.value)
    (hb : 0 < b.value) : 0 ≤ q.value ∧ q.value ≤ 4 * (a.value / b.value) := by
  have ha' := value_nonneg_iff.mp ha
  have hb' := value_pos_iff.mp hb
  unfold div at h
  rw [if_neg (by omega)] at h
  by_cases hzero : a.coefficient = 0
  · rw [if_pos hzero] at h
    have hle := fix_value_le h le_rfl
    refine ⟨fix_nonneg h le_rfl, ?_⟩
    have : a.value = 0 := by simp [value, hzero]
    simpa [this] using hle
  rw [if_neg hzero] at h
  dsimp only at h
  set n := a.coefficient.natAbs with hn
  set m := b.coefficient.natAbs with hm
  set shift : ℤ := numDigits m - numDigits n + prec + 1 with hshift
  set num := n * 10 ^ shift.toNat with hnum
  set den := m * 10 ^ (-shift).toNat with hden
  set quot := num / den with hquot
  set e := a.exponent - b.exponent - shift with he
  set c := (if num % den ≠ 0 then (if quot % 5 = 0 then quot + 1 else quot, e)
    else stripZeros (a.exponent - b.exponent) quot e quot) with hc
  have hdenPos : 0 < den := Nat.mul_pos (by omega) (Nat.pow_pos (by omega))
  have hquotPos : 1 ≤ quot := (Nat.one_le_div_iff hdenPos).mpr (den_le_num (by omega) hshift)
  -- the coefficient that is handed to `fix`
  have hcoeff : (c.1 : ℚ) * 10 ^ c.2 ≤ 2 * (quot * 10 ^ e) := by
    rw [hc]
    split
    · have hsticky : (if quot % 5 = 0 then quot + 1 else quot) ≤ 2 * quot := by
        split <;> omega
      have hq : ((if quot % 5 = 0 then quot + 1 else quot : ℕ) : ℚ) ≤ 2 * quot := by
        exact_mod_cast hsticky
      have := mul_le_mul_of_nonneg_right hq (pow_pos_ten e).le
      dsimp only
      linarith
    · rw [stripZeros_value]
      have : (0 : ℚ) ≤ quot * 10 ^ e := by positivity
      linarith
  have hexact : (quot : ℚ) * 10 ^ e ≤ a.value / b.value := by
    have hdiv : (quot : ℚ) ≤ (num : ℚ) / den := Nat.cast_div_le
    have hvalueA : (n : ℚ) * 10 ^ a.exponent = a.value := by
      rw [hn, Nat.cast_natAbs, abs_of_nonneg ha', value]
    have hvalueB : (m : ℚ) * 10 ^ b.exponent = b.value := by
      rw [hm, Nat.cast_natAbs, abs_of_nonneg hb'.le, value]
    calc (quot : ℚ) * 10 ^ e ≤ (num : ℚ) / den * 10 ^ e :=
          mul_le_mul_of_nonneg_right hdiv (pow_pos_ten e).le
      _ = a.value / b.value := by
          rw [hnum, hden, he, scaled_quotient, hvalueA, hvalueB]
  have hsign : a.coefficient.sign * b.coefficient.sign * (c.1 : ℕ) = (c.1 : ℤ) := by
    rw [Int.sign_eq_one_of_pos (by omega), Int.sign_eq_one_of_pos hb']
    ring
  rw [hsign] at h
  refine ⟨fix_nonneg h (by omega), ?_⟩
  have hfix := fix_value_le h (by omega)
  push_cast at hfix
  linarith

theorem div_digits {a b q : PyDecimal} (h : div a b = some q) :
    q.coefficient.natAbs < 10 ^ prec := by
  unfold div at h
  split at h
  · cases h
  split at h
  · exact fix_digits h
  · exact fix_digits h

end PyDecimal

end RazorTrade
