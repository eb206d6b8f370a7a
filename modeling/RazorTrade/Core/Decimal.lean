import Mathlib.Data.Rat.Floor
import Mathlib.Algebra.Order.Field.Rat

/-! # Decimals

A `rust_decimal::Decimal` is a rational number here.  The operators of the crate can
round (28 significant digits) and can panic (overflow, division by zero), so every
use of `+`, `-`, `*`, `/` and `checked_mul` in the source goes through an `Arith`:
`none` is the panic (`None` for `checked_mul`).  A theorem for all `Arith` holds
under every rounding; `Arith.exact` is exact arithmetic, where only a division by
zero fails; `Arith.decimal` rounds as the crate documents.

Negation, `abs`, comparisons, `floor` and `round_dp` are exact in the crate as well.
There is no negative zero: `is_sign_positive` is `0 ≤ q`. -/

namespace RazorTrade

/-- The four operators of `Decimal`; `none` is a panic. -/
structure Arith where
  add : ℚ → ℚ → Option ℚ
  sub : ℚ → ℚ → Option ℚ
  mul : ℚ → ℚ → Option ℚ
  div : ℚ → ℚ → Option ℚ

namespace Arith

/-- Exact arithmetic. -/
def exact : Arith where
  add a b := some (a + b)
  sub a b := some (a - b)
  mul a b := some (a * b)
  div a b := if b = 0 then none else some (a / b)

@[simp] theorem exact_add (a b : ℚ) : exact.add a b = some (a + b) := rfl
@[simp] theorem exact_sub (a b : ℚ) : exact.sub a b = some (a - b) := rfl
@[simp] theorem exact_mul (a b : ℚ) : exact.mul a b = some (a * b) := rfl

theorem exact_div {b : ℚ} (a : ℚ) (hb : b ≠ 0) : exact.div a b = some (a / b) := by
  simp [exact, hb]

/-- `Iterator::sum`: a left fold from zero. -/
def sum (A : Arith) (xs : List ℚ) : Option ℚ :=
  xs.foldlM A.add 0

theorem exact_foldlM (xs : List ℚ) (a : ℚ) : xs.foldlM exact.add a = some (a + xs.sum) := by
  induction xs generalizing a with
  | nil => simp
  | cons x xs ih => simp [List.foldlM_cons, ih, add_assoc]

@[simp] theorem exact_sum (xs : List ℚ) : exact.sum xs = some xs.sum := by
  simp [sum, exact_foldlM]

/-- An operator that answers does so without rounding; it may still panic. -/
structure Unrounded (A : Arith) : Prop where
  add_eq : ∀ {a b c : ℚ}, A.add a b = some c → c = a + b
  sub_eq : ∀ {a b c : ℚ}, A.sub a b = some c → c = a - b
  mul_eq : ∀ {a b c : ℚ}, A.mul a b = some c → c = a * b
  div_eq : ∀ {a b c : ℚ}, A.div a b = some c → c = a / b

theorem exact_unrounded : exact.Unrounded where
  add_eq h := (Option.some.inj h).symm
  sub_eq h := (Option.some.inj h).symm
  mul_eq h := (Option.some.inj h).symm
  div_eq {a b c} h := by
    by_cases hb : b = 0
    · simp [exact, hb] at h
    · simpa [exact, hb, eq_comm] using h

theorem Unrounded.foldlM_eq {A : Arith} (hA : A.Unrounded) {xs : List ℚ} {a c : ℚ}
    (h : xs.foldlM A.add a = some c) : c = a + xs.sum := by
  induction xs generalizing a with
  | nil => simpa [eq_comm] using h
  | cons x xs ih =>
    rw [List.foldlM_cons] at h
    obtain ⟨b, hb, h⟩ := Option.bind_eq_some_iff.mp h
    rw [ih h, hA.add_eq hb, List.sum_cons, add_assoc]

theorem Unrounded.sum_eq {A : Arith} (hA : A.Unrounded) {xs : List ℚ} {c : ℚ}
    (h : A.sum xs = some c) : c = xs.sum := by
  simpa using hA.foldlM_eq h

/-- The nearest integer, ties to even. -/
def roundEven (q : ℚ) : ℤ :=
  let rest := q - ⌊q⌋
  if rest < 1 / 2 then ⌊q⌋
  else if 1 / 2 < rest then ⌊q⌋ + 1
  else if ⌊q⌋ % 2 = 0 then ⌊q⌋ else ⌊q⌋ + 1

/-- The decimal with at most `scale` fractional digits and a 96-bit mantissa that is nearest;
`none` when even the integral part does not fit. -/
def fit? (q : ℚ) : ℕ → Option ℚ
  | 0 => if |roundEven q| < 2 ^ 96 then some (roundEven q) else none
  | scale + 1 =>
    let mantissa := roundEven (q * 10 ^ (scale + 1))
    if |mantissa| < 2 ^ 96 then some (mantissa / 10 ^ (scale + 1)) else fit? q scale

/-- The arithmetic of the crate: at most 28 fractional digits and a 96-bit mantissa. -/
def decimal : Arith where
  add a b := fit? (a + b) 28
  sub a b := fit? (a - b) 28
  mul a b := fit? (a * b) 28
  div a b := if b = 0 then none else fit? (a / b) 28

end Arith

/-- Fractional digits of `n / d` (`n < d`), without trailing zeros, at most `fuel`. -/
def fractionDigits (d : ℕ) : ℕ → ℕ → String
  | _, 0 => ""
  | n, fuel + 1 => if n = 0 then "" else toString (n * 10 / d) ++ fractionDigits d (n * 10 % d) fuel

/-- `Decimal::to_string` of a normalized decimal. -/
def decimalText (q : ℚ) : String :=
  let whole := q.num.natAbs / q.den
  let frac := fractionDigits q.den (q.num.natAbs % q.den) 28
  (if q < 0 then "-" else "") ++ toString whole ++ (if frac = "" then "" else "." ++ frac)

/-- The value of a non-empty string of decimal digits. -/
def digitsValue? (cs : List Char) : Option ℕ :=
  if cs = [] then none
  else cs.foldlM (fun n c => if c.isDigit then some (10 * n + (c.toNat - 48)) else none) 0

/-- `Decimal::from_str` on plain notation: a sign, digits and at most one point. -/
def parsePlain (s : String) : Except String ℚ :=
  let negative := s.toList.head? = some '-'
  let body := if negative then s.toList.tail else s.toList
  let whole := body.takeWhile (· ≠ '.')
  let frac := (body.dropWhile (· ≠ '.')).tail
  match digitsValue? whole, if frac = [] then some 0 else digitsValue? frac with
  | some w, some f =>
    let q : ℚ := w + (f : ℚ) / 10 ^ frac.length
    .ok (if negative then -q else q)
  | _, _ => .error "Invalid decimal: unknown character"

example : parsePlain "-100.25" = .ok (-401 / 4) := by decide +kernel

end RazorTrade
