import Mathlib.Tactic.FieldSimp
import Mathlib.Tactic.Linarith
import Mathlib.Tactic.Positivity
import Mathlib.Tactic.Ring
import RazorTrade.Core.Decimal
import RazorTrade.Lib.Numeral

/-! # The text of a decimal

`rust_decimal` prints a sign, at least one digit, and a point with the fractional digits if
there are any (`DecimalDigits`).  Trailing zeros stay, and a zero can have a sign.

  `parsePlain_text` :  reading plain notation gives the printed value back
  `le_abs_value`    :  what is not zero is at least 1e-28 away from it
  `parsePlain_decimalText` :  … and so does the long division of a normalized decimal -/

namespace RazorTrade

/-- The digits that are printed. -/
structure DecimalDigits where
  negative : Bool
  whole : List Char
  fraction : List Char
  nonempty : whole ≠ []
  digits : ∀ c ∈ whole ++ fraction, c.isDigit = true

namespace DecimalDigits

variable (x : DecimalDigits)

/-- The number of the digits, without the point. -/
def mantissa : ℕ := Nat.ofDigitChars 10 (x.whole ++ x.fraction) 0

def scale : ℕ := x.fraction.length

def value : ℚ := (if x.negative then -1 else 1) * (x.mantissa / 10 ^ x.scale)

/-- The text without its sign. -/
def body : List Char := x.whole ++ if x.fraction = [] then [] else '.' :: x.fraction

def text : String := String.ofList ((if x.negative then ['-'] else []) ++ x.body)

/-- A value of the type. -/
def Fits : Prop := x.mantissa < 2 ^ 96 ∧ x.scale ≤ 28

end DecimalDigits

/-! ## Lemmas -/

theorem digitsValue?_digits {cs : List Char} (hne : cs ≠ []) (h : ∀ c ∈ cs, c.isDigit = true) :
    digitsValue? cs = some (Nat.ofDigitChars 10 cs 0) := by
  have hfold : ∀ n : ℕ, cs.foldlM (fun n c =>
      if c.isDigit then some (10 * n + (c.toNat - 48)) else none) n =
        some (Nat.ofDigitChars 10 cs n) := by
    clear hne
    induction cs with
    | nil => intro n; rfl
    | cons c cs ih =>
      intro n
      rw [List.foldlM_cons, if_pos (h c List.mem_cons_self), Nat.ofDigitChars_cons]
      exact ih (fun d hd => h d (List.mem_cons_of_mem c hd)) _
  unfold digitsValue?
  rw [if_neg hne, hfold]

namespace DecimalDigits

variable {x : DecimalDigits}

theorem point_notMem_whole : ∀ c ∈ x.whole, c ≠ '.' := by
  rintro c hc rfl
  exact absurd (x.digits '.' (List.mem_append_left _ hc)) (by decide)

theorem takeWhile_body : x.body.takeWhile (· ≠ '.') = x.whole := by
  unfold body
  rw [List.takeWhile_append_of_pos fun c hc => by simpa using point_notMem_whole c hc]
  split <;> simp

theorem tail_dropWhile_body : (x.body.dropWhile (· ≠ '.')).tail = x.fraction := by
  unfold body
  rw [List.dropWhile_append_of_pos fun c hc => by simpa using point_notMem_whole c hc]
  split
  · rename_i h
    rw [h]
    rfl
  · simp

/-- The sign is the first character, or the text starts with a digit. -/
theorem head_text : x.text.toList.head? = some '-' ↔ x.negative = true := by
  unfold text body
  rw [String.toList_ofList]
  cases x.negative with
  | true => simp
  | false =>
    obtain ⟨c, cs, hwhole⟩ := List.exists_cons_of_ne_nil x.nonempty
    have hdigit := x.digits c (List.mem_append_left _ (by rw [hwhole]; exact List.mem_cons_self))
    rw [hwhole]
    simp only [Bool.false_eq_true, if_false, List.nil_append, List.cons_append, List.head?_cons,
      Option.some.injEq, iff_false]
    rintro rfl
    exact absurd hdigit (by decide)

/-- The text without its sign. -/
theorem body_of_text :
    (if x.text.toList.head? = some '-' then x.text.toList.tail else x.text.toList) = x.body := by
  by_cases hneg : x.negative = true
  · rw [if_pos (head_text.mpr hneg)]
    unfold text
    rw [if_pos hneg, String.toList_ofList]
    rfl
  · rw [if_neg (fun h => hneg (head_text.mp h))]
    unfold text
    rw [if_neg hneg, String.toList_ofList]
    rfl

/-- The digits before the point count by their distance from it. -/
theorem mantissa_eq : x.mantissa =
    10 ^ x.scale * Nat.ofDigitChars 10 x.whole 0 + Nat.ofDigitChars 10 x.fraction 0 := by
  unfold mantissa scale
  rw [Nat.ofDigitChars_append, Nat.ofDigitChars_eq_ofDigitChars_zero]

theorem fraction_digits : (if x.fraction = [] then some 0 else digitsValue? x.fraction) =
    some (Nat.ofDigitChars 10 x.fraction 0) := by
  split
  · rename_i h
    rw [h]
    rfl
  · rename_i h
    exact digitsValue?_digits h fun c hc => x.digits c (List.mem_append_right _ hc)

/-- **Reading what was printed.** -/
theorem parsePlain_text (x : DecimalDigits) : parsePlain x.text = .ok x.value := by
  have hwhole : digitsValue? x.whole = some (Nat.ofDigitChars 10 x.whole 0) :=
    digitsValue?_digits x.nonempty fun c hc => x.digits c (List.mem_append_left _ hc)
  unfold parsePlain
  dsimp only
  rw [body_of_text, takeWhile_body, tail_dropWhile_body, hwhole, fraction_digits]
  dsimp only
  have hvalue : ((Nat.ofDigitChars 10 x.whole 0 : ℕ) : ℚ) +
      (Nat.ofDigitChars 10 x.fraction 0 : ℕ) / 10 ^ x.fraction.length =
        x.mantissa / 10 ^ x.scale := by
    rw [mantissa_eq]
    unfold scale
    push_cast
    field_simp
  rw [hvalue]
  unfold value
  by_cases hneg : x.negative = true
  · rw [if_pos (head_text.mpr hneg), if_pos hneg, neg_one_mul]
  · rw [if_neg (fun h => hneg (head_text.mp h)), if_neg hneg, one_mul]

theorem value_eq_zero_iff : x.value = 0 ↔ x.mantissa = 0 := by
  unfold value
  split <;> simp

theorem value_pos_iff : 0 < x.value ↔ x.negative = false ∧ x.mantissa ≠ 0 := by
  have hpow : (0 : ℚ) < 10 ^ x.scale := by positivity
  unfold value
  cases x.negative with
  | false =>
    rw [if_neg Bool.false_ne_true, one_mul, div_pos_iff_of_pos_right hpow]
    simp [Nat.pos_iff_ne_zero]
  | true =>
    rw [if_pos rfl]
    have hnonneg : (0 : ℚ) ≤ x.mantissa / 10 ^ x.scale := by positivity
    refine iff_of_false (by linarith) fun h => ?_
    cases h.1

/-- A printed value that is not zero is at least the smallest decimal away from it. -/
theorem le_abs_value (hfits : x.Fits) (h : x.value ≠ 0) : 1 / 10 ^ 28 ≤ |x.value| := by
  have hone : (1 : ℚ) ≤ x.mantissa := by
    have hpos := Nat.pos_of_ne_zero fun hzero => h (value_eq_zero_iff.mpr hzero)
    exact_mod_cast hpos
  have hscale : (10 : ℚ) ^ x.scale ≤ 10 ^ 28 := pow_le_pow_right₀ (by norm_num) hfits.2
  have habs : |x.value| = x.mantissa / 10 ^ x.scale := by
    have hnonneg : (0 : ℚ) ≤ x.mantissa / 10 ^ x.scale := by positivity
    unfold value
    split
    · rw [neg_one_mul, abs_neg, abs_of_nonneg hnonneg]
    · rw [one_mul, abs_of_nonneg hnonneg]
  rw [habs]
  calc (1 : ℚ) / 10 ^ 28 ≤ 1 / 10 ^ x.scale := one_div_le_one_div_of_le (by positivity) hscale
    _ ≤ x.mantissa / 10 ^ x.scale := by gcongr

end DecimalDigits

/-! ## Printing -/

/-- **Long division.**  The digits after the point are those of the remainder. -/
theorem fractionDigits_spec {d : ℕ} (fuel : ℕ) : ∀ n < d, d ∣ n * 10 ^ fuel →
    (∀ c ∈ (fractionDigits d n fuel).toList, c.isDigit = true) ∧
      Nat.ofDigitChars 10 (fractionDigits d n fuel).toList 0 * d =
        n * 10 ^ (fractionDigits d n fuel).toList.length := by
  induction fuel with
  | zero =>
    intro n hn hdvd
    have hzero : n = 0 := Nat.eq_zero_of_dvd_of_lt (by simpa using hdvd) hn
    simp [fractionDigits, hzero]
  | succ fuel ih =>
    intro n hn hdvd
    by_cases hzero : n = 0
    · simp [fractionDigits, hzero]
    · have hdigit : n * 10 / d < 10 := Nat.div_lt_of_lt_mul (by omega)
      have hdivmod : d * (n * 10 / d) + n * 10 % d = n * 10 := Nat.div_add_mod _ _
      have hrest : d ∣ n * 10 % d * 10 ^ fuel := by
        have hall : d ∣ (d * (n * 10 / d) + n * 10 % d) * 10 ^ fuel := by
          rwa [hdivmod, mul_assoc, ← pow_succ']
        rw [add_mul, mul_assoc] at hall
        exact (Nat.dvd_add_right (dvd_mul_right _ _)).mp hall
      obtain ⟨hdigits, hsum⟩ := ih _ (Nat.mod_lt _ (by omega)) hrest
      have hlist : (fractionDigits d n (fuel + 1)).toList =
          (n * 10 / d).digitChar :: (fractionDigits d (n * 10 % d) fuel).toList := by
        rw [fractionDigits, if_neg hzero, String.toList_append, Numeral.toList_toString,
          Nat.toDigits_of_lt_base hdigit]
        rfl
      rw [hlist]
      constructor
      · intro c hc
        rcases List.mem_cons.mp hc with rfl | hc
        · simpa using hdigit
        · exact hdigits c hc
      · rw [Nat.ofDigitChars_cons_digitChar_of_lt_ten hdigit, Nat.ofDigitChars_eq_ofDigitChars_zero,
          add_mul, hsum, List.length_cons, pow_succ']
        generalize (fractionDigits d (n * 10 % d) fuel).toList.length = k
        calc 10 ^ k * (10 * 0 + n * 10 / d) * d + n * 10 % d * 10 ^ k
            = (d * (n * 10 / d) + n * 10 % d) * 10 ^ k := by ring
          _ = n * (10 * 10 ^ k) := by rw [hdivmod]; ring

/-- What is printed of a number with at most 28 digits after the point. -/
theorem exists_digits {q : ℚ} (h : q.den ∣ 10 ^ 28) :
    ∃ x : DecimalDigits, decimalText q = x.text ∧ x.value = q := by
  have hrem : q.num.natAbs % q.den < q.den := Nat.mod_lt _ q.den_pos
  have hdvd : q.den ∣ q.num.natAbs % q.den * 10 ^ 28 := h.mul_left _
  obtain ⟨hdigits, hsum⟩ := fractionDigits_spec 28 _ hrem hdvd
  have hwhole : (toString (q.num.natAbs / q.den)).toList =
      Nat.toDigits 10 (q.num.natAbs / q.den) := Numeral.toList_toString _
  let x : DecimalDigits :=
    { negative := decide (q < 0)
      whole := (toString (q.num.natAbs / q.den)).toList
      fraction := (fractionDigits q.den (q.num.natAbs % q.den) 28).toList
      nonempty := by rw [hwhole]; exact Nat.toDigits_ne_nil
      digits := fun c hc => (List.mem_append.mp hc).elim Numeral.isDigit_of_mem (hdigits c) }
  refine ⟨x, ?_, ?_⟩
  · apply String.toList_injective
    show _ = (String.ofList _).toList
    rw [String.toList_ofList]
    unfold decimalText
    by_cases hneg : q < 0
    · by_cases hfrac : fractionDigits q.den (q.num.natAbs % q.den) 28 = ""
      · simp [x, DecimalDigits.body, hneg, hfrac]
      · simp [x, DecimalDigits.body, hneg, hfrac]
    · by_cases hfrac : fractionDigits q.den (q.num.natAbs % q.den) 28 = ""
      · simp [x, DecimalDigits.body, hneg, hfrac]
      · simp [x, DecimalDigits.body, hneg, hfrac]
  · have hmantissa : x.mantissa * q.den = q.num.natAbs * 10 ^ x.scale := by
      have hvalue : Nat.ofDigitChars 10 x.whole 0 = q.num.natAbs / q.den := by
        show Nat.ofDigitChars 10 (toString (q.num.natAbs / q.den)).toList 0 = _
        rw [hwhole, Nat.ofDigitChars_ten_toDigits]
      rw [DecimalDigits.mantissa_eq, add_mul, hvalue, hsum]
      show 10 ^ x.scale * (q.num.natAbs / q.den) * q.den + q.num.natAbs % q.den * 10 ^ x.scale = _
      calc 10 ^ x.scale * (q.num.natAbs / q.den) * q.den + q.num.natAbs % q.den * 10 ^ x.scale
          = (q.den * (q.num.natAbs / q.den) + q.num.natAbs % q.den) * 10 ^ x.scale := by ring
        _ = q.num.natAbs * 10 ^ x.scale := by rw [Nat.div_add_mod]
    have hden : (q.den : ℚ) ≠ 0 := Nat.cast_ne_zero.mpr q.den_ne_zero
    have habs : (x.mantissa : ℚ) / 10 ^ x.scale = q.num.natAbs / q.den := by
      rw [div_eq_div_iff (by positivity) hden]
      exact_mod_cast hmantissa
    have hquot : (q.num.natAbs : ℚ) / q.den = |q| := by
      rw [Nat.cast_natAbs, Int.cast_abs, ← abs_of_pos (Nat.cast_pos.mpr q.den_pos : (0 : ℚ) < q.den),
        ← abs_div, Rat.num_div_den]
    unfold DecimalDigits.value
    rw [habs, hquot]
    by_cases hneg : q < 0
    · simp [x, hneg, abs_of_neg hneg]
    · simp [x, hneg, abs_of_nonneg (not_lt.mp hneg)]

/-- **Printing and reading.** -/
theorem parsePlain_decimalText {q : ℚ} (h : q.den ∣ 10 ^ 28) : parsePlain (decimalText q) = .ok q := by
  obtain ⟨x, htext, hvalue⟩ := exists_digits h
  rw [htext, x.parsePlain_text, hvalue]

end RazorTrade
