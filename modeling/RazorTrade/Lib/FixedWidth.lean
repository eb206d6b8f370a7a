import Mathlib.Algebra.Order.Group.Nat
import Mathlib.Tactic.IntervalCases
import Mathlib.Tactic.Tauto
import RazorTrade.Lib.Numeral

/-! # Numerals of fixed width

Zero-padded numerals of one width are ordered as texts as their numbers are, and so are
records of such fields.

  `fixed_lt_iff`      :  numerals of one width compare like their numbers
  `field_lt_iff`      :  records compare by the first field, then by the rest
  `ofDigits_fixed`    :  the digits give the number back
  `textBytes_lt_iff`  :  ASCII texts compare like their bytes -/

namespace Numeral

/-- The last `w` decimal digits. -/
def fixed : ℕ → ℕ → List Char
  | 0, _ => []
  | w + 1, n => fixed w (n / 10) ++ [Nat.digitChar (n % 10)]

theorem fixed_succ (w n : ℕ) : fixed (w + 1) n = fixed w (n / 10) ++ [Nat.digitChar (n % 10)] :=
  rfl

@[simp] theorem length_fixed (w n : ℕ) : (fixed w n).length = w := by
  induction w generalizing n with
  | zero => rfl
  | succ w ih => simp [fixed, ih]

theorem toNat_digitChar {n : ℕ} (h : n < 10) : (Nat.digitChar n).toNat = 48 + n := by
  interval_cases n <;> rfl

theorem digitChar_lt_iff {n m : ℕ} (hn : n < 10) (hm : m < 10) :
    Nat.digitChar n < Nat.digitChar m ↔ n < m := by
  have hlt : Nat.digitChar n < Nat.digitChar m ↔
      (Nat.digitChar n).toNat < (Nat.digitChar m).toNat := Iff.rfl
  rw [hlt, toNat_digitChar hn, toNat_digitChar hm]
  omega

theorem isDigit_of_mem_fixed {w n : ℕ} {c : Char} (h : c ∈ fixed w n) : c.isDigit = true := by
  induction w generalizing n with
  | zero => cases h
  | succ w ih =>
    rcases List.mem_append.mp h with h | h
    · exact ih h
    · rw [List.mem_singleton] at h
      subst h
      have hlt : n % 10 < 10 := Nat.mod_lt _ (by decide)
      generalize n % 10 = r at hlt
      interval_cases r <;> decide

/-- The digits of a fixed width give the number back. -/
theorem ofDigits_fixed {w n : ℕ} (h : n < 10 ^ w) : Nat.ofDigitChars 10 (fixed w n) 0 = n := by
  induction w generalizing n with
  | zero =>
    simp only [pow_zero, Nat.lt_one_iff] at h
    subst h
    rfl
  | succ w ih =>
    have hdiv : n / 10 < 10 ^ w := by
      rw [pow_succ] at h
      omega
    have hlt : n % 10 < 10 := Nat.mod_lt _ (by decide)
    unfold fixed
    rw [Nat.ofDigitChars_append, ih hdiv, Nat.ofDigitChars_cons_digitChar_of_lt_ten hlt,
      Nat.ofDigitChars_nil]
    omega

theorem fixed_inj {w n m : ℕ} (hn : n < 10 ^ w) (hm : m < 10 ^ w) :
    fixed w n = fixed w m ↔ n = m := by
  constructor
  · intro h
    rw [← ofDigits_fixed hn, h, ofDigits_fixed hm]
  · rintro rfl
    rfl

/-- A numeral in two parts. -/
theorem fixed_add (a b n : ℕ) : fixed (a + b) n = fixed a (n / 10 ^ b) ++ fixed b (n % 10 ^ b) := by
  induction b generalizing n with
  | zero => simp [fixed]
  | succ b ih =>
    have hdiv : n / 10 / 10 ^ b = n / 10 ^ (b + 1) := by
      rw [Nat.div_div_eq_div_mul, pow_succ, Nat.mul_comm]
    have hrest : n / 10 % 10 ^ b = n % 10 ^ (b + 1) / 10 := by
      rw [pow_succ, Nat.mod_mul_left_div_self]
    have hlast : n % 10 = n % 10 ^ (b + 1) % 10 := by
      rw [pow_succ, Nat.mod_mul_left_mod]
    rw [← Nat.add_assoc, fixed_succ, fixed_succ, ih, hdiv, hrest, hlast, List.append_assoc]

theorem exists_digit_of_fixed {w : ℕ} (hw : 0 < w) (n : ℕ) :
    ∃ c cs, fixed w n = c :: cs ∧ c.isDigit = true := by
  cases h : fixed w n with
  | nil =>
    have hlen := length_fixed w n
    rw [h, List.length_nil] at hlen
    omega
  | cons c cs =>
    refine ⟨c, cs, rfl, isDigit_of_mem_fixed (w := w) (n := n) ?_⟩
    rw [h]
    exact List.mem_cons_self

/-- Lists that start with parts of one length. -/
theorem append_lt_iff {α : Type} [LT α] {xs ys us vs : List α}
    (h : xs.length = ys.length) : xs ++ us < ys ++ vs ↔ xs < ys ∨ xs = ys ∧ us < vs := by
  induction xs generalizing ys with
  | nil =>
    obtain rfl := List.length_eq_zero_iff.mp h.symm
    simp
  | cons x xs ih =>
    cases ys with
    | nil => cases h
    | cons y ys =>
      have hlen := Nat.succ.inj h
      rw [List.cons_append, List.cons_append, List.cons_lt_cons_iff, List.cons_lt_cons_iff, ih hlen]
      simp only [List.cons.injEq]
      tauto

/-- **Numerals of one width.** -/
theorem fixed_lt_iff {w n m : ℕ} (hn : n < 10 ^ w) (hm : m < 10 ^ w) :
    fixed w n < fixed w m ↔ n < m := by
  induction w generalizing n m with
  | zero =>
    simp only [pow_zero, Nat.lt_one_iff] at hn hm
    subst hn hm
    simp [fixed]
  | succ w ih =>
    have hn' : n / 10 < 10 ^ w := by
      rw [pow_succ] at hn
      omega
    have hm' : m / 10 < 10 ^ w := by
      rw [pow_succ] at hm
      omega
    have hlast : [Nat.digitChar (n % 10)] < [Nat.digitChar (m % 10)] ↔ n % 10 < m % 10 := by
      rw [List.cons_lt_cons_iff, digitChar_lt_iff (Nat.mod_lt _ (by decide))
        (Nat.mod_lt _ (by decide))]
      simp
    unfold fixed
    rw [append_lt_iff (by simp), ih hn' hm', fixed_inj hn' hm', hlast]
    omega

/-- **Records.**  A field of fixed width, a separator, the rest. -/
theorem field_lt_iff {w n m : ℕ} (hn : n < 10 ^ w) (hm : m < 10 ^ w) {c : Char}
    {us vs : List Char} :
    fixed w n ++ c :: us < fixed w m ++ c :: vs ↔ n < m ∨ n = m ∧ us < vs := by
  rw [append_lt_iff (by simp), fixed_lt_iff hn hm, fixed_inj hn hm, List.cons_lt_cons_iff]
  simp

/-- A smaller separator: the field decides, and equal fields count as smaller. -/
theorem field_le_iff {w n m : ℕ} (hn : n < 10 ^ w) (hm : m < 10 ^ w) {c d : Char} (h : c < d)
    {us vs : List Char} : fixed w n ++ c :: us < fixed w m ++ d :: vs ↔ n ≤ m := by
  rw [append_lt_iff (by simp), fixed_lt_iff hn hm, fixed_inj hn hm, List.cons_lt_cons_iff]
  simp only [h, true_or, and_true]
  exact le_iff_lt_or_eq.symm

/-- The padding of a numeral that is short enough. -/
theorem padding_eq {w n : ℕ} (hw : 0 < w) (h : n < 10 ^ w) :
    List.replicate (w - (Nat.toDigits 10 n).length) '0' ++ Nat.toDigits 10 n = fixed w n := by
  induction w generalizing n with
  | zero => omega
  | succ w ih =>
    unfold fixed
    by_cases hsmall : n < 10
    · have hzero : fixed w (n / 10) = List.replicate w '0' := by
        rw [Nat.div_eq_of_lt hsmall]
        clear ih h hw
        induction w with
        | zero => rfl
        | succ w ih =>
          unfold fixed
          rw [Nat.zero_div, ih, Nat.zero_mod, List.replicate_succ']
          rfl
      rw [Nat.toDigits_of_lt_base hsmall, hzero, Nat.mod_eq_of_lt hsmall]
      simp
    · have hbig : 10 ≤ n := not_lt.mp hsmall
      have hdiv : n / 10 < 10 ^ w := by
        rw [pow_succ] at h
        omega
      have hpos : 0 < w := by
        rcases Nat.eq_zero_or_pos w with rfl | hw'
        · simp at h
          omega
        · exact hw'
      rw [Nat.toDigits_of_base_le (by decide) hbig, ← ih hpos hdiv, List.length_append,
        List.append_assoc]
      simp

/-! ## Bytes -/

/-- The bytes of a text. -/
def textBytes (s : String) : List UInt8 := s.toByteArray.data.toList

theorem textBytes_of_ascii {cs : List Char} (h : ∀ c ∈ cs, c.toNat < 128) :
    textBytes (String.ofList cs) = cs.map fun c => UInt8.ofNat c.toNat := by
  have hchar : ∀ c ∈ cs, String.utf8EncodeChar c = [UInt8.ofNat c.toNat] := by
    intro c hc
    have hsize : c.utf8Size = 1 := by
      rw [Char.utf8Size_eq_one_iff]
      exact Nat.le_of_lt_succ (h c hc)
    rw [String.utf8EncodeChar_eq_singleton hsize]
    rfl
  unfold textBytes
  rw [String.toByteArray_ofList]
  unfold List.utf8Encode
  rw [List.toList_data_toByteArray]
  clear h
  induction cs with
  | nil => rfl
  | cons c cs ih =>
    rw [List.flatMap_cons, hchar c List.mem_cons_self, List.map_cons,
      ih fun d hd => hchar d (List.mem_cons_of_mem c hd)]
    rfl

/-- **ASCII texts are ordered as their bytes are.** -/
theorem textBytes_lt_iff {cs ds : List Char} (hc : ∀ c ∈ cs, c.toNat < 128)
    (hd : ∀ d ∈ ds, d.toNat < 128) :
    textBytes (String.ofList cs) < textBytes (String.ofList ds) ↔ cs < ds := by
  rw [textBytes_of_ascii hc, textBytes_of_ascii hd]
  induction cs generalizing ds with
  | nil => cases ds <;> simp
  | cons c cs ih =>
    cases ds with
    | nil => simp
    | cons d ds =>
      have hclt := hc c List.mem_cons_self
      have hdlt := hd d List.mem_cons_self
      have hof : ∀ n : ℕ, n < 128 → (UInt8.ofNat n).toNat = n := fun n hn => by
        simp
        omega
      have hbyte : UInt8.ofNat c.toNat < UInt8.ofNat d.toNat ↔ c < d := by
        rw [UInt8.lt_iff_toNat_lt, hof _ hclt, hof _ hdlt]
        rfl
      have heq : UInt8.ofNat c.toNat = UInt8.ofNat d.toNat ↔ c = d := by
        rw [← UInt8.toNat_inj, hof _ hclt, hof _ hdlt, Char.toNat_inj]
      rw [List.map_cons, List.map_cons, List.cons_lt_cons_iff, List.cons_lt_cons_iff, hbyte, heq,
        ih (fun x hx => hc x (List.mem_cons_of_mem c hx))
          fun x hx => hd x (List.mem_cons_of_mem d hx)]

end Numeral
