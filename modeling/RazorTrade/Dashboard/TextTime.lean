import RazorTrade.Persistence.TimeOrder

/-! # Stored timestamps against other texts of time

The dashboard compares stored timestamps with two texts of another format.  SQLite's
`datetime` puts a blank where the stored text has a `T`, so only the dates are compared;
`to_rfc3339` differs after the seconds only, where the comparison happens to be right.

  `datetimeText_le_iff`      :  not before the text  ↔  not on an earlier day
  `le_datetimeText_iff`      :  not after the text  ↔  on an earlier day
  `toRfc3339_lt_iff`         :  after the text  ↔  not earlier, to the microsecond -/

namespace RazorTrade

open Numeral

/-- What `datetime` of SQLite prints for a second of the epoch. -/
def datetimeText (second : ℤ) : String :=
  let date := civilFromDays (second / 86400)
  let sod := (second % 86400).toNat
  yearText date.1 ++ "-" ++ padded 2 date.2.1 ++ "-" ++ padded 2 date.2.2 ++ " " ++
    padded 2 (sod / 3600) ++ ":" ++ padded 2 (sod / 60 % 60) ++ ":" ++ padded 2 (sod % 60)

/-- The fraction of `SecondsFormat::AutoSi`: no digits, or three, six or nine. -/
def autoFraction (nanos : ℕ) : String :=
  if nanos = 0 then ""
  else if nanos % 1000000 = 0 then "." ++ padded 3 (nanos / 1000000)
  else if nanos % 1000 = 0 then "." ++ padded 6 (nanos / 1000)
  else "." ++ padded 9 nanos

/-- `DateTime::to_rfc3339`. -/
def UtcInstant.toRfc3339 (t : UtcInstant) : String :=
  yearText t.date.1 ++ "-" ++ padded 2 t.date.2.1 ++ "-" ++ padded 2 t.date.2.2 ++ "T" ++
    padded 2 t.hour ++ ":" ++ padded 2 t.minute ++ ":" ++ padded 2 t.second ++
    autoFraction (t.nanos % 10 ^ 9) ++ "+00:00"

example : (UtcInstant.ofClock 1776681900123000000).toRfc3339 = "2026-04-20T10:45:00.123+00:00" ∧
    datetimeText 1776681900 = "2026-04-20 10:45:00" := by decide +kernel

/-! ## Against `datetime` -/

/-- The characters after the date. -/
def datetimeRest (second : ℤ) : List Char :=
  timeChars ((second % 86400).toNat / 3600) ((second % 86400).toNat / 60 % 60)
    ((second % 86400).toNat % 60) []

theorem datetimeText_eq {k : ℤ} (h : InCalendar (civilFromDays (k / 86400))) : datetimeText k =
    String.ofList (dateChars (civilFromDays (k / 86400)) (' ' :: datetimeRest k)) := by
  have htime : padded 2 ((k % 86400).toNat / 3600) ++ ":" ++ padded 2 ((k % 86400).toNat / 60 % 60) ++
      ":" ++ padded 2 ((k % 86400).toNat % 60) = String.ofList (datetimeRest k) :=
    timeText_eq (by omega) (by omega) (by omega)
  have hsplit : datetimeText k = (yearText (civilFromDays (k / 86400)).1 ++ "-" ++
      padded 2 (civilFromDays (k / 86400)).2.1 ++ "-" ++ padded 2 (civilFromDays (k / 86400)).2.2) ++
      " " ++ (padded 2 ((k % 86400).toNat / 3600) ++ ":" ++ padded 2 ((k % 86400).toNat / 60 % 60) ++
        ":" ++ padded 2 ((k % 86400).toNat % 60)) := by
    unfold datetimeText
    simp only [String.append_assoc]
  rw [hsplit, dateText_eq h, htime]
  apply String.toList_inj.mp
  simp only [String.toList_append, String.toList_ofList, dateChars, List.append_assoc,
    List.append_nil]
  rfl

variable {s : String} {t : UtcInstant} {k : ℤ}

theorem lt_datetimeText_iff (h : Stamped s t) (hk : InCalendar (civilFromDays (k / 86400))) :
    s < datetimeText k ↔ t.secs / 86400 < k / 86400 := by
  obtain ⟨hyear, rfl⟩ := h
  have hdate : t.chars < dateChars (civilFromDays (k / 86400)) (' ' :: datetimeRest k) ↔
      t.secs / 86400 < k / 86400 ∨ t.secs / 86400 = k / 86400 ∧
        ('T' :: timeChars t.hour t.minute t.second ('.' :: (fixed 6 t.micros ++ ['Z']))) <
          ' ' :: datetimeRest k := dateChars_lt_iff hyear hk
  have hsep : ¬ ('T' :: timeChars t.hour t.minute t.second ('.' :: (fixed 6 t.micros ++ ['Z']))) <
      ' ' :: datetimeRest k := by
    rw [List.cons_lt_cons_iff]
    rintro (h | ⟨h, -⟩)
    · exact absurd h (by decide)
    · exact absurd h (by decide)
  rw [UtcInstant.canonicalIso_eq hyear, datetimeText_eq hk, String.lt_iff, String.toList_ofList,
    String.toList_ofList, hdate]
  simp only [hsep, and_false, or_false]

theorem datetimeText_lt_iff (h : Stamped s t) (hk : InCalendar (civilFromDays (k / 86400))) :
    datetimeText k < s ↔ k / 86400 ≤ t.secs / 86400 := by
  obtain ⟨hyear, rfl⟩ := h
  have hdate : dateChars (civilFromDays (k / 86400)) (' ' :: datetimeRest k) < t.chars ↔
      k / 86400 < t.secs / 86400 ∨ k / 86400 = t.secs / 86400 ∧ (' ' :: datetimeRest k) <
        'T' :: timeChars t.hour t.minute t.second ('.' :: (fixed 6 t.micros ++ ['Z'])) :=
    dateChars_lt_iff hk hyear
  have hsep : (' ' :: datetimeRest k) <
      'T' :: timeChars t.hour t.minute t.second ('.' :: (fixed 6 t.micros ++ ['Z'])) := by
    rw [List.cons_lt_cons_iff]
    exact Or.inl (by decide)
  rw [UtcInstant.canonicalIso_eq hyear, datetimeText_eq hk, String.lt_iff, String.toList_ofList,
    String.toList_ofList, hdate, and_iff_left hsep]
  exact le_iff_lt_or_eq.symm

/-- **A lower bound** keeps the whole day of the bound. -/
theorem datetimeText_le_iff (h : Stamped s t) (hk : InCalendar (civilFromDays (k / 86400))) :
    datetimeText k ≤ s ↔ k / 86400 ≤ t.secs / 86400 := by
  rw [← not_lt, lt_datetimeText_iff h hk, not_lt]

/-- **An upper bound** keeps nothing of it. -/
theorem le_datetimeText_iff (h : Stamped s t) (hk : InCalendar (civilFromDays (k / 86400))) :
    s ≤ datetimeText k ↔ t.secs / 86400 < k / 86400 := by
  rw [← not_lt, datetimeText_lt_iff h hk, not_le]

/-! ## Against `to_rfc3339` -/

/-- The characters after the seconds. -/
def autoRest (nanos : ℕ) : List Char := (autoFraction nanos).toList ++ "+00:00".toList

theorem plus_lt_digit {c : Char} (h : c.isDigit = true) : '+' < c := by
  have hle := (Char.isDigit_iff_toNat.mp h).1
  have hzero : '0'.toNat = 48 := rfl
  have hplus : '+'.toNat = 43 := rfl
  show '+'.toNat < c.toNat
  omega

theorem digit_lt_zulu {c : Char} (h : c.isDigit = true) : c < 'Z' := by
  have hle := (Char.isDigit_iff_toNat.mp h).2
  have hnine : '9'.toNat = 57 := rfl
  have hz : 'Z'.toNat = 90 := rfl
  show c.toNat < 'Z'.toNat
  omega

/-- After equal digits, the bound goes on with a sign or a digit, the stored text with a digit
or `Z`; the bound is the smaller text in each case. -/
theorem autoRest_lt_iff {n us : ℕ} (hn : n < 10 ^ 9) (hus : us < 10 ^ 6) :
    autoRest n < '.' :: (fixed 6 us ++ ['Z']) ↔ n / 1000 ≤ us := by
  have hoffset : "+00:00".toList = '+' :: "00:00".toList := rfl
  have hpoint : ∀ xs ys : List Char, '.' :: xs < '.' :: ys ↔ xs < ys := fun xs ys => by
    rw [List.cons_lt_cons_iff]
    simp
  unfold autoRest autoFraction
  by_cases hzero : n = 0
  · subst hzero
    have hlt : '+' :: "00:00".toList < '.' :: (fixed 6 us ++ ['Z']) :=
      List.cons_lt_cons_iff.mpr (Or.inl (by decide))
    simpa [hoffset] using hlt
  rw [if_neg hzero]
  by_cases hmilli : n % 1000000 = 0
  · obtain ⟨c, cs, hfixed, hdigit⟩ := exists_digit_of_fixed (w := 3) (by decide) (us % 10 ^ 3)
    have hsplit : fixed 6 us = fixed 3 (us / 10 ^ 3) ++ c :: cs := by
      rw [← hfixed]
      exact fixed_add 3 3 us
    have htext : ("." ++ padded 3 (n / 1000000)).toList ++ "+00:00".toList =
        '.' :: (fixed 3 (n / 1000000) ++ '+' :: "00:00".toList) := by
      rw [padded_eq (by decide) (by omega), String.toList_append, String.toList_ofList,
        String.toList_ofList, hoffset]
      simp
    rw [if_pos hmilli, htext, hsplit, List.append_assoc, List.cons_append, hpoint,
      field_le_iff (by omega) (by omega) (plus_lt_digit hdigit)]
    omega
  rw [if_neg hmilli]
  by_cases hmicro : n % 1000 = 0
  · have htext : ("." ++ padded 6 (n / 1000)).toList ++ "+00:00".toList =
        '.' :: (fixed 6 (n / 1000) ++ '+' :: "00:00".toList) := by
      rw [padded_eq (by decide) (by omega), String.toList_append, String.toList_ofList,
        String.toList_ofList, hoffset]
      simp
    rw [if_pos hmicro, htext, hpoint, field_le_iff (by omega) (by omega) (by decide)]
  · obtain ⟨c, cs, hfixed, hdigit⟩ := exists_digit_of_fixed (w := 3) (by decide) (n % 10 ^ 3)
    have hsplit : fixed 9 n = fixed 6 (n / 10 ^ 3) ++ c :: cs := by
      rw [← hfixed]
      exact fixed_add 6 3 n
    have htext : ("." ++ padded 9 n).toList ++ "+00:00".toList =
        '.' :: (fixed 6 (n / 10 ^ 3) ++ c :: (cs ++ "+00:00".toList)) := by
      rw [padded_eq (by decide) (by omega), String.toList_append, String.toList_ofList,
        String.toList_ofList, hsplit]
      simp
    rw [if_neg hmicro, htext, hpoint, field_le_iff (by omega) (by omega) (digit_lt_zulu hdigit)]
    omega

theorem toRfc3339_eq (h : t.FourDigitYear) :
    t.toRfc3339 = String.ofList (t.secondChars (autoRest (t.nanos % 10 ^ 9))) := by
  unfold UtcInstant.toRfc3339
  rw [UtcInstant.secondText_eq h, UtcInstant.secondChars_append (autoRest _)]
  apply String.toList_inj.mp
  simp only [String.toList_append, String.toList_ofList, autoRest, List.append_assoc]

/-- **A bound that is printed with an offset.** -/
theorem toRfc3339_lt_iff {since : UtcInstant} (hsince : since.FourDigitYear) (h : Stamped s t) :
    since.toRfc3339 < s ↔ since.truncated ≤ t.truncated := by
  obtain ⟨hyear, rfl⟩ := h
  have hrest : autoRest (since.nanos % 10 ^ 9) < '.' :: (fixed 6 t.micros ++ ['Z']) ↔
      ¬ t.micros < since.micros := by
    rw [autoRest_lt_iff (Nat.mod_lt _ (by decide)) t.micros_lt, not_lt]
    rfl
  rw [toRfc3339_eq hsince, UtcInstant.canonicalIso_eq hyear, String.lt_iff, String.toList_ofList,
    String.toList_ofList, ← not_lt, UtcInstant.truncated_lt_iff]
  unfold UtcInstant.chars
  rw [UtcInstant.secondChars_lt_iff hsince hyear, hrest]
  omega

end RazorTrade
