import Mathlib.Algebra.Order.Group.Nat
import Mathlib.Order.Monotone.Basic
import RazorTrade.Core.Time

/-! # The calendar behind a timestamp

`civilFromDays` counts years from March, so that the leap day is the last of its year: a date
is a month number (`monthNumber`, twelve a year, March first) and a day in it.  Months start at
`monthStart`, which ascends, so dates are ordered as their days are.

  `civilFromDays_spec` :  the day number, and the range of the month and the day
  `civil_lt_iff`       :  an earlier day  ↔  an earlier month, or an earlier day in it -/

namespace RazorTrade

/-- Days before a year of an era of 400 years, counted from March. -/
def yearStart (y : ℕ) : ℕ := 365 * y + y / 4 - y / 100 + y / 400

/-- The year of a day of the era. -/
def yearOfEra (doe : ℕ) : ℕ := (doe - doe / 1460 + doe / 36524 - doe / 146096) / 365

/-- Months since March of the year 0. -/
def monthNumber (date : ℤ × ℕ × ℕ) : ℤ := 12 * date.1 + date.2.1 - 3

/-- The first day of a month, as a day number. -/
def monthStart (month : ℤ) : ℤ :=
  365 * (month / 12) + month / 12 / 4 - month / 12 / 100 + month / 12 / 400 +
    (153 * (month % 12) + 2) / 5 - 719468

/-- The day number of a date. -/
def daysFromCivil (date : ℤ × ℕ × ℕ) : ℤ := monthStart (monthNumber date) + date.2.2 - 1

/-- A date of the calendar. -/
def ValidDate (date : ℤ × ℕ × ℕ) : Prop :=
  1 ≤ date.2.1 ∧ date.2.1 ≤ 12 ∧ 1 ≤ date.2.2 ∧
    daysFromCivil date < monthStart (monthNumber date + 1)

instance (date : ℤ × ℕ × ℕ) : Decidable (ValidDate date) := inferInstanceAs (Decidable (_ ∧ _))

example : ValidDate (2024, 2, 29) ∧ ¬ ValidDate (2026, 2, 29) ∧ ¬ ValidDate (1900, 2, 29) := by
  decide

/-! ## Lemmas -/

theorem yearOfEra_mono : Monotone yearOfEra := by
  refine monotone_nat_of_le_succ fun d => Nat.div_le_div_right ?_
  have hdiv : ∀ n : ℕ, n / 146096 = n / 36524 / 4 := fun n => by omega
  rw [hdiv, hdiv]
  omega

/-- The first and the last day of a year. -/
theorem yearOfEra_ends : ∀ y < 400,
    yearOfEra (yearStart y) = y ∧ yearOfEra (yearStart (y + 1) - 1) = y := by
  decide +kernel

/-- A day lies in its year: the first and the last days decide, as the year does not go back. -/
theorem yearOfEra_bounds {doe : ℕ} (h : doe < 146097) : yearOfEra doe < 400 ∧
    yearStart (yearOfEra doe) ≤ doe ∧ doe < yearStart (yearOfEra doe + 1) := by
  have hlt : yearOfEra doe < 400 := by
    have hle := yearOfEra_mono (Nat.le_of_lt_succ h)
    have hend : yearOfEra 146096 = 399 := by decide +kernel
    omega
  refine ⟨hlt, ?_, ?_⟩
  · by_contra hout
    have hpos : yearOfEra doe ≠ 0 := fun hzero => by
      rw [hzero] at hout
      exact hout (Nat.zero_le doe)
    have hle : doe ≤ yearStart (yearOfEra doe - 1 + 1) - 1 := by
      rw [Nat.sub_add_cancel (Nat.pos_of_ne_zero hpos)]
      omega
    have hprev := (yearOfEra_ends (yearOfEra doe - 1) (by omega)).2
    have hmono := yearOfEra_mono hle
    omega
  · by_contra hout
    have hmono := yearOfEra_mono (not_lt.mp hout)
    by_cases hlast : yearOfEra doe = 399
    · rw [hlast] at hout
      exact hout h
    · rw [(yearOfEra_ends (yearOfEra doe + 1) (by omega)).1] at hmono
      omega

/-- A year has at most 366 days. -/
theorem yearStart_succ_le (y : ℕ) : yearStart (y + 1) ≤ yearStart y + 366 := by
  have hdiv : ∀ n : ℕ, n / 400 = n / 100 / 4 := fun n => by omega
  unfold yearStart
  rw [hdiv, hdiv]
  omega

/-- A day of the year lies in its month: 153 days every five months. -/
theorem month_bounds {doy mp : ℕ} (h : doy < 366) (hm : mp = (5 * doy + 2) / 153) :
    mp < 12 ∧ (153 * mp + 2) / 5 ≤ doy ∧ doy < (153 * (mp + 1) + 2) / 5 := by
  refine ⟨?_, ?_, ?_⟩ <;> omega

/-- A month has at least one day and at most 31. -/
theorem monthStart_succ_bounds (m : ℤ) :
    monthStart m < monthStart (m + 1) ∧ monthStart (m + 1) ≤ monthStart m + 31 := by
  unfold monthStart
  by_cases hlast : m % 12 = 11
  · have hyear : (m + 1) / 12 = m / 12 + 1 := by omega
    have hmonth : (m + 1) % 12 = 0 := by omega
    rw [hyear, hmonth, hlast]
    constructor <;> omega
  · have hyear : (m + 1) / 12 = m / 12 := by omega
    have hmonth : (m + 1) % 12 = m % 12 + 1 := by omega
    rw [hyear, hmonth]
    constructor <;> omega

theorem monthStart_mono {m n : ℤ} (h : m ≤ n) : monthStart m ≤ monthStart n := by
  induction n, h using Int.leInduction with
  | base => exact le_refl _
  | succ n _ ih =>
    have hnext := (monthStart_succ_bounds n).1
    omega

/-- The first day of a month, from its year of the era. -/
theorem monthStart_eq {era : ℤ} {yoe mp : ℕ} (hy : yoe < 400) (hm : mp < 12) :
    monthStart (12 * (yoe + era * 400) + mp) =
      146097 * era + yearStart yoe + ((153 * mp + 2) / 5 : ℕ) - 719468 := by
  have hyear : (12 * (yoe + era * 400) + mp : ℤ) / 12 = yoe + era * 400 := by omega
  have hmonth : (12 * (yoe + era * 400) + mp : ℤ) % 12 = mp := by omega
  have hfour : (yoe + era * 400 : ℤ) / 4 = (yoe / 4 : ℕ) + era * 100 := by omega
  have hhundred : (yoe + era * 400 : ℤ) / 100 = (yoe / 100 : ℕ) + era * 4 := by omega
  have hera : (yoe + era * 400 : ℤ) / 400 = era := by omega
  have hstart : ((yearStart yoe : ℕ) : ℤ) = 365 * yoe + (yoe / 4 : ℕ) - (yoe / 100 : ℕ) := by
    unfold yearStart
    omega
  unfold monthStart
  rw [hyear, hmonth, hfour, hhundred, hera, hstart]
  omega

/-- The last month of a year ends with the year. -/
theorem monthEnd_eq {era : ℤ} {yoe : ℕ} (hy : yoe < 400) :
    monthStart (12 * (yoe + era * 400) + 11 + 1) = 146097 * era + yearStart (yoe + 1) - 719468 := by
  by_cases hlast : yoe = 399
  · subst hlast
    have hmonth : (12 * ((399 : ℕ) + era * 400) + 11 + 1 : ℤ) =
        12 * ((0 : ℕ) + (era + 1) * 400) + (0 : ℕ) := by omega
    rw [hmonth, monthStart_eq (by omega) (by omega)]
    have h0 : yearStart 0 = 0 := rfl
    have h400 : yearStart (399 + 1) = 146097 := rfl
    rw [h0, h400]
    omega
  · have hmonth : (12 * (yoe + era * 400) + 11 + 1 : ℤ) =
        12 * ((yoe + 1 : ℕ) + era * 400) + (0 : ℕ) := by omega
    rw [hmonth, monthStart_eq (by omega) (by omega)]
    omega

/-- **What a day's date is.** -/
theorem civilFromDays_spec (days : ℤ) :
    ValidDate (civilFromDays days) ∧ daysFromCivil (civilFromDays days) = days := by
  generalize hz : days + 719468 = z
  generalize hera : z / 146097 = era
  generalize hdoe : (z % 146097).toNat = doe
  generalize hyoe : yearOfEra doe = yoe
  generalize hdoy : doe - (365 * yoe + yoe / 4 - yoe / 100) = doy
  generalize hmp : (5 * doy + 2) / 153 = mp
  have hdays : days = 146097 * era + doe - 719468 := by omega
  have hera' : doe < 146097 := by omega
  obtain ⟨hy, hlow, hhigh⟩ := yearOfEra_bounds hera'
  rw [hyoe] at hy hlow hhigh
  have hstart : yearStart yoe = 365 * yoe + yoe / 4 - yoe / 100 := by
    unfold yearStart
    omega
  have hdoe' : doe = yearStart yoe + doy := by omega
  have hyear : doy < 366 := by
    have hlong := yearStart_succ_le yoe
    omega
  obtain ⟨hm, hmlow, hmhigh⟩ := month_bounds hyear hmp.symm
  have hcivil : civilFromDays days = (yoe + era * 400 + (if (if mp < 10 then mp + 3 else mp - 9) ≤ 2
      then 1 else 0), if mp < 10 then mp + 3 else mp - 9, doy - (153 * mp + 2) / 5 + 1) := by
    subst hmp hdoy hyoe hdoe hera hz
    rfl
  have hnumber : monthNumber (civilFromDays days) = 12 * (yoe + era * 400) + mp := by
    rw [hcivil]
    unfold monthNumber
    dsimp only
    split_ifs <;> omega
  have hvalue : daysFromCivil (civilFromDays days) = days := by
    unfold daysFromCivil
    rw [hnumber, monthStart_eq hy hm, hcivil]
    dsimp only
    omega
  refine ⟨⟨?_, ?_, ?_, ?_⟩, hvalue⟩
  · rw [hcivil]
    dsimp only
    split_ifs <;> omega
  · rw [hcivil]
    dsimp only
    split_ifs <;> omega
  · rw [hcivil]
    dsimp only
    omega
  · rw [hvalue, hnumber]
    by_cases hlast : mp = 11
    · subst hlast
      push_cast
      rw [monthEnd_eq hy]
      omega
    · have hend : monthStart (12 * (yoe + era * 400) + (mp + 1 : ℕ)) =
          146097 * era + yearStart yoe + ((153 * (mp + 1) + 2) / 5 : ℕ) - 719468 :=
        monthStart_eq hy (by omega)
      have hnext : (12 * (yoe + era * 400) + mp + 1 : ℤ) =
          12 * (yoe + era * 400) + (mp + 1 : ℕ) := by omega
      rw [hnext, hend]
      omega

/-- **Dates are ordered as their days are.** -/
theorem civil_lt_iff {a b : ℤ} : a < b ↔
    monthNumber (civilFromDays a) < monthNumber (civilFromDays b) ∨
      monthNumber (civilFromDays a) = monthNumber (civilFromDays b) ∧
        (civilFromDays a).2.2 < (civilFromDays b).2.2 := by
  obtain ⟨⟨-, -, hfirst, hend⟩, ha⟩ := civilFromDays_spec a
  obtain ⟨⟨-, -, hfirst', hend'⟩, hb⟩ := civilFromDays_spec b
  rw [ha] at hend
  rw [hb] at hend'
  unfold daysFromCivil at ha hb
  rcases lt_trichotomy (monthNumber (civilFromDays a)) (monthNumber (civilFromDays b)) with
    hlt | heq | hgt
  · have hmono := monthStart_mono (Int.add_one_le_of_lt hlt)
    omega
  · rw [heq] at ha
    omega
  · have hmono := monthStart_mono (Int.add_one_le_of_lt hgt)
    omega

end RazorTrade
