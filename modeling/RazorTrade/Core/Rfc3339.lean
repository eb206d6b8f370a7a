import Mathlib.Data.Prod.Lex
import Mathlib.Data.String.Basic
import RazorTrade.Core.Calendar
import RazorTrade.Core.DecimalText
import RazorTrade.Lib.FixedWidth

/-! # RFC 3339

A `DateTime<Utc>` counts seconds of the epoch and nanoseconds.  A leap second is not counted:
its nanoseconds go on from 10⁹ after second 59 of a minute (`UtcInstant`), and it is printed as
second 60.  `canonicalIso` of the clock readings is the special case without leap seconds
(`canonicalIso_clock`).

  `parse_canonicalIso`   :  the text is read back as the instant, truncated to microseconds
  `canonicalIso_lt_iff`  :  texts are ordered as truncated instants are -/

namespace RazorTrade

open Numeral

/-- A year of four digits. -/
def InCalendar (date : ℤ × ℕ × ℕ) : Prop := 0 ≤ date.1 ∧ date.1 ≤ 9999

instance (date : ℤ × ℕ × ℕ) : Decidable (InCalendar date) := inferInstanceAs (Decidable (_ ∧ _))

/-- The readings that `DateTime::from_timestamp` accepts. -/
@[ext] structure UtcInstant where
  secs : ℤ
  nanos : ℕ
  nanos_lt : nanos < 2 * 10 ^ 9
  leap : 10 ^ 9 ≤ nanos → secs % 60 = 59
  deriving DecidableEq

namespace UtcInstant

instance : LinearOrder UtcInstant :=
  LinearOrder.lift' (fun t => toLex (t.secs, t.nanos)) fun a b h => by
    have hpair := Prod.ext_iff.mp (toLex.injective h)
    exact UtcInstant.ext hpair.1 hpair.2

theorem lt_iff {a b : UtcInstant} :
    a < b ↔ a.secs < b.secs ∨ a.secs = b.secs ∧ a.nanos < b.nanos :=
  Prod.Lex.toLex_lt_toLex

/-- `DateTime::from_timestamp`. -/
def fromTimestamp (secs : ℤ) (nanos : ℕ) : Option UtcInstant :=
  if h : nanos < 2 * 10 ^ 9 ∧ (10 ^ 9 ≤ nanos → secs % 60 = 59) then
    some ⟨secs, nanos, h.1, h.2⟩
  else none

/-- A reading of the clock. -/
def ofClock (t : Instant) : UtcInstant :=
  ⟨t / 10 ^ 9, (t % 10 ^ 9).toNat, by omega, by omega⟩

/-- Whole microseconds. -/
def truncated (t : UtcInstant) : UtcInstant :=
  ⟨t.secs, t.nanos / 1000 * 1000, by have := t.nanos_lt; omega, fun h => t.leap (by omega)⟩

def date (t : UtcInstant) : ℤ × ℕ × ℕ := civilFromDays (t.secs / 86400)

def FourDigitYear (t : UtcInstant) : Prop := InCalendar t.date

instance (t : UtcInstant) : Decidable t.FourDigitYear := inferInstanceAs (Decidable (InCalendar _))

def hour (t : UtcInstant) : ℕ := (t.secs % 86400).toNat / 3600

def minute (t : UtcInstant) : ℕ := (t.secs % 86400).toNat / 60 % 60

/-- The second that is printed. -/
def second (t : UtcInstant) : ℕ := (t.secs % 86400).toNat % 60 + t.nanos / 10 ^ 9

def micros (t : UtcInstant) : ℕ := t.nanos % 10 ^ 9 / 1000

/-- `canonical_iso`: `to_rfc3339_opts(SecondsFormat::Micros, true)`. -/
def canonicalIso (t : UtcInstant) : String :=
  yearText t.date.1 ++ "-" ++ padded 2 t.date.2.1 ++ "-" ++ padded 2 t.date.2.2 ++ "T" ++
    padded 2 t.hour ++ ":" ++ padded 2 t.minute ++ ":" ++ padded 2 t.second ++ "." ++
    padded 6 t.micros ++ "Z"

end UtcInstant

/-! ## Reading -/

/-- A number of `w` digits. -/
def takeNumber (w : ℕ) (cs : List Char) : Option (ℕ × List Char) :=
  if w ≤ cs.length then (digitsValue? (cs.take w)).map fun n => (n, cs.drop w) else none

/-- A number of `w` digits and a separator. -/
def takeField (w : ℕ) (separators : List Char) (cs : List Char) : Option (ℕ × List Char) := do
  match ← takeNumber w cs with
  | (n, c :: rest) => if c ∈ separators then some (n, rest) else none
  | (_, []) => none

/-- `time-secfrac`, in nanoseconds; further digits are dropped. -/
def takeFraction : List Char → Option (ℕ × List Char)
  | '.' :: cs => do
    let digits := cs.takeWhile Char.isDigit
    if digits = [] then none
    let n ← digitsValue? ((digits ++ List.replicate 9 '0').take 9)
    return (n, cs.dropWhile Char.isDigit)
  | cs => some (0, cs)

/-- `time-offset`, in seconds. -/
def offset? : List Char → Option ℤ
  | ['Z'] | ['z'] => some 0
  | sign :: cs => do
    let (hours, cs) ← takeField 2 [':'] cs
    let (minutes, cs) ← takeNumber 2 cs
    if hours < 24 ∧ minutes < 60 ∧ cs = [] ∧ sign ∈ ['+', '-'] then
      return (if sign = '-' then -1 else 1) * (3600 * hours + 60 * minutes : ℕ)
    else none
  | [] => none

/-- The instant of the fields.  Second 60 is the leap second after second 59. -/
def instantOfFields (date : ℤ × ℕ × ℕ) (hour minute second nanos : ℕ) (offset : ℤ) :
    Option UtcInstant :=
  if ValidDate date ∧ hour < 24 ∧ minute < 60 ∧ second ≤ 60 then
    UtcInstant.fromTimestamp
      (86400 * daysFromCivil date + (3600 * hour + 60 * minute + min second 59 : ℕ) - offset)
      (nanos + if second = 60 then 10 ^ 9 else 0)
  else none

/-- `date-time` of RFC 3339. -/
def parseRfc3339 (s : String) : Option UtcInstant := do
  let (year, cs) ← takeField 4 ['-'] s.toList
  let (month, cs) ← takeField 2 ['-'] cs
  let (day, cs) ← takeField 2 ['T', 't', ' '] cs
  let (hour, cs) ← takeField 2 [':'] cs
  let (minute, cs) ← takeField 2 [':'] cs
  let (second, cs) ← takeNumber 2 cs
  let (nanos, cs) ← takeFraction cs
  instantOfFields (year, month, day) hour minute second nanos (← offset? cs)

/-! ## The text -/

theorem padded_eq {w n : ℕ} (hw : 0 < w) (h : n < 10 ^ w) :
    padded w n = String.ofList (fixed w n) := by
  have htext : toString n = String.ofList (Nat.toDigits 10 n) := rfl
  unfold padded
  rw [← padding_eq hw h, htext, String.ofList_append]
  dsimp only
  rw [String.length_ofList]

/-- The characters of a date, and what follows. -/
def dateChars (date : ℤ × ℕ × ℕ) (rest : List Char) : List Char :=
  fixed 4 date.1.toNat ++ '-' :: (fixed 2 date.2.1 ++ '-' :: (fixed 2 date.2.2 ++ rest))

/-- The characters of a time of the day, and what follows. -/
def timeChars (hour minute second : ℕ) (rest : List Char) : List Char :=
  fixed 2 hour ++ ':' :: (fixed 2 minute ++ ':' :: (fixed 2 second ++ rest))

theorem length_dateChars (date : ℤ × ℕ × ℕ) (rest : List Char) :
    (dateChars date rest).length = 10 + rest.length := by
  simp [dateChars]
  omega

theorem length_timeChars (hour minute second : ℕ) (rest : List Char) :
    (timeChars hour minute second rest).length = 8 + rest.length := by
  simp [timeChars]
  omega

theorem ascii_of_mem_fixed {w n : ℕ} {c : Char} (h : c ∈ fixed w n) : c.toNat < 128 := by
  have hle := (Char.isDigit_iff_toNat.mp (isDigit_of_mem_fixed h)).2
  have hnine : '9'.toNat = 57 := rfl
  omega

theorem ascii_of_mem_dateChars {date : ℤ × ℕ × ℕ} {rest : List Char}
    (hrest : ∀ c ∈ rest, c.toNat < 128) : ∀ c ∈ dateChars date rest, c.toNat < 128 := by
  intro c h
  simp only [dateChars, List.mem_append, List.mem_cons] at h
  rcases h with h | rfl | h | rfl | h | h
  · exact ascii_of_mem_fixed h
  · decide
  · exact ascii_of_mem_fixed h
  · decide
  · exact ascii_of_mem_fixed h
  · exact hrest c h

theorem ascii_of_mem_timeChars {hour minute second : ℕ} {rest : List Char}
    (hrest : ∀ c ∈ rest, c.toNat < 128) : ∀ c ∈ timeChars hour minute second rest, c.toNat < 128 := by
  intro c h
  simp only [timeChars, List.mem_append, List.mem_cons] at h
  rcases h with h | rfl | h | rfl | h | h
  · exact ascii_of_mem_fixed h
  · decide
  · exact ascii_of_mem_fixed h
  · decide
  · exact ascii_of_mem_fixed h
  · exact hrest c h

theorem day_le {days : ℤ} : (civilFromDays days).2.2 ≤ 31 := by
  obtain ⟨⟨-, -, -, hend⟩, -⟩ := civilFromDays_spec days
  have hmonth := (monthStart_succ_bounds (monthNumber (civilFromDays days))).2
  unfold daysFromCivil at hend
  omega

/-- The text of a date. -/
theorem dateText_eq {days : ℤ} (h : InCalendar (civilFromDays days)) :
    yearText (civilFromDays days).1 ++ "-" ++ padded 2 (civilFromDays days).2.1 ++ "-" ++
      padded 2 (civilFromDays days).2.2 = String.ofList (dateChars (civilFromDays days) []) := by
  obtain ⟨hlow, hhigh⟩ := h
  obtain ⟨⟨-, hmonth, -, -⟩, -⟩ := civilFromDays_spec days
  have hday : (civilFromDays days).2.2 ≤ 31 := day_le
  unfold yearText
  rw [if_pos ⟨hlow, hhigh⟩, padded_eq (by decide) (by omega), padded_eq (by decide) (by omega),
    padded_eq (by decide) (by omega)]
  apply String.toList_inj.mp
  simp only [String.toList_append, String.toList_ofList, dateChars, List.append_assoc,
    List.append_nil]
  rfl

/-- The text of a time of the day. -/
theorem timeText_eq {hour minute second : ℕ} (hh : hour < 10 ^ 2) (hm : minute < 10 ^ 2)
    (hs : second < 10 ^ 2) :
    padded 2 hour ++ ":" ++ padded 2 minute ++ ":" ++ padded 2 second =
      String.ofList (timeChars hour minute second []) := by
  rw [padded_eq (by decide) hh, padded_eq (by decide) hm, padded_eq (by decide) hs]
  apply String.toList_inj.mp
  simp only [String.toList_append, String.toList_ofList, timeChars, List.append_assoc,
    List.append_nil]
  rfl

/-- **Dates of the calendar** are ordered as texts. -/
theorem dateChars_lt_iff {days days' : ℤ} (h : InCalendar (civilFromDays days))
    (h' : InCalendar (civilFromDays days')) {us vs : List Char} :
    dateChars (civilFromDays days) us < dateChars (civilFromDays days') vs ↔
      days < days' ∨ days = days' ∧ us < vs := by
  obtain ⟨hlow, hhigh⟩ := h
  obtain ⟨hlow', hhigh'⟩ := h'
  obtain ⟨⟨hfirst, hmonth, -, -⟩, hdays⟩ := civilFromDays_spec days
  obtain ⟨⟨hfirst', hmonth', -, -⟩, hdays'⟩ := civilFromDays_spec days'
  have hday : (civilFromDays days).2.2 ≤ 31 := day_le
  have hday' : (civilFromDays days').2.2 ≤ 31 := day_le
  have hsame : days = days' ↔ civilFromDays days = civilFromDays days' := by
    constructor
    · rintro rfl
      rfl
    · intro heq
      rw [← hdays, heq, hdays']
  unfold dateChars
  rw [field_lt_iff (by omega) (by omega), field_lt_iff (by omega) (by omega),
    append_lt_iff (by simp), fixed_lt_iff (by omega) (by omega), fixed_inj (by omega) (by omega),
    civil_lt_iff, hsame, Prod.ext_iff, Prod.ext_iff]
  unfold monthNumber
  by_cases hrest : us < vs
  · simp only [hrest, and_true]
    omega
  · simp only [hrest, and_false, or_false]
    omega

theorem timeChars_lt_iff {h h' mi mi' s s' : ℕ} (hh : h < 10 ^ 2) (hh' : h' < 10 ^ 2)
    (hmi : mi < 10 ^ 2) (hmi' : mi' < 10 ^ 2) (hs : s < 10 ^ 2) (hs' : s' < 10 ^ 2)
    {us vs : List Char} : timeChars h mi s us < timeChars h' mi' s' vs ↔
      h < h' ∨ h = h' ∧ (mi < mi' ∨ mi = mi' ∧ (s < s' ∨ s = s' ∧ us < vs)) := by
  unfold timeChars
  rw [field_lt_iff hh hh', field_lt_iff hmi hmi', append_lt_iff (by simp), fixed_lt_iff hs hs',
    fixed_inj hs hs']

namespace UtcInstant

variable (t : UtcInstant)

/-- The characters up to the second, and what follows. -/
def secondChars (rest : List Char) : List Char :=
  dateChars t.date ('T' :: timeChars t.hour t.minute t.second rest)

def chars : List Char := t.secondChars ('.' :: (fixed 6 t.micros ++ ['Z']))

theorem validDate : ValidDate t.date := (civilFromDays_spec _).1

theorem daysFromCivil_date : daysFromCivil t.date = t.secs / 86400 := (civilFromDays_spec _).2

theorem hour_lt : t.hour < 24 := by
  unfold hour
  omega

theorem minute_lt : t.minute < 60 := by
  unfold minute
  omega

theorem second_le : t.second ≤ 60 := by
  have hlt := t.nanos_lt
  unfold second
  omega

theorem micros_lt : t.micros < 10 ^ 6 := by
  unfold micros
  omega

variable {t}

/-- The text up to the second. -/
theorem secondText_eq (h : t.FourDigitYear) :
    yearText t.date.1 ++ "-" ++ padded 2 t.date.2.1 ++ "-" ++ padded 2 t.date.2.2 ++ "T" ++
      padded 2 t.hour ++ ":" ++ padded 2 t.minute ++ ":" ++ padded 2 t.second =
        String.ofList (t.secondChars []) := by
  have hhour := t.hour_lt
  have hminute := t.minute_lt
  have hsecond := t.second_le
  have hdate : yearText t.date.1 ++ "-" ++ padded 2 t.date.2.1 ++ "-" ++ padded 2 t.date.2.2 =
      String.ofList (dateChars t.date []) := dateText_eq h
  have htime : padded 2 t.hour ++ ":" ++ padded 2 t.minute ++ ":" ++ padded 2 t.second =
      String.ofList (timeChars t.hour t.minute t.second []) :=
    timeText_eq (by omega) (by omega) (by omega)
  have hsplit (date hour minute second : String) : date ++ "T" ++ hour ++ ":" ++ minute ++ ":" ++
      second = date ++ "T" ++ (hour ++ ":" ++ minute ++ ":" ++ second) := by
    simp only [String.append_assoc]
  rw [hsplit, hdate, htime]
  apply String.toList_inj.mp
  simp only [String.toList_append, String.toList_ofList, secondChars, dateChars, List.append_assoc,
    List.append_nil]
  rfl

theorem secondChars_append (rest : List Char) :
    t.secondChars rest = t.secondChars [] ++ rest := by
  simp only [secondChars, dateChars, timeChars, List.append_assoc, List.cons_append,
    List.append_nil]

theorem canonicalIso_eq (h : t.FourDigitYear) : t.canonicalIso = String.ofList t.chars := by
  unfold canonicalIso chars
  rw [secondText_eq h, padded_eq (by decide) t.micros_lt, secondChars_append]
  apply String.toList_inj.mp
  simp only [String.toList_append, String.toList_ofList, List.append_assoc]
  rfl

theorem length_chars : t.chars.length = 27 := by
  unfold chars secondChars
  rw [length_dateChars, List.length_cons, length_timeChars]
  simp

theorem ascii_of_mem_chars : ∀ c ∈ t.chars, c.toNat < 128 := by
  refine ascii_of_mem_dateChars fun c hc => ?_
  rcases List.mem_cons.mp hc with rfl | hc
  · decide
  refine ascii_of_mem_timeChars (fun c hc => ?_) c hc
  simp only [List.mem_append, List.mem_cons, List.not_mem_nil, or_false] at hc
  rcases hc with rfl | hc | rfl
  · decide
  · exact ascii_of_mem_fixed hc
  · decide

/-! ## Reading it back -/

theorem takeNumber_fixed {w n : ℕ} (hw : 0 < w) (h : n < 10 ^ w) (cs : List Char) :
    takeNumber w (fixed w n ++ cs) = some (n, cs) := by
  have hne : fixed w n ≠ [] := by
    intro hnil
    have hlen := length_fixed w n
    rw [hnil] at hlen
    simp at hlen
    omega
  have hlen := length_fixed w n
  unfold takeNumber
  rw [if_pos (by simp), List.take_left' hlen, List.drop_left' hlen,
    digitsValue?_digits hne (fun c hc => isDigit_of_mem_fixed hc), ofDigits_fixed h]
  rfl

theorem takeField_fixed {w n : ℕ} (hw : 0 < w) (h : n < 10 ^ w) {c : Char} {seps : List Char}
    (hc : c ∈ seps) (cs : List Char) :
    takeField w seps (fixed w n ++ c :: cs) = some (n, cs) := by
  unfold takeField
  rw [takeNumber_fixed hw h]
  exact if_pos hc

/-- Six digits are followed by three zeros. -/
theorem takeFraction_fixed {n : ℕ} (h : n < 10 ^ 6) :
    takeFraction ('.' :: (fixed 6 n ++ ['Z'])) = some (1000 * n, ['Z']) := by
  have hdigit : ∀ c ∈ fixed 6 n, c.isDigit = true := fun c hc => isDigit_of_mem_fixed hc
  have hlen := length_fixed 6 n
  have htake : (fixed 6 n ++ ['Z']).takeWhile Char.isDigit = fixed 6 n := by
    rw [List.takeWhile_append_of_pos hdigit]
    simp
  have hdrop : (fixed 6 n ++ ['Z']).dropWhile Char.isDigit = ['Z'] := by
    rw [List.dropWhile_append_of_pos hdigit]
    rfl
  have hne : fixed 6 n ≠ [] := by
    intro hnil
    rw [hnil] at hlen
    cases hlen
  have hnine : (fixed 6 n ++ List.replicate 9 '0').take 9 = fixed 6 n ++ ['0', '0', '0'] := by
    rw [List.take_append, hlen, List.take_of_length_le (by omega)]
    rfl
  have hvalue : digitsValue? (fixed 6 n ++ ['0', '0', '0']) = some (1000 * n) := by
    rw [digitsValue?_digits (by simp) (by
      intro c hc
      rcases List.mem_append.mp hc with hc | hc
      · exact hdigit c hc
      · simp at hc
        subst hc
        decide), Nat.ofDigitChars_append, ofDigits_fixed h]
    simp [Nat.ofDigitChars_cons]
    omega
  unfold takeFraction
  simp only [htake, hdrop, if_neg hne, hnine, hvalue]
  rfl

/-- The fields give the instant back. -/
theorem instantOfFields_fields :
    instantOfFields t.date t.hour t.minute t.second (1000 * t.micros) 0 = some t.truncated := by
  have hlt := t.nanos_lt
  have hleap := t.leap
  have hsecs : 86400 * daysFromCivil t.date +
      (3600 * t.hour + 60 * t.minute + min t.second 59 : ℕ) - 0 = t.secs := by
    rw [daysFromCivil_date]
    unfold hour minute second
    omega
  have hnanos : 1000 * t.micros + (if t.second = 60 then 10 ^ 9 else 0) = t.nanos / 1000 * 1000 := by
    unfold micros second
    split_ifs <;> omega
  unfold instantOfFields
  rw [if_pos ⟨t.validDate, t.hour_lt, t.minute_lt, t.second_le⟩, hsecs, hnanos]
  exact dif_pos ⟨t.truncated.nanos_lt, t.truncated.leap⟩

/-- **The round trip.** -/
theorem parse_canonicalIso (h : t.FourDigitYear) :
    parseRfc3339 t.canonicalIso = some t.truncated := by
  obtain ⟨hlow, hhigh⟩ := h
  obtain ⟨-, hmonth, -, -⟩ := t.validDate
  have hday : t.date.2.2 ≤ 31 := day_le
  have hhour := t.hour_lt
  have hminute := t.minute_lt
  have hsecond := t.second_le
  have hdate : ((t.date.1.toNat : ℤ), t.date.2.1, t.date.2.2) = t.date := by
    rw [Int.toNat_of_nonneg hlow]
  rw [canonicalIso_eq ⟨hlow, hhigh⟩]
  unfold parseRfc3339 chars secondChars dateChars timeChars
  simp only [String.toList_ofList, Option.bind_eq_bind]
  rw [takeField_fixed (by decide) (by omega) (by decide)]
  simp only [Option.bind_some]
  rw [takeField_fixed (by decide) (by omega) (by decide)]
  simp only [Option.bind_some]
  rw [takeField_fixed (by decide) (by omega) (by decide)]
  simp only [Option.bind_some]
  rw [takeField_fixed (by decide) (by omega) (by decide)]
  simp only [Option.bind_some]
  rw [takeField_fixed (by decide) (by omega) (by decide)]
  simp only [Option.bind_some]
  rw [takeNumber_fixed (by decide) (by omega)]
  simp only [Option.bind_some]
  rw [takeFraction_fixed t.micros_lt]
  simp only [Option.bind_some, offset?, hdate]
  exact instantOfFields_fields

example : (parseRfc3339 "2016-12-31T23:59:60.5Z").map canonicalIso =
    some "2016-12-31T23:59:60.500000Z" := by decide +kernel

/-! ## Order -/

/-- Minutes of the epoch: a day has 1440. -/
theorem minutes_lt_iff {a b : UtcInstant} : a.secs / 60 < b.secs / 60 ↔
    a.secs / 86400 < b.secs / 86400 ∨ a.secs / 86400 = b.secs / 86400 ∧
      (a.hour < b.hour ∨ a.hour = b.hour ∧ a.minute < b.minute) := by
  unfold hour minute
  omega

theorem minutes_eq_iff {a b : UtcInstant} : a.secs / 60 = b.secs / 60 ↔
    a.secs / 86400 = b.secs / 86400 ∧ a.hour = b.hour ∧ a.minute = b.minute := by
  unfold hour minute
  omega

/-- In a minute the printed second goes to 60, as the leap second is the last. -/
theorem truncated_lt_iff {a b : UtcInstant} : a.truncated < b.truncated ↔
    a.secs / 60 < b.secs / 60 ∨ a.secs / 60 = b.secs / 60 ∧
      (a.second < b.second ∨ a.second = b.second ∧ a.micros < b.micros) := by
  have hlt := a.nanos_lt
  have hlt' := b.nanos_lt
  have hleap := a.leap
  have hleap' := b.leap
  rw [lt_iff]
  unfold truncated second micros
  dsimp only
  omega

/-- Texts of instants that agree up to the second are ordered by what follows. -/
theorem secondChars_lt_iff {a b : UtcInstant} (ha : a.FourDigitYear) (hb : b.FourDigitYear)
    {us vs : List Char} : a.secondChars us < b.secondChars vs ↔
      a.secs / 60 < b.secs / 60 ∨ a.secs / 60 = b.secs / 60 ∧
        (a.second < b.second ∨ a.second = b.second ∧ us < vs) := by
  have hhour := a.hour_lt
  have hhour' := b.hour_lt
  have hminute := a.minute_lt
  have hminute' := b.minute_lt
  have hsecond := a.second_le
  have hsecond' := b.second_le
  have hdate : a.secondChars us < b.secondChars vs ↔ a.secs / 86400 < b.secs / 86400 ∨
      a.secs / 86400 = b.secs / 86400 ∧ ('T' :: timeChars a.hour a.minute a.second us) <
        'T' :: timeChars b.hour b.minute b.second vs := dateChars_lt_iff ha hb
  have htime : ('T' :: timeChars a.hour a.minute a.second us) <
      'T' :: timeChars b.hour b.minute b.second vs ↔
        timeChars a.hour a.minute a.second us < timeChars b.hour b.minute b.second vs := by
    rw [List.cons_lt_cons_iff]
    simp
  rw [hdate, htime, timeChars_lt_iff (by omega) (by omega) (by omega) (by omega) (by omega)
    (by omega), minutes_lt_iff, minutes_eq_iff]
  by_cases hrest : us < vs
  · simp only [hrest, and_true]
    omega
  · simp only [hrest, and_false, or_false]
    omega

/-- **Texts are ordered as truncated instants are.** -/
theorem chars_lt_iff {a b : UtcInstant} (ha : a.FourDigitYear) (hb : b.FourDigitYear) :
    a.chars < b.chars ↔ a.truncated < b.truncated := by
  have hlast : '.' :: (fixed 6 a.micros ++ ['Z']) < '.' :: (fixed 6 b.micros ++ ['Z']) ↔
      a.micros < b.micros := by
    rw [List.cons_lt_cons_iff, field_lt_iff a.micros_lt b.micros_lt]
    simp
  unfold chars
  rw [secondChars_lt_iff ha hb, hlast, truncated_lt_iff]

theorem canonicalIso_lt_iff {a b : UtcInstant} (ha : a.FourDigitYear) (hb : b.FourDigitYear) :
    a.canonicalIso < b.canonicalIso ↔ a.truncated < b.truncated := by
  rw [← chars_lt_iff ha hb, canonicalIso_eq ha, canonicalIso_eq hb, String.lt_iff,
    String.toList_ofList, String.toList_ofList]

theorem canonicalIso_le_iff {a b : UtcInstant} (ha : a.FourDigitYear) (hb : b.FourDigitYear) :
    a.canonicalIso ≤ b.canonicalIso ↔ a.truncated ≤ b.truncated := by
  rw [← not_lt, ← not_lt, canonicalIso_lt_iff hb ha]

/-- The same for the bytes of the texts. -/
theorem textBytes_canonicalIso_lt_iff {a b : UtcInstant} (ha : a.FourDigitYear)
    (hb : b.FourDigitYear) :
    textBytes a.canonicalIso < textBytes b.canonicalIso ↔ a.truncated < b.truncated := by
  rw [← chars_lt_iff ha hb, canonicalIso_eq ha, canonicalIso_eq hb]
  exact textBytes_lt_iff ascii_of_mem_chars ascii_of_mem_chars

theorem length_textBytes_canonicalIso (h : t.FourDigitYear) :
    (textBytes t.canonicalIso).length = 27 := by
  rw [canonicalIso_eq h, textBytes_of_ascii ascii_of_mem_chars, List.length_map, length_chars]

/-- A reading of the clock has the text it has without leap seconds. -/
theorem canonicalIso_clock (now : ℤ) :
    (ofClock now).canonicalIso = RazorTrade.canonicalIso now := by
  have hsecs : now / 1000 / 1000000 = now / 10 ^ 9 := by omega
  have hmicros : ((now % 10 ^ 9).toNat % 10 ^ 9 / 1000 : ℕ) = (now / 1000 % 1000000).toNat := by
    omega
  have hsecond : (now / 10 ^ 9 % 86400).toNat % 60 + (now % 10 ^ 9).toNat / 10 ^ 9 =
      (now / 10 ^ 9 % 86400).toNat % 60 := by omega
  unfold RazorTrade.canonicalIso
  dsimp only
  rw [hsecs, ← hmicros, ← hsecond]
  rfl

end UtcInstant

end RazorTrade
