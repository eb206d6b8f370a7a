import Mathlib.Data.Int.Init

/-! # Timestamps

An instant is a UTC clock reading in nanoseconds since the Unix epoch.  The database
holds its text `canonicalIso` (`rt-core/src/time.rs`): RFC 3339 with microseconds and
a `Z`, on the proleptic Gregorian calendar, years outside 0 to 9999 with a sign. -/

namespace RazorTrade

abbrev Instant := ℤ

/-- Zero-padded decimal numeral of width at least `w`. -/
def padded (w n : ℕ) : String :=
  let s := toString n
  String.ofList (List.replicate (w - s.length) '0') ++ s

/-- Year, month and day of a day number (days since 1970-01-01), counted from March in
eras of 400 years. -/
def civilFromDays (days : ℤ) : ℤ × ℕ × ℕ :=
  let z := days + 719468
  let doe := (z % 146097).toNat
  let yoe := (doe - doe / 1460 + doe / 36524 - doe / 146096) / 365
  let doy := doe - (365 * yoe + yoe / 4 - yoe / 100)
  let mp := (5 * doy + 2) / 153
  let day := doy - (153 * mp + 2) / 5 + 1
  let month := if mp < 10 then mp + 3 else mp - 9
  (yoe + z / 146097 * 400 + (if month ≤ 2 then 1 else 0), month, day)

def yearText (y : ℤ) : String :=
  if 0 ≤ y ∧ y ≤ 9999 then padded 4 y.toNat
  else (if y < 0 then "-" else "+") ++ padded 4 y.natAbs

/-- `canonical_iso`. -/
def canonicalIso (t : Instant) : String :=
  let micros := t / 1000
  let secs := micros / 1000000
  let date := civilFromDays (secs / 86400)
  let sod := (secs % 86400).toNat
  yearText date.1 ++ "-" ++ padded 2 date.2.1 ++ "-" ++ padded 2 date.2.2 ++ "T" ++
    padded 2 (sod / 3600) ++ ":" ++ padded 2 (sod / 60 % 60) ++ ":" ++ padded 2 (sod % 60) ++
    "." ++ padded 6 (micros % 1000000).toNat ++ "Z"

example : canonicalIso 1776681900000000000 = "2026-04-20T10:45:00.000000Z" := by decide +kernel

/-- `chrono::Duration::seconds`. -/
def seconds (n : ℤ) : ℤ := n * 1000000000

/-- `Duration::num_milliseconds`: truncates towards zero. -/
def numMilliseconds (d : ℤ) : ℤ := d.tdiv 1000000

end RazorTrade
