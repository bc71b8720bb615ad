import QueryParity.Instant

/-!
# Calendar text of an instant

The proleptic Gregorian date and the time of day in UTC, as `year-month-dayThour:minute:secondZ`.
Fractions of a second are not shown; within a leap second the seconds field is one higher.
-/

namespace QueryParity

/-- A date of the proleptic Gregorian calendar. -/
structure CivilDate where
  /-- Astronomical year: 0 is 1 BC. -/
  year : Int
  /-- Month from 1 to 12. -/
  month : Nat
  /-- Day of the month from 1. -/
  day : Nat
  deriving DecidableEq, Repr

namespace CivilDate

/-- Days in one 400-year cycle of the calendar. -/
def daysPerCycle : Int := 146097

/-- The date that lies `days` after 1970-01-01.

Years are counted from the first of March, so that the leap day is the last day of its year. -/
def ofDays (days : Int) : CivilDate :=
  let shifted := days + 719468
  let cycle := shifted / daysPerCycle
  let dayOfCycle := (shifted % daysPerCycle).toNat
  let yearOfCycle :=
    (dayOfCycle - dayOfCycle / 1460 + dayOfCycle / 36524 - dayOfCycle / 146096) / 365
  let dayOfYear := dayOfCycle - (365 * yearOfCycle + yearOfCycle / 4 - yearOfCycle / 100)
  let monthFromMarch := (5 * dayOfYear + 2) / 153
  let day := dayOfYear - (153 * monthFromMarch + 2) / 5 + 1
  let month := if monthFromMarch < 10 then monthFromMarch + 3 else monthFromMarch - 9
  let year := cycle * 400 + yearOfCycle + (if month ≤ 2 then 1 else 0)
  ⟨year, month, day⟩

end CivilDate

/-- Decimal digits, filled up with zeros on the left to at least `width` digits. -/
def paddedDigits (width n : Nat) : String :=
  let digits := toString n
  String.ofList (List.replicate (width - digits.length) '0') ++ digits

/-- A year: four digits up to 9999, otherwise a sign and at least four digits. -/
def yearText (year : Int) : String :=
  if 0 ≤ year ∧ year ≤ 9999 then paddedDigits 4 year.toNat
  else (if year < 0 then "-" else "+") ++ paddedDigits 4 year.natAbs

namespace Instant

/-- Seconds in a day. -/
def secondsPerDay : Int := 86400

/-- Date and time of day in UTC. -/
def calendarText (t : Instant) : String :=
  let date := CivilDate.ofDays (t.seconds / secondsPerDay)
  let second := (t.seconds % secondsPerDay).toNat
  let leap := t.nanos / 1000000000
  yearText date.year ++ "-" ++ paddedDigits 2 date.month ++ "-" ++ paddedDigits 2 date.day ++ "T" ++
    paddedDigits 2 (second / 3600) ++ ":" ++ paddedDigits 2 (second / 60 % 60) ++ ":" ++
    paddedDigits 2 (second % 60 + leap) ++ "Z"

/-- The epoch and a later second, written out. -/
example : calendarText ⟨0, 0⟩ = "1970-01-01T00:00:00Z" := by cbv

end Instant

end QueryParity
