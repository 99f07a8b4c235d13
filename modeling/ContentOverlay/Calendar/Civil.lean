/-!
# The civil calendar

Days are numbered from 1 January 1970.  The Gregorian calendar repeats every 400 years, and with the
year taken to begin on 1 March its leap day comes last.  A day number is therefore split into 400
year *eras*, centuries, four year spans and years by plain division, and the other way round.

`civilOfDays` and `daysOfCivil` are the two directions; `isDay` says which dates the calendar has.
-/

set_option autoImplicit false

namespace ContentOverlay
namespace Calendar

/-- A date: year, month from 1 to 12, day of the month from 1. -/
structure Civil where
  year : Int
  month : Nat
  day : Nat
deriving DecidableEq

/-- Whether a year has a 29 February. -/
def isLeapYear (year : Int) : Bool :=
  year % 4 = 0 ∧ (year % 100 ≠ 0 ∨ year % 400 = 0)

/-- The number of days of a month. -/
def daysInMonth (year : Int) (month : Nat) : Nat :=
  if month = 2 then (if isLeapYear year then 29 else 28)
  else if month = 4 ∨ month = 6 ∨ month = 9 ∨ month = 11 then 30
  else 31

/-- Whether the calendar has this date. -/
def isDay (date : Civil) : Bool :=
  1 ≤ date.month ∧ date.month ≤ 12 ∧ 1 ≤ date.day ∧ date.day ≤ daysInMonth date.year date.month

/-- The days from 1 March of the year 0 to 1 January 1970. -/
def epochShift : Int := 719468

/-- The date of a day number. -/
def civilOfDays (days : Int) : Civil :=
  let shifted := days + epochShift
  let era := shifted / 146097
  let dayOfEra := (shifted % 146097).toNat
  let century := min (dayOfEra / 36524) 3
  let dayOfCentury := dayOfEra - 36524 * century
  let span := dayOfCentury / 1461
  let dayOfSpan := dayOfCentury % 1461
  let yearOfSpan := min (dayOfSpan / 365) 3
  let dayOfYear := dayOfSpan - 365 * yearOfSpan
  let monthFromMarch := (5 * dayOfYear + 2) / 153
  let month := if monthFromMarch < 10 then monthFromMarch + 3 else monthFromMarch - 9
  { year := era * 400 + (100 * century + 4 * span + yearOfSpan : Nat) + (if month ≤ 2 then 1 else 0)
    month := month
    day := dayOfYear - (153 * monthFromMarch + 2) / 5 + 1 }

/-- The day number of a date. -/
def daysOfCivil (date : Civil) : Int :=
  let year := if date.month ≤ 2 then date.year - 1 else date.year
  let era := year / 400
  let yearOfEra := year % 400
  let monthFromMarch := if date.month ≤ 2 then date.month + 9 else date.month - 3
  let dayOfYear := (153 * monthFromMarch + 2) / 5 + date.day - 1
  era * 146097 + (yearOfEra * 365 + yearOfEra / 4 - yearOfEra / 100) + dayOfYear - epochShift

end Calendar
end ContentOverlay
