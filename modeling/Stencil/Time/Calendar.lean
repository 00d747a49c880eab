/-!
# The calendar

Dates of the Gregorian calendar, extended without end in both directions, and the number of days
between a date and 1970-01-01. The year before year 1 is year 0.

* `Date.dayNumber`, `Date.ofDayNumber` — from a date to its day number and back.
* `Date.isoYear`, `Date.isoWeek` — the week that a date belongs to; weeks start on Monday, and the
  first week of a year is the one with its first Thursday.
* `Date.ofOrdinal?`, `Date.ofYearMonthDay?`, `Date.ofIsoWeek?` — dates from their parts, within the
  years that instants reach.
-/

namespace Stencil

/-- A day of the week, by the number of days since Monday. -/
abbrev Weekday := Fin 7

namespace Weekday

/-- The number of days since the last day `start`. -/
def daysSince (weekday start : Weekday) : Nat := (weekday.val + 7 - start.val) % 7

/-- The day of the week that is so many days after a Monday. -/
def ofNat (days : Nat) : Weekday := Fin.ofNat 7 days

/-- Monday. -/
def monday : Weekday := 0

/-- Sunday. -/
def sunday : Weekday := 6

end Weekday

/-- Whether a year has a 29th of February. -/
def isLeapYear (year : Int) : Bool := year % 4 == 0 && (year % 100 != 0 || year % 400 == 0)

/-- The number of days of a year. -/
def daysInYear (year : Int) : Nat := if isLeapYear year then 366 else 365

/-- The number of days of a month, from 1 to 12. -/
def daysInMonth (year : Int) (month : Nat) : Nat :=
  if month = 2 then if isLeapYear year then 29 else 28
  else if month = 4 ∨ month = 6 ∨ month = 9 ∨ month = 11 then 30 else 31

/-- The number of days of a year before the month `month`. -/
def daysBeforeMonth (year : Int) : (month : Nat) → Nat
  | 0 | 1 => 0
  | month + 1 => daysBeforeMonth year month + daysInMonth year month

/-- The number of days from 1970-01-01 to the first day of a year. -/
def daysBeforeYear (year : Int) : Int :=
  365 * (year - 1) + (year - 1) / 4 - (year - 1) / 100 + (year - 1) / 400 - 719162

/-- A date. -/
structure Date where
  year : Int
  /-- The month, from 1 to 12. -/
  month : Nat
  /-- The day of the month, from 1. -/
  day : Nat
deriving DecidableEq, Repr

namespace Date

/-- The day of the year, from 1. -/
def ordinal (date : Date) : Nat := daysBeforeMonth date.year date.month + date.day

/-- The number of days since 1970-01-01. -/
def dayNumber (date : Date) : Int := daysBeforeYear date.year + date.ordinal - 1

/-- The quarter of the year, from 1 to 4. -/
def quarter (date : Date) : Nat := (date.month - 1) / 3 + 1

/-- The day of the week of a day number; 1970-01-01 was a Thursday. -/
def weekdayOf (dayNumber : Int) : Weekday := .ofNat ((dayNumber + 3) % 7).toNat

/-- The day of the week. -/
def weekday (date : Date) : Weekday := weekdayOf date.dayNumber

/-- The month and the day of the day `ordinal` of a year, counted on from the month `month`, which
has `months` months behind it. -/
def ofOrdinalFrom (year : Int) (month ordinal : Nat) : (months : Nat) → Date
  | 0 => ⟨year, month, ordinal⟩
  | months + 1 =>
    if ordinal ≤ daysInMonth year month then ⟨year, month, ordinal⟩
    else ofOrdinalFrom year (month + 1) (ordinal - daysInMonth year month) months

/-- The date of the day `ordinal` of a year, from 1. -/
def ofOrdinal (year : Int) (ordinal : Nat) : Date := ofOrdinalFrom year 1 ordinal 11

/-- The year of a day number: the last one that does not start after it. A year has at most 366
days, so dividing by that many never finds too late a year, counted from a multiple of 400; from
there the search goes at most 400 years on. -/
def yearOf (dayNumber : Int) : Int :=
  let fromYearOne := dayNumber + 719162
  let cycle := fromYearOne / 146097
  let inCycle := (fromYearOne % 146097).toNat
  let century := min (inCycle / 36524) 3
  let inCentury := inCycle - century * 36524
  let four := inCentury / 1461
  let single := min ((inCentury - four * 1461) / 365) 3
  cycle * 400 + century * 100 + four * 4 + single + 1

/-- The date of a day number. -/
def ofDayNumber (dayNumber : Int) : Date :=
  let year := yearOf dayNumber
  ofOrdinal year (dayNumber - daysBeforeYear year + 1).toNat

/-- The number of whole weeks of the year up to the date, where weeks start on `start` and days
before the first `start` count as week 0. -/
def weekFrom (date : Date) (start : Weekday) : Nat :=
  (date.ordinal + 6 - date.weekday.daysSince start) / 7

/-! ## Weeks that belong to one year -/

/-- The day number of the first Monday of the weeks of a year: the week with the fourth of January.
-/
def isoYearStart (year : Int) : Int :=
  let fourth := daysBeforeYear year + 3
  fourth - (weekdayOf fourth).val

/-- The year that the week of the date belongs to. -/
def isoYear (date : Date) : Int :=
  if date.dayNumber < isoYearStart date.year then date.year - 1
  else if isoYearStart (date.year + 1) ≤ date.dayNumber then date.year + 1
  else date.year

/-- The number of the date's week in its year, from 1. -/
def isoWeek (date : Date) : Nat :=
  ((date.dayNumber - isoYearStart date.isoYear) / 7).toNat + 1

/-! ## Dates from their parts -/

/-- The first year that instants reach. -/
def firstYear : Int := -262143

/-- The last year that instants reach. -/
def lastYear : Int := 262142

/-- Whether a year is one that instants reach. -/
def isYearInRange (year : Int) : Bool := firstYear ≤ year && year ≤ lastYear

/-- The date with the given year, month and day. -/
def ofYearMonthDay? (year : Int) (month day : Nat) : Option Date :=
  if isYearInRange year ∧ 1 ≤ month ∧ month ≤ 12 ∧ 1 ≤ day ∧ day ≤ daysInMonth year month then
    some ⟨year, month, day⟩
  else none

/-- The date of a day of a year. -/
def ofOrdinal? (year : Int) (ordinal : Nat) : Option Date :=
  if isYearInRange year ∧ 1 ≤ ordinal ∧ ordinal ≤ daysInYear year then some (ofOrdinal year ordinal)
  else none

/-- The date of a day of a week that belongs to the given year. -/
def ofIsoWeek? (year : Int) (week : Nat) (weekday : Weekday) : Option Date :=
  let start := isoYearStart year
  let date := ofDayNumber (start + 7 * ((week : Int) - 1) + weekday.val)
  if 1 ≤ week ∧ start + 7 * ((week : Int) - 1) < isoYearStart (year + 1) ∧ isYearInRange date.year
  then some date
  else none

end Date

end Stencil
