import Stencil.Time.Civil
import Stencil.Time.Pattern
/-!
# Times from their parts

A written time gives parts of a date and of a time of day. `TimeParts` collects them; a part that is
given twice must be the same both times. A date is found from the first of several groups of parts
that is complete, and every other part must agree with it.

* `TimeParts.date`, `TimeParts.timeOfDay` — the date and the time of day that parts determine.
* `TimeParts.civilTime?` — both together; a timestamp takes the place of what is missing.
* `TimeParts.instant?` — the instant, for parts with a distance from UTC or a timestamp.
-/

namespace Stencil

/-- A part of a written time. -/
inductive TimePart where
  | year
  /-- The year without its last two digits. -/
  | century
  | yearOfCentury
  | isoYear
  | isoYearOfCentury
  | quarter
  | month
  | day
  | ordinal
  | weekFromSunday
  | weekFromMonday
  | isoWeek
  /-- The day of the week, by the number of days since Monday. -/
  | weekday
  /-- The half of the day: 0 before noon and 1 after it. -/
  | halfOfDay
  /-- The hours since the start of that half. -/
  | hourOfHalf
  | minute
  | second
  | nanosecond
  | timestamp
  /-- The distance from UTC in seconds. -/
  | offset
deriving DecidableEq, Repr

/-- The parts of a written time that are given. -/
abbrev TimeParts := TimePart → Option Int

/-- Why parts determine no time. -/
inductive PartsFault where
  /-- Too few parts are given. -/
  | missing
  /-- No time has the given parts. -/
  | impossible
deriving DecidableEq, Repr

namespace TimeParts

/-- No parts. -/
def empty : TimeParts := fun _ => none

/-- The parts together with `part`, unless another value for it is given already. -/
def insert? (parts : TimeParts) (part : TimePart) (value : Int) : Option TimeParts :=
  match parts part with
  | none => some fun other => if other = part then some value else parts other
  | some given => if given = value then some parts else none

end TimeParts

/-- The least and the greatest value of a number of a time. -/
def TimeField.bounds : TimeField → Int × Int
  | .year => (-2147483648, 2147483647)
  | .century => (0, 2147483647)
  | .yearOfCentury => (0, 99)
  | .isoYear => (-2147483648, 2147483647)
  | .isoYearOfCentury => (0, 99)
  | .quarter => (1, 4)
  | .month => (1, 12)
  | .day => (1, 31)
  | .ordinal => (1, 366)
  | .weekFromSunday => (0, 53)
  | .weekFromMonday => (0, 53)
  | .isoWeek => (1, 53)
  | .weekdayFromSunday => (0, 6)
  | .weekdayFromMonday => (1, 7)
  | .hour => (0, 23)
  | .hour12 => (1, 12)
  | .minute => (0, 59)
  | .second => (0, 60)
  | .nanosecond => (0, 999999999)
  | .timestamp => (-9223372036854775808, 9223372036854775807)

/-- The parts that the value of a number gives. -/
def TimeField.parts (field : TimeField) (value : Int) : List (TimePart × Int) :=
  match field with
  | .year => [(.year, value)]
  | .century => [(.century, value)]
  | .yearOfCentury => [(.yearOfCentury, value)]
  | .isoYear => [(.isoYear, value)]
  | .isoYearOfCentury => [(.isoYearOfCentury, value)]
  | .quarter => [(.quarter, value)]
  | .month => [(.month, value)]
  | .day => [(.day, value)]
  | .ordinal => [(.ordinal, value)]
  | .weekFromSunday => [(.weekFromSunday, value)]
  | .weekFromMonday => [(.weekFromMonday, value)]
  | .isoWeek => [(.isoWeek, value)]
  | .weekdayFromSunday => [(.weekday, (value + 6) % 7)]
  | .weekdayFromMonday => [(.weekday, value - 1)]
  | .hour => [(.halfOfDay, value / 12), (.hourOfHalf, value % 12)]
  | .hour12 => [(.hourOfHalf, value % 12)]
  | .minute => [(.minute, value)]
  | .second => [(.second, value)]
  | .nanosecond => [(.nanosecond, value)]
  | .timestamp => [(.timestamp, value)]

namespace TimeParts

/-- The parts together with those that a number gives, if the number is within its bounds. -/
def insertField? (parts : TimeParts) (field : TimeField) (value : Int) : Option TimeParts :=
  if field.bounds.1 ≤ value ∧ value ≤ field.bounds.2 then
    (field.parts value).foldlM (fun parts (part, value) => parts.insert? part value) parts
  else none

/-! ## Dates -/

/-- The value of a part of a date. A year before the year 0 has no century. -/
def partOfDate? (date : Date) : TimePart → Option Int
  | .year => some date.year
  | .century => if 0 ≤ date.year then some (date.year / 100) else none
  | .yearOfCentury => if 0 ≤ date.year then some (date.year % 100) else none
  | .isoYear => some date.isoYear
  | .isoYearOfCentury => if 0 ≤ date.isoYear then some (date.isoYear % 100) else none
  | .quarter => some date.quarter
  | .month => some date.month
  | .day => some date.day
  | .ordinal => some date.ordinal
  | .weekFromSunday => some (date.weekFrom Weekday.sunday)
  | .weekFromMonday => some (date.weekFrom Weekday.monday)
  | .isoWeek => some date.isoWeek
  | .weekday => some date.weekday.val
  | _ => none

/-- The parts of a date. -/
def datePartNames : List TimePart :=
  [.year, .century, .yearOfCentury, .isoYear, .isoYearOfCentury, .quarter, .month, .day, .ordinal,
   .weekFromSunday, .weekFromMonday, .isoWeek, .weekday]

/-- Whether the date has every part of a date that is given. -/
def agreesWith (parts : TimeParts) (date : Date) : Bool :=
  datePartNames.all fun part => (parts part).isNone || parts part == partOfDate? date part

/-- The year that a year, its century and its place in the century determine together; no year if
none of them is given. Two digits alone stand for a year from 1970 to 2069. -/
def resolveYear (year century yearOfCentury : Option Int) : Except PartsFault (Option Int) :=
  match year, century, yearOfCentury with
  | year, none, none => .ok year
  | some year, century, yearOfCentury =>
    if 0 ≤ year ∧ century.getD (year / 100) = year / 100
        ∧ yearOfCentury.getD (year % 100) = year % 100 then .ok (some year)
    else .error .impossible
  | none, some century, some yearOfCentury =>
    if century * 100 + yearOfCentury < 2147483648 then .ok (some (century * 100 + yearOfCentury))
    else .error .impossible
  | none, none, some yearOfCentury =>
    .ok (some (yearOfCentury + if yearOfCentury < 70 then 2000 else 1900))
  | none, some _, none => .error .missing

/-- The date of a day of a week of the year, where weeks start on `start` and days before the first
`start` are in week 0. -/
def dateOfWeek? (year week weekday : Int) (start : Weekday) : Option Date := do
  let first ← Date.ofOrdinal? year 1
  let firstWeek := 1 + start.daysSince first.weekday
  let inWeek := (weekday + 7 - start.val) % 7
  let ordinal := firstWeek + (week - 1) * 7 + inWeek
  if 1 ≤ ordinal then Date.ofOrdinal? year ordinal.toNat else none

/-- The date that the first complete group of parts determines, for the given years; the outer value
is missing if no group is complete. -/
def candidate? (parts : TimeParts) (year isoYear : Option Int) : Option (Option Date) :=
  match year, parts .month, parts .day with
  | some year, some month, some day =>
    some (Date.ofYearMonthDay? year month.toNat day.toNat)
  | _, _, _ =>
  match year, parts .ordinal with
  | some year, some ordinal => some (Date.ofOrdinal? year ordinal.toNat)
  | _, _ =>
  match year, parts .weekFromSunday, parts .weekday with
  | some year, some week, some weekday => some (dateOfWeek? year week weekday Weekday.sunday)
  | _, _, _ =>
  match year, parts .weekFromMonday, parts .weekday with
  | some year, some week, some weekday => some (dateOfWeek? year week weekday Weekday.monday)
  | _, _, _ =>
  match isoYear, parts .isoWeek, parts .weekday with
  | some isoYear, some week, some weekday =>
    some (Date.ofIsoWeek? isoYear week.toNat (.ofNat weekday.toNat))
  | _, _, _ => none

/-- The date that the parts determine. -/
def date (parts : TimeParts) : Except PartsFault Date := do
  let year ← resolveYear (parts .year) (parts .century) (parts .yearOfCentury)
  let isoYear ← resolveYear (parts .isoYear) none (parts .isoYearOfCentury)
  match parts.candidate? year isoYear with
  | none => .error .missing
  | some none => .error .impossible
  | some (some date) => if parts.agreesWith date then .ok date else .error .impossible

/-! ## Times of day -/

/-- The second of the day and the nanoseconds that the parts determine. Seconds may be missing, and
nanoseconds as well; the second 60 of a minute is its 59th with a full second of nanoseconds more.
-/
def timeOfDay (parts : TimeParts) : Except PartsFault (Nat × Nat) :=
  match parts .halfOfDay, parts .hourOfHalf, parts .minute with
  | some half, some hour, some minute =>
    let start := (half.toNat * 12 + hour.toNat) * 3600 + minute.toNat * 60
    match parts .second, parts .nanosecond with
    | none, none => .ok (start, 0)
    | none, some _ => .error .missing
    | some second, nanosecond =>
      let nanos := (nanosecond.getD 0).toNat
      if second = 60 then .ok (start + 59, nanos + 1000000000)
      else .ok (start + second.toNat, nanos)
  | _, _, _ => .error .missing

/-- The date and the time of day that the parts determine. -/
def dateAndTime (parts : TimeParts) : Except PartsFault CivilTime :=
  match parts.date, parts.timeOfDay with
  | .ok date, .ok (secondOfDay, nanos) => .ok ⟨date, secondOfDay, nanos⟩
  | .error .impossible, _ => .error .impossible
  | _, .error .impossible => .error .impossible
  | _, _ => .error .missing

/-! ## Timestamps -/

/-- The civil time of a timestamp, on a clock `offset` seconds ahead of UTC, that the other parts
allow. If they name the second 60, the timestamp counts that second or the one after it. -/
def ofTimestamp? (parts : TimeParts) (timestamp offset : Int) : Option CivilTime := do
  let shown ← (Instant.ofSeconds? (timestamp + offset) 0).map fun instant =>
    CivilTime.ofSeconds instant.seconds 0
  let leap := parts .second = some 60
  if leap ∧ shown.second ≠ 59 ∧ shown.second ≠ 0 then none
  let time := if leap ∧ shown.second = 0 then CivilTime.ofSeconds (timestamp + offset - 1) 0 else shown
  let parts ← if leap then some parts else parts.insertField? .second time.second
  let parts ← parts.insertField? .year time.date.year
  let parts ← parts.insertField? .ordinal time.date.ordinal
  let parts ← parts.insertField? .hour time.hour
  let parts ← parts.insertField? .minute time.minute
  parts.dateAndTime.toOption

/-- Whether a timestamp counts the civil time, on a clock `offset` seconds ahead of UTC. A leap
second may count as the second after it. -/
def countsTo (timestamp : Int) (time : CivilTime) (offset : Int) : Bool :=
  timestamp = time.seconds - offset
    || (1000000000 ≤ time.nanos && timestamp = time.seconds - offset + 1)

/-- The civil time that the parts determine, on a clock `offset` seconds ahead of UTC. -/
def civilTime? (parts : TimeParts) (offset : Int) : Option CivilTime :=
  match parts.dateAndTime, parts .timestamp with
  | .ok time, none => some time
  | .ok time, some timestamp => if countsTo timestamp time offset then some time else none
  | .error .missing, some timestamp => parts.ofTimestamp? timestamp offset
  | .error _, _ => none

/-! ## Instants -/

/-- The instant that the parts determine. With a timestamp the distance from UTC may be missing. -/
def instant? (parts : TimeParts) : Option Instant := do
  let offset ← parts .offset <|> (parts .timestamp).map fun _ => 0
  let time ← parts.civilTime? offset
  time.instant? (← Offset.ofSeconds? offset).seconds

/-- The instant that the parts determine on a clock that shows UTC, whatever distance they give. -/
def instantUtc? (parts : TimeParts) : Option Instant := do (← parts.civilTime? 0).instant? 0

/-- The start of the day that the parts determine, in UTC. -/
def startOfDay? (parts : TimeParts) : Option Instant := do
  CivilTime.instant? ⟨← parts.date.toOption, 0, 0⟩ 0

end TimeParts

end Stencil
