import Stencil.Text.Classes
import Stencil.Time.Civil
import Stencil.Time.Name
import Stencil.Time.Pattern
/-!
# Writing times

`TimePattern.write?` writes a local time by a pattern; only a pattern with an item that cannot be
written gives no text. `formatTime` writes an instant, and puts the name of the zone into the
pattern beforehand: `substituteZoneName`.
-/

namespace Stencil

open Text

/-! ## Numbers -/

/-- A number with a sign in front, filled up to `width` characters: zeros go between the sign and
the digits, spaces in front of the sign. -/
def padNumber (padding : Padding) (width : Nat) (sign digits : List Char) : List Char :=
  let fill := width - (sign.length + digits.length)
  match padding with
  | .none => sign ++ digits
  | .zero => sign ++ List.replicate fill '0' ++ digits
  | .space => List.replicate fill ' ' ++ sign ++ digits

/-- A number in two columns. It counts modulo 256, and a tens place beyond nine goes on with the
characters after the digits. -/
def twoColumns (padding : Padding) (n : Int) : List Char :=
  let octet := (n % 256).toNat
  let tens := octet / 10
  let ones := digitChar octet
  if tens = 0 then
    match padding with
    | .none => [ones]
    | .zero => ['0', ones]
    | .space => [' ', ones]
  else [Char.ofNat ('0'.toNat + tens), ones]

/-- A year: four digits from the year 0 to 9999, and otherwise a sign and at least four digits. -/
def yearText (padding : Padding) (year : Int) : List Char :=
  if 0 ≤ year ∧ year ≤ 9999 then padNumber padding 4 [] (digits year.natAbs)
  else padNumber padding 5 [if year < 0 then '-' else '+'] (digits year.natAbs)

/-- The text of a number of a local time. -/
def TimeField.write (field : TimeField) (padding : Padding) (time : LocalTime) : List Char :=
  let date := time.date
  match field with
  | .year => yearText padding date.year
  | .century => twoColumns padding (date.year / 100)
  | .yearOfCentury => twoColumns padding (date.year % 100)
  | .isoYear => yearText padding date.isoYear
  | .isoYearOfCentury => twoColumns padding (date.isoYear % 100)
  | .quarter => digits date.quarter
  | .month => twoColumns padding date.month
  | .day => twoColumns padding date.day
  | .ordinal => padNumber padding 3 [] (digits date.ordinal)
  | .weekFromSunday => twoColumns padding (date.weekFrom Weekday.sunday)
  | .weekFromMonday => twoColumns padding (date.weekFrom Weekday.monday)
  | .isoWeek => twoColumns padding date.isoWeek
  | .weekdayFromSunday => digits (date.weekday.daysSince Weekday.sunday)
  | .weekdayFromMonday => digits (date.weekday.val + 1)
  | .hour => twoColumns padding time.hour
  | .hour12 => twoColumns padding time.hour12
  | .minute => twoColumns padding time.minute
  | .second => twoColumns padding time.second
  | .nanosecond => padNumber padding 9 [] (digits time.nanosecond)
  | .timestamp =>
    padNumber padding 9 (if time.timestamp < 0 then ['-'] else []) (digits time.timestamp.natAbs)

/-! ## Other items -/

/-- The text of a fraction of a second, of so many nanoseconds. -/
def FractionStyle.write (style : FractionStyle) (nanos : Nat) : List Char :=
  match style with
  | .shortest =>
    if nanos = 0 then []
    else if nanos % 1000000 = 0 then '.' :: paddedDigits 3 (nanos / 1000000)
    else if nanos % 1000 = 0 then '.' :: paddedDigits 6 (nanos / 1000)
    else '.' :: paddedDigits 9 nanos
  | .pointed places => '.' :: paddedDigits places (nanos / pow10 (9 - places))
  | .bare places => paddedDigits places (nanos / pow10 (9 - places))

/-- The text of a distance from UTC. Where seconds are not written the distance is rounded to whole
minutes, where minutes are not written they are left out. -/
def OffsetStyle.write? (style : OffsetStyle) (offset : Offset) : Option (List Char) :=
  let seconds := offset.seconds.natAbs
  let minutes := (seconds + 30) / 60
  match style with
  | .plain => some (offset.sign :: Offset.two (minutes / 60) ++ Offset.two (minutes % 60))
  | .colon => some (offset.sign :: Offset.two (minutes / 60) ++ ':' :: Offset.two (minutes % 60))
  | .seconds =>
    some (offset.sign :: Offset.two (seconds / 3600) ++ ':' :: Offset.two (seconds / 60 % 60)
      ++ ':' :: Offset.two (seconds % 60))
  | .hours => some (offset.sign :: Offset.two (seconds / 3600))
  | .lenient => none

/-- The text that tells the halves of the day apart. -/
def halfOfDayText (capitals afternoon : Bool) : List Char :=
  match capitals, afternoon with
  | true, false => ['A', 'M']
  | true, true => ['P', 'M']
  | false, false => ['a', 'm']
  | false, true => ['p', 'm']

/-- The items of the notation of RFC 3339. -/
def TimePattern.rfc3339 : TimePattern :=
  yearMonthDay ++ .literal 'T' :: hourMinuteSecond ++ [.fraction .shortest, .offset .colon]

/-- The text of an item that stands for no other items. -/
def TimeItem.writeSingle? (item : TimeItem) (time : LocalTime) : Option (List Char) :=
  match item with
  | .literal c => some [c]
  | .space c => some [c]
  | .number field padding => some (field.write padding time)
  | .monthName full => some (nameAt monthNames full (time.date.month - 1))
  | .weekdayName full => some (nameAt weekdayNames full time.date.weekday.val)
  | .halfOfDay capitals => some (halfOfDayText capitals time.isAfternoon)
  | .fraction style => some (style.write time.nanosecond)
  | .zoneName => some time.offset.zoneName
  | .offset style => style.write? time.offset
  | .rfc3339 => none

/-- The text of items that stand for no other items. -/
def TimePattern.writeSingles? (pattern : TimePattern) (time : LocalTime) : Option (List Char) := do
  return (← pattern.mapM fun item => item.writeSingle? time).flatten

/-- The text of an item. -/
def TimeItem.write? (item : TimeItem) (time : LocalTime) : Option (List Char) :=
  if item = .rfc3339 then TimePattern.rfc3339.writeSingles? time else item.writeSingle? time

/-- The text of a local time by a pattern. -/
def TimePattern.write? (pattern : TimePattern) (time : LocalTime) : Option (List Char) := do
  return (← pattern.mapM fun item => item.write? time).flatten

/-! ## Zone names -/

/-- A text with its percent signs doubled, so that they start no directive. -/
def escapePercent (cs : List Char) : List Char :=
  cs.flatMap fun c => if c = '%' then ['%', '%'] else [c]

/-- The characters of a pattern with `name` in place of the directive `%Z`. The pattern is read by
units: a percent sign together with the character after it, or any other character. -/
def substituteZoneName (name : List Char) : List Char → List Char
  | '%' :: 'Z' :: cs => escapePercent name ++ substituteZoneName name cs
  | '%' :: c :: cs => '%' :: c :: substituteZoneName name cs
  | c :: cs => c :: substituteZoneName name cs
  | [] => []

/-! ## Instants -/

/-- The text of an instant on a clock that is so many hours ahead of UTC. -/
def formatTime (instant : Instant) (hours : Decimal) (format : String) : Traced String := do
  let offset ← Offset.ofHours hours
  let pattern := String.ofList (substituteZoneName offset.zoneName format.toList)
  let text? := do (← TimePattern.ofText? pattern).write? (instant.localTime offset)
  match text? with
  | some text => return String.ofList text
  | none => .fail (.functionFailure "timezone" s!"invalid time format '{pattern}'")

end Stencil
