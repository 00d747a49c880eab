import Stencil.Text.Classes
/-!
# Time patterns

A pattern says how a time is written and read: text, and directives that start with a percent sign.
`TimePattern.ofText?` gives the items of a pattern; a text with a directive that does not exist is
no pattern.

A directive is a letter with, for a number, a character for its padding in front. Colons in front of
the letter say how much of a distance from UTC is written, a point and digits how much of a second.
-/

namespace Stencil

open Text

/-- How a number is filled up to its width. -/
inductive Padding where
  | none
  | zero
  | space
deriving DecidableEq, Repr

/-- A number of a date or of a time of day. -/
inductive TimeField where
  | year
  /-- The year without its last two digits. -/
  | century
  /-- The last two digits of the year. -/
  | yearOfCentury
  /-- The year that the week of the date belongs to. -/
  | isoYear
  /-- The last two digits of that year. -/
  | isoYearOfCentury
  | quarter
  | month
  | day
  /-- The day of the year. -/
  | ordinal
  /-- The number of weeks of the year, where weeks start on Sunday. -/
  | weekFromSunday
  /-- The number of weeks of the year, where weeks start on Monday. -/
  | weekFromMonday
  /-- The number of the week in the year that it belongs to. -/
  | isoWeek
  /-- The day of the week, Sunday being 0. -/
  | weekdayFromSunday
  /-- The day of the week, Monday being 1. -/
  | weekdayFromMonday
  | hour
  /-- The hour on a clock with twelve hours. -/
  | hour12
  | minute
  | second
  | nanosecond
  /-- The seconds since 1970-01-01 00:00:00 UTC. -/
  | timestamp
deriving DecidableEq, Repr

/-- How a fraction of a second is written. -/
inductive FractionStyle where
  /-- After a point, with as many groups of three digits as there are; nothing for a whole second.
  -/
  | shortest
  /-- After a point, with a fixed number of digits. -/
  | pointed (digits : Nat)
  /-- Without a point, with a fixed number of digits. -/
  | bare (digits : Nat)
deriving DecidableEq, Repr

/-- How a distance from UTC is written. -/
inductive OffsetStyle where
  /-- Hours and minutes. -/
  | plain
  /-- Hours and minutes with a colon between them. -/
  | colon
  /-- Hours, minutes and seconds with colons between them. -/
  | seconds
  /-- Hours. -/
  | hours
  /-- Like `plain`, but what is read may also be `Z` or lack the minutes. It cannot be written. -/
  | lenient
deriving DecidableEq, Repr

/-- A part of a pattern. -/
inductive TimeItem where
  /-- A character that stands for itself. -/
  | literal (character : Char)
  /-- A white space character, which is read as any amount of white space. -/
  | space (character : Char)
  | number (field : TimeField) (padding : Padding)
  /-- The name of the month, in full or by its first three letters. -/
  | monthName (full : Bool)
  /-- The name of the day of the week, in full or by its first three letters. -/
  | weekdayName (full : Bool)
  /-- Whether the time is before or after noon, in capitals or not. -/
  | halfOfDay (capitals : Bool)
  | fraction (style : FractionStyle)
  | zoneName
  | offset (style : OffsetStyle)
  /-- Date, time and distance from UTC in the notation of RFC 3339. -/
  | rfc3339
deriving DecidableEq, Repr

/-- A pattern, by its items. -/
abbrev TimePattern := List TimeItem

namespace TimePattern

/-- The item of a character outside directives. -/
def ofChar (c : Char) : TimeItem := if isSpace c then .space c else .literal c

/-- The number `field` with zeros in front. -/
def zeroPadded (field : TimeField) : TimePattern := [.number field .zero]

/-- The date as `11/14/23`. -/
def monthDayYear : TimePattern :=
  [.number .month .zero, .literal '/', .number .day .zero, .literal '/',
   .number .yearOfCentury .zero]

/-- The date as `2023-11-14`. -/
def yearMonthDay : TimePattern :=
  [.number .year .zero, .literal '-', .number .month .zero, .literal '-', .number .day .zero]

/-- The date as `14-Nov-2023`. -/
def dayMonthYear : TimePattern :=
  [.number .day .space, .literal '-', .monthName false, .literal '-', .number .year .zero]

/-- The time as `22:13`. -/
def hourMinute : TimePattern := [.number .hour .zero, .literal ':', .number .minute .zero]

/-- The time as `22:13:20`. -/
def hourMinuteSecond : TimePattern := hourMinute ++ [.literal ':', .number .second .zero]

/-- The time as `10:13:20 PM`. -/
def twelveHours : TimePattern :=
  [.number .hour12 .zero, .literal ':', .number .minute .zero, .literal ':', .number .second .zero,
   .space ' ', .halfOfDay true]

/-- Date and time as `Tue Nov 14 22:13:20 2023`. -/
def dateAndTime : TimePattern :=
  [.weekdayName false, .space ' ', .monthName false, .space ' ', .number .day .space, .space ' ']
    ++ hourMinuteSecond ++ [.space ' ', .number .year .zero]

/-- The items of the directive with a single letter. -/
def ofLetter? : Char → Option TimePattern
  | 'A' => some [.weekdayName true]
  | 'B' => some [.monthName true]
  | 'C' => some (zeroPadded .century)
  | 'D' => some monthDayYear
  | 'F' => some yearMonthDay
  | 'G' => some (zeroPadded .isoYear)
  | 'H' => some (zeroPadded .hour)
  | 'I' => some (zeroPadded .hour12)
  | 'M' => some (zeroPadded .minute)
  | 'P' => some [.halfOfDay false]
  | 'R' => some hourMinute
  | 'S' => some (zeroPadded .second)
  | 'T' => some hourMinuteSecond
  | 'U' => some (zeroPadded .weekFromSunday)
  | 'V' => some (zeroPadded .isoWeek)
  | 'W' => some (zeroPadded .weekFromMonday)
  | 'X' => some hourMinuteSecond
  | 'Y' => some (zeroPadded .year)
  | 'Z' => some [.zoneName]
  | 'a' => some [.weekdayName false]
  | 'b' => some [.monthName false]
  | 'c' => some dateAndTime
  | 'd' => some (zeroPadded .day)
  | 'e' => some [.number .day .space]
  | 'f' => some (zeroPadded .nanosecond)
  | 'g' => some (zeroPadded .isoYearOfCentury)
  | 'h' => some [.monthName false]
  | 'j' => some (zeroPadded .ordinal)
  | 'k' => some [.number .hour .space]
  | 'l' => some [.number .hour12 .space]
  | 'm' => some (zeroPadded .month)
  | 'n' => some [.space '\n']
  | 'p' => some [.halfOfDay true]
  | 'q' => some [.number .quarter .none]
  | 'r' => some twelveHours
  | 's' => some [.number .timestamp .none]
  | 't' => some [.space '\t']
  | 'u' => some [.number .weekdayFromMonday .none]
  | 'v' => some dayMonthYear
  | 'w' => some [.number .weekdayFromSunday .none]
  | 'x' => some monthDayYear
  | 'y' => some (zeroPadded .yearOfCentury)
  | 'z' => some [.offset .plain]
  | '+' => some [.rfc3339]
  | '%' => some [.literal '%']
  | _ => none

/-- The items of the directive, without padding, whose characters after the percent sign start `cs`,
and what follows it. -/
def takeDirective? : List Char → Option (TimePattern × List Char)
  | ':' :: 'z' :: cs => some ([.offset .colon], cs)
  | ':' :: ':' :: 'z' :: cs => some ([.offset .seconds], cs)
  | ':' :: ':' :: ':' :: 'z' :: cs => some ([.offset .hours], cs)
  | '.' :: 'f' :: cs => some ([.fraction .shortest], cs)
  | '.' :: '3' :: 'f' :: cs => some ([.fraction (.pointed 3)], cs)
  | '.' :: '6' :: 'f' :: cs => some ([.fraction (.pointed 6)], cs)
  | '.' :: '9' :: 'f' :: cs => some ([.fraction (.pointed 9)], cs)
  | '3' :: 'f' :: cs => some ([.fraction (.bare 3)], cs)
  | '6' :: 'f' :: cs => some ([.fraction (.bare 6)], cs)
  | '9' :: 'f' :: cs => some ([.fraction (.bare 9)], cs)
  | '#' :: 'z' :: cs => some ([.offset .lenient], cs)
  | c :: cs => (ofLetter? c).map (·, cs)
  | [] => none

theorem length_lt_of_takeDirective? {cs rest : List Char} {items : TimePattern}
    (h : takeDirective? cs = some (items, rest)) : rest.length < cs.length := by
  unfold takeDirective? at h
  split at h
  case h_12 =>
    obtain ⟨_, _, same⟩ := Option.map_eq_some_iff.1 h
    cases same
    simp
  case h_13 => cases h
  all_goals
    cases h
    simp only [List.length_cons]
    omega

/-- The padding that a character in front of a directive asks for. -/
def padding? : Char → Option Padding
  | '-' => some .none
  | '0' => some .zero
  | '_' => some .space
  | _ => none

/-- The directive whose characters after the percent sign start `cs`, and what follows it. Only a
directive that is a single number may be padded. -/
def takePadded? (cs : List Char) : Option (TimePattern × List Char) :=
  match cs.head?.bind padding? with
  | none => takeDirective? cs
  | some padding =>
    match takeDirective? cs.tail with
    | some ([.number field _], rest) => some ([.number field padding], rest)
    | _ => none

theorem length_lt_of_takePadded? {cs rest : List Char} {items : TimePattern}
    (h : takePadded? cs = some (items, rest)) : rest.length < cs.length := by
  unfold takePadded? at h
  split at h
  · exact length_lt_of_takeDirective? h
  · split at h
    · rename_i found
      cases h
      have := length_lt_of_takeDirective? found
      rw [List.length_tail] at this
      omega
    · cases h

/-- The items of a pattern. -/
def ofChars? : List Char → Option TimePattern
  | [] => some []
  | c :: cs =>
    if c = '%' then
      match h : takePadded? cs with
      | none => none
      | some (items, rest) =>
        have := length_lt_of_takePadded? h
        (ofChars? rest).map (items ++ ·)
    else (ofChars? cs).map (ofChar c :: ·)
termination_by cs => cs.length
decreasing_by
  all_goals simp only [List.length_cons]; omega

/-- The items of a pattern. -/
def ofText? (text : String) : Option TimePattern := ofChars? text.toList

end TimePattern

end Stencil
