import Stencil.Time.Scan
/-!
# Internet time formats

The two formats of dates and times in Internet protocols: RFC 3339, as in `2023-11-14T22:13:20Z`,
and RFC 2822, as in `Tue, 14 Nov 2023 22:13:20 +0000`. Both are read as a whole text.
-/

namespace Stencil

open Text

/-! ## RFC 3339 -/

namespace Rfc3339

/-- The form of distances: with a colon, or `Z`. -/
def offsetForm : OffsetForm := ⟨true, dropChar? ':', false, true⟩

/-- The longest distance, in seconds. -/
def maxOffset : Nat := 23 * 3600 + 59 * 60

/-- The parts that the whole text `cs` states. Every number but the fraction has a fixed width. -/
def read? (cs : List Char) : Option TimeParts := do
  let reading ← (Reading.start cs).digits? .year 4 4
  let reading ← (← reading.char? '-').digits? .month 2 2
  let reading ← (← reading.char? '-').digits? .day 2 2
  let reading ← (← reading.dateTimeSeparator?).digits? .hour 2 2
  let reading ← (← reading.char? ':').digits? .minute 2 2
  let reading ← (← reading.char? ':').digits? .second 2 2
  let reading ← (← reading.fraction? .shortest).offset? offsetForm
  if reading.rest = [] ∧ (reading.parts .offset).all (·.natAbs ≤ maxOffset) then
    some reading.parts
  else none

end Rfc3339

/-! ## RFC 2822 -/

namespace Rfc2822

/-- The form of distances: four digits with a sign. -/
def offsetForm : OffsetForm := ⟨false, some, false, false⟩

/-- The hours ahead of UTC that a name of a zone, in lower case, stands for. Single letters are
military zones, which count as UTC. -/
def hoursOfZone? (name : List Char) : Option Int :=
  if name = ['g', 'm', 't'] ∨ name = ['u', 't'] then some 0
  else if name = ['e', 'd', 't'] then some (-4)
  else if name = ['e', 's', 't'] ∨ name = ['c', 'd', 't'] then some (-5)
  else if name = ['c', 's', 't'] ∨ name = ['m', 'd', 't'] then some (-6)
  else if name = ['m', 's', 't'] ∨ name = ['p', 'd', 't'] then some (-7)
  else if name = ['p', 's', 't'] then some (-8)
  else match name with
    | [letter] => if letter = 'j' then none else some 0
    | _ => none

/-- A distance from UTC in seconds, by the name of a zone or by its digits, and what follows. -/
def takeZone? (cs : List Char) : Option (Int × List Char) :=
  let name := cs.takeWhile Char.isAlpha
  if name = [] then offsetForm.take? cs
  else (hoursOfZone? (name.map Char.toLower)).map fun hours =>
    (hours * 3600, cs.dropWhile Char.isAlpha)

/-- The year that a number of `count` digits stands for. Two digits are a year from 1950 to 2049,
and three count from 1900. -/
def yearOfDigits (year count : Nat) : Nat :=
  if count = 2 then if year < 50 then year + 2000 else year + 1900
  else if count = 3 then year + 1900
  else year

/-- What follows the end of a comment, of which `depth` parentheses are open. A backslash takes the
character after it with it. -/
def closeComment? : (depth : Nat) → List Char → Option (List Char)
  | _, [] => none
  | _, '\\' :: [] => none
  | depth, '\\' :: _ :: cs => closeComment? depth cs
  | depth, c :: cs =>
    if c = '(' then closeComment? (depth + 1) cs
    else if c = ')' then if depth ≤ 1 then some cs else closeComment? (depth - 1) cs
    else closeComment? depth cs

/-- Whether `cs` is a sequence of at most `count` comments, with white space before each. -/
def areComments (cs : List Char) : (count : Nat) → Bool
  | 0 => cs.isEmpty
  | count + 1 =>
    cs.isEmpty ||
      match (dropChar? '(' (dropSpaces cs)).bind (closeComment? 1) with
      | some rest => areComments rest count
      | none => false

/-- Past the day of the week with its comma, if there is one. -/
def weekday? (reading : Reading) : Option Reading :=
  match takeName? false reading.rest weekdayNames with
  | none => some reading
  | some (position, rest) => do
    reading.insert? .weekdayFromMonday (position + 1) (← dropChar? ',' rest)

/-- Past the year. -/
def year? (reading : Reading) : Option Reading := do
  let (year, count, rest) ← takeDigits? 2 reading.rest.length reading.rest
  reading.insert? .year (yearOfDigits year count) rest

/-- Past the seconds with a colon before them, if there is one. -/
def second? (reading : Reading) : Option Reading :=
  match reading.skipSpaces.char? ':' with
  | some reading => reading.digits? .second 2 2
  | none => some reading

/-- The parts that the whole text `cs` states. -/
def read? (cs : List Char) : Option TimeParts := do
  let reading ← weekday? (Reading.start cs).skipSpaces
  let reading ← (← reading.skipSpaces.digits? .day 1 2).someSpaces?
  let reading ← (← reading.monthName? false).someSpaces?
  let reading ← (← year? reading).someSpaces?
  let reading ← (← reading.digits? .hour 2 2).skipSpaces.char? ':'
  let reading ← second? (← reading.skipSpaces.digits? .minute 2 2)
  let reading ← reading.someSpaces?
  let (seconds, rest) ← takeZone? reading.rest
  let parts ← reading.parts.insert? .offset seconds
  if areComments rest rest.length then some parts else none

end Rfc2822

end Stencil
