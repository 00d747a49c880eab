import Stencil.Text.Classes
import Stencil.Time.Name
import Stencil.Time.Parts
/-!
# Reading times

`TimePattern.read?` reads a text by a pattern and gives the parts of the time it states. A `Reading`
is a text in the course of this: the parts read so far and the characters that are left; every
reader of one thing takes a reading to the next one, or fails.
-/

namespace Stencil

open Text

/-! ## Readers of characters -/

/-- The number of the digits at the front of `cs`, of which there must be `least` and of which only
the first `most` count, together with their count, and what follows. -/
def takeDigits? (least most : Nat) (cs : List Char) : Option (Nat × Nat × List Char) := do
  let run := (cs.take most).takeWhile isAsciiDigit
  if run.length < least then none
  return (← natOfDigits? run, run.length, cs.drop run.length)

/-- A number of at least `least` and at most `most` digits, and at most 63 bits, and what follows.
-/
def takeNumber? (least most : Nat) (cs : List Char) : Option (Nat × List Char) := do
  let (n, _, rest) ← takeDigits? least most cs
  if n < 9223372036854775808 then some (n, rest) else none

/-- What follows the character `c`, if `cs` starts with it. -/
def dropChar? (c : Char) : List Char → Option (List Char)
  | first :: cs => if first = c then some cs else none
  | [] => none

/-- What follows the white space at the front of `cs`. -/
def dropSpaces (cs : List Char) : List Char := cs.dropWhile isSpace

/-- What follows the white space at the front of `cs`, of which there must be some. -/
def dropSomeSpaces? (cs : List Char) : Option (List Char) :=
  if cs.head?.any isSpace then some (dropSpaces cs) else none

/-- The nanoseconds that the digits of a fraction of a second state; digits beyond the ninth are
read over. -/
def takeFraction? (cs : List Char) : Option (Nat × List Char) := do
  let (n, count, rest) ← takeDigits? 1 9 cs
  return (n * pow10 (9 - count), rest.dropWhile isAsciiDigit)

/-- The nanoseconds that a fraction of a second of exactly `places` digits states. -/
def takeFixedFraction? (places : Nat) (cs : List Char) : Option (Nat × List Char) := do
  let (n, rest) ← takeNumber? places places cs
  return (n * pow10 (9 - places), rest)

/-! ## Distances from UTC -/

/-- In which form a distance from UTC is read. -/
structure OffsetForm where
  /-- Whether `Z` stands for no distance. -/
  zulu : Bool
  /-- What may stand between hours and minutes, read over. -/
  separator : List Char → Option (List Char)
  /-- Whether the minutes may be missing at the end of the text. -/
  shortened : Bool
  /-- Whether the minus sign U+2212 counts as one. -/
  minusSign : Bool

/-- Whether the distance is to the west, by its sign, and what follows. -/
def OffsetForm.takeSign? (form : OffsetForm) : List Char → Option (Bool × List Char)
  | '+' :: cs => some (false, cs)
  | '-' :: cs => some (true, cs)
  | '\u2212' :: cs => if form.minusSign then some (true, cs) else none
  | _ => none

/-- The minutes of a distance. -/
def OffsetForm.takeMinutes? (form : OffsetForm) (cs : List Char) : Option (Nat × List Char) :=
  if form.shortened ∧ cs = [] then some (0, [])
  else do
    let (minutes, rest) ← takeNumber? 2 2 cs
    if minutes < 60 then some (minutes, rest) else none

/-- A distance in seconds, with a sign. -/
def OffsetForm.takeSigned? (form : OffsetForm) (cs : List Char) : Option (Int × List Char) := do
  let (west, cs) ← form.takeSign? cs
  let (hours, cs) ← takeNumber? 2 2 cs
  let (minutes, cs) ← form.takeMinutes? (← form.separator cs)
  let seconds : Int := hours * 3600 + minutes * 60
  return (if west then -seconds else seconds, cs)

/-- A distance in seconds, and what follows. -/
def OffsetForm.take? (form : OffsetForm) (cs : List Char) : Option (Int × List Char) :=
  match form.zulu, cs with
  | true, 'Z' :: rest => some (0, rest)
  | true, 'z' :: rest => some (0, rest)
  | _, cs => form.takeSigned? cs

/-- What follows any colons and white space at the front of `cs`. -/
def dropColonsAndSpaces (cs : List Char) : List Char := cs.dropWhile fun c => c = ':' || isSpace c

/-- The form of the directives for distances. -/
def OffsetForm.directive : OffsetForm := ⟨false, fun cs => some (dropColonsAndSpaces cs), false, true⟩

/-! ## Readings -/

/-- A text in the course of being read. -/
structure Reading where
  parts : TimeParts
  rest : List Char

namespace Reading

/-- The whole text `cs`, of which nothing has been read. -/
def start (cs : List Char) : Reading := ⟨.empty, cs⟩

/-- Past the white space in front. -/
def skipSpaces (reading : Reading) : Reading := { reading with rest := dropSpaces reading.rest }

/-- Past white space, of which there must be some. -/
def someSpaces? (reading : Reading) : Option Reading := do
  return { reading with rest := ← dropSomeSpaces? reading.rest }

/-- Past a character. -/
def char? (c : Char) (reading : Reading) : Option Reading := do
  return { reading with rest := ← dropChar? c reading.rest }

/-- Past the number `value`, which leaves `rest`. -/
def insert? (reading : Reading) (field : TimeField) (value : Int) (rest : List Char) :
    Option Reading := do
  return ⟨← reading.parts.insertField? field value, rest⟩

/-- Past a number of at least `least` and at most `most` digits. -/
def digits? (field : TimeField) (least most : Nat) (reading : Reading) : Option Reading := do
  let (value, rest) ← takeNumber? least most reading.rest
  reading.insert? field value rest

end Reading

/-- The largest number of digits of a number without a sign; without it there is no limit. -/
def TimeField.width? : TimeField → Option Nat
  | .year | .isoYear => some 4
  | .quarter | .weekdayFromSunday | .weekdayFromMonday => some 1
  | .ordinal => some 3
  | .nanosecond => some 9
  | .timestamp => none
  | _ => some 2

/-- Whether a number may have a sign, after which it may have any number of digits. -/
def TimeField.isSigned : TimeField → Bool
  | .year | .isoYear => true
  | _ => false

namespace Reading

/-- Past a number, which may have white space in front. -/
def number? (field : TimeField) (reading : Reading) : Option Reading :=
  let cs := dropSpaces reading.rest
  match field.isSigned, cs with
  | true, '-' :: cs => do
    let (value, rest) ← takeNumber? 1 cs.length cs
    reading.insert? field (-value) rest
  | true, '+' :: cs => do
    let (value, rest) ← takeNumber? 1 cs.length cs
    reading.insert? field value rest
  | _, cs => do
    let (value, rest) ← takeNumber? 1 (field.width?.getD cs.length) cs
    reading.insert? field value rest

/-- Past the name of a month. -/
def monthName? (full : Bool) (reading : Reading) : Option Reading := do
  let (position, rest) ← takeName? full reading.rest monthNames
  reading.insert? .month (position + 1) rest

/-- Past the name of a day of the week. -/
def weekdayName? (full : Bool) (reading : Reading) : Option Reading := do
  let (position, rest) ← takeName? full reading.rest weekdayNames
  reading.insert? .weekdayFromMonday (position + 1) rest

/-- Past the text that tells the halves of the day apart. -/
def halfOfDay? (reading : Reading) : Option Reading :=
  match dropWord? ['a', 'm'] reading.rest, dropWord? ['p', 'm'] reading.rest with
  | some rest, _ => do return ⟨← reading.parts.insert? .halfOfDay 0, rest⟩
  | none, some rest => do return ⟨← reading.parts.insert? .halfOfDay 1, rest⟩
  | none, none => none

/-- Past a fraction of a second after a point, if there is a point. -/
def pointed? (take? : List Char → Option (Nat × List Char)) (reading : Reading) :
    Option Reading :=
  match reading.rest with
  | '.' :: cs => do
    let (nanos, rest) ← take? cs
    reading.insert? .nanosecond nanos rest
  | _ => some reading

/-- Past a fraction of a second. -/
def fraction? (style : FractionStyle) (reading : Reading) : Option Reading :=
  match style with
  | .shortest => reading.pointed? takeFraction?
  | .pointed places => reading.pointed? (takeFixedFraction? places)
  | .bare places => do
    let (nanos, rest) ← takeFixedFraction? places reading.rest
    reading.insert? .nanosecond nanos rest

/-- Past a distance from UTC in the given form. -/
def offset? (form : OffsetForm) (reading : Reading) : Option Reading := do
  let (seconds, rest) ← form.take? reading.rest
  return ⟨← reading.parts.insert? .offset seconds, rest⟩

/-- Past the letter, or the space, between date and time. -/
def dateTimeSeparator? (reading : Reading) : Option Reading :=
  reading.char? 'T' <|> reading.char? 't' <|> reading.char? ' '

/-- Past a distance from UTC that may also be `UTC` or `Z`. -/
def zone? (reading : Reading) : Option Reading :=
  match dropWord? ['U', 'T', 'C'] reading.rest with
  | some rest => do return ⟨← reading.parts.insert? .offset 0, rest⟩
  | none => reading.offset? { OffsetForm.directive with zulu := true }

/-- Past a number with a character before it, which may have white space in front. -/
def separated? (c : Char) (field : TimeField) (reading : Reading) : Option Reading := do
  (← reading.skipSpaces.char? c).number? field

/-- Past date, time and distance from UTC in a lenient form of the notation of RFC 3339. -/
def lenientRfc3339? (reading : Reading) : Option Reading := do
  let date ← (← (← reading.number? .year).separated? '-' .month).separated? '-' .day
  let time ← (← date.dateTimeSeparator?).number? .hour
  let time ← (← time.separated? ':' .minute).separated? ':' .second
  (← time.fraction? .shortest).skipSpaces.zone?

end Reading

/-- A reading past an item. -/
def TimeItem.read? (item : TimeItem) (reading : Reading) : Option Reading :=
  match item with
  | .literal c => reading.char? c
  | .space _ => some reading.skipSpaces
  | .number field _ => reading.number? field
  | .monthName full => reading.monthName? full
  | .weekdayName full => reading.weekdayName? full
  | .halfOfDay _ => reading.halfOfDay?
  | .fraction style => reading.fraction? style
  | .zoneName => some { reading with rest := reading.rest.dropWhile (!isSpace ·) }
  | .offset .lenient =>
    reading.skipSpaces.offset? { OffsetForm.directive with zulu := true, shortened := true }
  | .offset _ => reading.skipSpaces.offset? .directive
  | .rfc3339 => reading.lenientRfc3339?

/-- The parts of the time that the whole text `cs` states, by the pattern. -/
def TimePattern.read? (pattern : TimePattern) (cs : List Char) : Option TimeParts := do
  let reading ← pattern.foldlM (fun reading item => item.read? reading) (Reading.start cs)
  if reading.rest = [] then some reading.parts else none

end Stencil
