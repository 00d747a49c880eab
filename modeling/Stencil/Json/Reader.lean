import Stencil.Json.Basic
import Stencil.Text.Classes
import Stencil.Text.Span
/-!
# Reading JSON

`Json.read` reads a text that holds one document. Objects and arrays may nest 127 levels deep, the
last of several members with one key counts, and numbers keep their text, except that an exponent is
written with a lower case `e` and an explicit sign. An object whose first key is `wrappedNumberKey`
stands for the number in its text. `ReadError` says what was wrong and how far the text had been
read.

A reader is given the input that is left and returns what it read together with a shorter input;
that is what ends the loops over the items of arrays and the members of objects.
-/

namespace Stencil.Json

open Text

/-- What can be wrong with a text that should hold a document. -/
inductive ReadFault where
  | endInList
  | endInObject
  | endInString
  | endInValue
  | expectedColon
  | expectedListCommaOrEnd
  | expectedObjectCommaOrEnd
  | expectedIdent
  | expectedNumberText (found : String)
  | expectedValue
  | invalidEscape
  | invalidNumber
  | controlCharacter
  | keyMustBeString
  | loneSurrogate
  | trailingComma
  | trailingCharacters
  | unexpectedEndOfHexEscape
  | recursionLimit
deriving DecidableEq, Repr

/-- The wording of a fault. -/
def ReadFault.message : ReadFault → String
  | .endInList => "EOF while parsing a list"
  | .endInObject => "EOF while parsing an object"
  | .endInString => "EOF while parsing a string"
  | .endInValue => "EOF while parsing a value"
  | .expectedColon => "expected \x60:\x60"
  | .expectedListCommaOrEnd => "expected \x60,\x60 or \x60]\x60"
  | .expectedObjectCommaOrEnd => "expected \x60,\x60 or \x60\x7d\x60"
  | .expectedIdent => "expected ident"
  | .expectedNumberText found => "invalid type: " ++ found ++ ", expected string containing a number"
  | .expectedValue => "expected value"
  | .invalidEscape => "invalid escape"
  | .invalidNumber => "invalid number"
  | .controlCharacter => "control character (\\u0000-\\u001F) found while parsing a string"
  | .keyMustBeString => "key must be a string"
  | .loneSurrogate => "lone leading surrogate in hex escape"
  | .trailingComma => "trailing comma"
  | .trailingCharacters => "trailing characters"
  | .unexpectedEndOfHexEscape => "unexpected end of hex escape"
  | .recursionLimit => "recursion limit exceeded"

/-- A fault and how far the text had been read when it was noticed. -/
structure ReadError where
  fault : ReadFault
  /-- The number of bytes that had been read. -/
  read : Nat
  /-- Whether the fault is in the next byte, which had been looked at only. -/
  ahead : Bool := false
  /-- The text of a wrapped number, if that is the text that had been read so far. -/
  numberText : Option String := none
deriving DecidableEq, Repr

/-- The number of bytes before the position of an error: those that had been read or looked at. -/
def ReadError.offset (error : ReadError) : Nat :=
  if error.ahead then error.read + 1 else error.read

/-- The line, counted from one, that byte `offset` of `cs` is in, and the number of bytes before it
on that line. -/
def lineAndColumn (cs : List Char) (offset : Nat) : Nat × Nat :=
  let before := takeBytes offset cs
  let lastLine := before.reverse.takeWhile (· ≠ '\n')
  (1 + before.count '\n', offset - byteLength (before.take (before.length - lastLine.length)))

/-- The wording of an error in `text`. Errors in the text of a wrapped number have their position
there. -/
def ReadError.message (error : ReadError) (text : String) : String :=
  let (line, column) := lineAndColumn (error.numberText.getD text).toList error.offset
  error.fault.message ++ " at line " ++ toString line ++ " column " ++ toString column

/-! ## Input and readers -/

/-- The characters that are left, and the number of bytes before them. -/
structure Input where
  rest : List Char
  offset : Nat
deriving DecidableEq, Repr

namespace Input

/-- The number of characters that are left. -/
def length (input : Input) : Nat := input.rest.length

/-- The input without the first `count` characters. -/
def drop (input : Input) (count : Nat) : Input :=
  ⟨input.rest.drop count, input.offset + byteLength (input.rest.take count)⟩

@[simp] theorem length_drop (input : Input) (count : Nat) :
    (input.drop count).length = input.length - count := by
  simp [drop, length]

theorem length_drop_one_lt {input : Input} {c : Char} {rest : List Char}
    (h : input.rest = c :: rest) : (input.drop 1).length < input.length := by
  rw [length_drop, length, h]
  simp

/-- The input without the characters at its front that are in the class `p`. -/
def dropWhile (input : Input) (p : Char → Bool) : Input :=
  ⟨input.rest.dropWhile p, input.offset + byteLength (input.rest.takeWhile p)⟩

theorem length_dropWhile_le (input : Input) (p : Char → Bool) :
    (input.dropWhile p).length ≤ input.length :=
  (List.dropWhile_sublist p).length_le

/-- The white space that may stand between the parts of a document. -/
def isSpaceChar (c : Char) : Bool := c = ' ' || c = '\n' || c = '\t' || c = '\r'

/-- The input without the white space at its front. -/
def skipSpace (input : Input) : Input := input.dropWhile isSpaceChar

theorem length_skipSpace_le (input : Input) : input.skipSpace.length ≤ input.length :=
  input.length_dropWhile_le isSpaceChar

/-- An error noticed after the characters before the input were read. -/
def here (input : Input) (fault : ReadFault) : ReadError := { fault, read := input.offset }

/-- An error noticed when the next character was looked at. Its position is one byte further on,
unless nothing is left. -/
def atNext (input : Input) (fault : ReadFault) : ReadError :=
  { fault, read := input.offset, ahead := input.rest ≠ [] }

/-- An error noticed when the next byte was read. -/
def pastNext (input : Input) (fault : ReadFault) : ReadError := { fault, read := input.offset + 1 }

end Input

/-- What a reader makes of an input: a value, and an input that is shorter. -/
structure Outcome (input : Input) (α : Type) where
  value : α
  next : Input
  lt : next.length < input.length

/-- The outcome, seen from an earlier input. -/
def Outcome.widen {input later : Input} {α : Type} (outcome : Outcome later α)
    (le : later.length ≤ input.length) : Outcome input α :=
  ⟨outcome.value, outcome.next, Nat.lt_of_lt_of_le outcome.lt le⟩

/-- A reader of values of one kind. -/
abbrev Reader (α : Type) := (input : Input) → Except ReadError (Outcome input α)

/-! ## Words -/

/-- Reads a word that stands for `value`. Its first letter has been looked at already; the others
are `others`. -/
def readWord (value : Json) (others : List Char) : Reader Json := fun input =>
  match h : input.rest with
  | [] => .error (input.atNext .expectedValue)
  | _ :: rest =>
    let agreeing := (others.zip rest).takeWhile fun (letter, c) => letter = c
    let stop := input.drop (1 + agreeing.length)
    if agreeing.length = others.length then
      .ok ⟨value, stop, by
        have : input.length = rest.length + 1 := by simp [Input.length, h]
        simp only [stop, Input.length_drop]; omega⟩
    else if stop.rest = [] then .error (stop.here .endInValue)
    else .error (stop.atNext .expectedIdent)

/-! ## Numbers -/

/-- Reads one or more digits. Another character in place of the first digit is an error at that
character, `error`. -/
def readDigits (error : Input → ReadFault → ReadError) : Reader (List Char) := fun input =>
  match h : input.rest with
  | [] => .error (input.atNext .endInValue)
  | c :: _ =>
    if digit : isAsciiDigit c then
      .ok ⟨input.rest.takeWhile isAsciiDigit, input.dropWhile isAsciiDigit, by
        have := (List.dropWhile_sublist isAsciiDigit (l := input.rest.tail)).length_le
        simp only [Input.dropWhile, Input.length, h, List.dropWhile_cons, digit, if_true,
          List.length_cons, List.tail_cons] at *
        omega⟩
    else .error (error input .invalidNumber)

/-- Reads an exponent. The letter in front of it has been read. The text has a lower case letter and
a sign. -/
def readExponent : Reader (List Char) := fun input => do
  let (sign, start) : Char × { start : Input // start.length ≤ input.length } :=
    match input.rest with
    | '-' :: _ => ('-', ⟨input.drop 1, by simp⟩)
    | '+' :: _ => ('+', ⟨input.drop 1, by simp⟩)
    | _ => ('+', ⟨input, Nat.le_refl _⟩)
  let digits ← readDigits Input.pastNext start.1
  return ⟨'e' :: sign :: digits.value, digits.next, Nat.lt_of_lt_of_le digits.lt start.2⟩

/-- Reads a fraction, if there is one. -/
def readFraction (input : Input) :
    Except ReadError (List Char × { next : Input // next.length ≤ input.length }) :=
  match input.rest with
  | '.' :: _ => do
    let digits ← readDigits Input.atNext (input.drop 1)
    return ('.' :: digits.value, ⟨digits.next, Nat.le_trans (Nat.le_of_lt digits.lt) (by simp)⟩)
  | _ => .ok ([], ⟨input, Nat.le_refl _⟩)

/-- Reads the whole digits of a number: a single zero, or digits without a zero in front. -/
def readWholeDigits : Reader (List Char) := fun input =>
  match h : input.rest with
  | '0' :: rest =>
    if rest.head?.any isAsciiDigit then .error ((input.drop 1).atNext .invalidNumber)
    else .ok ⟨['0'], input.drop 1, by simp [Input.length, h, Input.drop]⟩
  | _ => readDigits Input.pastNext input

/-- A minus sign at the front of the input, if there is one, and what follows. -/
def takeSign (input : Input) : List Char × { start : Input // start.length ≤ input.length } :=
  match input.rest with
  | '-' :: _ => (['-'], ⟨input.drop 1, by simp⟩)
  | _ => ([], ⟨input, Nat.le_refl _⟩)

/-- Reads a number. The character that it starts with is a digit or a minus sign. -/
def readNumber : Reader String := fun input => do
  let (sign, start) := takeSign input
  let whole ← readWholeDigits start.1
  let (fraction, afterFraction) ← readFraction whole.next
  have shorter : afterFraction.1.length < input.length :=
    Nat.lt_of_le_of_lt afterFraction.2 (Nat.lt_of_lt_of_le whole.lt start.2)
  let text := sign ++ whole.value ++ fraction
  match afterFraction.1.rest with
  | 'e' :: _ | 'E' :: _ =>
    let exponent ← readExponent (afterFraction.1.drop 1)
    return ⟨String.ofList (text ++ exponent.value), exponent.next,
      Nat.lt_trans (Nat.lt_of_lt_of_le exponent.lt (by simp)) shorter⟩
  | _ => return ⟨String.ofList text, afterFraction.1, shorter⟩

/-! ## Atoms -/

/-- Reads a word or a number. -/
def readAtom : Reader Json := fun input =>
  match input.rest with
  | [] => .error (input.atNext .endInValue)
  | c :: _ => do
    if c = 'n' then readWord .null ['u', 'l', 'l'] input
    else if c = 't' then readWord (.boolean true) ['r', 'u', 'e'] input
    else if c = 'f' then readWord (.boolean false) ['a', 'l', 's', 'e'] input
    else if c = '-' || isAsciiDigit c then
      let number ← readNumber input
      return ⟨.number number.value, number.next, number.lt⟩
    else .error (input.atNext .expectedValue)

/-! ## Strings -/

/-- Reads the four hexadecimal digits of an escape. -/
def readHex : Reader Nat := fun input =>
  match h : input.rest with
  | a :: b :: c :: d :: _ =>
    match natOfHex? [a, b, c, d] with
    | some n => .ok ⟨n, input.drop 4, by simp [Input.length, h, Input.drop]; omega⟩
    | none => .error { fault := .invalidEscape, read := input.offset + 4 }
  | cs =>
    if byteLength cs < 4 then
      .error { fault := .endInString, read := input.offset + byteLength cs }
    else .error { fault := .invalidEscape, read := input.offset + 4 }

/-- The first halves of surrogate pairs. -/
def isHighSurrogate (unit : Nat) : Bool := 0xD800 ≤ unit && unit ≤ 0xDBFF

/-- The second halves of surrogate pairs. -/
def isLowSurrogate (unit : Nat) : Bool := 0xDC00 ≤ unit && unit ≤ 0xDFFF

/-- Reads the escape of the second half of a surrogate pair, after the first half `high`. -/
def readLowSurrogate (high : Nat) : Reader Char := fun input =>
  match input.rest with
  | [] => .error (input.here .endInString)
  | '\\' :: [] => .error ((input.drop 1).here .endInString)
  | '\\' :: 'u' :: _ => do
    let low ← readHex (input.drop 2)
    if isLowSurrogate low.value then
      return ⟨Char.ofNat (0x10000 + (high - 0xD800) * 0x400 + (low.value - 0xDC00)), low.next, by
        have := low.lt; simp at this; omega⟩
    else .error (low.next.here .loneSurrogate)
  | '\\' :: _ => .error ((input.drop 1).atNext .unexpectedEndOfHexEscape)
  | _ => .error (input.atNext .unexpectedEndOfHexEscape)

/-- Which halves of surrogate pairs the escapes of a string may stand for. -/
inductive Surrogates where
  /-- The two halves of a pair, one after the other. -/
  | paired
  /-- Any half, which then counts as the character U+FFFD. -/
  | lone
deriving DecidableEq, Repr

/-- Reads the digits of an escape `\u` and, if they are half of a surrogate pair, the other half. -/
def readUnicodeEscape (surrogates : Surrogates) : Reader Char := fun input => do
  let unit ← readHex input
  if surrogates = .lone ∧ (isHighSurrogate unit.value ∨ isLowSurrogate unit.value) then
    return ⟨'\ufffd', unit.next, unit.lt⟩
  else if isLowSurrogate unit.value then .error (unit.next.here .loneSurrogate)
  else if isHighSurrogate unit.value then
    return (← readLowSurrogate unit.value unit.next).widen (Nat.le_of_lt unit.lt)
  else return ⟨Char.ofNat unit.value, unit.next, unit.lt⟩

/-- The character that a backslash and `c` stand for; `\u` is not among them. -/
def shortEscape? : Char → Option Char
  | '"' => some '"'
  | '\\' => some '\\'
  | '/' => some '/'
  | 'b' => some '\x08'
  | 'f' => some '\x0c'
  | 'n' => some '\n'
  | 'r' => some '\r'
  | 't' => some '\t'
  | _ => none

/-- Reads one escape. The backslash has been read. -/
def readEscape (surrogates : Surrogates) : Reader Char := fun input =>
  match h : input.rest with
  | [] => .error (input.here .endInString)
  | c :: _ => do
    if c = 'u' then
      return (← readUnicodeEscape surrogates (input.drop 1)).widen (by simp)
    else match shortEscape? c with
      | some character => return ⟨character, input.drop 1, by simp [Input.length, h, Input.drop]⟩
      | none => .error (input.atNext .invalidEscape)

/-- Reads the rest of a string up to its closing quote. `read` holds the characters before it, the
last one first. -/
def readStringFrom (surrogates : Surrogates) (read : List Char) (input : Input) :
    Except ReadError (Outcome input String) :=
  match h : input.rest with
  | [] => .error (input.here .endInString)
  | c :: rest => do
    have shorter : (input.drop 1).length < input.length := Input.length_drop_one_lt h
    if c = '"' then return ⟨String.ofList read.reverse, input.drop 1, shorter⟩
    else if c = '\\' then
      let escaped ← readEscape surrogates (input.drop 1)
      have shorter := Nat.lt_trans escaped.lt shorter
      return (← readStringFrom surrogates (escaped.value :: read) escaped.next).widen
        (Nat.le_of_lt shorter)
    else if c.toNat < 0x20 then .error (input.atNext .controlCharacter)
    else
      return (← readStringFrom surrogates (c :: read) (input.drop 1)).widen (Nat.le_of_lt shorter)
termination_by input.length

/-- Reads the rest of a string. Its opening quote has been read. -/
def readString (surrogates : Surrogates) : Reader String := readStringFrom surrogates []

/-! ## Documents -/

/-- How the parts of an array or of an object are separated, and the faults of other texts. -/
structure Separators where
  /-- The character that ends the array or object. -/
  closing : Char
  /-- The fault of a text that ends before the closing character. -/
  endFault : ReadFault
  /-- The fault of another character where a comma or the closing character should be. -/
  commaFault : ReadFault

/-- The separators of arrays. -/
def listSeparators : Separators := ⟨']', .endInList, .expectedListCommaOrEnd⟩

/-- The separators of objects. -/
def objectSeparators : Separators := ⟨'}', .endInObject, .expectedObjectCommaOrEnd⟩

/-- Where reading stands before a part of an array or object. -/
inductive Part (input : Input) where
  /-- The closing character was read. -/
  | closed (next : Input) (lt : next.length < input.length)
  /-- Another part starts. -/
  | another (start : Input) (le : start.length ≤ input.length)

/-- Reads on to the next item or member: past a comma, unless the part is the first, or past the
closing character. -/
def Separators.nextPart (separators : Separators) (first : Bool) (input : Input) :
    Except ReadError (Part input) :=
  let start := input.skipSpace
  have start_le : start.length ≤ input.length := input.length_skipSpace_le
  match h : start.rest with
  | [] => .error (start.atNext separators.endFault)
  | c :: _ =>
    if c = separators.closing then
      .ok (.closed (start.drop 1) (Nat.lt_of_lt_of_le (Input.length_drop_one_lt h) start_le))
    else if first then .ok (.another start start_le)
    else if c = ',' then
      let part := (start.drop 1).skipSpace
      match part.rest with
      | [] => .error (part.atNext .endInValue)
      | c :: _ =>
        if c = separators.closing then .error (part.atNext .trailingComma)
        else
          .ok (.another part (Nat.le_trans (start.drop 1).length_skipSpace_le
            (Nat.le_trans (Nat.le_of_lt (Input.length_drop_one_lt h)) start_le)))
    else .error (start.atNext separators.commaFault)

/-- Reads the items of an array and its closing bracket, after the items `read`, the last one
first. -/
def readItems (element : Reader Json) (read : List Json) (input : Input) :
    Except ReadError (Outcome input Json) := do
  match ← listSeparators.nextPart read.isEmpty input with
  | .closed next lt => return ⟨.array read.reverse, next, lt⟩
  | .another start le =>
    let item ← element start
    have shorter := Nat.lt_of_lt_of_le item.lt le
    return (← readItems element (item.value :: read) item.next).widen (Nat.le_of_lt shorter)
termination_by input.length

/-- Reads the colon after a key. -/
def readColon : Reader Unit := fun input =>
  let colon := input.skipSpace
  match h : colon.rest with
  | [] => .error (colon.atNext .endInObject)
  | c :: _ =>
    if c = ':' then
      .ok ⟨(), colon.drop 1,
        Nat.lt_of_lt_of_le (Input.length_drop_one_lt h) input.length_skipSpace_le⟩
    else .error (colon.atNext .expectedColon)

/-- Reads a key and the colon after it. -/
def readKey (surrogates : Surrogates) : Reader String := fun input =>
  match input.rest with
  | '"' :: _ => do
    let key ← readString surrogates (input.drop 1)
    let colon ← readColon key.next
    return ⟨key.value, colon.next, by
      have := key.lt; have := colon.lt; simp at *; omega⟩
  | _ => .error (input.atNext .keyMustBeString)

/-- The members of an object in the order of the text, with repeated keys. -/
abbrev Fields := List (String × Json)

/-- The object with the given members. The last one with a key counts. -/
def ofFields (fields : Fields) : Json :=
  .object (fields.foldl (fun members (key, value) => Assoc.insert key value members) [])

/-- Reads the members of an object and its closing brace, after the members `read`, the last one
first. The value of a member is read as its key demands. -/
def readFields (surrogates : Surrogates) (element : (key : String) → Reader Json) (read : Fields)
    (input : Input) : Except ReadError (Outcome input Fields) := do
  match ← objectSeparators.nextPart read.isEmpty input with
  | .closed next lt => return ⟨read.reverse, next, lt⟩
  | .another start le =>
    let key ← readKey surrogates start
    let value ← element key.value key.next
    have shorter := Nat.lt_of_lt_of_le (Nat.lt_trans value.lt key.lt) le
    return (← readFields surrogates element ((key.value, value.value) :: read) value.next).widen
      (Nat.le_of_lt shorter)
termination_by input.length

/-! ## Wrapped numbers -/

/-- The key of an object that stands for the number in the string that is its only member. -/
def wrappedNumberKey : String := "$serde_json::private::Number"

/-- The number that makes up all of `text`. An error that leaves some of the text unread is one of
the text as a whole: what is left does not belong to a number. -/
def numberOfText (text : String) : Except ReadError String :=
  let start : Input := ⟨text.toList, 0⟩
  let isStart := start.rest.head?.all fun c => c = '-' || isAsciiDigit c
  let result := readNumber start
  let read :=
    match result with
    | .ok outcome => outcome.next.offset
    | .error error => error.read
  let read := if isStart then read else 0
  if read < byteLength start.rest then .error ⟨.invalidNumber, read, true, some text⟩
  else match result with
    | .ok outcome => .ok outcome.value
    | .error error => .error { error with numberText := some text }

/-- How an error calls a document that is not the string it should be. Whole numbers are shown if
they fit into 64 bits. -/
def describe : Json → String
  | .null => "null"
  | .boolean true => "boolean \x60true\x60"
  | .boolean false => "boolean \x60false\x60"
  | .number text =>
    match asInteger? (.number text) with
    | some n =>
      if -9223372036854775808 ≤ n ∧ n < 18446744073709551616 then
        "integer \x60" ++ toString n ++ "\x60"
      else "number"
    | none => "number"
  | .string _ => "string"
  | .array _ => "sequence"
  | .object _ => "map"

/-- The error of another value where the text of a wrapped number should be. A word or a number is
read before it is an error; of an array or object only the first character is looked at. -/
def otherThanNumberText (input : Input) : ReadError :=
  match input.rest with
  | '[' :: _ => input.here (.expectedNumberText (describe (.array [])))
  | '{' :: _ => input.here (.expectedNumberText (describe emptyObject))
  | _ =>
    match readAtom input with
    | .ok atom => atom.next.here (.expectedNumberText (describe atom.value))
    | .error error => error

/-- Reads the closing brace of an object that has all its members. -/
def readClosingBrace : Reader Unit := fun input =>
  let close := input.skipSpace
  match h : close.rest with
  | [] => .error (close.atNext .endInObject)
  | c :: _ =>
    if c = '}' then
      .ok ⟨(), close.drop 1,
        Nat.lt_of_lt_of_le (Input.length_drop_one_lt h) input.length_skipSpace_le⟩
    else if c = ',' then .error (close.atNext .trailingComma)
    else .error (close.atNext .trailingCharacters)

/-- Reads the text of a wrapped number and the closing brace after it. -/
def readWrappedNumber : Reader Json := fun input => do
  let start := input.skipSpace
  have start_le : start.length ≤ input.length := input.length_skipSpace_le
  match h : start.rest with
  | '"' :: _ =>
    let text ← readString .paired (start.drop 1)
    let number ← numberOfText text.value
    let brace ← readClosingBrace text.next
    return ⟨.number number, brace.next,
      Nat.lt_trans (Nat.lt_trans brace.lt text.lt)
        (Nat.lt_of_lt_of_le (Input.length_drop_one_lt h) start_le)⟩
  | _ => .error (otherThanNumberText start)

/-- What follows the first key of an object and its colon, if that is the key of a wrapped number.
-/
def afterWrappedNumberKey? (input : Input) : Option (Outcome input Unit) :=
  match objectSeparators.nextPart true input with
  | .ok (.another start le) =>
    match readKey .paired start with
    | .ok key =>
      if key.value = wrappedNumberKey then some ⟨(), key.next, Nat.lt_of_lt_of_le key.lt le⟩
      else none
    | .error _ => none
  | _ => none

/-! ## Values -/

/-- What the texts of documents may hold. -/
structure Dialect where
  /-- The surrogates in the strings. -/
  surrogates : Surrogates
  /-- Whether an object may stand for a number. -/
  wrappedNumbers : Bool
deriving DecidableEq, Repr

namespace Dialect

/-- Documents that are kept: pairs of surrogates, and wrapped numbers. -/
def standard : Dialect := ⟨.paired, true⟩

/-- Documents in which every object is an object. -/
def plain : Dialect := ⟨.paired, false⟩

/-- Documents that are read over. -/
def lenient : Dialect := ⟨.lone, false⟩

end Dialect

/-- Reads the members of an object and its closing brace. -/
def readMembers (dialect : Dialect) (element : Reader Json) : Reader Json := fun input => do
  match if dialect.wrappedNumbers then afterWrappedNumberKey? input else none with
  | some key => return (← readWrappedNumber key.next).widen (Nat.le_of_lt key.lt)
  | none =>
    let fields ← readFields dialect.surrogates (fun _ => element) [] input
    return ⟨ofFields fields.value, fields.next, fields.lt⟩

/-- Reads a document. Its items and members are read by `nested`; without that reader, arrays and
objects nest too deep. -/
def readValue (dialect : Dialect) (nested : Option (Reader Json)) : Reader Json := fun input => do
  let start := input.skipSpace
  have start_le : start.length ≤ input.length := input.length_skipSpace_le
  match h : start.rest with
  | [] => .error (start.atNext .endInValue)
  | c :: _ =>
    have shorter : (start.drop 1).length < input.length :=
      Nat.lt_of_lt_of_le (Input.length_drop_one_lt h) start_le
    if c = '"' then
      let string ← readString dialect.surrogates (start.drop 1)
      return ⟨.string string.value, string.next, Nat.lt_trans string.lt shorter⟩
    else if c = '[' || c = '{' then
      match nested with
      | none => .error (start.atNext .recursionLimit)
      | some element =>
        let outcome ←
          if c = '[' then readItems element [] (start.drop 1)
          else readMembers dialect element (start.drop 1)
        return outcome.widen (Nat.le_of_lt shorter)
    else return (← readAtom start).widen start_le

/-- Reads a document in which arrays and objects nest at most `levels` deep. -/
def readDocument (dialect : Dialect) : (levels : Nat) → Reader Json
  | 0 => readValue dialect none
  | levels + 1 => readValue dialect (some (readDocument dialect levels))

/-- The number of levels that arrays and objects may nest. -/
def maxLevels : Nat := 127

/-- What `reader` reads of a text, which it must read to the end but for white space. -/
def readWhole {α : Type} (reader : Reader α) (text : String) : Except ReadError α := do
  let outcome ← reader ⟨text.toList, 0⟩
  let rest := outcome.next.skipSpace
  if rest.rest = [] then return outcome.value else .error (rest.atNext .trailingCharacters)

/-- The document that the whole text holds. -/
def read (text : String) : Except ReadError Json :=
  readWhole (readDocument .standard maxLevels) text

/-- The document that the whole text holds, if it is one. -/
def read? (text : String) : Option Json := (read text).toOption

end Stencil.Json
