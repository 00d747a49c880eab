import Stencil.Text.Classes
import Stencil.Text.Span
import Stencil.Decimal.Basic
/-!
# Numerals

A numeral is a text such as `-12.50e3`. `Numeral.ofChars?` recognises numerals, with digits of any
script; `Decimal.ofText?` reads their value, which takes ASCII digits and a value in range. In the
other direction `Decimal.toText` writes a decimal with all its places and `Decimal.canonicalText`
without the zeros at its end.
-/

namespace Stencil

open Text

/-- The parts of a numeral. -/
structure Numeral where
  /-- Whether a minus sign is in front. A plus sign may stand there too and means nothing. -/
  negative : Bool
  /-- The digits in front of the point. -/
  whole : List Char
  /-- The digits after the point. -/
  fraction : List Char
  /-- The exponent, if there is one: whether it has a minus sign, and its digits. -/
  exponent : Option (Bool × List Char)
deriving DecidableEq, Repr

namespace Numeral

/-- A sign at the front of `cs`, and what follows. -/
def takeSign : List Char → Bool × List Char
  | '-' :: cs => (true, cs)
  | '+' :: cs => (false, cs)
  | cs => (false, cs)

/-- The exponent that makes up all of `cs`; no exponent for no characters. -/
def exponentOfChars? : List Char → Option (Option (Bool × List Char))
  | [] => some none
  | c :: cs =>
    let (negative, digits) := takeSign cs
    if (c = 'e' ∨ c = 'E') ∧ digits ≠ [] ∧ digits.all isDigit then some (some (negative, digits))
    else none

/-- The digits in front of the point, those after it, and what follows. There is at least one digit,
and a point only where digits stand in front of it or follow it. -/
def takeMantissa? (cs : List Char) : Option (List Char × List Char × List Char) :=
  let whole := cs.takeWhile isDigit
  match cs.dropWhile isDigit with
  | '.' :: rest =>
    let fraction := rest.takeWhile isDigit
    if whole = [] ∧ fraction = [] then none
    else some (whole, fraction, rest.dropWhile isDigit)
  | rest => if whole = [] then none else some (whole, [], rest)

/-- The numeral that makes up all of `cs`. -/
def ofChars? (cs : List Char) : Option Numeral := do
  let (negative, cs) := takeSign cs
  let (whole, fraction, cs) ← takeMantissa? cs
  let exponent ← exponentOfChars? cs
  return ⟨negative, whole, fraction, exponent⟩

end Numeral

/-- Whether the whole text is a numeral. -/
def isNumeral (text : String) : Bool := (Numeral.ofChars? text.toList).isSome

/-- Whether `cs` is a point followed by one or more digits, or empty. -/
def isPlainFraction : List Char → Bool
  | [] => true
  | '.' :: cs => cs ≠ [] && cs.all isDigit
  | _ => false

/-- Whether `cs` is a numeral in positional notation, without a sign, without superfluous zeros in
front and without an exponent. -/
def isPlainUnsigned : List Char → Bool
  | '0' :: cs => isPlainFraction cs
  | c :: cs => '1' ≤ c && c ≤ '9' && isPlainFraction (cs.dropWhile isDigit)
  | [] => false

/-- Whether the whole text is a numeral in positional notation, with at most a minus sign in front;
these are the numerals that the renderer groups. -/
def isPlainNumeral (text : String) : Bool :=
  match text.toList with
  | '-' :: cs => isPlainUnsigned cs
  | cs => isPlainUnsigned cs

namespace Decimal

/-! ## Reading -/

/-- A total with one more ASCII digit behind it, while it stays in range. -/
def pushDigit? (total : Nat) (c : Char) : Option Nat := do
  let next := total * 10 + (← digitValue? c)
  if next < unitBound then some next else none

/-- The whole number that ASCII digits denote, while it stays in range. -/
def readWhole? (cs : List Char) : Option Nat := cs.foldlM pushDigit? 0

/-- The magnitude `total`, with `scale` places, rounded by the one digit `c` that follows it: a five
or more goes up. If the magnitude leaves the range so, its last digit is rounded away as well. -/
def roundBy? (total scale : Nat) (c : Char) : Option (Nat × Nat) := do
  if (← digitValue? c) < 5 then return (total, scale)
  if total + 1 < unitBound then return (total + 1, scale)
  if scale = 0 then none
  return ((total + 1 + 4) / 10, scale - 1)

/-- The magnitude `total`, with `scale` places, followed by the digits `cs` of a fraction. The first
digit that finds no room rounds the magnitude, and the digits after it do not count. -/
def readFraction? (total scale : Nat) : List Char → Option (Nat × Nat)
  | [] => some (total, scale)
  | c :: cs => do
    if scale = maxScale then roundBy? total scale c
    else
      let next := total * 10 + (← digitValue? c)
      if next < unitBound then readFraction? next (scale + 1) cs else roundBy? total scale c

/-- The magnitude and the scale that the digits around a point denote. All of them are ASCII digits,
also those that do not count. -/
def readMantissa? (whole fraction : List Char) : Option (Nat × Nat) := do
  if fraction.all isAsciiDigit then readFraction? (← readWhole? whole) 0 fraction else none

/-- `units` at `scale` places, times a power of ten. A negative exponent only moves the point, as
far as there are places. A positive exponent first uses up the places, and is at most 28 if they do
not suffice. -/
def shift? (units : Int) (scale : Nat) (negative : Bool) (exponent : Nat) : Option Decimal :=
  if negative then ofUnits? units (scale + exponent)
  else if exponent ≤ scale then ofUnits? units (scale - exponent)
  else if exponent ≤ maxScale then ofUnits? (units * pow10 (exponent - scale)) 0
  else none

/-- The number that the digits of an exponent denote: ASCII digits, and at most
32 bits. -/
def readExponent? (cs : List Char) : Option Nat := do
  let exponent ← natOfDigits? cs
  if exponent < 4294967296 then some exponent else none

/-- The value of a numeral. -/
def ofNumeral? (numeral : Numeral) : Option Decimal := do
  let (magnitude, scale) ← readMantissa? numeral.whole numeral.fraction
  let units : Int := if numeral.negative then -magnitude else magnitude
  match numeral.exponent with
  | none => ofUnits? units scale
  | some (negative, digits) => shift? units scale negative (← readExponent? digits)

/-- The value of a text that is a numeral, with white space around it. -/
def ofText? (text : String) : Option Decimal := do
  ofNumeral? (← Numeral.ofChars? (trim text.toList))

/-! ## Writing -/

/-- The numeral of a decimal, with as many places as its scale. -/
def toChars (d : Decimal) : List Char :=
  let digits := paddedDigits (d.scale + 1) d.units.natAbs
  let whole := digits.take (digits.length - d.scale)
  let fraction := digits.drop (digits.length - d.scale)
  (if d.units < 0 then ['-'] else []) ++ whole ++ (if d.scale = 0 then [] else '.' :: fraction)

/-- The numeral of a decimal, with as many places as its scale. -/
def toText (d : Decimal) : String := String.ofList d.toChars

/-- The numeral of a decimal, without zeros at the end of its places. -/
def canonicalText (d : Decimal) : String := d.stripZeros.toText

end Decimal

/-! ## Grouping -/

/-- The characters of `cs` with commas between them: one before every character, after the first,
whose position differs from `lead` by a multiple of three. `position` is that of the first
character. -/
def groupedFrom (lead : Nat) : (position : Nat) → List Char → List Char
  | _, [] => []
  | position, c :: cs =>
    if 0 < position ∧ (position + 3 - lead) % 3 = 0 then
      ',' :: c :: groupedFrom lead (position + 1) cs
    else c :: groupedFrom lead (position + 1) cs

/-- The digits with a comma before every group of three, counted from the end. The count is in bytes
of the text's UTF-8 form, which for ASCII digits is the number of digits. -/
def groupedDigits (digits : List Char) : List Char :=
  groupedFrom (byteLength digits % 3) 0 digits

/-- A plain numeral without its sign, with commas between the groups of its whole digits. -/
def groupedUnsigned (cs : List Char) : List Char :=
  groupedDigits (cs.takeWhile (· ≠ '.')) ++ cs.dropWhile (· ≠ '.')

/-- A plain numeral with a comma between groups of three whole digits. Every other text stays as it
is. -/
def groupThousands (text : String) : String :=
  if isPlainNumeral text then
    match text.toList with
    | '-' :: cs => String.ofList ('-' :: groupedUnsigned cs)
    | cs => String.ofList (groupedUnsigned cs)
  else text

/-- The text of a decimal as rendered: canonical, and with its thousands grouped if asked for. -/
def Decimal.display (d : Decimal) (grouping : Bool) : String :=
  if grouping then groupThousands d.canonicalText else d.canonicalText

end Stencil
