/-!
# Classes of characters

White space and digits, as sets of characters, and what digits count. The sets are data of the
Unicode character database: each is a list of inclusive ranges of code points, and membership is a
search through them.

* `isSpace` — the property `White_Space`; `trim` removes such characters from both ends. `isBlank`
  is the narrower class that separates the tokens of an expression: it leaves out the line
  tabulation U+000B.
* `isDigit` — the general category `Nd` (decimal number), the class in which numerals are
  recognised. `digitValue?` reads the ten ASCII digits only: the class in which they are counted.
* `hexValue?` — hexadecimal digits of either case.
-/

namespace Stencil.Text

/-- A set of code points, given by inclusive ranges. -/
abbrev Ranges := List (Nat × Nat)

/-- Whether the code point of `c` lies in one of the ranges. -/
def Ranges.contains (ranges : Ranges) (c : Char) : Bool :=
  ranges.any fun range => range.1 ≤ c.toNat && c.toNat ≤ range.2

/-- Membership is membership in one range. -/
theorem Ranges.contains_iff {ranges : Ranges} {c : Char} :
    ranges.contains c = true ↔ ∃ range ∈ ranges, range.1 ≤ c.toNat ∧ c.toNat ≤ range.2 := by
  simp [Ranges.contains]

/-- A union of two sets contains what either contains. -/
@[simp] theorem Ranges.contains_append (first second : Ranges) (c : Char) :
    Ranges.contains (first ++ second) c = (first.contains c || second.contains c) := by
  simp [Ranges.contains]

/-! ## White space -/

/-- The characters with the property `White_Space`. -/
def spaces : Ranges :=
  [(0x9, 0xD), (0x20, 0x20), (0x85, 0x85), (0xA0, 0xA0), (0x1680, 0x1680), (0x2000, 0x200A),
   (0x2028, 0x2029), (0x202F, 0x202F), (0x205F, 0x205F), (0x3000, 0x3000)]

/-- White space, in the sense of the Unicode property. -/
def isSpace (c : Char) : Bool := spaces.contains c

/-- White space between the tokens of an expression: every white space character but U+000B. -/
def isBlank (c : Char) : Bool := isSpace c && c != '\x0b'

/-- `cs` without the white space at its end. -/
def trimEnd (cs : List Char) : List Char := (cs.reverse.dropWhile isSpace).reverse

/-- `cs` without the white space at its two ends. -/
def trim (cs : List Char) : List Char := trimEnd (cs.dropWhile isSpace)

/-- A blank is white space. -/
theorem isSpace_of_isBlank {c : Char} (h : isBlank c = true) : isSpace c = true := by
  simp only [isBlank, Bool.and_eq_true] at h
  exact h.1

/-! ## Decimal digits -/

/-- The characters of general category `Nd`. -/
def decimalDigits : Ranges :=
  [(0x30, 0x39), (0x660, 0x669), (0x6F0, 0x6F9), (0x7C0, 0x7C9), (0x966, 0x96F), (0x9E6, 0x9EF),
   (0xA66, 0xA6F), (0xAE6, 0xAEF), (0xB66, 0xB6F), (0xBE6, 0xBEF), (0xC66, 0xC6F), (0xCE6, 0xCEF),
   (0xD66, 0xD6F), (0xDE6, 0xDEF), (0xE50, 0xE59), (0xED0, 0xED9), (0xF20, 0xF29),
   (0x1040, 0x1049), (0x1090, 0x1099), (0x17E0, 0x17E9), (0x1810, 0x1819), (0x1946, 0x194F),
   (0x19D0, 0x19D9), (0x1A80, 0x1A89), (0x1A90, 0x1A99), (0x1B50, 0x1B59), (0x1BB0, 0x1BB9),
   (0x1C40, 0x1C49), (0x1C50, 0x1C59), (0xA620, 0xA629), (0xA8D0, 0xA8D9), (0xA900, 0xA909),
   (0xA9D0, 0xA9D9), (0xA9F0, 0xA9F9), (0xAA50, 0xAA59), (0xABF0, 0xABF9), (0xFF10, 0xFF19),
   (0x104A0, 0x104A9), (0x10D30, 0x10D39), (0x10D40, 0x10D49), (0x11066, 0x1106F),
   (0x110F0, 0x110F9), (0x11136, 0x1113F), (0x111D0, 0x111D9), (0x112F0, 0x112F9),
   (0x11450, 0x11459), (0x114D0, 0x114D9), (0x11650, 0x11659), (0x116C0, 0x116C9),
   (0x116D0, 0x116E3), (0x11730, 0x11739), (0x118E0, 0x118E9), (0x11950, 0x11959),
   (0x11BF0, 0x11BF9), (0x11C50, 0x11C59), (0x11D50, 0x11D59), (0x11DA0, 0x11DA9),
   (0x11F50, 0x11F59), (0x16130, 0x16139), (0x16A60, 0x16A69), (0x16AC0, 0x16AC9),
   (0x16B50, 0x16B59), (0x16D70, 0x16D79), (0x1CCF0, 0x1CCF9), (0x1D7CE, 0x1D7FF),
   (0x1E140, 0x1E149), (0x1E2F0, 0x1E2F9), (0x1E4F0, 0x1E4F9), (0x1E5F1, 0x1E5FA),
   (0x1E950, 0x1E959), (0x1FBF0, 0x1FBF9)]

/-- A decimal digit of any script. -/
def isDigit (c : Char) : Bool := decimalDigits.contains c

/-- An ASCII digit. -/
def isAsciiDigit (c : Char) : Bool := '0' ≤ c && c ≤ '9'

/-- The value of an ASCII digit; digits of other scripts have none. -/
def digitValue? (c : Char) : Option Nat :=
  if isAsciiDigit c then some (c.toNat - '0'.toNat) else none

/-- The ASCII digit with the value `n % 10`. -/
def digitChar (n : Nat) : Char := Char.ofNat ('0'.toNat + n % 10)

/-- The decimal digits of `n`, most significant first, before `tail`; none for zero. -/
def digitsBefore (n : Nat) (tail : List Char) : List Char :=
  if n = 0 then tail else digitsBefore (n / 10) (digitChar n :: tail)
termination_by n
decreasing_by omega

/-- The decimal numeral of `n`, without leading zeros. -/
def digits (n : Nat) : List Char := if n = 0 then ['0'] else digitsBefore n []

/-- The numeral of `n` with zeros in front, up to a width of `width`. -/
def paddedDigits (width n : Nat) : List Char :=
  let text := digits n
  List.replicate (width - text.length) '0' ++ text

/-- The number that a list of ASCII digits denotes, if it holds nothing else. -/
def natOfDigits? (cs : List Char) : Option Nat :=
  cs.foldlM (fun total c => (digitValue? c).map (total * 10 + ·)) 0

/-! ## Hexadecimal digits -/

/-- The hexadecimal digit, in lower case, with the value `n % 16`. -/
def hexDigit (n : Nat) : Char :=
  if n % 16 < 10 then Char.ofNat ('0'.toNat + n % 16) else Char.ofNat ('a'.toNat + (n % 16 - 10))

/-- The hexadecimal digits of `n`, most significant first, before `tail`; none for zero. -/
def hexDigitsBefore (n : Nat) (tail : List Char) : List Char :=
  if n = 0 then tail else hexDigitsBefore (n / 16) (hexDigit n :: tail)
termination_by n
decreasing_by omega

/-- The hexadecimal numeral of `n`, in lower case and without leading zeros. -/
def hexDigits (n : Nat) : List Char := if n = 0 then ['0'] else hexDigitsBefore n []

/-- The value of a hexadecimal digit of either case. -/
def hexValue? (c : Char) : Option Nat :=
  if '0' ≤ c && c ≤ '9' then some (c.toNat - '0'.toNat)
  else if 'a' ≤ c && c ≤ 'f' then some (c.toNat - 'a'.toNat + 10)
  else if 'A' ≤ c && c ≤ 'F' then some (c.toNat - 'A'.toNat + 10)
  else none

/-- The number that hexadecimal digits denote, if `cs` holds nothing else. -/
def natOfHex? (cs : List Char) : Option Nat :=
  cs.foldlM (fun total c => (hexValue? c).map (total * 16 + ·)) 0

/-- The character with the code point `n`, if `n` is one and no surrogate. -/
def charOfNat? (n : Nat) : Option Char :=
  if h : n.isValidChar then some (Char.ofNatAux n h) else none

end Stencil.Text
