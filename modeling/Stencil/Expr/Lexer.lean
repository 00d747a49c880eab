import Stencil.Expr.SyntaxError
import Stencil.Expr.Token
import Stencil.Text.Classes
import Stencil.Text.Identifier
import Stencil.Text.Span
/-!
# From source to tokens

`Lexed.ofSource` splits a source into tokens, each with the bytes it takes up, and says how the
source ends: after its last token, or with characters that are no token. What stands between tokens
is blank.

Each scanner of one kind of token splits its input in two, so that no character is lost
(`spanNumber_append`, `scanString_eq`), and `Step` carries the proof that a token is not empty,
which is what ends the walk.
-/

namespace Stencil

open Text

namespace Lexer

/-! ## Strings -/

/-- What stands before the closing quote, and what after it. A backslash takes the next character
with it. None if the line or the source ends first. -/
def scanString (quote : Char) : List Char → Option (List Char × List Char)
  | [] => none
  | '\\' :: [] => none
  | '\\' :: c :: cs => (scanString quote cs).map fun (raw, rest) => ('\\' :: c :: raw, rest)
  | c :: cs =>
    if c = '\n' then none
    else if c = quote then some ([], cs)
    else (scanString quote cs).map fun (raw, rest) => (c :: raw, rest)

theorem scanString_eq {quote : Char} {cs raw rest : List Char}
    (h : scanString quote cs = some (raw, rest)) : cs = raw ++ quote :: rest := by
  fun_induction scanString quote cs generalizing raw with
  | case1 => cases h
  | case2 => cases h
  | case3 c cs ih =>
    obtain ⟨⟨raw', rest'⟩, found, same⟩ := Option.map_eq_some_iff.1 h
    cases same
    simp [ih found]
  | case4 => cases h
  | case5 => cases h; rfl
  | case6 c cs _ _ _ _ ih =>
    obtain ⟨⟨raw', rest'⟩, found, same⟩ := Option.map_eq_some_iff.1 h
    cases same
    simp [ih found]

theorem length_lt_of_scanString {quote c : Char} {cs raw rest : List Char}
    (h : scanString quote cs = some (raw, rest)) : rest.length < (c :: cs).length := by
  rw [scanString_eq h]
  simp only [List.length_cons, List.length_append]
  omega

/-- The number of bytes before the closing quote. A source that is held in UTF-8 is scanned by this,
byte by byte: a backslash takes the next byte with it, and not the next character as `scanString`
has it. Both find the same quote (`Stencil.Proofs.Spans`), as no byte of a longer character is a
quote, a backslash or the end of a line. -/
def scanBytes (quote : UInt8) : List UInt8 → Option Nat
  | [] => none
  | byte :: bytes =>
    if byte = '\n'.toUInt8 then none
    else if byte = '\\'.toUInt8 then
      match bytes with
      | [] => none
      | _ :: bytes => (scanBytes quote bytes).map (· + 2)
    else if byte = quote then some 0
    else (scanBytes quote bytes).map (· + 1)

/-! ## Numbers -/

/-- A point with digits after it, if `cs` starts so, and the rest. -/
def spanFraction : List Char → List Char × List Char
  | '.' :: c :: cs =>
    if isAsciiDigit c then ('.' :: (c :: cs).takeWhile isAsciiDigit, (c :: cs).dropWhile isAsciiDigit)
    else ([], '.' :: c :: cs)
  | cs => ([], cs)

/-- A sign, if `cs` starts with one, and the rest. -/
def spanSign : List Char → List Char × List Char
  | '+' :: cs => (['+'], cs)
  | '-' :: cs => (['-'], cs)
  | cs => ([], cs)

/-- An exponent, if `cs` starts with one, and the rest: the letter, a sign or none, and digits. -/
def spanExponent : List Char → List Char × List Char
  | c :: cs =>
    let (sign, digits) := spanSign cs
    if (c = 'e' ∨ c = 'E') ∧ digits.head?.any isAsciiDigit then
      (c :: sign ++ digits.takeWhile isAsciiDigit, digits.dropWhile isAsciiDigit)
    else ([], c :: cs)
  | [] => ([], [])

/-- Digits, a fraction and an exponent, as far as `cs` starts with them, and the rest. -/
def spanNumber (cs : List Char) : List Char × List Char :=
  let (fraction, afterFraction) := spanFraction (cs.dropWhile isAsciiDigit)
  let (exponent, rest) := spanExponent afterFraction
  (cs.takeWhile isAsciiDigit ++ fraction ++ exponent, rest)

theorem spanFraction_append (cs : List Char) : (spanFraction cs).1 ++ (spanFraction cs).2 = cs := by
  unfold spanFraction
  split
  · split
    · simp
    · rfl
  · rfl

theorem spanSign_append (cs : List Char) : (spanSign cs).1 ++ (spanSign cs).2 = cs := by
  unfold spanSign
  split <;> rfl

theorem spanExponent_append (cs : List Char) : (spanExponent cs).1 ++ (spanExponent cs).2 = cs := by
  unfold spanExponent
  split
  · rename_i c cs
    have := spanSign_append cs
    dsimp only
    split
    · rw [List.append_assoc, List.takeWhile_append_dropWhile]
      simp [this]
    · rfl
  · rfl

/-- A number and what follows it make up the input. -/
theorem spanNumber_append (cs : List Char) : (spanNumber cs).1 ++ (spanNumber cs).2 = cs := by
  simp only [spanNumber, List.append_assoc, spanExponent_append, spanFraction_append]
  exact List.takeWhile_append_dropWhile

/-- Whether `cs` starts with a number: with a digit, or with a point and a digit. -/
def startsNumber : List Char → Bool
  | '.' :: c :: _ => isAsciiDigit c
  | c :: _ => isAsciiDigit c
  | [] => false

theorem spanNumber_ne_nil {cs : List Char} (h : startsNumber cs = true) :
    (spanNumber cs).1 ≠ [] := by
  unfold startsNumber at h
  split at h
  · have : isAsciiDigit '.' = false := rfl
    simp [spanNumber, spanFraction, this, h]
  · simp [spanNumber, h]
  · cases h

theorem length_spanNumber_lt {cs : List Char} (h : startsNumber cs = true) :
    (spanNumber cs).2.length < cs.length := by
  have split := congrArg List.length (spanNumber_append cs)
  have := List.length_pos_iff.2 (spanNumber_ne_nil h)
  rw [List.length_append] at split
  omega

/-! ## Words -/

theorem length_dropWhile_lt (p : Char → Bool) (c : Char) (cs : List Char) :
    (cs.dropWhile p).length < (c :: cs).length :=
  Nat.lt_succ_of_le (List.dropWhile_sublist p).length_le

/-! ## Operators and marks -/

/-- The longest operator or mark that `cs` starts with, and the number of its characters. -/
def symbolAt? : List Char → Option (Token × Nat)
  | '>' :: '>' :: '>' :: _ => some (.operator .unsignedShiftRight, 3)
  | '=' :: '=' :: '=' :: _ => some (.operator .strictEqual, 3)
  | '!' :: '=' :: '=' :: _ => some (.operator .strictNotEqual, 3)
  | '*' :: '*' :: _ => some (.operator .power, 2)
  | '=' :: '=' :: _ => some (.operator .equal, 2)
  | '!' :: '=' :: _ => some (.operator .notEqual, 2)
  | '<' :: '=' :: _ => some (.operator .lessThanOrEqual, 2)
  | '>' :: '=' :: _ => some (.operator .greaterThanOrEqual, 2)
  | '<' :: '<' :: _ => some (.operator .shiftLeft, 2)
  | '>' :: '>' :: _ => some (.operator .shiftRight, 2)
  | '&' :: '&' :: _ => some (.operator .and, 2)
  | '|' :: '|' :: _ => some (.operator .or, 2)
  | '?' :: '?' :: _ => some (.operator .coalesce, 2)
  | '=' :: '>' :: _ => some (.mark .arrow, 2)
  | c :: _ =>
    match c with
    | '.' => some (.mark .dot, 1)
    | '(' => some (.mark .leftParen, 1)
    | ')' => some (.mark .rightParen, 1)
    | ',' => some (.mark .comma, 1)
    | '+' => some (.operator .add, 1)
    | '-' => some (.operator .subtract, 1)
    | '*' => some (.operator .multiply, 1)
    | '/' => some (.operator .divide, 1)
    | '%' => some (.operator .modulo, 1)
    | '<' => some (.operator .lessThan, 1)
    | '>' => some (.operator .greaterThan, 1)
    | '=' => some (.mark .assign, 1)
    | '!' => some (.mark .bang, 1)
    | '~' => some (.mark .tilde, 1)
    | '?' => some (.mark .question, 1)
    | ':' => some (.mark .colon, 1)
    | '&' => some (.operator .bitAnd, 1)
    | '|' => some (.operator .bitOr, 1)
    | '^' => some (.operator .bitXor, 1)
    | '[' => some (.mark .leftBracket, 1)
    | ']' => some (.mark .rightBracket, 1)
    | '{' => some (.mark .leftBrace, 1)
    | '}' => some (.mark .rightBrace, 1)
    | ';' => some (.mark .semicolon, 1)
    | _ => none
  | [] => none

theorem symbolAt?_pos {cs : List Char} {token : Token} {count : Nat}
    (h : symbolAt? cs = some (token, count)) : 0 < count := by
  unfold symbolAt? at h
  split at h <;> first | (cases h; decide) | skip
  · split at h <;> cases h <;> decide
  · cases h

theorem length_drop_lt_of_symbolAt? {cs : List Char} {token : Token} {count : Nat}
    (h : symbolAt? cs = some (token, count)) : (cs.drop count).length < cs.length := by
  have pos := symbolAt?_pos h
  have : 0 < cs.length := by
    cases cs with
    | nil => cases h
    | cons c cs => exact Nat.succ_pos _
  rw [List.length_drop]
  omega

/-! ## The walk -/

/-- What stands at the front of `cs`, which does not start with a blank. -/
inductive Step (cs : List Char) where
  /-- Nothing is left. -/
  | finished
  /-- Characters that are no token. -/
  | failed (error : SyntaxError)
  /-- A token, the bytes it takes up and what follows it. -/
  | read (token : Token) (size : Nat) (rest : List Char) (lt : rest.length < cs.length)

/-- The token at the front of `cs`, which starts at byte `start` of the source. -/
def step (cs : List Char) (start : Nat) : Step cs :=
  match cs with
  | [] => .finished
  | c :: cs =>
    if c = '"' ∨ c = '\'' then
      match h : scanString c cs with
      | none => .failed (.unclosedString start)
      | some (raw, rest) =>
        .read (.string (String.ofList raw)) (byteLength raw + 2) rest (length_lt_of_scanString h)
    else if h : startsNumber (c :: cs) then
      let text := (spanNumber (c :: cs)).1
      let rest := (spanNumber (c :: cs)).2
      if rest.head?.any isIdentifierStart then
        .failed (.invalidLiteral "number" (String.ofList (text ++ rest.takeWhile isIdentifierPart))
          start)
      else
        .read (.number (String.ofList text)) (byteLength text) rest (length_spanNumber_lt h)
    else if isIdentifierStart c then
      let word := c :: cs.takeWhile isIdentifierPart
      .read (.ofWord (String.ofList word)) (byteLength word) (cs.dropWhile isIdentifierPart)
        (length_dropWhile_lt isIdentifierPart c cs)
    else
      match h : symbolAt? (c :: cs) with
      | none => .failed (.unexpectedCharacter c start)
      | some (token, count) =>
        .read token count ((c :: cs).drop count) (length_drop_lt_of_symbolAt? h)

end Lexer

/-- How a source ends. -/
inductive Ending where
  /-- After its last token and blanks, at the given byte. -/
  | finished (position : Nat)
  /-- With characters that are no token. -/
  | failed (error : SyntaxError)
deriving DecidableEq, Repr

/-- A source as tokens. -/
structure Lexed where
  lexemes : List Lexeme
  ending : Ending
deriving DecidableEq, Repr

namespace Lexed

/-- The tokens of `cs`, which starts at byte `offset` of the source. -/
def scan (cs : List Char) (offset : Nat) : Lexed :=
  let start := offset + byteLength (cs.takeWhile isBlank)
  match Lexer.step (cs.dropWhile isBlank) start with
  | .finished => ⟨[], .finished start⟩
  | .failed error => ⟨[], .failed error⟩
  | .read token size rest lt =>
    have : rest.length < cs.length := Nat.lt_of_lt_of_le lt (List.dropWhile_sublist _).length_le
    let later := scan rest (start + size)
    ⟨⟨token, start, start + size⟩ :: later.lexemes, later.ending⟩
termination_by cs.length

/-- The tokens of a source. -/
def ofSource (source : String) : Lexed := scan source.toList 0

end Lexed

end Stencil
