import Stencil.Expr.SyntaxError
import Stencil.Text.Classes
import Stencil.Text.Span
/-!
# Escapes in string literals

`decodeEscapes` gives the characters that the raw content of a string literal stands for. A
backslash starts an escape: a control character by its letter, a code point by its digits, nothing
by a line break, and otherwise the character after it.
-/

namespace Stencil.Escape

open Text

/-- The control character that a letter stands for after a backslash. -/
def controlChar? : Char → Option Char
  | 'n' => some '\n'
  | 't' => some '\t'
  | 'r' => some '\r'
  | 'b' => some '\x08'
  | 'f' => some '\x0c'
  | 'v' => some '\x0b'
  | '0' => some '\x00'
  | _ => none

/-- What a backslash and a character other than `x` and `u` stand for: nothing for a line break. -/
def shortEscape (c : Char) : List Char := if c = '\n' then [] else [(controlChar? c).getD c]

/-- The character with the code point that `digits` denote: one to six hexadecimal digits. -/
def codePoint? (digits : List Char) : Option Char :=
  if digits = [] ∨ 6 < digits.length then none else (natOfHex? digits).bind charOfNat?

/-- The code point of an escape `\x`, and what follows: two digits. -/
def takeByte (cs : List Char) : List Char × List Char := (cs.take 2, cs.drop 2)

/-- The digits of an escape `\u`, and what follows: everything between braces, or up to four
characters. -/
def takeUnit : List Char → List Char × List Char
  | '{' :: cs => (cs.takeWhile (· ≠ '}'), (cs.dropWhile (· ≠ '}')).drop 1)
  | cs => (cs.take 4, cs.drop 4)

theorem length_takeByte_le (cs : List Char) : (takeByte cs).2.length ≤ cs.length := by
  simp [takeByte]

theorem length_takeUnit_le (cs : List Char) : (takeUnit cs).2.length ≤ cs.length := by
  unfold takeUnit
  split
  · have := (List.dropWhile_sublist (· ≠ '}') (l := by assumption)).length_le
    simp only [List.length_drop, List.length_cons]
    omega
  · simp

/-- The characters that `cs` stands for, or the first escape that stands for none. -/
def decode : List Char → Except String (List Char)
  | [] => .ok []
  | '\\' :: [] => .error "\\"
  | '\\' :: c :: cs =>
    if c = 'x' then
      let digits := (takeByte cs).1
      match if digits.length = 2 then codePoint? digits else none with
      | none => .error (String.ofList ('\\' :: 'x' :: digits))
      | some character => do
        have := length_takeByte_le cs
        return character :: (← decode (takeByte cs).2)
    else if c = 'u' then
      let digits := (takeUnit cs).1
      match codePoint? digits with
      | none => .error (String.ofList ('\\' :: 'u' :: digits))
      | some character => do
        have := length_takeUnit_le cs
        return character :: (← decode (takeUnit cs).2)
    else return shortEscape c ++ (← decode cs)
  | c :: cs => return c :: (← decode cs)
termination_by cs => cs.length
decreasing_by
  all_goals simp_wf
  all_goals omega

end Stencil.Escape

namespace Stencil

/-- The text that the raw content of the string literal at `position` stands for. -/
def decodeEscapes (raw : String) (position : Nat) : Except SyntaxError String :=
  match Escape.decode raw.toList with
  | .ok characters => .ok (String.ofList characters)
  | .error escape => .error (.invalidEscape escape position)

end Stencil
