import Stencil.Assoc
import Stencil.Text.Classes
/-!
# JSON documents

A number is kept as its text, so that no digit is lost. The members of an object are kept in the
order of their keys. `Json.render` writes a document without white space.
-/

namespace Stencil

/-- A JSON document. -/
inductive Json where
  | null
  | boolean (value : Bool)
  /-- A number, by its text. -/
  | number (text : String)
  | string (value : String)
  | array (items : List Json)
  /-- An object, by its members in the order of their keys. -/
  | object (members : List (String × Json))
deriving Repr, Inhabited

namespace Json

/-- The object without members. -/
def emptyObject : Json := .object []

/-- The whole number that a document is: a number without a fraction, an exponent or a negative
zero. -/
def asInteger? : Json → Option Int
  | .number text =>
    match text.toList with
    | '-' :: cs => (Text.natOfDigits? cs).bind fun n => if n = 0 then none else some (-n)
    | cs => (Text.natOfDigits? cs).map Int.ofNat
  | _ => none

/-! ## Equality -/

mutual

/-- Whether two documents are the same, numbers by their texts. -/
def same : Json → Json → Bool
  | .null, .null => true
  | .boolean a, .boolean b => a == b
  | .number a, .number b => a == b
  | .string a, .string b => a == b
  | .array as, .array bs => sameItems as bs
  | .object as, .object bs => sameMembers as bs
  | _, _ => false

/-- `same`, item by item. -/
def sameItems : List Json → List Json → Bool
  | [], [] => true
  | a :: as, b :: bs => same a b && sameItems as bs
  | _, _ => false

/-- `same`, member by member. -/
def sameMembers : List (String × Json) → List (String × Json) → Bool
  | [], [] => true
  | (j, a) :: as, (k, b) :: bs => j == k && same a b && sameMembers as bs
  | _, _ => false

end

/-! ## Writing -/

/-- How a character is written inside a JSON string: the quote, the backslash and the control
characters are escaped. -/
def escapedChar (c : Char) : List Char :=
  if c = '"' then ['\\', '"']
  else if c = '\\' then ['\\', '\\']
  else if c = '\x08' then ['\\', 'b']
  else if c = '\t' then ['\\', 't']
  else if c = '\n' then ['\\', 'n']
  else if c = '\x0c' then ['\\', 'f']
  else if c = '\r' then ['\\', 'r']
  else if c.toNat < 0x20 then
    ['\\', 'u', '0', '0', Text.hexDigit (c.toNat / 16), Text.hexDigit c.toNat]
  else [c]

/-- A JSON string. -/
def renderString (text : String) : String :=
  String.ofList ('"' :: (text.toList.flatMap escapedChar ++ ['"']))

mutual

/-- The text of a document, without white space. -/
def render : Json → String
  | .null => "null"
  | .boolean true => "true"
  | .boolean false => "false"
  | .number text => text
  | .string value => renderString value
  | .array items => "[" ++ renderItems items ++ "]"
  | .object members => "\x7b" ++ renderMembers members ++ "\x7d"

/-- The texts of items, with commas between them. -/
def renderItems : List Json → String
  | [] => ""
  | [item] => render item
  | item :: items => render item ++ "," ++ renderItems items

/-- The texts of members, with commas between them. -/
def renderMembers : List (String × Json) → String
  | [] => ""
  | [(key, value)] => renderString key ++ ":" ++ render value
  | (key, value) :: members =>
    renderString key ++ ":" ++ render value ++ "," ++ renderMembers members

end

end Json

end Stencil
