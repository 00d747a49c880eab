import Stencil.Decimal.Numeral
import Stencil.Error
import Stencil.Json.Reader
import Stencil.Text.Printable
/-!
# Values

What an expression evaluates to. Numbers are decimals; objects and arrays of the document stay JSON,
and so do numbers that no decimal holds.

* `Value.ofJson`, `Value.toJson` — from the document and back to it.
* `Value.toDecimal?` — the only implicit conversion: a string that is a numeral counts as a number.
-/

namespace Stencil

open Text

/-- The value of a numeral, or the error of a text that is none or whose value is out of range. -/
def Decimal.read (text : String) : Except Error Decimal :=
  match Decimal.ofText? text with
  | some d => .ok d
  | none => .error (.invalidNumber text)

theorem Decimal.read_eq_ok {text : String} {d : Decimal} :
    Decimal.read text = .ok d ↔ Decimal.ofText? text = some d := by
  unfold Decimal.read
  cases Decimal.ofText? text <;> simp

/-- The value of an expression. -/
inductive Value where
  | decimal (value : Decimal)
  | string (value : String)
  | boolean (value : Bool)
  /-- JSON null, or an element that a bracket access does not find. -/
  | null
  /-- Any other JSON. -/
  | json (document : Json)

namespace Value

/-- The value of a part of a document. -/
def ofJson : Json → Value
  | .null => .null
  | .boolean value => .boolean value
  | .string value => .string value
  | .number text =>
    match Decimal.ofText? text with
    | some d => .decimal d
    | none => .json (.number text)
  | document => .json document

/-- The value as a document. A decimal whose text were no JSON number would be a string. -/
def toJson : Value → Json
  | .decimal d =>
    match Json.numberOfText d.canonicalText with
    | .ok text => .number text
    | .error _ => .string d.canonicalText
  | .string value => .string value
  | .boolean value => .boolean value
  | .null => .null
  | .json document => document

/-- The name of the value's type. -/
def typeName : Value → String
  | .decimal _ => "Decimal"
  | .string _ => "String"
  | .boolean _ => "Boolean"
  | .null => "Null"
  | .json (.array _) => "Array"
  | .json (.object _) => "Object"
  | .json _ => "Json"

/-- Whether the value is null. -/
def isNull : Value → Bool
  | .null => true
  | _ => false

/-- The decimal that the value is. -/
def asDecimal? : Value → Option Decimal
  | .decimal d => some d
  | _ => none

/-- The string that the value is. -/
def asString? : Value → Option String
  | .string value => some value
  | _ => none

/-- The truth value that the value is. -/
def asBoolean? : Value → Option Bool
  | .boolean value => some value
  | _ => none

/-- The value as a number: a decimal, or a string that is a numeral with white space around it. -/
def toDecimal? : Value → Option Decimal
  | .decimal d => some d
  | .string value => Decimal.ofText? value
  | _ => none

/-- The text of the value, without any formatting. -/
def toText : Value → String
  | .decimal d => d.canonicalText
  | .string value => value
  | .boolean true => "true"
  | .boolean false => "false"
  | .null => "null"
  | .json document => document.render

/-- How the value is shown in messages: strings are quoted. -/
def display : Value → String
  | .string value => quoted value
  | value => value.toText

/-- The value as a number, or the error of the operation that takes numbers only. -/
def expectDecimal (operation : String) (value : Value) : Except Error Decimal :=
  match value.toDecimal? with
  | some d => .ok d
  | none =>
    .error (.typeError s!"{operation} expects a number, got {value.typeName} {value.display}")

/-- Whether two values are the same: decimals by value, JSON by structure. Values of different kinds
differ. -/
def same : Value → Value → Bool
  | .decimal a, .decimal b => a.sameValue b
  | .string a, .string b => a == b
  | .boolean a, .boolean b => a == b
  | .null, .null => true
  | .json a, .json b => a.same b
  | _, _ => false

end Value

end Stencil
