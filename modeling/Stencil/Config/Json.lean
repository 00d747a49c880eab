import Stencil.Config
import Stencil.Json.Reader
/-!
# Configurations as JSON

A configuration is written as an object with all its settings in a fixed order. It is read from an
object with some of them, in any order and at most once each, or from an array with the values of
the first ones; the others have their defaults. Members with other keys are read over.
-/

namespace Stencil

namespace Json

/-- The string that a document is. -/
def asText? : Json → Option String
  | .string value => some value
  | _ => none

/-- The truth value that a document is. -/
def asTruth? : Json → Option Bool
  | .boolean value => some value
  | _ => none

/-- Reads an object. The members with the given names are documents; of all others only the shape
counts, and they may nest to any depth. -/
def readNamedFields (names : List String) : Reader Fields := fun input =>
  let start := input.skipSpace
  match h : start.rest with
  | '{' :: _ => do
    let fields ← readFields .paired
      (fun key =>
        if names.contains key then readDocument .plain maxLevels
        else fun input => readDocument .lenient input.length input)
      [] (start.drop 1)
    return fields.widen (by
      have := input.length_skipSpace_le
      rw [Input.length_drop]; simp only [start]; omega)
  | _ => .error (start.atNext .expectedValue)

/-- The members of an object with the given names, of which each occurs at most once, or the items
of an array under these names. -/
def namedFields? (names : List String) (text : String) : Option Fields :=
  match readWhole (readNamedFields names) text with
  | .ok fields =>
    let named := fields.filter fun field => names.contains field.1
    if names.all fun name => (named.map Prod.fst).count name ≤ 1 then some named else none
  | .error _ =>
    match readWhole (readDocument .plain maxLevels) text with
    | .ok (.array items) => if items.length ≤ names.length then some (names.zip items) else none
    | _ => none

/-- The value of the member `name`, or `default` if there is no such member; none if the value is
not of the right kind. -/
def fieldOr {α : Type} (fields : Fields) (name : String) (decode : Json → Option α) (default : α) :
    Option α :=
  match fields.find? fun field => field.1 == name with
  | some (_, value) => decode value
  | none => some default

/-- The text of an object with the given members. -/
def renderFields (fields : Fields) : String := "\x7b" ++ renderMembers fields ++ "\x7d"

end Json

namespace RenderConfig

/-- The names of the settings, in order. -/
def names : List String := ["time_offset_hours", "time_format", "thousands_separator"]

/-- A whole number of 32 bits. -/
def int32? (document : Json) : Option Int32 := do
  let n ← document.asInteger?
  if -2147483648 ≤ n ∧ n < 2147483648 then some (Int32.ofInt n) else none

/-- The configuration that a JSON text holds. -/
def ofJsonText? (text : String) : Option RenderConfig := do
  let fields ← Json.namedFields? names text
  let default : RenderConfig := {}
  return {
    timeOffsetHours :=
      ← Json.fieldOr fields "time_offset_hours" int32? default.timeOffsetHours
    timeFormat := ← Json.fieldOr fields "time_format" Json.asText? default.timeFormat
    thousandsSeparator :=
      ← Json.fieldOr fields "thousands_separator" Json.asTruth? default.thousandsSeparator }

/-- The configuration as JSON. -/
def toJsonText (config : RenderConfig) : String :=
  Json.renderFields
    [("time_offset_hours", .number (toString config.timeOffsetHours.toInt)),
     ("time_format", .string config.timeFormat),
     ("thousands_separator", .boolean config.thousandsSeparator)]

end RenderConfig

namespace EvaluationConfig

/-- The names of the settings, in order. -/
def names : List String := ["max_recursion_depth", "decimal_scale"]

/-- A whole number below `bound`, without a sign. -/
def unsigned? (bound : Nat) (document : Json) : Option Nat := do
  let n ← document.asInteger?
  if 0 ≤ n ∧ n < bound then some n.toNat else none

/-- The configuration that a JSON text holds. -/
def ofJsonText? (text : String) : Option EvaluationConfig := do
  let fields ← Json.namedFields? names text
  let default : EvaluationConfig := {}
  return {
    maxRecursionDepth :=
      ← Json.fieldOr fields "max_recursion_depth" (unsigned? 18446744073709551616)
        default.maxRecursionDepth
    decimalScale :=
      ← Json.fieldOr fields "decimal_scale" (unsigned? 4294967296) default.decimalScale }

/-- The configuration as JSON. -/
def toJsonText (config : EvaluationConfig) : String :=
  Json.renderFields
    [("max_recursion_depth", .number (toString config.maxRecursionDepth)),
     ("decimal_scale", .number (toString config.decimalScale))]

end EvaluationConfig

end Stencil
