import Stencil.Error
import Stencil.Expr.Basic
/-!
# Events

What an evaluation notes for a log. Each event is what happened; `Event.text` is its wording.
-/

namespace Stencil

/-- How much an event matters. -/
inductive Level where
  | debug
  | warn
deriving DecidableEq, Repr

/-- An entry of a log. -/
inductive Event where
  /-- A text has no known layout of times and is read as a timestamp. -/
  | unknownLayout (text : String)
  | evaluationFailed (expr : Expr) (error : Error)
  /-- A placeholder has no value and is written as its source. -/
  | placeholderFailed (source : String) (error : Error)
  /-- The context of a rendering is no document, for the given reason. -/
  | contextIgnored (reason : String)
  | functionReplaced (name : String)
  | operatorReplaced (symbol : String)
deriving Repr

namespace Event

/-- How much an event matters: what changes an output is a warning. -/
def level : Event → Level
  | placeholderFailed _ _ | contextIgnored _ => .warn
  | _ => .debug

/-- The wording of an event. -/
def text : Event → String
  | unknownLayout text => s!"'{text}' is not a known time layout, reading it as a timestamp"
  | evaluationFailed expr error => s!"Evaluation of '{expr.display}' failed: {error.message}"
  | placeholderFailed source error =>
    s!"Failed to evaluate template expression '{source}': {error.message}"
  | contextIgnored reason =>
    s!"Template context is not valid JSON, rendering without it: {reason}"
  | functionReplaced name => s!"Replaced template function '{name}'"
  | operatorReplaced symbol => s!"Replaced template operator '{symbol}'"

end Event

end Stencil
