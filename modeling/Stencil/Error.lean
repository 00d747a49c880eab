/-!
# Errors

What can go wrong when a template is built or an expression is evaluated. Each error is a cause;
`Error.message` is its wording.
-/

namespace Stencil

/-- An error of a template or of an evaluation. -/
inductive Error where
  /-- A source that is no expression, with the byte position of the fault and its description. -/
  | parse (position : Nat) (message : String)
  /-- An expression that cannot stand where it stands. -/
  | invalidExpression (expression message : String)
  /-- A construct that is read but has no value. -/
  | unsupportedExpression (construct : String)
  /-- A variable or member that the document lacks. -/
  | unknownVariable (path : String)
  | unknownOperator (symbol : String)
  | unknownFunction (name : String)
  /-- A value of another type than a bracket access takes. -/
  | typeMismatch (expected actual : String)
  /-- A value of another type than an operation takes. -/
  | typeError (message : String)
  | argumentCount (function expected : String) (actual : Nat)
  /-- A text that denotes no decimal. -/
  | invalidNumber (text : String)
  | divisionByZero
  /-- A result that no decimal holds. -/
  | overflow (operation : String)
  /-- A failure that a function reports. -/
  | functionFailure (function message : String)
  /-- An expression nested deeper than the configured limit. -/
  | recursionLimit (limit : Nat)
  /-- A value without a text. -/
  | serialization (message : String)
deriving DecidableEq, Repr

/-- The wording of an error. -/
def Error.message : Error → String
  | .parse position message => s!"Parse error at position {position}: {message}"
  | .invalidExpression expression message => s!"Invalid expression '{expression}': {message}"
  | .unsupportedExpression construct => s!"Expression not supported: {construct}"
  | .unknownVariable path => s!"Unknown variable: {path}"
  | .unknownOperator symbol => s!"Unknown operator: {symbol}"
  | .unknownFunction name => s!"Unknown function: {name}"
  | .typeMismatch expected actual => s!"Type mismatch: expected {expected}, got {actual}"
  | .typeError message => s!"Type error: {message}"
  | .argumentCount function expected actual =>
    s!"Function '{function}' expects {expected} arguments, got {actual}"
  | .invalidNumber text => s!"Invalid number: {text}"
  | .divisionByZero => "Division by zero"
  | .overflow operation => s!"Arithmetic overflow in {operation}"
  | .functionFailure function message => s!"Function '{function}' error: {message}"
  | .recursionLimit limit => s!"Recursion limit of {limit} exceeded"
  | .serialization message => s!"Serialization error: {message}"

end Stencil
