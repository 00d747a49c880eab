import Stencil.Path
import Stencil.Vocabulary
/-!
# Evaluation

`Expr.evaluate` gives the value of an expression in an environment. Operands, arguments and bases
are all evaluated before they are used, from left to right.

An expression has a depth at which it is evaluated, and none is evaluated below the configured
limit. A chain of binary operators that leans to the left, such as `1 + 2 + 3`, counts as one level,
so its length is not limited: on the way down to its innermost operand the walk collects the right
operands as `Link`s, and then folds them in from the inside out.
-/

namespace Stencil

/-- What an expression is evaluated in. -/
structure Environment where
  vocabulary : Vocabulary
  /-- How variables and members are found. -/
  resolve : Resolver
  settings : Settings
  /-- Where variables are found. -/
  document : Json

namespace Environment

/-- The value that a path names in a document. -/
def find? (environment : Environment) (document : Json) (path : String) : Option Value :=
  (environment.resolve document path).map Value.ofJson

/-- The value of a number literal. -/
def numeral (text : String) : Traced Value :=
  .ofExcept ((Decimal.read text).map Value.decimal)

/-- The value of an identifier: with a dollar sign in front it names a member of the document. -/
def identifier (environment : Environment) (name : String) : Traced Value :=
  .ofOption (.unknownVariable name) <|
    match name.toList with
    | '$' :: key => environment.find? environment.document (escapeSegment (String.ofList key))
    | _ => none

/-- The member `property` of a value; `expr` is the expression for it. -/
def member (environment : Environment) (base : Value) (property : String) (expr : Expr) :
    Traced Value :=
  match environment.find? base.toJson (escapeSegment property) with
  | some value => pure value
  | none => .fail (.unknownVariable expr.display)

/-- The path of the element that a value names: a position in an array or a key. There is none
before the first element. -/
def elementPath? : Value → Except Error (Option String)
  | .decimal position =>
    .ok (if position.trunc < 0 then none else some (toString position.trunc.natAbs))
  | .string key => .ok (some (escapeSegment key))
  | other => .error (.typeMismatch "Decimal or String" other.typeName)

/-- The element of a value that another value names, or null if there is none. -/
def element (environment : Environment) (base element : Value) : Traced Value := do
  let path? ← .ofExcept (elementPath? element)
  return (path?.bind (environment.find? base.toJson)).getD .null

/-- A right operand of a chain that waits for the value to the left of it. -/
structure Link where
  operator : BinaryOperator
  right : Traced Value

/-- The value of a chain from its innermost operand and its links, the innermost one first. -/
def foldLinks (environment : Environment) (first : Traced Value) (links : List Link) :
    Traced Value :=
  links.foldl (fun left link => do
    let left ← left
    let right ← link.right
    environment.vocabulary.operate link.operator.symbol left right environment.settings) first

/-- The value of the innermost operand of a chain together with its links, or, without links, of an
expression of its own. An operand is one level deeper than its chain. -/
def enter (environment : Environment) (depth : Nat) (links : List Link)
    (body : (depth : Nat) → Traced Value) : Traced Value :=
  let depth := if links.isEmpty then depth else depth + 1
  let limit := environment.settings.evaluation.maxRecursionDepth
  environment.foldLinks (if limit < depth then .fail (.recursionLimit limit) else body depth) links

mutual

/-- The value of an expression at a depth. With links it is an inner part of a chain at that depth,
and the value is that of the whole chain. -/
def run (environment : Environment) : Expr → (depth : Nat) → List Link → Traced Value
  | .number text, depth, links => environment.enter depth links fun _ => numeral text
  | .string value, depth, links => environment.enter depth links fun _ => pure (.string value)
  | .boolean value, depth, links => environment.enter depth links fun _ => pure (.boolean value)
  | .identifier name, depth, links =>
    environment.enter depth links fun _ => environment.identifier name
  | .member base property, depth, links =>
    environment.enter depth links fun depth => do
      environment.member (← run environment base (depth + 1) []) property (.member base property)
  | .index base element, depth, links =>
    environment.enter depth links fun depth => do
      let base ← run environment base (depth + 1) []
      environment.element base (← run environment element (depth + 1) [])
  | .binary operator left right, depth, links =>
    let limit := environment.settings.evaluation.maxRecursionDepth
    if limit < depth then .fail (.recursionLimit limit)
    else run environment left depth (⟨operator, run environment right (depth + 1) []⟩ :: links)
  | .call (.identifier name) arguments, depth, links =>
    environment.enter depth links fun depth => do
      let arguments ← runList environment arguments (depth + 1)
      environment.vocabulary.call name arguments environment.settings
  | .call callee _, depth, links =>
    environment.enter depth links fun _ =>
      .fail (.invalidExpression callee.display
        s!"cannot call a {callee.kind}, only named functions")
  | .unsupported construct _, depth, links =>
    environment.enter depth links fun _ => .fail (.unsupportedExpression construct)

/-- The values of expressions at a depth, up to the first that has none. -/
def runList (environment : Environment) : List Expr → (depth : Nat) → Traced (List Value)
  | [], _ => pure []
  | expr :: exprs, depth => do
    let value ← run environment expr depth []
    return value :: (← runList environment exprs depth)

end

end Environment

/-- The value of an expression. That it has none is noted. -/
def Expr.evaluate (expr : Expr) (environment : Environment) : Traced Value :=
  (environment.run expr 0 []).recover fun error => do
    .note (.evaluationFailed expr error)
    .fail error

end Stencil
