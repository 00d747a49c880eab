import Stencil.Evaluation
import Stencil.Expr.Parser
import Stencil.Fragment
import Stencil.Json.Reader
/-!
# Engines and templates

An engine is what expressions of templates are evaluated with: a vocabulary, a way of following
paths and limits. A template is compiled once and rendered over any number of documents. Rendering
puts the values of its expressions into the text. A placeholder without a value, or with the value
null, is written as it stands in the text.
-/

namespace Stencil

open Text

/-- What expressions are evaluated with. -/
structure Engine where
  vocabulary : Vocabulary := .standard
  resolve : Resolver := Json.resolve
  config : EvaluationConfig := {}

namespace Engine

/-- The environment in which the engine evaluates an expression over a document. -/
def environment (engine : Engine) (document : Json) (render : RenderConfig) : Environment :=
  ⟨engine.vocabulary, engine.resolve, ⟨render, engine.config⟩, document⟩

/-- The value of the expression that a source holds. -/
def evaluate (engine : Engine) (source : String) (document : Json) (render : RenderConfig) :
    Traced Value :=
  match Expr.parse source with
  | .ok expr => expr.evaluate (engine.environment document render)
  | .error error => .fail (.parse error.position error.message)

end Engine

/-- A compiled template. -/
structure Template where
  source : String
  fragments : List Fragment
  /-- The settings of its renderings, unless others are given. -/
  config : RenderConfig

/-- The document of a context: nothing but white space stands for the empty object. -/
def Json.ofContext (context : String) : Except Json.ReadError Json :=
  if context.toList.all isSpace then .ok .emptyObject else Json.read context

/-- A value as it is put into the text. -/
def Value.render (value : Value) (config : RenderConfig) : String :=
  match value with
  | .decimal d => d.display config.thousandsSeparator
  | .string text => if config.thousandsSeparator then groupThousands text else text
  | value => value.toText

namespace Template

/-- The template of a text. -/
def compile (text : String) (config : RenderConfig := {}) : Except Error Template := do
  return ⟨text, ← Fragment.scan Expr.parse SyntaxError.message text, config⟩

/-- The document of a context. A context that is no document is noted and counts as an empty
object. -/
def readContext (context : String) : Traced Json :=
  match Json.ofContext context with
  | .ok document => pure document
  | .error error => do
    .note (.contextIgnored (error.message context))
    return .emptyObject

/-- The text of a placeholder. -/
def renderPlaceholder (source : String) (value : Traced Value) (config : RenderConfig) :
    Traced String :=
  (do
    let value ← value
    return if value.isNull then braced source else value.render config).recover fun error => do
      .note (.placeholderFailed source error)
      return braced source

/-- The text of a fragment. -/
def renderFragment (engine : Engine) (document : Json) (config : RenderConfig)
    (fragment : Fragment) : Traced String :=
  match fragment with
  | .placeholder source expr =>
    renderPlaceholder source (expr.evaluate (engine.environment document config)) config
  | literal => pure (literal.literalText?.getD "")

/-- The text of the template over a document. -/
def renderDocument (template : Template) (engine : Engine) (document : Json)
    (config : RenderConfig) : Traced String := do
  return String.join (← template.fragments.mapM (renderFragment engine document config))

/-- The text of the template over the document of a context. The settings `override` take the place
of its own. -/
def render (template : Template) (engine : Engine) (context : String)
    (override : Option RenderConfig) : Traced String := do
  let document ← readContext context
  template.renderDocument engine document (override.getD template.config)

end Template

end Stencil
