import Stencil.Function.Basic
import Stencil.Time.Format
import Stencil.Time.Layouts
/-!
# The function `timezone`

`timezone(time, hours, format)` writes a time on a clock that is so many hours ahead of UTC. The
time is a timestamp or a written time. Hours and format may be missing or null; the settings of the
rendering take their place. The function may go by any name, which its errors mention.
-/

namespace Stencil.Clock

/-- The instant that the first argument states. -/
def instant (name : String) (value : Value) (settings : Settings) : Traced Instant :=
  match value with
  | .decimal timestamp => Instant.ofTimestamp timestamp
  | .string text => Instant.ofText text settings.render.timeFormat
  | other =>
    .fail (.typeError s!"{name} expects a timestamp or time string, got {other.typeName}")

/-- The hours ahead of UTC that the second argument gives. -/
def hours (name : String) (value : Option Value) (settings : Settings) : Traced Decimal :=
  match value with
  | none | some .null => pure (.ofInt32 settings.render.timeOffsetHours)
  | some value => .ofExcept (value.expectDecimal name)

/-- The pattern that the third argument gives. -/
def format (name : String) (value : Option Value) (settings : Settings) : Traced String :=
  match value with
  | none | some .null => pure settings.render.timeFormat
  | some (.string pattern) => pure pattern
  | some other => .fail (.typeError s!"{name} expects a format string, got {other.typeName}")

/-- The evaluation `step` with the failures of functions reported as failures of `name`. -/
def reportAs {α : Type} (name : String) (step : Traced α) : Traced α :=
  step.recover fun
    | .functionFailure _ message => .fail (.functionFailure name message)
    | error => .fail error

/-- The text of the time. -/
def run (signature : Signature) (arguments : List Value) (settings : Settings) : Traced Value := do
  let name := signature.name
  match arguments with
  | [] => .fail (.argumentCount name signature.expected 0)
  | time :: arguments =>
    let instant ← instant name time settings
    let hours ← hours name arguments[0]? settings
    let format ← format name arguments[1]? settings
    return .string (← reportAs name (formatTime instant hours format))

end Stencil.Clock

namespace Stencil

/-- The function `timezone`, under the name `name`. -/
def Function.clock (name : String) : Function :=
  let signature := Signature.range name 1 3
  ⟨some signature, Clock.run signature⟩

end Stencil
