/-!
# Configuration

`RenderConfig` belongs to a template or to a single rendering, `EvaluationConfig` to an engine.
Operators and functions see both, as `Settings`.
-/

namespace Stencil

/-- The settings of a rendering. -/
structure RenderConfig where
  /-- The distance from UTC, in hours, at which times are written. -/
  timeOffsetHours : Int32 := 0
  /-- The pattern by which times are written, and the first one by which they are read. -/
  timeFormat : String := "%Y-%m-%d %H:%M:%S%:z"
  /-- Whether commas divide the whole digits of numbers. -/
  thousandsSeparator : Bool := true
deriving DecidableEq, Repr

/-- The settings of an engine. -/
structure EvaluationConfig where
  /-- The deepest nesting that is evaluated. -/
  maxRecursionDepth : Nat := 1024
  /-- The number of decimal places that quotients keep. -/
  decimalScale : Nat := 28
deriving DecidableEq, Repr

/-- The largest number of places that quotients can keep. -/
def EvaluationConfig.maxDecimalScale : Nat := 28

/-- The configuration with the number of places limited to the largest that is possible. -/
def EvaluationConfig.capped (config : EvaluationConfig) : EvaluationConfig :=
  { config with decimalScale := min config.decimalScale EvaluationConfig.maxDecimalScale }

/-- What operators and functions see besides their operands. -/
structure Settings where
  render : RenderConfig
  evaluation : EvaluationConfig
deriving DecidableEq, Repr

end Stencil
