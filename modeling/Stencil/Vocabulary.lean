import Stencil.Expr.Operator
import Stencil.Function.Arithmetic
import Stencil.Function.Clock
import Stencil.Registry
/-!
# Vocabularies

The functions and operators that expressions can use.
-/

namespace Stencil

/-- Functions by their names and operators by their symbols. -/
structure Vocabulary where
  functions : Registry Function
  operators : Registry Operator

namespace Vocabulary

/-- No functions and no operators. -/
def empty : Vocabulary := ⟨.empty, .empty⟩

/-- The functions of every new vocabulary. -/
def standardFunctions : Registry Function :=
  .ofList [("round", .round), ("timezone", .clock "timezone"), ("formatTime", .clock "formatTime")]

/-- The operators of every new vocabulary. -/
def standardOperators : Registry Operator :=
  .ofList [("+", .add), ("-", .subtract), ("*", .multiply), ("/", .divide)]

/-- The functions and operators that are there from the start. -/
def standard : Vocabulary := ⟨standardFunctions, standardOperators⟩

theorem standard_function_cases {name : String} {function : Function}
    (h : standard.functions.get? name = some function) :
    (name = "round" ∧ function = .round) ∨ (name = "timezone" ∧ function = .clock "timezone") ∨
      (name = "formatTime" ∧ function = .clock "formatTime") := by
  have hentry := Registry.mem_of_get?_ofList h
  simpa only [List.mem_cons, Prod.mk.injEq, List.not_mem_nil, or_false] using hentry

theorem standard_operator_cases {symbol : String} {operation : Operator}
    (h : standard.operators.get? symbol = some operation) :
    (symbol = "+" ∧ operation = .add) ∨ (symbol = "-" ∧ operation = .subtract) ∨
      (symbol = "*" ∧ operation = .multiply) ∨ (symbol = "/" ∧ operation = .divide) := by
  have hentry := Registry.mem_of_get?_ofList h
  simpa only [List.mem_cons, Prod.mk.injEq, List.not_mem_nil, or_false] using hentry

/-- A new vocabulary knows operators of arithmetic, and no others. -/
theorem isArithmetic_of_standard {operator : BinaryOperator} {operation : Operator}
    (h : standard.operators.get? operator.symbol = some operation) :
    operator.isArithmetic = true := by
  have hsymbol : operator.symbol ∈ ["+", "-", "*", "/"] := by
    rcases standard_operator_cases h with ⟨h, -⟩ | ⟨h, -⟩ | ⟨h, -⟩ | ⟨h, -⟩ <;> simp [h]
  revert hsymbol
  cases operator <;> decide

/-- What the operator of a symbol makes of two values. -/
def operate (vocabulary : Vocabulary) (symbol : String) (left right : Value)
    (settings : Settings) : Traced Value :=
  match vocabulary.operators.get? symbol with
  | some operator => operator left right settings
  | none => .fail (.unknownOperator symbol)

/-- What a call of the function of a name gives. -/
def call (vocabulary : Vocabulary) (name : String) (arguments : List Value)
    (settings : Settings) : Traced Value :=
  match vocabulary.functions.get? name with
  | some function => function.apply arguments settings
  | none => .fail (.unknownFunction name)

end Vocabulary

end Stencil
