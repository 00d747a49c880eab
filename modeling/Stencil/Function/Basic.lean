import Stencil.Config
import Stencil.Journal
import Stencil.Value
/-!
# Functions and operators

What a name or a symbol stands for: a step from values to a value. A function may have a signature,
the number of arguments that it takes and how that number is worded, which is checked before a call.
-/

namespace Stencil

/-! ## Signatures -/

/-- The name of a function and the numbers of arguments that it takes. -/
structure Signature where
  name : String
  least : Nat
  /-- The largest number of arguments; without it there is no limit. -/
  most : Option Nat
deriving DecidableEq, Repr

namespace Signature

/-- The signature of a function that takes exactly `count` arguments. -/
def fixed (name : String) (count : Nat) : Signature := ⟨name, count, some count⟩

/-- The signature of a function that takes from `least` to `most` arguments. -/
def range (name : String) (least most : Nat) : Signature := ⟨name, least, some most⟩

/-- The signature of a function that takes `least` arguments or more. -/
def variadic (name : String) (least : Nat) : Signature := ⟨name, least, none⟩

/-- Whether a call may have `count` arguments. -/
def accepts (signature : Signature) (count : Nat) : Bool :=
  signature.least ≤ count && signature.most.all (count ≤ ·)

/-- The number of arguments, in words. -/
def expected (signature : Signature) : String :=
  match signature.most with
  | some most =>
    if most = signature.least then toString most
    else s!"{signature.least} to {most}"
  | none => s!"at least {signature.least}"

end Signature

/-! ## Calls -/

/-- The meaning of a binary operator. -/
abbrev Operator := Value → Value → Settings → Traced Value

/-- A function of templates. -/
structure Function where
  /-- The numbers of arguments that are checked before a call; none are without it. -/
  signature : Option Signature
  /-- What the function does with its arguments. -/
  run : List Value → Settings → Traced Value

namespace Function

/-- The error of a call with `count` arguments, if the signature does not allow it. -/
def countError? (function : Function) (count : Nat) : Option Error :=
  match function.signature with
  | none => none
  | some signature =>
    if signature.accepts count then none
    else some (.argumentCount signature.name signature.expected count)

/-- A call: the number of arguments is checked, then the function runs. -/
def apply (function : Function) (arguments : List Value) (settings : Settings) : Traced Value :=
  match function.countError? arguments.length with
  | some error => .fail error
  | none => function.run arguments settings

end Function

end Stencil
