import Stencil.Decimal.Division
import Stencil.Function.Basic
/-!
# Arithmetic

The operators sum, difference, product and quotient, of decimals and of strings that are numerals,
and the function `round`. `round(value, places)` rounds to decimal places, a half away from zero.
Negative places round to tens, hundreds and so on.
-/

namespace Stencil

namespace Operator

/-- The operator that takes two numbers to what `combine` makes of them. Its symbol names it in
errors. -/
def ofDecimals (symbol : String) (combine : Decimal → Decimal → Settings → Except Error Decimal) :
    Operator := fun left right settings => .ofExcept do
  let a ← left.expectDecimal symbol
  let b ← right.expectDecimal symbol
  return .decimal (← combine a b settings)

/-- The result of checked arithmetic, or the overflow of the operator. -/
def checked (symbol : String) : Option Decimal → Except Error Decimal
  | some result => .ok result
  | none => .error (.overflow symbol)

/-- The sum. -/
def add : Operator := ofDecimals "+" fun a b _ => checked "+" (a.add? b)

/-- The difference. -/
def subtract : Operator := ofDecimals "-" fun a b _ => checked "-" (a.sub? b)

/-- The product. -/
def multiply : Operator := ofDecimals "*" fun a b _ => checked "*" (a.mul? b)

/-- The quotient, rounded to the configured number of places, a half away from zero. -/
def divide : Operator := ofDecimals "/" fun a b settings => do
  if b.isZero then throw .divisionByZero
  return (← checked "/" (a.div? b)).round settings.evaluation.decimalScale

end Operator

/-! ## Rounding -/

/-- The largest number of places that values are rounded to, in either direction. -/
def Decimal.maxPlaces : Int := 28

namespace Decimal

/-- The number of places that a decimal asks for: its integer part, within the largest number in
both directions. An integer part of more than 64 bits asks for the largest number. -/
def places (d : Decimal) : Int :=
  if -9223372036854775808 ≤ d.trunc ∧ d.trunc < 9223372036854775808 then
    max (-maxPlaces) (min d.trunc maxPlaces)
  else maxPlaces

/-- The `k`-th power of ten, by repeated multiplication. -/
def powerOfTen? (k : Nat) : Option Decimal :=
  match k with
  | 0 => some (ofNat 1)
  | k + 1 => do (← powerOfTen? k).mul? (ofNat 10)

/-- The value rounded to a number of places, which may be negative; none if the result is too large
for a decimal. -/
def roundTo? (d : Decimal) (places : Int) : Option Decimal := do
  if 0 ≤ places then return d.round places.toNat
  let factor ← powerOfTen? places.natAbs
  let scaled ← d.div? factor
  (scaled.round 0).mul? factor

end Decimal

/-- The function `round`. -/
def Function.round : Function where
  signature := some (.fixed "round" 2)
  run := fun arguments _ => .ofExcept do
    match arguments with
    | [value, places] =>
      let value ← value.expectDecimal "round"
      let places ← places.expectDecimal "round"
      match value.roundTo? places.places with
      | some result => return .decimal result
      | none => throw (.overflow "round")
    | _ => throw (.argumentCount "round" "2" arguments.length)

end Stencil
