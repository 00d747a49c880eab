import Stencil.Function.Arithmetic
import Stencil.Path
/-!
# Functions, operators and resolvers for hosts

What no engine has from the start. A host may register the functions and operators under names and
symbols of its choice, and may let an engine follow paths in its own way.

* `Operator.remainder` — the remainder of two decimals, by `Decimal.rem?`. It is exact for divisors
  of up to two words of 32 bits (`rem?_exact`). For longer ones it is what long division leaves when
  a word of the quotient is estimated from the leading words, and the estimate itself has to fit in
  a word.
* `Json.resolveIgnoringCase` — paths with object keys compared without regard to ASCII case.
-/

namespace Stencil

/-! ## Functions -/

namespace Function

/-- The function with the same value for all arguments. -/
def constant (value : Value) : Function := ⟨none, fun _ _ => pure value⟩

/-- The texts of the arguments with bars between them. -/
def joinTexts : Function :=
  ⟨none, fun arguments _ => pure (.string ("|".intercalate (arguments.map Value.toText)))⟩

/-- The names of the types of the arguments with commas between them. -/
def typeNames : Function :=
  ⟨none, fun arguments _ => pure (.string (",".intercalate (arguments.map Value.typeName)))⟩

/-- Twice the first argument. -/
def double : Function :=
  ⟨none, fun arguments settings => do
    let value ← .ofExcept ((arguments.headD .null).expectDecimal "double")
    Operator.multiply (.decimal value) (.decimal (.ofNat 2)) settings⟩

/-- The settings with semicolons between them. -/
def describeSettings : Function :=
  ⟨none, fun _ settings => pure (.string (";".intercalate
    [toString settings.render.timeOffsetHours.toInt, settings.render.timeFormat,
     (Value.boolean settings.render.thousandsSeparator).toText,
     toString settings.evaluation.maxRecursionDepth, toString settings.evaluation.decimalScale]))⟩

/-- The function that always reports a failure. -/
def failing (message : String) : Function :=
  ⟨none, fun _ _ => .fail (.functionFailure "host" message)⟩

/-- The function whose value never has a text. -/
def unserializable : Function := ⟨none, fun _ _ => .fail (.serialization "host")⟩

/-- The number of arguments, within a signature. -/
def counted (signature : Signature) : Function :=
  ⟨some signature, fun arguments _ =>
    .ofOption (.overflow signature.name)
      ((Decimal.ofUnits? arguments.length 0).map Value.decimal)⟩

end Function

namespace Decimal

/-! ## Remainders -/

/-- The number of values of a word of 32 bits. -/
abbrev wordBase : Nat := 4294967296

/-- What is left of `total` when `divisor`, which has three words, is subtracted as often as its
leading word suggests. Of a count that is longer than a word only the lowest word is used. -/
def reduceByLead (divisor total : Nat) : Nat :=
  let low := divisor % (wordBase * wordBase)
  let lead := divisor - low
  let count := total / lead % wordBase
  (((total % lead : Nat) - (count * low : Nat) : Int) % divisor).toNat

/-- If the count fits in a word, what is left is the remainder. -/
theorem reduceByLead_eq_mod {divisor total : Nat}
    (h : total / (divisor - divisor % (wordBase * wordBase)) < wordBase) :
    reduceByLead divisor total = total % divisor := by
  simp only [reduceByLead]
  generalize low_eq : divisor % (wordBase * wordBase) = low at h ⊢
  have low_le : low ≤ divisor := low_eq ▸ Nat.mod_le _ _
  obtain ⟨lead, rfl⟩ : ∃ lead, divisor = low + lead := ⟨divisor - low, by omega⟩
  rw [Nat.add_sub_cancel_left] at h ⊢
  rw [Nat.mod_eq_of_lt h]
  have split := Nat.mod_add_div total lead
  have left_eq : ((total % lead : Nat) - (total / lead * low : Nat) : Int) =
      (total : Int) - ((low + lead : Nat) : Int) * (total / lead : Nat) := by
    have : ((total % lead : Nat) : Int) + (lead : Nat) * (total / lead : Nat) = total := by
      exact_mod_cast split
    rw [Int.natCast_add, Int.add_mul, Int.natCast_mul, Int.mul_comm _ (low : Int)]
    omega
  rw [left_eq, Int.sub_mul_emod_self_left]
  omega

/-- The remainder that long division of a number of `words` words leaves. -/
def longRemainder (divisor : Nat) : (words : Nat) → (dividend : Nat) → Nat
  | 0, _ => 0
  | words + 1, dividend =>
    let carried := longRemainder divisor words (dividend / wordBase)
    reduceByLead divisor (carried * wordBase + dividend % wordBase)

/-- The remainder of two magnitudes. Those of three words are first scaled by a power of two, so
that the divisor has 96 bits; the dividend then has at most seven words. -/
def natRemainder (dividend divisor : Nat) : Nat :=
  if divisor < wordBase * wordBase then dividend % divisor
  else
    let factor := Nat.pow 2 (95 - divisor.log2)
    longRemainder (divisor * factor) 7 (dividend * factor) / factor

/-- The remainder of the division with the quotient rounded toward zero; it has the sign of the
dividend. The divisor is not zero. A dividend smaller than the divisor stays as it is. -/
def rem? (a b : Decimal) : Option Decimal :=
  let places := max a.scale b.scale
  let dividend := a.units.natAbs * pow10 (places - a.scale)
  let divisor := b.units.natAbs * pow10 (places - b.scale)
  if dividend < divisor then some a
  else ofUnits? (a.units.sign * natRemainder dividend divisor) places

/-- The remainder of two whole numbers has the sign of the first. -/
theorem tmod_eq_sign_mul (n m : Int) : n.tmod m = n.sign * ↑(n.natAbs % m.natAbs) := by
  -- the cases of the definition, with zero apart, which has no sign
  match n with
  | .ofNat 0 => rw [show Int.ofNat 0 = 0 from rfl, Int.zero_tmod, Int.sign_zero, Int.zero_mul]
  | .ofNat (n + 1) => cases m <;> exact (Int.one_mul _).symm
  | .negSucc n => cases m <;> exact (Int.neg_one_mul _).symm

/-- The remainder of a division by at most two words is exact: at the places of both operands it is
what the quotient, rounded toward zero, leaves of the dividend. -/
theorem rem?_exact {a b r : Decimal} (h : a.rem? b = some r)
    (hshort : b.units.natAbs * pow10 (max a.scale b.scale - b.scale) < wordBase * wordBase) :
    r.units * pow10 (max a.scale b.scale - r.scale) =
      (a.units * pow10 (max a.scale b.scale - a.scale)).tmod
        (b.units * pow10 (max a.scale b.scale - b.scale)) := by
  have hsign : (a.units * pow10 (max a.scale b.scale - a.scale)).sign = a.units.sign := by
    rw [Int.sign_mul, Int.sign_natCast_of_ne_zero (Nat.ne_of_gt (pow10_pos _)), Int.mul_one]
  simp only [rem?] at h
  rw [tmod_eq_sign_mul, Int.natAbs_mul, Int.natAbs_mul, Int.natAbs_natCast, Int.natAbs_natCast, hsign]
  split at h
  · next hless =>
    cases h
    rw [Nat.mod_eq_of_lt hless, Int.natCast_mul, ← Int.mul_assoc, Int.sign_mul_natAbs]
  · rw [natRemainder, if_pos hshort] at h
    obtain ⟨hunits, hscale⟩ := ofUnits?_eq_some_iff.mp h
    rw [hunits, hscale, Nat.sub_self, pow10_zero, Int.natCast_one, Int.mul_one]

end Decimal

/-! ## Operators -/

namespace Operator

/-- The remainder of the quotient rounded toward zero. -/
def remainder : Operator := ofDecimals "%" fun a b _ => do
  if b.isZero then throw .divisionByZero
  checked "%" (a.rem? b)

/-- Whether two values are the same. -/
def equal : Operator := fun left right _ => pure (.boolean (left.same right))

/-- The texts of two values, one after the other. -/
def concat : Operator := fun left right _ => pure (.string (left.toText ++ right.toText))

/-- The left value, or the right one if the left one is null. -/
def coalesce : Operator := fun left right _ => pure (if left.isNull then right else left)

/-- Whether both of two truth values hold. -/
def and : Operator := fun left right _ =>
  match left, right with
  | .boolean a, .boolean b => pure (.boolean (a && b))
  | _, _ => .fail (.typeError "&& expects booleans")

end Operator

/-! ## Resolvers -/

namespace Json

/-- Whether two texts differ at most in the case of ASCII letters. -/
def sameIgnoringCase (a b : String) : Bool :=
  a.toList.map Char.toLower == b.toList.map Char.toLower

/-- The part of a document that segments name. Of an object it is under the first key that agrees
with the segment but for case; in every other document a segment counts as a path of its own. -/
def followIgnoringCase : Json → List String → Option Json
  | document, [] => some document
  | .object members, segment :: segments => do
    let member ← members.find? fun member => sameIgnoringCase member.1 segment
    followIgnoringCase member.2 segments
  | document, segment :: segments => do followIgnoringCase (← document.resolve segment) segments

/-- The part of a document that a path names, with object keys compared without regard to case. -/
def resolveIgnoringCase (document : Json) (path : String) : Option Json :=
  document.followIgnoringCase (splitPath path)

end Json

end Stencil
