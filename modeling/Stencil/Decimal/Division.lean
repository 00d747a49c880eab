import Stencil.Decimal.Basic
/-!
# Division

`div?` is the quotient of two decimals. Its value is exact or nearest; its scale follows from how
the digits are found, nine at a time, and from which of the zeros at their end are dropped again.
-/

namespace Stencil.Decimal

/-- The number of places of a quotient whose first `places` places leave the remainder `remainder`:
nine more digits at a time, until nothing remains or there is no room for another place. A quotient
that comes out short of the point is filled up to it. -/
def quotientPlaces (divisor remainder : Nat) (places : Int) : Nat :=
  if remainder = 0 ∨ 28 ≤ places then (min places 28).toNat
  else quotientPlaces divisor (remainder * 1000000000 % divisor) (places + 9)
termination_by (28 - places).toNat
decreasing_by omega

theorem natAbs_div_lt {units : Int} {count : Nat} (h : units.natAbs < unitBound) :
    (units / pow10 count).natAbs < unitBound := by
  have := pow10_pos count
  have : (units / pow10 count).natAbs ≤ units.natAbs := Int.natAbs_ediv_le_natAbs _ _
  omega

/-- The same value with `count` places less, if there are as many places and they are zeros. -/
def dropPlaces (count : Nat) (d : Decimal) : Decimal :=
  if count ≤ d.scale ∧ d.units % pow10 count = 0 then
    ⟨d.units / pow10 count, d.scale - count, natAbs_div_lt d.units_lt,
      Nat.le_trans (Nat.sub_le _ _) d.scale_le⟩
  else d

/-- The same value with eight places less, for units of which the lowest word is zero. -/
def dropEightPlaces (d : Decimal) : Decimal :=
  if d.units % 4294967296 = 0 then d.dropPlaces 8 else d

/-- The same value without most of the zeros at the end of its places: eight of them as often as the
lowest word is zero, and then four, two and one, each at most once. -/
def trimQuotient (d : Decimal) : Decimal :=
  d.dropEightPlaces.dropEightPlaces.dropEightPlaces
    |>.dropPlaces 4 |>.dropPlaces 2 |>.dropPlaces 1

/-- The quotient, for a divisor that is not zero. If the units of the divisor divide those of the
dividend, no zeros are dropped. -/
def div? (a b : Decimal) : Option Decimal :=
  if a.isZero then some zero
  else
    let remainder := a.units.natAbs % b.units.natAbs
    let places := quotientPlaces b.units.natAbs remainder (a.scale - b.scale)
    let quotient :=
      ofRatio? (a.units * pow10 b.scale * b.units.sign) (b.units.natAbs * pow10 a.scale) places
    if remainder = 0 then quotient else quotient.map trimQuotient

end Stencil.Decimal
