/-!
# Decimals

A decimal is a whole number of units of `10 ^ -scale`. The units have at most 96 bits and the scale
is at most 28, so there are finitely many decimals and arithmetic on them can overflow. Different
decimals can have the same value: `1.5` and `1.50` have different scales. There is no negative zero.

* `ofRatio?` — the decimal nearest to a ratio, at the most places that hold it; all arithmetic is
  stated through it.
* `stripZeros` — the form of least scale with the same value.
-/

namespace Stencil

/-! ## Powers of ten -/

/-- The `k`-th power of ten. -/
def pow10 (k : Nat) : Nat := Nat.pow 10 k

@[simp] theorem pow10_zero : pow10 0 = 1 := rfl

theorem pow10_succ (k : Nat) : pow10 (k + 1) = pow10 k * 10 := rfl

theorem pow10_pos (k : Nat) : 0 < pow10 k := Nat.pow_pos (by decide)

/-- A sum of exponents is a product of powers. -/
theorem pow10_add (j k : Nat) : pow10 (j + k) = pow10 j * pow10 k := Nat.pow_add 10 j k

/-! ## Units and places -/

/-- The least whole number of units that is too large for a decimal: the 96th power of two. -/
abbrev Decimal.unitBound : Nat := 79228162514264337593543950336

/-- The largest number of decimal places. -/
abbrev Decimal.maxScale : Nat := 28

/-- The decimal `units / 10 ^ scale`. -/
structure Decimal where
  /-- The value, counted in units of `10 ^ -scale`. -/
  units : Int
  /-- The number of decimal places. -/
  scale : Nat
  units_lt : units.natAbs < Decimal.unitBound
  scale_le : scale ≤ Decimal.maxScale
deriving DecidableEq, Repr

namespace Decimal

/-- The decimal with these parts, if they are in range. -/
def ofUnits? (units : Int) (scale : Nat) : Option Decimal :=
  if h : units.natAbs < unitBound ∧ scale ≤ maxScale then some ⟨units, scale, h.1, h.2⟩ else none

theorem ofUnits?_eq_some_iff {units : Int} {scale : Nat} {d : Decimal} :
    ofUnits? units scale = some d ↔ d.units = units ∧ d.scale = scale := by
  unfold ofUnits?
  constructor
  · intro h
    split at h
    · cases h; exact ⟨rfl, rfl⟩
    · cases h
  · rintro ⟨rfl, rfl⟩
    rw [dif_pos ⟨d.units_lt, d.scale_le⟩]

/-- The whole number `n`, for `n` in range. -/
def ofNat (n : Nat) (h : n < unitBound := by decide) : Decimal :=
  ⟨n, 0, by simpa using h, Nat.zero_le _⟩

/-- The whole number that a 32-bit word holds. -/
def ofInt32 (n : Int32) : Decimal :=
  ⟨n.toInt, 0, by have := n.le_toInt; have := n.toInt_lt; simp only [unitBound]; omega,
    Nat.zero_le _⟩

instance : Inhabited Decimal := ⟨ofNat 0⟩

/-- The decimal zero, without decimal places. -/
def zero : Decimal := ofNat 0

/-- Whether the value is zero, at any scale. -/
def isZero (d : Decimal) : Bool := d.units == 0

/-- The value with the other sign. -/
def neg (d : Decimal) : Decimal := ⟨-d.units, d.scale, by simpa using d.units_lt, d.scale_le⟩

/-- The order of two values, whatever their scales. -/
def cmp (a b : Decimal) : Ordering :=
  compare (a.units * pow10 b.scale) (b.units * pow10 a.scale)

/-- Whether two decimals have the same value. -/
def sameValue (a b : Decimal) : Bool := a.units * pow10 b.scale == b.units * pow10 a.scale

/-- The integer part: the value without its decimal places. -/
def trunc (d : Decimal) : Int := d.units.tdiv (pow10 d.scale)

/-- The largest whole number that is at most the value. -/
def floor (d : Decimal) : Int := d.units / pow10 d.scale

/-! ## Rounding -/

/-- The quotient `n / d` rounded to a whole number, a half to the even neighbour. -/
def halfEven (n d : Nat) : Nat :=
  let quotient := n / d
  let twice := 2 * (n % d)
  if d < twice || (twice == d && quotient % 2 == 1) then quotient + 1 else quotient

/-- The quotient `n / d` rounded to a whole number, a half upwards. -/
def halfUp (n d : Nat) : Nat := (2 * n + d) / (2 * d)

/-- Rounding a whole number to multiples of `d` does not make it larger in units of `d`. -/
theorem halfUp_le (n : Nat) {d : Nat} (h : 0 < d) : halfUp n d ≤ n := by
  unfold halfUp
  have wide : n ≤ n * d := Nat.le_mul_of_pos_right n h
  have expand : (n + 1) * (2 * d) = 2 * (n * d) + 2 * d := by
    rw [Nat.add_mul, Nat.one_mul, Nat.mul_left_comm]
  have : (2 * n + d) / (2 * d) < n + 1 := by
    rw [Nat.div_lt_iff_lt_mul (by omega), expand]
    omega
  omega

/-- The ratio `num / den` at the most decimal places, up to `places`, at which its nearest decimal
is in range; a half goes to the even neighbour. None if even the nearest whole number is too
large. -/
def ofRatio? (num : Int) (den : Nat) : (places : Nat) → Option Decimal
  | 0 => ofUnits? (num.sign * halfEven num.natAbs den) 0
  | places + 1 =>
    ofUnits? (num.sign * halfEven (num.natAbs * pow10 (places + 1)) den) (places + 1)
      <|> ofRatio? num den places

/-- `units` at `scale` places, without the zeros at the end of its decimal places. -/
def dropZeros (units : Int) : (scale : Nat) → Int × Nat
  | 0 => (units, 0)
  | scale + 1 => if units % 10 = 0 then dropZeros (units / 10) scale else (units, scale + 1)

theorem natAbs_dropZeros_le (units : Int) (scale : Nat) :
    (dropZeros units scale).1.natAbs ≤ units.natAbs := by
  induction scale generalizing units with
  | zero => exact Nat.le_refl _
  | succ scale ih =>
    unfold dropZeros
    split
    · have := ih (units / 10)
      omega
    · exact Nat.le_refl _

theorem snd_dropZeros_le (units : Int) (scale : Nat) : (dropZeros units scale).2 ≤ scale := by
  induction scale generalizing units with
  | zero => exact Nat.le_refl _
  | succ scale ih =>
    unfold dropZeros
    split
    · exact Nat.le_succ_of_le (ih _)
    · exact Nat.le_refl _

/-- The decimal of the same value without zeros at the end of its decimal places. -/
def stripZeros (d : Decimal) : Decimal :=
  ⟨(dropZeros d.units d.scale).1, (dropZeros d.units d.scale).2,
    Nat.lt_of_le_of_lt (natAbs_dropZeros_le _ _) d.units_lt,
    Nat.le_trans (snd_dropZeros_le _ _) d.scale_le⟩

theorem natAbs_sign_mul_le (n : Int) (m : Nat) : (n.sign * m).natAbs ≤ m := by
  rcases Int.lt_trichotomy n 0 with h | h | h
  · simp [Int.sign_eq_neg_one_of_neg h]
  · simp [h]
  · simp [Int.sign_eq_one_of_pos h]

/-- The value rounded to at most `places` decimal places, a half away from zero. A value with fewer
places stays as it is. -/
def round (d : Decimal) (places : Nat) : Decimal :=
  if h : d.scale ≤ places then d
  else
    ⟨d.units.sign * halfUp d.units.natAbs (pow10 (d.scale - places)), places,
      Nat.lt_of_le_of_lt (natAbs_sign_mul_le _ _)
        (Nat.lt_of_le_of_lt (halfUp_le _ (pow10_pos _)) d.units_lt),
      Nat.le_trans (Nat.le_of_lt (Nat.lt_of_not_le h)) d.scale_le⟩

/-- The nearest whole number, a half to the even neighbour. -/
def nearestInt (d : Decimal) : Int := d.units.sign * halfEven d.units.natAbs (pow10 d.scale)

/-! ## Checked arithmetic

Each operation gives the exact result if it is a decimal, and otherwise the nearest decimal at the
most places that hold it, a half going to the even neighbour. It gives none when the result is too
large for every scale. Division is in `Stencil.Decimal.Division`. -/

/-- The sum. An operand that is zero leaves the other one as it is, scale included. -/
def add? (a b : Decimal) : Option Decimal :=
  if a.isZero then some b
  else if b.isZero then some a
  else
    let places := max a.scale b.scale
    let units := a.units * pow10 (places - a.scale) + b.units * pow10 (places - b.scale)
    ofRatio? units (pow10 places) places

/-- The difference. -/
def sub? (a b : Decimal) : Option Decimal := a.add? b.neg

/-- The product. -/
def mul? (a b : Decimal) : Option Decimal :=
  if a.isZero || b.isZero then some zero
  else
    let places := a.scale + b.scale
    ofRatio? (a.units * b.units) (pow10 places) places

end Decimal

end Stencil
