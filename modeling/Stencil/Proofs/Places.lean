import Stencil.Proofs.DoubleRounding

/-!
# Rounding to places

`round` takes the places of a decimal away, and to round to tens or hundreds it divides by them
first, rounds the quotient and multiplies again. The division rounds as well, but to so many places
that it matters for very few values:

* **`powerOfTen?_eq`**, **`mul?_of_whole`** — the factor and the product are exact.
* **`JustBelowHalf`**, **`doublyRounded_zero_iff`** — the values whose quotient is rounded twice.
* **`roundTo?_tens`** — what rounding to a power of ten gives.
* **`round_nearest`** — the function `round`, for up to 28 places or tens.
* **`round_saturates`** — the function `round` beyond that, where the number of places is cut off.
* **`toRat_roundTo?_tens_iff`** — the values that 28 tens leave as they are, with any way to write
  zero.
-/

namespace Stencil

namespace Decimal

/-! ## Powers of ten -/

/-- Products of whole numbers are exact. -/
theorem mul?_of_whole {a b : Decimal} (ha : a.scale = 0) (hb : b.scale = 0) :
    a.mul? b = ofUnits? (a.units * b.units) 0 := by
  unfold mul?
  split
  · next hzero =>
    have hproduct : a.units * b.units = 0 := by
      rw [Bool.or_eq_true] at hzero
      exact Int.mul_eq_zero.mpr (hzero.imp eq_zero_of_isZero eq_zero_of_isZero)
    rw [hproduct]
    rfl
  · have hone : halfEven (a.units * b.units).natAbs 1 = (a.units * b.units).natAbs := by
      simpa using halfEven_mul_self (a.units * b.units).natAbs (d := 1) (by decide)
    dsimp only
    rw [ha, hb, Nat.add_zero, ofRatio?, pow10_zero, hone, Int.sign_mul_natAbs]

theorem exists_whole {n : ℤ} (h : n.natAbs < unitBound) :
    ∃ d : Decimal, d.units = n ∧ d.scale = 0 :=
  ⟨⟨n, 0, h, Nat.zero_le _⟩, rfl, rfl⟩

/-- All powers of ten up to the largest number of places are within the bound, for there are 29
digits in it. -/
theorem pow10_lt_unitBound {j : ℕ} (hj : j ≤ maxScale) : pow10 j < unitBound := by
  have hlast : pow10 j ≤ pow10 maxScale := Nat.pow_le_pow_right (by decide) hj
  exact hlast.trans_lt (by decide)

/-- The factor is made by repeated multiplication, each step of which is exact. Induction on the
exponent. -/
theorem powerOfTen?_eq {j : ℕ} (hj : j ≤ maxScale) :
    ∃ factor, powerOfTen? j = some factor ∧ factor.units = pow10 j ∧ factor.scale = 0 := by
  induction j with
  | zero => exact ⟨ofNat 1, rfl, rfl, rfl⟩
  | succ j ih =>
    obtain ⟨factor, hfactor, hunits, hscale⟩ := ih (by omega)
    obtain ⟨next, hnext, hwhole⟩ := exists_whole (n := pow10 (j + 1)) (pow10_lt_unitBound hj)
    refine ⟨next, ?_, hnext, hwhole⟩
    have hproduct : next.units = factor.units * (ofNat 10).units := by
      rw [hnext, hunits, pow10_succ]
      rfl
    rw [powerOfTen?, hfactor]
    exact (mul?_of_whole hscale rfl).trans (ofUnits?_eq_some_iff.mpr ⟨hproduct, hwhole⟩)

theorem toRat_of_scale_zero {d : Decimal} (h : d.scale = 0) : d.toRat = d.units := by
  rw [toRat, h, pow10_zero, Nat.cast_one, div_one]

theorem scale_round_zero (d : Decimal) : (d.round 0).scale = 0 := by
  rcases Nat.eq_zero_or_pos d.scale with hzero | hpos
  · rw [round, dif_pos (by omega), hzero]
  · exact scale_round_of_lt hpos

end Decimal

open Decimal

/-! ## Values just below half a unit

The quotient by a power of ten keeps as many places as fit, so it is exact unless the value has
places at the far end of the range. Rounding it first can then lift it onto the midpoint, and that
happens in one small interval of values, on either side of zero, and nowhere else. -/

/-- For a unit above one: counted in it, the value has the size `0.5` without half a unit of the
last place, or is between that and `0.5`. -/
structure JustBelowHalf (unit v : ℚ) : Prop where
  one_lt : 1 < unit
  le : (1 / 2 - 1 / 2 / pow10 maxScale) * unit ≤ |v|
  lt : |v| < 1 / 2 * unit

/-- Every value of the interval is rounded twice. The first rounding goes to 28 places, and the
midpoint, `5 * 10 ^ 27` units of the last of them, is the whole number next to the value; from the
midpoint the second rounding goes up, where the value itself would have gone down. -/
theorem JustBelowHalf.doublyRounded {v : ℚ} {j : ℕ} (h : JustBelowHalf (pow10 j) v) :
    DoublyRounded 0 (v / pow10 j) := by
  have hpow := pow10_pos_rat j
  have hquotient : |v / pow10 j| = |v| / pow10 j := by rw [abs_div, abs_of_pos hpow]
  have hle : 1 / 2 - 1 / 2 / pow10 maxScale ≤ |v / pow10 j| := by
    rw [hquotient, le_div_iff₀ hpow]
    exact h.le
  have hlt : |v / pow10 j| < 1 / 2 := by
    rw [hquotient, div_lt_iff₀ hpow]
    exact h.lt
  -- in units of the last place the midpoint is the whole number to which the first rounding goes
  refine @DoublyRounded.below 0 _ maxScale ⟨Nat.le_refl _, ?_, .inl rfl⟩ (5 * pow10 27) 0
    ⟨?_, fun _ => by decide⟩ ?_ ?_
  · norm_num [pow10] at hlt ⊢
    linarith
  · norm_num [pow10] at hle hlt ⊢
    rw [abs_le]
    constructor <;> linarith
  · norm_num [pow10]
  · norm_num [pow10] at hlt ⊢
    exact hlt

section Quotient

variable (d : Decimal) (j : ℕ)

/-- The digits of the quotient are those of the value. Division by a power of ten moves the point
and nothing else. -/
theorem abs_quotient : |d.toRat / pow10 j| * pow10 (d.scale + j) = d.units.natAbs := by
  have hpow := pow10_pos_rat j
  have hscale := pow10_pos_rat d.scale
  rw [toRat, abs_div, abs_div, abs_of_pos hpow, abs_of_pos hscale, pow10_add, Nat.cast_natAbs,
    Int.cast_abs]
  -- a power of ten with the sum of the exponents cancels both divisors
  push_cast
  field_simp

/-- So at the places it needs, the quotient is within the range of a decimal. -/
theorem abs_quotient_le : |d.toRat / pow10 j| * pow10 (d.scale + j) ≤ unitBound - 1 := by
  have hunits : d.units.natAbs + 1 ≤ unitBound := d.units_lt
  have hunits' : (d.units.natAbs : ℚ) + 1 ≤ unitBound := by exact_mod_cast hunits
  rw [abs_quotient]
  linarith

variable {d j}

/-- Up to the last place, the widest places of such a quotient are enough for all of it: if another
place would fit, the quotient has ended already. -/
theorem widest_quotient {widest : ℕ} (h : Widest (d.toRat / pow10 j) widest) :
    d.scale + j ≤ widest ∨ widest = maxScale := by
  rcases h.more with hlast | hmore
  · exact .inr hlast
  · left
    by_contra hfew
    have hmono : |d.toRat / pow10 j| * pow10 (widest + 1) ≤
        |d.toRat / pow10 j| * pow10 (d.scale + j) :=
      mul_le_mul_of_nonneg_left (pow10_mono (by omega)) (abs_nonneg _)
    have hle := abs_quotient_le d j
    generalize (unitBound : ℚ) = bound at *
    linarith

/-- And no other value is rounded twice. A first rounding that keeps all places changes nothing, so
it was to 28 places; a midpoint other than one half would need more digits in front of the point
than a value that needs 29 places has. -/
theorem justBelowHalf_of_doublyRounded (hj : 0 < j) (h : DoublyRounded 0 (d.toRat / pow10 j)) :
    JustBelowHalf (pow10 j) d.toRat := by
  have hpow := pow10_pos_rat j
  have hvalue : |d.toRat| = |d.toRat / pow10 j| * pow10 j := by
    rw [abs_div, abs_of_pos hpow, div_mul_cancel₀ _ hpow.ne']
  have hunits := abs_quotient d j
  have hbound := abs_quotient_le d j
  -- a tie that goes to even needs an exact quotient with a place behind the point
  cases h with
  | even hwidest =>
    rcases widest_quotient hwidest with hexact | hlast
    · omega
    · cases hlast
  | @below widest hwidest units n hnear hmidpoint hlt =>
    have hplaces := pow10_pos_rat widest
    rw [pow10_zero, Nat.cast_one, div_one, div_eq_iff hplaces.ne'] at hmidpoint
    rw [pow10_zero, Nat.cast_one, div_one] at hlt
    obtain ⟨hlow, hhigh⟩ := abs_le.mp hnear.near
    rcases Nat.lt_or_ge widest (d.scale + j) with hmany | hexact
    · obtain rfl : widest = maxScale := (widest_quotient hwidest).resolve_left (by omega)
      have hnext : |d.toRat / pow10 j| * pow10 (maxScale + 1) ≤ unitBound - 1 :=
        (mul_le_mul_of_nonneg_left (pow10_mono hmany) (abs_nonneg _)).trans hbound
      rw [hmidpoint] at hlow
      norm_num [pow10] at hlow hnext
      -- the value would be out of range near a larger midpoint
      obtain rfl : n = 0 := by
        have hsmall : (n : ℚ) < 1 := by linarith
        have : n < 1 := by exact_mod_cast hsmall
        omega
      rw [Nat.cast_zero, zero_add] at hlow hlt
      refine ⟨by exact_mod_cast Nat.one_lt_pow hj.ne' (by decide : 1 < 10), ?_, ?_⟩ <;> rw [hvalue]
      · refine mul_le_mul_of_nonneg_right ?_ hpow.le
        norm_num [pow10]
        linarith
      · exact mul_lt_mul_of_pos_right hlt hpow
    · -- an exact quotient does not go up to a midpoint
      obtain ⟨more, rfl⟩ := Nat.exists_eq_add_of_le hexact
      have hwhole : |d.toRat / pow10 j| * pow10 (d.scale + j + more) =
          (d.units.natAbs * pow10 more : ℕ) := by
        rw [pow10_add, Nat.cast_mul, ← mul_assoc, hunits, Nat.cast_mul]
      rw [hwhole] at hlow hhigh
      have hsame : ((d.units.natAbs * pow10 more : ℕ) : ℤ) = units :=
        eq_of_lt_add_one (by rw [Int.cast_natCast]; linarith) (by rw [Int.cast_natCast]; linarith)
      rw [← hsame, Int.cast_natCast, ← hwhole] at hmidpoint
      exact absurd (mul_right_cancel₀ hplaces.ne' hmidpoint) hlt.ne

/-- The general condition on two roundings, worked out for a power of ten as the divisor. -/
theorem doublyRounded_zero_iff (hj : 0 < j) :
    DoublyRounded 0 (d.toRat / pow10 j) ↔ JustBelowHalf (pow10 j) d.toRat :=
  ⟨justBelowHalf_of_doublyRounded hj, JustBelowHalf.doublyRounded⟩

end Quotient

/-! ## The function

`round` has its places as an argument, of which it takes the integer part. Up to 28 it rounds to
that many places, down to -28 to that many tens. -/

/-- The nearest whole number of a value that is not larger than a decimal is in range. -/
theorem natAbs_lt_unitBound {d : Decimal} {q : ℚ} {m : ℤ} (hq : |q| ≤ |d.toRat|)
    (hm : RoundsTo 1 q m) : m.natAbs < unitBound := by
  have hlt : |(m : ℚ)| < unitBound := by
    have hdistance := abs_sub_abs_le_abs_sub (m : ℚ) q
    rw [abs_sub_comm] at hdistance
    have hnear := hm.near
    have hbound := abs_toRat_le_bound d
    generalize (unitBound : ℚ) = bound at *
    linarith
  rw [← Int.cast_abs, Int.abs_eq_natAbs, Int.cast_natCast] at hlt
  exact_mod_cast hlt

/-- To round to a power of ten, the value is counted in it, and the count is a whole number that is
nearest, but for values just below half of it, where it is off by one away from zero. What is left
is the product, which is out of range or exact. -/
theorem roundTo?_tens (d : Decimal) {j : ℕ} (hj : 0 < j) (hj' : j ≤ maxScale) :
    ∃ m n : ℤ, RoundsTo (pow10 j) d.toRat (m * pow10 j) ∧
      d.roundTo? (-j) = ofUnits? (n * pow10 j) 0 ∧
      (n = m ∧ ¬ JustBelowHalf (pow10 j) d.toRat ∨
        |(n : ℚ) - m| = 1 ∧ 0 ≤ d.toRat * n ∧ JustBelowHalf (pow10 j) d.toRat) := by
  have hpow := pow10_pos_rat j
  obtain ⟨factor, hfactor, hunits, hscale⟩ := powerOfTen?_eq hj'
  have hvalue : factor.toRat = pow10 j := by
    rw [toRat_of_scale_zero hscale, hunits, Int.cast_natCast]
  have hone : pow10 factor.scale ≤ factor.units.natAbs := by
    rw [hscale, hunits, Int.natAbs_natCast]
    exact pow10_pos j
  have hzero : factor.units ≠ 0 := by
    have := pow10_pos j
    omega
  obtain ⟨p, hp⟩ := Option.ne_none_iff_exists'.mp (div?_ne_none d hone)
  obtain ⟨widest, units, hwidest, hnearest, hpvalue⟩ := div?_nearest hzero hp
  rw [hvalue] at hwidest hnearest
  -- the nearest count is a decimal, so what is known of two roundings applies to it
  obtain ⟨m, hm⟩ := RoundsTo.exists_multiple (show (0 : ℚ) < 1 / pow10 0 by norm_num)
    (d.toRat / pow10 j)
  rw [pow10_zero, Nat.cast_one, div_one, mul_one] at hm
  have hfits := natAbs_lt_unitBound (d := d) (by
    rw [abs_div, abs_of_pos hpow]
    exact div_le_self (abs_nonneg _) (one_le_pow10 j)) hm
  obtain ⟨c, hc, hcscale⟩ := exists_whole hfits
  have hcvalue : c.toRat = m := by rw [toRat_of_scale_zero hcscale, hc]
  have hround := roundsTo_round p 0
  rw [toRat_of_scale_zero (scale_round_zero p)] at hround
  have htwice := rounded_twice hwidest hnearest hpvalue (c := c)
    (by rw [hcvalue, pow10_zero, Nat.cast_one, div_one]; exact hm) hround
  rw [hcvalue, doublyRounded_zero_iff hj, pow10_zero, Nat.cast_one, div_one] at htwice
  refine ⟨m, (p.round 0).units, ?_, ?_, ?_⟩
  · have hscaled := hm.scale hpow
    rwa [one_mul, div_mul_cancel₀ _ hpow.ne'] at hscaled
  · have hnegative : ¬ 0 ≤ -(j : ℤ) := by omega
    rw [← hunits, ← mul?_of_whole (scale_round_zero p) hscale]
    simp only [roundTo?, hnegative, if_false, Int.natAbs_neg, Int.natAbs_natCast, hfactor, hp,
      Option.bind_eq_bind, Option.bind_some]
  · have hside := mul_nonneg_of_rounded_twice hnearest hpvalue hround
    rw [div_mul_eq_mul_div, le_div_iff₀ hpow, zero_mul] at hside
    exact htwice.imp (fun ⟨hsame, hnot⟩ => ⟨by exact_mod_cast hsame, hnot⟩)
      fun ⟨hnext, hbelow⟩ => ⟨hnext, hside, hbelow⟩

/-- Zero is the nearest multiple of a value just below half a unit. -/
theorem JustBelowHalf.multiple_eq_zero {unit v : ℚ} (h : JustBelowHalf unit v) {m : ℤ}
    (hm : RoundsTo unit v (m * unit)) : m = 0 := by
  have hunit : 0 < unit := zero_lt_one.trans h.one_lt
  have hzero : RoundsTo unit v ((0 : ℤ) * unit) := by
    have hlt := h.lt
    refine ⟨⟨0, rfl⟩, ?_, fun htie => ?_⟩ <;> rw [Int.cast_zero, zero_mul, sub_zero] at *
    · linarith
    · linarith
  have := mul_right_cancel₀ hunit.ne' (hm.unique hunit hzero)
  exact_mod_cast this

/-- An overflow means that no decimal at all has the value, not only that none without places has
it. -/
theorem not_exists_of_ofUnits?_eq_none {n : ℤ} (h : ofUnits? n 0 = none) (c : Decimal) :
    c.toRat ≠ n := by
  intro hc
  have hlarge : ¬ n.natAbs < unitBound := fun hlt =>
    ofUnits?_eq_none_iff.mp h ⟨hlt, Nat.zero_le _⟩
  have hlarge' : (unitBound : ℚ) ≤ n.natAbs := by exact_mod_cast Nat.le_of_not_lt hlarge
  have hle := abs_toRat_le_bound c
  rw [hc, ← Int.cast_abs, Int.abs_eq_natAbs, Int.cast_natCast] at hle
  generalize (unitBound : ℚ) = bound at *
  linarith

theorem places_of_trunc {p : Decimal} (hlow : -28 ≤ p.trunc) (hhigh : p.trunc ≤ 28) :
    p.places = p.trunc := by
  rw [places, if_pos (by omega), maxPlaces]
  omega

/-- The call, once both arguments are decimals. Only the last step can fail. -/
theorem call_round {value places : Value} {d p : Decimal} (hd : value.toDecimal? = some d)
    (hp : places.toDecimal? = some p) (settings : Settings) :
    Vocabulary.standard.call "round" [value, places] settings =
      match d.roundTo? p.places with
      | some result => pure (.decimal result)
      | none => .fail (.overflow "round") := by
  have hd' : value.expectDecimal "round" = .ok d := Clock.expectDecimal_eq_ok_iff.mpr hd
  have hp' : places.expectDecimal "round" = .ok p := Clock.expectDecimal_eq_ok_iff.mpr hp
  show Function.round.run [value, places] settings = _
  unfold Function.round
  simp only [hd', hp', bind, Except.bind]
  cases d.roundTo? p.places <;> rfl

/-- What `round` makes of the value `v`, of which `r` is the nearest multiple of `unit`. -/
inductive RoundOutcome (unit v r : ℚ) : Traced Value → Prop where
  | nearest {result : Decimal} (hplain : ¬ JustBelowHalf unit v) (hvalue : result.toRat = r) :
      RoundOutcome unit v r (pure (.decimal result))
  | overflow (hplain : ¬ JustBelowHalf unit v) (hnone : ∀ c : Decimal, c.toRat ≠ r) :
      RoundOutcome unit v r (.fail (.overflow "round"))
  /-- A whole unit, on the side of the value, instead of zero. -/
  | unit {result : Decimal} (hbelow : JustBelowHalf unit v) (hzero : r = 0)
      (hvalue : |result.toRat| = unit) (hside : 0 ≤ v * result.toRat) :
      RoundOutcome unit v r (pure (.decimal result))

/-- **The three outcomes for tens.** The nearest count gives the nearest multiple, or an overflow if
the product of count and power is out of range, and then no decimal has that value. The other count
occurs next to zero only, and one unit is always in range. -/
theorem roundOutcome_tens (d : Decimal) {j : ℕ} (hj : 0 < j) (hj' : j ≤ maxScale) :
    ∃ r, RoundsTo (pow10 j) d.toRat r ∧ RoundOutcome (pow10 j) d.toRat r
      (match d.roundTo? (-j) with
      | some result => pure (.decimal result)
      | none => .fail (.overflow "round")) := by
  have hpow := pow10_pos_rat j
  obtain ⟨m, n, hm, hround, hcases⟩ := roundTo?_tens d hj hj'
  rw [hround]
  refine ⟨m * pow10 j, hm, ?_⟩
  -- the nearest count, or the one next to it
  rcases hcases with ⟨rfl, hplain⟩ | ⟨hnext, hside, hbelow⟩
  · cases hresult : ofUnits? (n * pow10 j) 0 with
    | some result =>
      obtain ⟨hunits, hscale⟩ := ofUnits?_eq_some_iff.mp hresult
      refine .nearest hplain ?_
      rw [toRat_of_scale_zero hscale, hunits, Int.cast_mul, Int.cast_natCast]
    | none =>
      refine .overflow hplain fun c => ?_
      have hnone := not_exists_of_ofUnits?_eq_none hresult c
      rwa [Int.cast_mul, Int.cast_natCast] at hnone
  · obtain rfl := hbelow.multiple_eq_zero hm
    rw [Int.cast_zero, sub_zero, ← Int.cast_abs] at hnext
    have hsize : |n| = 1 := by exact_mod_cast hnext
    have hfits : (n * pow10 j : ℤ).natAbs < unitBound := by
      have hsize' : n.natAbs = 1 := by
        rw [Int.abs_eq_natAbs] at hsize
        exact_mod_cast hsize
      rw [Int.natAbs_mul, Int.natAbs_natCast, hsize', Nat.one_mul]
      exact pow10_lt_unitBound hj'
    obtain ⟨result, hunits, hscale⟩ := exists_whole hfits
    rw [ofUnits?_eq_some_iff.mpr ⟨hunits, hscale⟩]
    have hvalue : result.toRat = n * pow10 j := by
      rw [toRat_of_scale_zero hscale, hunits, Int.cast_mul, Int.cast_natCast]
    refine .unit hbelow (by rw [Int.cast_zero, zero_mul]) ?_ ?_
    · rw [hvalue, abs_mul, ← Int.cast_abs, hsize, Int.cast_one, one_mul, abs_of_pos hpow]
    · rw [hvalue, ← mul_assoc]
      exact mul_nonneg hside hpow.le

/-- **`round` gives the nearest multiple** of the power of ten that its places stand for, a half
away from zero, and an overflow exactly if no decimal has that value. The exception are values just
below half of a power of ten above one, for which it gives one unit instead of zero. To places
nothing is divided, so the exception is about tens only. -/
theorem round_nearest {value places : Value} {d p : Decimal} (hd : value.toDecimal? = some d)
    (hp : places.toDecimal? = some p) (hlow : -28 ≤ p.trunc) (hhigh : p.trunc ≤ 28)
    (settings : Settings) :
    ∃ r, RoundsTo (10 ^ (-p.trunc)) d.toRat r ∧
      RoundOutcome (10 ^ (-p.trunc)) d.toRat r
        (Vocabulary.standard.call "round" [value, places] settings) := by
  rw [call_round hd hp, places_of_trunc hlow hhigh]
  -- tens on the negative side, places on the other
  rcases lt_or_ge p.trunc 0 with hneg | hpos
  · obtain ⟨j, hj⟩ := Int.eq_ofNat_of_zero_le (show 0 ≤ -p.trunc by omega)
    have hunit : (10 : ℚ) ^ (-p.trunc) = pow10 j := by
      rw [hj, zpow_natCast]
      norm_num [pow10]
    have hj' : j ≤ 28 := by omega
    rw [hunit, show p.trunc = -(j : ℤ) by omega]
    exact roundOutcome_tens d (by omega) hj'
  · obtain ⟨k, hk⟩ := Int.eq_ofNat_of_zero_le hpos
    have hunit : (10 : ℚ) ^ (-p.trunc) = 1 / pow10 k := by
      rw [hk, zpow_neg, zpow_natCast, one_div]
      norm_num [pow10]
    have hplain : ¬ JustBelowHalf (1 / pow10 k) d.toRat := fun hbelow =>
      absurd hbelow.one_lt (not_lt.mpr ((div_le_one (pow10_pos_rat k)).mpr (one_le_pow10 k)))
    rw [hunit, hk, roundTo?, if_pos (by omega), Int.toNat_natCast]
    exact ⟨(d.round k).toRat, roundsTo_round d k, .nearest hplain rfl⟩

/-- A midpoint in thousands, with text for both arguments and a fraction in the number of places. -/
theorem round_nearest_thousands :
    ∃ r, RoundsTo (10 ^ (3 : ℤ)) (ofNat 2500).toRat r ∧
      RoundOutcome (10 ^ (3 : ℤ)) (ofNat 2500).toRat r
        (Vocabulary.standard.call "round" [.string "2500", .string "-3.0"] ⟨{}, {}⟩) :=
  have hvalue : (Value.string "2500").toDecimal? = some (ofNat 2500) := by decide +kernel
  have hplaces : (Value.string "-3.0").toDecimal? = some ⟨-30, 1, by decide, by decide⟩ := by
    decide +kernel
  round_nearest hvalue hplaces (by decide) (by decide) ⟨{}, {}⟩

/-- The nearest multiple of ten is zero, but the quotient, which has one place more than fits, is
rounded up to one half first, and that is rounded to one. -/
theorem round_just_below_five :
    RoundsTo (10 ^ (1 : ℤ)) (⟨49999999999999999999999999999, 28, by decide, by decide⟩ : Decimal).toRat
      zero.toRat ∧
    ∃ result, Vocabulary.standard.call "round"
        [.decimal ⟨49999999999999999999999999999, 28, by decide, by decide⟩,
          .decimal ⟨-1, 0, by decide, by decide⟩] ⟨{}, {}⟩ = pure (.decimal result) ∧
      result.toRat = 10 := by
  constructor
  · refine ⟨⟨0, ?_⟩, ?_, fun htie => absurd htie ?_⟩ <;>
      norm_num [toRat, ofNat, zero, pow10, abs_of_pos]
  · have hdivide : div? ⟨49999999999999999999999999999, 28, by decide, by decide⟩ (ofNat 10) =
        some ⟨500000000000000000000, 21, by decide, by decide⟩ := by
      rw [div?_of_places (by decide) (by decide)
        (show quotientPlaces _ _ _ = 28 by rw [quotientPlaces]; rfl)]
      decide +kernel
    have hround : roundTo? ⟨49999999999999999999999999999, 28, by decide, by decide⟩ (-1) =
        some (ofNat 10) := by
      rw [roundTo?, if_neg (by decide), show powerOfTen? _ = some (ofNat 10) from rfl]
      show ((div? _ (ofNat 10)).bind fun scaled => (scaled.round 0).mul? (ofNat 10)) = _
      rw [hdivide]
      decide +kernel
    refine ⟨ofNat 10, ?_, by norm_num [toRat, ofNat, pow10]⟩
    rw [call_round rfl rfl, show places _ = -1 from rfl, hround]

/-! ## Very many places

The number of places is cut off at 28 on both sides. It is read as a 64-bit integer first, and an
integer part that does not fit is replaced by the largest number of places whatever its sign. -/

theorem places_of_le_trunc {p : Decimal} (h : 28 ≤ p.trunc) : p.places = 28 := by
  unfold places maxPlaces
  split <;> omega

/-- An integer part that is too small for 64 bits counts as one that is too large. -/
theorem places_of_trunc_lt {p : Decimal} (h : p.trunc < -2 ^ 63) : p.places = 28 := by
  unfold places maxPlaces
  rw [if_neg (by omega)]

/-- Too many tens are 28 tens, as long as their number can be read. -/
theorem places_of_trunc_le {p : Decimal} (hword : -2 ^ 63 ≤ p.trunc) (h : p.trunc ≤ -28) :
    p.places = -28 := by
  unfold places maxPlaces
  rw [if_pos (by omega)]
  omega

/-- No decimal has more places than 28, so nothing is rounded there. -/
theorem roundTo?_maxPlaces (d : Decimal) : d.roundTo? 28 = some d := by
  rw [roundTo?, if_pos (by decide)]
  exact congrArg some (dif_pos d.scale_le)

/-- A multiple of the unit is not just below half of it. -/
theorem not_justBelowHalf_mul {unit : ℚ} (c : ℤ) : ¬ JustBelowHalf unit (c * unit) := by
  intro h
  have hunit : 0 < unit := zero_lt_one.trans h.one_lt
  have hsize : |(c : ℚ)| < 1 / 2 := by
    have hlt := h.lt
    rw [abs_mul, abs_of_pos hunit] at hlt
    exact lt_of_mul_lt_mul_right hlt hunit.le
  have hzero : c = 0 := by
    have : |(c : ℚ)| < 1 := hsize.trans (by norm_num)
    exact Int.abs_lt_one_iff.mp (by exact_mod_cast this)
  have hle := h.le
  rw [hzero, Int.cast_zero, zero_mul, abs_zero] at hle
  refine absurd hle (not_le.mpr (mul_pos ?_ hunit))
  norm_num [pow10]

/-- A multiple of a power of ten is the nearest one to itself, and written without places. It is not
just below half of that power either, so that rounding twice does it no harm. -/
theorem roundTo?_tens_of_multiple {d : Decimal} {j : ℕ} {c : ℤ} (hj : 0 < j) (hj' : j ≤ maxScale)
    (hvalue : d.toRat = c * pow10 j) : d.roundTo? (-j) = ofUnits? (c * pow10 j) 0 := by
  have hpow := pow10_pos_rat j
  obtain ⟨m, n, hm, hround, hcases⟩ := roundTo?_tens d hj hj'
  rw [hvalue] at hm hcases
  have hmc : m = c := by
    have := mul_right_cancel₀ hpow.ne' (hm.unique hpow (.self_of_multiple hpow c))
    exact_mod_cast this
  obtain ⟨hnm, -⟩ := hcases.resolve_right fun hbelow => not_justBelowHalf_mul c hbelow.2.2
  rw [hround, hnm, hmc]

/-- What rounding to a power of ten leaves as it is: its multiples, written without places. -/
theorem roundTo?_tens_eq_self_iff (d : Decimal) {j : ℕ} (hj : 0 < j) (hj' : j ≤ maxScale) :
    d.roundTo? (-j) = some d ↔ d.scale = 0 ∧ (pow10 j : ℤ) ∣ d.units := by
  constructor
  · intro hself
    obtain ⟨m, n, -, hround, -⟩ := roundTo?_tens d hj hj'
    rw [hround, ofUnits?_eq_some_iff] at hself
    exact ⟨hself.2, Dvd.intro_left n hself.1.symm⟩
  · rintro ⟨hscale, hdvd⟩
    obtain ⟨c, hc⟩ := exists_eq_mul_left_of_dvd hdvd
    rw [roundTo?_tens_of_multiple (c := c) hj hj'
      (by rw [toRat_of_scale_zero hscale, hc, Int.cast_mul, Int.cast_natCast]), ofUnits?_eq_some_iff]
    exact ⟨hc, hscale⟩

/-- The values that rounding to 28 tens does not change. Zero is one of them, with any places; other
values have none, as 28 tens and a place together are more digits than a decimal has. So compared by
value, only the zeros join those of `roundTo?_tens_eq_self_iff`. -/
theorem toRat_roundTo?_tens_iff {d result : Decimal} (h : d.roundTo? (-(28 : ℕ)) = some result) :
    result.toRat = d.toRat ↔ d.units = 0 ∨ d.scale = 0 ∧ (pow10 28 : ℤ) ∣ d.units := by
  constructor
  · intro hsame
    obtain ⟨m, n, -, hround, -⟩ := roundTo?_tens d (j := 28) (by decide) le_rfl
    obtain ⟨hunits, hscale⟩ := ofUnits?_eq_some_iff.mp (hround.symm.trans h)
    rw [toRat_of_scale_zero hscale, hunits, toRat, eq_div_iff (pow10_pos_rat _).ne'] at hsame
    -- the value is a whole number of 28 tens, with zeros for its places
    have hdigits : d.units = n * pow10 28 * pow10 d.scale := by exact_mod_cast hsame.symm
    rcases Nat.eq_zero_or_pos d.scale with hzero | hpos
    · rw [hzero, pow10_zero, Nat.cast_one, mul_one] at hdigits
      exact .inr ⟨hzero, Dvd.intro_left n hdigits.symm⟩
    · left
      -- with a place there are at least 29 zeros, unless the number in front of them is none
      have hten : pow10 1 ≤ pow10 d.scale := by exact_mod_cast pow10_mono hpos
      have hfits := d.units_lt
      rw [hdigits, Int.natAbs_mul, Int.natAbs_mul, Int.natAbs_natCast, Int.natAbs_natCast] at hfits
      rcases Nat.eq_zero_or_pos n.natAbs with hn | hn
      · rw [hdigits, Int.natAbs_eq_zero.mp hn, zero_mul, zero_mul]
      · have hlarge : 1 * pow10 28 * pow10 1 ≤ n.natAbs * pow10 28 * pow10 d.scale :=
          Nat.mul_le_mul (Nat.mul_le_mul_right _ hn) hten
        exact absurd (hlarge.trans_lt hfits) (by decide)
  · rintro (hzero | hself)
    · have hvalue : d.toRat = (0 : ℤ) * pow10 28 := by
        rw [toRat, hzero, Int.cast_zero, zero_div, zero_mul]
      obtain ⟨hunits, hscale⟩ := ofUnits?_eq_some_iff.mp
        ((roundTo?_tens_of_multiple (by decide) le_rfl hvalue).symm.trans h)
      rw [toRat_of_scale_zero hscale, hunits, hvalue]
      norm_num
    · rw [(roundTo?_tens_eq_self_iff d (by decide) le_rfl).mpr hself] at h
      cases h
      rfl

/-- **Very many places leave a value as it is, and very many tens are as many as 28**, but for place
counts below the 64-bit range, which leave it as it is as well: there the two agree only for values
that 28 tens leave as they are. Results are compared first with their places, which tell `0.0` from
`0`, and then by their values alone, where nothing but the zeros joins those that agree. -/
theorem round_saturates {value places : Value} {d p : Decimal} (hd : value.toDecimal? = some d)
    (hp : places.toDecimal? = some p) (settings : Settings) :
    (28 ≤ p.trunc ∨ p.trunc < -2 ^ 63 →
      Vocabulary.standard.call "round" [value, places] settings = pure (.decimal d)) ∧
    (p.trunc ≤ -28 →
      (Vocabulary.standard.call "round" [value, places] settings =
          Vocabulary.standard.call "round" [value, .decimal (.ofInt32 (-28))] settings ↔
        -2 ^ 63 ≤ p.trunc ∨ d.scale = 0 ∧ 10 ^ 28 ∣ d.units)) ∧
    (∀ result, Vocabulary.standard.call "round" [value, .decimal (.ofInt32 (-28))] settings =
        pure (.decimal result) →
      (result.toRat = d.toRat ↔ d.units = 0 ∨ d.scale = 0 ∧ 10 ^ 28 ∣ d.units)) := by
  have hself (hplaces : p.places = 28) :
      Vocabulary.standard.call "round" [value, places] settings = pure (.decimal d) := by
    rw [call_round hd hp, hplaces, roundTo?_maxPlaces]
  have hlowest : (Decimal.ofInt32 (-28)).places = -(28 : ℕ) := rfl
  have hdvd : (pow10 28 : ℤ) = 10 ^ 28 := rfl
  refine ⟨fun h => hself (h.elim places_of_le_trunc places_of_trunc_lt), fun htens => ?places,
    fun result hcall => ?value⟩
  case places =>
    rcases le_or_gt (-2 ^ 63) p.trunc with hword | hbeyond
    · rw [call_round hd hp, call_round hd rfl, places_of_trunc_le hword htens, hlowest]
      exact iff_of_true rfl (.inl hword)
    · -- below the 64-bit range the first call keeps the value, so the second one has to keep it
      rw [hself (places_of_trunc_lt hbeyond), call_round hd rfl, hlowest,
        or_iff_right (not_le.mpr hbeyond), ← hdvd, ← roundTo?_tens_eq_self_iff d (by decide) le_rfl]
      cases hresult : d.roundTo? (-(28 : ℕ)) with
      | none => exact iff_of_false (fun h => by cases congrArg Traced.result h) (by rintro ⟨⟩)
      | some result =>
        constructor
        · intro h
          cases congrArg Traced.result h
          rfl
        · rintro ⟨⟩
          rfl
  case value =>
    rw [call_round hd rfl, hlowest] at hcall
    rw [← hdvd]
    apply toRat_roundTo?_tens_iff
    cases hresult : d.roundTo? (-(28 : ℕ)) with
    | none =>
      rw [hresult] at hcall
      cases congrArg Traced.result hcall
    | some rounded =>
      rw [hresult] at hcall
      cases congrArg Traced.result hcall
      rfl

/-- A number of tens that still fits into 64 bits, with places of its own. -/
theorem round_saturates_quintillion_tens :
    Vocabulary.standard.call "round" [.string "-1250.50", .string "-1000000000000000000.9"] ⟨{}, {}⟩ =
      Vocabulary.standard.call "round" [.string "-1250.50", .decimal (.ofInt32 (-28))] ⟨{}, {}⟩ :=
  have hvalue : (Value.string "-1250.50").toDecimal? = some ⟨-125050, 2, by decide, by decide⟩ := by
    decide +kernel
  have hplaces : (Value.string "-1000000000000000000.9").toDecimal? =
      some ⟨-10000000000000000009, 1, by decide, by decide⟩ := by
    decide +kernel
  ((round_saturates hvalue hplaces ⟨{}, {}⟩).2.1 (by decide)).mpr (.inl (by decide))

/-- Rounded to 28 tens, one is zero; rounded to more tens than 64 bits can count, it is one. The
count that cannot be read is replaced by 28 places, and with them every decimal stays as it is. -/
theorem round_beyond_words :
    Vocabulary.standard.call "round"
        [.decimal (ofNat 1), .decimal ⟨-10000000000000000000, 0, by decide, by decide⟩] ⟨{}, {}⟩ =
      pure (.decimal (ofNat 1)) ∧
    Vocabulary.standard.call "round" [.decimal (ofNat 1), .decimal (.ofInt32 (-28))] ⟨{}, {}⟩ =
      pure (.decimal zero) := by
  constructor
  · rw [call_round rfl rfl, show places _ = 28 from rfl, roundTo?_maxPlaces]
  · have hfactor : powerOfTen? 28 = some ⟨10000000000000000000000000000, 0, by decide, by decide⟩ := by
      decide +kernel
    have hdivide : div? (ofNat 1) ⟨10000000000000000000000000000, 0, by decide, by decide⟩ =
        some ⟨1, 28, by decide, by decide⟩ := by
      rw [div?_of_places (by decide) (by decide)
        (show quotientPlaces _ _ _ = 28 by simp [quotientPlaces, ofNat])]
      decide +kernel
    have hround : roundTo? (ofNat 1) (-28) = some zero := by
      rw [roundTo?, if_neg (by decide)]
      show ((powerOfTen? 28).bind fun factor =>
        ((ofNat 1).div? factor).bind fun scaled => (scaled.round 0).mul? factor) = _
      rw [hfactor, Option.bind_some, hdivide]
      decide +kernel
    rw [call_round rfl rfl, show places _ = -28 from rfl, hround]

end Stencil
