import Stencil.Decimal.Basic
import Stencil.Decimal.Division

/-!
# Which results have a decimal

A ratio is tried at fewer and fewer places, and without places its nearest whole number is all that
has to fit. So a ratio has no decimal exactly if that whole number is too large, and every bound on
the nearest whole number shows that a step of the arithmetic succeeds:

* **`ofRatio?_eq_none_iff`**, **`mul?_eq_none_iff`** — the exact conditions.
* **`div?_ne_none`** — division by one or more.
* **`ofUnits?_floor`**, **`sub?_floor`**, **`mul?_ne_none_of_isFraction`** — taking a number apart
  into whole part and fraction.
-/

namespace Stencil.Decimal

/-! ## The nearest whole number

A ratio is rounded to a whole number by its quotient and its remainder, with a half to the even
number. Two facts about this rounding are enough for everything that follows: whole numbers are
their own, and it is monotone. -/

/-- A ratio that is a whole number is rounded to itself, since its remainder is zero. -/
theorem halfEven_mul_self (n : Nat) {d : Nat} (hd : 0 < d) : halfEven (n * d) d = n := by
  have hquotient : n * d / d = n := Nat.mul_div_cancel n hd
  have hrest : n * d % d = 0 := Nat.mul_mod_left n d
  simp only [halfEven, hquotient, hrest]
  rw [if_neg]
  simp only [Nat.mul_zero, Nat.not_lt_zero, decide_false, Bool.false_or, Bool.and_eq_true,
    beq_iff_eq, not_and]
  omega

/-- Of two ratios with the same denominator the smaller one is not rounded to a larger number. -/
theorem halfEven_mono {n m : Nat} (d : Nat) (h : n ≤ m) : halfEven n d ≤ halfEven m d := by
  have hquotient : n / d ≤ m / d := Nat.div_le_div_right h
  simp only [halfEven, Bool.or_eq_true, Bool.and_eq_true, decide_eq_true_eq, beq_iff_eq]
  by_cases hsame : n / d = m / d
  · -- the same whole part: the rests decide, and both halves go to the same side
    have hn := Nat.div_add_mod n d
    have hm := Nat.div_add_mod m d
    rw [hsame] at hn ⊢
    have hrest : n % d ≤ m % d := by omega
    split <;> split <;> omega
  · -- rounding adds at most one
    split <;> split <;> omega

/-- The nearest whole number to a ratio is not above a whole number that the ratio is not above. -/
theorem halfEven_le {n d bound : Nat} (hd : 0 < d) (h : n ≤ bound * d) : halfEven n d ≤ bound :=
  calc halfEven n d ≤ halfEven (bound * d) d := halfEven_mono d h
    _ = bound := halfEven_mul_self bound hd

/-! ## Ratios

A ratio is tried with the most places first. With more places its units are larger, so if no number
of places is few enough, the one without places is what failed. This turns the question whether
there is a decimal into one comparison. -/

/-- Units have no decimal exactly if they or their places are too many. -/
theorem ofUnits?_eq_none_iff {units : Int} {scale : Nat} :
    ofUnits? units scale = none ↔ ¬ (units.natAbs < unitBound ∧ scale ≤ maxScale) := by
  unfold ofUnits?
  split
  · next h => exact iff_of_false (by rintro ⟨⟩) (not_not_intro h)
  · next h => exact iff_of_true rfl h

/-- The sign is put back on the rounded absolute value, which does not change that value. -/
theorem natAbs_sign_mul_halfEven (num : Int) {den : Nat} (hden : 0 < den) (factor : Nat) :
    (num.sign * halfEven (num.natAbs * factor) den).natAbs = halfEven (num.natAbs * factor) den := by
  rcases Decidable.em (num = 0) with rfl | hnum
  · have hzero : halfEven (0 * den) den = 0 := halfEven_mul_self 0 hden
    simpa using hzero.symm
  · rw [Int.natAbs_mul, Int.natAbs_sign_of_ne_zero hnum, Nat.one_mul, Int.natAbs_natCast]

/-- A ratio has no decimal exactly if the nearest whole number to it is too large. Induction on the
places that are tried: trying more of them first can only fail more often. -/
theorem ofRatio?_eq_none_iff (num : Int) {den : Nat} (hden : 0 < den) (places : Nat) :
    ofRatio? num den places = none ↔ unitBound ≤ halfEven num.natAbs den := by
  induction places with
  | zero =>
    have hunits := natAbs_sign_mul_halfEven num hden 1
    rw [Nat.mul_one] at hunits
    rw [ofRatio?, ofUnits?_eq_none_iff, hunits]
    simp
  | succ places ih =>
    -- at more places the units are larger still
    have hmore : halfEven num.natAbs den ≤ halfEven (num.natAbs * pow10 (places + 1)) den :=
      halfEven_mono den (Nat.le_mul_of_pos_right _ (pow10_pos _))
    rw [ofRatio?, Option.orElse_eq_orElse, Option.orElse_eq_or, Option.or_eq_none_iff, ih,
      ofUnits?_eq_none_iff, natAbs_sign_mul_halfEven num hden]
    constructor
    · exact fun h => h.2
    · intro h
      exact ⟨fun hfits => absurd hfits.1 (by omega), h⟩

/-- The decimal that is nearest to a decimal is itself, places included. -/
theorem ofRatio?_self (d : Decimal) : ofRatio? d.units (pow10 d.scale) d.scale = some d := by
  have hunits (scale : Nat) :
      d.units.sign * (halfEven (d.units.natAbs * pow10 scale) (pow10 scale) : Nat) = d.units := by
    rw [halfEven_mul_self _ (pow10_pos _), Int.sign_mul_natAbs]
  have hself : ofUnits? d.units d.scale = some d := ofUnits?_eq_some_iff.mpr ⟨rfl, rfl⟩
  cases hscale : d.scale with
  | zero =>
    have hzero := hunits 0
    rw [pow10_zero, Nat.mul_one] at hzero
    rw [ofRatio?, pow10_zero, hzero, ← hscale, hself]
  | succ scale => rw [ofRatio?, hunits, ← hscale, hself]; rfl

theorem eq_zero_of_isZero {d : Decimal} (h : d.isZero) : d.units = 0 := by
  simpa [isZero] using h

/-- A product has no decimal exactly if its nearest whole number is too large. -/
theorem mul?_eq_none_iff (a b : Decimal) :
    a.mul? b = none ↔
      unitBound ≤ halfEven (a.units.natAbs * b.units.natAbs) (pow10 (a.scale + b.scale)) := by
  rw [← Int.natAbs_mul, ← ofRatio?_eq_none_iff _ (pow10_pos _) (a.scale + b.scale), mul?]
  -- a factor of zero is treated apart, with the result zero without places
  split
  · next hzero =>
    -- a factor is zero, and so is the product
    have hproduct : a.units * b.units = 0 := by
      rw [Bool.or_eq_true] at hzero
      exact Int.mul_eq_zero.mpr (hzero.imp eq_zero_of_isZero eq_zero_of_isZero)
    have hfits : ¬ unitBound ≤ halfEven 0 (pow10 (a.scale + b.scale)) := by
      have hle : halfEven 0 (pow10 (a.scale + b.scale)) ≤ 0 :=
        halfEven_le (pow10_pos _) (Nat.zero_le _)
      simp only [unitBound]
      omega
    refine iff_of_false (by rintro ⟨⟩) ?_
    rwa [ofRatio?_eq_none_iff _ (pow10_pos _), hproduct]
  · rfl

/-- The dividend of a quotient, over a common denominator, up to its sign. -/
theorem natAbs_dividend (a : Decimal) {b : Decimal} (hb : b.units ≠ 0) :
    (a.units * pow10 b.scale * b.units.sign).natAbs = a.units.natAbs * pow10 b.scale := by
  rw [Int.natAbs_mul, Int.natAbs_mul, Int.natAbs_sign_of_ne_zero hb, Int.natAbs_natCast, Nat.mul_one]

theorem dividend_pos (a : Decimal) {b : Decimal} (hb : b.units ≠ 0) :
    0 < b.units.natAbs * pow10 a.scale :=
  Nat.mul_pos (by omega) (pow10_pos _)

/-- **A quotient by one or more, or by minus one or less, has a decimal.** It is not larger than the
dividend, so its whole part has room, and the places of the rest are cut until they have. -/
theorem div?_ne_none (a : Decimal) {b : Decimal} (h : pow10 b.scale ≤ b.units.natAbs) :
    a.div? b ≠ none := by
  have hdivisor : 0 < b.units.natAbs := Nat.lt_of_lt_of_le (pow10_pos _) h
  have hunits : b.units ≠ 0 := by omega
  have hden := dividend_pos a hunits
  have hnum := natAbs_dividend a hunits
  -- the quotient is not larger than the units of the dividend
  have hle : halfEven (a.units.natAbs * pow10 b.scale) (b.units.natAbs * pow10 a.scale) ≤
      a.units.natAbs := by
    refine halfEven_le hden (Nat.mul_le_mul_left _ ?_)
    exact Nat.le_trans h (Nat.le_mul_of_pos_right _ (pow10_pos _))
  have hratio (places : Nat) : ofRatio? (a.units * pow10 b.scale * b.units.sign)
      (b.units.natAbs * pow10 a.scale) places ≠ none := by
    rw [Ne, ofRatio?_eq_none_iff _ hden, hnum]
    have := a.units_lt
    omega
  rw [div?]
  split
  · exact Option.some_ne_none _
  · dsimp only
    split
    · exact hratio _
    · rw [Ne, Option.map_eq_none_iff]
      exact hratio _

/-! ## Whole part and fraction

A number is taken apart into its floor and what is left. The floor is smaller than the number's
units, so it has a decimal; what is left is less than one and has the places of the number, so it
has one too, and it is exact. This is what the steps of reading a timestamp need to succeed. -/

/-- The value is at least zero and less than one. -/
structure IsFraction (d : Decimal) : Prop where
  nonneg : 0 ≤ d.units
  lt : d.units < pow10 d.scale

theorem ofUnits?_floor (d : Decimal) : ofUnits? d.floor 0 ≠ none := by
  rw [Ne, ofUnits?_eq_none_iff]
  exact not_not_intro ⟨natAbs_div_lt d.units_lt, Nat.zero_le _⟩

/-- **What a number has beyond its whole part** is the rest of a division, exactly. The subtraction
has shortcuts for a zero on either side, so there are three cases, and only in the last one are the
two numbers brought to the same places. -/
theorem sub?_floor {d whole : Decimal} (hwhole : ofUnits? d.floor 0 = some whole) :
    ∃ fraction, d.sub? whole = some fraction ∧ fraction.IsFraction ∧
      fraction.units * pow10 d.scale = d.units % pow10 d.scale * pow10 fraction.scale := by
  obtain ⟨hunits, hscale⟩ := ofUnits?_eq_some_iff.mp hwhole
  have hpos : (0 : Int) < pow10 d.scale := by exact_mod_cast pow10_pos d.scale
  have hrest_nonneg : 0 ≤ d.units % pow10 d.scale := Int.emod_nonneg _ (Int.ne_of_gt hpos)
  have hrest_lt : d.units % pow10 d.scale < pow10 d.scale := Int.emod_lt_of_pos _ hpos
  have hdivision := Int.mul_ediv_add_emod d.units (pow10 d.scale)
  rw [floor] at hunits
  unfold sub? add?
  split
  · next hzero =>
    -- zero is its own whole part
    have hneg : whole.neg.units = 0 := by
      show -whole.units = 0
      rw [hunits, eq_zero_of_isZero hzero, Int.zero_ediv, Int.neg_zero]
    refine ⟨whole.neg, rfl, ⟨Int.le_of_eq hneg.symm, ?_⟩, ?_⟩
    · rw [hneg]
      exact_mod_cast pow10_pos _
    · rw [hneg, eq_zero_of_isZero hzero, Int.zero_emod, Int.zero_mul, Int.zero_mul]
  · split
    · next hzero =>
      -- without a whole part the number is a fraction already
      have hquotient : d.units / pow10 d.scale = 0 := by
        have hneg := eq_zero_of_isZero hzero
        change -whole.units = 0 at hneg
        rw [← hunits]
        omega
      rw [hquotient, Int.mul_zero, Int.zero_add] at hdivision
      have hrest : d.units = d.units % pow10 d.scale := by omega
      exact ⟨d, rfl, ⟨by omega, by omega⟩, by rw [← hrest]⟩
    · -- otherwise the difference is exact: the rest of the division, at the same places
      have hmax : max d.scale whole.neg.scale = d.scale := by
        show max d.scale whole.scale = d.scale
        omega
      have hdifference : d.units * pow10 (d.scale - d.scale) +
          whole.neg.units * pow10 (d.scale - whole.neg.scale) = d.units % pow10 d.scale := by
        show d.units * pow10 (d.scale - d.scale) + -whole.units * pow10 (d.scale - whole.scale) = _
        rw [hscale, hunits, Nat.sub_self, Nat.sub_zero, pow10_zero, Int.natCast_one, Int.mul_one,
          Int.neg_mul, Int.mul_comm (d.units / _)]
        omega
      have hbound : (d.units % pow10 d.scale).natAbs < unitBound := by
        have hpower : pow10 d.scale ≤ pow10 maxScale :=
          Nat.pow_le_pow_right (by decide) d.scale_le
        have hmaximum : pow10 maxScale < unitBound := by decide
        omega
      let fraction : Decimal := ⟨d.units % pow10 d.scale, d.scale, hbound, d.scale_le⟩
      simp only [hmax, hdifference]
      exact ⟨fraction, ofRatio?_self fraction, ⟨hrest_nonneg, hrest_lt⟩, rfl⟩

/-- A fraction times a number that fits has a decimal: the product is not larger than the number. -/
theorem mul?_ne_none_of_isFraction {d : Decimal} (hd : d.IsFraction) (n : Nat)
    (hn : n < unitBound) : d.mul? (ofNat n hn) ≠ none := by
  have hlt : d.units.natAbs ≤ pow10 d.scale := by
    have := hd.nonneg
    have := hd.lt
    omega
  have hle : halfEven (d.units.natAbs * n) (pow10 (d.scale + 0)) ≤ n := by
    refine halfEven_le (pow10_pos _) ?_
    rw [Nat.mul_comm n]
    exact Nat.mul_le_mul_right n hlt
  rw [Ne, mul?_eq_none_iff]
  exact Nat.not_le.mpr (Nat.lt_of_le_of_lt hle hn)

end Stencil.Decimal
