import Mathlib.Tactic.LinearCombination
import Stencil.Proofs.Nearest

/-!
# What a quotient is

The digits of a quotient are found in groups, as many as fit, and some zeros at their end are
dropped again. Its value depends on none of that:

* **`ofRatio?_eq_some`** — a ratio gets the most places at which its nearest number of units fits.
* **`quotientPlaces_spec`** — the search for digits ends at the last place, or when nothing remains.
* **`toRat_div?`** — so the value is that of the ratio at the most places of all.
* **`div?_nearest`** — which is the exact quotient, to the nearest unit of its widest places.
-/

namespace Stencil.Decimal

/-! ## Ratios

`ofRatio?` tries numbers of places from the given one down, and stops where the units are in range.
All lemmas are inductions on that number: at one step the units fit, and the decimal is known, or
they do not, and the step makes no difference. -/

/-- Where the nearest number of units is in range, the search stops at once, and the decimal has
those units and all the places asked for. -/
theorem ofRatio?_of_fits {num : ℤ} {den places : ℕ} (hden : 0 < den) (hplaces : places ≤ maxScale)
    (hfits : halfEven (num.natAbs * pow10 places) den < unitBound) :
    ∃ d, ofRatio? num den places = some d ∧ d.scale = places ∧
      d.units = num.sign * halfEven (num.natAbs * pow10 places) den := by
  have hunits := natAbs_sign_mul_halfEven num hden (pow10 places)
  let d : Decimal := ⟨num.sign * halfEven (num.natAbs * pow10 places) den, places,
    by rw [hunits]; exact hfits, hplaces⟩
  have hself : ofUnits? d.units d.scale = some d := ofUnits?_eq_some_iff.mpr ⟨rfl, rfl⟩
  refine ⟨d, ?_, rfl, rfl⟩
  cases places with
  | zero =>
    rw [ofRatio?]
    simpa [d] using hself
  | succ places =>
    rw [ofRatio?, hself]
    rfl

/-- Where it is out of range, a place is given up. -/
theorem ofRatio?_succ_of_not_fits {num : ℤ} {den places : ℕ} (hden : 0 < den)
    (hlarge : unitBound ≤ halfEven (num.natAbs * pow10 (places + 1)) den) :
    ofRatio? num den (places + 1) = ofRatio? num den places := by
  have hnone : ofUnits? (num.sign * halfEven (num.natAbs * pow10 (places + 1)) den) (places + 1) =
      none := by
    rw [ofUnits?_eq_none_iff, natAbs_sign_mul_halfEven num hden]
    exact fun h => absurd h.1 (Nat.not_lt.mpr hlarge)
  rw [ofRatio?, hnone]
  rfl

/-- The decimal of a ratio has the most places, up to the given number, at which the nearest number
of units is in range. If it has fewer than asked for, one more place would be out of range; that is
what makes the places a property of the ratio. -/
theorem ofRatio?_eq_some {num : ℤ} {den places : ℕ} {d : Decimal} (hden : 0 < den)
    (hplaces : places ≤ maxScale) (h : ofRatio? num den places = some d) :
    d.units = num.sign * halfEven (num.natAbs * pow10 d.scale) den ∧ d.scale ≤ places ∧
      (d.scale = places ∨ unitBound ≤ halfEven (num.natAbs * pow10 (d.scale + 1)) den) := by
  induction places with
  | zero =>
    obtain ⟨hunits, hscale⟩ := ofUnits?_eq_some_iff.mp h
    rw [hscale, hunits]
    simp
  | succ places ih =>
    rcases Nat.lt_or_ge (halfEven (num.natAbs * pow10 (places + 1)) den) unitBound with hfits | hlarge
    · obtain ⟨e, he, hscale, hunits⟩ := ofRatio?_of_fits hden hplaces hfits
      rw [he] at h
      cases h
      rw [hscale]
      exact ⟨hunits, Nat.le_refl _, .inl rfl⟩
    · rw [ofRatio?_succ_of_not_fits hden hlarge] at h
      obtain ⟨hunits, hle, hwidest⟩ := ih (by omega) h
      refine ⟨hunits, by omega, .inr ?_⟩
      rcases hwidest with hscale | hmore
      · rwa [hscale]
      · exact hmore

theorem halfEven_of_dvd {n d : ℕ} (hd : 0 < d) (h : d ∣ n) : halfEven n d * d = n := by
  obtain ⟨quotient, rfl⟩ := h
  rw [Nat.mul_comm d quotient, halfEven_mul_self _ hd]

/-- If the units divide evenly at the places that a decimal has, its value is the ratio itself. -/
theorem toRat_of_exact {num : ℤ} {den : ℕ} {d : Decimal} (hden : 0 < den)
    (hunits : d.units = num.sign * halfEven (num.natAbs * pow10 d.scale) den)
    (hexact : den ∣ num.natAbs * pow10 d.scale) : d.toRat = num / den := by
  have hden' : (den : ℚ) ≠ 0 := by exact_mod_cast hden.ne'
  have hpow := (pow10_pos_rat d.scale).ne'
  have hproduct : d.units * den = num * pow10 d.scale := by
    have hexact' : (halfEven (num.natAbs * pow10 d.scale) den : ℤ) * den =
        num.natAbs * pow10 d.scale := by exact_mod_cast halfEven_of_dvd hden hexact
    rw [hunits, mul_assoc, hexact', ← mul_assoc, Int.sign_mul_natAbs]
  rw [toRat, div_eq_div_iff hpow hden']
  exact_mod_cast hproduct

/-- More places do not change the value of a ratio that is exact already. Induction on the places
beyond those: where one more still fits, both numbers of units are exact; where it does not, it is
given up. -/
theorem ofRatio?_of_exact {num : ℤ} {den places : ℕ} (hden : 0 < den) (hplaces : places ≤ maxScale)
    {fewer : ℕ} (hfewer : fewer ≤ places) (hexact : den ∣ num.natAbs * pow10 fewer) :
    (ofRatio? num den places).map toRat = (ofRatio? num den fewer).map toRat := by
  induction places, hfewer using Nat.le_induction with
  | base => rfl
  | succ places hle ih =>
    rcases Nat.lt_or_ge (halfEven (num.natAbs * pow10 (places + 1)) den) unitBound with hfits | hlarge
    · have hmore : pow10 fewer ∣ pow10 (places + 1) := Nat.pow_dvd_pow 10 (by omega)
      have hexact' : den ∣ num.natAbs * pow10 (places + 1) :=
        hexact.trans (Nat.mul_dvd_mul_left _ hmore)
      have hmono : halfEven (num.natAbs * pow10 fewer) den ≤
          halfEven (num.natAbs * pow10 (places + 1)) den :=
        halfEven_mono den (Nat.mul_le_mul_left _ (Nat.le_of_dvd (pow10_pos _) hmore))
      obtain ⟨d, hd, hscale, hunits⟩ := ofRatio?_of_fits hden hplaces hfits
      obtain ⟨e, he, hscale', hunits'⟩ := ofRatio?_of_fits hden (by omega : fewer ≤ maxScale)
        (by omega : halfEven (num.natAbs * pow10 fewer) den < unitBound)
      rw [hd, he, Option.map_some, Option.map_some,
        toRat_of_exact hden (by rw [hscale]; exact hunits) (by rw [hscale]; exact hexact'),
        toRat_of_exact hden (by rw [hscale']; exact hunits') (by rw [hscale']; exact hexact)]
    · rw [ofRatio?_succ_of_not_fits hden hlarge]
      exact ih (by omega)

/-- A ratio that has `units` units at some number of places, and they are in range, has a decimal of
exactly its value. -/
theorem ofRatio?_exact {num : ℤ} {den places fewer units : ℕ} (hden : 0 < den)
    (hplaces : places ≤ maxScale) (hfewer : fewer ≤ places)
    (hexact : num.natAbs * pow10 fewer = units * den) (hunits : units < unitBound) :
    ∃ d, ofRatio? num den places = some d ∧ d.toRat = num / den := by
  have hdvd : den ∣ num.natAbs * pow10 fewer := Dvd.intro_left units hexact.symm
  obtain ⟨e, he, hscale, heunits⟩ := ofRatio?_of_fits hden (hfewer.trans hplaces)
    (by rwa [hexact, halfEven_mul_self units hden])
  have hvalue : e.toRat = num / den :=
    toRat_of_exact hden (by rw [hscale]; exact heunits) (by rw [hscale]; exact hdvd)
  have hsame := ofRatio?_of_exact hden hplaces hfewer hdvd
  rw [he, Option.map_some, Option.map_eq_some_iff] at hsame
  obtain ⟨d, hd, hde⟩ := hsame
  exact ⟨d, hd, hde.trans hvalue⟩

/-! ## Quotients

A quotient is the decimal of one ratio, with the places that a search for digits has found; zeros at
the end of a search that has not come out even are dropped. The search takes nine digits at a time,
so it may go past the last digit that is needed, but not stop before it. -/

/-- The two decimals as one ratio of whole numbers, with the sign of the divisor in the dividend. -/
theorem ratio_eq (a : Decimal) {b : Decimal} (hb : b.units ≠ 0) :
    ((a.units * pow10 b.scale * b.units.sign : ℤ) : ℚ) / (b.units.natAbs * pow10 a.scale : ℕ) =
      a.toRat / b.toRat := by
  have hpow := (pow10_pos_rat a.scale).ne'
  have hpow' := (pow10_pos_rat b.scale).ne'
  have hb' : (b.units : ℚ) ≠ 0 := by exact_mod_cast hb
  have hden : ((b.units.natAbs * pow10 a.scale : ℕ) : ℚ) ≠ 0 := by
    exact_mod_cast (dividend_pos a hb).ne'
  have hsign : (b.units : ℚ) * b.units.sign = b.units.natAbs := by
    rw [← Int.cast_mul, Int.mul_sign_self, Int.cast_natCast]
  rw [toRat, toRat, div_div_div_eq, div_eq_div_iff hden (mul_ne_zero hpow hb')]
  rw [Int.cast_mul, Int.cast_mul, Int.cast_natCast, Nat.cast_mul]
  -- multiplied out, the two sides differ by the sign of the divisor and its size
  linear_combination a.units * pow10 b.scale * pow10 a.scale * hsign

/-- **The search for the digits of a quotient** goes up to the last place, or to one at which
nothing remains. Induction along the search: a round of it takes nine digits, and the remainder it
goes on with is that of the first one with nine zeros behind it. So the places found may be more
than needed, but never too few. -/
theorem quotientPlaces_spec (divisor remainder : ℕ) (places : ℤ) :
    quotientPlaces divisor remainder places ≤ maxScale ∧
    (quotientPlaces divisor remainder places = maxScale ∨
      ∃ more : ℕ, divisor ∣ remainder * pow10 more ∧
        places + more ≤ quotientPlaces divisor remainder places) := by
  fun_induction quotientPlaces divisor remainder places with
  | case1 remainder places hstop =>
    refine ⟨by simp only [maxScale]; omega, ?_⟩
    rcases hstop with hzero | hlast
    · rcases Int.le_total 28 places with hlast | hroom
      · left; simp only [maxScale]; omega
      · right
        exact ⟨0, by rw [hzero, Nat.zero_mul]; exact Nat.dvd_zero _, by omega⟩
    · left; simp only [maxScale]; omega
  | case2 remainder places hgo ih =>
    obtain ⟨hle, hends⟩ := ih
    refine ⟨hle, hends.imp_right ?_⟩
    rintro ⟨more, hdvd, hplaces⟩
    -- a round of the search finds nine digits
    refine ⟨more + 9, ?_, by push_cast; omega⟩
    have hdigits : pow10 9 = 1000000000 := rfl
    have hmod : (remainder * pow10 (more + 9)) % divisor =
        (remainder * 1000000000 % divisor * pow10 more) % divisor := by
      rw [Nat.add_comm more, pow10_add, hdigits, ← Nat.mul_assoc, Nat.mod_mul_mod]
    exact Nat.dvd_of_mod_eq_zero (hmod.trans (Nat.mod_eq_zero_of_dvd hdvd))

/-- The quotient of a division with a remainder, when the number of places that the search finds is
known. It is how quotients of given numbers are computed, for the search itself does not reduce. -/
theorem div?_of_places {a b : Decimal} {places : ℕ} (hzero : a.isZero = false)
    (hremainder : a.units.natAbs % b.units.natAbs ≠ 0)
    (hplaces : quotientPlaces b.units.natAbs (a.units.natAbs % b.units.natAbs)
      ((a.scale : ℤ) - b.scale) = places) :
    a.div? b = (ofRatio? (a.units * pow10 b.scale * b.units.sign)
      (b.units.natAbs * pow10 a.scale) places).map trimQuotient := by
  simp only [div?, hzero, hremainder, hplaces, Bool.false_eq_true, if_false]

/-- Zeros at the end of the units may go together with their places. -/
theorem toRat_dropPlaces (count : ℕ) (d : Decimal) : (d.dropPlaces count).toRat = d.toRat := by
  unfold dropPlaces
  split
  · next h =>
    obtain ⟨hcount, hzeros⟩ := h
    obtain ⟨units, hunits⟩ := Int.dvd_of_emod_eq_zero hzeros
    obtain ⟨fewer, hfewer⟩ := Nat.exists_eq_add_of_le hcount
    have hcount' := (pow10_pos_rat count).ne'
    have hfewer' := (pow10_pos_rat fewer).ne'
    have hquotient : d.units / pow10 count = units := by
      rw [hunits]
      exact Int.mul_ediv_cancel_left _ (by have := pow10_pos count; omega)
    simp only [toRat, hquotient, hfewer, Nat.add_sub_cancel_left, pow10_add]
    rw [hunits]
    push_cast
    field_simp
  · rfl

/-- Also eight of them at once. -/
theorem toRat_dropEightPlaces (d : Decimal) : d.dropEightPlaces.toRat = d.toRat := by
  unfold dropEightPlaces
  split
  · exact toRat_dropPlaces 8 d
  · rfl

/-- Dropping zeros keeps the value. -/
theorem toRat_trimQuotient (d : Decimal) : d.trimQuotient.toRat = d.toRat := by
  simp only [trimQuotient, toRat_dropPlaces, toRat_dropEightPlaces]

/-- The value of a quotient is the exact ratio at the most places at which it is in range: neither
the end of the search for digits nor the zeros dropped from them shows. If the search stops early,
the quotient is exact there, and more places leave its value alone. -/
theorem toRat_div? (a : Decimal) {b : Decimal} (hb : b.units ≠ 0) :
    (a.div? b).map toRat = (ofRatio? (a.units * pow10 b.scale * b.units.sign)
      (b.units.natAbs * pow10 a.scale) maxScale).map toRat := by
  have hden := dividend_pos a hb
  unfold div?
  split
  · next hzero =>
    rw [eq_zero_of_isZero hzero, zero_mul, zero_mul]
    have hhalf (places : ℕ) : halfEven ((0 : ℤ).natAbs * pow10 places)
        (b.units.natAbs * pow10 a.scale) = 0 := by
      rw [Int.natAbs_zero, Nat.zero_mul]
      exact Nat.le_zero.mp (halfEven_le hden (Nat.zero_le _))
    obtain ⟨d, hd, _, hunits⟩ : ∃ d, ofRatio? 0 (b.units.natAbs * pow10 a.scale) maxScale = some d ∧
        d.scale = maxScale ∧ d.units = Int.sign 0 * _ :=
      ofRatio?_of_fits hden (Nat.le_refl maxScale) (by rw [hhalf]; decide)
    rw [hd, Option.map_some, Option.map_some, toRat, toRat, hunits]
    simp [zero, ofNat]
  · set places := quotientPlaces b.units.natAbs (a.units.natAbs % b.units.natAbs)
      ((a.scale : ℤ) - b.scale) with hplaces
    have htrim : (if a.units.natAbs % b.units.natAbs = 0 then
          ofRatio? (a.units * pow10 b.scale * b.units.sign) (b.units.natAbs * pow10 a.scale) places
        else (ofRatio? (a.units * pow10 b.scale * b.units.sign)
          (b.units.natAbs * pow10 a.scale) places).map trimQuotient).map toRat =
        (ofRatio? (a.units * pow10 b.scale * b.units.sign)
          (b.units.natAbs * pow10 a.scale) places).map toRat := by
      split
      · rfl
      · rw [Option.map_map, show toRat ∘ trimQuotient = toRat from funext toRat_trimQuotient]
    dsimp only
    rw [htrim]
    obtain ⟨hle, hends⟩ := quotientPlaces_spec b.units.natAbs (a.units.natAbs % b.units.natAbs)
      ((a.scale : ℤ) - b.scale)
    rw [← hplaces] at hle hends
    -- the search went up to the last place, or it came out even before
    rcases hends with hlast | ⟨more, hdvd, hmore⟩
    · rw [hlast]
    · refine (ofRatio?_of_exact hden (Nat.le_refl _) hle ?_).symm
      have hdividend : b.units.natAbs ∣ a.units.natAbs * pow10 more := by
        rw [Nat.dvd_iff_mod_eq_zero, ← Nat.mod_mul_mod]
        exact Nat.mod_eq_zero_of_dvd hdvd
      -- the places of the quotient and the divisor make up for those of the dividend
      obtain ⟨spare, hspare⟩ : ∃ spare, b.scale + places = more + a.scale + spare :=
        Nat.exists_eq_add_of_le (by omega)
      have hregroup : a.units.natAbs * pow10 b.scale * pow10 places =
          a.units.natAbs * pow10 more * pow10 a.scale * pow10 spare := by
        rw [Nat.mul_assoc, ← pow10_add, hspare, pow10_add, pow10_add]
        ac_rfl
      rw [natAbs_dividend a hb, hregroup]
      exact (Nat.mul_dvd_mul_right hdividend _).trans (Nat.dvd_mul_right _ _)

/-! ## The exact quotient

What is left of the quotient is a property of the exact value `q`: to how many places it fits, and
the nearest number of units there. `Widest` says the first without the way to find it, and it
determines the number of places. -/

/-- `places` is the largest number of places at which `q`, to the nearest unit, is in range. -/
structure Widest (q : ℚ) (places : ℕ) : Prop where
  le : places ≤ maxScale
  fits : |q| * pow10 places < unitBound - 1 / 2
  more : places = maxScale ∨ unitBound - 1 / 2 ≤ |q| * pow10 (places + 1)

theorem Widest.neg {q : ℚ} {places : ℕ} (h : Widest q places) : Widest (-q) places := by
  refine ⟨h.le, ?_, ?_⟩
  · rw [abs_neg]; exact h.fits
  · rw [abs_neg]; exact h.more

theorem pow10_mono {j k : ℕ} (h : j ≤ k) : (pow10 j : ℚ) ≤ pow10 k := by
  exact_mod_cast Nat.pow_le_pow_right (by decide) h

/-- A value has one widest number of places. A wider one would fit and not fit at once. -/
theorem Widest.unique {q : ℚ} {j k : ℕ} (hj : Widest q j) (hk : Widest q k) : j = k := by
  -- of two different ones the smaller has room for another place
  wlog hle : j ≤ k generalizing j k
  · exact (this hk hj (by omega)).symm
  rcases eq_or_lt_of_le hle with heq | hlt
  · exact heq
  · have hle := hk.le
    rcases hj.more with hlast | hmore
    · omega
    · have hmono : |q| * pow10 (j + 1) ≤ |q| * pow10 k :=
        mul_le_mul_of_nonneg_left (pow10_mono hlt) (abs_nonneg q)
      exact absurd (hmore.trans hmono) (not_le.mpr hk.fits)

/-- The nearest number of units is in range if the exact one is more than half a unit below the
bound. At exactly half a unit the two neighbours are the bound and the odd number before it, and the
even one is the bound, which is out of range. -/
theorem halfEven_lt_unitBound_iff (n : ℕ) {d : ℕ} (hd : 0 < d) :
    halfEven n d < unitBound ↔ (n / d : ℚ) < unitBound - 1 / 2 := by
  have hd' : (0 : ℚ) < d := by exact_mod_cast hd
  have hcleared : (n / d : ℚ) < unitBound - 1 / 2 ↔ 2 * n + d < 2 * (unitBound * d) := by
    rw [div_lt_iff₀ hd', ← Nat.cast_lt (α := ℚ)]
    push_cast
    constructor <;> intro h <;> linarith
  obtain ⟨hhigh, hlow, heven⟩ := halfEven_bounds n hd
  rw [hcleared]
  constructor
  · intro h
    -- a tie with the bound would go to the bound, which is even
    have hlast : halfEven n d * d + d ≤ unitBound * d := by
      rw [← Nat.succ_mul]
      exact Nat.mul_le_mul_right d h
    rcases Nat.lt_or_ge (2 * n + d) (2 * (unitBound * d)) with hlt | hge
    · exact hlt
    · have heq : halfEven n d * d + d = unitBound * d := by omega
      have hsucc : halfEven n d + 1 = unitBound := by
        rw [← Nat.succ_mul] at heq
        exact Nat.eq_of_mul_eq_mul_right hd heq
      have := heven (by omega)
      simp only [unitBound] at hsucc
      omega
  · intro h
    by_contra hge
    have : unitBound * d ≤ halfEven n d * d := Nat.mul_le_mul_right d (Nat.not_lt.mp hge)
    omega

/-- The size of a ratio, counted in units. -/
theorem abs_intCast_div (num : ℤ) (den factor : ℕ) :
    |(num / den : ℚ)| * factor = (num.natAbs * factor : ℕ) / den := by
  rw [abs_div, Nat.abs_cast, div_mul_eq_mul_div]
  push_cast
  rw [Nat.cast_natAbs, Int.cast_abs]

/-- A ratio is rounded by its size and gets its sign back, so it goes to the nearest even unit on
either side of zero. The three signs are the three cases; for a negative one it is
`NearestEven.neg`. -/
theorem nearestEven_sign_mul (num : ℤ) {den : ℕ} (hden : 0 < den) (factor : ℕ) :
    NearestEven (num / den * factor) (num.sign * halfEven (num.natAbs * factor) den) := by
  have hnatAbs : NearestEven ((num.natAbs * factor : ℕ) / den : ℚ)
      (halfEven (num.natAbs * factor) den) := nearestEven_halfEven _ hden
  rcases Int.lt_trichotomy num 0 with hneg | rfl | hpos
  · have hvalue : (num / den * factor : ℚ) = -((num.natAbs * factor : ℕ) / den) := by
      have hcast : (num.natAbs : ℚ) = -num := by
        rw [Nat.cast_natAbs, abs_of_neg hneg]
        push_cast
        rfl
      push_cast
      rw [hcast]
      ring
    rw [hvalue, Int.sign_eq_neg_one_of_neg hneg, neg_one_mul]
    exact hnatAbs.neg
  · have hzero : halfEven 0 den = 0 := Nat.le_zero.mp (halfEven_le hden (Nat.zero_le _))
    simpa [hzero] using hnatAbs
  · have hvalue : (num / den * factor : ℚ) = (num.natAbs * factor : ℕ) / den := by
      have hcast : (num.natAbs : ℚ) = num := by rw [Nat.cast_natAbs, abs_of_pos hpos]
      push_cast
      rw [hcast]
      ring
    rw [hvalue, Int.sign_eq_one_of_pos hpos, one_mul]
    exact hnatAbs

/-- The decimal of a ratio, up to the last place, in terms of the exact value: its places are the
widest, and its units the nearest there. -/
theorem ofRatio?_nearest {num : ℤ} {den : ℕ} {d : Decimal} (hden : 0 < den)
    (h : ofRatio? num den maxScale = some d) :
    Widest (num / den) d.scale ∧ NearestEven (num / den * pow10 d.scale) d.units := by
  obtain ⟨hunits, hle, hwidest⟩ := ofRatio?_eq_some hden (Nat.le_refl _) h
  refine ⟨⟨hle, ?_, ?_⟩, ?_⟩
  · rw [abs_intCast_div, ← halfEven_lt_unitBound_iff _ hden,
      ← natAbs_sign_mul_halfEven num hden, ← hunits]
    exact d.units_lt
  · refine hwidest.imp_right fun hmore => ?_
    rw [abs_intCast_div]
    exact not_lt.mp fun hlt => absurd ((halfEven_lt_unitBound_iff _ hden).mpr hlt) (by omega)
  · rw [hunits]
    exact nearestEven_sign_mul num hden _

/-- The value of a quotient is the exact one, rounded to the most places at which it is in range, a
half to the even unit. This is all that the rest of the library knows of division. -/
theorem div?_nearest {a b p : Decimal} (hb : b.units ≠ 0) (h : a.div? b = some p) :
    ∃ places units, Widest (a.toRat / b.toRat) places ∧
      NearestEven (a.toRat / b.toRat * pow10 places) units ∧ p.toRat = units / pow10 places := by
  have hden := dividend_pos a hb
  have hvalue := toRat_div? a hb
  rw [h, Option.map_some, eq_comm, Option.map_eq_some_iff] at hvalue
  obtain ⟨d, hd, hp⟩ := hvalue
  obtain ⟨hwidest, hnearest⟩ := ofRatio?_nearest hden hd
  rw [ratio_eq a hb] at hwidest hnearest
  exact ⟨d.scale, d.units, hwidest, hnearest, hp.symm⟩

end Stencil.Decimal
