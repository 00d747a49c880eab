import Stencil.Proofs.Places

/-!
# Rounding again, and rounding the opposite

What `round` gives is a multiple already, and no step on the way there depends on the side of zero
on which the value lies. So a second rounding to the same places changes nothing, and opposite
values are rounded to opposite values.

* **`ofRatio?_neg`**, **`div?_neg`**, **`mul?_neg`** — arithmetic on an opposite is the opposite,
  also where there is none. One lemma for each step of an operation.
* **`roundTo?_neg`** — so the same of rounding, to places and to tens.
* **`roundTo?_stable`** — rounding again.
* **`round_stable_odd`** — both, of the function `round`.
-/

namespace Stencil

namespace Decimal

variable (d : Decimal)

/-! ## Opposites

Every step of a division or a product keeps the sign beside a number without one, so each of these
lemmas is the definition of its step, read with the other sign. Where a step has no result, its
opposite has none. -/

@[simp] theorem units_neg : d.neg.units = -d.units := rfl

@[simp] theorem scale_neg : d.neg.scale = d.scale := rfl

@[simp] theorem isZero_neg : d.neg.isZero = d.isZero := by
  show (-d.units == 0) = (d.units == 0)
  simp

/-- Units are in range by their size. -/
theorem ofUnits?_neg (units : ℤ) (scale : ℕ) :
    ofUnits? (-units) scale = (ofUnits? units scale).map neg := by
  unfold ofUnits?
  simp only [Int.natAbs_neg]
  split
  · rfl
  · rfl

/-- A half goes to the even number of units, on both sides of zero. Induction on the places that may
be given up, for whether a place is kept depends on the size as well. -/
theorem ofRatio?_neg (num : ℤ) (den places : ℕ) :
    ofRatio? (-num) den places = (ofRatio? num den places).map neg := by
  induction places with
  | zero => rw [ofRatio?, ofRatio?, Int.sign_neg, Int.natAbs_neg, Int.neg_mul, ofUnits?_neg]
  | succ places ih =>
    rw [ofRatio?, ofRatio?, Int.sign_neg, Int.natAbs_neg, Int.neg_mul, ofUnits?_neg, ih]
    cases ofUnits? (num.sign * halfEven (num.natAbs * pow10 (places + 1)) den) (places + 1) with
    | none => rfl
    | some nearest => rfl

/-- Zeros at the end are dropped whatever the sign: the remainder of a negative number is zero
exactly if that of its opposite is, though other remainders differ. -/
theorem dropPlaces_neg (count : ℕ) : d.neg.dropPlaces count = (d.dropPlaces count).neg := by
  have hzeros : d.neg.units % pow10 count = 0 ↔ d.units % pow10 count = 0 := by
    rw [units_neg, ← Int.dvd_iff_emod_eq_zero, ← Int.dvd_iff_emod_eq_zero, Int.dvd_neg]
  unfold dropPlaces
  by_cases h : count ≤ d.scale ∧ d.units % pow10 count = 0
  · have hneg : count ≤ d.neg.scale ∧ d.neg.units % pow10 count = 0 := ⟨h.1, hzeros.mpr h.2⟩
    have hquotient : -d.units / pow10 count = -(d.units / pow10 count) :=
      Int.neg_ediv_of_dvd (Int.dvd_of_emod_eq_zero h.2)
    rw [if_pos hneg, if_pos h]
    simp only [neg, hquotient]
  · have hneg : ¬ (count ≤ d.neg.scale ∧ d.neg.units % pow10 count = 0) :=
      fun hneg => h ⟨hneg.1, hzeros.mp hneg.2⟩
    rw [if_neg hneg, if_neg h]

/-- The check in front of dropping eight places asks for a zero remainder too. -/
theorem dropEightPlaces_neg : d.neg.dropEightPlaces = d.dropEightPlaces.neg := by
  have hword : d.neg.units % 4294967296 = 0 ↔ d.units % 4294967296 = 0 := by
    rw [units_neg]
    omega
  simp only [dropEightPlaces, hword, dropPlaces_neg]
  split
  · rfl
  · rfl

theorem trimQuotient_neg : d.neg.trimQuotient = d.trimQuotient.neg := by
  simp only [trimQuotient, dropEightPlaces_neg, dropPlaces_neg]

/-- Division by the same divisor. The number of places is searched for with sizes alone. -/
theorem div?_neg (b : Decimal) : d.neg.div? b = (d.div? b).map neg := by
  have htrim : trimQuotient ∘ neg = neg ∘ trimQuotient := funext trimQuotient_neg
  simp only [div?, isZero_neg, units_neg, scale_neg, Int.natAbs_neg, Int.neg_mul, ofRatio?_neg]
  split
  · rfl
  split
  · rfl
  · rw [Option.map_map, Option.map_map, htrim]

/-- Multiplication by the same factor. -/
theorem mul?_neg (b : Decimal) : d.neg.mul? b = (d.mul? b).map neg := by
  simp only [mul?, isZero_neg, units_neg, scale_neg, Int.neg_mul, ofRatio?_neg]
  split
  · rfl
  · rfl

/-- **The opposite is rounded to the opposite**, and is too large if the value is. Rounding to tens
is a division, a rounding and a product, each of them odd. -/
theorem roundTo?_neg (places : ℤ) : d.neg.roundTo? places = (d.roundTo? places).map neg := by
  unfold roundTo?
  -- to places there is nothing but a rounding
  split
  · rw [round_neg]
    rfl
  · cases powerOfTen? places.natAbs with
    | none => rfl
    | some factor =>
      show (d.neg.div? factor).bind _ = ((d.div? factor).bind _).map neg
      rw [div?_neg]
      cases d.div? factor with
      | none => rfl
      | some scaled =>
        show (scaled.neg.round 0).mul? factor = ((scaled.round 0).mul? factor).map neg
        rw [round_neg, mul?_neg]

/-! ## Rounding again

A rounded value has no more places than were asked for, or is a whole number of tens. Both are what
the same rounding leaves as it is. -/

/-- Rounding to places takes the places away, so the second rounding finds none. -/
theorem round_round (places : ℕ) : (d.round places).round places = d.round places := by
  refine dif_pos ?_
  rcases Nat.lt_or_ge places d.scale with hmany | hfew
  · rw [scale_round_of_lt hmany]
  · rw [round, dif_pos hfew]
    exact hfew

/-- **What was rounded stays as it is.** For tens this is not clear from the steps, as the division
by a power of ten might round the result. It does not, for a multiple of the power is never just
below half of one. -/
theorem roundTo?_stable {places : ℤ} (hlow : -maxPlaces ≤ places) {r : Decimal}
    (h : d.roundTo? places = some r) : r.roundTo? places = some r := by
  rcases Int.lt_or_le places 0 with hneg | hpos
  · obtain ⟨j, hj⟩ := Int.eq_ofNat_of_zero_le (show 0 ≤ -places by omega)
    obtain rfl : places = -(j : ℤ) := by omega
    have hpositive : 0 < j := by omega
    have hle : j ≤ maxScale := by
      unfold maxPlaces at hlow
      simp only [maxScale]
      omega
    -- the result is a count of tens, written without places
    obtain ⟨m, n, hm, hround, hcases⟩ := roundTo?_tens d hpositive hle
    rw [hround, ofUnits?_eq_some_iff] at h
    exact (roundTo?_tens_eq_self_iff r hpositive hle).mpr ⟨h.2, Dvd.intro_left n h.1.symm⟩
  · rw [roundTo?, if_pos hpos] at h ⊢
    cases h
    exact congrArg some (round_round d _)

/-- The number of places that `round` works with is cut off at 28 tens, which is as far as
`roundTo?_stable` goes. -/
theorem neg_maxPlaces_le_places (p : Decimal) : -maxPlaces ≤ p.places := by
  unfold places maxPlaces
  split <;> omega

end Decimal

/-! ## The function -/

open Decimal

/-- **Rounding is stable and odd.** For every value and every number of places, `round` gives a
decimal or overflows. Of a decimal that it gives, it gives that value again; of the opposite value
it gives the opposite, and it overflows on one of the two exactly if it does on the other. Both are
facts on `roundTo?`, which the call is a matter of once its arguments are decimals. -/
theorem round_stable_odd (v p : Decimal) (settings : Settings) :
    let rounded (d : Decimal) :=
      Vocabulary.standard.call "round" [.decimal d, .decimal p] settings
    v.neg.toRat = -v.toRat ∧
    ((∃ r, rounded v = pure (.decimal r)) ∨ rounded v = .fail (.overflow "round")) ∧
    (∀ r, rounded v = pure (.decimal r) →
      (∃ again, rounded r = pure (.decimal again) ∧ again.toRat = r.toRat) ∧
      ∃ opposite, rounded v.neg = pure (.decimal opposite) ∧ opposite.toRat = -r.toRat) ∧
    (rounded v = .fail (.overflow "round") ↔ rounded v.neg = .fail (.overflow "round")) := by
  intro rounded
  -- the call is a matter of whether there is a rounded decimal
  have hcall (d : Decimal) : rounded d = _ := call_round rfl rfl settings
  refine ⟨toRat_neg v, ?_, ?_, ?_⟩
  · rw [hcall]
    cases v.roundTo? p.places with
    | some r => exact .inl ⟨r, rfl⟩
    | none => exact .inr rfl
  · intro r hr
    have hround : v.roundTo? p.places = some r := by
      rw [hcall] at hr
      cases hv : v.roundTo? p.places with
      | none =>
        rw [hv] at hr
        cases congrArg Traced.result hr
      | some other =>
        rw [hv] at hr
        cases congrArg Traced.result hr
        rfl
    constructor
    · have hagain := roundTo?_stable v (neg_maxPlaces_le_places p) hround
      refine ⟨r, ?_, rfl⟩
      rw [hcall, hagain]
    · refine ⟨r.neg, ?_, toRat_neg r⟩
      rw [hcall, roundTo?_neg, hround]
      rfl
  · rw [hcall, hcall, roundTo?_neg]
    cases v.roundTo? p.places with
    | none => exact Iff.rfl
    | some r =>
      constructor
      · intro h
        cases congrArg Traced.result h
      · intro h
        cases congrArg Traced.result h

end Stencil
