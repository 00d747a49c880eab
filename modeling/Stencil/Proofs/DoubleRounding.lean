import Stencil.Proofs.Abort
import Stencil.Proofs.Quotient

/-!
# A quotient that is rounded twice

Division rounds a quotient to the widest places that hold it, and then to the configured ones. Two
roundings are not one: the first can go up to a midpoint, from where the second goes up again, and
if there is no room for the second, the first has sent a half to the even unit.

* **`DoublyRounded`** — the numbers that this happens to.
* **`two_steps`** — a multiple too far is reached only over a midpoint.
* **`rounded_twice`** — for numbers that are not doubly rounded the two roundings are one, and for
  the others they are one unit off. Fewer, as many and more places than the widest ones are three
  lemmas.
* **`divide_rounds_once`** — the same of the operator `/`.
-/

namespace Stencil.Decimal

/-- Rounding `q` to the widest places first, and from there to `places`, misses the nearest
multiple. -/
inductive DoublyRounded (places : ℕ) (q : ℚ) : Prop where
  /-- The first rounding goes up to a midpoint, from where the second one goes up once more. -/
  | below {widest : ℕ} (hwidest : Widest q widest) {units : ℤ} {n : ℕ}
      (hunits : NearestEven (|q| * pow10 widest) units)
      (hmidpoint : (units / pow10 widest : ℚ) = (n + 1 / 2) / pow10 places)
      (hlt : |q| < (n + 1 / 2) / pow10 places)
  /-- There is no room for a second rounding, and the first one goes down from a midpoint. -/
  | even {n : ℕ} (hwidest : Widest q places) (hmidpoint : |q| = (n + 1 / 2) / pow10 places)
      (heven : Even n)

/-- A number and its negative are doubly rounded together, since both roundings are symmetric around
zero. -/
theorem DoublyRounded.neg {places : ℕ} {q : ℚ} (h : DoublyRounded places q) :
    DoublyRounded places (-q) := by
  cases h with
  | below hwidest hunits hmidpoint hlt =>
    rw [← abs_neg] at hunits hlt
    exact .below hwidest.neg hunits hmidpoint hlt
  | even hwidest hmidpoint heven =>
    rw [← abs_neg] at hmidpoint
    exact .even hwidest.neg hmidpoint heven

/-- **Rounding in two steps**, to whole numbers, a half to even, and from there to multiples of `2 *
half`, a half up: one multiple too far is reached only over a midpoint. The first step moves the
number by half a unit at most, and the midpoint is a whole number, so nothing between two midpoints
is moved across one of them. -/
theorem two_steps {x y : ℚ} {half units h h' : ℤ} (hhalf : 1 ≤ half) (hx : x = y * (2 * half))
    (hunits : NearestEven x units) (hlow : h - 1 / 2 ≤ y) (hhigh : y < h + 1 / 2)
    (hlow' : (2 * h' - 1) * half ≤ units) (hhigh' : units < (2 * h' + 1) * half) :
    h' = h ∨ h' = h + 1 ∧ units = (2 * h' - 1) * half ∧ x < units := by
  have hhalf' : (1 : ℚ) ≤ half := by exact_mod_cast hhalf
  have hwidth : (0 : ℚ) ≤ 2 * half := by linarith
  obtain ⟨hnear, hnear'⟩ := abs_le.mp hunits.near
  have hle : (units : ℚ) + 1 ≤ (2 * h' + 1) * half := by exact_mod_cast hhigh'
  have hge : (2 * h' - 1) * (half : ℚ) ≤ units := by exact_mod_cast hlow'
  have hyhigh : y < h' + 1 / 2 := lt_of_mul_lt_mul_right (by linarith) hwidth
  have hylow : (h' : ℚ) - 3 / 2 < y := lt_of_mul_lt_mul_right (by linarith) hwidth
  -- the two multiples are less than two units apart
  have hcases : h' = h ∨ h' = h + 1 := by
    have h1 : h < h' + 1 := by
      have : (h : ℚ) < h' + 1 := by linarith
      exact_mod_cast this
    have h2 : h' < h + 2 := by
      have : (h' : ℚ) < h + 2 := by linarith
      exact_mod_cast this
    omega
  refine hcases.imp_right fun hnext => ⟨hnext, ?_⟩
  -- the number is below the midpoint between the two multiples, and its rounding is not
  have hymid : y < h' - 1 / 2 := by
    rw [hnext]
    push_cast
    linarith
  have hxmid : x < (2 * h' - 1) * half := by
    have := mul_lt_mul_of_pos_right hymid (show (0 : ℚ) < 2 * half by linarith)
    linarith
  refine ⟨?_, by linarith⟩
  have hmid : units < (2 * h' - 1) * half + 1 := by
    have : (units : ℚ) < (2 * h' - 1) * half + 1 := by linarith
    exact_mod_cast this
  omega

section Twice

variable {q p r d : ℚ} {places widest : ℕ} {units : ℤ}

/-- The interval around a multiple of a unit of decimal places, counted in that unit. -/
theorem roundsTo_places_iff (hq : 0 ≤ q) (places : ℕ) (n : ℤ) :
    RoundsTo (1 / pow10 places) q (n * (1 / pow10 places)) ↔
      n - 1 / 2 ≤ q * pow10 places ∧ q * pow10 places < n + 1 / 2 := by
  have hpow := pow10_pos_rat places
  rw [RoundsTo.iff_of_nonneg (by positivity) hq, mul_one_div, mul_one_div, div_le_iff₀ hpow,
    lt_div_iff₀ hpow]

/-- A midpoint is not a whole number of units. -/
theorem intCast_ne_add_half (m : ℤ) (n : ℕ) : (m : ℚ) ≠ n + 1 / 2 := by
  intro h
  have htwice : 2 * m = 2 * (n : ℤ) + 1 := by
    have : 2 * (m : ℚ) = 2 * n + 1 := by linarith
    exact_mod_cast this
  omega

/-- **Both kinds of doubly rounded numbers**, told from the units of the first rounding. The
definition speaks of some widest places and some nearest units; both are unique, so they are those
at hand. -/
theorem doublyRounded_iff (hq : 0 ≤ q) (hwidest : Widest q widest)
    (hunits : NearestEven (q * pow10 widest) units) :
    DoublyRounded places q ↔
      (∃ n : ℕ, units / pow10 widest * pow10 places = (n : ℚ) + 1 / 2 ∧
        q * pow10 places < n + 1 / 2) ∨
      widest = places ∧ ∃ n : ℕ, q * pow10 places = n + 1 / 2 ∧ Even n := by
  have hpow := pow10_pos_rat places
  constructor
  · intro h
    cases h with
    | @below widest' hwidest' units' n hunits' hmidpoint hlt =>
      -- the places and the units of the definition are those at hand
      obtain rfl := hwidest.unique hwidest'
      rw [abs_of_nonneg hq] at hunits' hlt
      obtain rfl := hunits.unique hunits'
      exact .inl ⟨n, (eq_div_iff hpow.ne').mp hmidpoint, (lt_div_iff₀ hpow).mp hlt⟩
    | @even n hwidest' hmidpoint heven =>
      rw [abs_of_nonneg hq] at hmidpoint
      exact .inr ⟨hwidest.unique hwidest', n, (eq_div_iff hpow.ne').mp hmidpoint, heven⟩
  · rintro (⟨n, hmidpoint, hlt⟩ | ⟨rfl, n, hmidpoint, heven⟩)
    · refine @DoublyRounded.below places q _ hwidest units n ?_ ((eq_div_iff hpow.ne').mpr hmidpoint) ?_
      · rwa [abs_of_nonneg hq]
      · rw [abs_of_nonneg hq]
        exact (lt_div_iff₀ hpow).mpr hlt
    · refine .even hwidest ?_ heven
      rw [abs_of_nonneg hq]
      exact (eq_div_iff hpow.ne').mpr hmidpoint

/-- **With fewer places than the widest ones**, the result is too far only if the first rounding
went up to a midpoint. A unit of the final places is ten, a hundred or more units of the widest
ones, an even number, so `two_steps` applies with half of it. -/
theorem rounded_of_gt (hq : 0 ≤ q) (hplaces : places < widest) (hwidest : Widest q widest)
    (hunits : NearestEven (q * pow10 widest) units) (hp : p = units / pow10 widest)
    (hr : RoundsTo (1 / pow10 places) q r) (hd : RoundsTo (1 / pow10 places) p d) :
    d = r ∧ ¬ DoublyRounded places q ∨ |d - r| = 1 / pow10 places ∧ DoublyRounded places q := by
  have hpow := pow10_pos_rat places
  rw [doublyRounded_iff hq hwidest hunits, ← hp]
  obtain ⟨more, rfl⟩ := Nat.exists_eq_add_of_lt hplaces
  -- a unit of the final places has an even number of units of the widest ones
  have hwidth : (pow10 (places + more + 1) : ℚ) = pow10 places * (2 * (5 * pow10 more : ℤ)) := by
    rw [pow10_succ, pow10_add]
    push_cast
    ring
  have hfull : (0 : ℚ) < 2 * (5 * pow10 more : ℤ) := by
    have := pow10_pos_rat more
    push_cast
    linarith
  have hpunits : p * pow10 places * (2 * (5 * pow10 more : ℤ)) = units := by
    rw [mul_assoc, ← hwidth, hp, div_mul_cancel₀]
    exact (pow10_pos_rat _).ne'
  have hp0 : 0 ≤ p := by
    have hpos := pow10_pos_rat (places + more + 1)
    have hunits0 : (0 : ℚ) ≤ units := by
      exact_mod_cast hunits.nonneg (mul_nonneg hq hpos.le)
    rw [hp]
    positivity
  obtain ⟨h, rfl⟩ := hr.multiple
  obtain ⟨h', rfl⟩ := hd.multiple
  obtain ⟨hlow, hhigh⟩ := (roundsTo_places_iff hq places h).mp hr
  obtain ⟨hlow', hhigh'⟩ := (roundsTo_places_iff hp0 places h').mp hd
  have hsteps : h' = h ∨ h' = h + 1 ∧ units = (2 * h' - 1) * (5 * pow10 more) ∧
      q * pow10 (places + more + 1) < units := two_steps
    (by have := pow10_pos more; omega) (by rw [hwidth, mul_assoc]) hunits hlow hhigh
    (by
      have := mul_le_mul_of_nonneg_right hlow' hfull.le
      rw [hpunits] at this
      have : (2 * (h' : ℚ) - 1) * (5 * pow10 more : ℤ) ≤ units := by linarith
      exact_mod_cast this)
    (by
      have := mul_lt_mul_of_pos_right hhigh' hfull
      rw [hpunits] at this
      have : (units : ℚ) < (2 * h' + 1) * (5 * pow10 more : ℤ) := by linarith
      exact_mod_cast this)
  -- either the second rounding ends at the nearest multiple or one further
  rcases hsteps with rfl | ⟨rfl, hmidpoint, hlt⟩
  · refine .inl ⟨rfl, ?_⟩
    rintro (⟨n, hmidpoint, hlt⟩ | ⟨hsame, _⟩)
    · -- then the first rounding would be at a midpoint above the number
      have hbelow : (h' : ℚ) < n + 1 := by linarith
      have habove : (n : ℚ) < h' := by linarith
      have hbelow' : h' < (n : ℤ) + 1 := by exact_mod_cast hbelow
      have habove' : (n : ℤ) < h' := by exact_mod_cast habove
      omega
    · omega
  · have hh : 0 ≤ h := nonneg_of_le_add_half (mul_nonneg hq hpow.le) hhigh.le
    obtain ⟨n, rfl⟩ := Int.eq_ofNat_of_zero_le hh
    refine .inr ⟨?_, .inl ⟨n, ?_, by exact_mod_cast hhigh⟩⟩
    · push_cast
      rw [← sub_mul, add_sub_cancel_left, one_mul]
      exact abs_of_pos (by positivity)
    · refine mul_right_cancel₀ hfull.ne' ?_
      rw [hpunits, hmidpoint]
      push_cast
      ring

/-- **Without a second rounding**, the first one decides. It goes to even where rounding once goes
away from zero, so the two differ at a midpoint whose lower neighbour is even, and only there. -/
theorem rounded_of_eq (hq : 0 ≤ q) (hwidest : Widest q places)
    (hunits : NearestEven (q * pow10 places) units) (hp : p = units / pow10 places)
    (hr : RoundsTo (1 / pow10 places) q r) (hd : RoundsTo (1 / pow10 places) p d) :
    d = r ∧ ¬ DoublyRounded places q ∨ |d - r| = 1 / pow10 places ∧ DoublyRounded places q := by
  have hpow := pow10_pos_rat places
  have hunit : (0 : ℚ) < 1 / pow10 places := by positivity
  obtain rfl : d = units * (1 / pow10 places) := by
    rw [hp, div_eq_mul_one_div (units : ℚ)] at hd
    exact hd.unique hunit (.self_of_multiple hunit units)
  rw [doublyRounded_iff hq hwidest hunits, div_mul_cancel₀ _ hpow.ne']
  obtain ⟨n, rfl⟩ := Int.eq_ofNat_of_zero_le (hunits.nonneg (mul_nonneg hq hpow.le))
  obtain ⟨h, rfl⟩ := hr.multiple
  obtain ⟨hlow, hhigh⟩ := (roundsTo_places_iff hq places h).mp hr
  obtain ⟨hnear, hnear'⟩ := abs_le.mp hunits.near
  push_cast at hnear hnear'
  -- either the first rounding is not at a midpoint, and then it is the nearest multiple, or it is,
  -- and goes down to an even unit
  rcases lt_or_eq_of_le hnear' with hbelow | htie
  · have hh : h = n := eq_of_lt_add_one (by push_cast; linarith) (by push_cast; linarith)
    refine .inl ⟨by rw [hh], ?_⟩
    rintro (⟨m, hmidpoint, _⟩ | ⟨_, m, hmidpoint, heven⟩)
    · exact intCast_ne_add_half n m hmidpoint
    · have hm : NearestEven (q * pow10 places) m := by
        refine ⟨?_, fun _ => by exact_mod_cast heven⟩
        rw [hmidpoint, Int.cast_natCast, add_sub_cancel_left]
        norm_num
      have hmn : (m : ℚ) = n := by exact_mod_cast (hunits.unique hm).symm
      linarith
  · have hy : q * pow10 places = n + 1 / 2 := by linarith
    have heven : Even n := by
      have := hunits.even (by push_cast; rw [htie]; norm_num)
      exact_mod_cast this
    have hh : h = n + 1 := eq_of_lt_add_one (by push_cast; linarith) (by push_cast; linarith)
    refine .inr ⟨?_, .inr ⟨rfl, n, hy, heven⟩⟩
    rw [hh]
    push_cast
    rw [← sub_mul, sub_add_cancel_left, abs_mul, abs_neg, abs_one, one_mul, abs_of_pos hunit]

/-- A decimal with more places than the widest ones would be out of range: it is within half a unit
of the number, and the number has no room for another place. So its units can be counted in the
widest places. -/
theorem exists_units_of_widest (hq : 0 ≤ q) (hplaces : widest < places) (hwidest : Widest q widest)
    {c : Decimal} (hc : q * pow10 places < c.toRat * pow10 places + 1 / 2) :
    ∃ z : ℤ, c.toRat = z / pow10 widest := by
  have hpow := pow10_pos_rat places
  rcases Nat.lt_or_ge widest c.scale with hmany | hfew
  · exfalso
    have hle := c.scale_le
    have hmore : unitBound - 1 / 2 ≤ q * pow10 (widest + 1) := by
      rcases hwidest.more with hlast | hmore
      · omega
      · rwa [abs_of_nonneg hq] at hmore
    have hnext := pow10_pos_rat (widest + 1)
    have hvalue : c.toRat * pow10 (widest + 1) ≤ unitBound - 1 := by
      calc c.toRat * pow10 (widest + 1) ≤ |c.toRat| * pow10 c.scale :=
            mul_le_mul (le_abs_self _) (pow10_mono hmany) hnext.le (abs_nonneg _)
        _ ≤ unitBound - 1 := abs_toRat_le c
    have hratio : (pow10 (widest + 1) : ℚ) ≤ pow10 places := pow10_mono hplaces
    -- the distance from the exact number is less than half a unit
    have hdistance : q - c.toRat < 1 / 2 / pow10 places := by
      rw [lt_div_iff₀ hpow, sub_mul]
      linarith
    have hhalf : (q - c.toRat) * pow10 (widest + 1) < 1 / 2 := by
      rcases le_or_gt q c.toRat with hup | hdown
      · have := mul_nonpos_of_nonpos_of_nonneg (sub_nonpos.mpr hup) hnext.le
        linarith
      · calc (q - c.toRat) * pow10 (widest + 1) ≤ (q - c.toRat) * pow10 places :=
              mul_le_mul_of_nonneg_left hratio (by linarith)
          _ < 1 / 2 := (lt_div_iff₀ hpow).mp hdistance
    generalize (unitBound : ℚ) = bound at *
    linarith
  · obtain ⟨more, rfl⟩ := Nat.exists_eq_add_of_le hfew
    have hscale := (pow10_pos_rat c.scale).ne'
    have hmore := (pow10_pos_rat more).ne'
    refine ⟨c.units * pow10 more, ?_⟩
    rw [toRat, pow10_add]
    push_cast
    field_simp

/-- **With more places than the widest ones**, a rounding that is a decimal has no more than the
widest places, and the first rounding gives it already. It is not doubly rounded then, for a
midpoint of the final places is no such decimal. -/
theorem rounded_of_lt (hq : 0 ≤ q) (hplaces : widest < places) (hwidest : Widest q widest)
    (hunits : NearestEven (q * pow10 widest) units) (hp : p = units / pow10 widest) {c : Decimal}
    (hr : RoundsTo (1 / pow10 places) q c.toRat) (hd : RoundsTo (1 / pow10 places) p d) :
    d = c.toRat ∧ ¬ DoublyRounded places q := by
  have hpow := pow10_pos_rat places
  have hunit : (0 : ℚ) < 1 / pow10 places := by positivity
  have hpow' := pow10_pos_rat widest
  obtain ⟨h, hh⟩ := hr.multiple
  have hscaled : c.toRat * pow10 places = h := by
    rw [hh, one_div, inv_mul_cancel_right₀ hpow.ne']
  rw [hh] at hr
  obtain ⟨hlow, hhigh⟩ := (roundsTo_places_iff hq places h).mp hr
  obtain ⟨z, hz⟩ :=
    exists_units_of_widest hq hplaces hwidest (c := c) (by rw [hscaled]; exact hhigh)
  -- the decimal is a multiple of the widest unit, and so near that the first rounding is that
  -- multiple
  obtain rfl : units = z := by
    refine hunits.unique ?_
    obtain ⟨more, rfl⟩ := Nat.exists_eq_add_of_lt hplaces
    have hten : (pow10 widest : ℚ) * 10 ≤ pow10 (widest + more + 1) := by
      have hmono : (pow10 (widest + 1) : ℚ) ≤ pow10 (widest + more + 1) := pow10_mono (by omega)
      rw [pow10_succ] at hmono
      push_cast at hmono
      linarith
    have hsame : c.toRat * pow10 widest = z := by rw [hz, div_mul_cancel₀ _ hpow'.ne']
    have hdistance : |q - c.toRat| * (pow10 widest * 10) ≤ 1 / 2 := by
      have hnear : |q - c.toRat| * pow10 (widest + more + 1) ≤ 1 / 2 := by
        rw [← abs_of_pos hpow, ← abs_mul, sub_mul, hscaled, abs_le]
        constructor <;> linarith
      exact (mul_le_mul_of_nonneg_left hten (abs_nonneg _)).trans hnear
    have hclose : |q * pow10 widest - z| < 1 / 2 := by
      rw [← hsame, ← sub_mul, abs_mul, abs_of_pos hpow']
      linarith
    exact ⟨hclose.le, fun htie => absurd htie hclose.ne⟩
  have hpc : p = c.toRat := by rw [hp, hz]
  refine ⟨?_, ?_⟩
  · rw [hpc, hh] at hd
    rw [hh]
    exact hd.unique hunit (.self_of_multiple hunit h)
  · rw [doublyRounded_iff hq hwidest hunits, ← hz, hscaled]
    rintro (⟨n, hmidpoint, _⟩ | ⟨hsame, _⟩)
    · exact intCast_ne_add_half h n hmidpoint
    · omega

/-- Neither rounding goes past zero. -/
theorem mul_nonneg_of_rounded_twice (hunits : NearestEven (q * pow10 widest) units)
    (hp : p = units / pow10 widest) (hd : RoundsTo (1 / pow10 places) p d) : 0 ≤ q * d := by
  have hpow := (pow10_pos_rat widest).le
  have hunit : (0 : ℚ) < 1 / pow10 places := one_div_pos.mpr (pow10_pos_rat places)
  rcases le_total 0 q with hq | hq
  · have hunits0 : (0 : ℚ) ≤ units := by exact_mod_cast hunits.nonneg (mul_nonneg hq hpow)
    exact mul_nonneg hq (hd.nonneg hunit (by rw [hp]; exact div_nonneg hunits0 hpow))
  · have hunits0 : (units : ℚ) ≤ 0 := by
      exact_mod_cast hunits.nonpos (mul_nonpos_of_nonpos_of_nonneg hq hpow)
    exact mul_nonneg_of_nonpos_of_nonpos hq
      (hd.nonpos hunit (by rw [hp]; exact div_nonpos_of_nonpos_of_nonneg hunits0 hpow))

/-- **Rounding to the widest places first and from there to fewer ones** gives the nearest multiple,
unless it is one of the numbers for which it gives the next one. Negative numbers are the opposites
of positive ones, and for those there are the three cases of final places against widest ones. -/
theorem rounded_twice (hwidest : Widest q widest) (hunits : NearestEven (q * pow10 widest) units)
    (hp : p = units / pow10 widest) {c : Decimal} (hr : RoundsTo (1 / pow10 places) q c.toRat)
    (hd : RoundsTo (1 / pow10 places) p d) :
    d = c.toRat ∧ ¬ DoublyRounded places q ∨
      |d - c.toRat| = 1 / pow10 places ∧ DoublyRounded places q := by
  wlog hq : 0 ≤ q generalizing q p d units c
  · have hunits' : NearestEven (-q * pow10 widest) (-units) := by
      rw [neg_mul]
      exact hunits.neg
    have hp' : -p = (-units : ℤ) / pow10 widest := by
      rw [hp]
      push_cast
      ring
    have hneg := this (c := c.neg) hwidest.neg hunits' hp' (by rw [toRat_neg]; exact hr.neg) hd.neg
      (by linarith)
    rw [toRat_neg, neg_inj, neg_sub_neg, abs_sub_comm] at hneg
    have hsymm : DoublyRounded places (-q) ↔ DoublyRounded places q :=
      ⟨fun h => by simpa using h.neg, DoublyRounded.neg⟩
    rwa [hsymm] at hneg
  -- fewer places than the widest ones, as many, or more
  rcases Nat.lt_trichotomy places widest with hgt | rfl | hlt
  · exact rounded_of_gt hq hgt hwidest hunits hp hr hd
  · exact rounded_of_eq hq hwidest hunits hp hr hd
  · exact .inl (rounded_of_lt hq hlt hwidest hunits hp hr hd)

end Twice

/-! ## The operator

The operator divides to the widest places and rounds what it gets to the configured ones, which is
the second rounding. The quotient is in range whenever the rounded value is, so that an overflow
cannot come up under the hypothesis of the theorem. -/

/-- A quotient overflows if its absolute value, rounded to a whole number, is beyond the units of a
decimal. -/
theorem div?_eq_none_iff (a : Decimal) {b : Decimal} (hb : b.units ≠ 0) :
    a.div? b = none ↔ unitBound - 1 / 2 ≤ |a.toRat / b.toRat| := by
  have hden := dividend_pos a hb
  rw [← Option.map_eq_none_iff (f := toRat), toRat_div? a hb, Option.map_eq_none_iff,
    ofRatio?_eq_none_iff _ hden, ← ratio_eq a hb, ← Nat.not_lt, halfEven_lt_unitBound_iff _ hden,
    not_lt]
  have habs := abs_intCast_div (a.units * pow10 b.scale * b.units.sign)
    (b.units.natAbs * pow10 a.scale) 1
  rw [Nat.cast_one, mul_one, Nat.mul_one] at habs
  rw [habs]

/-- A quotient of which the rounded value is in range is in range itself. -/
theorem div?_ne_none_of_roundsTo {a b c : Decimal} (hb : b.units ≠ 0) {places : ℕ}
    (hr : RoundsTo (1 / pow10 places) (a.toRat / b.toRat) c.toRat) : a.div? b ≠ none := by
  rw [Ne, div?_eq_none_iff a hb, not_le]
  generalize a.toRat / b.toRat = q at hr
  wlog hq : 0 ≤ q generalizing q c
  · rw [← abs_neg]
    exact this (c := c.neg) (-q) (by rw [toRat_neg]; exact hr.neg) (by linarith)
  have hpow := pow10_pos_rat places
  obtain ⟨h, hh⟩ := hr.multiple
  rw [hh] at hr
  obtain ⟨_, hhigh⟩ := (RoundsTo.iff_of_nonneg (by positivity) hq h).mp hr
  have hunit : 1 / (pow10 places : ℚ) ≤ 1 := by
    rw [div_le_one hpow]
    exact one_le_pow10 places
  have hbound := (le_abs_self _).trans (abs_toRat_le_bound c)
  rw [abs_of_nonneg hq]
  -- the bound is a number of thirty digits, of which nothing is needed
  generalize (unitBound : ℚ) = bound at *
  linarith

end Stencil.Decimal

namespace Stencil

open Decimal

/-- On numbers with a quotient, the operator rounds this quotient to the configured places. -/
theorem Operator.divide_eq {left right : Value} {a b p : Decimal} (ha : left.toDecimal? = some a)
    (hb : right.toDecimal? = some b) (hzero : b.units ≠ 0) (hp : a.div? b = some p)
    (settings : Settings) :
    Operator.divide left right settings =
      pure (.decimal (p.round settings.evaluation.decimalScale)) := by
  have ha' : left.expectDecimal "/" = .ok a := Clock.expectDecimal_eq_ok_iff.mpr ha
  have hb' : right.expectDecimal "/" = .ok b := Clock.expectDecimal_eq_ok_iff.mpr hb
  have hnot : b.isZero = false := by simpa [isZero] using hzero
  unfold Operator.divide Operator.ofDecimals
  rw [ha', hb']
  simp only [bind, Except.bind, hnot, hp, Operator.checked]
  rfl

/-- The sign of division means this operator where an engine starts. -/
theorem standard_operate_divide (left right : Value) (settings : Settings) :
    Vocabulary.standard.operate "/" left right settings = Operator.divide left right settings := rfl

/-- **A quotient is rounded once**, a half away from zero, to the configured number of places, if
the result is a decimal. The numbers that `DoublyRounded` names are the exception, and exactly
these: for them the result is one unit of the last place off. The division itself has rounded
before, to as many places as fit, and `rounded_twice` says when that shows. -/
theorem divide_rounds_once {left right : Value} {a b : Decimal} (ha : left.toDecimal? = some a)
    (hb : right.toDecimal? = some b) (hzero : b.toRat ≠ 0) (settings : Settings) {r : Decimal}
    (hr : RoundsTo (1 / pow10 settings.evaluation.decimalScale) (a.toRat / b.toRat) r.toRat) :
    ∃ d, Vocabulary.standard.operate "/" left right settings = pure (.decimal d) ∧
      (d.toRat = r.toRat ∧ ¬ DoublyRounded settings.evaluation.decimalScale (a.toRat / b.toRat) ∨
        |d.toRat - r.toRat| = 1 / pow10 settings.evaluation.decimalScale ∧
          DoublyRounded settings.evaluation.decimalScale (a.toRat / b.toRat)) := by
  have hunits : b.units ≠ 0 := by
    intro h
    exact hzero (by rw [toRat, h, Int.cast_zero, zero_div])
  obtain ⟨p, hp⟩ := Option.ne_none_iff_exists'.mp (div?_ne_none_of_roundsTo hunits hr)
  -- the quotient is the nearest one at the widest places, and the operator rounds it again
  obtain ⟨widest, units, hwidest, hnearest, hvalue⟩ := div?_nearest hunits hp
  refine ⟨p.round settings.evaluation.decimalScale, ?_,
    rounded_twice hwidest hnearest hvalue hr (roundsTo_round p _)⟩
  rw [standard_operate_divide, Operator.divide_eq ha hb hunits hp]

/-- Two thirds to two places, with one of the operands as a text. -/
theorem divide_rounds_once_two_thirds :
    RoundsTo (1 / pow10 2) ((ofNat 2).toRat / (ofNat 3).toRat)
      (⟨67, 2, by decide, by decide⟩ : Decimal).toRat ∧
    ∃ d, Vocabulary.standard.operate "/" (.decimal (ofNat 2)) (.string "3")
        ⟨{}, { decimalScale := 2 }⟩ = pure (.decimal d) ∧
      (d.toRat = (⟨67, 2, by decide, by decide⟩ : Decimal).toRat ∧
          ¬ DoublyRounded 2 ((ofNat 2).toRat / (ofNat 3).toRat) ∨
        |d.toRat - (⟨67, 2, by decide, by decide⟩ : Decimal).toRat| = 1 / pow10 2 ∧
          DoublyRounded 2 ((ofNat 2).toRat / (ofNat 3).toRat)) := by
  have hr : RoundsTo (1 / pow10 2) ((ofNat 2).toRat / (ofNat 3).toRat)
      (⟨67, 2, by decide, by decide⟩ : Decimal).toRat := by
    refine ⟨⟨67, ?_⟩, ?_, fun htie => absurd htie ?_⟩ <;>
      norm_num [toRat, ofNat, pow10, abs_of_neg]
  exact ⟨hr, divide_rounds_once rfl (by decide +kernel) (by norm_num [toRat, ofNat, pow10]) _ hr⟩

/-- A quotient just below `1 / 2` is rounded up to `1 / 2`, and from there to one. -/
theorem divide_just_below_half :
    RoundsTo (1 / pow10 0)
      ((⟨49999999999999999999999999999, 28, by decide, by decide⟩ : Decimal).toRat /
        (ofNat 10).toRat) zero.toRat ∧
    ∃ d, Vocabulary.standard.operate "/"
        (.decimal ⟨49999999999999999999999999999, 28, by decide, by decide⟩) (.decimal (ofNat 10))
        ⟨{}, { decimalScale := 0 }⟩ = pure (.decimal d) ∧ d.toRat = 1 := by
  constructor
  · refine ⟨⟨0, ?_⟩, ?_, fun htie => absurd htie ?_⟩ <;>
      norm_num [toRat, ofNat, zero, pow10, abs_of_pos]
  · -- division keeps 28 places here, and these round up to one half
    have hdivide : div? ⟨49999999999999999999999999999, 28, by decide, by decide⟩ (ofNat 10) =
        some ⟨500000000000000000000, 21, by decide, by decide⟩ := by
      rw [div?_of_places (by decide) (by decide)
        (show quotientPlaces _ _ _ = 28 by rw [quotientPlaces]; rfl)]
      decide +kernel
    refine ⟨ofNat 1, ?_, by norm_num [toRat, ofNat, pow10]⟩
    rw [standard_operate_divide, Operator.divide_eq rfl rfl (by decide) hdivide]
    rfl

end Stencil
