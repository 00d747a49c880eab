import Mathlib.Algebra.Order.Field.Basic
import Mathlib.Algebra.Order.Ring.Rat
import Mathlib.Data.Rat.Floor
import Mathlib.Tactic.FieldSimp
import Mathlib.Tactic.Linarith
import Mathlib.Tactic.Positivity
import Mathlib.Tactic.Ring
import Stencil.Proofs.Magnitude

/-!
# Rounding, stated over the rationals

A decimal stands for a rational number, and its arithmetic rounds in two ways: to whole units with a
half to the even one, and to fewer places with a half away from zero. Both are relations here, which
say what the result is and leave open how it is found.

* **`RoundsTo`** — the nearest multiple of a unit, a half away from zero; `RoundsTo.unique`.
* **`NearestEven`** — the nearest whole number, a half to even; `NearestEven.unique`.
* **`nearestEven_halfEven`**, **`roundsTo_round`** — the two roundings of decimals do what they
  should.
* **`wholePart`**, **`trunc_eq_wholePart`** — what is left of a number without its fraction.
-/

namespace Stencil

theorem eq_of_lt_add_one {m n : ℤ} (h : (m : ℚ) < n + 1) (h' : (n : ℚ) < m + 1) : m = n := by
  have : m < n + 1 := by exact_mod_cast h
  have : n < m + 1 := by exact_mod_cast h'
  omega

theorem nonneg_of_le_add_half {x : ℚ} {n : ℤ} (hx : 0 ≤ x) (h : x ≤ n + 1 / 2) : 0 ≤ n := by
  have : (-1 : ℚ) < n := by linarith
  have : (-1 : ℤ) < n := by exact_mod_cast this
  omega

/-- `r` is the multiple of `unit` that is nearest to `q`. Of two multiples that are equally near it
is the one farther from zero. -/
structure RoundsTo (unit q r : ℚ) : Prop where
  multiple : ∃ n : ℤ, r = n * unit
  near : |q - r| ≤ unit / 2
  away : |q - r| = unit / 2 → |q| ≤ |r|

namespace RoundsTo

variable {unit q r s : ℚ}

/-- Rounding is symmetric around zero: ties go away from it on both sides. So in what follows only
numbers that are not negative need to be considered. -/
theorem neg (h : RoundsTo unit q r) : RoundsTo unit (-q) (-r) := by
  obtain ⟨n, hn⟩ := h.multiple
  have hdistance : |-q - -r| = |q - r| := by rw [neg_sub_neg, abs_sub_comm]
  refine ⟨⟨-n, by rw [hn]; push_cast; ring⟩, ?_, ?_⟩
  · rw [hdistance]
    exact h.near
  · rw [hdistance, abs_neg, abs_neg]
    exact h.away

/-- A number that is not negative lies in the interval around its nearest multiple that is open to
the right: a tie belongs to the larger multiple. So for these numbers the rounding is a bound on
both sides, which is how it is computed. -/
theorem iff_of_nonneg (hunit : 0 < unit) (hq : 0 ≤ q) (n : ℤ) :
    RoundsTo unit q (n * unit) ↔ (n - 1 / 2) * unit ≤ q ∧ q < (n + 1 / 2) * unit := by
  constructor
  · intro h
    have hnear := abs_le.mp h.near
    have hlow : (n - 1 / 2) * unit ≤ q := by linarith [hnear.1]
    refine ⟨hlow, lt_of_le_of_ne (by linarith [hnear.2]) fun htie => ?_⟩
    -- the tie with the next multiple would be closer to zero than the number
    have hdistance : q - n * unit = unit / 2 := by rw [htie]; ring
    have haway := h.away (by rw [hdistance, abs_of_pos (by linarith)])
    rw [abs_of_nonneg hq, abs_mul, abs_of_pos hunit] at haway
    have hn : (0 : ℚ) ≤ n := by
      rw [htie] at hq
      exact_mod_cast nonneg_of_le_add_half le_rfl (nonneg_of_mul_nonneg_left hq hunit)
    rw [abs_of_nonneg hn] at haway
    linarith
  · rintro ⟨hlow, hhigh⟩
    refine ⟨⟨n, rfl⟩, abs_le.mpr ⟨by linarith, by linarith⟩, fun htie => ?_⟩
    have hle : q ≤ n * unit := by
      by_contra hlt
      rw [abs_of_pos (by linarith)] at htie
      linarith
    rw [abs_of_nonneg hq]
    exact hle.trans (le_abs_self _)

/-- A number has one nearest multiple. The intervals of two multiples do not meet. -/
theorem unique (hunit : 0 < unit) (h : RoundsTo unit q r) (h' : RoundsTo unit q s) : r = s := by
  wlog hq : 0 ≤ q generalizing q r s
  · exact neg_injective (this h.neg h'.neg (by linarith))
  obtain ⟨m, rfl⟩ := h.multiple
  obtain ⟨n, rfl⟩ := h'.multiple
  obtain ⟨hm, hm'⟩ := (iff_of_nonneg hunit hq m).mp h
  obtain ⟨hn, hn'⟩ := (iff_of_nonneg hunit hq n).mp h'
  have hmn : (m : ℚ) - 1 / 2 < n + 1 / 2 := lt_of_mul_lt_mul_right (hm.trans_lt hn') hunit.le
  have hnm : (n : ℚ) - 1 / 2 < m + 1 / 2 := lt_of_mul_lt_mul_right (hn.trans_lt hm') hunit.le
  rw [eq_of_lt_add_one (m := m) (n := n) (by linarith) (by linarith)]

/-- A number that is not negative is rounded to one that is not. -/
theorem nonneg (hunit : 0 < unit) (hq : 0 ≤ q) (h : RoundsTo unit q r) : 0 ≤ r := by
  obtain ⟨n, rfl⟩ := h.multiple
  obtain ⟨_, hhigh⟩ := (iff_of_nonneg hunit hq n).mp h
  have hn : (0 : ℚ) ≤ n := by
    have hhalf : (0 : ℚ) ≤ n + 1 / 2 := nonneg_of_mul_nonneg_left (hq.trans hhigh.le) hunit
    exact_mod_cast nonneg_of_le_add_half le_rfl hhalf
  exact mul_nonneg hn hunit.le

theorem nonpos (hunit : 0 < unit) (hq : q ≤ 0) (h : RoundsTo unit q r) : r ≤ 0 :=
  neg_nonneg.mp (h.neg.nonneg hunit (neg_nonneg.mpr hq))

theorem self_of_multiple (hunit : 0 < unit) (n : ℤ) : RoundsTo unit (n * unit) (n * unit) := by
  refine ⟨⟨n, rfl⟩, ?_, fun _ => le_refl _⟩
  rw [sub_self, abs_zero]
  linarith

/-- Every number has a nearest multiple: the floor of the number of units, half a unit further up.
-/
theorem exists_multiple (hunit : 0 < unit) (q : ℚ) : ∃ n : ℤ, RoundsTo unit q (n * unit) := by
  wlog hq : 0 ≤ q generalizing q
  · obtain ⟨n, hn⟩ := this (-q) (by linarith)
    exact ⟨-n, by simpa using hn.neg⟩
  refine ⟨⌊q / unit + 1 / 2⌋, (iff_of_nonneg hunit hq _).mpr ⟨?_, ?_⟩⟩
  · rw [← le_div_iff₀ hunit, sub_le_iff_le_add]
    exact Int.floor_le _
  · rw [← div_lt_iff₀ hunit]
    have := Int.lt_floor_add_one (q / unit + 1 / 2)
    linarith

/-- Rounding does not depend on the unit of measurement. -/
theorem scale {factor : ℚ} (hfactor : 0 < factor) (h : RoundsTo unit q r) :
    RoundsTo (unit * factor) (q * factor) (r * factor) := by
  obtain ⟨n, hn⟩ := h.multiple
  have hdistance : |q * factor - r * factor| = |q - r| * factor := by
    rw [← sub_mul, abs_mul, abs_of_pos hfactor]
  refine ⟨⟨n, by rw [hn, mul_assoc]⟩, ?_, fun htie => ?_⟩
  · rw [hdistance, mul_div_right_comm]
    exact mul_le_mul_of_nonneg_right h.near hfactor.le
  · rw [hdistance, mul_div_right_comm] at htie
    rw [abs_mul, abs_mul]
    exact mul_le_mul_of_nonneg_right (h.away (mul_right_cancel₀ hfactor.ne' htie)) (abs_nonneg _)

end RoundsTo

/-- `n` is the whole number that is nearest to `x`, and of two that are equally near the even one.
-/
structure NearestEven (x : ℚ) (n : ℤ) : Prop where
  near : |x - n| ≤ 1 / 2
  even : |x - n| = 1 / 2 → Even n

namespace NearestEven

variable {x : ℚ} {m n : ℤ}

/-- Rounding to even is symmetric around zero as well, as evenness is. -/
theorem neg (h : NearestEven x n) : NearestEven (-x) (-n) := by
  have hdistance : |-x - (-n : ℤ)| = |x - n| := by push_cast; rw [neg_sub_neg, abs_sub_comm]
  refine ⟨by rw [hdistance]; exact h.near, fun htie => ?_⟩
  rw [hdistance] at htie
  exact (h.even htie).neg

theorem nonneg (hx : 0 ≤ x) (h : NearestEven x n) : 0 ≤ n :=
  nonneg_of_le_add_half hx (by linarith [(abs_le.mp h.near).2])

theorem nonpos (hx : x ≤ 0) (h : NearestEven x n) : n ≤ 0 :=
  Int.neg_nonneg.mp (h.neg.nonneg (neg_nonneg.mpr hx))

/-- **There is one nearest whole number.** Two of them are neighbours at most, since both are within
a half; and of two neighbours that are equally near only one is even. -/
theorem unique (hm : NearestEven x m) (hn : NearestEven x n) : m = n := by
  wlog hle : m ≤ n generalizing m n
  · exact (this hn hm (by omega)).symm
  obtain ⟨_, hm'⟩ := abs_le.mp hm.near
  obtain ⟨hn', _⟩ := abs_le.mp hn.near
  have hbetween : n ≤ m + 1 := by
    have : (n : ℚ) ≤ m + 1 := by linarith
    exact_mod_cast this
  rcases eq_or_lt_of_le hle with heq | hlt
  · exact heq
  · -- neighbours are equally near, but not both are even
    obtain rfl : n = m + 1 := by omega
    push_cast at hn'
    have hx : x = m + 1 / 2 := by linarith
    have htie : |x - m| = 1 / 2 := by rw [hx, add_sub_cancel_left]; norm_num
    have htie' : |x - (m + 1 : ℤ)| = 1 / 2 := by
      push_cast
      rw [hx, show (m + 1 / 2 - (m + 1) : ℚ) = -(1 / 2) by ring, abs_neg]
      norm_num
    have := hm.even htie
    have := hn.even htie'
    grind

end NearestEven

/-- A number without its fraction. -/
def wholePart (q : ℚ) : ℤ := if 0 ≤ q then ⌊q⌋ else ⌈q⌉

namespace Decimal

/-- The value of a decimal. -/
def toRat (d : Decimal) : ℚ := d.units / pow10 d.scale

theorem pow10_pos_rat (k : ℕ) : (0 : ℚ) < pow10 k := by exact_mod_cast pow10_pos k

theorem one_le_pow10 (k : ℕ) : (1 : ℚ) ≤ pow10 k := by exact_mod_cast pow10_pos k

/-- Times its power of ten, the absolute value of a decimal is within the bound of units. -/
theorem abs_toRat_le (d : Decimal) : |d.toRat| * pow10 d.scale ≤ unitBound - 1 := by
  have hpow := pow10_pos_rat d.scale
  have hunits : d.units.natAbs + 1 ≤ unitBound := d.units_lt
  have hunits' : (d.units.natAbs : ℚ) + 1 ≤ unitBound := by exact_mod_cast hunits
  rw [toRat, abs_div, abs_of_pos hpow, div_mul_cancel₀ _ hpow.ne', ← Int.cast_abs,
    Int.abs_eq_natAbs, Int.cast_natCast]
  linarith

theorem abs_toRat_le_bound (d : Decimal) : |d.toRat| ≤ unitBound - 1 :=
  calc |d.toRat| = |d.toRat| * 1 := (mul_one _).symm
    _ ≤ |d.toRat| * pow10 d.scale := mul_le_mul_of_nonneg_left (one_le_pow10 _) (abs_nonneg _)
    _ ≤ unitBound - 1 := abs_toRat_le d

/-- The rounding of a ratio, with a half up, as two inequalities over whole numbers. -/
theorem halfUp_bounds (n : ℕ) {d : ℕ} (hd : 0 < d) :
    2 * (halfUp n d * d) ≤ 2 * n + d ∧ 2 * n + d < 2 * (halfUp n d * d) + 2 * d := by
  have hdivision := Nat.div_add_mod (2 * n + d) (2 * d)
  have hrest := Nat.mod_lt (2 * n + d) (show 0 < 2 * d by omega)
  have hproduct : 2 * d * ((2 * n + d) / (2 * d)) = 2 * (halfUp n d * d) := by
    rw [halfUp, Nat.mul_assoc, Nat.mul_comm d]
  omega

/-- The same for a half to even, together with what happens at a tie. -/
theorem halfEven_bounds (n : ℕ) {d : ℕ} (hd : 0 < d) :
    2 * n ≤ 2 * (halfEven n d * d) + d ∧ 2 * (halfEven n d * d) ≤ 2 * n + d ∧
    (2 * n = 2 * (halfEven n d * d) + d ∨ 2 * (halfEven n d * d) = 2 * n + d →
      halfEven n d % 2 = 0) := by
  have hdivision := Nat.div_add_mod n d
  have hrest := Nat.mod_lt n hd
  rw [Nat.mul_comm] at hdivision
  simp only [halfEven, Bool.or_eq_true, Bool.and_eq_true, decide_eq_true_eq, beq_iff_eq]
  generalize n / d = quotient at *
  -- rounded up or down, according to the rest and to the parity of the quotient
  split
  · next hup =>
    have hsucc : (quotient + 1) * d = quotient * d + d := Nat.succ_mul quotient d
    omega
  · next hdown => omega

/-- **The rounding of a ratio with a half to even** is the nearest whole number in the sense above.
`halfEven_bounds` says so of whole numbers, and what is left to show is a translation from whole
numbers to rational ones. -/
theorem nearestEven_halfEven (n : ℕ) {d : ℕ} (hd : 0 < d) :
    NearestEven (n / d) (halfEven n d) := by
  have hd' : (0 : ℚ) < d := by exact_mod_cast hd
  obtain ⟨hhigh, hlow, heven⟩ := halfEven_bounds n hd
  have hhigh' : 2 * (n : ℚ) ≤ 2 * (halfEven n d * d) + d := by exact_mod_cast hhigh
  have hlow' : 2 * ((halfEven n d : ℚ) * d) ≤ 2 * n + d := by exact_mod_cast hlow
  have hdistance : (n : ℚ) / d - (halfEven n d : ℤ) = (n - halfEven n d * d) / d := by
    push_cast
    field_simp
  refine ⟨?_, fun htie => ?_⟩
  · rw [hdistance, abs_div, abs_of_pos hd', div_le_iff₀ hd', abs_le]
    constructor <;> linarith
  · rw [hdistance, abs_div, abs_of_pos hd', div_eq_iff hd'.ne'] at htie
    have hcases : 2 * n = 2 * (halfEven n d * d) + d ∨ 2 * (halfEven n d * d) = 2 * n + d := by
      rcases abs_eq (by positivity) |>.mp htie with hpos | hneg
      · left
        have : 2 * (n : ℚ) = 2 * (halfEven n d * d) + d := by linarith
        exact_mod_cast this
      · right
        have : 2 * ((halfEven n d : ℚ) * d) = 2 * n + d := by linarith
        exact_mod_cast this
    have := heven hcases
    exact_mod_cast Nat.even_iff.mpr this

theorem toRat_neg (d : Decimal) : d.neg.toRat = -d.toRat := by
  simp [toRat, neg, neg_div]

/-- To round a decimal is symmetric around zero, places included. -/
theorem round_neg (d : Decimal) (places : ℕ) : d.neg.round places = (d.round places).neg := by
  unfold round
  by_cases h : d.scale ≤ places
  · rw [dif_pos (show d.neg.scale ≤ places from h), dif_pos h]
  · rw [dif_neg (show ¬ d.neg.scale ≤ places from h), dif_neg h]
    simp [neg]

theorem units_round_of_lt {d : Decimal} {places : ℕ} (h : places < d.scale) :
    (d.round places).units = d.units.sign * halfUp d.units.natAbs (pow10 (d.scale - places)) := by
  rw [round, dif_neg (Nat.not_le.mpr h)]

theorem scale_round_of_lt {d : Decimal} {places : ℕ} (h : places < d.scale) :
    (d.round places).scale = places := by
  rw [round, dif_neg (Nat.not_le.mpr h)]

/-- Rounding gives the nearest multiple, a half away from zero. A decimal that has no more places
than asked for stays as it is; otherwise its units are a ratio over a power of ten, and rounding
this ratio half up is rounding away from zero for a value that is not negative. -/
theorem roundsTo_round (d : Decimal) (places : ℕ) :
    RoundsTo (1 / pow10 places) d.toRat (d.round places).toRat := by
  have hplaces := pow10_pos_rat places
  by_cases h : d.scale ≤ places
  · -- with so few places the value is a multiple
    obtain ⟨more, rfl⟩ := Nat.exists_eq_add_of_le h
    have hmultiple : d.toRat = (d.units * pow10 more : ℤ) * (1 / pow10 (d.scale + more) : ℚ) := by
      have := pow10_pos_rat d.scale
      have := pow10_pos_rat more
      rw [toRat, pow10_add]
      push_cast
      field_simp
    rw [round, dif_pos h, hmultiple]
    exact .self_of_multiple (by positivity) _
  · wlog hsign : 0 ≤ d.units generalizing d
    · have hneg := this d.neg h (by show 0 ≤ -d.units; omega)
      rw [round_neg, toRat_neg, toRat_neg] at hneg
      simpa using hneg.neg
    obtain ⟨fewer, hscale⟩ := Nat.exists_eq_add_of_le (Nat.le_of_not_le h)
    obtain ⟨n, hn⟩ := Int.eq_ofNat_of_zero_le hsign
    have hfewer := pow10_pos_rat fewer
    -- the value in units of the last place that is left
    have hvalue : d.toRat = n / pow10 fewer * (1 / pow10 places) := by
      rw [toRat, hn, hscale, pow10_add]
      push_cast
      field_simp
    have hround : (d.round places).toRat = (halfUp n (pow10 fewer) : ℤ) * (1 / pow10 places) := by
      rw [toRat, units_round_of_lt (Nat.lt_of_not_le h), scale_round_of_lt (Nat.lt_of_not_le h),
        hscale, Nat.add_sub_cancel_left, hn, Int.natAbs_natCast]
      rcases Nat.eq_zero_or_pos n with rfl | hpos
      · have hzero : halfUp 0 (pow10 fewer) = 0 := Nat.le_zero.mp (halfUp_le 0 (pow10_pos _))
        simp [hzero]
      · rw [Int.sign_eq_one_of_pos (by exact_mod_cast hpos), one_mul, div_eq_mul_one_div]
    obtain ⟨hlow, hhigh⟩ := halfUp_bounds n (pow10_pos fewer)
    have hlow' : (2 : ℚ) * (halfUp n (pow10 fewer) * pow10 fewer) ≤ 2 * n + pow10 fewer := by
      exact_mod_cast hlow
    have hhigh' : (2 : ℚ) * n + pow10 fewer <
        2 * (halfUp n (pow10 fewer) * pow10 fewer) + 2 * pow10 fewer := by
      exact_mod_cast hhigh
    rw [hvalue, hround, RoundsTo.iff_of_nonneg (by positivity) (by positivity)]
    refine ⟨mul_le_mul_of_nonneg_right ?_ (by positivity), mul_lt_mul_of_pos_right ?_ (by positivity)⟩
    · rw [le_div_iff₀ hfewer]
      push_cast
      linarith
    · rw [div_lt_iff₀ hfewer]
      push_cast
      linarith

/-! ## Whole parts

To drop the fraction goes towards zero, while a floor goes down. For numbers that
are not negative the two agree, and the others are their negatives. -/

theorem floor_toRat (d : Decimal) : ⌊d.toRat⌋ = d.floor := by
  rw [toRat, Rat.floor_intCast_div_natCast, floor]

/-- A decimal without its decimal places is its whole part. -/
theorem trunc_eq_wholePart (d : Decimal) : d.trunc = wholePart d.toRat := by
  have hpow := pow10_pos_rat d.scale
  unfold wholePart trunc
  split
  · next hnonneg =>
    have hunits : 0 ≤ d.units := by
      rw [toRat, le_div_iff₀ hpow, zero_mul] at hnonneg
      exact_mod_cast hnonneg
    rw [floor_toRat, floor, Int.tdiv_eq_ediv_of_nonneg hunits]
  · -- below zero the ceiling is the floor of the negated value
    next hneg =>
    have hunits : 0 ≤ -d.units := by
      rw [toRat, le_div_iff₀ hpow, zero_mul, not_le] at hneg
      have : d.units < 0 := by exact_mod_cast hneg
      omega
    have hfloor : ⌊-d.toRat⌋ = -d.units / pow10 d.scale := by rw [← toRat_neg, floor_toRat, floor, neg]
    rw [← neg_inj, ← Int.floor_neg, hfloor, ← Int.tdiv_eq_ediv_of_nonneg hunits, Int.neg_tdiv]

end Decimal

end Stencil
