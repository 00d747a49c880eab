import Mathlib.Data.Nat.Find
import Stencil.Proofs.Nearest
import Stencil.Proofs.Numerals
import Stencil.Value

/-!
# How numbers are spelled

A numeral has an exact value, whatever the number of its digits and the size of its exponent. The
reader works through it from the left: it collects digits until there is no room for another one,
rounds by the first digit that it does not keep, and then moves the point. A value that a decimal
holds is read exactly as long as the digits in front of the exponent are in range by themselves and
the exponent only moves the point as far as there are places.

* **`Numeral.toRat`** — the value of a numeral.
* **`keptPlaces`**, **`noRoom_kept`**, **`readMantissa?_eq`** — how far the digits are collected.
* **`rest_eq_zero`** — digits that are not kept are zeros if the value of all digits is in range,
  and so **`readMantissa?_of_inRange`**: nothing is rounded away.
* **`toRat_of_shift?`**, **`limit_of_shift?`**, **`exists_shift?`** — what moving the point does.
* **`Legible`**, **`read_exact_iff`** — which spellings of a number in range are read as that
  number.
-/

namespace Stencil

open Text Decimal

/-! ## Values of numerals

The value of a numeral is a rational number, and no digit of it is lost here: that is what a reading
is compared with. Beside the value stands what the reader can keep of the digits, stated without the
reader: the longest part of the fraction for which there is room. -/

/-- A number with a sign. Signs of mantissas and of exponents are alike. -/
def signed (negative : Bool) (n : ℕ) : ℤ := if negative then -n else n

namespace Numeral

/-- The value of the digits around the point. -/
def mantissa (n : Numeral) : ℚ := numberFrom 0 (n.whole ++ n.fraction) / pow10 n.fraction.length

/-- The exponent as a number. -/
def power (n : Numeral) : ℤ :=
  match n.exponent with
  | none => 0
  | some (negative, digits) => signed negative (numberFrom 0 digits)

/-- The value of the numeral. -/
def toRat (n : Numeral) : ℚ := (if n.negative then -n.mantissa else n.mantissa) * 10 ^ n.power

/-- All digits are ASCII digits. Numerals are recognised with digits of any script, but these have
no value for the reader. -/
structure IsAscii (n : Numeral) : Prop where
  mantissa : ∀ c ∈ n.whole ++ n.fraction, isAsciiDigit c = true
  exponent : ∀ negative digits, n.exponent = some (negative, digits) →
    ∀ c ∈ digits, isAsciiDigit c = true

/-- The number of digits of the fraction for which there is room: up to 28 of them, as long as the
number that they and the whole digits denote is in range. -/
def keptPlaces (n : Numeral) : ℕ :=
  Nat.findGreatest (fun places => numberFrom 0 (n.whole ++ n.fraction.take places) < unitBound)
    (min n.fraction.length maxScale)

/-- The number that the digits denote for which there is room. -/
def kept (n : Numeral) : ℕ := numberFrom 0 (n.whole ++ n.fraction.take n.keptPlaces)

/-- There is no room for more places than the fraction has, nor for more than a decimal has. -/
theorem keptPlaces_le (n : Numeral) : n.keptPlaces ≤ n.fraction.length ∧ n.keptPlaces ≤ maxScale :=
  le_min_iff.mp (Nat.findGreatest_le _)

/-- What is kept is in range, if the whole digits by themselves are: then keeping no places at all
would do, and the largest possible number of them does as well. -/
theorem kept_lt {n : Numeral} (hwhole : numberFrom 0 n.whole < unitBound) : n.kept < unitBound := by
  have hnone : numberFrom 0 (n.whole ++ n.fraction.take 0) < unitBound := by
    rwa [List.take_zero, List.append_nil]
  exact Nat.findGreatest_spec
    (P := fun places => numberFrom 0 (n.whole ++ n.fraction.take places) < unitBound)
    (Nat.zero_le _) hnone

/-- Behind `places` digits of a fraction, with which the number so far is `total`, there is no room
for the next one: there are as many places as there can be, or the number would leave the range. If
nothing is left there is nothing to claim. -/
def NoRoom (total places : ℕ) (rest : List Char) : Prop :=
  ∀ c more, rest = c :: more → places = maxScale ∨ unitBound ≤ numberFrom total [c]

/-- Behind the digits that are kept there is no room: otherwise one place more could be kept. -/
theorem noRoom_kept (n : Numeral) : NoRoom n.kept n.keptPlaces (n.fraction.drop n.keptPlaces) := by
  intro c rest h
  obtain ⟨-, hlast⟩ := n.keptPlaces_le
  rcases eq_or_lt_of_le hlast with hlast | hroom
  · exact .inl hlast
  · right
    have hmore : n.keptPlaces < n.fraction.length := by
      have hlength := congrArg List.length h
      rw [List.length_drop, List.length_cons] at hlength
      omega
    -- one place more is the next digit behind those that are kept
    have hnext : n.fraction.take (n.keptPlaces + 1) = n.fraction.take n.keptPlaces ++ [c] := by
      rw [List.take_add, h]
      rfl
    have hnot := Nat.findGreatest_is_greatest
      (P := fun places => numberFrom 0 (n.whole ++ n.fraction.take places) < unitBound)
      (Nat.lt_succ_self n.keptPlaces) (le_min hmore hroom)
    rw [kept, ← numberFrom_append, List.append_assoc, ← hnext]
    exact not_lt.mp hnot

/-- The whole digits by themselves denote no more than all digits do. -/
theorem numberFrom_whole_le (n : Numeral) : (numberFrom 0 n.whole : ℚ) ≤ n.mantissa := by
  have hpow := pow10_pos_rat n.fraction.length
  rw [mantissa, le_div_iff₀ hpow, numberFrom_append, numberFrom_eq (numberFrom 0 n.whole)]
  push_cast
  linarith [Nat.cast_nonneg (α := ℚ) (numberFrom 0 n.fraction)]

theorem mantissa_nonneg (n : Numeral) : 0 ≤ n.mantissa :=
  (Nat.cast_nonneg _).trans n.numberFrom_whole_le

/-- The digits that are kept, with the others behind them. In this form the mantissa is compared
with what the reader returns, digits without room included. -/
theorem mantissa_eq (n : Numeral) :
    n.mantissa = numberFrom n.kept (n.fraction.drop n.keptPlaces) /
      pow10 (n.keptPlaces + (n.fraction.drop n.keptPlaces).length) := by
  have hlength : n.keptPlaces + (n.fraction.drop n.keptPlaces).length = n.fraction.length := by
    have := n.keptPlaces_le.1
    rw [List.length_drop]
    omega
  rw [mantissa, hlength, kept, ← numberFrom_append, List.append_assoc,
    List.take_append_drop]

end Numeral

namespace Decimal

/-- A decimal holds the number. -/
def InRange (q : ℚ) : Prop := ∃ d : Decimal, d.toRat = q

theorem InRange.neg {q : ℚ} (h : InRange q) : InRange (-q) := by
  obtain ⟨d, rfl⟩ := h
  exact ⟨d.neg, toRat_neg d⟩

theorem inRange_div {total scale : ℕ} (htotal : total < unitBound) (hscale : scale ≤ maxScale) :
    InRange (total / pow10 scale) :=
  ⟨⟨total, scale, by rwa [Int.natAbs_natCast], hscale⟩, by rw [toRat, Int.cast_natCast]⟩

/-- A whole number that is not larger than a number in range. It has no places, so it is less than
the bound itself. -/
theorem InRange.lt_unitBound {q : ℚ} {n : ℕ} (h : InRange q) (hle : n ≤ |q|) : n < unitBound := by
  obtain ⟨d, rfl⟩ := h
  have hbound := abs_toRat_le_bound d
  have hlt : (n : ℚ) < unitBound := by
    generalize (unitBound : ℚ) = bound at *
    linarith
  exact_mod_cast hlt

/-- A number in range that is not negative, as a natural number of units. -/
theorem exists_units_of_inRange {q : ℚ} (hq : 0 ≤ q) (h : InRange q) :
    ∃ units scale : ℕ, units < unitBound ∧ scale ≤ maxScale ∧ q = units / pow10 scale := by
  obtain ⟨d, rfl⟩ := h
  have hunits : 0 ≤ d.units := by
    have hpow := pow10_pos_rat d.scale
    rw [toRat, le_div_iff₀ hpow, zero_mul] at hq
    exact_mod_cast hq
  refine ⟨d.units.natAbs, d.scale, d.units_lt, d.scale_le, ?_⟩
  rw [toRat, ← Int.cast_natCast d.units.natAbs, Int.natAbs_of_nonneg hunits]

/-! ## Digits without room

A number in range has at most 28 places and units below the bound. Digits for which there is no room
would give it more of the one or the other, unless they are zeros; and zeros without room are
dropped without any rounding. -/

/-- The value of all digits is in range, so those for which there is no room are zeros: with another
digit, the number would have too many units or too many places. The hypothesis `h` says that the
digits, kept or not, denote a number with `units` and `scale`, cleared of denominators. -/
theorem rest_eq_zero {units scale total places : ℕ} {rest : List Char}
    (hdigits : ∀ c ∈ rest, isAsciiDigit c = true) (hunits : units < unitBound)
    (hscale : scale ≤ maxScale)
    (hfull : Numeral.NoRoom total places rest)
    (h : units * pow10 (places + rest.length) = numberFrom total rest * pow10 scale) :
    numberFrom 0 rest = 0 := by
  have hlt := numberFrom_lt hdigits
  rcases Nat.lt_or_ge places scale with hmore | hless
  · -- the value has more places than are kept: with another digit it has too many units
    cases rest with
    | nil => rfl
    | cons c more =>
      have htoo : unitBound ≤ numberFrom total [c] := (hfull c more rfl).resolve_left (by omega)
      obtain ⟨extra, rfl⟩ := Nat.exists_eq_add_of_lt hmore
      have hlarge : unitBound * pow10 more.length ≤ numberFrom total (c :: more) :=
        calc unitBound * pow10 more.length
            ≤ numberFrom total [c] * pow10 more.length := Nat.mul_le_mul_right _ htoo
          _ ≤ numberFrom (numberFrom total [c]) more := by
            rw [numberFrom_eq (numberFrom total [c]) more]
            exact Nat.le_add_right _ _
      have hcontra : unitBound * pow10 (places + (more.length + 1)) ≤
          units * pow10 (places + (more.length + 1)) :=
        calc unitBound * pow10 (places + (more.length + 1))
            = unitBound * pow10 more.length * pow10 (places + 1) := by
              rw [Nat.mul_assoc, ← pow10_add]
              congr 2
              omega
          _ ≤ numberFrom total (c :: more) * pow10 (places + extra + 1) :=
            Nat.mul_le_mul hlarge (Nat.pow_le_pow_right (by decide) (by omega))
          _ = units * pow10 (places + (more.length + 1)) := h.symm
      exact absurd (Nat.le_of_mul_le_mul_right hcontra (pow10_pos _)) (Nat.not_le.mpr hunits)
  · -- it has no more places than are kept: the rest is a multiple of its own place
    obtain ⟨extra, rfl⟩ := Nat.exists_eq_add_of_le hless
    have hcancel : units * pow10 extra * pow10 rest.length =
        total * pow10 rest.length + numberFrom 0 rest := by
      apply Nat.eq_of_mul_eq_mul_right (pow10_pos scale)
      rw [← numberFrom_eq, ← h, pow10_add, pow10_add]
      ring
    have hdvd : pow10 rest.length ∣ numberFrom 0 rest :=
      (Nat.dvd_add_right (Nat.dvd_mul_left _ total)).mp (Dvd.intro_left _ hcancel)
    exact Nat.eq_zero_of_dvd_of_lt hdvd hlt

/-- A zero without room does not count: it rounds nothing up. -/
theorem roundBy?_zero {total scale : ℕ} {c : Char} (hc : isAsciiDigit c = true)
    (hzero : c.toNat - '0'.toNat = 0) : roundBy? total scale c = some (total, scale) := by
  rw [roundBy?, digitValue?_of_digit hc, hzero]
  rfl

/-- Neither do zeros behind it. The reader looks at the first of them and drops the others. -/
theorem readFraction?_zeros {total scale : ℕ} {rest : List Char}
    (hdigits : ∀ c ∈ rest, isAsciiDigit c = true) (hfull : Numeral.NoRoom total scale rest)
    (hzero : numberFrom 0 rest = 0) : readFraction? total scale rest = some (total, scale) := by
  cases rest with
  | nil => rfl
  | cons c more =>
    have hc : isAsciiDigit c = true := hdigits c List.mem_cons_self
    have hdigit : c.toNat - '0'.toNat = 0 := by
      have hle := le_numberFrom (c.toNat - '0'.toNat) more
      rw [numberFrom_cons, Nat.zero_mul, Nat.zero_add] at hzero
      omega
    rw [readFraction?]
    split
    · exact roundBy?_zero hc hdigit
    · next hroom =>
      have htoo : ¬ total * 10 + (c.toNat - '0'.toNat) < unitBound :=
        Nat.not_lt.mpr ((hfull c more rfl).resolve_left hroom)
      simp only [digitValue?_of_digit hc, Option.bind_eq_bind, Option.bind_some, if_neg htoo]
      exact roundBy?_zero hc hdigit

/-! ## What is read

The reader's two functions for digits keep to the range, and on a mantissa in range they return
exactly the digits for which there is room. -/

/-- A rounded magnitude is in range, as the rounding gives up a place where it would leave it. -/
theorem roundBy?_range {total scale total' scale' : ℕ} {c : Char} (htotal : total < unitBound)
    (hscale : scale ≤ maxScale) (h : roundBy? total scale c = some (total', scale')) :
    total' < unitBound ∧ scale' ≤ maxScale := by
  obtain ⟨digit, -, h⟩ := Option.bind_eq_some_iff.mp h
  split at h
  · cases h
    exact ⟨htotal, hscale⟩
  · split at h
    · next hnext =>
      cases h
      exact ⟨hnext, hscale⟩
    · split at h
      · cases h
      · cases h
        omega

/-- So is what becomes of a magnitude with the digits of a fraction. Induction on these digits. -/
theorem readFraction?_range {total scale total' scale' : ℕ} {cs : List Char}
    (htotal : total < unitBound) (hscale : scale ≤ maxScale)
    (h : readFraction? total scale cs = some (total', scale')) :
    total' < unitBound ∧ scale' ≤ maxScale := by
  induction cs generalizing total scale with
  | nil =>
    cases h
    exact ⟨htotal, hscale⟩
  | cons c cs ih =>
    rw [readFraction?] at h
    split at h
    · exact roundBy?_range htotal hscale h
    · next hroom =>
      obtain ⟨digit, -, h⟩ := Option.bind_eq_some_iff.mp h
      dsimp only at h
      split at h
      · next hnext => exact ih hnext (by omega) h
      · exact roundBy?_range htotal hscale h

section Mantissa

variable {n : Numeral} {total scale : ℕ}

/-- The magnitude and the places that are read of a mantissa are those of a decimal. -/
theorem readMantissa?_range (h : readMantissa? n.whole n.fraction = some (total, scale)) :
    total < unitBound ∧ scale ≤ maxScale := by
  rw [readMantissa?] at h
  split at h
  · obtain ⟨whole, hwhole, h⟩ := Option.bind_eq_some_iff.mp h
    exact readFraction?_range (readWhole?_eq_some_iff.mp hwhole).2.2 (Nat.zero_le _) h
  · cases h

/-- The digits are collected as long as there is room for them. What happens to the first one
without room is left to `readFraction?`. -/
theorem readMantissa?_eq (hascii : n.IsAscii) (hwhole : numberFrom 0 n.whole < unitBound) :
    readMantissa? n.whole n.fraction =
      readFraction? n.kept n.keptPlaces (n.fraction.drop n.keptPlaces) := by
  obtain ⟨hwholeDigits, hfraction⟩ := List.forall_mem_append.mp hascii.mantissa
  have hlength : (n.fraction.take n.keptPlaces).length = n.keptPlaces :=
    List.length_take_of_le n.keptPlaces_le.1
  have hkept : n.kept = numberFrom (numberFrom 0 n.whole) (n.fraction.take n.keptPlaces) :=
    numberFrom_append 0 _ _
  have hread := @readFraction?_append _ (numberFrom 0 n.whole) 0
    (fun c hc => hfraction c (List.mem_of_mem_take hc)) (hkept ▸ Numeral.kept_lt hwhole)
    (by rw [hlength, Nat.zero_add]; exact n.keptPlaces_le.2) (n.fraction.drop n.keptPlaces)
  rw [List.take_append_drop, ← hkept, hlength, Nat.zero_add] at hread
  have hreadWhole : readWhole? n.whole = some (numberFrom 0 n.whole) :=
    readWhole?_eq hwholeDigits hwhole
  rw [readMantissa?, if_pos (List.all_eq_true.mpr hfraction), hreadWhole]
  exact hread

/-- A mantissa in range is read exactly. The digits without room are zeros by `rest_eq_zero`, and
then they change neither what is read nor the value. -/
theorem readMantissa?_of_inRange (hascii : n.IsAscii) (hrange : InRange n.mantissa) :
    readMantissa? n.whole n.fraction = some (n.kept, n.keptPlaces) ∧ n.kept < unitBound ∧
      n.mantissa = n.kept / pow10 n.keptPlaces := by
  have hwhole : numberFrom 0 n.whole < unitBound :=
    hrange.lt_unitBound (n.numberFrom_whole_le.trans (le_abs_self _))
  have hrest : ∀ c ∈ n.fraction.drop n.keptPlaces, isAsciiDigit c = true := fun c hc =>
    (List.forall_mem_append.mp hascii.mantissa).2 c (List.mem_of_mem_drop hc)
  have hzero : numberFrom 0 (n.fraction.drop n.keptPlaces) = 0 := by
    obtain ⟨units, scale, hunits, hscale, hvalue⟩ :=
      exists_units_of_inRange n.mantissa_nonneg hrange
    refine rest_eq_zero hrest hunits hscale n.noRoom_kept ?_
    rw [n.mantissa_eq, div_eq_div_iff (pow10_pos_rat _).ne' (pow10_pos_rat _).ne'] at hvalue
    exact_mod_cast hvalue.symm
  refine ⟨?_, Numeral.kept_lt hwhole, ?_⟩
  · rw [readMantissa?_eq hascii hwhole]
    exact readFraction?_zeros hrest n.noRoom_kept hzero
  · rw [n.mantissa_eq, numberFrom_eq, hzero, Nat.add_zero, pow10_add]
    push_cast
    rw [mul_div_mul_right _ _ (pow10_pos_rat _).ne']

end Mantissa

/-! ## Moving the point

An exponent moves the point of the units that were read. The result is exact, if there is one; the
question is only when there is one, and that is asked for each direction. -/

section Shift

variable {units : ℤ} {scale exponent : ℕ} {negative : Bool} {d : Decimal}

theorem toRat_of_ofUnits? (h : ofUnits? units scale = some d) : d.toRat = units / pow10 scale := by
  obtain ⟨hunits, hscale⟩ := ofUnits?_eq_some_iff.mp h
  rw [toRat, hunits, hscale]

theorem cast_pow10 (k : ℕ) : (pow10 k : ℚ) = 10 ^ k := Nat.cast_pow 10 k

/-- **Moving the point multiplies by a power of ten**, in each of the three ways in which it is
done: more places for a negative exponent, fewer places for one that they can absorb, and zeros
behind the units for the rest. -/
theorem toRat_of_shift? (h : shift? units scale negative exponent = some d) :
    d.toRat = units / pow10 scale * 10 ^ signed negative exponent := by
  have hpow := pow10_pos_rat scale
  unfold shift? at h
  split at h
  · next hneg =>
    have hpow' := pow10_pos_rat exponent
    rw [toRat_of_ofUnits? h, signed, if_pos hneg, zpow_neg, zpow_natCast, ← cast_pow10, pow10_add]
    push_cast
    field_simp
  · next hneg =>
    rw [signed, if_neg hneg, zpow_natCast, ← cast_pow10]
    split at h
    · next hle =>
      obtain ⟨less, rfl⟩ := Nat.exists_eq_add_of_le hle
      have hless := pow10_pos_rat less
      have hpow' := pow10_pos_rat exponent
      rw [toRat_of_ofUnits? h, Nat.add_sub_cancel_left, pow10_add]
      push_cast
      field_simp
    · next hmore =>
      split at h
      · obtain ⟨more, rfl⟩ := Nat.exists_eq_add_of_le (Nat.le_of_not_le hmore)
        rw [toRat_of_ofUnits? h, Nat.add_sub_cancel_left, pow10_add, pow10_zero]
        push_cast
        field_simp
      · cases h

/-- How far the point is moved at most. To the left the places are the limit. To the right the
exponent may first use up the places, and is at most 28 in any case. -/
theorem limit_of_shift? (hscale : scale ≤ maxScale)
    (h : shift? units scale negative exponent = some d) :
    if negative then scale + exponent ≤ maxScale else exponent ≤ maxScale := by
  unfold shift? at h
  split at h
  · next hneg =>
    have hplaces := (ofUnits?_eq_some_iff.mp h).2
    rw [if_pos hneg, ← hplaces]
    exact d.scale_le
  · next hneg =>
    rw [if_neg hneg]
    split at h
    · next hle => exact hle.trans hscale
    · split at h
      · next hle => exact hle
      · cases h

theorem exists_ofUnits? (hunits : units.natAbs < unitBound) (hscale : scale ≤ maxScale) :
    ∃ d, ofUnits? units scale = some d := ⟨_, dif_pos ⟨hunits, hscale⟩⟩

/-- **Within the limits, the point is moved if the result is in range.** Only a shift beyond all
places has to rely on the range; the others keep the units as they are, and these fit already. -/
theorem exists_shift? (hunits : units.natAbs < unitBound) (hscale : scale ≤ maxScale)
    (hlimit : if negative then scale + exponent ≤ maxScale else exponent ≤ maxScale)
    (hrange : InRange (units / pow10 scale * 10 ^ signed negative exponent)) :
    ∃ d, shift? units scale negative exponent = some d := by
  unfold shift?
  split
  · next hneg =>
    rw [if_pos hneg] at hlimit
    exact exists_ofUnits? hunits hlimit
  · next hneg =>
    rw [if_neg hneg] at hlimit
    split
    · exact exists_ofUnits? hunits (by omega)
    · next hmore =>
      refine exists_ofUnits? ?_ (Nat.zero_le _)
      -- the result is the number of units itself
      obtain ⟨more, rfl⟩ := Nat.exists_eq_add_of_le (Nat.le_of_not_le hmore)
      have hpow := pow10_pos_rat scale
      have hvalue : (units / pow10 scale * 10 ^ signed negative (scale + more) : ℚ) =
          (units * pow10 more : ℤ) := by
        rw [signed, if_neg hneg, zpow_natCast, ← cast_pow10, pow10_add]
        push_cast
        field_simp
      rw [Nat.add_sub_cancel_left]
      refine hrange.lt_unitBound ?_
      rw [hvalue, ← Int.cast_abs, Int.abs_eq_natAbs, Int.cast_natCast]

end Shift

end Decimal

/-! ## Which spellings are read

Two spellings of one number may fare differently: `1.0e-28` has a digit more than `1e-28`, and one
place too many. `Legible` says which of them the reader can deal with. -/

/-- The spellings of numbers in range that are read as these numbers. With an exponent, the digits
in front of it denote a number in range by themselves; a negative exponent finds as many places as
it needs behind those that are kept, zeros at the end included, and no exponent is larger than the
number of places. -/
inductive Numeral.Legible (n : Numeral) : Prop where
  | plain (hplain : n.exponent = none)
  | raised {digits : List Char} (hraised : n.exponent = some (false, digits))
      (hmantissa : InRange n.mantissa) (hlimit : numberFrom 0 digits ≤ maxScale)
  | lowered {digits : List Char} (hlowered : n.exponent = some (true, digits))
      (hmantissa : InRange n.mantissa) (hlimit : n.keptPlaces + numberFrom 0 digits ≤ maxScale)

namespace Decimal

variable {text : String} {n : Numeral} {d : Decimal} {total scale : ℕ} {digits : List Char}
  {negative : Bool}

theorem read_eq_ok_iff (hn : Numeral.ofChars? (trim text.toList) = some n) :
    Decimal.read text = .ok d ↔ ofNumeral? n = some d := by
  have hread : ofText? text = ofNumeral? n := by rw [ofText?, hn]; rfl
  rw [Decimal.read_eq_ok, hread]

/-- The sign and the power of ten do not matter for whether the digits are read exactly. -/
theorem toRat_eq_iff (n : Numeral) (total scale : ℕ) :
    signed n.negative total / pow10 scale * 10 ^ n.power = n.toRat ↔
      total / pow10 scale = n.mantissa := by
  have hpower : (10 : ℚ) ^ n.power ≠ 0 := zpow_ne_zero _ (by decide)
  rw [Numeral.toRat, mul_left_inj' hpower, signed]
  cases n.negative
  · simp
  · simp [neg_div]

theorem natAbs_signed (negative : Bool) (total : ℕ) : (signed negative total).natAbs = total := by
  cases negative
  · exact Int.natAbs_natCast total
  · exact (Int.natAbs_neg _).trans (Int.natAbs_natCast total)

/-- Without an exponent the digits that were read are the units and the places. -/
theorem ofNumeral?_plain (hplain : n.exponent = none)
    (hread : readMantissa? n.whole n.fraction = some (total, scale)) :
    ofNumeral? n = ofUnits? (signed n.negative total) scale := by
  simp only [ofNumeral?, hread, hplain]
  rfl

/-- With an exponent the point is moved, unless the exponent itself is too large to be read. -/
theorem ofNumeral?_exponent (hascii : n.IsAscii) (hexponent : n.exponent = some (negative, digits))
    (hread : readMantissa? n.whole n.fraction = some (total, scale)) :
    ofNumeral? n = if numberFrom 0 digits < 4294967296 then
      shift? (signed n.negative total) scale negative (numberFrom 0 digits) else none := by
  have hdigits := natOfDigits?_eq (hascii.exponent negative digits hexponent)
  simp only [ofNumeral?, hread, hexponent, readExponent?, hdigits, Option.bind_eq_bind,
    Option.bind_some]
  split
  · rfl
  · rfl

/-- A spelling that is read has an exponent within the limits and digits in range. That the digits
are in range is seen from what they were read as; that they were read exactly follows from the value
of the whole. -/
theorem legible_of_exact (hascii : n.IsAscii) (hread : ofNumeral? n = some d)
    (hexact : d.toRat = n.toRat) : n.Legible := by
  cases hexponent : n.exponent with
  | none => exact .plain hexponent
  | some exponent =>
    obtain ⟨negative, digits⟩ := exponent
    obtain ⟨⟨total, scale⟩, hmantissa, -⟩ := Option.bind_eq_some_iff.mp hread
    rw [ofNumeral?_exponent hascii hexponent hmantissa] at hread
    split at hread
    · obtain ⟨htotal, hscale⟩ := readMantissa?_range hmantissa
      have hpower : n.power = signed negative (numberFrom 0 digits) := by
        rw [Numeral.power, hexponent]
      have hvalue : total / pow10 scale = n.mantissa := by
        rw [← toRat_eq_iff, hpower, ← toRat_of_shift? hread, hexact]
      have hrange : InRange n.mantissa := hvalue ▸ inRange_div htotal hscale
      obtain ⟨hkept, -, -⟩ := readMantissa?_of_inRange hascii hrange
      rw [hmantissa] at hkept
      cases hkept
      have hlimit := limit_of_shift? hscale hread
      cases negative with
      | false => exact .raised hexponent hrange hlimit
      | true => exact .lowered hexponent hrange hlimit
    · cases hread

/-- Without an exponent the value of the numeral is its mantissa, up to the sign. -/
theorem inRange_mantissa (hplain : n.exponent = none) (hvalue : InRange n.toRat) :
    InRange n.mantissa := by
  rw [Numeral.toRat, Numeral.power, hplain, zpow_zero, mul_one] at hvalue
  split at hvalue
  · simpa using hvalue.neg
  · exact hvalue

/-- Digits in range and an exponent within the limits are read exactly. Both directions of the point
in one lemma, as they differ in the limit only. -/
theorem exact_of_limit (hascii : n.IsAscii) (hvalue : InRange n.toRat)
    (hexponent : n.exponent = some (negative, digits)) (hmantissa : InRange n.mantissa)
    (hlimit : if negative then n.keptPlaces + numberFrom 0 digits ≤ maxScale
      else numberFrom 0 digits ≤ maxScale) :
    ∃ d, ofNumeral? n = some d ∧ d.toRat = n.toRat := by
  obtain ⟨hread, hkept, heq⟩ := readMantissa?_of_inRange hascii hmantissa
  have hpower : n.power = signed negative (numberFrom 0 digits) := by rw [Numeral.power, hexponent]
  have htoRat := (toRat_eq_iff n _ _).mpr heq.symm
  have hsmall : numberFrom 0 digits < 4294967296 := by
    have hmax : maxScale = 28 := rfl
    split at hlimit <;> omega
  rw [← htoRat, hpower] at hvalue
  obtain ⟨d, hshift⟩ :=
    exists_shift? ((natAbs_signed _ _).trans_lt hkept) n.keptPlaces_le.2 hlimit hvalue
  refine ⟨d, ?_, ?_⟩
  · rw [ofNumeral?_exponent hascii hexponent hread, if_pos hsmall, hshift]
  · rw [toRat_of_shift? hshift, ← hpower, htoRat]

/-- Legible spellings of a number in range are read as that number, one case for each way to be
legible. -/
theorem exact_of_legible (hascii : n.IsAscii) (hvalue : InRange n.toRat) (h : n.Legible) :
    ∃ d, ofNumeral? n = some d ∧ d.toRat = n.toRat := by
  cases h with
  | plain hplain =>
    obtain ⟨hread, hkept, heq⟩ := readMantissa?_of_inRange hascii (inRange_mantissa hplain hvalue)
    have htoRat := (toRat_eq_iff n _ _).mpr heq.symm
    obtain ⟨d, hd⟩ :=
      exists_ofUnits? ((natAbs_signed n.negative _).trans_lt hkept) n.keptPlaces_le.2
    refine ⟨d, ?_, ?_⟩
    · rw [ofNumeral?_plain hplain hread, hd]
    · rw [← htoRat, toRat_of_ofUnits? hd, Numeral.power, hplain, zpow_zero, mul_one]
  | raised hraised hmantissa hlimit => exact exact_of_limit hascii hvalue hraised hmantissa hlimit
  | lowered hlowered hmantissa hlimit =>
    exact exact_of_limit hascii hvalue hlowered hmantissa hlimit

/-- **Which spellings of a number in range are read as that number**: without an exponent all of
them, and with an exponent those that are legible. White space may stand around them. -/
theorem read_exact_iff (hn : Numeral.ofChars? (trim text.toList) = some n) (hascii : n.IsAscii)
    (hvalue : InRange n.toRat) :
    (∃ d, Decimal.read text = .ok d ∧ d.toRat = n.toRat) ↔ n.Legible := by
  simp only [read_eq_ok_iff hn]
  constructor
  · rintro ⟨d, hread, hexact⟩
    exact legible_of_exact hascii hread hexact
  · exact exact_of_legible hascii hvalue

/-- White space, a sign, a zero at the end and a negative exponent, which finds room behind the two
places that are kept. -/
theorem read_exact_iff_twelve_and_half_thousandths :
    ∃ d, Decimal.read " -12.50e-3 " = .ok d ∧ d.toRat = -(1250 / 100) * 10 ^ (-3 : ℤ) := by
  let n : Numeral := ⟨true, ['1', '2'], ['5', '0'], some (true, ['3'])⟩
  have hascii : n.IsAscii :=
    ⟨List.all_eq_true.mp rfl, by rintro _ _ ⟨⟩; exact List.all_eq_true.mp rfl⟩
  have htoRat : n.toRat = -(1250 / 100) * 10 ^ (-3 : ℤ) := rfl
  have hvalue : InRange n.toRat := by
    refine ⟨⟨-125, 4, by decide, by decide⟩, ?_⟩
    rw [htoRat]
    norm_num [toRat, pow10]
  rw [← htoRat]
  exact (read_exact_iff (by decide +kernel) hascii hvalue).mpr
    (.lowered rfl ⟨⟨1250, 2, by decide, by decide⟩, rfl⟩ (by decide))

-- digits without room are lost before the point moves to them
example : Decimal.read "0.00000000000000000000000000001e5" = .ok ⟨0, 23, by decide, by decide⟩ := by
  decide +kernel

/-- With a zero at the end of its digits, the smallest positive decimal is not read. -/
theorem read_smallest_with_zero :
    ∃ n : Numeral, Numeral.ofChars? (trim "1.0e-28".toList) = some n ∧ n.IsAscii ∧
      (⟨1, 28, by decide, by decide⟩ : Decimal).toRat = n.toRat ∧
      Decimal.read "1.0e-28" = .error (.invalidNumber "1.0e-28") := by
  let n : Numeral := ⟨false, ['1'], ['0'], some (true, ['2', '8'])⟩
  have hascii : n.IsAscii :=
    ⟨List.all_eq_true.mp rfl, by rintro _ _ ⟨⟩; exact List.all_eq_true.mp rfl⟩
  have htoRat : n.toRat = 10 / 10 * 10 ^ (-28 : ℤ) := rfl
  refine ⟨n, by decide +kernel, hascii, ?_, by decide +kernel⟩
  rw [htoRat]
  norm_num [toRat, pow10]

end Decimal
end Stencil
