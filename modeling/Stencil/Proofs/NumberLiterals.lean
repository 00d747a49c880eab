import Stencil.Proofs.Spellings
import Stencil.Proofs.Strictness

/-!
# Number literals

The scanner and the reader of numbers each have a grammar of their own. What the scanner takes as a
number, with or without the minus sign that the parser puts in front of it, the reader takes as a
numeral of ASCII digits. So it is read, unless the number does not fit: too many digits in front of
the point, too many places, or an exponent that is too large.

* **`NumberText.exists_numeral`** — a scanned number is a numeral, and with a minus sign it is the
  same one with its sign changed.
* **`Numeral.OutOfRange`** — what does not fit. **`Decimal.ofNumeral?_eq_none_iff`** — the reader
  refuses nothing else.
* **`Parser.literal_invariant`** — every number inside an accepted tree was scanned as one, an
  invariant of the parser's rules.
* **`number_literals_numeric`** — all of it together.
-/

namespace Stencil

open Text Decimal

/-! ## Scanned numbers as numerals

The scanner takes digits, a fraction and an exponent one after the other, and each of them has a
predicate of its own that says how it is written. The reader takes the same text apart from the
front: a sign, all digits that come, a point with digits, and an exponent that must be the rest. The
two cuts fall at the same places, because nothing that the scanner takes as one part begins like the
next one. -/

section

variable {cs whole fraction exponent : List Char}

/-- Numerals are recognised with the digits of every script. Those of a scanned number are ASCII
digits, which are among them. -/
theorem isDigit_of_forall (h : ∀ c ∈ cs, isAsciiDigit c = true) : ∀ c ∈ cs, isDigit c = true :=
  fun c hc => isDigit_of_isAsciiDigit (h c hc)

/-- An exponent starts with its letter, if there is one at all. So the digits in front of it end
where it starts. -/
theorem ExponentText.head?_any_isDigit (h : ExponentText exponent) :
    exponent.head?.any isDigit = false := by
  cases h with
  | none => rfl
  | digits hletter =>
    rcases hletter with rfl | rfl
    · show isDigit 'e' = false
      decide
    · show isDigit 'E' = false
      decide

/-- A scanned exponent is one for the reader as well, whichever of the two letters and the three
signs it has. Its digits are read later by a reader that knows ASCII digits only, so they are kept
track of. -/
theorem ExponentText.exponentOfChars? (h : ExponentText exponent) :
    ∃ parts, Numeral.exponentOfChars? exponent = some parts ∧
      ∀ negative digits, parts = some (negative, digits) → ∀ c ∈ digits, isAsciiDigit c = true := by
  cases h with
  | none => exact ⟨Option.none, rfl, by rintro _ _ ⟨⟩⟩
  | @digits letter c sign cs hletter hsign hdigits =>
    have htake : ∃ negative, Numeral.takeSign (sign ++ c :: cs) = (negative, c :: cs) := by
      rcases hsign with rfl | rfl | rfl
      · exact ⟨false, takeSign_digit (hdigits c List.mem_cons_self) cs⟩
      · exact ⟨false, rfl⟩
      · exact ⟨true, rfl⟩
    obtain ⟨negative, htake⟩ := htake
    refine ⟨some (negative, c :: cs), ?_, ?_⟩
    · have hall : (c :: cs).all isDigit = true := List.all_eq_true.mpr (isDigit_of_forall hdigits)
      simp only [Numeral.exponentOfChars?, htake]
      exact if_pos ⟨hletter, List.cons_ne_nil c cs, hall⟩
    · rintro _ _ ⟨⟩
      exact hdigits

/-- The digits in front of an exponent are taken up to it, whether there is a point among them or
not. The scanner makes sure that there is a digit on one side of the point, which is all that the
reader asks for. -/
theorem takeMantissa?_parts (hwhole : ∀ c ∈ whole, isAsciiDigit c = true)
    (hfraction : FractionText fraction) (hexponent : ExponentText exponent)
    (hne : whole ++ fraction ≠ []) :
    ∃ places, Numeral.takeMantissa? (whole ++ fraction ++ exponent) = some (whole, places, exponent) ∧
      ∀ c ∈ places, isAsciiDigit c = true := by
  have hwholeDigits := isDigit_of_forall hwhole
  have hend := hexponent.head?_any_isDigit
  cases hfraction with
  | none =>
    have hnot : whole ≠ [] := by simpa using hne
    have htake := takeWhile_append_of_head? hwholeDigits hend
    have hdrop := dropWhile_append_of_head? hwholeDigits hend
    refine ⟨[], ?_, by simp⟩
    rw [List.append_nil]
    simp only [Numeral.takeMantissa?, htake, hdrop]
    -- no exponent starts with a point
    cases hexponent with
    | none => exact if_neg hnot
    | digits hletter =>
      rcases hletter with rfl | rfl <;> exact if_neg hnot
  | @digits c cs hdigits =>
    -- the digits in front of the point end there
    have hpoint : ('.' :: (c :: cs ++ exponent)).head?.any isDigit = false := by
      show isDigit '.' = false
      decide
    have htake := takeWhile_append_of_head? hwholeDigits hpoint
    have hdrop := dropWhile_append_of_head? hwholeDigits hpoint
    have htakePlaces := takeWhile_append_of_head? (isDigit_of_forall hdigits) hend
    have hdropPlaces := dropWhile_append_of_head? (isDigit_of_forall hdigits) hend
    refine ⟨c :: cs, ?_, hdigits⟩
    rw [List.append_assoc, List.cons_append]
    simp only [Numeral.takeMantissa?, htake, hdrop, htakePlaces, hdropPlaces]
    exact if_neg fun hnil => List.cons_ne_nil c cs hnil.2

/-- A scanned number is a numeral without a sign, and has room for one: with a minus sign in front
it is the same numeral, negative. The parser folds the sign into the literal and leaves it to the
reader to make sense of it. -/
theorem NumberText.exists_numeral (h : NumberText cs) :
    ∃ n : Numeral, n.IsAscii ∧ Numeral.ofChars? cs = some n ∧
      Numeral.ofChars? ('-' :: cs) = some { n with negative := true } := by
  cases h with
  | @parts whole fraction exponent hwhole hfraction hexponent hne =>
    obtain ⟨places, hmantissa, hplaces⟩ := takeMantissa?_parts hwhole hfraction hexponent hne
    obtain ⟨parts, hparts, hdigits⟩ := hexponent.exponentOfChars?
    -- no scanned number has a sign of its own: it starts with a digit or with a point
    have hsign : Numeral.takeSign (whole ++ fraction ++ exponent) =
        (false, whole ++ fraction ++ exponent) := by
      cases whole with
      | cons c whole => exact takeSign_digit (hwhole c List.mem_cons_self) _
      | nil =>
        cases hfraction with
        | none => exact absurd rfl hne
        | digits => rfl
    refine ⟨⟨false, whole, places, parts⟩, ⟨?_, hdigits⟩, ?_, ?_⟩
    · exact List.forall_mem_append.mpr ⟨hwhole, hplaces⟩
    · simp only [Numeral.ofChars?, hsign, hmantissa, hparts, Option.bind_eq_bind, Option.bind_some]
      rfl
    · have hminus : Numeral.takeSign ('-' :: (whole ++ fraction ++ exponent)) =
          (true, whole ++ fraction ++ exponent) := rfl
      simp only [Numeral.ofChars?, hminus, hmantissa, hparts, Option.bind_eq_bind, Option.bind_some]
      rfl

/-- What a scanned number is written with: digits, a point, the letter of an exponent and its sign.
None of these is white space, so that trimming leaves the text alone, and all of them are ASCII. -/
theorem NumberText.mem (h : NumberText cs) :
    ∀ c ∈ cs, isAsciiDigit c = true ∨ c ∈ ['.', 'e', 'E', '+', '-'] := by
  cases h with
  | @parts whole fraction exponent hwhole hfraction hexponent _ =>
    intro c hc
    simp only [List.mem_append, or_assoc] at hc
    rcases hc with hc | hc | hc
    · exact .inl (hwhole c hc)
    · cases hfraction with
      | none => cases hc
      | digits hdigits =>
        rcases List.mem_cons.mp hc with rfl | hc
        · exact .inr (by decide)
        · exact .inl (hdigits c hc)
    · cases hexponent with
      | none => cases hc
      | digits hletter hsign hdigits =>
        rcases List.mem_cons.mp hc with rfl | hc
        · right
          rcases hletter with rfl | rfl <;> decide
        · rcases List.mem_append.mp hc with hc | hc
          · right
            rcases hsign with rfl | rfl | rfl
            · cases hc
            · cases List.mem_singleton.mp hc
              decide
            · cases List.mem_singleton.mp hc
              decide
          · exact .inl (hdigits c hc)

end

/-! ## Numerals that are refused

The reader keeps the digits as a magnitude and a number of places, rounds away what finds no room,
and then moves the point. `OutOfRange` says in terms of the numeral where that fails; each of the
reader's functions has a lemma that says the same in terms of its arguments. -/

/-- The number does not fit. A numeral is out of range in one of four ways, and only the first of
them has to do with its mantissa alone: the others need an exponent. -/
inductive Numeral.OutOfRange (n : Numeral) : Prop where
  /-- The digits around the point denote a number of which even the nearest whole one is too large.
  -/
  | mantissa (h : (unitBound : ℚ) - 1 / 2 ≤ n.mantissa)
  /-- The point would move further to the right than there can be places. -/
  | exponent {digits : List Char} (hraised : n.exponent = some (false, digits))
      (h : maxScale < numberFrom 0 digits)
  /-- The point moves to the right, and the digits that are kept then denote too large a number. -/
  | value {digits : List Char} {total scale : ℕ} (hraised : n.exponent = some (false, digits))
      (hread : readMantissa? n.whole n.fraction = some (total, scale))
      (h : (unitBound : ℚ) ≤ total / pow10 scale * pow10 (numberFrom 0 digits))
  /-- The point moves to the left, and the digits that are kept then have too many places. -/
  | places {digits : List Char} {total scale : ℕ} (hlowered : n.exponent = some (true, digits))
      (hread : readMantissa? n.whole n.fraction = some (total, scale))
      (h : maxScale < scale + numberFrom 0 digits)

namespace Decimal

variable {n : Numeral} {cs digits : List Char} {c : Char} {total scale exponent : ℕ} {units : ℤ}
  {negative : Bool}

/-! ### The digits around the point

Whole digits that are too many are an error at once. A fraction is read as long as there is room,
and the first digit without room rounds. The rounding fails in a single case: behind the largest
number, with no place that could be given up. -/

/-- Digits in front of the point are refused only for their size. This is the other side of
`readWhole?_eq_some_iff`, once it is known that they are digits. -/
theorem readWhole?_eq_none_iff (hdigits : ∀ c ∈ cs, isAsciiDigit c = true) :
    readWhole? cs = none ↔ unitBound ≤ numberFrom 0 cs := by
  rw [Option.eq_none_iff_forall_ne_some]
  constructor
  · intro hnone
    by_contra hlt
    exact hnone _ (readWhole?_eq hdigits (not_le.mp hlt))
  · intro hge total hread
    obtain ⟨-, rfl, hlt⟩ := readWhole?_eq_some_iff.mp hread
    exact absurd hlt (not_lt.mpr hge)

/-- Rounding fails only where the number is as large as can be and has no place to give up. If it
has one, the digit in this place is rounded away instead. -/
theorem roundBy?_eq_none_iff (hc : isAsciiDigit c = true) (htotal : total < unitBound) :
    roundBy? total scale c = none ↔
      5 ≤ c.toNat - '0'.toNat ∧ total + 1 = unitBound ∧ scale = 0 := by
  simp only [roundBy?, digitValue?_of_digit hc, Option.bind_eq_bind, Option.bind_some]
  split
  · exact iff_of_false (by rintro ⟨⟩) (by omega)
  · split
    · exact iff_of_false (by rintro ⟨⟩) (by omega)
    · split
      · exact iff_of_true rfl (by omega)
      · exact iff_of_false (by rintro ⟨⟩) (by omega)

/-- With a place to give up, or below the largest number, the digits of a fraction are read.
Induction on the digits: after the first one there is a place to give up for good. -/
theorem readFraction?_ne_none (hdigits : ∀ c ∈ cs, isAsciiDigit c = true) (htotal : total < unitBound)
    (h : total + 1 ≠ unitBound ∨ scale ≠ 0) : readFraction? total scale cs ≠ none := by
  induction cs generalizing total scale with
  | nil => exact Option.some_ne_none _
  | cons c cs ih =>
    obtain ⟨hc, hcs⟩ := List.forall_mem_cons.mp hdigits
    have hround : roundBy? total scale c ≠ none := by
      rw [Ne, roundBy?_eq_none_iff hc htotal]
      omega
    rw [readFraction?]
    split
    · exact hround
    · simp only [digitValue?_of_digit hc, Option.bind_eq_bind, Option.bind_some]
      split
      · next hnext => exact ih hcs hnext (.inr (Nat.succ_ne_zero scale))
      · exact hround

/-- **When the digits of a fraction have no decimal.** Behind the largest whole number, the first
digit of the fraction decides: five or more is half a unit, and rounding it up leaves the range. In
all other cases `readFraction?_ne_none` applies from the start. -/
theorem readFraction?_eq_none_iff (hdigits : ∀ c ∈ cs, isAsciiDigit c = true)
    (htotal : total < unitBound) :
    readFraction? total 0 cs = none ↔
      total + 1 = unitBound ∧ pow10 cs.length ≤ 2 * numberFrom 0 cs := by
  by_cases hlast : total + 1 = unitBound
  · cases cs with
    | nil => exact iff_of_false (by rintro ⟨⟩) (by rintro ⟨-, h⟩; exact absurd h (by decide))
    | cons c cs =>
      obtain ⟨hc, hcs⟩ := List.forall_mem_cons.mp hdigits
      have hmany : 1 < unitBound := by decide
      -- no further digit fits, so the fraction is rounded by its first digit
      have hfull : ¬ total * 10 + (c.toNat - '0'.toNat) < unitBound := by omega
      have hread : readFraction? total 0 (c :: cs) = roundBy? total 0 c := by
        simp only [readFraction?, digitValue?_of_digit hc, Option.bind_eq_bind, Option.bind_some,
          if_neg hfull]
        rfl
      -- five in the first place is a half, and the digits behind it do not reach another place
      have hrest := numberFrom_lt hcs
      rw [hread, roundBy?_eq_none_iff hc htotal, numberFrom_cons, numberFrom_eq, List.length_cons,
        pow10_succ, Nat.zero_mul, Nat.zero_add]
      generalize c.toNat - '0'.toNat = digit
      generalize numberFrom 0 cs = behind at hrest ⊢
      generalize pow10 cs.length = place at hrest ⊢
      constructor
      · rintro ⟨hfive, -, -⟩
        have hle : 5 * place ≤ digit * place := Nat.mul_le_mul_right place hfive
        exact ⟨hlast, by omega⟩
      · rintro ⟨-, hhalf⟩
        refine ⟨?_, hlast, rfl⟩
        by_contra hless
        have hle : digit * place ≤ 4 * place := Nat.mul_le_mul_right place (by omega)
        omega
  · exact iff_of_false (readFraction?_ne_none hdigits htotal (.inl hlast)) fun h => hlast h.1

/-- A half below the bound, as a condition on the digits on both sides of the point. It is here that
the two ways to be too large, too many whole digits and a fraction that rounds up, become one
inequality. -/
theorem unitBound_sub_half_le_mantissa_iff (hfraction : ∀ c ∈ n.fraction, isAsciiDigit c = true) :
    (unitBound : ℚ) - 1 / 2 ≤ n.mantissa ↔ unitBound ≤ numberFrom 0 n.whole ∨
      numberFrom 0 n.whole + 1 = unitBound ∧ pow10 n.fraction.length ≤ 2 * numberFrom 0 n.fraction := by
  have hplace := pow10_pos_rat n.fraction.length
  have hlt := numberFrom_lt hfraction
  rw [Numeral.mantissa, le_div_iff₀ hplace, numberFrom_append, numberFrom_eq (numberFrom 0 n.whole)]
  generalize numberFrom 0 n.whole = whole
  generalize numberFrom 0 n.fraction = behind at hlt ⊢
  generalize pow10 n.fraction.length = place at hlt hplace ⊢
  -- without denominators, so that only whole numbers remain
  have hdouble : ((unitBound : ℚ) - 1 / 2) * place ≤ ((whole * place + behind : ℕ) : ℚ) ↔
      2 * unitBound * place ≤ 2 * (whole * place) + 2 * behind + place := by
    rw [← Nat.cast_le (α := ℚ)]
    push_cast
    constructor <;> intro h <;> linarith
  rw [hdouble]
  rcases Nat.lt_trichotomy (whole + 1) unitBound with hless | hlast | hmore
  · -- two whole numbers below the bound: the fraction does not make up for that
    have hle : (whole + 2) * place ≤ unitBound * place := Nat.mul_le_mul_right place hless
    rw [Nat.add_mul] at hle
    exact iff_of_false (by rw [Nat.mul_assoc]; omega) (by omega)
  · rw [← hlast, Nat.mul_assoc, Nat.add_mul]
    omega
  · have hle : unitBound * place ≤ whole * place := Nat.mul_le_mul_right place (by omega)
    exact iff_of_true (by rw [Nat.mul_assoc]; omega) (.inl (by omega))

/-- **Which mantissas are refused.** Those whose nearest whole number is too large, where a half
counts as the next one. A digit of another script never gets here: the numeral is ASCII. -/
theorem readMantissa?_eq_none_iff (hascii : n.IsAscii) :
    readMantissa? n.whole n.fraction = none ↔ (unitBound : ℚ) - 1 / 2 ≤ n.mantissa := by
  obtain ⟨hwhole, hfraction⟩ := List.forall_mem_append.mp hascii.mantissa
  rw [unitBound_sub_half_le_mantissa_iff hfraction, readMantissa?,
    if_pos (List.all_eq_true.mpr hfraction)]
  rcases Nat.lt_or_ge (numberFrom 0 n.whole) unitBound with hlt | hge
  · have hread : readWhole? n.whole = some (numberFrom 0 n.whole) := readWhole?_eq hwhole hlt
    simp only [hread, Option.bind_eq_bind, Option.bind_some]
    rw [readFraction?_eq_none_iff hfraction hlt]
    exact (or_iff_right (not_le.mpr hlt)).symm
  · have hnone := (readWhole?_eq_none_iff hwhole).mpr hge
    exact iff_of_true (by rw [hnone]; rfl) (.inl hge)

/-! ### Moving the point

A negative exponent adds places and changes nothing else. A positive one takes places away first,
and what is left of it multiplies the units. -/

/-- Where the point cannot be moved. To the left it is a matter of places only. To the right the
power of ten must itself have a decimal, even if all digits are zeros, and the product must be in
range; both are written here without any division. -/
theorem shift?_eq_none_iff (hunits : units.natAbs < unitBound) (hscale : scale ≤ maxScale) :
    shift? units scale negative exponent = none ↔
      if negative then maxScale < scale + exponent
      else maxScale < exponent ∨ unitBound * pow10 scale ≤ units.natAbs * pow10 exponent := by
  unfold shift?
  split
  · rw [ofUnits?_eq_none_iff]
    omega
  · split
    · next hle =>
      -- the point moves within the places that there are
      have hpow : units.natAbs * pow10 exponent ≤ units.natAbs * pow10 scale :=
        Nat.mul_le_mul_left _ (Nat.pow_le_pow_right (by decide) hle)
      have hlt : units.natAbs * pow10 scale < unitBound * pow10 scale :=
        Nat.mul_lt_mul_of_pos_right hunits (pow10_pos scale)
      rw [ofUnits?_eq_none_iff]
      exact iff_of_false (by omega) (by omega)
    · next hmore =>
      obtain ⟨more, rfl⟩ := Nat.exists_eq_add_of_le (Nat.le_of_not_le hmore)
      -- the places that are used up cancel on both sides
      have hvalue : unitBound * pow10 scale ≤ units.natAbs * pow10 (scale + more) ↔
          unitBound ≤ units.natAbs * pow10 more := by
        rw [pow10_add, Nat.mul_left_comm, Nat.mul_comm unitBound]
        exact Nat.mul_le_mul_left_iff (pow10_pos scale)
      rw [hvalue, Nat.add_sub_cancel_left]
      split
      · next hlimit =>
        rw [ofUnits?_eq_none_iff, Int.natAbs_mul, Int.natAbs_natCast]
        omega
      · next hlimit => exact iff_of_true rfl (.inl (not_le.mp hlimit))

/-! ### Whole numerals

Now the two halves come together. A numeral without an exponent is refused with its mantissa or not
at all; with an exponent, a mantissa that is read may still be too large or have too many places
once the point has moved. -/

/-- The bound of `OutOfRange.value` is one of rational numbers, that of `shift?_eq_none_iff` one of
whole numbers. -/
theorem unitBound_le_moved_iff (total scale exponent : ℕ) :
    (unitBound : ℚ) ≤ total / pow10 scale * pow10 exponent ↔
      unitBound * pow10 scale ≤ total * pow10 exponent := by
  rw [div_mul_eq_mul_div, le_div_iff₀ (pow10_pos_rat scale)]
  exact_mod_cast Iff.rfl

/-- Without an exponent, only the digits can be out of range. -/
theorem not_outOfRange_of_plain (hplain : n.exponent = none)
    (hmantissa : ¬ (unitBound : ℚ) - 1 / 2 ≤ n.mantissa) : ¬ n.OutOfRange := by
  intro h
  cases h with
  | mantissa h => exact hmantissa h
  | exponent hraised | value hraised => cases hplain.symm.trans hraised
  | places hlowered => cases hplain.symm.trans hlowered

/-- With an exponent, digits that are in range themselves still are out of range where the point
cannot be moved. What the digits are read as is unique, so the two witnesses of `OutOfRange` are the
values that the reader has at hand. -/
theorem outOfRange_iff_of_exponent (hexponent : n.exponent = some (negative, digits))
    (hmantissa : ¬ (unitBound : ℚ) - 1 / 2 ≤ n.mantissa)
    (hread : readMantissa? n.whole n.fraction = some (total, scale)) :
    n.OutOfRange ↔
      if negative then maxScale < scale + numberFrom 0 digits
      else maxScale < numberFrom 0 digits ∨
        unitBound * pow10 scale ≤ total * pow10 (numberFrom 0 digits) := by
  constructor
  · intro h
    cases h with
    | mantissa h => exact absurd h hmantissa
    | exponent hraised h =>
      cases hexponent.symm.trans hraised
      exact .inl h
    | value hraised hread' h =>
      cases hexponent.symm.trans hraised
      -- the digits are read in one way only
      cases hread.symm.trans hread'
      exact .inr ((unitBound_le_moved_iff _ _ _).mp h)
    | places hlowered hread' h =>
      cases hexponent.symm.trans hlowered
      cases hread.symm.trans hread'
      exact h
  · intro h
    cases negative with
    | false =>
      rcases h with hlarge | hlarge
      · exact .exponent hexponent hlarge
      · exact .value hexponent hread ((unitBound_le_moved_iff _ _ _).mpr hlarge)
    | true => exact .places hexponent hread h

/-- **The reader refuses a numeral of ASCII digits just if it is out of range.** A case for each way
through the reader: the mantissa is refused, or there is no exponent, or the point is moved. An
exponent with more than 32 bits is refused by the reader of exponents, which is no case of its own:
no shift goes as far. -/
theorem ofNumeral?_eq_none_iff (hascii : n.IsAscii) : ofNumeral? n = none ↔ n.OutOfRange := by
  cases hread : readMantissa? n.whole n.fraction with
  | none =>
    have hnone : ofNumeral? n = none := by
      simp only [ofNumeral?, hread]
      rfl
    exact iff_of_true hnone (.mantissa ((readMantissa?_eq_none_iff hascii).mp hread))
  | some read =>
    obtain ⟨total, scale⟩ := read
    have hmantissa : ¬ (unitBound : ℚ) - 1 / 2 ≤ n.mantissa := by
      rw [← readMantissa?_eq_none_iff hascii, hread]
      exact Option.some_ne_none _
    obtain ⟨htotal, hscale⟩ := readMantissa?_range hread
    have hunits : (signed n.negative total).natAbs < unitBound :=
      (natAbs_signed _ _).trans_lt htotal
    cases hexponent : n.exponent with
    | none =>
      obtain ⟨d, hd⟩ := exists_ofUnits? hunits hscale
      rw [ofNumeral?_plain hexponent hread, hd]
      exact iff_of_false (Option.some_ne_none d) (not_outOfRange_of_plain hexponent hmantissa)
    | some exponent =>
      obtain ⟨negative, digits⟩ := exponent
      have hshift := @shift?_eq_none_iff scale (numberFrom 0 digits) _ negative hunits hscale
      rw [natAbs_signed] at hshift
      rw [ofNumeral?_exponent hascii hexponent hread,
        outOfRange_iff_of_exponent hexponent hmantissa hread, ← hshift]
      split
      · rfl
      · -- an exponent that is too large for the reader is too large for every shift
        next hlarge =>
        have hmax : maxScale = 28 := rfl
        refine iff_of_true rfl (hshift.mpr ?_)
        split <;> omega

end Decimal

/-! ## Literals

The parser makes a number literal in two ways: of a number, and of a minus sign with a number behind
it. `NumberLiteral` is what is known of its text in both cases. -/

/-- The text of a number literal: a scanned number, or one behind a minus sign. There is never more
than one sign, as the parser folds only the sign directly in front. -/
inductive NumberLiteral : String → Prop where
  | number {text : String} (h : NumberText text.toList) : NumberLiteral text
  | negative {text : String} (h : NumberText text.toList) : NumberLiteral ("-" ++ text)

namespace NumberLiteral

variable {text : String} {c : Char}

/-- A literal is a numeral of ASCII digits for the reader, in both cases by
`NumberText.exists_numeral`. -/
theorem exists_numeral (h : NumberLiteral text) :
    ∃ n : Numeral, n.IsAscii ∧ Numeral.ofChars? text.toList = some n := by
  cases h with
  | number h =>
    obtain ⟨n, hascii, hplain, -⟩ := h.exists_numeral
    exact ⟨n, hascii, hplain⟩
  | @negative text h =>
    obtain ⟨n, hascii, -, hnegative⟩ := h.exists_numeral
    refine ⟨{ n with negative := true }, ⟨hascii.mantissa, hascii.exponent⟩, ?_⟩
    rw [String.toList_append]
    exact hnegative

/-- What a literal is written with: the characters of a scanned number, as a minus sign is one of
these as well. -/
theorem mem (h : NumberLiteral text) (hc : c ∈ text.toList) :
    isAsciiDigit c = true ∨ c ∈ ['.', 'e', 'E', '+', '-'] := by
  cases h with
  | number h => exact h.mem c hc
  | @negative text h =>
    rw [String.toList_append, List.mem_append] at hc
    rcases hc with hminus | hc
    · cases List.mem_singleton.mp hminus
      exact .inr (by decide)
    · exact h.mem c hc

/-- A literal is ASCII and has no white space. The few characters that are no digits are checked one
by one. -/
theorem ascii_and_not_space (h : NumberLiteral text) (hc : c ∈ text.toList) :
    c.toNat < 128 ∧ isSpace c = false := by
  rcases h.mem hc with hdigit | hother
  · refine ⟨?_, isSpace_of_digit hdigit⟩
    obtain ⟨n, hn, rfl⟩ := exists_digitChar hdigit
    exact (by decide : ∀ n < 10, (digitChar n).toNat < 128) n hn
  · have hall : ['.', 'e', 'E', '+', '-'].all (fun c => c.toNat < 128 && !isSpace c) = true := by decide
    simpa using List.all_eq_true.mp hall c hother

/-- There is nothing to trim in front of the reader, so that the value of a literal is the value of
its numeral. -/
theorem ofText?_eq {n : Numeral} (h : NumberLiteral text) (hn : Numeral.ofChars? text.toList = some n) :
    Decimal.ofText? text = Decimal.ofNumeral? n := by
  have htrim : trim text.toList = text.toList :=
    trim_eq_self fun c hc => (h.ascii_and_not_space hc).2
  rw [Decimal.ofText?, htrim, hn]
  rfl

end NumberLiteral

/-! ## Literals of accepted trees

Only two rules of the parser make a number, and both take its text from a token. Everything else
puts trees together. So an invariant of the parser says of every number in an accepted tree that it
is a literal, however deep inside it stands. -/

/-- The text of every number inside the expression is the text of a literal. Inside are the parts,
the callee of a call and whatever is inside of these. -/
def Expr.HasLiterals (expr : Expr) : Prop :=
  ∀ text, Relation.ReflTransGen Expr.Constituent (.number text) expr → NumberLiteral text

/-- In a number there is no other number but itself. -/
theorem Expr.hasLiterals_number {text : String} (h : NumberLiteral text) :
    (Expr.number text).HasLiterals := by
  intro inner hinside
  rcases hinside.cases_tail with heq | ⟨_, -, hpart⟩
  · cases heq
    exact h
  · cases hpart with
    | part hpart => cases hpart

/-- What is no number itself has the literals of what stands directly in it. The step of the
invariant: the last link of the chain from the number outward is taken off. -/
theorem Expr.hasLiterals_of_constituents {expr : Expr} (hnot : ∀ text, expr ≠ .number text)
    (hparts : ∀ part, Expr.Constituent part expr → part.HasLiterals) : expr.HasLiterals := by
  intro text hinside
  rcases hinside.cases_tail with heq | ⟨part, hinside, hpart⟩
  · exact absurd heq (hnot text)
  · exact hparts part hpart text hinside

namespace Parser

/-- **Every number inside a tree is a literal.** One case for each rule that makes a node. A
construct without a value has no number inside: only its source is kept, whatever the tokens in it.
-/
theorem literal_invariant : Invariant Cursor.Written fun node => node.expr.HasLiterals where
  advance htoken hc := hc.advance htoken
  leaf hc hleaf := by
    cases hleaf with
    | number htoken => exact Expr.hasLiterals_number (.number (hc.token htoken))
    | negative htoken => exact Expr.hasLiterals_number (.negative (hc.token htoken))
    | string | boolean | identifier =>
      refine Expr.hasLiterals_of_constituents (by rintro _ ⟨⟩) ?_
      rintro _ ⟨⟨⟩⟩
  unsupported _ _ _ _ := by
    refine Expr.hasLiterals_of_constituents (by rintro _ ⟨⟩) ?_
    rintro _ ⟨⟨⟩⟩
  member _ _ hbase _ := by
    refine Expr.hasLiterals_of_constituents (by rintro _ ⟨⟩) ?_
    rintro _ ⟨⟨⟩⟩
    exact hbase
  index hbase helement _ := by
    refine Expr.hasLiterals_of_constituents (by rintro _ ⟨⟩) ?_
    rintro _ ⟨⟨⟩⟩
    · exact hbase
    · exact helement
  call hcallee harguments _ := by
    refine Expr.hasLiterals_of_constituents (by rintro _ ⟨⟩) fun part hpart => ?_
    cases hpart with
    | callee => exact hcallee
    | part hpart =>
      cases hpart with
      | argument _ hargument =>
        obtain ⟨node, hnode, rfl⟩ := List.mem_map.mp hargument
        exact harguments node hnode
  binary _ hleft hright _ := by
    refine Expr.hasLiterals_of_constituents (by rintro _ ⟨⟩) ?_
    rintro _ ⟨⟨⟩⟩
    · exact hleft
    · exact hright

/-- The invariant, for the tree that the parser ends with. -/
theorem hasLiterals_of_parse {source : String} {expr : Expr} (hparse : Expr.parse source = .ok expr) :
    expr.HasLiterals := by
  obtain ⟨node, hroot, rfl⟩ := exists_root hparse
  exact root_keeps literal_invariant (start_written source) node hroot

end Parser

/-- The value of a number is what the reader makes of its text. At depth zero the limit on nesting
is never in the way. -/
theorem Environment.result_evaluate_number (environment : Environment) (text : String) :
    ((Expr.number text).evaluate environment).result =
      match Decimal.ofText? text with
      | some d => .ok (.decimal d)
      | none => .error (.failed (.invalidNumber text)) := by
  rw [Expr.result_evaluate, meaning, within, if_neg (Nat.not_lt_zero _), numeral, Decimal.read]
  cases Decimal.ofText? text with
  | none => rfl
  | some d => rfl

/-- **Scanned numbers are numerals.** Every number inside an accepted tree, one with a minus sign
folded into it included, is a numeral for the reader, and it is ASCII without white space.
Evaluated, it is invalid only where the reader refuses it, and that is just where it is out of
range. -/
theorem number_literals_numeric {source : String} {tree : Expr} (hparse : Expr.parse source = .ok tree)
    {text : String} (hinside : Relation.ReflTransGen Expr.Constituent (.number text) tree) :
    isNumeral text = true ∧ (∀ c ∈ text.toList, c.toNat < 128 ∧ isSpace c = false) ∧
      ∃ n, Numeral.ofChars? text.toList = some n ∧
        (Decimal.ofNumeral? n = none ↔ n.OutOfRange) ∧
        ∀ environment : Environment, ((Expr.number text).evaluate environment).result =
          match Decimal.ofNumeral? n with
          | some d => .ok (.decimal d)
          | none => .error (.failed (.invalidNumber text)) := by
  have hliteral := Parser.hasLiterals_of_parse hparse text hinside
  obtain ⟨n, hascii, hn⟩ := hliteral.exists_numeral
  refine ⟨?_, fun c => hliteral.ascii_and_not_space, n, hn, Decimal.ofNumeral?_eq_none_iff hascii,
    fun environment => ?_⟩
  · rw [isNumeral, hn]
    rfl
  · rw [environment.result_evaluate_number, hliteral.ofText?_eq hn]

/-- A folded minus sign in front of a point, and an exponent that is a numeral but out of range. -/
theorem number_literals_numeric_folded :
    ∃ tree, Expr.parse "f(-.5e+2, $a[1e29])" = .ok tree ∧
      Relation.ReflTransGen Expr.Constituent (.number "-.5e+2") tree ∧
      Relation.ReflTransGen Expr.Constituent (.number "1e29") tree ∧
      isNumeral "-.5e+2" = true ∧ isNumeral "1e29" = true ∧
      ∀ environment : Environment,
        ((Expr.number "-.5e+2").evaluate environment).result =
            .ok (.decimal ⟨-50, 0, by decide, by decide⟩) ∧
          ((Expr.number "1e29").evaluate environment).result =
            .error (.failed (.invalidNumber "1e29")) := by
  -- the minus sign is part of the first number, and a point needs no digit in front of it
  have hparse : Expr.parse "f(-.5e+2, $a[1e29])" = .ok (.call (.identifier "f")
      [.number "-.5e+2", .index (.identifier "$a") (.number "1e29")]) := by
    set_option maxRecDepth 4000 in
    with_unfolding_all rfl
  have hfolded : Relation.ReflTransGen Expr.Constituent (.number "-.5e+2") (.call (.identifier "f")
      [.number "-.5e+2", .index (.identifier "$a") (.number "1e29")]) :=
    .single (.part (.argument _ List.mem_cons_self))
  have hlarge : Relation.ReflTransGen Expr.Constituent (.number "1e29") (.call (.identifier "f")
      [.number "-.5e+2", .index (.identifier "$a") (.number "1e29")]) :=
    .tail (.single (.part (.element (.identifier "$a") _)))
      (.part (.argument _ (List.mem_cons_of_mem _ List.mem_cons_self)))
  obtain ⟨hnumeral, -, n, hn, -, hvalue⟩ := number_literals_numeric hparse hfolded
  obtain ⟨hnumeral', -, n', hn', hrange, herror⟩ := number_literals_numeric hparse hlarge
  refine ⟨_, hparse, hfolded, hlarge, hnumeral, hnumeral', fun environment => ⟨?_, ?_⟩⟩
  · have hread : Numeral.ofChars? "-.5e+2".toList = some ⟨true, [], ['5'], some (false, ['2'])⟩ := by
      decide +kernel
    cases hn.symm.trans hread
    rw [hvalue environment]
    rfl
  · have hread : Numeral.ofChars? "1e29".toList =
        some ⟨false, ['1'], [], some (false, ['2', '9'])⟩ := by
      decide +kernel
    cases hn'.symm.trans hread
    rw [herror environment, hrange.mpr (.exponent rfl (by decide))]

end Stencil
