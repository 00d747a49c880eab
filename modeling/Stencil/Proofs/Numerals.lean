import Stencil.Decimal.Numeral
import Stencil.Proofs.Lexing

/-!
# Numerals of decimals

The numeral of a decimal has the digits of its units, with zeros in front if there are fewer digits
than places, and a point in front of the last `scale` of them. Reading goes through the same digits:
the total only grows, so it stays in range as long as the units do, and no digit is rounded away.

* **`digits_of_lt`**, **`digits_of_le`** — the numeral of a whole number, one digit at a time from
  its end; `digits_induction` is the induction that goes with them.
* **`Spelled`** — the digits on both sides of the point and all that is known of them.
* **`readWhole?_eq_some_iff`** — which digits are read as a whole number; `pushDigit?` is the step.
* **`ofText?_toText`** — the numeral of a decimal is read as that decimal, places included.
* **`isPlainNumeral_toText`** — it is in positional notation, without superfluous zeros in front.
-/

namespace Stencil.Text

variable {total n : Nat} {cs : List Char} {c : Char}

/-! ## The numeral of a whole number

Digits are read from the left, each one multiplying what came before by ten, and they are written
from the right, each one a remainder. `numberFrom` is the reading, from any number that came before,
so that it can be split anywhere; the writing is taken apart at its last digit. An induction over
the digits of a number meets both. -/

/-- The number that digits denote when they follow the digits of `total`. -/
def numberFrom (total : Nat) (cs : List Char) : Nat :=
  cs.foldl (fun total c => total * 10 + (c.toNat - '0'.toNat)) total

theorem numberFrom_nil (total : Nat) : numberFrom total [] = total := rfl

theorem numberFrom_cons (total : Nat) (c : Char) (cs : List Char) :
    numberFrom total (c :: cs) = numberFrom (total * 10 + (c.toNat - '0'.toNat)) cs :=
  List.foldl_cons ..

theorem numberFrom_append (total : Nat) (xs ys : List Char) :
    numberFrom total (xs ++ ys) = numberFrom (numberFrom total xs) ys := List.foldl_append

/-- Further digits never make a number smaller, which is why it is enough to check the range at the
end. -/
theorem le_numberFrom (total : Nat) (cs : List Char) : total ≤ numberFrom total cs := by
  induction cs generalizing total with
  | nil => exact Nat.le_refl total
  | cons c cs ih =>
    have hrest := ih (total * 10 + (c.toNat - '0'.toNat))
    rw [numberFrom_cons]
    omega

/-- Zeros in front count nothing. -/
theorem numberFrom_replicate_zero (count : Nat) :
    numberFrom 0 (List.replicate count '0') = 0 := by
  induction count with
  | zero => rfl
  | succ count ih => exact ih

/-- Digits in front of others count by the power of ten that stands for the place of the others. -/
theorem numberFrom_eq (total : Nat) (cs : List Char) :
    numberFrom total cs = total * pow10 cs.length + numberFrom 0 cs := by
  induction cs generalizing total with
  | nil => simp [numberFrom]
  | cons c cs ih =>
    rw [numberFrom_cons, ih, numberFrom_cons, ih (0 * 10 + _), Nat.zero_mul, Nat.zero_add,
      List.length_cons, pow10_succ, Nat.add_mul, Nat.mul_assoc, Nat.mul_comm 10, Nat.add_assoc]

/-- So many digits denote a number below the power of ten with so many zeros. Induction on the
digits, with the place of the first one taken off. -/
theorem numberFrom_lt (h : ∀ c ∈ cs, isAsciiDigit c = true) :
    numberFrom 0 cs < pow10 cs.length := by
  induction cs with
  | nil => decide
  | cons c cs ih =>
    obtain ⟨hc, hcs⟩ := List.forall_mem_cons.mp h
    have hdigit : c.toNat - '0'.toNat ≤ 9 := by
      obtain ⟨n, hn, rfl⟩ := exists_digitChar hc
      exact (by decide : ∀ n < 10, (digitChar n).toNat - '0'.toNat ≤ 9) n hn
    have hrest := ih hcs
    rw [numberFrom_cons, numberFrom_eq, Nat.zero_mul, Nat.zero_add, List.length_cons, pow10_succ]
    calc (c.toNat - '0'.toNat) * pow10 cs.length + numberFrom 0 cs
        < (c.toNat - '0'.toNat) * pow10 cs.length + pow10 cs.length := Nat.add_lt_add_left hrest _
      _ = (c.toNat - '0'.toNat + 1) * pow10 cs.length := (Nat.succ_mul _ _).symm
      _ ≤ 10 * pow10 cs.length := Nat.mul_le_mul_right _ (by omega)
      _ = pow10 cs.length * 10 := Nat.mul_comm ..

theorem digitValue?_of_digit (h : isAsciiDigit c = true) :
    digitValue? c = some (c.toNat - '0'.toNat) := if_pos h

/-- ASCII digits are read as the number that they denote. The digits that have been read are a
parameter of the induction. -/
theorem natOfDigits?_eq (h : ∀ c ∈ cs, isAsciiDigit c = true) :
    natOfDigits? cs = some (numberFrom 0 cs) := by
  suffices hfrom : ∀ total, cs.foldlM (fun total c => (digitValue? c).map (total * 10 + ·)) total =
      some (numberFrom total cs) from hfrom 0
  intro total
  induction cs generalizing total with
  | nil => rfl
  | cons c cs ih =>
    rw [List.foldlM_cons, digitValue?_of_digit (h c List.mem_cons_self), numberFrom_cons]
    exact ih (fun d hd => h d (List.mem_cons_of_mem c hd)) _

theorem digitChar_mod (n : Nat) : digitChar (n % 10) = digitChar n := by
  rw [digitChar, Nat.mod_mod, digitChar]

theorem isAsciiDigit_digitChar (n : Nat) : isAsciiDigit (digitChar n) = true := by
  rw [← digitChar_mod]
  exact (by decide : ∀ n < 10, isAsciiDigit (digitChar n) = true) _ (Nat.mod_lt n (by decide))

theorem toNat_digitChar (n : Nat) : (digitChar n).toNat - '0'.toNat = n % 10 := by
  rw [← digitChar_mod]
  exact (by decide : ∀ n < 10, (digitChar n).toNat - '0'.toNat = n) _ (Nat.mod_lt n (by decide))

/-- The digits that are written in front of others do not depend on the others. -/
theorem digitsBefore_append (n : Nat) (tail : List Char) :
    digitsBefore n tail = digitsBefore n [] ++ tail := by
  induction n using Nat.strongRecOn generalizing tail with
  | ind n ih =>
    rw [digitsBefore.eq_def n tail, digitsBefore.eq_def n []]
    split
    · rfl
    · next hn =>
      have hless : n / 10 < n := by omega
      rw [ih _ hless, ih _ hless [digitChar n], List.append_assoc]
      rfl

/-- A number below ten is one digit. -/
theorem digits_of_lt (h : n < 10) : digits n = [digitChar n] := by
  unfold digits
  split
  · next hn => rw [hn]; rfl
  · next hn =>
    have hrest : n / 10 = 0 := by omega
    rw [digitsBefore, if_neg hn, hrest, digitsBefore, if_pos rfl]

theorem digits_of_le (h : 10 ≤ n) : digits n = digits (n / 10) ++ [digitChar n] := by
  have hn : n ≠ 0 := by omega
  have hrest : n / 10 ≠ 0 := by omega
  rw [digits, if_neg hn, digitsBefore, if_neg hn, digitsBefore_append, digits, if_neg hrest]

/-- Induction on the digits of a number, the last one first. -/
@[elab_as_elim]
theorem digits_induction {motive : Nat → Prop} (one : ∀ n < 10, motive n)
    (more : ∀ n, 10 ≤ n → motive (n / 10) → motive n) (n : Nat) : motive n := by
  induction n using Nat.strongRecOn with
  | ind n ih =>
    rcases Nat.lt_or_ge n 10 with h | h
    · exact one n h
    · exact more n h (ih _ (by omega))

/-- A numeral has ASCII digits only. -/
theorem isAsciiDigit_of_mem_digits : ∀ c ∈ digits n, isAsciiDigit c = true := by
  induction n using digits_induction with
  | one n h =>
    rw [digits_of_lt h]
    simpa using isAsciiDigit_digitChar n
  | more n h ih =>
    rw [digits_of_le h]
    simpa [or_imp, forall_and] using ⟨ih, isAsciiDigit_digitChar n⟩

/-- The digits of a number denote that number: what is written is read back. -/
theorem numberFrom_digits (n : Nat) : numberFrom 0 (digits n) = n := by
  induction n using digits_induction with
  | one n h =>
    rw [digits_of_lt h]
    show 0 * 10 + ((digitChar n).toNat - '0'.toNat) = n
    rw [toNat_digitChar]
    omega
  | more n h ih =>
    rw [digits_of_le h, numberFrom_append, ih]
    show n / 10 * 10 + ((digitChar n).toNat - '0'.toNat) = n
    rw [toNat_digitChar]
    omega

theorem getLast?_digits (n : Nat) : (digits n).getLast? = some (digitChar n) := by
  rcases Nat.lt_or_ge n 10 with h | h
  · rw [digits_of_lt h]; rfl
  · rw [digits_of_le h]; simp

/-- There is always a digit, even for zero. -/
theorem digits_ne_nil (n : Nat) : digits n ≠ [] := by
  intro h
  have hlast := getLast?_digits n
  rw [h] at hlast
  cases hlast

/-- Only the numeral of zero starts with a zero. -/
theorem eq_zero_of_head?_digits (h : (digits n).head? = some '0') : n = 0 := by
  induction n using digits_induction with
  | one n hn =>
    rw [digits_of_lt hn] at h
    exact (by decide : ∀ n < 10, [digitChar n].head? = some '0' → n = 0) n hn h
  | more n hn ih =>
    obtain ⟨c, cs, hcons⟩ := List.exists_cons_of_ne_nil (digits_ne_nil (n / 10))
    rw [digits_of_le hn, hcons] at h
    have hzero : n / 10 = 0 := ih (by rw [hcons]; exact h)
    omega

/-! ### With zeros in front -/

variable {width : Nat}

/-- Zeros in front are digits as well. -/
theorem isAsciiDigit_of_mem_paddedDigits :
    ∀ c ∈ paddedDigits width n, isAsciiDigit c = true := by
  intro c hc
  rcases List.mem_append.mp hc with hzero | hdigit
  · rw [List.eq_of_mem_replicate hzero]; rfl
  · exact isAsciiDigit_of_mem_digits c hdigit

theorem numberFrom_paddedDigits (width n : Nat) : numberFrom 0 (paddedDigits width n) = n := by
  simp only [paddedDigits, numberFrom_append, numberFrom_replicate_zero, numberFrom_digits]

theorem getLast?_paddedDigits (width n : Nat) :
    (paddedDigits width n).getLast? = some (digitChar n) := by
  simp [paddedDigits, List.getLast?_append, getLast?_digits]

theorem le_length_paddedDigits (width n : Nat) : width ≤ (paddedDigits width n).length := by
  simp only [paddedDigits, List.length_append, List.length_replicate]
  omega

/-- A zero in front of the digits of a number fills up the width. -/
theorem length_paddedDigits_of_head? (hwidth : 0 < width)
    (h : (paddedDigits width n).head? = some '0') : (paddedDigits width n).length = width := by
  rcases Nat.lt_or_ge (digits n).length width with hless | hfull
  · simp only [paddedDigits, List.length_append, List.length_replicate]
    omega
  · have hpadding : width - (digits n).length = 0 := by omega
    simp only [paddedDigits, hpadding, List.replicate_zero, List.nil_append] at h ⊢
    have hn : n = 0 := eq_zero_of_head?_digits h
    subst hn
    have hone : (digits 0).length = 1 := rfl
    omega

end Stencil.Text

namespace Stencil.Decimal

open Text

/-- The characters of a fraction: a point in front of its digits, unless there are none. -/
def pointed : List Char → List Char
  | [] => []
  | c :: cs => '.' :: c :: cs

/-- The digits on both sides of the point of a decimal's numeral. -/
structure Spelled (d : Decimal) (whole fraction : List Char) : Prop where
  digits : ∀ c ∈ whole ++ fraction, isAsciiDigit c = true
  value : numberFrom 0 (whole ++ fraction) = d.units.natAbs
  whole_ne_nil : whole ≠ []
  places : fraction.length = d.scale
  /-- Only a single zero stands at the front. -/
  whole_eq : whole.head? = some '0' → whole = ['0']
  last : fraction ≠ [] → fraction.getLast? = some (digitChar d.units.natAbs)
  toChars : d.toChars = (if d.units < 0 then ['-'] else []) ++ (whole ++ pointed fraction)

/-- **Every decimal is spelled so**: its digits are cut in front of the last `scale` of them, and
there are enough digits for at least one to be left. The digits are padded to one more than the
places, which is why a zero in front of the point stands there alone. -/
theorem exists_spelled (d : Decimal) : ∃ whole fraction, d.Spelled whole fraction := by
  let text := paddedDigits (d.scale + 1) d.units.natAbs
  let whole := text.take (text.length - d.scale)
  let fraction := text.drop (text.length - d.scale)
  have happend : whole ++ fraction = text := List.take_append_drop _ _
  have hlength : d.scale + 1 ≤ text.length := le_length_paddedDigits _ _
  have hplaces : fraction.length = d.scale := by
    simp only [fraction, List.length_drop]
    omega
  have hwhole : whole.length = text.length - d.scale := by
    simp only [whole, List.length_take]
    omega
  have hne : whole ≠ [] := by
    intro h
    rw [h, List.length_nil] at hwhole
    omega
  refine ⟨whole, fraction, ?_, ?_, hne, hplaces, ?_, ?_, ?_⟩
  · rw [happend]
    exact isAsciiDigit_of_mem_paddedDigits
  · rw [happend]
    exact numberFrom_paddedDigits _ _
  · -- a zero at the front comes from the padding, and that is one digit longer than the places
    intro hzero
    obtain ⟨c, cs, hcons⟩ := List.exists_cons_of_ne_nil hne
    have hhead : text.head? = some '0' := by
      rw [← happend, hcons]
      rwa [hcons] at hzero
    have hwidth : text.length = d.scale + 1 :=
      length_paddedDigits_of_head? (Nat.succ_pos _) hhead
    rw [hcons] at hzero hwhole ⊢
    simp only [List.head?_cons, Option.some.injEq, List.length_cons] at hzero hwhole
    have hnil : cs = [] := List.eq_nil_of_length_eq_zero (by omega)
    rw [hzero, hnil]
  · intro hfraction
    have hlast : (whole ++ fraction).getLast? = some (digitChar d.units.natAbs) := by
      rw [happend]
      exact getLast?_paddedDigits _ _
    rwa [List.getLast?_append, List.getLast?_eq_some_getLast hfraction, Option.some_or,
      ← List.getLast?_eq_some_getLast hfraction] at hlast
  · have hpoint : (if d.scale = 0 then [] else '.' :: fraction) = pointed fraction := by
      cases hfraction : fraction with
      | nil =>
        have hscale : d.scale = 0 := by rw [← hplaces, hfraction]; rfl
        rw [if_pos hscale]
        rfl
      | cons c cs =>
        have hscale : d.scale ≠ 0 := by rw [← hplaces, hfraction]; exact Nat.succ_ne_zero _
        rw [if_neg hscale]
        rfl
    rw [← hpoint, ← List.append_assoc]
    rfl

/-! ## Reading it back

The reader goes over the digits in front of the point and behind it with one total, which it keeps
in range at every step. For the digits of a decimal the total ends at its units, and these are in
range, so no step fails. The places are as many as the decimal has, so no digit has to be rounded
away. -/

variable {whole fraction cs : List Char} {total scale : Nat} {c : Char}

/-- One step of the reader of whole digits: it takes an ASCII digit, and nothing that leaves the
range. -/
theorem pushDigit?_eq_some_iff {next : Nat} :
    pushDigit? total c = some next ↔
      isAsciiDigit c = true ∧ numberFrom total [c] = next ∧ next < unitBound := by
  rw [numberFrom_cons, numberFrom_nil, pushDigit?, digitValue?]
  by_cases hdigit : isAsciiDigit c = true
  · rw [if_pos hdigit, and_iff_right hdigit]
    show (if total * 10 + (c.toNat - '0'.toNat) < unitBound then
      some (total * 10 + (c.toNat - '0'.toNat)) else none) = some next ↔ _
    split
    · next hlt =>
      rw [Option.some.injEq]
      exact ⟨fun h => ⟨h, h ▸ hlt⟩, And.left⟩
    · next hge => exact iff_of_false (by rintro ⟨⟩) fun h => hge (h.1.symm ▸ h.2)
  · rw [if_neg hdigit]
    exact iff_of_false (by rintro ⟨⟩) fun h => hdigit h.1

/-- **The steps one after the other**, from any total in range. All characters are digits and the
number they make is in range: as the total never falls, it is enough that the last one is in range.
-/
theorem foldlM_pushDigit?_eq_some_iff {start : Nat} (hstart : start < unitBound) :
    cs.foldlM pushDigit? start = some total ↔
      (∀ c ∈ cs, isAsciiDigit c = true) ∧ numberFrom start cs = total ∧ total < unitBound := by
  induction cs generalizing start with
  | nil =>
    rw [List.foldlM_nil, numberFrom_nil]
    constructor
    · intro h
      cases h
      exact ⟨List.forall_mem_nil _, rfl, hstart⟩
    · rintro ⟨-, rfl, -⟩
      rfl
  | cons c cs ih =>
    rw [List.foldlM_cons, List.forall_mem_cons]
    constructor
    · intro h
      obtain ⟨next, hpush, hrest⟩ := Option.bind_eq_some_iff.mp h
      obtain ⟨hc, rfl, hnext⟩ := pushDigit?_eq_some_iff.mp hpush
      obtain ⟨hcs, htotal, hbound⟩ := (ih hnext).mp hrest
      exact ⟨⟨hc, hcs⟩, htotal, hbound⟩
    · rintro ⟨⟨hc, hcs⟩, htotal, hbound⟩
      -- the total after the first digit is below the last one
      have hnext : numberFrom start [c] < unitBound :=
        Nat.lt_of_le_of_lt (le_numberFrom _ cs) (htotal ▸ hbound)
      apply Option.bind_eq_some_iff.mpr
      exact ⟨_, pushDigit?_eq_some_iff.mpr ⟨hc, rfl, hnext⟩, (ih hnext).mpr ⟨hcs, htotal, hbound⟩⟩

/-- **Whole digits are read as the number that they denote**, if they are ASCII digits and the
number is in range, and are refused otherwise. All that is known of the reader follows from this. -/
theorem readWhole?_eq_some_iff :
    readWhole? cs = some total ↔
      (∀ c ∈ cs, isAsciiDigit c = true) ∧ numberFrom 0 cs = total ∧ total < unitBound :=
  foldlM_pushDigit?_eq_some_iff (by decide)

/-- The direction that is used for reading: digits whose number is in range are read as it. -/
theorem readWhole?_eq (hdigits : ∀ c ∈ cs, isAsciiDigit c = true)
    (hbound : numberFrom 0 cs < unitBound) : readWhole? cs = some (numberFrom 0 cs) :=
  readWhole?_eq_some_iff.mpr ⟨hdigits, rfl, hbound⟩

/-- The digits of a fraction are read as long as there is room for them. -/
theorem readFraction?_append (hdigits : ∀ c ∈ cs, isAsciiDigit c = true)
    (hbound : numberFrom total cs < unitBound) (hplaces : scale + cs.length ≤ maxScale)
    (rest : List Char) :
    readFraction? total scale (cs ++ rest) =
      readFraction? (numberFrom total cs) (scale + cs.length) rest := by
  induction cs generalizing total scale with
  | nil => rfl
  | cons c cs ih =>
    have hc : digitValue? c = some (c.toNat - '0'.toNat) :=
      digitValue?_of_digit (hdigits c (by simp))
    rw [numberFrom_cons] at hbound ⊢
    rw [List.length_cons] at hplaces ⊢
    have hle := le_numberFrom (total * 10 + (c.toNat - '0'.toNat)) cs
    -- the number made of all digits is in range, so the one made of the first digit is
    have hnext : total * 10 + (c.toNat - '0'.toNat) < unitBound := Nat.lt_of_le_of_lt hle hbound
    have hroom : scale ≠ maxScale := by omega
    have hmore : scale + 1 + cs.length ≤ maxScale := by omega
    have hrest := ih (fun d hd => hdigits d (List.mem_cons_of_mem c hd)) hbound hmore
    have hlength : scale + 1 + cs.length = scale + (cs.length + 1) := by omega
    rw [hlength] at hrest
    simp only [List.cons_append, readFraction?, if_neg hroom, hc, Option.bind_eq_bind,
      Option.bind_some, if_pos hnext, hrest]

/-- A fraction that has room is read to its end, as so many places. -/
theorem readFraction?_eq (hdigits : ∀ c ∈ cs, isAsciiDigit c = true)
    (hbound : numberFrom total cs < unitBound) (hplaces : scale + cs.length ≤ maxScale) :
    readFraction? total scale cs = some (numberFrom total cs, scale + cs.length) := by
  have hread := readFraction?_append hdigits hbound hplaces []
  rwa [List.append_nil] at hread

variable {d : Decimal}

/-- The digits of a decimal are read as its units, without their sign, and its places. -/
theorem Spelled.readMantissa? (h : d.Spelled whole fraction) :
    readMantissa? whole fraction = some (d.units.natAbs, d.scale) := by
  have hwhole : ∀ c ∈ whole, isAsciiDigit c = true :=
    fun c hc => h.digits c (List.mem_append_left _ hc)
  have hfraction : ∀ c ∈ fraction, isAsciiDigit c = true :=
    fun c hc => h.digits c (List.mem_append_right _ hc)
  have hvalue : numberFrom (numberFrom 0 whole) fraction = d.units.natAbs := by
    rw [← numberFrom_append, h.value]
  have hbound : numberFrom (numberFrom 0 whole) fraction < unitBound := by
    rw [hvalue]
    exact d.units_lt
  have hplaces : 0 + fraction.length ≤ maxScale := by
    rw [h.places, Nat.zero_add]
    exact d.scale_le
  have hreadWhole : readWhole? whole = some (numberFrom 0 whole) :=
    readWhole?_eq hwhole (Nat.lt_of_le_of_lt (le_numberFrom _ fraction) hbound)
  have hreadFraction := readFraction?_eq hfraction hbound hplaces
  rw [hvalue, h.places, Nat.zero_add] at hreadFraction
  rw [Decimal.readMantissa?, if_pos (List.all_eq_true.mpr hfraction), hreadWhole]
  exact hreadFraction

theorem isDigit_of_isAsciiDigit (h : isAsciiDigit c = true) : isDigit c = true := by
  obtain ⟨n, hn, rfl⟩ := exists_digitChar h
  exact (by decide : ∀ n < 10, isDigit (digitChar n) = true) n hn

theorem head?_pointed (fraction : List Char) : (pointed fraction).head?.any isDigit = false := by
  cases fraction with
  | nil => rfl
  | cons c cs => exact (by decide : isDigit '.' = false)

/-- The characters of a numeral without its sign begin with a digit. -/
theorem Spelled.exists_cons (h : d.Spelled whole fraction) :
    ∃ c cs, whole = c :: cs ∧ isAsciiDigit c = true := by
  obtain ⟨c, cs, hcons⟩ := List.exists_cons_of_ne_nil h.whole_ne_nil
  exact ⟨c, cs, hcons, h.digits c (by rw [hcons]; simp)⟩

/-- A digit is no sign. -/
theorem takeSign_digit (h : isAsciiDigit c = true) (cs : List Char) :
    Numeral.takeSign (c :: cs) = (false, c :: cs) := by
  unfold Numeral.takeSign
  split
  · next heq => cases heq; cases h
  · next heq => cases heq; cases h
  · rfl

/-- The digits are taken apart at the point as they were put together. Without a fraction there is
no point to be found; with one, the point ends the whole part and the end of the text ends the
fraction. -/
theorem Spelled.takeMantissa? (h : d.Spelled whole fraction) :
    Numeral.takeMantissa? (whole ++ pointed fraction) = some (whole, fraction, []) := by
  have hwhole : ∀ c ∈ whole, isDigit c = true :=
    fun c hc => isDigit_of_isAsciiDigit (h.digits c (List.mem_append_left _ hc))
  have htake := takeWhile_append_of_head? hwhole (head?_pointed fraction)
  have hdrop := dropWhile_append_of_head? hwhole (head?_pointed fraction)
  cases hfraction : fraction with
  | nil =>
    rw [hfraction] at htake hdrop
    simp only [Numeral.takeMantissa?, htake, hdrop]
    show (if whole = [] then none else some (whole, [], [])) = some (whole, [], [])
    rw [if_neg h.whole_ne_nil]
  | cons c cs =>
    rw [hfraction] at htake hdrop
    have hdigits : ∀ d ∈ c :: cs, isDigit d = true := fun d hd =>
      isDigit_of_isAsciiDigit (h.digits d (List.mem_append_right _ (by rw [hfraction]; exact hd)))
    have hend : ([] : List Char).head?.any isDigit = false := rfl
    have htakeFraction := takeWhile_append_of_head? hdigits hend
    have hdropFraction := dropWhile_append_of_head? hdigits hend
    rw [List.append_nil] at htakeFraction hdropFraction
    simp only [Numeral.takeMantissa?, htake, hdrop]
    show (if whole = [] ∧ (c :: cs).takeWhile isDigit = [] then none
      else some (whole, (c :: cs).takeWhile isDigit, (c :: cs).dropWhile isDigit)) = _
    rw [htakeFraction, hdropFraction, if_neg (fun hnil => h.whole_ne_nil hnil.1)]

/-- The whole numeral is recognized: its sign, its digits on both sides, and no exponent. -/
theorem Spelled.ofChars? (h : d.Spelled whole fraction) :
    Numeral.ofChars? d.toChars = some ⟨decide (d.units < 0), whole, fraction, none⟩ := by
  have hsign : Numeral.takeSign d.toChars = (decide (d.units < 0), whole ++ pointed fraction) := by
    rw [h.toChars]
    by_cases hneg : d.units < 0
    · rw [if_pos hneg, decide_eq_true hneg]
      rfl
    · obtain ⟨c, cs, rfl, hc⟩ := h.exists_cons
      rw [if_neg hneg, decide_eq_false hneg]
      exact takeSign_digit hc _
  simp only [Numeral.ofChars?, hsign, h.takeMantissa?, Option.bind_eq_bind, Option.bind_some]
  rfl

theorem isSpace_of_digit (h : isAsciiDigit c = true) : isSpace c = false := by
  obtain ⟨n, hn, rfl⟩ := exists_digitChar h
  exact (by decide : ∀ n < 10, isSpace (digitChar n) = false) n hn

/-- The characters of a decimal's numeral. -/
theorem mem_toChars (hc : c ∈ d.toChars) : isAsciiDigit c = true ∨ c = '-' ∨ c = '.' := by
  obtain ⟨whole, fraction, h⟩ := d.exists_spelled
  have hpointed : c ∈ pointed fraction → c = '.' ∨ c ∈ fraction := by
    cases fraction <;> simp [pointed]
  rw [h.toChars] at hc
  rcases List.mem_append.mp hc with hsign | hrest
  · split at hsign
    · exact .inr (.inl (List.mem_singleton.mp hsign))
    · cases hsign
  · rcases List.mem_append.mp hrest with hwhole | hfraction
    · exact .inl (h.digits c (List.mem_append_left _ hwhole))
    · rcases hpointed hfraction with hpoint | hdigit
      · exact .inr (.inr hpoint)
      · exact .inl (h.digits c (List.mem_append_right _ hdigit))

/-- No character of a numeral is white space. -/
theorem isSpace_of_mem_toChars (hc : c ∈ d.toChars) : isSpace c = false := by
  rcases mem_toChars hc with hdigit | rfl | rfl
  · exact isSpace_of_digit hdigit
  · decide
  · decide

/-- Nothing is dropped from characters that do not have the property. -/
theorem dropWhile_eq_self {p : Char → Bool} (h : ∀ c ∈ cs, p c = false) : cs.dropWhile p = cs := by
  cases cs with
  | nil => rfl
  | cons c cs =>
    have hc : p c = false := h c List.mem_cons_self
    rw [List.dropWhile_cons_of_neg (by rw [hc]; exact Bool.false_ne_true)]

theorem trim_eq_self (h : ∀ c ∈ cs, isSpace c = false) : trim cs = cs := by
  have hfront := dropWhile_eq_self h
  have hback := dropWhile_eq_self fun c (hc : c ∈ cs.reverse) => h c (List.mem_reverse.mp hc)
  rw [trim, hfront, trimEnd, hback, List.reverse_reverse]

theorem trim_toChars (d : Decimal) : trim d.toChars = d.toChars :=
  trim_eq_self fun _ => isSpace_of_mem_toChars

/-- What is written is read back, places included. -/
theorem ofText?_toText (d : Decimal) : ofText? d.toText = some d := by
  obtain ⟨whole, fraction, h⟩ := d.exists_spelled
  -- the sign is read from the text and put back on the units
  have hunits : (if decide (d.units < 0) then -(d.units.natAbs : Int) else d.units.natAbs)
      = d.units := by
    by_cases hneg : d.units < 0
    · rw [decide_eq_true hneg, if_pos rfl]
      omega
    · rw [decide_eq_false hneg, if_neg Bool.false_ne_true]
      omega
  have hself : ofUnits? d.units d.scale = some d := ofUnits?_eq_some_iff.mpr ⟨rfl, rfl⟩
  simp only [ofText?, toText, String.toList_ofList, trim_toChars, h.ofChars?, ofNumeral?,
    h.readMantissa?, Option.bind_eq_bind, Option.bind_some, hunits, hself]

/-- Different decimals have different numerals, since both are read back. -/
theorem toText_injective {a b : Decimal} (h : a.toText = b.toText) : a = b := by
  have hread : some a = some b := by rw [← ofText?_toText a, ← ofText?_toText b, h]
  exact Option.some.inj hread

/-! ## Positional notation

A numeral is in positional notation if a zero in front stands alone and a point has digits behind
it. The first is known of the spelling of a decimal; for the second, a point is only written if
there are places. -/

/-- A point with digits behind it, or nothing, is a fraction in this notation. -/
theorem isPlainFraction_pointed (hdigits : ∀ c ∈ fraction, isDigit c = true) :
    isPlainFraction (pointed fraction) = true := by
  cases fraction with
  | nil => rfl
  | cons c cs =>
    have hall : (c :: cs).all isDigit = true := List.all_eq_true.mpr hdigits
    show (decide (c :: cs ≠ []) && (c :: cs).all isDigit) = true
    rw [hall, decide_eq_true (List.cons_ne_nil c cs)]
    rfl

/-- A digit that is not zero is one of the others. -/
theorem digit_range {c : Char} (h : isAsciiDigit c = true) (hzero : c ≠ '0') :
    ('1' ≤ c && c ≤ '9') = true := by
  obtain ⟨n, hn, rfl⟩ := exists_digitChar h
  exact (by decide : ∀ n < 10, digitChar n ≠ '0' →
    ('1' ≤ digitChar n && digitChar n ≤ '9') = true) n hn hzero

/-- The digits of a decimal with their point are in positional notation. This is checked before they
are read, and it refuses a zero in front of other digits, which `whole_eq` excludes. -/
theorem Spelled.isPlainUnsigned (h : d.Spelled whole fraction) :
    isPlainUnsigned (whole ++ pointed fraction) = true := by
  have hdigits : ∀ c ∈ whole ++ fraction, isDigit c = true :=
    fun c hc => isDigit_of_isAsciiDigit (h.digits c hc)
  have hplain : isPlainFraction (pointed fraction) = true :=
    isPlainFraction_pointed fun c hc => hdigits c (List.mem_append_right _ hc)
  obtain ⟨c, cs, rfl, hc⟩ := h.exists_cons
  by_cases hzero : c = '0'
  · -- a zero at the front stands alone
    have halone : c :: cs = ['0'] := h.whole_eq (by rw [hzero]; rfl)
    rw [halone]
    exact hplain
  · -- any other digit is followed by digits only, up to the point
    have hrest : (cs ++ pointed fraction).dropWhile isDigit = pointed fraction :=
      dropWhile_append_of_head?
        (fun d hd => hdigits d (List.mem_append_left _ (List.mem_cons_of_mem c hd)))
        (head?_pointed fraction)
    show Stencil.isPlainUnsigned (c :: (cs ++ pointed fraction)) = true
    unfold Stencil.isPlainUnsigned
    split
    · next heq => cases heq; exact absurd rfl hzero
    · next heq =>
      cases heq
      rw [hrest, digit_range hc hzero, hplain]
      rfl
    · next heq => cases heq

/-- So is the numeral with its sign. -/
theorem isPlainNumeral_toText (d : Decimal) : isPlainNumeral d.toText = true := by
  obtain ⟨whole, fraction, h⟩ := d.exists_spelled
  unfold isPlainNumeral toText
  rw [String.toList_ofList, h.toChars]
  by_cases hneg : d.units < 0
  · rw [if_pos hneg]
    exact h.isPlainUnsigned
  · rw [if_neg hneg]
    have hplain := h.isPlainUnsigned
    obtain ⟨c, cs, rfl, hc⟩ := h.exists_cons
    split
    · next heq => cases heq; cases hc
    · exact hplain

end Stencil.Decimal
