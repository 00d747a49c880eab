import Stencil.Proofs.Grouping
import Stencil.Proofs.Numerals

/-!
# Canonical texts of decimals

Decimals of the same value differ in the zeros at the end of their places only, so the form without
such zeros stands for the value, and so does its numeral.

* **`Stripped`** — that no zero is at the end of the places.
* **`sameValue_iff_stripZeros_eq`**, **`sameValue_iff_canonicalText_eq`** — same value, same form,
  same text.
* **`ofText?_canonicalText`** — the text is read as the form without zeros.
* **`canonicalText_spec`** — what the text of a decimal looks like and what it is good for.
-/

namespace Stencil.Decimal

open Text

/-! ## The form without zeros at the end

Zeros at the end are dropped one at a time, and each takes a factor of ten from the units and a
place from the scale. The value is compared by multiplying each side by the power of ten of the
other, so that no fractions are needed. That the form stands for the value comes down to one point:
of two decimals of one value, more places can only be more zeros. -/

/-- Dropping zeros keeps the value. Induction on the places: a zero that is dropped is a factor of
ten on both sides. -/
theorem dropZeros_value (units : Int) (scale : Nat) :
    (dropZeros units scale).1 * pow10 scale = units * pow10 (dropZeros units scale).2 := by
  induction scale generalizing units with
  | zero => rfl
  | succ scale ih =>
    unfold dropZeros
    split
    · next hzero =>
      have hunits : units / 10 * 10 = units := Int.ediv_mul_cancel (Int.dvd_of_emod_eq_zero hzero)
      calc (dropZeros (units / 10) scale).1 * (pow10 (scale + 1) : Int)
          = (dropZeros (units / 10) scale).1 * pow10 scale * 10 := by
            rw [pow10_succ, Int.natCast_mul, Int.mul_assoc]; rfl
        _ = units / 10 * pow10 (dropZeros (units / 10) scale).2 * 10 := by rw [ih]
        _ = units / 10 * 10 * pow10 (dropZeros (units / 10) scale).2 := Int.mul_right_comm ..
        _ = units * pow10 (dropZeros (units / 10) scale).2 := by rw [hunits]
    · rfl

/-- Whether the places of a decimal do not end with a zero. -/
def Stripped (d : Decimal) : Prop := d.scale = 0 ∨ d.units % 10 ≠ 0

/-- When no more zeros are dropped, no places are left or the last one is no zero. -/
theorem dropZeros_stripped (units : Int) (scale : Nat) :
    (dropZeros units scale).2 = 0 ∨ (dropZeros units scale).1 % 10 ≠ 0 := by
  induction scale generalizing units with
  | zero => exact .inl rfl
  | succ scale ih =>
    unfold dropZeros
    split
    · exact ih _
    · next h => exact .inr h

theorem stripped_stripZeros (d : Decimal) : d.stripZeros.Stripped := dropZeros_stripped _ _

/-- A power of ten can be cancelled on both sides. -/
theorem pow10_cast_ne_zero (k : Nat) : (pow10 k : Int) ≠ 0 :=
  Int.natCast_ne_zero.mpr (Nat.ne_of_gt (pow10_pos k))

/-- Two decimals have the same value if their units are equal after multiplying them out. -/
theorem sameValue_iff {a b : Decimal} :
    a.sameValue b ↔ a.units * pow10 b.scale = b.units * pow10 a.scale := by
  simp [sameValue]

/-- The order of the two decimals does not matter. -/
theorem sameValue_symm {a b : Decimal} (h : a.sameValue b) : b.sameValue a :=
  sameValue_iff.mpr (sameValue_iff.mp h).symm

/-- Two decimals with the value of a third one have the same value. The power of ten of the third
one cancels. -/
theorem sameValue_trans {a b c : Decimal} (hab : a.sameValue b) (hbc : b.sameValue c) :
    a.sameValue c := by
  rw [sameValue_iff] at hab hbc ⊢
  -- both sides times the power of ten of `b`
  apply Int.eq_of_mul_eq_mul_right (pow10_cast_ne_zero b.scale)
  calc a.units * pow10 c.scale * (pow10 b.scale : Int)
      = a.units * pow10 b.scale * pow10 c.scale := Int.mul_right_comm ..
    _ = b.units * pow10 a.scale * pow10 c.scale := by rw [hab]
    _ = b.units * pow10 c.scale * pow10 a.scale := Int.mul_right_comm ..
    _ = c.units * pow10 b.scale * pow10 a.scale := by rw [hbc]
    _ = c.units * pow10 a.scale * pow10 b.scale := Int.mul_right_comm ..

theorem stripZeros_sameValue (d : Decimal) : d.stripZeros.sameValue d :=
  sameValue_iff.mpr (dropZeros_value d.units d.scale)

/-- Of two decimals of the same value, the one with more places has zeros at the end of them. So a
stripped one has the fewest places of all, and two of them have the same. -/
theorem Stripped.scale_le {a b : Decimal} (hb : b.Stripped) (h : a.sameValue b) :
    b.scale ≤ a.scale := by
  rw [sameValue_iff] at h
  rcases Nat.lt_or_ge a.scale b.scale with hless | hge
  · obtain ⟨more, hmore⟩ := Nat.exists_eq_add_of_lt hless
    have hscale : b.scale = a.scale + (more + 1) := by omega
    -- a place more would make the units of `b` a multiple of ten
    have hunits : b.units = a.units * pow10 more * 10 := by
      apply Int.eq_of_mul_eq_mul_right (pow10_cast_ne_zero a.scale)
      calc b.units * (pow10 a.scale : Int) = a.units * pow10 (a.scale + (more + 1)) := by
            rw [← hscale, h]
        _ = a.units * pow10 more * 10 * pow10 a.scale := by
            rw [pow10_add, pow10_succ, Int.natCast_mul, Int.natCast_mul]
            ac_rfl
    rcases hb with hzero | hlast
    · omega
    · omega
  · exact hge

/-- Decimals of the same value without zeros at the end are one decimal: neither has more places
than the other. -/
theorem Stripped.eq {a b : Decimal} (ha : a.Stripped) (hb : b.Stripped) (h : a.sameValue b) :
    a = b := by
  have hscale : a.scale = b.scale :=
    Nat.le_antisymm (ha.scale_le (sameValue_symm h)) (hb.scale_le h)
  have hunits : a.units = b.units := by
    rw [sameValue_iff, hscale] at h
    exact Int.eq_of_mul_eq_mul_right (pow10_cast_ne_zero b.scale) h
  cases a; cases b
  cases hscale; cases hunits
  rfl

/-- Decimals of the same value have one form without zeros at the end. -/
theorem sameValue_iff_stripZeros_eq {a b : Decimal} :
    a.sameValue b ↔ a.stripZeros = b.stripZeros := by
  constructor
  · intro h
    have hstrip : a.stripZeros.sameValue b.stripZeros :=
      sameValue_trans (sameValue_trans (stripZeros_sameValue a) h)
        (sameValue_symm (stripZeros_sameValue b))
    exact (stripped_stripZeros a).eq (stripped_stripZeros b) hstrip
  · intro h
    exact sameValue_trans (sameValue_symm (stripZeros_sameValue a)) (h ▸ stripZeros_sameValue b)

/-! ## The canonical text

The canonical text is the numeral of the form without zeros, so what is known of numerals carries
over: that they are read back, that they are different for different decimals, and what characters
they have. -/

/-- The text is read as the form without zeros. -/
theorem ofText?_canonicalText (d : Decimal) : ofText? d.canonicalText = some d.stripZeros :=
  ofText?_toText d.stripZeros

/-- Decimals have the same value exactly if they have the same text. -/
theorem sameValue_iff_canonicalText_eq {a b : Decimal} :
    a.sameValue b ↔ a.canonicalText = b.canonicalText := by
  rw [sameValue_iff_stripZeros_eq]
  exact ⟨congrArg toText, toText_injective⟩

variable {d : Decimal}

/-- **A text with a point does not end with a zero.** There are places then, and the last digit of
the text is the last one of the units, which is no zero in a stripped decimal that has places. -/
theorem getLast?_toChars (hstripped : d.Stripped) (hpoint : '.' ∈ d.toChars) :
    d.toChars.getLast? ≠ some '0' := by
  obtain ⟨whole, fraction, h⟩ := d.exists_spelled
  have hno : '.' ∉ whole := by
    intro hmem
    have hdigit := h.digits '.' (List.mem_append_left _ hmem)
    cases hdigit
  have hne : fraction ≠ [] := by
    intro hnil
    rw [h.toChars, hnil, pointed, List.append_nil] at hpoint
    rcases List.mem_append.mp hpoint with hsign | hwhole
    · split at hsign <;> simp at hsign
    · exact hno hwhole
  -- so there are places, and the last digit is that of the units
  have hscale : d.scale ≠ 0 := by
    rw [← h.places]
    exact fun hlength => hne (List.eq_nil_of_length_eq_zero hlength)
  have hunits : d.units.natAbs % 10 ≠ 0 := by
    rcases hstripped with hzero | hlast
    · exact absurd hzero hscale
    · omega
  have hlast : d.toChars.getLast? = some (digitChar d.units.natAbs) := by
    obtain ⟨c, cs, rfl⟩ := List.exists_cons_of_ne_nil hne
    rw [h.toChars, pointed, ← List.append_assoc, List.getLast?_append, List.getLast?_cons_cons,
      h.last hne, Option.some_or]
  rw [hlast, ← digitChar_mod]
  have hdigits : ∀ n < 10, n ≠ 0 → some (digitChar n) ≠ some '0' := by decide
  exact hdigits _ (Nat.mod_lt _ (by decide)) hunits

/-- Zero is written without a sign. -/
theorem toText_ne_negativeZero (d : Decimal) : d.toText ≠ "-0" := by
  intro h
  -- the text is read back, and this one is read as zero
  have hread : some d = ofText? "-0" := by rw [← h, ofText?_toText]
  have hzero : ofText? "-0" = some zero := by decide
  rw [hzero] at hread
  cases hread
  revert h
  decide

/-- A numeral has digits, a sign and a point, and no commas. -/
theorem comma_not_mem_toText (d : Decimal) : ',' ∉ d.toText.toList := by
  intro hmem
  rw [toText, String.toList_ofList] at hmem
  rcases mem_toChars hmem with hdigit | hsign | hpoint
  · cases hdigit
  · cases hsign
  · cases hpoint

/-- **The canonical text of a decimal** is a numeral in positional notation without zeros at the end
of its places and without a sign at zero. It is read as a decimal of the same value, and decimals
have the same value exactly if they have the same text. Grouping its thousands only adds commas to
it, and the decimal and its text as a string appear in the same way, grouped or not. -/
theorem canonicalText_spec (d : Decimal) :
    isPlainNumeral d.canonicalText = true ∧
    ('.' ∈ d.canonicalText.toList → d.canonicalText.toList.getLast? ≠ some '0') ∧
    d.canonicalText ≠ "-0" ∧
    (∃ e, Decimal.read d.canonicalText = .ok e ∧ e.sameValue d) ∧
    (∀ e : Decimal, d.sameValue e ↔ d.canonicalText = e.canonicalText) ∧
    withoutCommas (d.display true) = d.canonicalText ∧
    ∀ config, (Value.decimal d).render config = (Value.string d.canonicalText).render config := by
  -- the first three clauses are about the numeral of the form without zeros, the next two about its
  -- value
  have hread : Decimal.read d.canonicalText = .ok d.stripZeros := by
    rw [Decimal.read, ofText?_canonicalText]
  have hlast := getLast?_toChars (stripped_stripZeros d)
  rw [← String.toList_ofList (l := d.stripZeros.toChars)] at hlast
  have hcommas : withoutCommas (d.display true) = d.canonicalText :=
    calc withoutCommas (groupThousands d.canonicalText)
      _ = withoutCommas d.canonicalText := (groupThousands_addsCommas d.canonicalText).withoutCommas
      _ = d.canonicalText := withoutCommas_eq_self (comma_not_mem_toText d.stripZeros)
  exact ⟨isPlainNumeral_toText d.stripZeros, hlast, toText_ne_negativeZero d.stripZeros,
    ⟨d.stripZeros, hread, stripZeros_sameValue d⟩, fun e => sameValue_iff_canonicalText_eq, hcommas,
    fun _ => rfl⟩

end Stencil.Decimal
