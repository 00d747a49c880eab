import Stencil.Template

/-!
# Grouping only adds commas

`AddsCommas plain grouped` holds if `grouped` is `plain` with commas put in. The digits of a numeral
are grouped so, whatever their script, and so is every text that depends on the grouping:

* **`groupThousands_addsCommas`** — for any text, numeral or not.
* **`Value.render_addsCommas`** — for the text of any value.
* **`AddsCommas.withoutCommas`** — texts that differ so are the same once no comma is left in them.
-/

namespace Stencil

/-- The second text is the first one with commas put in. -/
inductive AddsCommas : List Char → List Char → Prop where
  | nil : AddsCommas [] []
  | keep (c : Char) {plain grouped : List Char} (h : AddsCommas plain grouped) :
      AddsCommas (c :: plain) (c :: grouped)
  | comma {plain grouped : List Char} (h : AddsCommas plain grouped) :
      AddsCommas plain (',' :: grouped)

/-- The text without its commas. -/
def withoutCommas (text : String) : String := String.ofList (text.toList.filter (· ≠ ','))

namespace AddsCommas

variable {plain grouped plain' grouped' : List Char}

theorem refl (cs : List Char) : AddsCommas cs cs := by
  induction cs with
  | nil => exact .nil
  | cons c cs ih => exact .keep c ih

/-- Commas are put in part by part. -/
theorem append (h : AddsCommas plain grouped) (h' : AddsCommas plain' grouped') :
    AddsCommas (plain ++ plain') (grouped ++ grouped') := by
  induction h with
  | nil => exact h'
  | keep c _ ih => exact .keep c ih
  | comma _ ih => exact .comma ih

/-- Without commas nothing is left of the difference. Induction on how the commas were put in. -/
theorem filter_eq (h : AddsCommas plain grouped) :
    grouped.filter (· ≠ ',') = plain.filter (· ≠ ',') := by
  induction h with
  | nil => rfl
  | keep c _ ih => simp only [List.filter_cons, ih]
  | comma _ ih => exact ih

theorem withoutCommas {plain grouped : String} (h : AddsCommas plain.toList grouped.toList) :
    withoutCommas grouped = withoutCommas plain :=
  congrArg String.ofList h.filter_eq

end AddsCommas

/-- A text that has no commas is left as it is. -/
theorem withoutCommas_eq_self {text : String} (h : ',' ∉ text.toList) :
    withoutCommas text = text := by
  have hall : ∀ c ∈ text.toList, decide (c ≠ ',') = true := by
    intro c hc
    have hne : c ≠ ',' := fun heq => h (heq ▸ hc)
    exact decide_eq_true hne
  rw [withoutCommas, List.filter_eq_self.mpr hall, String.ofList_toList]

/-! ## Numerals

Where a comma is put in depends on counts of digits, and of bytes in one place. None of this matters
here: the digits are taken over one by one, and at each of them a comma may come first. -/

/-- The digits with commas at some of them. Induction on the digits; the position decides where a
comma comes. -/
theorem groupedFrom_addsCommas (lead position : Nat) (cs : List Char) :
    AddsCommas cs (groupedFrom lead position cs) := by
  induction cs generalizing position with
  | nil => exact .nil
  | cons c cs ih =>
    unfold groupedFrom
    split
    · exact .comma (.keep c (ih _))
    · exact .keep c (ih _)

/-- Only what is in front of the point gets commas. -/
theorem groupedUnsigned_addsCommas (cs : List Char) : AddsCommas cs (groupedUnsigned cs) := by
  have hdigits : AddsCommas (cs.takeWhile (· ≠ '.')) (groupedDigits (cs.takeWhile (· ≠ '.'))) :=
    groupedFrom_addsCommas _ 0 _
  have happend := hdigits.append (.refl (cs.dropWhile (· ≠ '.')))
  rwa [List.takeWhile_append_dropWhile] at happend

/-- A text whose thousands are grouped is the text with commas put in. -/
theorem groupThousands_addsCommas (text : String) :
    AddsCommas text.toList (groupThousands text).toList := by
  -- a text that is no numeral stays as it is, and a minus sign stays in front
  unfold groupThousands
  split
  · split
    · next cs heq =>
      rw [heq, String.toList_ofList]
      exact .keep '-' (groupedUnsigned_addsCommas cs)
    · rw [String.toList_ofList]
      exact groupedUnsigned_addsCommas _
  · exact .refl _

/-! ## Values

Of the values, numbers are grouped and so are texts that look like numbers. All others have the same
text with either setting. -/

/-- The settings with the grouping of thousands turned on or off. -/
def RenderConfig.grouping (config : RenderConfig) (grouping : Bool) : RenderConfig :=
  { config with thousandsSeparator := grouping }

/-- A value with its thousands grouped appears as the value without grouping, with commas put in. -/
theorem Value.render_addsCommas (value : Value) (config : RenderConfig) :
    AddsCommas (value.render (config.grouping false)).toList
      (value.render (config.grouping true)).toList := by
  cases value with
  | decimal d => exact groupThousands_addsCommas d.canonicalText
  | string text => exact groupThousands_addsCommas text
  | boolean _ => exact .refl _
  | null => exact .refl _
  | json _ => exact .refl _

end Stencil
