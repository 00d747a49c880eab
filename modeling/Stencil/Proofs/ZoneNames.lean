import Mathlib.Data.List.Infix
import Stencil.Proofs.Numerals
import Stencil.Time.Format

/-!
# Names of zones in patterns

Before a time is written, the name of its zone takes the place of every directive `%Z` of the
pattern. Whether a percent sign starts a directive depends on what stands in front of it, so a
pattern is read from its start, unit by unit.

* **`PatternUnits`** — the units of a pattern. Every text is one pattern in one way only
  (`chars_eq_iff`).
* **`substituteZoneName_unit`** — what becomes of one unit, whatever follows it;
  **`substituteZoneName_chars`** of a whole pattern. The name goes in as units of its own, so it
  never runs together with its neighbours.
* **`substituteZoneName_eq_self`** — a pattern without the directive stays as it is: so does the
  result, whatever other name is put into it.
* **`Offset.percent_not_mem_zoneName`** — the names of zones go in as they are.
-/

namespace Stencil

open Text

/-! ## Units of patterns

Two percent signs in a row are a directive of their own, so whether a third one begins another
depends on how many came before it. Taking units off the front settles that, and a text is cut into
them in one way only. -/

/-- A unit of a pattern. -/
inductive PatternUnit where
  /-- Any character but a percent sign. -/
  | plain (c : Char) (hc : c ≠ '%')
  /-- A percent sign together with the character behind it, which may be another one. -/
  | directive (letter : Char)
deriving DecidableEq

namespace PatternUnit

/-- The characters of a unit. -/
def chars : PatternUnit → List Char
  | plain c _ => [c]
  | directive letter => ['%', letter]

/-- The unit that writes the character. -/
def ofChar (c : Char) : PatternUnit := if hc : c = '%' then directive '%' else plain c hc

/-- What becomes of a unit where `%Z` is replaced by a name: a unit for each character of the name.
-/
def withZoneName (name : List Char) (unit : PatternUnit) : List PatternUnit :=
  if unit = directive 'Z' then name.map ofChar else [unit]

/-- A name, character by character, is the name with its percent signs doubled. -/
theorem flatMap_chars_ofChar (cs : List Char) :
    (cs.map ofChar).flatMap chars = escapePercent cs := by
  have hchars : ∀ c, (ofChar c).chars = if c = '%' then ['%', '%'] else [c] := by
    intro c
    unfold ofChar
    split <;> rfl
  simp only [escapePercent, List.flatMap_map, hchars]

/-- No name brings the directive in. A percent sign of the name is a unit of its own, doubled, and
no character behind it can make a directive of it. -/
theorem zoneName_not_mem_withZoneName (name : List Char) (unit : PatternUnit) :
    directive 'Z' ∉ unit.withZoneName name := by
  have hchar : ∀ c, ofChar c ≠ directive 'Z' := by
    intro c
    unfold ofChar
    split <;> simp
  unfold withZoneName
  split
  · simp [hchar]
  · next hunit => simpa using Ne.symm hunit

end PatternUnit

/-- A pattern as units. A percent sign with nothing behind it is left over. -/
structure PatternUnits where
  units : List PatternUnit
  leftOver : Bool
deriving DecidableEq

namespace PatternUnits

/-- The characters of a pattern. -/
def chars (pattern : PatternUnits) : List Char :=
  pattern.units.flatMap PatternUnit.chars ++ if pattern.leftOver then ['%'] else []

/-- A unit in front of a pattern. -/
def cons (unit : PatternUnit) (pattern : PatternUnits) : PatternUnits :=
  ⟨unit :: pattern.units, pattern.leftOver⟩

/-- The pattern that the characters are. -/
def ofChars : List Char → PatternUnits
  | [] => ⟨[], false⟩
  | c :: cs =>
    if hc : c = '%' then
      match cs with
      | [] => ⟨[], true⟩
      | letter :: cs => (ofChars cs).cons (.directive letter)
    else (ofChars cs).cons (.plain c hc)

/-- The pattern with a name in place of the directive `%Z`. -/
def withZoneName (name : List Char) (pattern : PatternUnits) : PatternUnits :=
  ⟨pattern.units.flatMap (PatternUnit.withZoneName name), pattern.leftOver⟩

variable {cs : List Char} {pattern : PatternUnits}

theorem chars_cons (unit : PatternUnit) (pattern : PatternUnits) :
    (pattern.cons unit).chars = unit.chars ++ pattern.chars := by
  rw [chars, cons, List.flatMap_cons, List.append_assoc]
  rfl

/-- A unit in front of a pattern, after the name has been put into both. -/
theorem chars_withZoneName_cons (name : List Char) (unit : PatternUnit) (pattern : PatternUnits) :
    ((pattern.cons unit).withZoneName name).chars =
      (unit.withZoneName name).flatMap PatternUnit.chars ++ (pattern.withZoneName name).chars := by
  rw [chars, withZoneName, cons, List.flatMap_cons, List.flatMap_append, List.append_assoc]
  rfl

/-- Induction on the units of a pattern. -/
@[elab_as_elim]
theorem onUnits {motive : PatternUnits → Prop} (finished : motive ⟨[], false⟩)
    (leftOver : motive ⟨[], true⟩)
    (cons : ∀ unit pattern, motive pattern → motive (pattern.cons unit)) (pattern : PatternUnits) :
    motive pattern := by
  obtain ⟨units, percent⟩ := pattern
  induction units with
  | nil =>
    cases percent with
    | false => exact finished
    | true => exact leftOver
  | cons unit units ih => exact cons unit ⟨units, percent⟩ ih

/-- A text is the characters of its units. Induction along the cut. -/
theorem chars_ofChars (cs : List Char) : (ofChars cs).chars = cs := by
  fun_induction ofChars cs with
  | case1 => rfl
  | case2 => rfl
  | case3 letter cs ih =>
    rw [chars_cons, ih]
    rfl
  | case4 c cs hc ih =>
    rw [chars_cons, ih]
    rfl

/-- A unit at the front is cut off first, whatever follows it. -/
theorem ofChars_chars_append (unit : PatternUnit) (cs : List Char) :
    ofChars (unit.chars ++ cs) = (ofChars cs).cons unit := by
  cases unit with
  | plain c hc =>
    show ofChars (c :: cs) = _
    rw [ofChars.eq_def]
    exact dif_neg hc
  | directive letter => rfl

/-- A pattern is cut into its own units. Induction on them. -/
theorem ofChars_chars (pattern : PatternUnits) : ofChars pattern.chars = pattern := by
  induction pattern using onUnits with
  | finished => rfl
  | leftOver => rfl
  | cons unit pattern ih => rw [chars_cons, ofChars_chars_append, ih]

/-- Every text is one pattern in one way only. The two lemmas before say that cutting and joining
undo each other. -/
theorem chars_eq_iff : pattern.chars = cs ↔ pattern = ofChars cs := by
  constructor
  · rintro rfl
    exact (ofChars_chars pattern).symm
  · rintro rfl
    exact chars_ofChars cs

/-- Where the directive is, its two characters stand next to each other. -/
theorem infix_of_mem (h : .directive 'Z' ∈ pattern.units) : ['%', 'Z'] <:+: pattern.chars := by
  obtain ⟨before, after, hunits⟩ := List.append_of_mem h
  refine ⟨before.flatMap PatternUnit.chars, after.flatMap PatternUnit.chars ++
    if pattern.leftOver then ['%'] else [], ?_⟩
  simp [chars, hunits, PatternUnit.chars]

end PatternUnits

/-! ## Substitution

The replacement walks over characters and looks two of them ahead. In terms of units it replaces one
kind and copies all others, and nothing it writes can be taken for part of something else. -/

/-- Without percent signs there is nothing to double. -/
theorem escapePercent_eq_self {cs : List Char} (h : '%' ∉ cs) : escapePercent cs = cs := by
  have hsingle : ∀ c ∈ cs, (if c = '%' then ['%', '%'] else [c]) = [c] := by
    intro c hc
    refine if_neg ?_
    rintro rfl
    exact h hc
  rw [escapePercent, List.flatMap_congr hsingle, List.flatMap_singleton']

/-- What becomes of one unit, whatever follows it. A plain character and any directive but `%Z` are
copied, and the latter with its letter, so that the letter is not looked at again. -/
theorem substituteZoneName_unit (name : List Char) (unit : PatternUnit) (cs : List Char) :
    substituteZoneName name (unit.chars ++ cs) =
      (unit.withZoneName name).flatMap PatternUnit.chars ++ substituteZoneName name cs := by
  cases unit with
  | plain c hc =>
    show substituteZoneName name (c :: cs) = c :: substituteZoneName name cs
    rw [substituteZoneName]
    · exact fun _ heq _ => hc heq
    · exact fun _ _ heq _ => hc heq
  | directive letter =>
    by_cases hletter : letter = 'Z'
    · rw [PatternUnit.withZoneName, hletter, if_pos rfl, PatternUnit.flatMap_chars_ofChar]
      rfl
    · have hunit : PatternUnit.directive letter ≠ .directive 'Z' := by simpa using hletter
      rw [PatternUnit.withZoneName, if_neg hunit]
      show substituteZoneName name ('%' :: letter :: cs) = '%' :: letter :: substituteZoneName name cs
      rw [substituteZoneName]
      exact hletter

/-- What becomes of a pattern. Induction on its units. -/
theorem substituteZoneName_chars (name : List Char) (pattern : PatternUnits) :
    substituteZoneName name pattern.chars = (pattern.withZoneName name).chars := by
  induction pattern using PatternUnits.onUnits with
  | finished => rfl
  | leftOver => rfl
  | cons unit pattern ih =>
    rw [PatternUnits.chars_cons, substituteZoneName_unit, ih, PatternUnits.chars_withZoneName_cons]

/-- So the units of the result are those of the pattern with the name in place of the directive. -/
theorem ofChars_substituteZoneName (name cs : List Char) :
    PatternUnits.ofChars (substituteZoneName name cs) =
      (PatternUnits.ofChars cs).withZoneName name := by
  have hchars := substituteZoneName_chars name (.ofChars cs)
  rw [PatternUnits.chars_ofChars] at hchars
  rw [hchars, PatternUnits.ofChars_chars]

/-- No directive is left. -/
theorem zoneName_not_mem_substituteZoneName (name cs : List Char) :
    .directive 'Z' ∉ (PatternUnits.ofChars (substituteZoneName name cs)).units := by
  rw [ofChars_substituteZoneName]
  intro hmem
  obtain ⟨unit, -, hmem⟩ := List.mem_flatMap.mp hmem
  exact PatternUnit.zoneName_not_mem_withZoneName name unit hmem

/-- Without the directive a pattern stays as it is, whatever the name: each of its units is copied.
-/
theorem substituteZoneName_eq_self {cs : List Char}
    (h : .directive 'Z' ∉ (PatternUnits.ofChars cs).units)
    (name : List Char) : substituteZoneName name cs = cs := by
  -- replacing nothing leaves the same units
  have hunits : (PatternUnits.ofChars cs).withZoneName name = PatternUnits.ofChars cs := by
    have hself : ∀ unit ∈ (PatternUnits.ofChars cs).units, unit.withZoneName name = [unit] := by
      intro unit hunit
      refine if_neg ?_
      rintro rfl
      exact h hunit
    rw [PatternUnits.withZoneName, List.flatMap_congr hself, List.flatMap_singleton']
  rw [← PatternUnits.chars_ofChars (substituteZoneName name cs), ofChars_substituteZoneName, hunits,
    PatternUnits.chars_ofChars]

/-! ## Names of zones

A zone has an abbreviation at some distances of whole hours, and is named by its distance in digits
otherwise. Neither has a percent sign in it, so names go in as they are. -/

namespace Offset

/-- The abbreviation names the zone at a distance of whole hours. Other distances between two hours
have none, even if they begin with the same hour. -/
theorem zoneName_of_abbreviation {offset : Offset} {hours : Int} {name : String}
    (hhours : offset.seconds = 3600 * hours) (hname : abbreviation? hours = some name) :
    offset.zoneName = name.toList := by
  have hwhole : offset.seconds % 3600 = 0 := by omega
  have hdiv : offset.seconds / 3600 = hours := by omega
  rw [zoneName, if_pos hwhole, hdiv, hname]

/-- Where no abbreviation is known the distance itself is the name. -/
theorem zoneName_of_no_abbreviation {offset : Offset}
    (h : ∀ hours, offset.seconds = 3600 * hours → abbreviation? hours = none) :
    offset.zoneName = offset.display := by
  unfold zoneName
  -- an abbreviation would be one for some distance of whole hours
  split
  · next name hname =>
    split at hname
    · next hwhole =>
      rw [h (offset.seconds / 3600) (by omega)] at hname
      cases hname
    · cases hname
  · rfl

theorem percent_not_mem_two (n : Nat) : '%' ∉ two n := by
  intro hmem
  cases isAsciiDigit_of_mem_paddedDigits '%' hmem

/-- A sign, digits and colons are no percent sign. -/
theorem percent_not_mem_display (offset : Offset) : '%' ∉ offset.display := by
  have hsign : '%' ≠ offset.sign := by
    unfold sign
    split <;> decide
  unfold display
  dsimp only
  split <;> simp [percent_not_mem_two, hsign]

/-- The names of zones hold no percent sign. -/
theorem percent_not_mem_zoneName (offset : Offset) : '%' ∉ offset.zoneName := by
  unfold zoneName
  split
  · next name hname =>
    split at hname
    · unfold abbreviation? at hname
      split at hname <;> cases hname <;> decide
    · cases hname
  · exact offset.percent_not_mem_display

end Offset

/-- **The name of the zone takes the place of the directive `%Z`, and nothing else changes.** A
pattern has its units in one way only, and those of the result are the same ones in the same order,
with the characters of the name for each `%Z`: the abbreviation for a distance of whole hours that
has one, and otherwise the numeric text. No directive `%Z` is left in the result, so another name
changes nothing more. Where the two characters are nowhere next to each other in the pattern, there
is nothing to replace. -/
theorem substituteZoneName_only (offset : Offset) (format : List Char) :
    let pattern := PatternUnits.ofChars format
    let result := substituteZoneName offset.zoneName format
    (∀ other : PatternUnits, other.chars = format ↔ other = pattern) ∧
    PatternUnits.ofChars result = pattern.withZoneName offset.zoneName ∧
    (offset.zoneName.map PatternUnit.ofChar).flatMap PatternUnit.chars = offset.zoneName ∧
    (∀ hours name, offset.seconds = 3600 * hours → Offset.abbreviation? hours = some name →
      offset.zoneName = name.toList) ∧
    ((∀ hours, offset.seconds = 3600 * hours → Offset.abbreviation? hours = none) →
      offset.zoneName = offset.display) ∧
    .directive 'Z' ∉ (PatternUnits.ofChars result).units ∧
    (∀ other : Offset, substituteZoneName other.zoneName result = result) ∧
    (¬ ['%', 'Z'] <:+: format → result = format) := by
  intro pattern result
  have hleft : .directive 'Z' ∉ (PatternUnits.ofChars result).units :=
    zoneName_not_mem_substituteZoneName offset.zoneName format
  refine ⟨fun other => PatternUnits.chars_eq_iff,
    ofChars_substituteZoneName offset.zoneName format, ?asItIs,
    fun hours name => Offset.zoneName_of_abbreviation, Offset.zoneName_of_no_abbreviation, hleft,
    ?again, ?nowhere⟩
  case asItIs =>
    rw [PatternUnit.flatMap_chars_ofChar]
    exact escapePercent_eq_self offset.percent_not_mem_zoneName
  case again =>
    intro other
    exact substituteZoneName_eq_self hleft other.zoneName
  case nowhere =>
    intro hnowhere
    refine substituteZoneName_eq_self (fun hmem => hnowhere ?_) offset.zoneName
    -- a directive is written with both characters next to each other
    have hinfix := PatternUnits.infix_of_mem hmem
    rwa [PatternUnits.chars_ofChars] at hinfix

/-- Five hours behind, a percent sign that is escaped in front of a `Z`, one that is escaped in
front of a directive, and one at the end; and fifteen hours ahead, where no zone has an
abbreviation. -/
theorem substituteZoneName_only_escaped :
    let offset : Offset := ⟨-18000, by decide⟩
    let farOffset : Offset := ⟨54000, by decide⟩
    let format := "%%Z %%%Z%".toList
    offset.zoneName = "EST".toList ∧
      substituteZoneName offset.zoneName format = "%%Z %%EST%".toList ∧
      (∀ other : Offset, substituteZoneName other.zoneName "%%Z %%EST%".toList = "%%Z %%EST%".toList) ∧
      substituteZoneName offset.zoneName "%H:%M".toList = "%H:%M".toList ∧
      farOffset.zoneName = "+15:00".toList := by
  intro offset farOffset format
  obtain ⟨-, -, -, hname, -, -, hagain, -⟩ := substituteZoneName_only offset format
  obtain ⟨-, -, -, -, -, -, -, hnowhere⟩ := substituteZoneName_only offset "%H:%M".toList
  obtain ⟨-, -, -, -, hnumeric, -⟩ := substituteZoneName_only farOffset format
  have hresult : substituteZoneName offset.zoneName format = "%%Z %%EST%".toList := by decide +kernel
  have hnone : ∀ hours : Int, farOffset.seconds = 3600 * hours → Offset.abbreviation? hours = none := by
    intro hours hhours
    obtain rfl : hours = 15 := by
      have hseconds : farOffset.seconds = 54000 := rfl
      omega
    rfl
  have hdisplay : farOffset.display = "+15:00".toList := by decide +kernel
  refine ⟨hname (-5) "EST" rfl rfl, hresult, ?_, hnowhere (by decide), (hnumeric hnone).trans hdisplay⟩
  rw [← hresult]
  exact hagain

end Stencil
