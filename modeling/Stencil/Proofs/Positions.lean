import Stencil.Proofs.Access
import Stencil.Proofs.Nearest
import Stencil.Proofs.Numerals

/-!
# Numbers in brackets

A number in brackets names an element of an array by its position, or a member of an object by its
numeral. On the way to it the number loses its fraction, is written as a numeral, and this numeral
is followed as a path, which reads it as a number again.

* **`position?_toString`** — of this way there and back only the size of a position is left.
* **`Json.resolve_toString`** — as a path a numeral is a single key.
* **`AccessAt`** — what an access with a number comes to; **`AccessAt.of_place?`** is how to show
  it.
* **`index_position`** — which element or member an access with a number is the value of, at any
  depth and in a whole evaluation.
-/

namespace Stencil

open Text

/-! ## Positions as texts

The number is written in decimal to be looked up as a key, and the lookup in an array reads the key
as a number again. So the numeral of a position has to be known as a text: digits, never empty,
nothing in it to escape, and read back as long as 64 bits are enough. -/

/-- The library's digits of a number are those that the numerals of decimals are made of. Both take
the last digit off and go on with the rest, which is the induction. -/
theorem toDigits_eq_digits (n : Nat) : Nat.toDigits 10 n = digits n := by
  have hdigit : ∀ n < 10, Nat.digitChar n = digitChar n := by decide
  induction n using digits_induction with
  | one n hn => rw [Nat.toDigits_of_lt_base hn, digits_of_lt hn, hdigit n hn]
  | more n hn ih =>
    rw [Nat.toDigits_of_base_le (by decide) hn, ih, digits_of_le hn,
      hdigit _ (Nat.mod_lt n (by decide)), digitChar_mod]

theorem toList_toString (n : Nat) : (toString n).toList = digits n := by
  rw [Nat.toString_eq_repr, Nat.toList_repr, toDigits_eq_digits]

/-- A numeral has only digits, so it is no text with another character in it. This is how it is told
from the length sign. -/
theorem toString_ne {n : Nat} {text : String} (h : text.toList.any (!isAsciiDigit ·) = true) :
    toString n ≠ text := by
  rintro rfl
  obtain ⟨c, hc, hdigit⟩ := List.any_eq_true.mp h
  rw [toList_toString] at hc
  rw [isAsciiDigit_of_mem_digits c hc] at hdigit
  cases hdigit

/-- A numeral is not empty, so it is a path to something. -/
theorem toString_ne_empty (n : Nat) : toString n ≠ "" := by
  intro hempty
  have hdigits := toList_toString n
  rw [hempty] at hdigits
  exact digits_ne_nil n hdigits.symm

/-- **A position is read back from its text**, if it has at most 64 bits. A larger one is a numeral
like any other, but names no position. -/
theorem position?_toString (n : Nat) :
    position? (toString n) = if n < 18446744073709551616 then some n else none := by
  have hread : natOfDigits? (toString n).toList = some n := by
    rw [toList_toString, natOfDigits?_eq isAsciiDigit_of_mem_digits, numberFrom_digits]
  simp only [position?, if_neg (toString_ne_empty n), hread, Option.bind_eq_bind, Option.bind_some]

/-- Nothing in a numeral is escaped. -/
theorem escapeSegment_toString (n : Nat) : escapeSegment (toString n) = toString n := by
  have hplain : ∀ c ∈ digits n, escapedPathChar c = [c] := by
    intro c hc
    have hdigit := isAsciiDigit_of_mem_digits c hc
    refine if_neg ?_
    rintro (rfl | rfl) <;> cases hdigit
  rw [escapeSegment, toList_toString, List.flatMap_congr hplain, List.flatMap_singleton',
    ← toList_toString, String.ofList_toList]

namespace Json

/-- The numeral followed as a path is the numeral looked up as one key. -/
theorem resolve_toString (document : Json) (n : Nat) :
    document.resolve (toString n) = document.follow [toString n] := by
  have hkey := document.resolve_escapeSegment (toString n)
  rwa [escapeSegment_toString, if_neg (toString_ne_empty n)] at hkey

/-- The numeral of a position is no length sign, and names what stands at the position. -/
theorem follow_array (items : List Json) (n : Nat) :
    (Json.array items).follow [toString n] =
      if n < 18446744073709551616 then items[n]? else none := by
  have hlength : toString n ≠ "#" := toString_ne rfl
  rw [follow, if_neg hlength, position?_toString]
  split
  · simp only [Option.bind_eq_bind, Option.bind_some, follow_nil, Option.bind_fun_some]
  · rfl

/-- What stands at a position: an element of an array, or a member of an object. -/
def place? (document : Json) (position : Int) : Option Json :=
  if 0 ≤ position then document.follow [toString position.natAbs] else none

/-- In an array a position within it is an element. The size of the array keeps positions within 64
bits. -/
theorem place?_array_eq_some {items : List Json} (hsize : items.length ≤ 18446744073709551616)
    {count : Nat} {item : Json} (hitem : items[count]? = some item) :
    (Json.array items).place? count = some item := by
  have hlt : count < items.length := (List.getElem?_eq_some_iff.mp hitem).1
  rw [place?, if_pos (by omega), Int.natAbs_natCast, Json.follow_array, if_pos (by omega), hitem]

/-- Every other position, negative ones included, is nothing. -/
theorem place?_array_eq_none {items : List Json} {position : Int}
    (houtside : ¬ (0 ≤ position ∧ position < items.length)) :
    (Json.array items).place? position = none := by
  unfold place?
  split
  · rw [Json.follow_array, List.getElem?_eq_none (by omega), ite_self]
  · rfl

/-- In an object the numeral is a key, whatever its size. -/
theorem place?_object {members : List (String × Json)} {position : Int} (hpos : 0 ≤ position) :
    (Json.object members).place? position = Assoc.get? (toString position) members := by
  obtain ⟨n, rfl⟩ := Int.eq_ofNat_of_zero_le hpos
  rw [place?, if_pos hpos, Json.follow_object]
  rfl

end Json

/-! ## Elements

The number is known only up to its value, and what counts is its integer part. From here on the
numeral is gone: an access is the value of what stands at a place. -/

namespace Environment

variable {environment : Environment} {base index : Expr} {depth : Nat} {value : Value}
  {position : Decimal}

/-- An access with a number to a base with a value has a value as well, whatever the number. -/
theorem result_meaning_index
    (hbase : (environment.meaning base (depth + 1)).result = .ok value)
    (hindex : (environment.meaning index (depth + 1)).result = .ok (.decimal position)) :
    (environment.meaning (.index base index) depth).result =
      .ok (if position.trunc < 0 then .null
        else (environment.find? value.toJson (toString position.trunc.natAbs)).getD .null) := by
  have hdeeper : depth + 1 ≤ environment.settings.evaluation.maxRecursionDepth :=
    Evaluates.depth_le ⟨value, hbase⟩
  rw [meaning, within_of_le _ (by omega), Traced.result_bind_of_ok hbase,
    Traced.result_bind_of_ok hindex]
  dsimp only
  split <;> rfl

/-- Where paths are followed in the default way, the access is the value of what stands there, and
null if nothing does. -/
theorem result_meaning_index_place (hresolve : environment.resolve = Json.resolve)
    (hbase : (environment.meaning base (depth + 1)).result = .ok value)
    (hindex : (environment.meaning index (depth + 1)).result = .ok (.decimal position)) :
    (environment.meaning (.index base index) depth).result =
      .ok (((value.toJson.place? position.trunc).map Value.ofJson).getD .null) := by
  rw [result_meaning_index hbase hindex, find?, hresolve, Json.resolve_toString, Json.place?]
  rcases Int.lt_or_le position.trunc 0 with hneg | hpos
  · rw [if_pos hneg, if_neg (by omega)]
    rfl
  · rw [if_neg (by omega), if_pos hpos]

end Environment

/-- What an access comes to that reaches into its base at a place. In an array that is the element
there, in an object the member under the numeral of the place, and it is null where there is no such
element or member. A place is read with 64 bits, and no array in a memory has more elements than
that. -/
structure AccessAt (base : Except Stop Value) (place : Int) (access : Except Stop Value) : Prop where
  element : ∀ (items : List Json) (count : Nat) (item : Json), items.length ≤ 18446744073709551616 →
    base = .ok (.json (.array items)) → place = count → items[count]? = some item →
      access = .ok (Value.ofJson item)
  outside : ∀ items : List Json, items.length ≤ 18446744073709551616 →
    base = .ok (.json (.array items)) → ¬ (0 ≤ place ∧ place < items.length) → access = .ok .null
  member : ∀ (members : List (String × Json)) (member : Json),
    base = .ok (.json (.object members)) → 0 ≤ place →
      Assoc.get? (toString place) members = some member → access = .ok (Value.ofJson member)
  missing : ∀ members : List (String × Json), base = .ok (.json (.object members)) →
    ¬ (0 ≤ place ∧ ∃ member, Assoc.get? (toString place) members = some member) → access = .ok .null

/-- It is enough to know that the access is the value of what stands there, whatever the document.
The four fields are then what `Json.place?` finds in an array or an object; for other documents
nothing is claimed. -/
theorem AccessAt.of_place? {base access : Except Stop Value} {place : Int}
    (h : ∀ document, base = .ok (.json document) →
      access = .ok (((document.place? place).map Value.ofJson).getD .null)) :
    AccessAt base place access where
  element items count item hsize hbase hcount hitem := by
    rw [h _ hbase, hcount, Json.place?_array_eq_some hsize hitem]
    rfl
  outside items _ hbase houtside := by
    rw [h _ hbase, Json.place?_array_eq_none houtside]
    rfl
  member members member hbase hpos hmember := by
    rw [h _ hbase, Json.place?_object hpos, hmember]
    rfl
  missing members hbase hmissing := by
    rw [h _ hbase]
    rcases Int.lt_or_le place 0 with hneg | hpos
    · rw [Json.place?, if_neg (by omega)]
      rfl
    · rw [Json.place?_object hpos,
        Option.eq_none_iff_forall_ne_some.mpr fun member hmember => hmissing ⟨hpos, member, hmember⟩]
      rfl

namespace Environment

variable {environment : Environment} {base index : Expr} {position : Decimal}

/-- The access at a depth, from its parts one level deeper. -/
theorem accessAt_meaning (hresolve : environment.resolve = Json.resolve) {depth : Nat}
    (hindex : (environment.meaning index (depth + 1)).result = .ok (.decimal position)) :
    AccessAt (environment.meaning base (depth + 1)).result (wholePart position.toRat)
      (environment.meaning (.index base index) depth).result := by
  apply AccessAt.of_place?
  intro document hbase
  rw [← Decimal.trunc_eq_wholePart]
  exact result_meaning_index_place hresolve hbase hindex

/-- The access as a whole, from evaluations of its parts by themselves. Within the access they are
one level deeper, and their values are the same there if the limit on nesting leaves room for this
level. -/
theorem accessAt_evaluate (hresolve : environment.resolve = Json.resolve)
    (hindex : (index.evaluate environment).result = .ok (.decimal position))
    (hbaseRoom : base.nesting < environment.settings.evaluation.maxRecursionDepth)
    (hindexRoom : index.nesting < environment.settings.evaluation.maxRecursionDepth) :
    AccessAt (base.evaluate environment).result (wholePart position.toRat)
      ((Expr.index base index).evaluate environment).result := by
  -- by themselves both parts are evaluated from depth zero
  rw [Expr.result_evaluate] at hindex
  rw [Expr.result_evaluate, Expr.result_evaluate]
  have hdeeper : (environment.meaning index (0 + 1)).result = .ok (.decimal position) :=
    result_meaning_of_room hindex (by omega)
  apply AccessAt.of_place?
  intro document hbase
  have hvalue : (environment.meaning base (0 + 1)).result = .ok (.json document) :=
    result_meaning_of_room hbase (by omega)
  rw [← Decimal.trunc_eq_wholePart]
  exact result_meaning_index_place hresolve hvalue hdeeper

end Environment

/-- **A number in brackets reaches what it counts to, and is never an error.** The number counts
without its fraction, so that anything above minus one is a position; what is behind the last
element, before the first one or not there under that key is null. The base and the number are one
level below the access, so this is said twice: at every depth, of the parts as they are evaluated
there, and of whole evaluations, where the limit on nesting needs room for that level. -/
theorem index_position (environment : Environment) (hresolve : environment.resolve = Json.resolve)
    (base index : Expr) (position : Decimal) :
    let limit := environment.settings.evaluation.maxRecursionDepth
    let place := wholePart position.toRat
    let whole := ((Expr.index base index).evaluate environment).result
    (∀ depth, (environment.run index (depth + 1) []).result = .ok (.decimal position) →
      let access := (environment.run (.index base index) depth []).result
      AccessAt (environment.run base (depth + 1) []).result place access ∧
        (depth = 0 → access = whole)) ∧
    ((index.evaluate environment).result = .ok (.decimal position) →
      base.nesting < limit → index.nesting < limit →
        AccessAt (base.evaluate environment).result place whole) := by
  intro limit place whole
  -- at every depth, and then for whole evaluations
  refine ⟨fun depth hindex => ?_, fun hindex => Environment.accessAt_evaluate hresolve hindex⟩
  rw [environment.run_eq_meaning] at hindex
  simp only [environment.run_eq_meaning]
  refine ⟨Environment.accessAt_meaning hresolve hindex, ?_⟩
  rintro rfl
  exact (Expr.result_evaluate _ environment).symm

/-- A number between minus one and zero is the position of the first element, and in an object a
fraction of zeros is no part of the key. -/
theorem index_position_fractions :
    let environment := ({} : Engine).environment (.object [("a", .array [.boolean true, .null]),
      ("i", .number "-0.9"), ("j", .number "7.00"), ("o", .object [("7", .boolean false)])]) {}
    ((Expr.index (.identifier "$a") (.identifier "$i")).evaluate environment).result =
        .ok (.boolean true) ∧
      ((Expr.index (.identifier "$a") (.identifier "$j")).evaluate environment).result = .ok .null ∧
      ((Expr.index (.identifier "$o") (.identifier "$j")).evaluate environment).result =
        .ok (.boolean false) := by
  intro environment
  have hdecimal : Decimal.ofText? "-0.9" = some ⟨-9, 1, by decide, by decide⟩ ∧
      Decimal.ofText? "7.00" = some ⟨700, 2, by decide, by decide⟩ := by
    decide +kernel
  have hi : ((Expr.identifier "$i").evaluate environment).result =
      .ok (.decimal ⟨-9, 1, by decide, by decide⟩) := by
    show Except.ok (Value.ofJson (.number "-0.9")) = _
    simp only [Value.ofJson, hdecimal]
  have hj : (environment.run (.identifier "$j") 1 []).result =
      .ok (.decimal ⟨700, 2, by decide, by decide⟩) := by
    show Except.ok (Value.ofJson (.number "7.00")) = _
    simp only [Value.ofJson, hdecimal]
  -- the first element by evaluations of the parts, the others one level down
  have hfirst := (index_position environment rfl (.identifier "$a") (.identifier "$i") _).2 hi
    (by decide) (by decide)
  have hbehind := (index_position environment rfl (.identifier "$a") (.identifier "$j") _).1 0 hj
  have hmember := (index_position environment rfl (.identifier "$o") (.identifier "$j") _).1 0 hj
  rw [← Decimal.trunc_eq_wholePart] at hfirst hbehind hmember
  rw [← hbehind.2 rfl, ← hmember.2 rfl]
  exact ⟨hfirst.element [.boolean true, .null] 0 _ (by decide) rfl (by decide) rfl,
    hbehind.1.outside [.boolean true, .null] (by decide) rfl (by decide),
    hmember.1.member [("7", .boolean false)] (.boolean false) rfl (by decide) rfl⟩

end Stencil
