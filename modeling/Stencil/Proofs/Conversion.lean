import Stencil.Proofs.Canonical
import Stencil.Proofs.Outcome

/-!
# Values and documents

The value of a part of a document becomes a document again whenever one of its own parts is looked
up, so the two conversions have to undo each other. Where they do more than wrap and unwrap, the
text of a decimal passes through the reader of JSON numbers:

* **`Reader.Takes`** — what a reader reads and what it leaves, one lemma for each part of a number.
* **`numberOfText_toText`** — the text of a decimal is a JSON number as it stands.
* **`toJson_decimal`** — so a decimal is always written as a number.
* **`ofJson_toJson`**, **`toJson_ofJson`** — the two directions, and **`conversions_inverse`** for
  both.
-/

namespace Stencil

open Text

namespace Json

/-! ## Reading the number of a text

The reader of numbers is put together from readers of a sign, of whole digits, of a fraction and of
an exponent, each of which stops at the first character that it cannot use. What a numeral is
spelled as is known part by part (`Decimal.Spelled`), so there is one lemma for each reader: what it
takes of such a text, and that it leaves the part behind. -/

variable {α : Type}

/-- The reader reads `value` at the front of the input and leaves `next`. -/
def Reader.Takes (reader : Reader α) (input : Input) (value : α) (next : Input) : Prop :=
  ∃ lt, reader input = .ok ⟨value, next, lt⟩

/-- An outcome with this value and this rest is what the reader takes. -/
theorem Reader.Takes.intro {reader : Reader α} {input next : Input} {value : α}
    {outcome : Outcome input α} (h : reader input = .ok outcome) (hvalue : outcome.value = value)
    (hnext : outcome.next = next) : reader.Takes input value next := by
  cases hvalue
  cases hnext
  exact ⟨outcome.lt, h⟩

variable {input : Input} {cs rest whole fraction : List Char} {d : Decimal}

/-- Digits are read up to the first other character. -/
theorem readDigits_takes {error : Input → ReadFault → ReadError} (hinput : input.rest = cs ++ rest)
    (hne : cs ≠ []) (hdigits : ∀ c ∈ cs, isAsciiDigit c = true)
    (hrest : rest.head?.any isAsciiDigit = false) :
    (readDigits error).Takes input cs ⟨rest, input.offset + byteLength cs⟩ := by
  obtain ⟨_, offset⟩ := input
  cases hinput
  obtain ⟨c, cs, rfl⟩ := List.exists_cons_of_ne_nil hne
  have hc : isAsciiDigit c = true := hdigits c List.mem_cons_self
  have htake := takeWhile_append_of_head? hdigits hrest
  have hdrop := dropWhile_append_of_head? hdigits hrest
  refine .intro (dif_pos hc) htake ?_
  show Input.mk (((c :: cs) ++ rest).dropWhile isAsciiDigit)
    (offset + byteLength (((c :: cs) ++ rest).takeWhile isAsciiDigit)) = _
  rw [htake, hdrop]

/-- **The digits in front of the point are read.** A zero may stand alone there, and no other digit
follows it; every other number starts with another digit, and its digits are read up to the point or
the end. -/
theorem readWholeDigits_takes (hspelled : d.Spelled whole fraction)
    (hinput : input.rest = whole ++ rest) (hrest : rest.head?.any isAsciiDigit = false) :
    readWholeDigits.Takes input whole ⟨rest, input.offset + byteLength whole⟩ := by
  have hdigits : ∀ c ∈ whole, isAsciiDigit c = true :=
    fun c hc => hspelled.digits c (List.mem_append_left _ hc)
  by_cases hzero : whole.head? = some '0'
  · -- the zero stands alone
    obtain ⟨_, offset⟩ := input
    have halone := hspelled.whole_eq hzero
    subst halone
    cases hinput
    have hmore : ¬ rest.head?.any isAsciiDigit = true := by
      rw [hrest]
      exact Bool.false_ne_true
    exact ⟨_, if_neg hmore⟩
  · have hread : readWholeDigits input = readDigits Input.pastNext input := by
      unfold readWholeDigits
      split
      · next rest' heq =>
        obtain ⟨c, cs, rfl, _⟩ := hspelled.exists_cons
        rw [hinput] at heq
        cases heq
        exact absurd rfl hzero
      · rfl
    obtain ⟨lt, hok⟩ : (readDigits Input.pastNext).Takes input whole
        ⟨rest, input.offset + byteLength whole⟩ :=
      readDigits_takes hinput hspelled.whole_ne_nil hdigits hrest
    exact ⟨lt, hread.trans hok⟩

/-- Behind the digits in front, a point and digits are read, or nothing. -/
theorem readFraction_takes (hdigits : ∀ c ∈ fraction, isAsciiDigit c = true) (offset : Nat) :
    ∃ result, readFraction ⟨Decimal.pointed fraction, offset⟩ = .ok result ∧
      result.1 = Decimal.pointed fraction ∧
      result.2.1 = ⟨[], offset + byteLength (Decimal.pointed fraction)⟩ := by
  cases fraction with
  | nil => exact ⟨_, rfl, rfl, rfl⟩
  | cons c cs =>
    have hpoint : (Input.drop ⟨'.' :: c :: cs, offset⟩ 1).rest = (c :: cs) ++ [] := by
      rw [List.append_nil]
      rfl
    obtain ⟨lt, hread⟩ : (readDigits Input.atNext).Takes _ _ _ :=
      readDigits_takes hpoint (List.cons_ne_nil c cs) hdigits rfl
    refine ⟨_, bind_eq_ok_iff.mpr ⟨_, hread, rfl⟩, rfl, ?_⟩
    simp [Input.drop, Decimal.pointed, Nat.add_assoc]

/-- A minus sign is taken if there is one. Without one the text starts with a digit, which is no
sign. -/
theorem takeSign_eq (hspelled : d.Spelled whole fraction) :
    ∃ le, takeSign ⟨d.toChars, 0⟩ =
      let sign := if d.units < 0 then ['-'] else []
      (sign, ⟨⟨whole ++ Decimal.pointed fraction, byteLength sign⟩, le⟩) := by
  have hchars := hspelled.toChars
  by_cases hneg : d.units < 0
  · rw [if_pos hneg] at hchars ⊢
    rw [hchars]
    exact ⟨_, rfl⟩
  · obtain ⟨c, cs, rfl, hc⟩ := hspelled.exists_cons
    rw [if_neg hneg] at hchars ⊢
    rw [hchars]
    refine ⟨Nat.le_refl _, ?_⟩
    unfold takeSign
    split
    · next heq => cases heq; cases hc
    · rfl

/-- **The text of a decimal is a number.** The parts one after the other, sign, whole digits and
fraction, take all of its characters; there is no exponent. The number is kept as it stands, and
only `Value.ofJson` makes a decimal of it. -/
theorem readNumber_takes (d : Decimal) :
    readNumber.Takes ⟨d.toChars, 0⟩ d.toText ⟨[], byteLength d.toChars⟩ := by
  obtain ⟨whole, fraction, h⟩ := d.exists_spelled
  have hend : (Decimal.pointed fraction).head?.any isAsciiDigit = false := by
    cases fraction <;> rfl
  have hdigits : ∀ c ∈ fraction, isAsciiDigit c = true :=
    fun c hc => h.digits c (List.mem_append_right _ hc)
  -- the readers in their order, each on what the one before leaves
  obtain ⟨le, hsign⟩ := takeSign_eq h
  have hstart : (Input.mk (whole ++ Decimal.pointed fraction)
      (byteLength (if d.units < 0 then ['-'] else []))).rest =
        whole ++ Decimal.pointed fraction := rfl
  obtain ⟨_, hwhole⟩ := readWholeDigits_takes h hstart hend
  obtain ⟨⟨_, afterFraction, _⟩, hfraction, hvalue, hnext⟩ := readFraction_takes hdigits _
  cases hvalue
  cases hnext
  have hchars : (if d.units < 0 then ['-'] else []) ++ whole ++ Decimal.pointed fraction =
      d.toChars := by rw [List.append_assoc, ← h.toChars]
  have hbytes : byteLength (if d.units < 0 then ['-'] else []) + byteLength whole +
      byteLength (Decimal.pointed fraction) = byteLength d.toChars := by
    rw [← hchars, byteLength_append, byteLength_append]
  -- the rest is to put the three parts of the text and their lengths together
  suffices ∃ outcome, readNumber ⟨d.toChars, 0⟩ = .ok outcome ∧ outcome.value = d.toText ∧
      outcome.next = ⟨[], byteLength d.toChars⟩ by
    obtain ⟨outcome, hread, hvalue, hnext⟩ := this
    exact .intro hread hvalue hnext
  unfold readNumber
  rw [hsign]
  refine ⟨_, bind_eq_ok_iff.mpr ⟨_, hwhole, bind_eq_ok_iff.mpr ⟨_, hfraction, rfl⟩⟩, ?_, ?_⟩
  · exact congrArg String.ofList hchars
  · exact congrArg (Input.mk []) hbytes

/-- A text that starts like a number and is read to its end is the text of a number. -/
theorem numberOfText_of_takes {text number : String}
    (hstart : text.toList.head?.all (fun c => c = '-' || isAsciiDigit c) = true)
    (hread : readNumber.Takes ⟨text.toList, 0⟩ number ⟨[], byteLength text.toList⟩) :
    numberOfText text = .ok number := by
  obtain ⟨_, hread⟩ := hread
  simp only [numberOfText, hstart, hread, if_true]
  rw [if_neg (Nat.lt_irrefl _)]

/-- The text of a decimal is a JSON number as it stands. -/
theorem numberOfText_toText (d : Decimal) : numberOfText d.toText = .ok d.toText := by
  have hchars : d.toText.toList = d.toChars := String.toList_ofList
  apply numberOfText_of_takes
  · obtain ⟨whole, fraction, h⟩ := d.exists_spelled
    obtain ⟨c, cs, rfl, hc⟩ := h.exists_cons
    rw [hchars, h.toChars]
    by_cases hneg : d.units < 0
    · rw [if_pos hneg]
      rfl
    · rw [if_neg hneg]
      simp [hc]
  · rw [hchars]
    exact readNumber_takes d

/-! ## Equal documents

Documents are compared part by part, and a value that holds one is compared in the same way; a value
that comes back literally is in particular the same. The recursion is that of documents, of their
items and of their members at once. -/

mutual

/-- A document is the same as itself. -/
theorem same_self : (document : Json) → document.same document = true
  | .null => rfl
  | .boolean _ | .number _ | .string _ => by simp [same]
  | .array items => by
    have hitems := sameItems_self items
    rwa [same]
  | .object members => by
    have hmembers := sameMembers_self members
    rwa [same]

/-- Item by item. -/
theorem sameItems_self : (items : List Json) → sameItems items items = true
  | [] => rfl
  | item :: items => by
    rw [sameItems, same_self item, sameItems_self items]
    rfl

/-- Member by member, with the same keys. -/
theorem sameMembers_self : (members : List (String × Json)) → sameMembers members members = true
  | [] => rfl
  | (key, document) :: members => by
    rw [sameMembers, same_self document, sameMembers_self members]
    simp

end

end Json

namespace Value

/-- A value is the same as itself. -/
theorem same_self (value : Value) : value.same value = true := by
  cases value with
  | decimal d => exact Decimal.sameValue_iff.mpr rfl
  | string _ => simp [same]
  | boolean _ => simp [same]
  | null => rfl
  | json document => exact document.same_self

/-- A decimal is written as a number, never as a string. -/
theorem toJson_decimal (d : Decimal) : (decimal d).toJson = .number d.canonicalText := by
  have hnumber : Json.numberOfText d.canonicalText = .ok d.canonicalText :=
    Json.numberOfText_toText d.stripZeros
  simp only [toJson, hnumber]

theorem ofJson_number_of_read {text : String} {d : Decimal} (h : Decimal.read text = .ok d) :
    ofJson (.number text) = .decimal d := by
  simp only [ofJson, Decimal.read_eq_ok.mp h]

/-- A number that cannot be read as a decimal stays a document. -/
theorem ofJson_number_of_not_read {text : String} (h : ∀ d, Decimal.read text ≠ .ok d) :
    ofJson (.number text) = .json (.number text) := by
  cases hread : Decimal.ofText? text with
  | none => simp only [ofJson, hread]
  | some d => exact absurd (Decimal.read_eq_ok.mpr hread) (h d)

/-- The value holds a document that is read as a value of another kind. -/
def Misplaced : Value → Prop
  | .json .null => True
  | .json (.boolean _) => True
  | .json (.string _) => True
  | .json (.number text) => ∃ d, Decimal.read text = .ok d
  | _ => False

/-- **A value comes back as itself**, a decimal without zeros at the end of its places. A document
is read again as what it is, but for one that stands for a value of another kind, which `Misplaced`
excludes. -/
theorem ofJson_toJson {value : Value} (h : ¬ value.Misplaced) :
    (∃ d, value = .decimal d ∧ ofJson value.toJson = .decimal d.stripZeros) ∨
      ofJson value.toJson = value := by
  cases value with
  | decimal d =>
    have hread : Decimal.read d.canonicalText = .ok d.stripZeros :=
      Decimal.read_eq_ok.mpr d.ofText?_canonicalText
    refine .inl ⟨d, rfl, ?_⟩
    rw [toJson_decimal, ofJson_number_of_read hread]
  | string _ => exact .inr rfl
  | boolean _ => exact .inr rfl
  | null => exact .inr rfl
  -- a document stays as it is, unless it is one that is read as a value of another kind
  | json document =>
    cases document with
    | null => exact absurd trivial h
    | boolean _ => exact absurd trivial h
    | string _ => exact absurd trivial h
    | number text => exact .inr (ofJson_number_of_not_read fun d hread => h ⟨d, hread⟩)
    | array _ => exact .inr rfl
    | object _ => exact .inr rfl

/-- A document comes back as itself if it holds no number that is read as a decimal. -/
theorem toJson_ofJson {document : Json}
    (h : ∀ text d, document = .number text → Decimal.read text ≠ .ok d) :
    (ofJson document).toJson = document := by
  cases document with
  | number text => rw [ofJson_number_of_not_read fun d => h text d rfl, toJson]
  | _ => rfl

/-- **Values and documents correspond.** A value that becomes a document and a value again is the
same value, unless it holds a document that is read as a value of another kind; and it is literally
itself, unless it is a decimal. A document that becomes a value and a document again is itself,
except that a number in range gets the canonical text of its decimal. A decimal never becomes a
string. -/
theorem conversions_inverse :
    (∀ value : Value, ¬ value.Misplaced → (ofJson value.toJson).same value = true ∧
      ((∀ d, value ≠ .decimal d) → ofJson value.toJson = value)) ∧
    (∀ document : Json, (∀ text d, document = .number text → Decimal.read text ≠ .ok d) →
      (ofJson document).toJson = document) ∧
    (∀ text d, Decimal.read text = .ok d →
      (ofJson (.number text)).toJson = .number d.canonicalText) ∧
    (∀ d text, (decimal d).toJson ≠ .string text) := by
  -- the second clause is the lemma above; the others are about decimals and their texts
  refine ⟨?_, fun document => toJson_ofJson, ?_, ?_⟩
  · intro value hplaced
    rcases ofJson_toJson hplaced with ⟨d, rfl, hback⟩ | hback
    · rw [hback]
      exact ⟨Decimal.stripZeros_sameValue d, fun hother => absurd rfl (hother d)⟩
    · rw [hback]
      exact ⟨same_self value, fun _ => rfl⟩
  · intro text d hread
    rw [ofJson_number_of_read hread, toJson_decimal]
  · intro d text hstring
    rw [toJson_decimal] at hstring
    cases hstring

end Value

end Stencil
