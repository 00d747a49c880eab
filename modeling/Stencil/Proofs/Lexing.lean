import Stencil.Proofs.Grammar

/-!
# Texts and their tokens

What a scanner takes off the front of a source can be written again, in front of other characters,
and is taken off again as the same token: as long as those characters do not go on with it.

* **`NumberText`** — what numbers look like; `spanNumber` takes just that off the front.
* **`Word`** — what identifiers and reserved words look like.
* **`Lexer.Front`** — the token at the front of some characters: what a step reads (`exists_front`),
  and what it reads again (`Front.step`).
* **`Token.Written`** — every token of a source is written as its kind asks. Induction on the
  tokens.
* **`Lexes`** — the characters are those tokens to the end, wherever they start. It is put together
  from the back: one token or blank in front of characters that are known already.
-/

namespace Stencil

open Text

/-! ## What stops a token

The scanner takes as many characters for a token as it can. A string or a mark ends by itself, while
a number or a word ends at the first character that does not go on with it. So every statement that
a text is read as one token has a condition on the characters behind the text, and this is the only
place where the classes of characters are looked at. -/

/-- What stands behind a number or a word does not go on with it: one of a few marks or a blank, and
no digit behind a point. -/
def Stops : List Char → Prop
  | [] => True
  | c :: cs => c ∈ [' ', '(', ')', '[', ']', ',', '.'] ∧ (c = '.' → cs.head?.any isAsciiDigit = false)

namespace Stops

variable {cs : List Char}

theorem cons {c : Char} (h : c ∈ [' ', '(', ')', '[', ']', ',']) (cs : List Char) :
    Stops (c :: cs) := by
  refine ⟨List.mem_append_left ['.'] h, ?_⟩
  rintro rfl
  exact absurd h (by decide)

/-- A point stops a token if no digit follows. With a digit behind it a number would go on. -/
theorem dot (h : cs.head?.any isAsciiDigit = false) : Stops ('.' :: cs) :=
  ⟨by decide, fun _ => h⟩

/-- A property that none of the stopping characters has is not that of the first one. -/
theorem head?_any {p : Char → Bool} (h : Stops cs)
    (hp : [' ', '(', ')', '[', ']', ',', '.'].any p = false) : cs.head?.any p = false := by
  cases cs with
  | nil => rfl
  | cons c cs =>
    have hc := List.any_eq_false.mp hp c h.1
    exact Bool.not_eq_true _ ▸ hc

theorem not_digit (h : Stops cs) : cs.head?.any isAsciiDigit = false := h.head?_any (by decide)

theorem not_identifierStart (h : Stops cs) : cs.head?.any isIdentifierStart = false :=
  h.head?_any (by decide +kernel)

theorem not_identifierPart (h : Stops cs) : cs.head?.any isIdentifierPart = false :=
  h.head?_any (by decide +kernel)

end Stops

/-- The characters that have a property go up to the first one that does not. -/
theorem takeWhile_append_of_head? {p : Char → Bool} {cs rest : List Char} (hcs : ∀ c ∈ cs, p c = true)
    (hrest : rest.head?.any p = false) : (cs ++ rest).takeWhile p = cs := by
  rw [List.takeWhile_append_of_pos hcs]
  cases rest with
  | nil => simp
  | cons c rest => simp_all

/-- What is left of the characters starts with the first one that does not have the property. -/
theorem dropWhile_append_of_head? {p : Char → Bool} {cs rest : List Char} (hcs : ∀ c ∈ cs, p c = true)
    (hrest : rest.head?.any p = false) : (cs ++ rest).dropWhile p = rest := by
  rw [List.dropWhile_append_of_pos hcs]
  cases rest with
  | nil => simp
  | cons c rest => simp_all

/-- The first character that is left does not have the property. -/
theorem any_head?_dropWhile (p : Char → Bool) (cs : List Char) :
    (cs.dropWhile p).head?.any p = false := by
  have hhead := List.head?_dropWhile_not p cs
  cases hcs : (cs.dropWhile p).head? with
  | none => rfl
  | some c =>
    rw [hcs] at hhead
    exact hhead

/-- An ASCII digit is one of ten, which makes statements about all digits a matter of ten cases. -/
theorem exists_digitChar {c : Char} (h : isAsciiDigit c = true) : ∃ n < 10, c = digitChar n := by
  simp only [isAsciiDigit, Bool.and_eq_true, decide_eq_true_eq, Char.le_def,
    UInt32.le_iff_toNat_le] at h
  have hlow : 48 ≤ c.toNat := h.1
  have hhigh : c.toNat ≤ 57 := h.2
  refine ⟨c.toNat - 48, by omega, ?_⟩
  have hcode : 48 + (c.toNat - 48) % 10 = c.toNat := by omega
  show c = Char.ofNat (48 + (c.toNat - 48) % 10)
  rw [hcode, Char.ofNat_toNat]

/-- No digit starts a word, so that a number and a word are told apart by the first character. -/
theorem isIdentifierStart_of_digit {c : Char} (h : isAsciiDigit c = true) :
    isIdentifierStart c = false := by
  obtain ⟨n, hn, rfl⟩ := exists_digitChar h
  exact (by decide : ∀ n < 10, isIdentifierStart (digitChar n) = false) n hn

theorem isBlank_of_digit {c : Char} (h : isAsciiDigit c = true) : isBlank c = false := by
  obtain ⟨n, hn, rfl⟩ := exists_digitChar h
  exact (by decide : ∀ n < 10, isBlank (digitChar n) = false) n hn

/-! ## Numbers

A number is digits, a fraction and an exponent, where the last two may be missing, and it is scanned
in these three parts. For each part there is a lemma that the scanner takes a text of this kind, and
one that it takes the text again with something else behind it. What stands behind has to add
nothing to the last part that is there, which may be any of the three. -/

/-- Nothing, or a point and digits. -/
inductive FractionText : List Char → Prop where
  | none : FractionText []
  | digits {c : Char} {cs : List Char} (h : ∀ d ∈ c :: cs, isAsciiDigit d = true) :
      FractionText ('.' :: c :: cs)

/-- Nothing, or the letter of an exponent, a sign or none, and digits. -/
inductive ExponentText : List Char → Prop where
  | none : ExponentText []
  | digits {letter c : Char} {sign cs : List Char} (hletter : letter = 'e' ∨ letter = 'E')
      (hsign : sign = [] ∨ sign = ['+'] ∨ sign = ['-']) (h : ∀ d ∈ c :: cs, isAsciiDigit d = true) :
      ExponentText (letter :: (sign ++ c :: cs))

/-- An exponent starts with its letter, so no digit is next to the fraction. -/
theorem ExponentText.not_digit {exponent rest : List Char} (h : ExponentText exponent)
    (hrest : rest.head?.any isAsciiDigit = false) :
    (exponent ++ rest).head?.any isAsciiDigit = false := by
  cases h with
  | none => exact hrest
  | digits hletter =>
    rcases hletter with rfl | rfl <;> rfl

/-- Digits, a fraction and an exponent, and not the exponent alone. -/
inductive NumberText : List Char → Prop where
  | parts {whole fraction exponent : List Char} (hwhole : ∀ d ∈ whole, isAsciiDigit d = true)
      (hfraction : FractionText fraction) (hexponent : ExponentText exponent)
      (hne : whole ++ fraction ≠ []) : NumberText (whole ++ fraction ++ exponent)

/-- A number starts with a digit or with a point, and neither of them is blank. -/
theorem NumberText.not_blank {text : List Char} (h : NumberText text) (rest : List Char) :
    (text ++ rest).head?.any isBlank = false := by
  cases h with
  | @parts whole fraction _ hwhole hfraction _ hne =>
    cases whole with
    | cons c whole => exact isBlank_of_digit (hwhole c List.mem_cons_self)
    | nil =>
      cases hfraction with
      | none => exact absurd rfl hne
      | digits => rfl

namespace Lexer

theorem digits_takeWhile (cs : List Char) :
    ∀ d ∈ cs.takeWhile isAsciiDigit, isAsciiDigit d = true :=
  List.all_eq_true.mp List.all_takeWhile

/-- What is scanned as a fraction is one: with a digit behind the point the point is taken, and
without one nothing is. -/
theorem fractionText_spanFraction (cs : List Char) : FractionText (spanFraction cs).1 := by
  unfold spanFraction
  split
  · rename_i c cs
    split
    · rename_i hdigit
      have hdigits := digits_takeWhile (c :: cs)
      rw [List.takeWhile_cons_of_pos hdigit] at hdigits ⊢
      exact .digits hdigits
    · exact .none
  · exact .none

/-- What is scanned as an exponent is one. Without a digit behind the letter and the sign nothing is
taken, and the letter is left for the check that no name follows a number. -/
theorem exponentText_spanExponent (cs : List Char) : ExponentText (spanExponent cs).1 := by
  unfold spanExponent
  split
  · rename_i letter cs
    have hsign : (spanSign cs).1 = [] ∨ (spanSign cs).1 = ['+'] ∨ (spanSign cs).1 = ['-'] := by
      unfold spanSign
      split <;> simp
    dsimp only
    split
    · -- a digit follows, so the digits that are taken are not empty
      rename_i h
      obtain ⟨hletter, hdigit⟩ := h
      cases hdigits : (spanSign cs).2 with
      | nil =>
        rw [hdigits] at hdigit
        cases hdigit
      | cons c ds =>
        rw [hdigits] at hdigit
        have hc : isAsciiDigit c = true := hdigit
        have hall := digits_takeWhile (c :: ds)
        rw [List.takeWhile_cons_of_pos hc] at hall ⊢
        exact .digits hletter hsign hall
    · exact .none
  · exact .none

/-- What is scanned as a number is one. -/
theorem numberText_spanNumber {cs : List Char} (h : startsNumber cs = true) :
    NumberText (spanNumber cs).1 := by
  refine .parts (digits_takeWhile cs) (fractionText_spanFraction _) (exponentText_spanExponent _) ?_
  -- a number that starts with a point has a fraction, any other one has digits
  unfold startsNumber at h
  split at h
  · have hpoint : isAsciiDigit '.' = false := rfl
    simp [hpoint, h]
  · simp [h]
  · cases h

variable {fraction exponent rest : List Char}

/-- Digits are taken up to the first other character. -/
theorem span_digits {digits : List Char} (hdigits : ∀ d ∈ digits, isAsciiDigit d = true)
    (hrest : rest.head?.any isAsciiDigit = false) :
    (digits ++ rest).takeWhile isAsciiDigit = digits ∧
      (digits ++ rest).dropWhile isAsciiDigit = rest :=
  ⟨takeWhile_append_of_head? hdigits hrest, dropWhile_append_of_head? hdigits hrest⟩

/-- A point and digits are a fraction, if something else is behind them. -/
theorem spanFraction_digits {c : Char} {cs : List Char} (h : ∀ d ∈ c :: cs, isAsciiDigit d = true)
    (hrest : rest.head?.any isAsciiDigit = false) :
    spanFraction ('.' :: c :: (cs ++ rest)) = ('.' :: c :: cs, rest) := by
  obtain ⟨htake, hdrop⟩ := span_digits h hrest
  rw [List.cons_append] at htake hdrop
  rw [spanFraction, if_pos (h c List.mem_cons_self), htake, hdrop]

/-- What stands behind a number adds nothing to it. -/
structure EndsNumber (rest : List Char) : Prop where
  digit : rest.head?.any isAsciiDigit = false
  fraction : spanFraction rest = ([], rest)
  exponent : spanExponent rest = ([], rest)

theorem EndsNumber.nil : EndsNumber [] := ⟨rfl, rfl, rfl⟩

/-- A character that is no digit and no letter of an exponent ends a number, and a point does if no
digit follows it. -/
theorem EndsNumber.cons {c : Char} (hdigit : isAsciiDigit c = false)
    (hpoint : c = '.' → rest.head?.any isAsciiDigit = false) (hletter : ¬(c = 'e' ∨ c = 'E')) :
    EndsNumber (c :: rest) where
  digit := hdigit
  fraction := by
    unfold spanFraction
    split
    · rename_i d cs heq
      cases heq
      have hd : isAsciiDigit d = false := hpoint rfl
      rw [if_neg (by simp [hd])]
    · rfl
  exponent := by
    rw [spanExponent]
    simp [hletter]

/-- A fraction is taken in front of an exponent and of what ends the number. If there is none, what
stands there does not look like one. -/
theorem spanFraction_text (hfraction : FractionText fraction) (hexponent : ExponentText exponent)
    (hrest : EndsNumber rest) :
    spanFraction (fraction ++ (exponent ++ rest)) = (fraction, exponent ++ rest) := by
  cases hfraction with
  | digits h => exact spanFraction_digits h (hexponent.not_digit hrest.digit)
  | none =>
    cases hexponent with
    | none => exact hrest.fraction
    | digits hletter =>
      rcases hletter with rfl | rfl <;> rfl

/-- The sign in front of a digit is taken, or nothing if there is none. -/
theorem spanSign_digit {sign : List Char} {c : Char} (hsign : sign = [] ∨ sign = ['+'] ∨ sign = ['-'])
    (h : isAsciiDigit c = true) (cs : List Char) : spanSign (sign ++ c :: cs) = (sign, c :: cs) := by
  rcases hsign with rfl | rfl | rfl
  · show spanSign (c :: cs) = _
    unfold spanSign
    split
    · rename_i heq
      cases heq
      cases h
    · rename_i heq
      cases heq
      cases h
    · rfl
  · rfl
  · rfl

section
variable {letter c : Char} {sign cs : List Char} (hletter : letter = 'e' ∨ letter = 'E')
  (hsign : sign = [] ∨ sign = ['+'] ∨ sign = ['-'])
include hletter hsign

/-- Behind the letter and the sign all digits are taken that come. -/
theorem spanExponent_letter (h : isAsciiDigit c = true) (cs : List Char) :
    spanExponent (letter :: (sign ++ c :: cs)) =
      (letter :: sign ++ (c :: cs).takeWhile isAsciiDigit, (c :: cs).dropWhile isAsciiDigit) := by
  rw [spanExponent, spanSign_digit hsign h]
  dsimp only
  rw [if_pos ⟨hletter, h⟩]

/-- The whole exponent is taken, if something else is behind it. -/
theorem spanExponent_digits (h : ∀ d ∈ c :: cs, isAsciiDigit d = true)
    (hrest : rest.head?.any isAsciiDigit = false) :
    spanExponent (letter :: (sign ++ c :: cs) ++ rest) = (letter :: (sign ++ c :: cs), rest) := by
  obtain ⟨htake, hdrop⟩ := span_digits h hrest
  rw [List.cons_append] at htake hdrop
  have hassoc : letter :: (sign ++ c :: cs) ++ rest = letter :: (sign ++ c :: (cs ++ rest)) := by simp
  rw [hassoc, spanExponent_letter hletter hsign (h c List.mem_cons_self), htake, hdrop,
    List.cons_append]

end

/-- An exponent is taken in front of what ends the number, and so is none. -/
theorem spanExponent_text (hexponent : ExponentText exponent) (hrest : EndsNumber rest) :
    spanExponent (exponent ++ rest) = (exponent, rest) := by
  cases hexponent with
  | digits hletter hsign h => exact spanExponent_digits hletter hsign h hrest.digit
  | none => exact hrest.exponent

/-- A number is taken off the front part by part. -/
theorem spanNumber_parts {whole : List Char} (hwhole : ∀ d ∈ whole, isAsciiDigit d = true)
    (hnot : (fraction ++ (exponent ++ rest)).head?.any isAsciiDigit = false)
    (hfraction : spanFraction (fraction ++ (exponent ++ rest)) = (fraction, exponent ++ rest))
    (hexponent : spanExponent (exponent ++ rest) = (exponent, rest)) :
    spanNumber (whole ++ fraction ++ exponent ++ rest) = (whole ++ fraction ++ exponent, rest) := by
  obtain ⟨htake, hdrop⟩ := span_digits hwhole hnot
  rw [List.append_assoc, List.append_assoc, spanNumber, htake, hdrop, hfraction]
  dsimp only
  rw [hexponent]

/-- A number is taken off the front of whatever does not go on with it. -/
theorem spanNumber_text {text : List Char} (h : NumberText text) (hrest : EndsNumber rest) :
    spanNumber (text ++ rest) = (text, rest) := by
  cases h with
  | @parts whole fraction exponent hwhole hfraction hexponent _ =>
    have hnot : (fraction ++ (exponent ++ rest)).head?.any isAsciiDigit = false := by
      cases hfraction with
      | none => rw [List.nil_append]; exact hexponent.not_digit hrest.digit
      | digits => rfl
    exact spanNumber_parts hwhole hnot (spanFraction_text hfraction hexponent hrest)
      (spanExponent_text hexponent hrest)

/-- What stops a token ends a number. -/
theorem EndsNumber.of_stops (h : Stops rest) : EndsNumber rest := by
  cases rest with
  | nil => exact .nil
  | cons c rest =>
    refine .cons h.not_digit h.2 ?_
    rintro (rfl | rfl) <;> exact absurd h.1 (by decide)

/-- A digit starts a number. -/
theorem startsNumber_digit {c : Char} (h : isAsciiDigit c = true) (cs : List Char) :
    startsNumber (c :: cs) = true := by
  unfold startsNumber
  split
  · rename_i heq
    cases heq
    cases h
  · rename_i heq
    cases heq
    exact h
  · rename_i heq
    cases heq

/-- A text of a number starts one, whatever is behind it. -/
theorem startsNumber_text {text : List Char} (h : NumberText text) (rest : List Char) :
    startsNumber (text ++ rest) = true := by
  cases h with
  | @parts whole fraction exponent hwhole hfraction hexponent hne =>
    cases whole with
    | cons c whole => exact startsNumber_digit (hwhole c List.mem_cons_self) _
    | nil =>
      cases hfraction with
      | none => exact absurd rfl hne
      | digits h => exact h _ List.mem_cons_self

end Lexer

/-! ## Words

Identifiers, reserved words and the words for booleans and for null are scanned alike and told apart
afterwards. The name of a member may be any of them, so what is said here of words is said of all.
-/

/-- What identifiers and reserved words look like. -/
inductive Word : List Char → Prop where
  | start {c : Char} {cs : List Char} (hblank : isBlank c = false)
      (hstart : isIdentifierStart c = true) (hparts : ∀ d ∈ cs, isIdentifierPart d = true) :
      Word (c :: cs)

/-- For a fixed word the conditions can be evaluated. -/
theorem Word.of_all {c : Char} {cs : List Char}
    (h : (!isBlank c && isIdentifierStart c && cs.all isIdentifierPart) = true) : Word (c :: cs) := by
  simp only [Bool.and_eq_true, Bool.not_eq_true', List.all_eq_true] at h
  obtain ⟨⟨hblank, hstart⟩, hparts⟩ := h
  exact .start hblank hstart hparts

/-- A word does not start with a digit. -/
theorem Word.not_digit {word : List Char} (h : Word word) (rest : List Char) :
    (word ++ rest).head?.any isAsciiDigit = false := by
  cases h with
  | @start c cs _ hstart _ =>
    show isAsciiDigit c = false
    rw [← Bool.not_eq_true]
    intro hdigit
    cases hstart.symm.trans (isIdentifierStart_of_digit hdigit)

theorem Keyword.word_toList (keyword : Keyword) : Word keyword.word.toList := by
  cases keyword <;> exact .of_all (by decide +kernel)

theorem Keyword.ofWord_word (keyword : Keyword) : Token.ofWord keyword.word = .keyword keyword := by
  cases keyword <;> decide

namespace Token

/-- The token is written as its kind asks: a number by its text, an identifier by a word that is not
reserved. -/
def Written : Token → Prop
  | number text => NumberText text.toList
  | identifier name => Word name.toList ∧ ofWord name = .identifier name
  | _ => True

/-- The token of a word is written as its kind asks: an identifier is a word that none of the others
is. -/
theorem written_ofWord {word : String} (h : Word word.toList) : (ofWord word).Written := by
  unfold ofWord
  split
  · trivial
  split
  · trivial
  split
  · trivial
  split
  · trivial
  · rename_i hkeyword
    exact ⟨h, by simp [ofWord, *]⟩

/-- A name behind a dot is a word, and the token that this word makes is that name again. -/
theorem word_of_propertyName? {token : Token} {name : String} (h : token.Written)
    (hname : Parser.propertyName? token = some name) :
    Word name.toList ∧ Parser.propertyName? (ofWord name) = some name := by
  unfold Parser.propertyName? at hname
  split at hname <;> cases hname
  · exact ⟨h.1, by rw [h.2]; rfl⟩
  · exact ⟨Keyword.word_toList _, by rw [Keyword.ofWord_word]; rfl⟩
  · exact ⟨.of_all (by decide +kernel), rfl⟩
  · exact ⟨.of_all (by decide +kernel), rfl⟩
  · exact ⟨.of_all (by decide +kernel), rfl⟩

end Token

/-! ## The token at the front

A step of the scanner looks for a string, a number, a word and a symbol, in this order. `Front` has
one case for each, with what the step has found out about the characters, and with it the step can
be repeated: for the same token, the same characters, and anything behind them for which the same is
true. -/

namespace Lexer

/-- The characters `text` are the token, where `rest` stands behind them. -/
inductive Front : (token : Token) → (text rest : List Char) → Prop where
  | string {quote : Char} {raw rest : List Char} (hquote : quote = '"' ∨ quote = '\'')
      (h : scanString quote (raw ++ quote :: rest) = some (raw, rest)) :
      Front (.string (String.ofList raw)) (quote :: (raw ++ [quote])) rest
  | number {text rest : List Char} (htext : NumberText text)
      (hspan : spanNumber (text ++ rest) = (text, rest))
      (hrest : rest.head?.any isIdentifierStart = false) :
      Front (.number (String.ofList text)) text rest
  | word {word rest : List Char} (hword : Word word)
      (hrest : rest.head?.any isIdentifierPart = false) :
      Front (.ofWord (String.ofList word)) word rest
  | symbol {token : Token} {c : Char} {cs rest : List Char} (hblank : isBlank c = false)
      (hquote : ¬(c = '"' ∨ c = '\'')) (hnumber : startsNumber (c :: (cs ++ rest)) = false)
      (hword : isIdentifierStart c = false)
      (h : symbolAt? (c :: (cs ++ rest)) = some (token, (c :: cs).length)) :
      Front token (c :: cs) rest

variable {token : Token} {text rest : List Char}

/-- Operators and marks are written in one way each, so nothing is asked of them. -/
theorem symbolAt?_written {cs : List Char} {token : Token} {count : Nat}
    (h : symbolAt? cs = some (token, count)) : token.Written := by
  unfold symbolAt? at h
  split at h <;> first | (cases h; trivial) | skip
  · split at h <;> cases h <;> trivial
  · cases h

/-- Unless it is a point, the first character decides by itself whether a number starts. -/
theorem startsNumber_cons {c : Char} {cs : List Char} (h : c ≠ '.') :
    startsNumber (c :: cs) = isAsciiDigit c := by
  unfold startsNumber
  split
  · rename_i heq
    cases heq
    exact absurd rfl h
  · rename_i heq
    cases heq
    rfl
  · rename_i heq
    cases heq

/-- The quotes take up one byte each. -/
theorem byteLength_quoted {quote : Char} (hquote : quote = '"' ∨ quote = '\'') (raw : List Char) :
    byteLength (quote :: (raw ++ [quote])) = byteLength raw + 2 := by
  have hone : quote.utf8Size = 1 := by rcases hquote with rfl | rfl <;> rfl
  simp only [byteLength_cons, byteLength_append, byteLength_nil, hone]
  omega

/-- The characters of an operator or a mark take up one byte each. -/
theorem exists_symbol {cs : List Char} {count : Nat} (h : symbolAt? cs = some (token, count)) :
    ∃ c text rest, cs = c :: (text ++ rest) ∧ (c :: text).length = count ∧
      byteLength (c :: text) = count := by
  unfold symbolAt? at h
  split at h
  all_goals first
    | (cases h; exact ⟨_, [_, _], _, rfl, rfl, rfl⟩)
    | (cases h; exact ⟨_, [_], _, rfl, rfl, rfl⟩)
    | skip
  · split at h <;> cases h <;> exact ⟨_, [], _, rfl, rfl, rfl⟩
  · cases h

/-- A token does not start with a blank, so that blanks in front of it can be told from it. -/
theorem Front.not_blank (h : Front token text rest) : text.head?.any isBlank = false := by
  cases h with
  | string hquote => rcases hquote with rfl | rfl <;> rfl
  | word hword =>
    cases hword with
    | start hblank => exact hblank
  | symbol hblank => exact hblank
  | number htext =>
    rw [← List.append_nil text]
    exact htext.not_blank []

/-- A token has at least one character. This is why the scanner comes to an end. -/
theorem Front.ne_nil (h : Front token text rest) : text ≠ [] := by
  rintro rfl
  cases h with
  | number htext => cases startsNumber_text htext []
  | word hword => cases hword

/-- **What a step reads is the token at the front.** The step decides on the first character: a
quote, the start of a number, the start of a name, and else a symbol. Each of these has its
constructor of `Front`, and what the later ones exclude is known from the earlier decisions. -/
theorem exists_front {cs : List Char} {start size : Nat} {lt : rest.length < cs.length}
    (hblank : cs.head?.any isBlank = false) (h : step cs start = .read token size rest lt) :
    ∃ text, cs = text ++ rest ∧ size = byteLength text ∧ Front token text rest := by
  unfold step at h
  split at h
  · cases h
  · rename_i c cs
    -- strings, numbers, words and symbols, in the order in which the step looks for them
    split at h
    · rename_i hquote
      split at h
      · cases h
      · rename_i raw rest hstring
        cases h
        have hcs := scanString_eq hstring
        -- the rest of the string is found in the characters by what was scanned
        rw [hcs] at hstring
        exact ⟨c :: (raw ++ [c]), by simp [hcs], (byteLength_quoted hquote raw).symm,
          .string hquote hstring⟩
    · split at h
      · rename_i hnumber
        dsimp only at h
        split at h
        · cases h
        · rename_i hrest
          cases h
          have happend := spanNumber_append (c :: cs)
          refine ⟨_, happend.symm, rfl, .number (numberText_spanNumber hnumber) ?_ ?_⟩
          · rw [happend]
          · exact Bool.not_eq_true _ ▸ hrest
      · split at h
        · rename_i hstart
          cases h
          refine ⟨c :: cs.takeWhile isIdentifierPart, by simp, rfl, .word ?_ ?_⟩
          · exact .start hblank hstart (List.all_eq_true.mp List.all_takeWhile)
          · exact any_head?_dropWhile isIdentifierPart cs
        · split at h
          · cases h
          · rename_i hquote hnumber hword _ _ hsymbol
            cases h
            obtain ⟨c', text, rest, heq, hlength, hsize⟩ := exists_symbol hsymbol
            obtain ⟨rfl, rfl⟩ := List.cons.inj heq
            have hdrop : (c :: (text ++ rest)).drop size = rest := by
              rw [← hlength]
              exact List.drop_left
            rw [hdrop]
            refine ⟨c :: text, rfl, hsize.symm, .symbol hblank hquote ?_ ?_ ?_⟩
            · exact Bool.not_eq_true _ ▸ hnumber
            · exact Bool.not_eq_true _ ▸ hword
            · rw [hlength]
              exact hsymbol

/-- A step takes a token off the front, which takes up `size` bytes, and leaves the rest. -/
def Step.Reads {cs : List Char} (step : Step cs) (token : Token) (size : Nat) (rest : List Char) :
    Prop :=
  ∃ lt, step = .read token size rest lt

/-- A step that has read the token, its size and its rest reads these. -/
theorem Step.Reads.intro {cs rest' : List Char} {token' : Token} {size size' : Nat}
    {lt : rest'.length < cs.length} (htoken : token' = token) (hsize : size' = size)
    (hrest : rest' = rest) : (Step.read token' size' rest' lt).Reads token size rest := by
  subst htoken hsize hrest
  exact ⟨lt, rfl⟩

/-- A text between quotes is read as a string, if the scanner of strings stops at this quote. -/
theorem step_string {quote : Char} {raw : List Char} (hquote : quote = '"' ∨ quote = '\'')
    (h : scanString quote (raw ++ quote :: rest) = some (raw, rest)) (start : Nat) :
    (step (quote :: (raw ++ quote :: rest)) start).Reads (.string (String.ofList raw))
      (byteLength (quote :: (raw ++ [quote]))) rest := by
  unfold step
  dsimp only
  rw [if_pos hquote]
  split
  · rename_i hnone
    cases h.symm.trans hnone
  · rename_i hsome
    cases h.symm.trans hsome
    exact .intro rfl (byteLength_quoted hquote raw).symm rfl

/-- A text of a number is read as a number, if it is all that is taken and no word follows. -/
theorem step_number (htext : NumberText text) (hspan : spanNumber (text ++ rest) = (text, rest))
    (hrest : rest.head?.any isIdentifierStart = false) (start : Nat) :
    (step (text ++ rest) start).Reads (.number (String.ofList text)) (byteLength text) rest := by
  have hnumber := startsNumber_text htext rest
  cases hcs : text ++ rest with
  | nil =>
    rw [hcs] at hnumber
    cases hnumber
  | cons c cs =>
    rw [hcs] at hnumber hspan
    have hquote : ¬(c = '"' ∨ c = '\'') := by
      rintro (rfl | rfl) <;> cases hnumber
    unfold step
    dsimp only
    rw [if_neg hquote, dif_pos hnumber, if_neg (by simp [hspan, hrest])]
    exact .intro (by rw [hspan]) (by rw [hspan]) (by rw [hspan])

/-- A word is read as the token that it makes. It starts neither a string nor a number. -/
theorem step_word {word : List Char} (hword : Word word)
    (hrest : rest.head?.any isIdentifierPart = false) (start : Nat) :
    (step (word ++ rest) start).Reads (.ofWord (String.ofList word)) (byteLength word) rest := by
  have hdigit := hword.not_digit rest
  cases hword with
  | @start c cs _ hstart hparts =>
    have hquote : ¬(c = '"' ∨ c = '\'') := by
      rintro (rfl | rfl) <;> cases hstart
    have hnumber : startsNumber (c :: (cs ++ rest)) = false := by
      rw [startsNumber_cons (by rintro rfl; cases hstart)]
      exact hdigit
    have htake := takeWhile_append_of_head? hparts hrest
    rw [List.cons_append]
    unfold step
    dsimp only
    rw [if_neg hquote, dif_neg (by simp [hnumber]), if_pos hstart]
    exact .intro (by rw [htake]) (by rw [htake]) (dropWhile_append_of_head? hparts hrest)

/-- An operator or a mark is read as itself, where neither a string nor a number nor a word starts.
-/
theorem step_symbol {c : Char} {cs : List Char} (hquote : ¬(c = '"' ∨ c = '\''))
    (hnumber : startsNumber (c :: (cs ++ rest)) = false) (hword : isIdentifierStart c = false)
    (h : symbolAt? (c :: (cs ++ rest)) = some (token, (c :: cs).length)) (start : Nat) :
    (step (c :: (cs ++ rest)) start).Reads token (byteLength (c :: cs)) rest := by
  obtain ⟨_, _, _, heq, hlength, hsize⟩ := exists_symbol h
  obtain ⟨rfl, happend⟩ := List.cons.inj heq
  obtain ⟨rfl, rfl⟩ := List.append_inj happend (by simpa using hlength.symm)
  unfold step
  dsimp only
  rw [if_neg hquote, dif_neg (by simp [hnumber]), if_neg (by simp [hword])]
  split
  · rename_i hnone
    cases h.symm.trans hnone
  · rename_i hsome
    cases h.symm.trans hsome
    exact .intro rfl hsize.symm List.drop_left

/-- The token at the front is what a step reads. -/
theorem Front.step (h : Front token text rest) (start : Nat) :
    (step (text ++ rest) start).Reads token (byteLength text) rest := by
  cases h with
  | string hquote h =>
    rw [List.cons_append, List.append_assoc]
    exact step_string hquote h start
  | number htext hspan hrest => exact step_number htext hspan hrest start
  | word hword hrest => exact step_word hword hrest start
  | symbol _ hquote hnumber hword h => exact step_symbol hquote hnumber hword h start

/-- A token is written as its kind asks. -/
theorem Front.written (h : Front token text rest) : token.Written := by
  cases h with
  | string => trivial
  | number htext =>
    show NumberText _
    rwa [String.toList_ofList]
  | word hword =>
    refine Token.written_ofWord ?_
    rwa [String.toList_ofList]
  | symbol _ _ _ _ h => exact symbolAt?_written h

/-- The brackets and the comma. -/
def separator? : Char → Option Mark
  | '(' => some .leftParen
  | ')' => some .rightParen
  | '[' => some .leftBracket
  | ']' => some .rightBracket
  | ',' => some .comma
  | _ => none

/-- A bracket or a comma, whatever follows. -/
theorem front_separator {c : Char} {mark : Mark} (h : separator? c = some mark) (rest : List Char) :
    Front (.mark mark) [c] rest := by
  unfold separator? at h
  split at h <;> cases h <;>
    exact .symbol (by decide) (by decide) (startsNumber_cons (by decide)) (by decide) rfl

end Lexer

/-! ## The walk

The walk over a source drops blanks, reads a token and goes on behind it, and counts bytes. Where it
starts matters for the positions only. These lemmas take one round of the walk off, in both
directions. -/

namespace Lexed

/-- What is scanned of characters that start with no blank. -/
def scanUnblank (cs : List Char) (start : Nat) : Lexed :=
  match Lexer.step cs start with
  | .finished => ⟨[], .finished start⟩
  | .failed error => ⟨[], .failed error⟩
  | .read token size rest _ =>
    ⟨⟨token, start, start + size⟩ :: (scan rest (start + size)).lexemes,
      (scan rest (start + size)).ending⟩

/-- Blanks only count for positions. -/
theorem scan_eq (cs : List Char) (offset : Nat) :
    scan cs offset =
      scanUnblank (cs.dropWhile isBlank) (offset + byteLength (cs.takeWhile isBlank)) := by
  rw [scan, scanUnblank]
  split <;> rename_i hstep <;> simp only [hstep]

/-- A token that is scanned stands behind blanks, and the rest of the source behind it. -/
theorem exists_of_scan_cons {cs : List Char} {offset : Nat} {lexeme : Lexeme} {lexemes : List Lexeme}
    (h : (scan cs offset).lexemes = lexeme :: lexemes) :
    ∃ blanks text rest, cs = blanks ++ (text ++ rest) ∧ (∀ c ∈ blanks, isBlank c = true) ∧
      Lexer.Front lexeme.token text rest ∧ lexeme.start = offset + byteLength blanks ∧
      lexeme.stop = lexeme.start + byteLength text ∧
      lexemes = (scan rest lexeme.stop).lexemes := by
  rw [scan_eq, scanUnblank] at h
  split at h
  · cases h
  · cases h
  · rename_i token size rest lt hstep
    cases h
    obtain ⟨text, hcs, rfl, hfront⟩ := Lexer.exists_front (any_head?_dropWhile isBlank cs) hstep
    refine ⟨cs.takeWhile isBlank, text, rest, ?_, ?_, hfront, rfl, rfl, rfl⟩
    · rw [← hcs, List.takeWhile_append_dropWhile]
    · exact List.all_eq_true.mp List.all_takeWhile

/-- Behind blanks, the token at the front is scanned and then the rest. -/
theorem scan_front {blanks text rest : List Char} {token : Token} (offset : Nat)
    (hblanks : ∀ c ∈ blanks, isBlank c = true) (h : Lexer.Front token text rest) :
    scan (blanks ++ (text ++ rest)) offset =
      ⟨⟨token, offset + byteLength blanks, offset + byteLength blanks + byteLength text⟩ ::
          (scan rest (offset + byteLength blanks + byteLength text)).lexemes,
        (scan rest (offset + byteLength blanks + byteLength text)).ending⟩ := by
  have hnot : (text ++ rest).head?.any isBlank = false := by
    cases text with
    | nil => exact absurd rfl h.ne_nil
    | cons c text => exact h.not_blank
  obtain ⟨lt, hstep⟩ := h.step (offset + byteLength blanks)
  rw [scan_eq, takeWhile_append_of_head? hblanks hnot, dropWhile_append_of_head? hblanks hnot,
    scanUnblank, hstep]

/-- Every token of a source is written as its kind asks. Induction on the tokens. -/
theorem scan_written (cs : List Char) (offset : Nat) :
    ∀ lexeme ∈ (scan cs offset).lexemes, lexeme.token.Written := by
  generalize hlexemes : (scan cs offset).lexemes = lexemes
  induction lexemes generalizing cs offset with
  | nil => simp
  | cons lexeme lexemes ih =>
    obtain ⟨_, _, rest, _, _, hfront, _, _, hrest⟩ := exists_of_scan_cons hlexemes
    exact List.forall_mem_cons.mpr ⟨hfront.written, ih rest _ hrest.symm⟩

end Lexed

/-! ## Texts as tokens

`Lexes` forgets about positions: the characters are these tokens and nothing else is left, wherever
they start. Texts are put together from the back, since the condition for a token is about what is
behind it. -/

/-- The characters are the tokens, and nothing else is left, wherever they start in a source. -/
def Lexes (cs : List Char) (ts : List Token) : Prop :=
  ∀ offset, (Lexed.scan cs offset).tokens = ts ∧ (Lexed.scan cs offset).Complete

namespace Lexes

variable {cs rest : List Char} {token : Token} {ts : List Token}

theorem nil : Lexes [] [] := by
  intro offset
  rw [Lexed.scan]
  exact ⟨rfl, _, rfl⟩

/-- A token at the front is read first, and then the others. -/
theorem front {text : List Char} (hfront : Lexer.Front token text rest) (h : Lexes rest ts) :
    Lexes (text ++ rest) (token :: ts) := by
  intro offset
  have hscan := Lexed.scan_front offset (by simp : ∀ c ∈ [], isBlank c = true) hfront
  obtain ⟨htokens, hcomplete⟩ := h (offset + byteLength [] + byteLength text)
  rw [← List.nil_append (text ++ rest), hscan]
  exact ⟨congrArg (token :: ·) htokens, hcomplete⟩

/-- Blanks in front change nothing but the positions. -/
theorem blanks {gap : List Char} (hgap : ∀ c ∈ gap, isBlank c = true) (h : Lexes cs ts) :
    Lexes (gap ++ cs) ts := by
  intro offset
  have heq : Lexed.scan (gap ++ cs) offset = Lexed.scan cs (offset + byteLength gap) := by
    rw [Lexed.scan_eq, Lexed.scan_eq, List.dropWhile_append_of_pos hgap,
      List.takeWhile_append_of_pos hgap, byteLength_append, Nat.add_assoc]
  rw [heq]
  exact h _

theorem blank (h : Lexes cs ts) : Lexes (' ' :: cs) ts := by
  have hgap : ∀ c ∈ [' '], isBlank c = true := List.all_eq_true.mp (by decide)
  exact h.blanks hgap

/-! ### One token of each kind -/

theorem number {text : List Char} (h : NumberText text) (hstops : Stops rest) (hrest : Lexes rest ts) :
    Lexes (text ++ rest) (.number (String.ofList text) :: ts) :=
  front (.number h (Lexer.spanNumber_text h (.of_stops hstops)) hstops.not_identifierStart) hrest

theorem word {word : List Char} (h : Word word) (hstops : Stops rest) (hrest : Lexes rest ts) :
    Lexes (word ++ rest) (.ofWord (String.ofList word) :: ts) :=
  front (.word h hstops.not_identifierPart) hrest

/-- A string, which needs nothing behind it to end. -/
theorem quoted {raw : List Char}
    (h : Lexer.scanString '"' (raw ++ '"' :: rest) = some (raw, rest)) (hrest : Lexes rest ts) :
    Lexes ('"' :: (raw ++ '"' :: rest)) (.string (String.ofList raw) :: ts) := by
  have hall := front (.string (Or.inl rfl) h) hrest
  rwa [List.cons_append, List.append_assoc] at hall

/-- An operator with a blank behind it, which no other operator goes on with. -/
theorem operator (operator : BinaryOperator) (hrest : Lexes rest ts) :
    Lexes (operator.symbol.toList ++ ' ' :: rest) (.operator operator :: ts) := by
  have hsymbol : Lexer.symbolAt? (operator.symbol.toList ++ ' ' :: rest) =
      some (.operator operator, operator.symbol.toList.length) := by
    cases operator <;> rfl
  -- all operators at once: they start neither a string nor a number nor a word
  have hhead : ∃ c cs, operator.symbol.toList = c :: cs ∧ isBlank c = false ∧
      ¬(c = '"' ∨ c = '\'') ∧ isIdentifierStart c = false ∧ c ≠ '.' ∧ isAsciiDigit c = false := by
    cases operator <;>
      exact ⟨_, _, rfl, by decide, by decide, by decide, by decide, by decide⟩
  obtain ⟨c, cs, heq, hblank, hquote, hword, hpoint, hdigit⟩ := hhead
  rw [heq] at hsymbol ⊢
  have hnumber : Lexer.startsNumber (c :: (cs ++ ' ' :: rest)) = false :=
    (Lexer.startsNumber_cons hpoint).trans hdigit
  exact front (.symbol hblank hquote hnumber hword hsymbol) hrest.blank

/-- A minus sign, which is an operator whether or not a number follows. -/
theorem minus (hrest : Lexes rest ts) : Lexes ('-' :: rest) (.operator .subtract :: ts) := by
  have hnumber : Lexer.startsNumber ('-' :: rest) = false := Lexer.startsNumber_cons (by decide)
  have hfront : Lexer.Front (.operator .subtract) ['-'] rest :=
    .symbol (by decide) (by decide) hnumber (by decide) rfl
  exact front hfront hrest

/-- A bracket or a comma, whatever follows. -/
theorem separator (hrest : Lexes rest ts) (c : Char) {mark : Mark}
    (h : Lexer.separator? c = some mark) : Lexes (c :: rest) (.mark mark :: ts) :=
  front (Lexer.front_separator h rest) hrest

/-- A point that no digit follows. -/
theorem dot (hdigit : rest.head?.any isAsciiDigit = false) (hrest : Lexes rest ts) :
    Lexes ('.' :: rest) (.mark .dot :: ts) := by
  have hnumber : Lexer.startsNumber ('.' :: rest) = false := by
    cases rest with
    | nil => rfl
    | cons c rest => exact hdigit
  have hfront : Lexer.Front (.mark .dot) ['.'] rest :=
    .symbol (by decide) (by decide) hnumber (by decide) rfl
  exact front hfront hrest

end Lexes

end Stencil
