import Mathlib.Data.List.TakeWhile
import Stencil.Expr.Escape
import Stencil.Expr.Lexer
import Stencil.Proofs.Outcome

/-!
# The grammar of escapes

The raw content of a string literal is a sequence of symbols, each of them a character or an escape.
A symbol is read by itself, whatever follows it, and only the last one may end early: the content of
a literal can be over before all digits of `\u` have come, or its closing brace.

* **`Symbol`**, **`Spells`** — the grammar, and what a content stands for.
* **`Symbol.decode_append`** — a symbol at the front is read as the grammar says.
* **`Unfinished`**, **`EndsUnfinished`** — the contents that are read though they are not spelled
  so; **`EndsUnfinished.not_spells`** tells the two apart by what a further backslash makes of them.
* **`decodeEscapes_eq_ok_iff`** — which contents are read, and as what. The induction is on the
  reader.
-/

namespace Stencil

open Text

namespace Text

/-- Reading on from a number, digit by digit. -/
def readHex? (total : Nat) (cs : List Char) : Option Nat :=
  cs.foldlM (fun total c => (hexValue? c).map (total * 16 + ·)) total

/-- Only digits are read. -/
theorem hexValue?_ne_none_of_readHex? {total n : Nat} {cs : List Char}
    (h : readHex? total cs = some n) :
    ∀ c ∈ cs, hexValue? c ≠ none := by
  induction cs generalizing total with
  | nil => exact fun c hc => by cases hc
  | cons c cs ih =>
    rw [readHex?, List.foldlM_cons] at h
    obtain ⟨next, hnext, hrest⟩ := Option.bind_eq_some_iff.mp h
    obtain ⟨value, hvalue, -⟩ := Option.map_eq_some_iff.mp hnext
    have hc : hexValue? c ≠ none := by
      rw [hvalue]
      exact Option.some_ne_none _
    exact List.forall_mem_cons.mpr ⟨hc, ih hrest⟩

theorem charOfNat?_toNat (c : Char) : charOfNat? c.toNat = some c := dif_pos c.valid

/-- A number is a character exactly if it is the number of it. -/
theorem charOfNat?_eq_some_iff {n : Nat} {c : Char} : charOfNat? n = some c ↔ n = c.toNat := by
  constructor
  · intro h
    by_cases hvalid : n.isValidChar
    · rw [charOfNat?, dif_pos hvalid] at h
      cases h
      rfl
    · rw [charOfNat?, dif_neg hvalid] at h
      cases h
  · rintro rfl
    exact charOfNat?_toNat c

end Text

namespace Escape

variable {cs out digits piece chars front last : List Char} {c letter : Char}

/-- The letters that stand for control characters behind a backslash. -/
def controls : List (Char × Char) :=
  [('n', '\n'), ('t', '\t'), ('r', '\r'), ('b', '\x08'), ('f', '\x0c'), ('v', '\x0b'), ('0', '\x00')]

/-- The digits are the code point of the character in hexadecimal. -/
def CodePoint (digits : List Char) (c : Char) : Prop := natOfHex? digits = some c.toNat

/-- A character or an escape, and the characters that it stands for. -/
inductive Symbol : List Char → List Char → Prop where
  | plain {c : Char} (hc : c ≠ '\\') : Symbol [c] [c]
  | byte {digits : List Char} {c : Char} (hcount : digits.length = 2) (hpoint : CodePoint digits c) :
      Symbol ('\\' :: 'x' :: digits) [c]
  | unit {digits : List Char} {c : Char} (hcount : digits.length = 4) (hpoint : CodePoint digits c) :
      Symbol ('\\' :: 'u' :: digits) [c]
  | braced {digits : List Char} {c : Char} (hcount : 1 ≤ digits.length ∧ digits.length ≤ 6)
      (hpoint : CodePoint digits c) : Symbol ('\\' :: 'u' :: '{' :: (digits ++ ['}'])) [c]
  | control {letter c : Char} (hletter : (letter, c) ∈ controls) : Symbol ['\\', letter] [c]
  | lineBreak : Symbol ['\\', '\n'] []
  | itself {c : Char} (hc : c ≠ 'x' ∧ c ≠ 'u' ∧ c ≠ '\n') (hletter : ∀ d, (c, d) ∉ controls) :
      Symbol ['\\', c] [c]

/-- A sequence of symbols, and the characters that it stands for. -/
inductive Spells : List Char → List Char → Prop where
  | nil : Spells [] []
  | cons {piece chars cs out : List Char} (hsymbol : Symbol piece chars) (h : Spells cs out) :
      Spells (piece ++ cs) (chars ++ out)

/-! ## One symbol

A symbol is read by itself: what it takes does not depend on the text behind it, and the text behind
is read as if nothing had been in front. That is so because an escape has either a fixed number of
digits or a brace that ends them. The cases of the letters are the ones where most characters are
possible, and they are settled by looking the letter up. -/

/-- Digits are read as the character whose code point they are, if there are one to six of them. -/
theorem codePoint?_eq_some_iff :
    codePoint? digits = some c ↔ (1 ≤ digits.length ∧ digits.length ≤ 6) ∧ CodePoint digits c := by
  have hcount : ¬ (digits = [] ∨ 6 < digits.length) ↔ 1 ≤ digits.length ∧ digits.length ≤ 6 := by
    rw [← List.length_eq_zero_iff]
    omega
  unfold codePoint?
  rw [← hcount]
  split
  · -- too few digits or too many, and neither side holds
    next h => exact iff_of_false (by rintro ⟨⟩) fun hnot => hnot.1 h
  · next h =>
    rw [Option.bind_eq_some_iff]
    constructor
    · rintro ⟨n, hn, hc⟩
      rw [charOfNat?_eq_some_iff] at hc
      rw [hc] at hn
      exact ⟨h, hn⟩
    · rintro ⟨-, hpoint⟩
      exact ⟨c.toNat, hpoint, charOfNat?_toNat c⟩

theorem CodePoint.not_mem (h : CodePoint digits c) {d : Char} (hd : hexValue? d = none) :
    d ∉ digits := fun hmem => hexValue?_ne_none_of_readHex? h d hmem hd

/-- The escapes of one letter. -/
theorem symbol_short (hx : c ≠ 'x') (hu : c ≠ 'u') : Symbol ['\\', c] (shortEscape c) := by
  unfold shortEscape
  by_cases hline : c = '\n'
  · rw [if_pos hline, hline]
    exact .lineBreak
  · rw [if_neg hline]
    cases hcontrol : controlChar? c with
    | some d =>
      refine .control ?_
      unfold controlChar? at hcontrol
      split at hcontrol <;> cases hcontrol <;> decide
    | none =>
      refine .itself ⟨hx, hu, hline⟩ fun d hmem => ?_
      simp only [controls, List.mem_cons, Prod.mk.injEq, List.not_mem_nil, or_false] at hmem
      -- a letter of the table is a control character, and this one is none
      obtain ⟨rfl, -⟩ | ⟨rfl, -⟩ | ⟨rfl, -⟩ | ⟨rfl, -⟩ | ⟨rfl, -⟩ | ⟨rfl, -⟩ | ⟨rfl, -⟩ := hmem <;>
        cases hcontrol

theorem decode_short (hx : c ≠ 'x') (hu : c ≠ 'u') (rest : List Char) :
    decode ('\\' :: c :: rest) = (decode rest).map (shortEscape c ++ ·) := by
  rw [decode, if_neg hx, if_neg hu]
  cases decode rest <;> rfl

/-- A character other than a backslash is read as itself. -/
theorem decode_plain (hc : c ≠ '\\') (rest : List Char) :
    decode (c :: rest) = (decode rest).map (c :: ·) := by
  rw [decode]
  · cases decode rest <;> rfl
  · exact fun heq _ => hc heq
  · exact fun _ _ heq _ => hc heq

/-- Without a brace the next four characters are taken, or those that are left. -/
theorem takeUnit_of_ne {rest : List Char} (h : ∀ more, rest ≠ '{' :: more) :
    takeUnit rest = (rest.take 4, rest.drop 4) := by
  unfold takeUnit
  split
  · exact absurd rfl (h _)
  · rfl

/-- Digits in braces are taken up to the brace that ends them. -/
theorem takeUnit_braced (h : '}' ∉ digits) (rest : List Char) :
    takeUnit ('{' :: (digits ++ '}' :: rest)) = (digits, rest) := by
  have hdigits : ∀ d ∈ digits, decide (d ≠ '}') = true :=
    fun d hd => decide_eq_true fun heq => h (heq ▸ hd)
  simp only [takeUnit, List.takeWhile_append_of_pos hdigits, List.dropWhile_append_of_pos hdigits]
  simp

/-- Digits that are a code point are read as their character. -/
theorem decode_unit {rest more : List Char} (hunit : takeUnit rest = (digits, more))
    (hpoint : codePoint? digits = some c) :
    decode ('\\' :: 'u' :: rest) = (decode more).map (c :: ·) := by
  rw [decode, if_neg (by decide), if_pos rfl]
  simp only [hunit, hpoint]
  cases decode more <;> rfl

/-- **A symbol at the front is read by itself**, whatever follows it, and what follows is read as if
it stood alone. One case for each symbol of the grammar; the digits of an escape are as many as its
form says, so the reader takes them and no more. -/
theorem Symbol.decode_append (h : Symbol piece chars) (rest : List Char) :
    decode (piece ++ rest) = (decode rest).map (chars ++ ·) := by
  cases h with
  | plain hc => exact decode_plain hc rest
  | @byte digits c hcount hpoint =>
    have hpoint' : codePoint? digits = some c := codePoint?_eq_some_iff.mpr ⟨by omega, hpoint⟩
    have htake : takeByte (digits ++ rest) = (digits, rest) := by
      rw [takeByte, ← hcount, List.take_left, List.drop_left]
    rw [List.cons_append, List.cons_append, decode, if_pos rfl]
    simp only [htake, hcount, hpoint', if_true]
    cases decode rest <;> rfl
  -- no brace opens the four digits, since a brace is no digit
  | @unit digits c hcount hpoint =>
    have hpoint' : codePoint? digits = some c := codePoint?_eq_some_iff.mpr ⟨by omega, hpoint⟩
    have hopen : ∀ more, digits ++ rest ≠ '{' :: more := by
      intro more heq
      obtain ⟨d, digits, rfl⟩ := List.exists_cons_of_length_pos (by omega : 0 < digits.length)
      obtain ⟨rfl, -⟩ := List.cons.inj heq
      exact hpoint.not_mem rfl List.mem_cons_self
    have hunit : takeUnit (digits ++ rest) = (digits, rest) := by
      rw [takeUnit_of_ne hopen, ← hcount, List.take_left, List.drop_left]
    exact decode_unit hunit hpoint'
  | @braced digits c hcount hpoint =>
    have hpoint' : codePoint? digits = some c := codePoint?_eq_some_iff.mpr ⟨hcount, hpoint⟩
    rw [List.cons_append, List.cons_append, List.cons_append, List.append_assoc]
    exact decode_unit (takeUnit_braced (hpoint.not_mem rfl) rest) hpoint'
  | @control letter c hletter =>
    simp only [controls, List.mem_cons, Prod.mk.injEq, List.not_mem_nil, or_false] at hletter
    obtain ⟨rfl, rfl⟩ | ⟨rfl, rfl⟩ | ⟨rfl, rfl⟩ | ⟨rfl, rfl⟩ | ⟨rfl, rfl⟩ | ⟨rfl, rfl⟩ | ⟨rfl, rfl⟩ :=
      hletter <;> exact decode_short (by decide) (by decide) rest
  | lineBreak => exact decode_short (by decide) (by decide) rest
  | @itself c hc hletter =>
    have hshort : shortEscape c = [c] := by
      have hcontrol : controlChar? c = none := by
        cases hcontrol : controlChar? c with
        | none => rfl
        | some d =>
          refine absurd ?_ (hletter d)
          unfold controlChar? at hcontrol
          split at hcontrol <;> cases hcontrol <;> decide
      rw [shortEscape, if_neg hc.2.2, hcontrol, Option.getD_none]
    rw [List.cons_append, List.cons_append, List.nil_append, decode_short hc.1 hc.2.1, hshort]

/-! ## Contents

A content is read symbol by symbol, and its last symbol may be unfinished: then the digits that have
come are read as if the escape ended there. Such a content is not spelled by the grammar in another
way. A backslash behind it shows this: an unfinished escape would take it for a digit, while behind
a finished one it stands alone. -/

/-- A sequence of symbols at the front is read by itself. Induction on the sequence. -/
theorem Spells.decode_append (h : Spells cs out) (rest : List Char) :
    decode (cs ++ rest) = (decode rest).map (out ++ ·) := by
  induction h with
  | nil =>
    rw [List.nil_append]
    cases decode rest <;> rfl
  | cons hsymbol _ ih =>
    rw [List.append_assoc, hsymbol.decode_append, ih]
    cases decode rest <;> simp [Except.map]

/-- A content that the grammar spells is read as the grammar says. -/
theorem Spells.decode (h : Spells cs out) : decode cs = .ok out := by
  have hread := h.decode_append []
  rw [List.append_nil, Escape.decode] at hread
  rw [hread, Except.map, List.append_nil]

/-- An escape with which a content ends before the escape does: fewer than four digits, or digits
without the closing brace. The digits that have come are read nevertheless. -/
inductive Unfinished : List Char → Char → Prop where
  | unit {digits : List Char} {c : Char} (hcount : 1 ≤ digits.length ∧ digits.length < 4)
      (hpoint : CodePoint digits c) : Unfinished ('\\' :: 'u' :: digits) c
  | braced {digits : List Char} {c : Char} (hcount : 1 ≤ digits.length ∧ digits.length ≤ 6)
      (hpoint : CodePoint digits c) : Unfinished ('\\' :: 'u' :: '{' :: digits) c

/-- A sequence of symbols of which the last one is unfinished, and the characters as which it is
read. -/
inductive EndsUnfinished : List Char → List Char → Prop where
  | intro {front chars last : List Char} {c : Char} (h : Spells front chars)
      (hlast : Unfinished last c) : EndsUnfinished (front ++ last) (chars ++ [c])

/-- **The digits of an unfinished escape.** They are all that is left, so the reader takes them and
leaves nothing, although it looked for more of them or for a brace. A backslash behind them is taken
along with them. -/
theorem Unfinished.exists_digits (h : Unfinished last c) :
    ∃ digits, codePoint? digits = some c ∧ ∃ rest, last = '\\' :: 'u' :: rest ∧
      takeUnit rest = (digits, []) ∧ takeUnit (rest ++ ['\\']) = (digits ++ ['\\'], []) := by
  cases h with
  | @unit digits c hcount hpoint =>
    -- without a brace four characters are taken, and there are fewer
    have hopen : '{' ∉ digits ++ ['\\'] := by
      rw [List.mem_append, not_or]
      exact ⟨hpoint.not_mem rfl, by decide⟩
    refine ⟨digits, codePoint?_eq_some_iff.mpr ⟨by omega, hpoint⟩, digits, rfl, ?_, ?_⟩
    · rw [takeUnit_of_ne (fun more heq => hopen (by rw [heq]; simp)), List.take_of_length_le (by omega),
        List.drop_of_length_le (by omega)]
    · have hlength : (digits ++ ['\\']).length ≤ 4 := by
        rw [List.length_append, List.length_singleton]
        omega
      rw [takeUnit_of_ne (fun more heq => hopen (by rw [heq]; simp)), List.take_of_length_le hlength,
        List.drop_of_length_le hlength]
  | @braced digits c hcount hpoint =>
    -- behind an opening brace everything is taken, as none closes it
    have hclose : ∀ more, '}' ∉ more → takeUnit ('{' :: more) = (more, []) := by
      intro more hmore
      have hall : ∀ d ∈ more, decide (d ≠ '}') = true :=
        fun d hd => decide_eq_true fun heq => hmore (heq ▸ hd)
      simp only [takeUnit, List.takeWhile_eq_self_iff.mpr hall, List.dropWhile_eq_nil_iff.mpr hall,
        List.drop_nil]
    have hdigits : '}' ∉ digits := hpoint.not_mem rfl
    refine ⟨digits, codePoint?_eq_some_iff.mpr ⟨hcount, hpoint⟩, '{' :: digits, rfl,
      hclose digits hdigits, hclose (digits ++ ['\\']) ?_⟩
    rw [List.mem_append, not_or]
    exact ⟨hdigits, by decide⟩

/-- An unfinished escape is read as the character of its digits. -/
theorem Unfinished.decode (h : Unfinished last c) : decode last = .ok [c] := by
  obtain ⟨digits, hpoint, rest, rfl, hunit, -⟩ := h.exists_digits
  rw [decode_unit hunit hpoint, Escape.decode]
  rfl

/-- **The grammar never spells an unfinished escape.** A backslash behind it becomes part of it,
while behind a finished one it is an escape of its own; so the reports of the two contents, each
with a backslash put behind it, differ in their texts. -/
theorem EndsUnfinished.not_spells (h : EndsUnfinished cs out) : ¬ Spells cs chars := by
  intro hspells
  obtain ⟨hfront, hlast⟩ := h
  obtain ⟨digits, -, rest, rfl, -, hunit⟩ := hlast.exists_digits
  have hnone : codePoint? (digits ++ ['\\']) = none := by
    rw [Option.eq_none_iff_forall_ne_some]
    intro c hc
    exact (codePoint?_eq_some_iff.mp hc).2.not_mem (d := '\\') rfl (by simp)
  -- if the content were spelled, the backslash would be reported alone
  have halone := hspells.decode_append ['\\']
  have hpart : decode ('\\' :: 'u' :: (rest ++ ['\\'])) =
      .error (String.ofList ('\\' :: 'u' :: (digits ++ ['\\']))) := by
    rw [Escape.decode, if_neg (by decide), if_pos rfl]
    simp only [hunit, hnone]
  rw [List.append_assoc, hfront.decode_append, List.cons_append, List.cons_append, hpart,
    Escape.decode] at halone
  have hmessage : String.ofList ('\\' :: 'u' :: (digits ++ ['\\'])) = "\\" := by
    simp only [Except.map, Except.error.injEq] at halone
    exact halone
  -- but the report shows the letter of the escape as well
  have hlength := congrArg (fun text => text.toList.length) hmessage
  simp at hlength

/-! ## The reader

The reader goes through the content from the front. Each of its cases that goes on has read a
symbol, with one exception: an escape with less than it needs, of which nothing is left. So its
cases are the constructors of the grammar, and the exception is the unfinished escape. -/

/-- **What the reader takes as the digits of `\u`** belongs to a symbol, or nothing follows it.
Either there is a brace, and then another one that closes it or the end; or there are four
characters, or fewer of them and the end. -/
theorem symbol_or_unfinished (h : codePoint? (takeUnit cs).1 = some c) :
    (∃ piece, Symbol ('\\' :: 'u' :: piece) [c] ∧ cs = piece ++ (takeUnit cs).2) ∨
      Unfinished ('\\' :: 'u' :: cs) c ∧ (takeUnit cs).2 = [] := by
  obtain ⟨hcount, hpoint⟩ := codePoint?_eq_some_iff.mp h
  by_cases hopen : ∃ rest, cs = '{' :: rest
  · obtain ⟨rest, rfl⟩ := hopen
    have hunit : takeUnit ('{' :: rest) =
        (rest.takeWhile (· ≠ '}'), (rest.dropWhile (· ≠ '}')).drop 1) := rfl
    have hsplit := List.takeWhile_append_dropWhile (p := (· ≠ '}')) (l := rest)
    rw [hunit] at hcount hpoint ⊢
    -- whether a brace comes at all
    cases hrest : rest.dropWhile (· ≠ '}') with
    | nil =>
      rw [hrest, List.append_nil] at hsplit
      rw [hsplit] at hcount hpoint
      exact .inr ⟨.braced hcount hpoint, rfl⟩
    | cons d more =>
      have hclose : d = '}' := by
        have := List.head?_dropWhile_not (· ≠ '}') rest
        rw [hrest] at this
        simpa using this
      rw [hrest, hclose] at hsplit
      refine .inl ⟨_, .braced hcount hpoint, ?_⟩
      rw [List.cons_append, List.append_assoc]
      exact congrArg ('{' :: ·) hsplit.symm
  · rw [takeUnit_of_ne fun more heq => hopen ⟨more, heq⟩] at hcount hpoint ⊢
    rcases Nat.lt_or_ge cs.length 4 with hshort | hfull
    · have hall : cs.take 4 = cs := List.take_of_length_le (Nat.le_of_lt hshort)
      rw [hall] at hcount hpoint
      exact .inr ⟨.unit ⟨hcount.1, hshort⟩ hpoint, List.drop_of_length_le (Nat.le_of_lt hshort)⟩
    · have hfour : (cs.take 4).length = 4 := List.length_take_of_le hfull
      exact .inl ⟨cs.take 4, .unit hfour hpoint, (List.take_append_drop 4 cs).symm⟩

/-- A symbol in front of what is read is read with it. -/
theorem reads_cons (hsymbol : Symbol piece chars) (h : Spells cs out ∨ EndsUnfinished cs out) :
    Spells (piece ++ cs) (chars ++ out) ∨ EndsUnfinished (piece ++ cs) (chars ++ out) := by
  rcases h with h | ⟨hfront, hlast⟩
  · exact .inl (.cons hsymbol h)
  · rw [← List.append_assoc, ← List.append_assoc]
    exact .inr (.intro (.cons hsymbol hfront) hlast)

/-- **What is read is spelled by the grammar or ends unfinished.** Induction along the reader. At
each of its steps it has read a symbol, and the rest goes on as the rest does, but for `\u` with
nothing behind its digits, where the content ends. -/
theorem reads_of_decode (h : decode cs = .ok out) : Spells cs out ∨ EndsUnfinished cs out := by
  fun_induction decode cs generalizing out with
  | case1 =>
    cases h
    exact .inl .nil
  | case2 | case3 | case5 => cases h
  | case4 cs digits c hpoint =>
    rename_i ih
    obtain ⟨out, hrest, hout⟩ := bind_eq_ok_iff.mp h
    cases hout
    split at hpoint
    · next hcount =>
      have hsymbol := Symbol.byte hcount (codePoint?_eq_some_iff.mp hpoint).2
      have hsplit : cs = digits ++ (takeByte cs).2 := (List.take_append_drop 2 cs).symm
      rw [hsplit]
      exact reads_cons hsymbol (ih hrest)
    · cases hpoint
  | case6 cs digits c hpoint =>
    rename_i ih
    obtain ⟨out, hrest, hout⟩ := bind_eq_ok_iff.mp h
    cases hout
    rcases symbol_or_unfinished hpoint with ⟨piece, hsymbol, hsplit⟩ | ⟨hlast, hnil⟩
    · rw [hsplit]
      exact reads_cons hsymbol (ih hrest)
    · rw [hnil, decode] at hrest
      cases hrest
      exact .inr (.intro .nil hlast)
  | case7 c cs hx hu ih =>
    obtain ⟨out, hrest, hout⟩ := bind_eq_ok_iff.mp h
    cases hout
    exact reads_cons (symbol_short hx hu) (ih hrest)
  -- no backslash: the cases for a backslash come before
  | case8 c cs hlast hescape ih =>
    obtain ⟨out, hrest, hout⟩ := bind_eq_ok_iff.mp h
    cases hout
    have hc : c ≠ '\\' := by
      intro hc
      cases cs with
      | nil => exact hlast hc rfl
      | cons d cs => exact hescape d cs hc rfl
    exact reads_cons (.plain hc) (ih hrest)

/-- What the reader reads, in the words of the grammar. -/
theorem decode_eq_ok_iff : decode cs = .ok out ↔ Spells cs out ∨ EndsUnfinished cs out := by
  constructor
  · exact reads_of_decode
  · rintro (h | ⟨hfront, hlast⟩)
    · exact h.decode
    · rw [hfront.decode_append, hlast.decode]
      rfl

end Escape

open Escape

/-- **Which contents of string literals are read, and as what**: those that the grammar spells, as
the grammar says, and those that end with an unfinished escape, which the grammar never spells. The
second kind is read since the digits of `\u` are taken as far as they go, and not counted. -/
theorem decodeEscapes_reads (raw : String) (position : Nat) (text : String) :
    (decodeEscapes raw position = .ok text ↔
      Spells raw.toList text.toList ∨ EndsUnfinished raw.toList text.toList) ∧
    (EndsUnfinished raw.toList text.toList → ∀ chars, ¬ Spells raw.toList chars) := by
  refine ⟨?_, fun h chars => h.not_spells⟩
  rw [← decode_eq_ok_iff, decodeEscapes]
  cases decode raw.toList with
  | error sequence => exact iff_of_false (by rintro ⟨⟩) (by rintro ⟨⟩)
  | ok out =>
    constructor
    · intro h
      cases h
      rw [String.toList_ofList]
    · intro h
      cases h
      exact congrArg Except.ok String.ofList_toList

/-- Two digits are enough at the end of a literal: `\u41` is read as a letter, and no sequence of
symbols spells it. -/
theorem decodeEscapes_two_digits :
    (Lexed.ofSource "'\\u41'").lexemes = [⟨.string "\\u41", 0, 6⟩] ∧
    decodeEscapes "\\u41" 0 = .ok "A" ∧ ∀ chars, ¬ Spells "\\u41".toList chars := by
  have hends : EndsUnfinished "\\u41".toList ['A'] :=
    .intro .nil (@Unfinished.unit ['4', '1'] 'A' (by decide) rfl)
  refine ⟨by decide +kernel, ?_, fun chars => hends.not_spells⟩
  rw [decodeEscapes, decode_eq_ok_iff.mpr (.inr hends)]

end Stencil
