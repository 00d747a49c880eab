import Stencil.Proofs.Parallel
import Stencil.Proofs.Spans
import Stencil.Proofs.Taking

/-!
# Blanks between tokens

How many blanks stand between two tokens does not matter, as long as there is one: a blank ends
every token, so each is scanned as it was, and the parser sees the same tokens.

* **`mem_blanks`** — blanks are a few characters, and no token goes on with one of them.
* **`Lexer.Front.before_blank`** — a token stays the same in front of a blank or the end. One lemma
  for each scanner.
* **`Respaced`** — a source with other blanks between its tokens. Induction on the tokens shows that
  they are scanned again.
* **`Cursor.At.parallel`** — two places with the same tokens in front of them are read alike.
* **`spacing_insignificant`** — the two together.
-/

namespace Stencil

open Text

/-! ## Blanks

The blanks are white space in a wide sense, given by ranges of code points. That no token goes on
with one of them is settled by looking at all of them once; so they are listed. -/

/-- Every blank. -/
def blanks : List Char :=
  [' ', '\t', '\n', '\x0c', '\r', '\u0085', '\u00a0', '\u1680', '\u2000', '\u2001', '\u2002', '\u2003',
    '\u2004', '\u2005', '\u2006', '\u2007', '\u2008', '\u2009', '\u200a', '\u2028', '\u2029', '\u202f',
    '\u205f', '\u3000']

/-- The list is complete: a code point in one of the ranges is one of those of the list, for the
only other one of them is the line tabulation. -/
theorem mem_blanks {c : Char} (h : isBlank c = true) : c ∈ blanks := by
  simp only [isBlank, isSpace, spaces, Bool.and_eq_true, Ranges.contains_iff, bne_iff_ne] at h
  obtain ⟨⟨range, hrange, hcode⟩, htab⟩ := h
  have htab : c.toNat ≠ 0x0b := fun heq => htab (Char.toNat_inj.mp heq)
  have hmem : c.toNat ∈ blanks.map Char.toNat := by
    show c.toNat ∈ [0x20, 0x9, 0xA, 0xC, 0xD, 0x85, 0xA0, 0x1680, 0x2000, 0x2001, 0x2002, 0x2003,
      0x2004, 0x2005, 0x2006, 0x2007, 0x2008, 0x2009, 0x200A, 0x2028, 0x2029, 0x202F, 0x205F, 0x3000]
    simp only [List.mem_cons, List.not_mem_nil, or_false] at hrange ⊢
    -- range by range, the code points of a range are in the list
    rcases hrange with rfl | rfl | rfl | rfl | rfl | rfl | rfl | rfl | rfl | rfl <;>
      dsimp only at hcode <;> omega
  obtain ⟨d, hd, heq⟩ := List.mem_map.mp hmem
  rwa [← Char.toNat_inj.mp heq]

/-- A blank does not have what none of them has. With this, what is known of a scanner in front of
blanks is decided on the list. -/
theorem not_of_isBlank {p : Char → Bool} (hp : blanks.any p = false) {c : Char}
    (h : isBlank c = true) : p c = false :=
  Bool.not_eq_true _ ▸ List.any_eq_false.mp hp c (mem_blanks h)

/-- Blanks are the white space of ASCII without the line tabulation, and all white space beyond it.
-/
theorem isBlank_iff {c : Char} :
    isBlank c = true ↔ c ∈ [' ', '\t', '\n', '\x0c', '\r'] ∨ 128 ≤ c.toNat ∧ isSpace c = true := by
  constructor
  · intro h
    have hall : blanks.all (fun d => d ∈ [' ', '\t', '\n', '\x0c', '\r'] ∨ 128 ≤ d.toNat) = true := by
      decide
    have hc := of_decide_eq_true (List.all_eq_true.mp hall c (mem_blanks h))
    exact hc.imp_right fun hcode => ⟨hcode, isSpace_of_isBlank h⟩
  · rintro (h | ⟨hcode, hspace⟩)
    · have hall : [' ', '\t', '\n', '\x0c', '\r'].all isBlank = true := by decide
      exact List.all_eq_true.mp hall c h
    · have hne : c ≠ '\x0b' := by
        rintro rfl
        exact absurd hcode (by decide)
      simp [isBlank, hspace, hne]

/-- Nothing is left, or a blank comes first. -/
def BeginsBlank (cs : List Char) : Prop := ∀ c ∈ cs.head?, isBlank c = true

namespace BeginsBlank

variable {cs rest : List Char}

/-- Blanks begin with one, unless there are none of them, and then nothing may follow. -/
theorem append (hcs : ∀ c ∈ cs, isBlank c = true) (h : cs = [] → rest = []) :
    BeginsBlank (cs ++ rest) := by
  cases cs with
  | nil =>
    rw [h rfl]
    rintro _ ⟨⟩
  | cons c cs =>
    rintro _ ⟨⟩
    exact hcs c List.mem_cons_self

/-- What no blank is, is not in front. -/
theorem head?_any {p : Char → Bool} (h : BeginsBlank rest) (hp : blanks.any p = false) :
    rest.head?.any p = false := by
  cases rest with
  | nil => rfl
  | cons c rest => exact not_of_isBlank hp (h c rfl)

theorem not_identifierPart (h : BeginsBlank rest) : rest.head?.any isIdentifierPart = false :=
  h.head?_any (by decide +kernel)

/-- No word starts, as a character that starts a word could go on with one. -/
theorem not_identifierStart (h : BeginsBlank rest) : rest.head?.any isIdentifierStart = false := by
  have hpart := h.not_identifierPart
  cases rest with
  | nil => rfl
  | cons c rest =>
    have hc : isIdentifierPart c = false := hpart
    simp only [isIdentifierPart, Bool.or_eq_false_iff] at hc
    exact hc.1.1

/-- A number does not go on: a blank is no digit, no point and no letter of an exponent. -/
theorem endsNumber (h : BeginsBlank rest) : Lexer.EndsNumber rest := by
  cases rest with
  | nil => exact .nil
  | cons c rest =>
    have hc := mem_blanks (h c rfl)
    refine .cons (not_of_isBlank (by decide) (h c rfl)) ?_ ?_
    · rintro rfl
      exact absurd hc (by decide)
    · rintro (rfl | rfl) <;> exact absurd hc (by decide)

end BeginsBlank

namespace Lexer

variable {token : Token} {text rest other : List Char}

/-- A symbol does not become a longer one. All symbols are looked at, each with the few characters
that would lengthen it. -/
theorem symbolAt?_before_blank {cs : List Char} {count : Nat} (h : symbolAt? cs = some (token, count))
    (hother : BeginsBlank other) : symbolAt? (cs.take count ++ other) = some (token, count) := by
  -- the character behind the symbol is none of a longer one
  have hlonger : ∀ d more, other = d :: more → d ∉ ['=', '>', '<', '*', '&', '|', '?'] := by
    rintro d more rfl hd
    have hnone : ['=', '>', '<', '*', '&', '|', '?'].any isBlank = false := by decide
    exact absurd (hother d rfl) (List.any_eq_false.mp hnone d hd)
  unfold symbolAt? at h
  split at h
  case h_15 => split at h <;> cases h <;> cases other <;> first | rfl | simp_all [symbolAt?]
  all_goals cases h <;> cases other <;> first | rfl | simp_all [symbolAt?]

/-- A point that started no number does not start one now, for the digit it needs would have to be
the blank. -/
theorem startsNumber_before_blank {c : Char} {cs : List Char}
    (h : startsNumber (c :: (cs ++ rest)) = false) (hother : BeginsBlank other) :
    startsNumber (c :: (cs ++ other)) = false := by
  by_cases hpoint : c = '.'
  · subst hpoint
    cases cs with
    | cons d cs => exact h
    | nil =>
      cases other with
      | nil => rfl
      | cons d other =>
        have hdigit : isAsciiDigit d = false := not_of_isBlank (by decide) (hother d rfl)
        exact hdigit
  · rw [startsNumber_cons hpoint] at h ⊢
    exact h

/-- **A token stays the same in front of a blank.** A string is closed before it, and the other
three kinds of token end where one stands. -/
theorem Front.before_blank (h : Front token text rest) (hother : BeginsBlank other) :
    Front token text other := by
  cases h with
  | string hquote h => exact .string hquote (scanString_other h other)
  | number htext =>
    exact .number htext (spanNumber_text htext hother.endsNumber) hother.not_identifierStart
  | word hword => exact .word hword hother.not_identifierPart
  | @symbol _ c cs _ hblank hquote hnumber hword h =>
    have hsymbol := symbolAt?_before_blank h hother
    rw [← List.cons_append, List.take_left] at hsymbol
    exact .symbol hblank hquote (startsNumber_before_blank hnumber hother) hword hsymbol

end Lexer

/-! ## Sources with other blanks

A respaced source is given by the texts of the old tokens and by new gaps. Where two tokens would
run together without a blank, an empty gap could make one of them; that is why no gap in between may
be empty. -/

/-- The texts of the tokens of a source. -/
def tokenTexts (source : String) : List String :=
  (Lexed.ofSource source).lexemes.map fun lexeme =>
    String.ofList (slice source.toList lexeme.start lexeme.stop)

/-- The text is blank. -/
def Blank (text : String) : Prop := ∀ c ∈ text.toList, isBlank c = true

instance : DecidablePred Blank :=
  fun text => decidable_of_iff (text.toList.all isBlank = true) List.all_eq_true

/-- The other source has the same token texts in the same order, with blanks around them: any number
in front of the first and behind the last, and at least one between two. -/
inductive Respaced (source : String) : String → Prop where
  | intro {lead : String} {pieces : List (String × String)}
      (htexts : pieces.map Prod.fst = tokenTexts source) (hlead : Blank lead)
      (hgaps : ∀ piece ∈ pieces, Blank piece.2) (hbetween : ∀ piece ∈ pieces.dropLast, piece.2 ≠ "") :
      Respaced source (lead ++ String.join (pieces.map fun piece => piece.1 ++ piece.2))

/-- Token texts with blanks behind each are scanned as those tokens. Induction on the tokens: behind
the text of the first one stands its gap, and where that is empty there is nothing more, so
`Front.before_blank` applies in either case. -/
theorem lexes_join {text : Lexeme → List Char} {lexemes : List Lexeme}
    {pieces : List (String × String)}
    (hfronts : ∀ lexeme ∈ lexemes, ∃ rest, Lexer.Front lexeme.token (text lexeme) rest)
    (htexts : pieces.map Prod.fst = lexemes.map fun lexeme => String.ofList (text lexeme))
    (hgaps : ∀ piece ∈ pieces, Blank piece.2) (hbetween : ∀ piece ∈ pieces.dropLast, piece.2 ≠ "") :
    Lexes (String.join (pieces.map fun piece => piece.1 ++ piece.2)).toList
      (lexemes.map Lexeme.token) := by
  induction lexemes generalizing pieces with
  | nil =>
    obtain rfl : pieces = [] := List.map_eq_nil_iff.mp htexts
    exact .nil
  | cons lexeme lexemes ih =>
    obtain ⟨piece, pieces, rfl, hpiece, htexts⟩ := List.map_eq_cons_iff.mp htexts
    obtain ⟨⟨rest, hfront⟩, hfronts⟩ := List.forall_mem_cons.mp hfronts
    obtain ⟨hgap, hgaps⟩ := List.forall_mem_cons.mp hgaps
    have hlater : ∀ other ∈ pieces.dropLast, other.2 ≠ "" := by
      intro other hmem
      refine hbetween other ?_
      rw [List.dropLast_cons_of_ne_nil (by rintro rfl; cases hmem)]
      exact List.mem_cons_of_mem piece hmem
    -- behind the text stands its gap, which is empty at the end only
    have hblank : BeginsBlank (piece.2.toList ++
        (String.join (pieces.map fun piece => piece.1 ++ piece.2)).toList) := by
      refine .append hgap fun hempty => ?_
      cases pieces with
      | nil => rfl
      | cons next pieces =>
        have hne := hbetween piece (by simp)
        exact absurd (String.toList_eq_nil_iff.mp hempty) hne
    rw [List.map_cons, String.join_cons, String.toList_append, String.toList_append,
      List.append_assoc, hpiece, String.toList_ofList]
    exact .front (hfront.before_blank hblank) ((ih hfronts htexts hgaps hlater).blanks hgap)

/-- **With other blanks a source is scanned as the same tokens.** Each token text is cut out of the
old source, where it is the front of what is left there, and in the new source a gap or the end
stands behind it. -/
theorem Respaced.lexes {source other : String} (h : Respaced source other) :
    Lexes other.toList (Lexed.ofSource source).tokens := by
  cases h with
  | intro htexts hlead hgaps hbetween =>
    rw [String.toList_append]
    refine (lexes_join ?_ htexts hgaps hbetween).blanks hlead
    intro lexeme hmem
    obtain ⟨before, text, after, hsource, hstart, hstop, hfront⟩ :=
      (Lexed.scanned_ofSource source).exists_front rfl lexeme hmem
    rw [hsource, hstart, hstop, slice_append]
    exact ⟨after, hfront⟩

/-! ## Readings of the same tokens

Rules look at tokens and write positions down, so with the same tokens they go the same way. What is
left to say is that an error at the same token is the same one, with another position in it. -/

/-- The error without the position that it is about. -/
def SyntaxError.unplaced : SyntaxError → SyntaxError
  | unexpectedToken token _ => unexpectedToken token 0
  | unexpectedCharacter character _ => unexpectedCharacter character 0
  | unexpectedEnd _ => unexpectedEnd 0
  | expectedToken expected _ => expectedToken expected 0
  | invalidLiteral kind text _ => invalidLiteral kind text 0
  | invalidEscape escape _ => invalidEscape escape 0
  | unclosedString _ => unclosedString 0
  | emptyExpression => emptyExpression
  | multipleStatements _ => multipleStatements 0
  | unsupported construct _ => unsupported construct 0
  | nestingTooDeep limit _ => nestingTooDeep limit 0

/-- The errors say the same about places that may differ. -/
def SyntaxError.SameKind (e e' : SyntaxError) : Prop := e.unplaced = e'.unplaced

namespace Parser

/-- What is found wrong at a place is the same error wherever the place is. -/
theorem Raised.sameKind {c : Cursor} {error : Nat → SyntaxError} (h : Raised c error)
    (position other : Nat) : (error position).SameKind (error other) := by
  cases h <;> rfl

/-- Both places stand in front of the same tokens, and behind these their sources end. -/
def SameTokens (c d : Cursor) : Prop := ∃ ts, c.At ts ∧ d.At ts

/-- **Places in front of the same tokens are read alike.** Behind the first token of both the same
tokens are left. -/
theorem parallel_sameTokens : Parallel SameTokens SyntaxError.SameKind where
  token?_eq := by
    rintro c d ⟨ts, hc, hd⟩
    rw [hc.token?_eq, hd.token?_eq]
  advance := by
    rintro c d token ⟨ts, hc, hd⟩ htoken hother
    cases ts with
    -- where no token is left there is none to take
    | nil => cases hc.token?_eq.symm.trans htoken
    | cons first ts =>
      have hadvance : Accepts True (c.advance htoken) _ := hc.advance htoken
      have hadvance' : Accepts True (d.advance hother) _ := hd.advance hother
      obtain ⟨taken, htaken, hnext⟩ := hadvance.exists_value
      obtain ⟨taken', htaken', hnext'⟩ := hadvance'.exists_value
      rw [htaken, htaken']
      exact .ok ⟨ts, hnext, hnext'⟩
  raised _ hraised := hraised.sameKind _ _

end Parser

/-- **Blanks between tokens do not matter**, as long as there is one: with other blanks the tokens
of a source are the same, and so is what is parsed, but for the sources of constructs without a
value and the positions of errors. The first half is about the scanner (`Respaced.lexes`), the
second about rules at places with the same tokens (`parallel_sameTokens`). -/
theorem spacing_insignificant {source other : String} (hcomplete : (Lexed.ofSource source).Complete)
    (hother : Respaced source other) :
    (Lexed.ofSource other).Complete ∧
      (Lexed.ofSource other).tokens = (Lexed.ofSource source).tokens ∧
      Alike SyntaxError.SameKind (fun expr expr' => expr.shape = expr'.shape) (Expr.parse source)
        (Expr.parse other) := by
  obtain ⟨htokens, hother⟩ := hother.lexes 0
  obtain ⟨c, hc, hat⟩ := Parser.exists_start hcomplete
  obtain ⟨d, hd, hat'⟩ := Parser.exists_start hother
  refine ⟨hother, htokens, ?_⟩
  unfold Expr.parse
  rw [hc, hd]
  exact Parser.program_alike Parser.parallel_sameTokens ⟨_, hat, htokens ▸ hat'⟩

/-- A minus sign in front of a number, a point behind one, and blanks of two and three bytes. -/
theorem spacing_insignificant_sum :
    (Lexed.ofSource "a-1 .b").Complete ∧ Respaced "a-1 .b" "\u2003a\t- 1\u00a0\n. b" ∧
      (Lexed.ofSource "\u2003a\t- 1\u00a0\n. b").tokens = (Lexed.ofSource "a-1 .b").tokens ∧
      Alike SyntaxError.SameKind (fun expr expr' => expr.shape = expr'.shape) (Expr.parse "a-1 .b")
        (Expr.parse "\u2003a\t- 1\u00a0\n. b") := by
  have hcomplete : (Lexed.ofSource "a-1 .b").Complete := ⟨6, by decide +kernel⟩
  have hrespaced : Respaced "a-1 .b" "\u2003a\t- 1\u00a0\n. b" := by
    have htexts : [("a", "\t"), ("-", " "), ("1", "\u00a0\n"), (".", " "), ("b", "")].map Prod.fst =
        tokenTexts "a-1 .b" := by
      decide +kernel
    have hlead : Blank "\u2003" := by decide
    refine Respaced.intro htexts hlead ?_ ?_
    · simp only [List.forall_mem_cons]
      decide
    · simp
  obtain ⟨_, htokens, hparse⟩ := spacing_insignificant hcomplete hrespaced
  exact ⟨hcomplete, hrespaced, htokens, hparse⟩

end Stencil
