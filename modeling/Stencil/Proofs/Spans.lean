import Stencil.Proofs.Composition
import Stencil.Proofs.Relexing

/-!
# What tokens leave of their source

Nothing of a source is lost on the way to its tokens. Each of them can be cut out of the source
where it says that it stands, and what is left over is blank.

* **`Holds`** — a text stands in a source between two positions, which are then positions between
  characters.
* **`Lexed.Scanned`** — all that a walk over a source can do: it ends, it is refused, or it reads a
  token and goes on. `Scanned.along` is the induction that later facts about positions follow.
* **`Token.Stands`** — how a token is written, for strings with the quotes that its own text leaves
  out.
* **`Lexed.Lossless`** — tokens are held in order, with blanks between them.
* **`Lexer.scanBytes_eq`** — the end of a string is found byte by byte as well, although a step over
  a backslash can end inside a character. What is left of one has no byte of a quote or a line
  break.
* **`source_lossless`** — the two together.
-/

namespace Stencil

open Text

/-! ## Parts of a source

Positions are bytes, and the walk goes over characters. A text with what stands before it and behind
it ties the two together: the positions are the byte lengths of what is in front, so they never fall
inside a character. -/

/-- The source holds the text from byte `start` up to byte `stop`. -/
def Holds (source : String) (start stop : Nat) (text : String) : Prop :=
  ∃ before after, source = before ++ text ++ after ∧ start = before.utf8ByteSize ∧
    stop = (before ++ text).utf8ByteSize

namespace Holds

variable {source text : String} {start stop : Nat}

/-- A list of characters in three parts holds the middle one. -/
theorem of_toList {before text after : List Char} (h : source.toList = before ++ (text ++ after)) :
    Holds source (byteLength before) (byteLength before + byteLength text) (String.ofList text) := by
  refine ⟨String.ofList before, String.ofList after, ?_, ?_, ?_⟩
  · rw [← String.toList_inj]
    simp [h]
  · rw [utf8ByteSize_eq_byteLength, String.toList_ofList]
  · simp [utf8ByteSize_eq_byteLength]

/-- Where a part starts, a character starts or the source ends. -/
theorem isValid_start (h : Holds source start stop text) :
    String.Pos.Raw.IsValid source ⟨start⟩ := by
  obtain ⟨before, after, rfl, rfl, _⟩ := h
  rw [String.append_assoc]
  exact String.Pos.Raw.isValid_iff_exists_append.mpr ⟨before, text ++ after, rfl, rfl⟩

theorem isValid_stop (h : Holds source start stop text) : String.Pos.Raw.IsValid source ⟨stop⟩ := by
  obtain ⟨before, after, rfl, _, rfl⟩ := h
  exact String.Pos.Raw.isValid_iff_exists_append.mpr ⟨before ++ text, after, rfl, rfl⟩

end Holds

/-! ## Strings

A backslash takes the character behind it along, whatever it is. So quotes and line breaks in a
string are those with an odd number of backslashes right in front of them, and its closing quote has
an even number. -/

/-- What can stand between two such quotes: any of them in it, and any line break, is taken along by
a backslash, and so is every backslash at its end. -/
structure Quotable (quote : Char) (raw : List Char) : Prop where
  escaped : ∀ before c after, raw = before ++ c :: after → c = quote ∨ c = '\n' →
    trailingBackslashes before % 2 = 1
  closed : trailingBackslashes raw % 2 = 0

namespace Quotable

variable {quote c : Char} {raw : List Char}

theorem nil (quote : Char) : Quotable quote [] where
  escaped before c after h := by simp at h
  closed := rfl

/-- A backslash takes any character along. In front of that character stands one backslash, and
further in the pair does not change any count. -/
theorem pair (hquote : quote ≠ '\\') (h : Quotable quote raw) (c : Char) :
    Quotable quote ('\\' :: c :: raw) where
  escaped before d after heq hd := by
    match before with
    | [] =>
      obtain ⟨rfl, -⟩ := List.cons.inj heq
      rcases hd with rfl | hd
      · exact absurd rfl hquote
      · exact absurd hd (by decide)
    | [b] =>
      obtain ⟨rfl, -⟩ := List.cons.inj heq
      rfl
    | a :: b :: before =>
      obtain ⟨rfl, htail⟩ := List.cons.inj heq
      obtain ⟨rfl, hraw⟩ := List.cons.inj htail
      rw [trailingBackslashes_pair]
      exact h.escaped before d after hraw hd
  closed := by
    rw [trailingBackslashes_pair]
    exact h.closed

/-- A character that ends no string and takes none along may stand in one. -/
theorem plain (hbackslash : c ≠ '\\') (hline : c ≠ '\n') (hquote : c ≠ quote)
    (h : Quotable quote raw) : Quotable quote (c :: raw) where
  escaped before d after heq hd := by
    cases before with
    | nil =>
      obtain ⟨rfl, -⟩ := List.cons.inj heq
      exact absurd hd (by simp [hquote, hline])
    | cons b before =>
      obtain ⟨rfl, hraw⟩ := List.cons.inj heq
      rw [trailingBackslashes_plain hbackslash]
      exact h.escaped before d after hraw hd
  closed := by
    rw [trailingBackslashes_plain hbackslash]
    exact h.closed

end Quotable

namespace Lexer

/-- What a scanned string leaves behind its opening quote. Induction on the scanner. -/
theorem quotable_scanString {quote : Char} {cs raw rest : List Char} (hquote : quote ≠ '\\')
    (h : scanString quote cs = some (raw, rest)) : Quotable quote raw := by
  fun_induction scanString quote cs generalizing raw with
  | case1 => cases h
  | case2 => cases h
  | case3 c cs ih =>
    obtain ⟨⟨raw', _⟩, hfound, hsame⟩ := Option.map_eq_some_iff.mp h
    cases hsame
    exact (ih hfound).pair hquote c
  | case4 => cases h
  | case5 =>
    cases h
    exact .nil quote
  | case6 c cs hlast hescape hline hclose ih =>
    obtain ⟨⟨raw', _⟩, hfound, hsame⟩ := Option.map_eq_some_iff.mp h
    cases hsame
    exact (ih hfound).plain (ne_backslash hlast hescape) hline hclose

end Lexer

/-! ## Tokens

A token other than a string is written as it is shown. A string keeps its raw text without the
quotes, and which of the two quotes it had cannot be told from it. -/

namespace Token

/-- The text is how the token stands in a source. -/
def Stands : Token → String → Prop
  | string raw, text => ∃ quote, (quote = '"' ∨ quote = '\'') ∧
      text = String.singleton quote ++ raw ++ String.singleton quote ∧ Quotable quote raw.toList
  | token, text => text = token.display

/-- As it is shown a token stands in a source, unless it is a string. -/
theorem Stands.of_display {token : Token} (h : ∀ raw, token ≠ string raw) :
    token.Stands token.display := by
  cases token with
  | string raw => exact absurd rfl (h raw)
  | _ => rfl

/-- No word is a string. -/
theorem ofWord_ne_string (word raw : String) : ofWord word ≠ string raw := by
  unfold ofWord
  split_ifs
  · simp
  · simp
  · simp
  · split <;> simp

end Token

namespace Lexer

variable {token : Token} {text rest : List Char}

/-- A symbol is shown as the characters that it takes. All symbols are looked at. -/
theorem symbolAt?_display {cs : List Char} {count : Nat} (h : symbolAt? cs = some (token, count)) :
    token.display = String.ofList (cs.take count) ∧ ∀ raw, token ≠ .string raw := by
  unfold symbolAt? at h
  split at h
  case h_15 => split at h <;> cases h <;> exact ⟨rfl, by simp⟩
  all_goals cases h <;> exact ⟨rfl, by simp⟩

/-- What is read at the front of some characters is a token as it is written. -/
theorem Front.stands (h : Front token text rest) : token.Stands (String.ofList text) := by
  cases h with
  | @string quote raw rest hquote h =>
    have hbackslash : quote ≠ '\\' := by
      rcases hquote with rfl | rfl <;> decide
    refine ⟨quote, hquote, ?_, ?_⟩
    · rw [← String.toList_inj]
      simp
    · rw [String.toList_ofList]
      exact quotable_scanString hbackslash h
  | number => rfl
  | word =>
    have hword := Token.Stands.of_display (Token.ofWord_ne_string (String.ofList text))
    rwa [Token.display_ofWord] at hword
  | @symbol _ c cs _ _ _ _ _ h =>
    obtain ⟨hdisplay, hstring⟩ := symbolAt?_display h
    rw [← List.cons_append, List.take_left] at hdisplay
    rw [← hdisplay]
    exact .of_display hstring

end Lexer

/-! ## Walks

A walk over a source reads tokens, with blanks between them, until the source ends or until it comes
to characters that are no token. What is said here of the second kind of ending is the counterpart
of `Lexer.Front`, and it is exact: a step refuses characters if and only if they are of one of three
shapes. -/

namespace Lexer

/-- The characters, which start at byte `start` of a source, are refused with the error. The shapes
exclude one another, and each excludes that a token stands there. -/
inductive Refused (start : Nat) : List Char → SyntaxError → Prop where
  /-- A quote that no other one closes. -/
  | string {quote : Char} {cs : List Char} (hquote : quote = '"' ∨ quote = '\'')
      (h : scanString quote cs = none) : Refused start (quote :: cs) (.unclosedString start)
  /-- A whole number with a word right behind it. The error reports both, up to the end of the word.
  -/
  | number {text word rest : List Char} (htext : NumberText text)
      (hspan : spanNumber (text ++ (word ++ rest)) = (text, word ++ rest))
      (hstart : word.head?.any isIdentifierStart = true)
      (hparts : ∀ c ∈ word, isIdentifierPart c = true)
      (hrest : rest.head?.any isIdentifierPart = false) :
      Refused start (text ++ (word ++ rest))
        (.invalidLiteral "number" (String.ofList (text ++ word)) start)
  /-- A character that starts no token and is no blank. -/
  | character {c : Char} {cs : List Char} (hblank : isBlank c = false)
      (hquote : ¬(c = '"' ∨ c = '\'')) (hnumber : startsNumber (c :: cs) = false)
      (hword : isIdentifierStart c = false) (h : symbolAt? (c :: cs) = none) :
      Refused start (c :: cs) (.unexpectedCharacter c start)

variable {cs : List Char} {start : Nat} {error : SyntaxError}

theorem Refused.not_blank (h : Refused start cs error) : cs.head?.any isBlank = false := by
  cases h with
  | string hquote => rcases hquote with rfl | rfl <;> rfl
  | character hblank => exact hblank
  | number htext => exact htext.not_blank _

/-- A step that has come to the end has no characters left. -/
theorem eq_nil_of_step (h : step cs start = .finished) : cs = [] := by
  cases cs with
  | nil => rfl
  | cons c cs =>
    unfold step at h
    dsimp only at h
    split at h
    · split at h <;> cases h
    · split at h
      · split at h <;> cases h
      · split at h
        · cases h
        · split at h <;> cases h

/-- **Characters that a step refuses have one of the shapes.** The cases are those of the step:
strings, numbers, words and symbols, in the order in which it looks for them. For a number the error
names the characters up to the end of the word behind it, so that word has to be cut off the rest.
-/
theorem refused_of_step (hblank : cs.head?.any isBlank = false) (h : step cs start = .failed error) :
    Refused start cs error := by
  unfold step at h
  split at h
  · cases h
  · rename_i c cs
    split at h
    · rename_i hquote
      split at h
      · rename_i hnone
        cases h
        exact .string hquote hnone
      · cases h
    · rename_i hquote
      split at h
      · rename_i hnumber
        dsimp only at h
        split at h
        · rename_i hstart
          cases h
          -- the number goes on with the start of a word, and that is part of it
          have happend := spanNumber_append (c :: cs)
          have hnumber := numberText_spanNumber hnumber
          have hspan : spanNumber (c :: cs) =
              ((spanNumber (c :: cs)).1, (spanNumber (c :: cs)).2) := rfl
          generalize (spanNumber (c :: cs)).1 = text at happend hnumber hspan ⊢
          generalize (spanNumber (c :: cs)).2 = rest at happend hspan hstart ⊢
          have hword : (rest.takeWhile isIdentifierPart).head?.any isIdentifierStart = true := by
            cases rest with
            | nil => cases hstart
            | cons d rest =>
              have hd : isIdentifierStart d = true := hstart
              have hpart : isIdentifierPart d = true := by simp [isIdentifierPart, hd]
              rw [List.takeWhile_cons_of_pos hpart]
              exact hd
          have hsplit := List.takeWhile_append_dropWhile (p := isIdentifierPart) (l := rest)
          have hrefused : Refused start
              (text ++ (rest.takeWhile isIdentifierPart ++ rest.dropWhile isIdentifierPart)) _ :=
            .number hnumber (by rw [hsplit, happend, hspan]) hword
              (List.all_eq_true.mp List.all_takeWhile) (any_head?_dropWhile isIdentifierPart rest)
          rwa [hsplit, happend] at hrefused
        · cases h
      · rename_i hnumber
        split at h
        · cases h
        · rename_i hword
          split at h
          · rename_i hsymbol
            cases h
            exact .character hblank hquote (Bool.not_eq_true _ ▸ hnumber) (Bool.not_eq_true _ ▸ hword)
              hsymbol
          · cases h

/-- **Characters of one of the shapes are refused by a step.** It asks for strings, numbers, words
and symbols in turn, and each shape says that the earlier ones are out of the question. With
`refused_of_step` the three shapes are exactly what a step refuses. -/
theorem Refused.step (h : Refused start cs error) : step cs start = .failed error := by
  cases h with
  | string hquote h =>
    unfold Lexer.step
    dsimp only
    rw [if_pos hquote]
    split
    · rfl
    · rename_i hsome
      cases h.symm.trans hsome
  | @number text word rest htext hspan hstart hparts hrest =>
    -- the number is scanned as before, and a word follows it
    have hnumber := startsNumber_text htext (word ++ rest)
    have hword : (word ++ rest).head?.any isIdentifierStart = true := by
      cases word with
      | nil => cases hstart
      | cons d word => exact hstart
    have htake := takeWhile_append_of_head? hparts hrest
    cases hcs : text ++ (word ++ rest) with
    | nil =>
      rw [hcs] at hnumber
      cases hnumber
    | cons c cs =>
      rw [hcs] at hnumber hspan
      have hquote : ¬(c = '"' ∨ c = '\'') := by
        rintro (rfl | rfl) <;> cases hnumber
      unfold Lexer.step
      dsimp only
      rw [if_neg hquote, dif_pos hnumber, if_pos (by rw [hspan]; exact hword), hspan, htake]
  | character _ hquote hnumber hword h =>
    unfold Lexer.step
    dsimp only
    rw [if_neg hquote, dif_neg (by simp [hnumber]), if_neg (by simp [hword])]
    split
    · rfl
    · rename_i hsome
      cases h.symm.trans hsome

end Lexer

namespace Lexed

/-- Behind blanks, a scan stops at characters that are refused. -/
theorem scan_refused {blanks cs : List Char} {error : SyntaxError} (offset : Nat)
    (hblanks : ∀ c ∈ blanks, isBlank c = true)
    (h : Lexer.Refused (offset + byteLength blanks) cs error) :
    scan (blanks ++ cs) offset = ⟨[], .failed error⟩ := by
  have hnot := h.not_blank
  rw [scan_eq, takeWhile_append_of_head? hblanks hnot, dropWhile_append_of_head? hblanks hnot,
    scanUnblank, h.step]

/-- What a walk over the characters, which start at byte `offset` of a source, can do. -/
inductive Scanned : (offset : Nat) → (cs : List Char) → Lexed → Prop where
  | finished {offset : Nat} {blanks : List Char} (hblanks : ∀ c ∈ blanks, isBlank c = true) :
      Scanned offset blanks ⟨[], .finished (offset + byteLength blanks)⟩
  | failed {offset : Nat} {blanks cs : List Char} {error : SyntaxError}
      (hblanks : ∀ c ∈ blanks, isBlank c = true)
      (h : Lexer.Refused (offset + byteLength blanks) cs error) :
      Scanned offset (blanks ++ cs) ⟨[], .failed error⟩
  | read {offset : Nat} {blanks text rest : List Char} {token : Token} {later : Lexed}
      (hblanks : ∀ c ∈ blanks, isBlank c = true) (hfront : Lexer.Front token text rest)
      (h : Scanned (offset + byteLength blanks + byteLength text) rest later) :
      Scanned offset (blanks ++ (text ++ rest))
        ⟨⟨token, offset + byteLength blanks, offset + byteLength blanks + byteLength text⟩ ::
          later.lexemes, later.ending⟩

/-- **A walk does nothing else.** Induction on the tokens that it reads: without one it ends behind
blanks or is refused there, and otherwise it has read the first one and goes on behind it. Later
facts on positions are inductions on `Scanned` and do not look at `scan` again. -/
theorem scanned (cs : List Char) (offset : Nat) : Scanned offset cs (scan cs offset) := by
  generalize hlexemes : (scan cs offset).lexemes = lexemes
  induction lexemes generalizing cs offset with
  -- no token is read: the walk ends here, one way or the other
  | nil =>
    have hblanks : ∀ c ∈ cs.takeWhile isBlank, isBlank c = true :=
      List.all_eq_true.mp List.all_takeWhile
    rw [scan_eq, scanUnblank] at hlexemes ⊢
    split at hlexemes <;> rename_i hstep
    · have hfinished : Scanned offset _ _ := .finished hblanks
      -- nothing is left behind the blanks
      have hall := List.takeWhile_append_dropWhile (p := isBlank) (l := cs)
      rw [Lexer.eq_nil_of_step hstep, List.append_nil] at hall
      rwa [hall] at hfinished ⊢
    · have hfailed := Scanned.failed hblanks
        (Lexer.refused_of_step (any_head?_dropWhile isBlank cs) hstep)
      rwa [List.takeWhile_append_dropWhile] at hfailed
    · cases hlexemes
  | cons lexeme lexemes ih =>
    obtain ⟨blanks, text, rest, rfl, hblanks, hfront, hstart, hstop, hlater⟩ :=
      exists_of_scan_cons hlexemes
    rw [scan_front offset hblanks hfront]
    rw [hstop, hstart] at hlater
    exact .read hblanks hfront (ih rest _ hlater.symm)

/-! ## Tokens and gaps

Where tokens stand and what is between them is said of positions, and each of these facts is an
induction along the walk with what is in front of each place in it. `along` is that induction, once.
-/

/-- The gaps before tokens that come behind byte `offset`, and behind the last one if all is read.
-/
def gapsFrom : Nat → List Lexeme → Ending → List (Nat × Nat)
  | offset, [], .finished position => [(offset, position)]
  | _, [], .failed _ => []
  | offset, lexeme :: lexemes, ending =>
    (offset, lexeme.start) :: gapsFrom lexeme.stop lexemes ending

/-- What the tokens of a source leave of it: from where to where. -/
def gaps (lexed : Lexed) : List (Nat × Nat) := gapsFrom 0 lexed.lexemes lexed.ending

/-- The tokens stand in the source, and but for blanks nothing else does. Together the fields
rebuild the source: every token is held, every gap is held, and one begins where the other ends. -/
structure Lossless (source : String) (lexed : Lexed) : Prop where
  /-- A token is not empty and stands where it says. -/
  held : ∀ lexeme ∈ lexed.lexemes, lexeme.start < lexeme.stop ∧
    ∃ text, Holds source lexeme.start lexeme.stop text ∧ lexeme.token.Stands text
  /-- It can be cut out there. -/
  boundaries : ∀ lexeme ∈ lexed.lexemes, lexeme.stop ≤ source.utf8ByteSize ∧
    String.Pos.Raw.IsValid source ⟨lexeme.start⟩ ∧ String.Pos.Raw.IsValid source ⟨lexeme.stop⟩
  /-- Tokens come one after the other. -/
  ordered : lexed.lexemes.Pairwise fun first second => first.stop ≤ second.start
  /-- What is between them is blank. -/
  blanks : ∀ gap ∈ lexed.gaps, ∃ blanks, Holds source gap.1 gap.2 blanks ∧
    ∀ c ∈ blanks.toList, isBlank c = true
  /-- If all is read, the last gap reaches up to the end. -/
  finished : ∀ position, lexed.ending = .finished position → position = source.utf8ByteSize

namespace Scanned

variable {offset : Nat} {cs front : List Char} {lexed : Lexed} {source : String}

/-- Tokens stand behind the place where the walk starts. -/
theorem offset_le (h : Scanned offset cs lexed) :
    ∀ lexeme ∈ lexed.lexemes, offset ≤ lexeme.start := by
  induction h with
  | finished => simp
  | failed => simp
  | read _ _ _ ih =>
    refine List.forall_mem_cons.mpr ⟨Nat.le_add_right _ _, fun lexeme hmem => ?_⟩
    have hle := ih lexeme hmem
    omega

/-- They come one after the other. -/
theorem ordered (h : Scanned offset cs lexed) :
    lexed.lexemes.Pairwise fun first second => first.stop ≤ second.start := by
  induction h with
  | finished => exact .nil
  | failed => exact .nil
  | read _ _ h ih => exact .cons h.offset_le ih

/-- **Along a source.** The induction of a walk, with what is in front of each place in it:
positions are byte lengths of that. -/
@[elab_as_elim]
theorem along {motive : List Char → Lexed → Prop} (h : Scanned (byteLength front) cs lexed)
    (hsource : source.toList = front ++ cs)
    (finished : ∀ {front blanks}, source.toList = front ++ blanks →
      (∀ c ∈ blanks, isBlank c = true) →
      motive front ⟨[], .finished (byteLength front + byteLength blanks)⟩)
    (failed : ∀ {front blanks cs error}, source.toList = front ++ (blanks ++ cs) →
      (∀ c ∈ blanks, isBlank c = true) → Lexer.Refused (byteLength (front ++ blanks)) cs error →
      motive front ⟨[], .failed error⟩)
    (read : ∀ {front blanks text rest token later},
      source.toList = front ++ (blanks ++ (text ++ rest)) → (∀ c ∈ blanks, isBlank c = true) →
      Lexer.Front token text rest → motive (front ++ blanks ++ text) later →
      motive front ⟨⟨token, byteLength (front ++ blanks), byteLength (front ++ blanks ++ text)⟩ ::
        later.lexemes, later.ending⟩) :
    motive front lexed := by
  -- the offset of the walk is a byte length only at its start, so it is made one again at each step
  generalize hoffset : byteLength front = offset at h
  induction h generalizing front with
  | finished hblanks =>
    subst hoffset
    exact finished hsource hblanks
  | failed hblanks hrefused =>
    subst hoffset
    rw [← byteLength_append] at hrefused
    exact failed hsource hblanks hrefused
  | @read _ blanks text rest _ _ hblanks hfront _ ih =>
    subst hoffset
    have hlater := @ih (front ++ blanks ++ text) (by simp [hsource]) (by simp [Nat.add_assoc])
    have hread := read hsource hblanks hfront hlater
    rwa [byteLength_append (front ++ blanks), byteLength_append front] at hread

/-- Where a token of a source stands. -/
theorem exists_front (h : Scanned (byteLength front) cs lexed) (hsource : source.toList = front ++ cs) :
    ∀ lexeme ∈ lexed.lexemes, ∃ before text after, source.toList = before ++ (text ++ after) ∧
      lexeme.start = byteLength before ∧ lexeme.stop = byteLength before + byteLength text ∧
      Lexer.Front lexeme.token text after := by
  refine h.along hsource ?finished ?failed ?read
  case finished => simp
  case failed => simp
  case read =>
    intro front blanks text rest token later hsource _ hfront ih
    refine List.forall_mem_cons.mpr ⟨⟨front ++ blanks, text, rest, ?_, rfl, ?_, hfront⟩, ih⟩
    · rw [hsource, List.append_assoc]
    · exact byteLength_append _ _

/-- What stands between them is blank: in front of the first, between two, and behind the last if
the walk came to the end. -/
theorem blank_gaps (h : Scanned (byteLength front) cs lexed) (hsource : source.toList = front ++ cs) :
    ∀ gap ∈ gapsFrom (byteLength front) lexed.lexemes lexed.ending,
      ∃ blanks, Holds source gap.1 gap.2 blanks ∧ ∀ c ∈ blanks.toList, isBlank c = true := by
  refine h.along hsource ?finished ?failed ?read
  case finished =>
    intro front blanks hsource hblanks
    have hall : source.toList = front ++ (blanks ++ []) := by
      rw [hsource, List.append_nil]
    refine List.forall_mem_cons.mpr ⟨⟨_, .of_toList hall, ?_⟩, by simp⟩
    rwa [String.toList_ofList]
  case failed => simp [gapsFrom]
  case read =>
    intro front blanks text rest token later hsource hblanks _ ih
    refine List.forall_mem_cons.mpr ⟨⟨String.ofList blanks, ?_, ?_⟩, ih⟩
    · rw [byteLength_append]
      exact .of_toList hsource
    · rwa [String.toList_ofList]

/-- A walk that is not refused comes to the end of the source. -/
theorem finished_eq (h : Scanned offset cs lexed) {position : Nat}
    (hend : lexed.ending = .finished position) : position = offset + byteLength cs := by
  induction h with
  | finished =>
    cases hend
    rfl
  | failed => cases hend
  | read _ _ _ ih =>
    rw [ih hend]
    simp only [byteLength_append]
    omega

end Scanned

theorem scanned_ofSource (source : String) :
    Scanned (byteLength []) source.toList (ofSource source) :=
  scanned source.toList 0

/-- **Every source is held by its tokens and gaps**, whether it is accepted or not. Each field is
one fact on the walk; that a token is not empty follows from its first character. -/
theorem lossless_ofSource (source : String) : Lossless source (ofSource source) where
  held lexeme hmem := by
    obtain ⟨before, text, after, hsource, hstart, hstop, hfront⟩ :=
      (scanned_ofSource source).exists_front rfl lexeme hmem
    rw [hstart, hstop]
    refine ⟨?_, _, .of_toList hsource, hfront.stands⟩
    obtain ⟨c, text, rfl⟩ := List.exists_cons_of_ne_nil hfront.ne_nil
    have hpos := c.utf8Size_pos
    rw [byteLength_cons]
    omega
  boundaries lexeme hmem := by
    obtain ⟨before, text, after, hsource, hstart, hstop, _⟩ :=
      (scanned_ofSource source).exists_front rfl lexeme hmem
    have hheld := Holds.of_toList hsource
    rw [hstart, hstop]
    exact ⟨hheld.isValid_stop.le_utf8ByteSize, hheld.isValid_start, hheld.isValid_stop⟩
  ordered := (scanned_ofSource source).ordered
  blanks := (scanned_ofSource source).blank_gaps rfl
  finished position hend := by
    rw [(scanned_ofSource source).finished_eq hend, utf8ByteSize_eq_byteLength]
    simp

end Lexed

/-! ## Bytes

Strings are ended by characters of one byte, and no byte of a longer character is one of theirs. So
a scanner that goes by bytes passes such a character byte by byte, and even a step over a backslash
that ends inside a character cannot hide a quote. -/

namespace Lexer

/-- An ASCII character is one byte, and no other character has a byte of one. -/
theorem utf8EncodeChar_cases (c : Char) :
    c.toNat < 128 ∧ String.utf8EncodeChar c = [c.toUInt8] ∨
      128 ≤ c.toNat ∧ ∀ byte ∈ String.utf8EncodeChar c, 128 ≤ byte.toNat := by
  have hcode : c.val.toNat = c.toNat := rfl
  by_cases h : c.toNat < 128
  · refine .inl ⟨h, ?_⟩
    rw [String.utf8EncodeChar, hcode, if_pos (by omega)]
    rfl
  · refine .inr ⟨by omega, ?_⟩
    rw [String.utf8EncodeChar, hcode, if_neg (by omega)]
    split_ifs <;> simp only [List.forall_mem_cons, UInt8.toNat_ofNat', List.not_mem_nil,
      false_implies, implies_true, and_true] <;> omega

theorem toNat_toUInt8 {c : Char} (h : c.toNat < 128) : c.toUInt8.toNat = c.toNat := by
  show c.toNat % 256 = c.toNat
  omega

/-- Two of them have different bytes. -/
theorem toUInt8_ne {c d : Char} (hc : c.toNat < 128) (hd : d.toNat < 128) (hne : c ≠ d) :
    c.toUInt8 ≠ d.toUInt8 := by
  intro heq
  have hcode := congrArg UInt8.toNat heq
  rw [toNat_toUInt8 hc, toNat_toUInt8 hd] at hcode
  exact hne (Char.toNat_inj.mp hcode)

section

variable {quote c : Char} {byte : UInt8} {bytes : List UInt8}

theorem scanBytes_line (quote : UInt8) (rest : List UInt8) :
    scanBytes quote ('\n'.toUInt8 :: rest) = none := by
  rw [scanBytes.eq_def]
  rfl

theorem scanBytes_backslash (quote byte : UInt8) (rest : List UInt8) :
    scanBytes quote ('\\'.toUInt8 :: byte :: rest) = (scanBytes quote rest).map (· + 2) := by
  rw [scanBytes.eq_def]
  rfl

theorem scanBytes_quote (hquote : quote = '"' ∨ quote = '\'') (rest : List UInt8) :
    scanBytes quote.toUInt8 (quote.toUInt8 :: rest) = some 0 := by
  rw [scanBytes.eq_def]
  rcases hquote with rfl | rfl <;> rfl

/-- Any other byte is passed. -/
theorem scanBytes_byte (hline : byte ≠ '\n'.toUInt8) (hbackslash : byte ≠ '\\'.toUInt8)
    (hquote : byte ≠ quote.toUInt8) (rest : List UInt8) :
    scanBytes quote.toUInt8 (byte :: rest) = (scanBytes quote.toUInt8 rest).map (· + 1) := by
  rw [scanBytes.eq_def]
  dsimp only
  rw [if_neg hline, if_neg hbackslash, if_neg hquote]

variable (hascii : quote.toNat < 128)
include hascii

/-- The bytes of other characters are passed one by one. -/
theorem scanBytes_high (hbytes : ∀ byte ∈ bytes, 128 ≤ byte.toNat) (rest : List UInt8) :
    scanBytes quote.toUInt8 (bytes ++ rest) =
      (scanBytes quote.toUInt8 rest).map (· + bytes.length) := by
  induction bytes with
  | nil => simp
  | cons byte bytes ih =>
    obtain ⟨hbyte, hbytes⟩ := List.forall_mem_cons.mp hbytes
    have hne : ∀ {d : Char}, d.toNat < 128 → byte ≠ d.toUInt8 := by
      rintro d hd rfl
      rw [toNat_toUInt8 hd] at hbyte
      omega
    rw [List.cons_append, scanBytes_byte (hne (by decide)) (hne (by decide)) (hne hascii), ih hbytes]
    simp [Option.map_map, Function.comp_def, Nat.add_assoc]

/-- A character that is none of the three is passed as a whole, whatever its length. -/
theorem scanBytes_plain (hbackslash : c ≠ '\\') (hline : c ≠ '\n') (hquote : c ≠ quote)
    (rest : List UInt8) :
    scanBytes quote.toUInt8 (String.utf8EncodeChar c ++ rest) =
      (scanBytes quote.toUInt8 rest).map (· + c.utf8Size) := by
  have hlength := String.length_utf8EncodeChar c
  rcases utf8EncodeChar_cases c with ⟨hc, hbytes⟩ | ⟨_, hbytes⟩
  · rw [hbytes] at hlength ⊢
    rw [← hlength]
    exact scanBytes_byte (toUInt8_ne hc (by decide) hline) (toUInt8_ne hc (by decide) hbackslash)
      (toUInt8_ne hc hascii hquote) rest
  · rw [scanBytes_high hascii hbytes, hlength]

/-- A backslash takes the first byte of the next character along, and the others are passed. They
are bytes of a longer character, so none of them is a quote, a backslash or a line break. -/
theorem scanBytes_escape (c : Char) (rest : List UInt8) :
    scanBytes quote.toUInt8 (String.utf8EncodeChar '\\' ++ (String.utf8EncodeChar c ++ rest)) =
      (scanBytes quote.toUInt8 rest).map (· + ('\\'.utf8Size + c.utf8Size)) := by
  have hlength := String.length_utf8EncodeChar c
  obtain ⟨byte, bytes, hcons, hbytes⟩ : ∃ byte bytes, String.utf8EncodeChar c = byte :: bytes ∧
      ∀ byte ∈ bytes, 128 ≤ byte.toNat := by
    rcases utf8EncodeChar_cases c with ⟨_, hbytes⟩ | ⟨_, hbytes⟩
    · exact ⟨_, [], hbytes, by simp⟩
    · cases hall : String.utf8EncodeChar c with
      | nil =>
        have hpos := c.utf8Size_pos
        simp [hall] at hlength
        omega
      | cons byte bytes =>
        rw [hall] at hbytes
        exact ⟨byte, bytes, rfl, fun b hmem => hbytes b (List.mem_cons_of_mem byte hmem)⟩
  rw [hcons] at hlength ⊢
  refine (scanBytes_backslash quote.toUInt8 byte (bytes ++ rest)).trans ?_
  rw [scanBytes_high hascii hbytes, ← hlength]
  cases scanBytes quote.toUInt8 rest with
  | none => rfl
  | some count =>
    have hone : '\\'.utf8Size = 1 := rfl
    simp only [Option.map_some, List.length_cons, hone]
    congr 1
    omega

end

/-- **Byte by byte the same quote closes a string.** Induction on the scanner for characters, one
step of which is as many steps for bytes as the character has bytes. An escaped character is the one
case in which the two do not step together. -/
theorem scanBytes_eq {quote : Char} (hquote : quote = '"' ∨ quote = '\'') (cs : List Char) :
    scanBytes quote.toUInt8 (cs.flatMap String.utf8EncodeChar) =
      (scanString quote cs).map fun parts => byteLength parts.1 := by
  have hascii : quote.toNat < 128 := by
    rcases hquote with rfl | rfl <;> decide
  -- what is passed adds its bytes to those of the rest, in the same way for each case
  have hcompose : ∀ found : Option (List Char × List Char), ∀ (front : List Char),
      (found.map fun parts => byteLength parts.1).map (· + byteLength front) =
        (found.map fun parts => (front ++ parts.1, parts.2)).map fun parts => byteLength parts.1 := by
    intro found front
    cases found with
    | none => rfl
    | some parts => simp [Nat.add_comm]
  fun_induction scanString quote cs with
  | case1 => rfl
  | case2 => rfl
  | case3 c cs ih =>
    rw [List.flatMap_cons, List.flatMap_cons, scanBytes_escape hascii, ih]
    exact hcompose _ ['\\', c]
  | case4 => exact scanBytes_line _ _
  | case5 cs hlast hescape hline =>
    have hbytes : String.utf8EncodeChar quote = [quote.toUInt8] := by
      rcases hquote with rfl | rfl <;> rfl
    rw [List.flatMap_cons, hbytes]
    exact scanBytes_quote hquote _
  | case6 c cs hlast hescape hline hclose ih =>
    rw [List.flatMap_cons, scanBytes_plain hascii (ne_backslash hlast hescape) hline hclose, ih]
    exact hcompose _ [c]

end Lexer

/-- **Nothing of a source is lost on the way to its tokens.** They are held where they say they
stand, in order and with blanks between them. Where a string among them closes does not depend on
whether it is read by characters or by bytes. -/
theorem source_lossless (source : String) :
    Lexed.Lossless source (Lexed.ofSource source) ∧
      ∀ quote ∈ ['"', '\''], ∀ cs : List Char,
        Lexer.scanBytes quote.toUInt8 (cs.flatMap String.utf8EncodeChar) =
          (Lexer.scanString quote cs).map fun parts => byteLength parts.1 := by
  refine ⟨Lexed.lossless_ofSource source, fun quote hquote => ?_⟩
  have hquote : quote = '"' ∨ quote = '\'' := by simpa using hquote
  exact Lexer.scanBytes_eq hquote

end Stencil
