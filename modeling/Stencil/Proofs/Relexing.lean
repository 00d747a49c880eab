import Stencil.Proofs.Lexing

/-!
# Tokens in other surroundings

A scanner looks past the token it reads, to see whether the token goes on. A closing parenthesis
never goes on with one. So a run of tokens can be cut out of its source and put into parentheses: it
is read as the same tokens there.

* **`Lexer.Cut`** — what follows a token, and what is left of it in front of the closing
  parenthesis.
* **`Lexer.Front.cut`** — the token at the front stays the same. One lemma for each scanner.
* **`Lexed.Run`** — some characters are a run of tokens; it is taken apart and put together token by
  token.
* **`exists_run`** — a part of the tokens of a source is the run of a part of its characters.
* **`Run.parenthesised`** — the tokens of a source that is a run in parentheses.
-/

namespace Stencil

open Text

namespace Lexer

/-! ## Cuts

Every scanner looks at most a few characters past what it takes: at the next digit behind a point,
at the next character behind a sign. `Cut` keeps what the first list starts with up to a place and
puts a closing parenthesis there, and that parenthesis is none of the characters a scanner looks
for. -/

/-- The second list starts as the first one does, and then it is cut and ends with a parenthesis. -/
inductive Cut : List Char → List Char → Prop where
  | close (rest : List Char) : Cut rest [')']
  | same (c : Char) {rest closed : List Char} (h : Cut rest closed) : Cut (c :: rest) (c :: closed)

namespace Cut

variable {rest closed : List Char}

theorem append (h : Cut rest closed) (cs : List Char) : Cut (cs ++ rest) (cs ++ closed) := by
  induction cs with
  | nil => exact h
  | cons c cs ih => exact .same c ih

/-- What the second list starts with, the first one starts with, unless it is the parenthesis.
Induction on those characters. -/
theorem exists_append {cs more : List Char} (h : Cut rest (cs ++ more)) (hcs : ')' ∉ cs) :
    ∃ more', rest = cs ++ more' := by
  induction cs generalizing rest with
  | nil => exact ⟨rest, rfl⟩
  | cons c cs ih =>
    rw [List.cons_append] at h
    generalize hall : cs ++ more = all at h
    cases h with
    | close => exact absurd List.mem_cons_self hcs
    | same _ h =>
      obtain ⟨more', rfl⟩ := ih (hall ▸ h) fun hmem => hcs (List.mem_cons_of_mem c hmem)
      exact ⟨more', rfl⟩

/-- A character that a parenthesis does not count as is not at the head of the second list if it is
not at the head of the first. -/
theorem any_head? {p : Char → Bool} (h : Cut rest closed) (hp : p ')' = false)
    (hrest : rest.head?.any p = false) : closed.head?.any p = false := by
  cases h with
  | close => exact hp
  | same => exact hrest

end Cut

/-! ## The scanners

One lemma for each of them, all with the same statement: what is read in front of the first list is
read in front of the second. Two arguments come back in each: digits are taken greedily, so none is
left in front of the cut; and what would be found behind the cut would be found in front of it as
well. -/

variable {rest closed : List Char}

/-- The step of the string scanner at a character that escapes nothing. -/
theorem scanString_cons {quote c : Char} {cs : List Char} (h : c ≠ '\\') :
    scanString quote (c :: cs) =
      if c = '\n' then none
      else if c = quote then some ([], cs)
      else (scanString quote cs).map fun (raw, rest) => (c :: raw, rest) := by
  rw [scanString]
  · rintro rfl
    exact absurd rfl h
  · rintro d rest rfl
    exact absurd rfl h

/-- A character that neither case for backslashes takes is none. -/
theorem ne_backslash {c : Char} {cs : List Char} (hlast : c = '\\' → cs = [] → False)
    (hescape : ∀ d ds, c = '\\' → cs = d :: ds → False) : c ≠ '\\' := by
  rintro rfl
  cases cs with
  | nil => exact hlast rfl rfl
  | cons d ds => exact hescape d ds rfl rfl

/-- **Up to its closing quote a string is read the same**, whatever stands behind it. Induction
along the scanner, one case for each of its branches; those without a string are gone at once, and
in the others the rest of the string is the hypothesis. -/
theorem scanString_other {quote : Char} {cs raw : List Char}
    (h : scanString quote cs = some (raw, rest)) (other : List Char) :
    scanString quote (raw ++ quote :: other) = some (raw, other) := by
  fun_induction scanString quote cs generalizing raw with
  | case1 => cases h
  | case2 => cases h
  | case3 c cs ih =>
    obtain ⟨⟨raw', _⟩, hfound, hsame⟩ := Option.map_eq_some_iff.mp h
    cases hsame
    show scanString quote ('\\' :: c :: (raw' ++ quote :: other)) = _
    rw [scanString, ih hfound]
    rfl
  | case4 => cases h
  -- the closing quote, with nothing of the string left
  | case5 cs hlast hescape hline =>
    cases h
    rw [List.nil_append, scanString_cons (ne_backslash hlast hescape), if_neg hline, if_pos rfl]
  | case6 c cs hlast hescape hline hquote ih =>
    obtain ⟨⟨raw', _⟩, hfound, hsame⟩ := Option.map_eq_some_iff.mp h
    cases hsame
    rw [List.cons_append, scanString_cons (ne_backslash hlast hescape), if_neg hline, if_neg hquote,
      ih hfound]
    rfl

theorem ne_close {p : Char → Bool} {c : Char} (hp : p ')' = false) (hc : p c = true) : c ≠ ')' := by
  rintro rfl
  cases hp.symm.trans hc

/-- **The fraction of a number in front of a cut.** With digits it ends where they do, and behind
the cut there is a parenthesis or what was there. Without one, a point in front of the cut has no
digit behind it, and there is none to be found behind the cut either. -/
theorem spanFraction_cut {fraction : List Char}
    (h : spanFraction (fraction ++ rest) = (fraction, rest)) (hcut : Cut rest closed) :
    spanFraction (fraction ++ closed) = (fraction, closed) := by
  have htext : FractionText fraction := by
    have htext := fractionText_spanFraction (fraction ++ rest)
    rwa [h] at htext
  cases htext with
  | @digits c cs hdigits =>
    -- all of the digits are taken, so no digit is left in front of the cut
    have hnot : rest.head?.any isAsciiDigit = false := by
      have hrest := any_head?_dropWhile isAsciiDigit (c :: (cs ++ rest))
      rw [List.cons_append, List.cons_append, spanFraction, if_pos (hdigits c List.mem_cons_self)] at h
      rwa [(Prod.mk.inj h).2] at hrest
    exact spanFraction_digits hdigits (hcut.any_head? rfl hnot)
  | none =>
    rw [List.nil_append] at h ⊢
    unfold spanFraction
    split
    · rename_i c more
      have hdigit : ¬isAsciiDigit c = true := by
        intro hdigit
        -- a fraction behind the cut would be one in front of it
        have hcs : ')' ∉ ['.', c] := by simp [(ne_close rfl hdigit).symm]
        have hcut' : Cut rest (['.', c] ++ more) := hcut
        obtain ⟨more', rfl⟩ := hcut'.exists_append hcs
        rw [List.cons_append, List.singleton_append, spanFraction, if_pos hdigit] at h
        cases h
      rw [if_neg hdigit]
    · rfl

/-- **The exponent of a number in front of a cut.** It needs one digit behind its letter and sign to
be one. If the cut list had one, `Cut.exists_append` would find the letter, the sign and that digit
in the other list as well. -/
theorem spanExponent_cut {exponent : List Char}
    (h : spanExponent (exponent ++ rest) = (exponent, rest)) (hcut : Cut rest closed) :
    spanExponent (exponent ++ closed) = (exponent, closed) := by
  have htext : ExponentText exponent := by
    have htext := exponentText_spanExponent (exponent ++ rest)
    rwa [h] at htext
  cases htext with
  | @digits letter c sign cs hletter hsign hdigits =>
    have hnot : rest.head?.any isAsciiDigit = false := by
      have hrest := any_head?_dropWhile isAsciiDigit (c :: (cs ++ rest))
      have hassoc : letter :: (sign ++ c :: cs) ++ rest = letter :: (sign ++ c :: (cs ++ rest)) := by
        simp
      rw [hassoc, spanExponent_letter hletter hsign (hdigits c List.mem_cons_self)] at h
      rwa [(Prod.mk.inj h).2] at hrest
    exact spanExponent_digits hletter hsign hdigits (hcut.any_head? rfl hnot)
  | none =>
    rw [List.nil_append] at h ⊢
    have htext := exponentText_spanExponent closed
    have happend := spanExponent_append closed
    generalize spanExponent closed = parts at htext happend ⊢
    obtain ⟨exponent, more⟩ := parts
    cases htext with
    | none => exact congrArg ([], ·) happend
    | @digits letter c sign cs hletter hsign hdigits =>
      -- the letter, the sign and one digit would stand in front of the cut as well
      have hdigit := hdigits c List.mem_cons_self
      have hcs : ')' ∉ letter :: (sign ++ [c]) := by
        rcases hletter with rfl | rfl <;> rcases hsign with rfl | rfl | rfl <;>
          simp [(ne_close rfl hdigit).symm]
      have hcut' : Cut rest (letter :: (sign ++ [c]) ++ (cs ++ more)) := by
        have hassoc : letter :: (sign ++ [c]) ++ (cs ++ more) =
            letter :: (sign ++ c :: cs) ++ more := by
          simp
        rwa [hassoc, happend]
      obtain ⟨more', rfl⟩ := hcut'.exists_append hcs
      rw [List.cons_append, List.append_assoc, List.singleton_append,
        spanExponent_letter hletter hsign hdigit] at h
      cases h

/-- **A number in front of a cut.** It is digits, a fraction and an exponent, and each part is cut
with the parts behind it as its rest: `hcut'` puts the exponent in front of the cut, and once more
the fraction. -/
theorem spanNumber_cut {text : List Char} (h : spanNumber (text ++ rest) = (text, rest))
    (hcut : Cut rest closed) : spanNumber (text ++ closed) = (text, closed) := by
  generalize text ++ rest = cs at h
  -- the parts of the number, and what is left behind each of them
  cases hfraction : spanFraction (cs.dropWhile isAsciiDigit) with | mk fraction later
  cases hexponent : spanExponent later with | mk exponent rest'
  have hparts : spanNumber cs = (cs.takeWhile isAsciiDigit ++ fraction ++ exponent, rest') := by
    rw [spanNumber, hfraction]
    dsimp only
    rw [hexponent]
  obtain ⟨rfl, rfl⟩ := Prod.mk.inj (h.symm.trans hparts)
  have hlater := spanExponent_append later
  rw [hexponent] at hlater
  subst hlater
  have hdrop := spanFraction_append (cs.dropWhile isAsciiDigit)
  rw [hfraction] at hdrop
  have hnot := any_head?_dropWhile isAsciiDigit cs
  rw [← hdrop] at hfraction hnot
  have hcut' := hcut.append exponent
  exact spanNumber_parts (digits_takeWhile cs) ((hcut'.append fraction).any_head? rfl hnot)
    (spanFraction_cut hfraction hcut') (spanExponent_cut hexponent hcut)

/-- Whether a point starts a number depends on the character behind it. -/
theorem startsNumber_cut (h : startsNumber rest = false) (hcut : Cut rest closed) :
    startsNumber closed = false := by
  cases hcut with
  | close => rfl
  | @same c rest closed hcut =>
    by_cases hpoint : c = '.'
    · subst hpoint
      cases hcut with
      | close => rfl
      | same => exact h
    · rw [startsNumber_cons hpoint] at h ⊢
      exact h

/-- The longest symbol at a place. One character behind it is looked at, to see whether a longer one
stands there, and the parenthesis lengthens none. -/
theorem symbolAt?_cut {token : Token} {cs : List Char} {count : Nat}
    (h : symbolAt? cs = some (token, count)) (hcut : Cut (cs.drop count) closed) :
    symbolAt? (cs.take count ++ closed) = some (token, count) := by
  -- a symbol looks at one character behind it, to see whether a longer one stands there
  unfold symbolAt? at h
  split at h
  case h_15 => split at h <;> cases h <;> cases hcut <;> first | rfl | simp_all [symbolAt?]
  all_goals cases h <;> cases hcut <;> first | rfl | simp_all [symbolAt?]

/-- **A token stays the same in front of a cut.** A string is closed before the cut, and the three
other kinds of token end where a character does not go on with them, which the parenthesis does not
either. -/
theorem Front.cut {token : Token} {text : List Char} (h : Front token text rest)
    (hcut : Cut rest closed) :
    Front token text closed := by
  cases h with
  | string hquote h => exact .string hquote (scanString_other h closed)
  | number htext hspan hrest =>
    exact .number htext (spanNumber_cut hspan hcut) (hcut.any_head? (by decide) hrest)
  | word hword hrest => exact .word hword (hcut.any_head? (by decide +kernel) hrest)
  | @symbol _ c cs _ hblank hquote hnumber hword h =>
    have hall := hcut.append (c :: cs)
    have hcut' : Cut ((c :: (cs ++ rest)).drop (c :: cs).length) closed := by
      rw [← List.cons_append, List.drop_left]
      exact hcut
    have hsymbol := symbolAt?_cut h hcut'
    rw [← List.cons_append, List.take_left] at hsymbol
    exact .symbol hblank hquote (startsNumber_cut hnumber hall) hword hsymbol

end Lexer

namespace Lexed

/-! ## Runs of tokens

A run is the scan of a source without its end: what is left of it is a parameter. So a run can be
taken out of one source, cut, and put into another one. -/

/-- The characters `body`, which start at byte `offset`, are the tokens and the blanks before each
of them, where `rest` stands behind them. -/
inductive Run : (offset : Nat) → (body : List Char) → List Lexeme → (rest : List Char) → Prop where
  | nil (offset : Nat) (rest : List Char) : Run offset [] [] rest
  | cons {offset : Nat} {blanks text body rest : List Char} {token : Token} {lexemes : List Lexeme}
      (hblanks : ∀ c ∈ blanks, isBlank c = true) (hfront : Lexer.Front token text (body ++ rest))
      (h : Run (offset + byteLength blanks + byteLength text) body lexemes rest) :
      Run offset (blanks ++ (text ++ body))
        (⟨token, offset + byteLength blanks, offset + byteLength blanks + byteLength text⟩ :: lexemes)
        rest

/-- A scan that starts with some tokens starts with a run of them, and what is left is scanned to
the other tokens. Induction on the tokens. -/
theorem exists_run {inside after : List Lexeme} {cs : List Char} {offset : Nat}
    (h : (scan cs offset).lexemes = inside ++ after) :
    ∃ body rest, cs = body ++ rest ∧ Run offset body inside rest ∧
      (scan rest (offset + byteLength body)).lexemes = after := by
  induction inside generalizing cs offset with
  | nil => exact ⟨[], cs, rfl, .nil offset cs, h⟩
  | cons lexeme inside ih =>
    obtain ⟨blanks, text, rest, rfl, hblanks, hfront, hstart, hstop, hlater⟩ :=
      exists_of_scan_cons h
    obtain ⟨body, rest, rfl, hrun, hafter⟩ := ih hlater.symm
    obtain ⟨token, start, stop⟩ := lexeme
    obtain rfl : start = offset + byteLength blanks := hstart
    obtain rfl : stop = offset + byteLength blanks + byteLength text := hstop
    refine ⟨blanks ++ (text ++ body), rest, by simp, .cons hblanks hfront hrun, ?_⟩
    rw [← hafter, byteLength_append, byteLength_append, ← Nat.add_assoc, ← Nat.add_assoc]

variable {offset : Nat} {body rest : List Char} {lexemes : List Lexeme}

namespace Run

/-- A run in front of some characters is scanned as its tokens and theirs. -/
theorem scan_eq (h : Run offset body lexemes rest) :
    scan (body ++ rest) offset =
      ⟨lexemes ++ (scan rest (offset + byteLength body)).lexemes,
        (scan rest (offset + byteLength body)).ending⟩ := by
  induction h with
  | nil => rfl
  | @cons offset blanks text body rest token lexemes hblanks hfront _ ih =>
    have hassoc : blanks ++ (text ++ body) ++ rest = blanks ++ (text ++ (body ++ rest)) := by simp
    rw [hassoc, scan_front offset hblanks hfront, ih, byteLength_append, byteLength_append,
      ← Nat.add_assoc, ← Nat.add_assoc]
    rfl

/-- **A run stays the same in front of a cut**, wherever it starts. Induction along the run; every
token of it has the rest of the run and the cut behind it. -/
theorem cut {closed : List Char} (h : Run offset body lexemes rest) (hcut : Lexer.Cut rest closed)
    (other : Nat) :
    ∃ lexemes', lexemes'.map Lexeme.token = lexemes.map Lexeme.token ∧
      Run other body lexemes' closed := by
  induction h generalizing other with
  | nil => exact ⟨[], rfl, .nil other closed⟩
  | @cons _ blanks text body _ _ _ hblanks hfront _ ih =>
    obtain ⟨lexemes', htokens, hrun⟩ := ih hcut (other + byteLength blanks + byteLength text)
    refine ⟨_, ?_, .cons hblanks (hfront.cut (hcut.append body)) hrun⟩
    rw [List.map_cons, List.map_cons, htokens]

/-- The last token stops where the run does. -/
theorem stop_eq (h : Run offset body lexemes rest) {last : Lexeme}
    (hlast : last ∈ lexemes.getLast?) : last.stop = offset + byteLength body := by
  induction h with
  | nil => cases hlast
  | @cons offset blanks text body rest token lexemes _ _ h ih =>
    rw [byteLength_append, byteLength_append, ← Nat.add_assoc, ← Nat.add_assoc]
    cases lexemes with
    | nil =>
      cases h
      cases hlast
      rfl
    | cons lexeme lexemes =>
      rw [List.getLast?_cons_cons] at hlast
      exact ih hlast

/-- The first token starts behind the blanks, and there the run can start as well. -/
theorem exists_blanks {first : Lexeme} (h : Run offset body (first :: lexemes) rest) :
    ∃ blanks core, body = blanks ++ core ∧ first.start = offset + byteLength blanks ∧
      core.head?.any isBlank = false ∧ Run first.start core (first :: lexemes) rest := by
  cases h with
  | @cons _ blanks text body _ token _ _ hfront h =>
    refine ⟨blanks, text ++ body, rfl, rfl, ?_, ?_⟩
    · cases text with
      | nil => exact absurd rfl hfront.ne_nil
      | cons c text => exact hfront.not_blank
    · have hnone : ∀ c ∈ [], isBlank c = true := by simp
      exact .cons hnone hfront h

/-- A run that does not start with a blank starts with its first token. -/
theorem start_eq (h : Run offset body lexemes rest) (hblank : body.head?.any isBlank = false)
    {first : Lexeme} (hfirst : first ∈ lexemes.head?) : first.start = offset := by
  cases h with
  | nil => cases hfirst
  | @cons _ blanks text body _ token _ hblanks hfront h =>
    cases hfirst
    cases blanks with
    | nil => rfl
    | cons c blanks =>
      have hc : isBlank c = false := hblank
      cases hc.symm.trans (hblanks c List.mem_cons_self)

/-- **In parentheses a run is read as the same tokens**, and nothing else. The parentheses are
tokens of their own, the run is cut at the second of them by `Run.cut`, and behind that the source
ends. The positions are those of the new source, where the run starts at byte one. -/
theorem parenthesised (h : Run offset body lexemes rest) :
    ∃ inside, inside.map Lexeme.token = lexemes.map Lexeme.token ∧ Run 1 body inside [')'] ∧
      scan ('(' :: (body ++ [')'])) 0 =
        ⟨⟨.mark .leftParen, 0, 1⟩ :: (inside ++
            [⟨.mark .rightParen, 1 + byteLength body, 1 + byteLength body + 1⟩]),
          .finished (1 + byteLength body + 1)⟩ := by
  obtain ⟨inside, htokens, hrun⟩ := h.cut (.close rest) 1
  refine ⟨inside, htokens, hrun, ?_⟩
  -- the parenthesis, the run, the other parenthesis and the end are scanned one after the other
  have hnone : ∀ c ∈ [], isBlank c = true := by simp
  have hopen := scan_front 0 hnone
    (Lexer.front_separator (rfl : Lexer.separator? '(' = some .leftParen) (body ++ [')']))
  have hclose := scan_front (1 + byteLength body) hnone
    (Lexer.front_separator (rfl : Lexer.separator? ')' = some .rightParen) [])
  have hend : ∀ stop, scan [] stop = ⟨[], .finished stop⟩ := fun stop => by
    rw [Lexed.scan_eq]
    rfl
  refine hopen.trans ?_
  show (⟨_ :: (scan (body ++ [')']) 1).lexemes, (scan (body ++ [')']) 1).ending⟩ : Lexed) = _
  rw [hrun.scan_eq]
  show (⟨_ :: (inside ++ (scan ([] ++ ([')'] ++ [])) (1 + byteLength body)).lexemes),
    (scan ([] ++ ([')'] ++ [])) (1 + byteLength body)).ending⟩ : Lexed) = _
  rw [hclose, hend]
  rfl

theorem ne_nil {first : Lexeme} (h : Run offset body (first :: lexemes) rest) : body ≠ [] := by
  cases h with
  | cons _ hfront _ => simp [hfront.ne_nil]

end Run

/-- A part of the tokens of a source is the run of a part of its characters, from where the first of
them starts to where the last one stops. The blanks in front of the first token are left out, so
that those positions are the ends of the part. -/
theorem exists_cutout {source : String} {before inside after : List Lexeme} {first last : Lexeme}
    (h : (ofSource source).lexemes = before ++ (inside ++ after)) (hfirst : inside.head? = some first)
    (hlast : inside.getLast? = some last) :
    ∃ front body rest, source.toList = front ++ (body ++ rest) ∧ first.start = byteLength front ∧
      last.stop = byteLength front + byteLength body ∧ body ≠ [] ∧
      body.head?.any isBlank = false ∧ Run first.start body inside rest := by
  obtain ⟨others, rfl⟩ : ∃ others, inside = first :: others := by
    cases inside with
    | nil => cases hfirst
    | cons lexeme others =>
      cases hfirst
      exact ⟨others, rfl⟩
  -- first the tokens in front are taken off, then the run itself
  obtain ⟨front, rest, hfront, _, hbehind⟩ := exists_run h
  obtain ⟨body, rest, rfl, hrun, _⟩ := exists_run hbehind
  -- the blanks in front of the first token are left outside
  obtain ⟨blanks, core, rfl, hstart, hblank, hcore⟩ := hrun.exists_blanks
  have hposition : first.start = byteLength (front ++ blanks) := by
    rw [hstart, Nat.zero_add, byteLength_append]
  refine ⟨front ++ blanks, core, rest, ?_, hposition, ?_, hcore.ne_nil, hblank, hcore⟩
  · rw [hfront]
    simp
  · rw [hcore.stop_eq hlast, hposition]

end Lexed

end Stencil
