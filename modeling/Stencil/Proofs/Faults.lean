import Stencil.Template
import Stencil.Proofs.Leaves
import Stencil.Proofs.Parallel
import Stencil.Proofs.Spans

/-!
# Where syntax errors point

An error comes with a position, and what it says is true there: the token that it reports starts at
it, or the character or the literal that is no token does, or the source ends there.

* **`TokenAt`** — a token of the source starts at the position and stands there.
* **`RefusedAt`** — the source is cut into tokens and blanks up to the position (`Lexer.Tokenized`),
  and what stands there is no token.
* **`SyntaxError.Faithful`** — what an error says about its position, for each kind of error.
* **`Lexed.ending_eq_failed_iff`** — the scanner stops exactly where the source is refused, and
  **`Lexed.faithful_of_failed`** — so its errors are faithful.
* **`Placed`** — what is known of a place on the way through a source. It is kept from token to
  token, and what a rule finds wrong there is faithful (`parallel_placed`): a reading beside itself.
* **`error_faithful`** — the errors of whole sources.
-/

namespace Stencil

open Text

/-! ## What errors say

There are two kinds of errors. Those of the parser report a token of the source, or its end, and it
is enough to say which token of the scanner starts at the position. Those of the scanner report
characters that are no token, and it does not do to say what stands at the position: a quote that
nothing closes, or a character that starts no token, may also stand inside a token further to the
front. So the source has to be cut into tokens up to the position. -/

/-- A token of the source starts at the position and stands there. -/
def TokenAt (source : String) (position : Nat) (token : Token) : Prop :=
  ∃ stop text, ⟨token, position, stop⟩ ∈ (Lexed.ofSource source).lexemes ∧
    Holds source position stop text ∧ token.Stands text

/-- The characters are tokens, with blanks before them and behind the last one, where `rest` stands
behind all of them. -/
inductive Lexer.Tokenized (rest : List Char) : List Char → Prop where
  | blanks {blanks : List Char} (hblanks : ∀ c ∈ blanks, isBlank c = true) : Tokenized rest blanks
  | token {blanks text later : List Char} {token : Token} (hblanks : ∀ c ∈ blanks, isBlank c = true)
      (hfront : Front token text (later ++ rest)) (h : Tokenized rest later) :
      Tokenized rest (blanks ++ (text ++ later))

/-- The source is cut into tokens and blanks up to the position, and the characters `cs`, with which
it goes on there, are refused with the error. -/
def RefusedAt (source : String) (position : Nat) (cs : List Char) (error : SyntaxError) : Prop :=
  ∃ front, source.toList = front ++ cs ∧ byteLength front = position ∧ Lexer.Tokenized cs front ∧
    Lexer.Refused position cs error

namespace SyntaxError

/-- What the error says about its position in the source is true. -/
def Faithful (source : String) : SyntaxError → Prop
  | unexpectedToken shown position => ∃ token, TokenAt source position token ∧ shown = token.display
  | unexpectedCharacter character position =>
    ∃ rest, RefusedAt source position (character :: rest) (unexpectedCharacter character position)
  | unexpectedEnd position => position = source.utf8ByteSize
  | expectedToken _ position => ∃ token, TokenAt source position token
  | invalidLiteral kind text position =>
    ∃ rest, RefusedAt source position (text.toList ++ rest) (invalidLiteral kind text position)
  | invalidEscape escape position =>
    ∃ raw, TokenAt source position (.string raw) ∧ Escape.decode raw.toList = .error escape
  | unclosedString position =>
    ∃ quote rest, (quote = '"' ∨ quote = '\'') ∧ Lexer.scanString quote rest = none ∧
      RefusedAt source position (quote :: rest) (unclosedString position)
  | emptyExpression => emptyExpression.position = 0
  | multipleStatements position => ∃ token, TokenAt source position token
  | unsupported construct position =>
    (∃ keyword, TokenAt source position (.keyword keyword) ∧
      construct = "'" ++ keyword.word ++ "' statement") ∨
    TokenAt source position (.mark .leftBrace) ∧ construct = "block statement"
  | nestingTooDeep _ position =>
    (∃ token, TokenAt source position token) ∨ position = source.utf8ByteSize

end SyntaxError

theorem TokenAt.isValid {source : String} {position : Nat} {token : Token}
    (h : TokenAt source position token) : String.Pos.Raw.IsValid source ⟨position⟩ := by
  obtain ⟨_, _, _, hheld, _⟩ := h
  exact hheld.isValid_start

/-- Where a source is refused, a character of it starts: the characters in front are characters of
the source. -/
theorem RefusedAt.isValid {source : String} {position : Nat} {cs : List Char} {error : SyntaxError}
    (h : RefusedAt source position cs error) : String.Pos.Raw.IsValid source ⟨position⟩ := by
  obtain ⟨front, hsource, rfl, _, _⟩ := h
  have hall : source.toList = front ++ (cs ++ []) := by
    rw [hsource, List.append_nil]
  exact (Holds.of_toList hall).isValid_start

/-- **A faithful error points between two characters of the source**, or to one of its ends. All but
two kinds of errors are about a token or about characters that are refused, and where these start a
character starts. -/
theorem SyntaxError.Faithful.isValid {source : String} {error : SyntaxError}
    (h : error.Faithful source) : String.Pos.Raw.IsValid source ⟨error.position⟩ := by
  -- two kinds of errors may point behind the last character
  have hend : ∀ {position : Nat}, position = source.utf8ByteSize →
      String.Pos.Raw.IsValid source ⟨position⟩ := by
    rintro _ rfl
    exact String.Pos.Raw.isValid_rawEndPos
  cases error with
  | unexpectedToken shown position =>
    obtain ⟨token, htoken, _⟩ := h
    exact htoken.isValid
  | unexpectedCharacter character position =>
    obtain ⟨rest, hrefused⟩ := h
    exact hrefused.isValid
  | unexpectedEnd position => exact hend h
  | expectedToken expected position =>
    obtain ⟨token, htoken⟩ := h
    exact htoken.isValid
  | invalidLiteral kind text position =>
    obtain ⟨rest, hrefused⟩ := h
    exact hrefused.isValid
  | invalidEscape escape position =>
    obtain ⟨raw, htoken, _⟩ := h
    exact htoken.isValid
  | unclosedString position =>
    obtain ⟨quote, rest, _, _, hrefused⟩ := h
    exact hrefused.isValid
  | emptyExpression =>
    exact String.Pos.Raw.isValid_iff_exists_append.mpr ⟨"", source, by simp, rfl⟩
  | multipleStatements position =>
    obtain ⟨token, htoken⟩ := h
    exact htoken.isValid
  | unsupported construct position =>
    rcases h with ⟨keyword, htoken, _⟩ | ⟨htoken, _⟩
    · exact htoken.isValid
    · exact htoken.isValid
  | nestingTooDeep limit position =>
    rcases h with ⟨token, htoken⟩ | h
    · exact htoken.isValid
    · exact hend h

/-! ## Characters that are no token

The scanner walks over the tokens in front of the characters that it refuses, so its walk is one way
to cut the source up. It is the only one: whatever is cut into tokens and blanks, the scanner takes
apart in the same way. So a source is refused at one position and with one error. -/

/-- A scan passes the tokens and blanks in front of characters that are refused, and stops there.
Induction on the tokens. -/
theorem Lexer.Tokenized.ending_scan {front cs : List Char} {error : SyntaxError} {offset : Nat}
    (h : Tokenized cs front) (hrefused : Refused (offset + byteLength front) cs error) :
    (Lexed.scan (front ++ cs) offset).ending = .failed error := by
  induction h generalizing offset with
  | blanks hblanks => rw [Lexed.scan_refused offset hblanks hrefused]
  | token hblanks hfront _ ih =>
    rw [List.append_assoc, List.append_assoc, Lexed.scan_front offset hblanks hfront]
    refine ih ?_
    simpa only [byteLength_append, Nat.add_assoc] using hrefused

namespace Lexed

variable {source : String} {front cs : List Char} {lexed : Lexed} {error : SyntaxError}

/-- **What a walk that is refused has passed before**: blanks and tokens, each of them the front of
what was left there. Induction along the walk with `Scanned.along`; a token stays at the front of
its rest, for the rest is what is passed later and refused then. -/
theorem Scanned.exists_refused (h : Scanned (byteLength front) cs lexed)
    (hsource : source.toList = front ++ cs) (hend : lexed.ending = .failed error) :
    ∃ passed rest, source.toList = front ++ passed ++ rest ∧ Lexer.Tokenized rest passed ∧
      Lexer.Refused (byteLength (front ++ passed)) rest error := by
  refine h.along hsource ?finished ?failed ?read hend
  case finished =>
    intro front blanks _ _ hend
    cases hend
  case failed =>
    intro front blanks cs refusal hsource hblanks hrefused hend
    cases hend
    exact ⟨blanks, cs, by rw [hsource, List.append_assoc], .blanks hblanks, hrefused⟩
  case read =>
    intro front blanks text rest token later hsource hblanks hfront ih hend
    obtain ⟨passed, refused, hlater, htokens, hrefused⟩ := ih hend
    have hassoc : front ++ blanks ++ text ++ passed = front ++ (blanks ++ (text ++ passed)) := by
      simp only [List.append_assoc]
    -- what is behind the token is what is passed later and then refused
    have hrest : rest = passed ++ refused := by
      have hboth := hsource.symm.trans hlater
      simpa only [List.append_assoc, List.append_cancel_left_eq] using hboth
    rw [hassoc] at hlater hrefused
    exact ⟨blanks ++ (text ++ passed), refused, hlater,
      .token hblanks (hrest ▸ hfront) htokens, hrefused⟩

/-- **Where a source is refused**: where characters that are no token stand behind tokens and
blanks. -/
theorem ending_eq_failed_iff :
    (ofSource source).ending = .failed error ↔ ∃ position cs, RefusedAt source position cs error := by
  constructor
  · intro hend
    obtain ⟨passed, rest, hsource, htokens, hrefused⟩ :=
      (scanned_ofSource source).exists_refused rfl hend
    exact ⟨byteLength passed, rest, passed, hsource, rfl, htokens, hrefused⟩
  · rintro ⟨_, cs, front, hsource, rfl, htokens, hrefused⟩
    rw [ofSource, hsource]
    refine htokens.ending_scan ?_
    rwa [Nat.zero_add]

/-- The double quote inside the text that nothing closes is not where this source is refused. -/
example : (ofSource "'abc\"def").ending = .failed (.unclosedString 0) := by decide +kernel

end Lexed

/-- An error with which a source is refused is faithful. The relation of refused characters has a
case for each of the three errors of the scanner, with what the scanner has seen there. -/
theorem RefusedAt.faithful {source : String} {position : Nat} {cs : List Char} {error : SyntaxError}
    (h : RefusedAt source position cs error) : error.Faithful source := by
  have hat := h
  obtain ⟨_, _, _, _, hrefused⟩ := h
  cases hrefused with
  | string hquote hnone => exact ⟨_, _, hquote, hnone, hat⟩
  | @number text word rest =>
    refine ⟨rest, ?_⟩
    rwa [String.toList_ofList, List.append_assoc]
  | character => exact ⟨_, hat⟩

/-- The scanner's error is faithful, since it stops where the source is refused. -/
theorem Lexed.faithful_of_failed {source : String} {error : SyntaxError}
    (hend : (ofSource source).ending = .failed error) : error.Faithful source := by
  obtain ⟨position, cs, hrefused⟩ := ending_eq_failed_iff.mp hend
  exact hrefused.faithful

/-! ## Places

A rule is at a place of the source: it has read the tokens in front, and none of them is refused.
The next token may still be refused, which shows when the rule moves on. So a place comes with two
facts, that the lexemes ahead are those of the source and that there is no fault at once, and both
are handed on from place to place. What a rule finds wrong at a place is about the token ahead, and
`Placed.tokenAt` finds that token in the source. -/

namespace Parser

/-- A fault at a place is how the scan of the source has ended. -/
theorem Cursor.ending_of_fault? {c : Cursor} {error : SyntaxError} (h : c.fault? = some error) :
    c.ending = .failed error := by
  unfold Cursor.fault? at h
  split at h
  · rename_i hend
    cases h
    exact hend
  · cases h

/-- To move on fails only where the source goes on behind the token with what is none. -/
theorem Cursor.ending_of_advance {c : Cursor} {token : Token} {hc : c.token? = some token}
    {error : SyntaxError} (h : c.advance hc = .error error) : c.ending = .failed error := by
  unfold Cursor.advance at h
  split at h
  · -- there is a token ahead, so there is a lexeme
    rename_i hnone
    simp [Cursor.token?, hnone] at hc
  · dsimp only at h
    split at h
    · rename_i hfault
      cases h
      have hend := Cursor.ending_of_fault? hfault
      exact hend
    · cases h

/-- The place is one of the source, and the source goes on there with a token or ends. -/
structure Placed (source : String) (c : Cursor) : Prop where
  within : c.In source
  ending_eq : c.ending = (Lexed.ofSource source).ending
  fault?_eq : c.fault? = none

namespace Placed

variable {source : String} {c : Cursor}

/-- The token ahead is a token of the source: the lexemes ahead are the last ones of the source's,
and the scanner loses none. -/
theorem tokenAt {token : Token} (h : Placed source c) (hc : c.token? = some token) :
    TokenAt source c.position token := by
  obtain ⟨before, hbefore, _⟩ := h.within.exists_before
  cases hlexemes : c.lexemes with
  | nil => simp [Cursor.token?, hlexemes] at hc
  | cons lexeme lexemes =>
    obtain rfl : lexeme.token = token := by simpa [Cursor.token?, hlexemes] using hc
    have hposition : c.position = lexeme.start := by
      unfold Cursor.position
      rw [hlexemes]
    have hmem : lexeme ∈ (Lexed.ofSource source).lexemes := by
      rw [hbefore, hlexemes]
      simp
    obtain ⟨_, text, hheld, hstands⟩ := (Lexed.lossless_ofSource source).held lexeme hmem
    rw [hposition]
    exact ⟨lexeme.stop, text, hmem, hheld, hstands⟩

/-- Without a token ahead the source ends here, since the scan did not end with a fault. -/
theorem position_eq_end (h : Placed source c) (hc : c.token? = none) :
    c.position = source.utf8ByteSize := by
  have hlexemes : c.lexemes = [] := by simpa [Cursor.token?] using hc
  obtain ⟨_, position, hend⟩ := Cursor.exists_finished hc h.fault?_eq
  have hposition : c.position = position := by
    unfold Cursor.position
    rw [hlexemes, hend]
  rw [hposition]
  exact (Lexed.lossless_ofSource source).finished position (h.ending_eq ▸ hend)

/-- What a rule finds wrong at a place of a source is faithful. -/
theorem faithful {error : Nat → SyntaxError} (h : Placed source c) (hraised : Raised c error) :
    (error c.position).Faithful source := by
  cases hraised with
  | ended hc => exact h.position_eq_end hc
  | empty => rfl
  | expected what hc => exact ⟨_, h.tokenAt hc⟩
  | unexpected hc => exact ⟨_, h.tokenAt hc, rfl⟩
  | statement hc => exact .inl ⟨_, h.tokenAt hc, rfl⟩
  | block hc => exact .inr ⟨h.tokenAt hc, rfl⟩
  | another hc => exact ⟨_, h.tokenAt hc⟩
  | escape hc hescape => exact ⟨_, h.tokenAt hc, hescape⟩
  -- the only error that does not depend on whether there is a token
  | tooDeep limit =>
    cases hc : c.token? with
    | none => exact .inr (h.position_eq_end hc)
    | some token => exact .inl ⟨token, h.tokenAt hc⟩

end Placed

/-- **What a rule finds wrong on its way through a source is faithful.** Both readings of `Parallel`
are the same one here, so the relation on errors is only asked whether the error is faithful. The
error of the scanner comes up where a token is taken and the next one is refused. -/
theorem parallel_placed (source : String) :
    Parallel (fun c d => c = d ∧ Placed source c) fun e e' => e = e' ∧ e.Faithful source where
  token?_eq := by
    rintro c _ ⟨rfl, _⟩
    rfl
  advance := by
    -- to move on is the only step at which the scanner's error comes up
    rintro c _ token ⟨rfl, hplaced⟩ hc _
    have hwithin := hplaced.within.advance hc
    have hreads := Cursor.advance_reads hc
    cases hadvance : c.advance hc with
    | ok taken =>
      have hread := hreads taken hadvance
      exact .ok ⟨rfl, hwithin taken hadvance, hread.ending_eq.trans hplaced.ending_eq,
        hread.fault?_eq hplaced.fault?_eq⟩
    | error error =>
      have hend := Cursor.ending_of_advance hadvance
      exact .error ⟨rfl, Lexed.faithful_of_failed (hplaced.ending_eq ▸ hend)⟩
  raised := by
    rintro c _ error ⟨rfl, hplaced⟩ hraised
    exact ⟨rfl, hplaced.faithful hraised⟩

/-- The first token of a source is found by the scanner, and if it is refused the reading does not
even start. That error is faithful as well, for it is the one the walk ends with. -/
theorem start_alike (source : String) :
    Alike (fun e e' => e = e' ∧ e.Faithful source) (fun c d => c = d ∧ Placed source c) (start source)
      (start source) := by
  cases hstart : start source with
  | ok c =>
    have hwithin := Cursor.In.start c hstart
    unfold Parser.start Cursor.checked at hstart
    dsimp only at hstart
    split at hstart
    · cases hstart
    · rename_i hfault
      cases hstart
      exact .ok ⟨rfl, hwithin, rfl, hfault⟩
  | error error =>
    unfold Parser.start Cursor.checked at hstart
    dsimp only at hstart
    split at hstart
    · rename_i hfault
      cases hstart
      exact .error ⟨rfl, Lexed.faithful_of_failed (Cursor.ending_of_fault? hfault)⟩
    · cases hstart

end Parser

/-- What is wrong with a source that is refused is true of it. -/
theorem faithful_of_parse {source : String} {error : SyntaxError}
    (hparse : Expr.parse source = .error error) : error.Faithful source := by
  have halike := Parser.parse_alike (Parser.parallel_placed source) (Parser.start_alike source)
  rw [hparse] at halike
  cases halike with
  | error hfaults => exact hfaults.2

/-- **Syntax errors point at what they report.** The position is in the source and between two of
its characters, what the error says is true there, and evaluation fails with the same position.
`Faithful` says of each kind of error what is there; for those of the scanner that the source in
front of the position is cut into tokens and blanks and is refused at the position. -/
theorem error_faithful {source : String} {error : SyntaxError}
    (hparse : Expr.parse source = .error error) :
    error.position ≤ source.utf8ByteSize ∧ String.Pos.Raw.IsValid source ⟨error.position⟩ ∧
      error.Faithful source ∧
      ∀ (engine : Engine) (document : Json) (render : RenderConfig),
        engine.evaluate source document render = .fail (.parse error.position error.message) := by
  have hfaithful := faithful_of_parse hparse
  have hvalid := hfaithful.isValid
  refine ⟨hvalid.le_utf8ByteSize, hvalid, hfaithful, fun engine document render => ?_⟩
  unfold Engine.evaluate
  rw [hparse]

/-- The bracket is the fifth byte, behind a character of two. -/
theorem error_faithful_bracket :
    Expr.parse "é + ]" = .error (.unexpectedToken "]" 5) ∧
      String.Pos.Raw.IsValid "é + ]" ⟨5⟩ ∧
      (∃ token, TokenAt "é + ]" 5 token ∧ "]" = token.display) ∧
      Engine.evaluate {} "é + ]" .emptyObject {} =
        .fail (.parse 5 "Unexpected token ']' at position 5") := by
  have hparse : Expr.parse "é + ]" = .error (.unexpectedToken "]" 5) := by
    refine eq_error_of_map_eq_error (f := fun _ => ()) ?_
    decide +kernel
  obtain ⟨_, hvalid, hfaithful, hevaluate⟩ := error_faithful hparse
  exact ⟨hparse, hvalid, hfaithful, hevaluate {} .emptyObject {}⟩

end Stencil
