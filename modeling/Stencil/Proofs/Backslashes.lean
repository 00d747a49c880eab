import Stencil.Proofs.Escapes
import Stencil.Proofs.Faults

/-!
# Backslashes in strings

Two readers go over the content of a string literal. The scanner looks for the closing quote and
takes a character along with every backslash; the decoder reads escapes, some of which go on for a
while. They agree on which backslashes start an escape, because an escape that is read takes no
further backslash along: what it goes on with are digits and braces.

* **`Escape.Symbol.parity`** — so no symbol changes whether the number of backslashes at the end is
  odd.
* **`Escape.decode_eq_dangling_iff`** — the decoder meets a backslash with nothing behind it just
  where one stands behind a sequence of symbols. The induction is on the decoder.
* **`Quotable.not_dangling`** — no string that closes has such a content, since the last of its
  backslashes would have taken the quote along.
-/

namespace Stencil

open Text

namespace Escape

variable {cs out digits piece chars : List Char} {c : Char}

/-! ## Parity

The scanner goes by the number of backslashes in front of a quote: the quote is free exactly if that
number is even. A symbol is what the decoder reads at a time. If it starts with a backslash it takes
one character along, and what it takes beyond that are hexadecimal digits and braces; so it adds two
backslashes to those in front of it or none, or it stops the count. -/

/-- Characters other than backslashes leave the backslashes at the end as they are. -/
theorem trailingBackslashes_append_of_not_mem (h : '\\' ∉ cs) (rest : List Char) :
    trailingBackslashes (cs ++ rest) = trailingBackslashes rest := by
  induction cs with
  | nil => rfl
  | cons c cs ih =>
    have hc : c ≠ '\\' := fun heq => h (heq ▸ List.mem_cons_self)
    have hcs : '\\' ∉ cs := fun hmem => h (List.mem_cons_of_mem c hmem)
    rw [List.cons_append, trailingBackslashes_plain hc, ih hcs]

/-- A backslash takes one character along, and behind that a symbol has no other backslash. -/
theorem Symbol.parity (h : Symbol piece chars) (rest : List Char) :
    trailingBackslashes (piece ++ rest) % 2 = trailingBackslashes rest % 2 := by
  -- the cases of escapes differ only in what stands behind the letter
  have hescape : ∀ (letter : Char) (more : List Char), '\\' ∉ more →
      trailingBackslashes ('\\' :: letter :: more ++ rest) % 2 = trailingBackslashes rest % 2 := by
    intro letter more hmore
    rw [List.cons_append, List.cons_append, trailingBackslashes_pair,
      trailingBackslashes_append_of_not_mem hmore]
  cases h with
  | plain hc => exact congrArg (· % 2) (trailingBackslashes_plain hc rest)
  | byte _ hpoint => exact hescape 'x' _ (hpoint.not_mem rfl)
  | unit _ hpoint => exact hescape 'u' _ (hpoint.not_mem rfl)
  | @braced digits _ _ hpoint =>
    refine hescape 'u' ('{' :: (digits ++ ['}'])) ?_
    have hdigits : '\\' ∉ digits := hpoint.not_mem rfl
    simp [hdigits]
  | control => exact hescape _ [] List.not_mem_nil
  | lineBreak => exact hescape '\n' [] List.not_mem_nil
  | itself => exact hescape _ [] List.not_mem_nil

/-- The same for sequences of symbols. Induction on the sequence. -/
theorem Spells.parity (h : Spells cs out) (rest : List Char) :
    trailingBackslashes (cs ++ rest) % 2 = trailingBackslashes rest % 2 := by
  induction h with
  | nil => rfl
  | cons hsymbol _ ih => rw [List.append_assoc, hsymbol.parity, ih]

/-! ## The decoder

The report for a backslash at the end of a content is told apart from the others by its text alone,
which is one character long. The decoder is followed case by case: every case but one reads a symbol
and goes on behind it, so that the content is cut into symbols up to where the report comes from. -/

/-- The escape that the decoder reports when there is nothing behind a backslash. -/
def dangling : String := "\\"

/-- An escape of a code point is reported with its letter at least. -/
theorem ofList_ne_dangling (letter : Char) (digits : List Char) :
    String.ofList ('\\' :: letter :: digits) ≠ dangling := by
  intro heq
  have hlength := congrArg (fun text => text.toList.length) heq
  simp [dangling] at hlength

/-- **A reported backslash stands at the end**: the content is then a sequence of symbols and one
backslash. Induction along the decoder; it reports of its rest, with a symbol in front of it each
time, until nothing but the backslash is left. The errors of escapes that are no code point have
other texts. -/
theorem dangling_of_decode (h : decode cs = .error dangling) :
    ∃ front out, Spells front out ∧ cs = front ++ ['\\'] := by
  -- where the decoder goes on behind a symbol, so does the sequence
  have hcons : ∀ {piece chars rest}, Symbol piece chars →
      (∃ front out, Spells front out ∧ rest = front ++ ['\\']) →
      ∃ front out, Spells front out ∧ piece ++ rest = front ++ ['\\'] := by
    rintro piece chars _ hsymbol ⟨front, out, hfront, rfl⟩
    exact ⟨piece ++ front, chars ++ out, .cons hsymbol hfront, (List.append_assoc ..).symm⟩
  -- what the decoder adds in front of its rest does not change a report of the rest
  have hrest : ∀ {result : Except String (List Char)} {f : List Char → List Char},
      (do return f (← result)) = Except.error dangling → result = .error dangling := by
    rintro (_ | _) f heq
    · exact congrArg Except.error (Except.error.inj heq)
    · cases heq
  fun_induction decode cs with
  | case1 => cases h
  | case2 => exact ⟨[], [], .nil, rfl⟩
  | case3 | case5 => exact absurd (Except.error.inj h) (ofList_ne_dangling _ _)
  | case4 cs digits c hpoint =>
    rename_i ih
    split at hpoint
    · next hcount =>
      have hsymbol := Symbol.byte hcount (codePoint?_eq_some_iff.mp hpoint).2
      have hsplit : cs = digits ++ (takeByte cs).2 := (List.take_append_drop 2 cs).symm
      rw [hsplit]
      exact hcons hsymbol (ih (hrest h))
    · cases hpoint
  | case6 cs digits c hpoint =>
    rename_i ih
    rcases symbol_or_unfinished hpoint with ⟨piece, hsymbol, hsplit⟩ | ⟨_, hnil⟩
    · rw [hsplit]
      exact hcons hsymbol (ih (hrest h))
    · -- behind an unfinished escape there is nothing that could dangle
      rw [hnil, decode] at h
      cases h
  | case7 c cs hx hu ih => exact hcons (symbol_short hx hu) (ih (hrest h))
  | case8 c cs hlast hescape ih =>
    exact hcons (.plain (Lexer.ne_backslash hlast hescape)) (ih (hrest h))

/-- **Where the decoder meets a backslash with nothing behind it**: where one stands at the end,
behind symbols. -/
theorem decode_eq_dangling_iff :
    decode cs = .error dangling ↔ ∃ front out, Spells front out ∧ cs = front ++ ['\\'] := by
  constructor
  · exact dangling_of_decode
  · rintro ⟨front, out, hfront, rfl⟩
    rw [hfront.decode_append, decode]
    rfl

end Escape

/-! ## Contents of strings

A content that the scanner has closed has an even number of backslashes at its end, and the decoder
would need an odd one. -/

/-- A content that can stand between quotes does not end with such a backslash. -/
theorem Quotable.not_dangling {quote : Char} {raw : List Char} (h : Quotable quote raw) :
    Escape.decode raw ≠ .error Escape.dangling := by
  intro hdangling
  obtain ⟨front, out, hfront, rfl⟩ := Escape.decode_eq_dangling_iff.mp hdangling
  -- one backslash behind symbols makes the number odd
  have heven := h.closed
  rw [hfront.parity] at heven
  cases heven

/-- Whatever is scanned up to a quote is such a content, also where the scanner goes by bytes. -/
theorem Lexer.not_dangling_of_scanBytes {quote : Char} {cs : List Char} {count : Nat}
    (hquote : quote = '"' ∨ quote = '\'')
    (h : scanBytes quote.toUInt8 (cs.flatMap String.utf8EncodeChar) = some count) :
    Escape.decode (takeBytes count cs) ≠ .error Escape.dangling := by
  rw [scanBytes_eq hquote] at h
  obtain ⟨⟨raw, rest⟩, hscan, rfl⟩ := Option.map_eq_some_iff.mp h
  have hbackslash : quote ≠ '\\' := by
    rcases hquote with rfl | rfl <;> decide
  rw [scanString_eq hscan, takeBytes_append]
  exact (quotable_scanString hbackslash hscan).not_dangling

/-- A string token of a source has such a content. -/
theorem TokenAt.not_dangling {source raw : String} {position : Nat}
    (h : TokenAt source position (.string raw)) :
    Escape.decode raw.toList ≠ .error Escape.dangling := by
  obtain ⟨_, _, _, _, _, _, _, hquotable⟩ := h
  exact hquotable.not_dangling

/-- A refusal of the decoder is reported with the escape that it met. -/
theorem decodeEscapes_eq_invalidEscape {raw escape : String} {position place : Nat}
    (h : decodeEscapes raw position = .error (.invalidEscape escape place)) :
    Escape.decode raw.toList = .error escape := by
  unfold decodeEscapes at h
  split at h
  · cases h
  · rename_i hdecode
    cases h
    exact hdecode

/-- **No string of a source has a backslash with nothing behind it**, neither among its tokens nor
where the end of a string is found byte by byte, and so no source is refused for one. A content like
that would have an odd number of backslashes at its end, and the scanner would have taken the
closing quote along with the last of them. -/
theorem escapes_never_dangle (source : String) :
    (∀ lexeme ∈ (Lexed.ofSource source).lexemes, ∀ raw, lexeme.token = .string raw →
      ∀ position place, decodeEscapes raw position ≠ .error (.invalidEscape "\\" place)) ∧
    (∀ quote ∈ ['"', '\''], ∀ (cs : List Char) (count : Nat),
      Lexer.scanBytes quote.toUInt8 (cs.flatMap String.utf8EncodeChar) = some count →
        Escape.decode (takeBytes count cs) ≠ .error "\\") ∧
    ∀ position, Expr.parse source ≠ .error (.invalidEscape "\\" position) := by
  refine ⟨?tokens, ?bytes, ?parse⟩
  case tokens =>
    intro lexeme hmem raw htoken position place hdangling
    obtain ⟨_, text, hheld, hstands⟩ := (Lexed.lossless_ofSource source).held lexeme hmem
    have hat : TokenAt source lexeme.start (.string raw) :=
      ⟨lexeme.stop, text, htoken ▸ hmem, hheld, htoken ▸ hstands⟩
    exact hat.not_dangling (decodeEscapes_eq_invalidEscape hdangling)
  case bytes =>
    intro quote hquote cs count hscan
    have hquote : quote = '"' ∨ quote = '\'' := by simpa using hquote
    exact Lexer.not_dangling_of_scanBytes hquote hscan
  case parse =>
    intro position hparse
    obtain ⟨raw, hat, hdecode⟩ := faithful_of_parse hparse
    exact hat.not_dangling hdecode

/-- Quotes and backslashes that are escaped, a character of two bytes behind a backslash, and
escapes of code points. -/
theorem escapes_never_dangle_mixed :
    let raw := "\\é\\\\\\'\\u\x7b1f600\x7d\\x41\\\\"
    let source := "'" ++ raw ++ "'"
    (Lexed.ofSource source).lexemes = [⟨.string raw, 0, 24⟩] ∧
      Lexer.scanBytes '\''.toUInt8 ((raw.toList ++ ['\'']).flatMap String.utf8EncodeChar) = some 22 ∧
      decodeEscapes raw 0 ≠ .error (.invalidEscape "\\" 0) ∧
      Escape.decode raw.toList ≠ .error "\\" := by
  intro raw source
  have hlexemes : (Lexed.ofSource source).lexemes = [⟨.string raw, 0, 24⟩] := by decide +kernel
  have hscan : Lexer.scanBytes '\''.toUInt8
      ((raw.toList ++ ['\'']).flatMap String.utf8EncodeChar) = some 22 := by decide +kernel
  obtain ⟨htokens, hbytes, -⟩ := escapes_never_dangle source
  have hcontent : takeBytes 22 (raw.toList ++ ['\'']) = raw.toList := by decide +kernel
  refine ⟨hlexemes, hscan,
    htokens _ (by rw [hlexemes]; exact List.mem_singleton_self _) raw rfl 0 0, ?_⟩
  rw [← hcontent]
  exact hbytes '\'' (by decide) _ 22 hscan

end Stencil
