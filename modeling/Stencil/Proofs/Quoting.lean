import Stencil.Proofs.Escapes
import Stencil.Text.Printable

/-!
# Reading back quoted text

What stands between the quotes of a shown text is the raw content of a string literal, and it stands
for that text.

* **`natOfHex?_hexDigits`** — a hexadecimal numeral denotes its number. Induction on the numeral.
* **`symbol_quotedChar`**, **`decode_flatMap_quotedChar`** — the way in which a character is shown
  is a symbol of the grammar, so the escapes of a shown text give the text back.
* **`scanString_flatMap_quotedChar`** — the closing quote is the first one that no backslash takes
  with it.
-/

namespace Stencil

open Text

/-! ## Hexadecimal numerals

A code point is shown as a hexadecimal numeral and read back as one. Digits are put in front of what
is there already, so each induction has the tail as a parameter. -/

namespace Text

theorem hexValue?_hexDigit_of_lt : ∀ n < 16, hexValue? (hexDigit n) = some n := by decide

theorem hexDigit_mod (n : Nat) : hexDigit (n % 16) = hexDigit n := by
  simp only [hexDigit, Nat.mod_mod]

theorem hexValue?_hexDigit (n : Nat) : hexValue? (hexDigit n) = some (n % 16) := by
  rw [← hexDigit_mod]
  exact hexValue?_hexDigit_of_lt _ (Nat.mod_lt _ (by decide))

theorem readHex?_cons_hexDigit (total n : Nat) (tail : List Char) :
    readHex? total (hexDigit n :: tail) = readHex? (total * 16 + n % 16) tail := by
  simp [readHex?, hexValue?_hexDigit]

/-- The digits in front of a tail are read first. Induction on the number of digits. -/
theorem readHex?_hexDigitsBefore (n : Nat) (tail : List Char) :
    readHex? 0 (hexDigitsBefore n tail) = readHex? n tail := by
  fun_induction hexDigitsBefore n tail with
  | case1 => rfl
  | case2 n tail hn ih =>
    rw [ih, readHex?_cons_hexDigit, Nat.div_add_mod']

/-- A numeral is read as its number. Zero has a numeral of its own, for the digits of zero are none.
-/
theorem natOfHex?_hexDigits (n : Nat) : natOfHex? (hexDigits n) = some n := by
  unfold hexDigits
  split
  · subst_vars
    rfl
  · exact readHex?_hexDigitsBefore n []

/-- A number below a power of sixteen has no more digits than the exponent. Induction on the
exponent. -/
theorem length_hexDigitsBefore_le {n count : Nat} (h : n < Nat.pow 16 count) (tail : List Char) :
    (hexDigitsBefore n tail).length ≤ count + tail.length := by
  induction count generalizing n tail with
  | zero =>
    have hn : n = 0 := Nat.lt_one_iff.mp h
    rw [hn, hexDigitsBefore]
    simp
  | succ count ih =>
    rw [hexDigitsBefore]
    split
    · omega
    · have hdiv : n / 16 < Nat.pow 16 count := by
        have hlt : n < Nat.pow 16 count * 16 := h
        exact Nat.div_lt_of_lt_mul (by omega)
      have := ih hdiv (hexDigit n :: tail)
      simp only [List.length_cons] at this
      omega

/-- What stands in a numeral is a digit, or was there before. -/
theorem mem_hexDigitsBefore {n : Nat} {tail : List Char} {c : Char}
    (h : c ∈ hexDigitsBefore n tail) : (∃ m, c = hexDigit m) ∨ c ∈ tail := by
  fun_induction hexDigitsBefore n tail with
  | case1 => exact Or.inr h
  | case2 n tail hn ih =>
    rcases ih h with hdigit | hmem
    · exact Or.inl hdigit
    · rcases List.mem_cons.mp hmem with rfl | hmem
      · exact Or.inl ⟨n, rfl⟩
      · exact Or.inr hmem

/-- So all of its characters are read as digits. -/
theorem exists_hexValue?_of_mem {n : Nat} {c : Char} (h : c ∈ hexDigits n) :
    ∃ value, hexValue? c = some value := by
  unfold hexDigits at h
  split at h
  · obtain rfl := List.mem_singleton.mp h
    exact ⟨0, rfl⟩
  · rcases mem_hexDigitsBefore h with ⟨m, rfl⟩ | hmem
    · exact ⟨_, hexValue?_hexDigit m⟩
    · cases hmem

/-- Six digits are enough for a code point, and no more may stand in an escape. -/
theorem length_hexDigits_le (c : Char) : (hexDigits c.toNat).length ≤ 6 := by
  unfold hexDigits
  split
  · decide
  · -- code points are below sixteen to the sixth
    have hlt : c.toNat < Nat.pow 16 6 := by
      rcases c.valid with hlow | ⟨_, hhigh⟩
      · exact Nat.lt_trans hlow (by decide)
      · exact Nat.lt_trans hhigh (by decide)
    exact length_hexDigitsBefore_le hlt []

/-- A numeral is not empty: there is no number to read in nothing. -/
theorem hexDigits_ne_nil (n : Nat) : hexDigits n ≠ [] := by
  intro h
  have hzero := natOfHex?_hexDigits n
  rw [h] at hzero
  cases hzero
  cases h

end Text

/-! ## Escapes

Showing a text writes each of its characters in one of three ways. Each of the three is a symbol of
the grammar of literals, and everything about reading back follows from that. -/

namespace Escape

/-- A character is shown by a letter behind a backslash, by itself, or by its code point. -/
theorem quotedChar_cases (c : Char) :
    (∃ letter, quotedChar c = ['\\', letter] ∧ letter ≠ 'x' ∧ letter ≠ 'u' ∧
      shortEscape letter = [c]) ∨
    (quotedChar c = [c] ∧ c ≠ '\\' ∧ c ≠ '\n' ∧ c ≠ '"') ∨
    quotedChar c = '\\' :: 'u' :: '{' :: (hexDigits c.toNat ++ ['}']) := by
  -- the six characters that have a letter
  by_cases hescaped : c = '\x00' ∨ c = '\t' ∨ c = '\r' ∨ c = '\n' ∨ c = '"' ∨ c = '\\'
  · left
    rcases hescaped with rfl | rfl | rfl | rfl | rfl | rfl <;>
      exact ⟨_, rfl, by decide, by decide, rfl⟩
  · simp only [not_or] at hescaped
    obtain ⟨hzero, htab, hreturn, hline, hquote, hbackslash⟩ := hescaped
    right
    by_cases hprintable : isPrintable c = true
    · exact Or.inl ⟨by simp [quotedChar, *], hbackslash, hline, hquote⟩
    · exact Or.inr (by simp [quotedChar, *])

/-- However a character is shown, that is a symbol for it. The three ways are a short escape, the
character itself and an escape in braces, and each is a constructor of the grammar. -/
theorem symbol_quotedChar (c : Char) : Symbol (quotedChar c) [c] := by
  rcases quotedChar_cases c with ⟨letter, heq, hx, hu, hletter⟩ | ⟨heq, hbackslash, _, _⟩ | heq
  · rw [heq, ← hletter]
    exact symbol_short hx hu
  · rw [heq]
    exact .plain hbackslash
  · have hpos : 1 ≤ (hexDigits c.toNat).length := List.length_pos_iff.mpr (hexDigits_ne_nil _)
    rw [heq]
    exact .braced ⟨hpos, length_hexDigits_le c⟩ (natOfHex?_hexDigits c.toNat)

/-- The content of a shown text, symbol by symbol. Induction on the text. -/
theorem spells_flatMap_quotedChar (cs : List Char) : Spells (cs.flatMap quotedChar) cs := by
  induction cs with
  | nil => exact .nil
  | cons c cs ih => exact .cons (symbol_quotedChar c) ih

/-- The content of a shown text stands for the text. -/
theorem decode_flatMap_quotedChar (cs : List Char) : decode (cs.flatMap quotedChar) = .ok cs :=
  (spells_flatMap_quotedChar cs).decode

/-- A text without a backslash spells itself. -/
theorem spells_self {cs : List Char} (h : '\\' ∉ cs) : Spells cs cs := by
  induction cs with
  | nil => exact .nil
  | cons c cs ih =>
    rw [List.mem_cons, not_or] at h
    exact .cons (.plain (Ne.symm h.1)) (ih h.2)

theorem decode_self {cs : List Char} (h : '\\' ∉ cs) : decode cs = .ok cs := (spells_self h).decode

end Escape

/-! ## The closing quote

The lexer looks for the quote that ends a literal before any escape is decoded. It takes a backslash
together with the character behind it, and a shown text has a quote nowhere else. -/

namespace Lexer

variable {raw rest cs : List Char}

/-- A character that is neither a backslash nor a line feed nor the quote belongs to the content. -/
theorem scanString_plain {c : Char} (hbackslash : c ≠ '\\') (hline : c ≠ '\n') (hquote : c ≠ '"')
    (h : scanString '"' cs = some (raw, rest)) : scanString '"' (c :: cs) = some (c :: raw, rest) := by
  rw [scanString, if_neg hline, if_neg hquote, h]
  · rfl
  · exact fun heq _ => hbackslash heq
  · exact fun _ _ heq _ => hbackslash heq

theorem scanString_escape (c : Char) (h : scanString '"' cs = some (raw, rest)) :
    scanString '"' ('\\' :: c :: cs) = some ('\\' :: c :: raw, rest) := by
  rw [scanString, h]
  rfl

/-- Several plain characters in a row. The digits of an escape and the braces around them are such.
-/
theorem scanString_append {plain : List Char}
    (hplain : ∀ c ∈ plain, c ≠ '\\' ∧ c ≠ '\n' ∧ c ≠ '"') (h : scanString '"' cs = some (raw, rest)) :
    scanString '"' (plain ++ cs) = some (plain ++ raw, rest) := by
  induction plain with
  | nil => exact h
  | cons c plain ih =>
    obtain ⟨⟨hbackslash, hline, hquote⟩, hplain⟩ := List.forall_mem_cons.mp hplain
    exact scanString_plain hbackslash hline hquote (ih hplain)

/-- However a character is shown, no quote ends the string there. -/
theorem scanString_quotedChar (c : Char) (h : scanString '"' cs = some (raw, rest)) :
    scanString '"' (quotedChar c ++ cs) = some (quotedChar c ++ raw, rest) := by
  rcases Escape.quotedChar_cases c with ⟨letter, heq, _⟩ | ⟨heq, hbackslash, hline, hquote⟩ | heq
  · rw [heq]
    exact scanString_escape letter h
  · rw [heq]
    exact scanString_plain hbackslash hline hquote h
  · -- braces and digits are plain
    have hplain : ∀ d ∈ '{' :: (hexDigits c.toNat ++ ['}']), d ≠ '\\' ∧ d ≠ '\n' ∧ d ≠ '"' := by
      intro d hd
      rcases List.mem_cons.mp hd with rfl | hd
      · decide
      rcases List.mem_append.mp hd with hd | hd
      · obtain ⟨value, hvalue⟩ := exists_hexValue?_of_mem hd
        refine ⟨?_, ?_, ?_⟩ <;> (rintro rfl; cases hvalue)
      · obtain rfl := List.mem_singleton.mp hd
        decide
    rw [heq]
    exact scanString_escape 'u' (scanString_append hplain h)

/-- The string ends where the content of a shown text does, so the literal is found whole. Induction
on the text, one shown character at a time. -/
theorem scanString_flatMap_quotedChar (cs rest : List Char) :
    scanString '"' (cs.flatMap quotedChar ++ '"' :: rest) = some (cs.flatMap quotedChar, rest) := by
  induction cs with
  | nil => rfl
  | cons c cs ih =>
    rw [List.flatMap_cons, List.append_assoc]
    exact scanString_quotedChar c ih

end Lexer

end Stencil
