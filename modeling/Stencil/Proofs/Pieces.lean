import Mathlib.Data.List.Chain
import Stencil.Proofs.Braces

/-!
# How a text is cut into pieces

`Piece.ofChars` walks over a text and cuts it where a placeholder starts or ends. This module says
what the cut is without the walk, and that there is only one.

* **`Piece.Cut`** — the cut as a grammar: which pieces there are, which may stand side by side, and
  that together they are the text. A literal has its opening braces in pairs (`EvenRuns`), so the
  brace that ends a literal is the first one left over.
* **`ofChars_cut`** — the walk yields such a cut. Induction on the walk; its invariant is that the
  characters collected so far have their braces in pairs.
* **`eq_ofChars_of_cut`** — every such cut is the one of the walk. Induction on the pieces: the walk
  takes a literal up completely (`ofCharsFrom_paired`) and stops where the next piece starts.
-/

namespace Stencil

/-! ## Runs of opening braces

The grammar speaks of every maximal run of opening braces; the walk takes two braces at a time.
`Paired` is the same condition in the form of the walk. -/

/-- Every maximal run of opening braces in `cs` has an even length. -/
def EvenRuns (cs : List Char) : Prop :=
  ∀ before n after, cs = before ++ (List.replicate n '{' ++ after) →
    before.getLast? ≠ some '{' → after.head? ≠ some '{' → 2 ∣ n

/-- Opening braces stand in pairs, read from the left. -/
def Paired : List Char → Prop
  | [] => True
  | '{' :: '{' :: cs => Paired cs
  | '{' :: _ => False
  | _ :: cs => Paired cs

@[simp] theorem paired_nil : Paired [] := trivial

@[simp] theorem paired_pair (cs : List Char) : Paired ('{' :: '{' :: cs) ↔ Paired cs := Iff.rfl

theorem paired_other {c : Char} (hopen : c ≠ '{') (cs : List Char) : Paired (c :: cs) ↔ Paired cs := by
  rw [Paired]
  · exact fun _ hc => absurd hc hopen
  · exact fun hc => absurd hc hopen

/-- Pairs stay pairs when more of them follow. -/
theorem Paired.append {xs ys : List Char} (hxs : Paired xs) (hys : Paired ys) :
    Paired (xs ++ ys) := by
  fun_induction Paired xs with
  | case1 => simpa using hys
  | case2 cs ih => exact ih hxs
  | case3 => exact absurd hxs not_false
  | case4 c cs hpair hopen ih =>
    rw [List.cons_append, paired_other hopen]
    exact ih hxs

/-- A text that does not end in `c` still does not without its first character. -/
theorem getLast?_ne_of_cons {c x : Char} {xs : List Char} (h : (x :: xs).getLast? ≠ some c) :
    xs.getLast? ≠ some c := by
  cases xs with
  | nil => simp
  | cons y ys => simpa using h

/-- The empty text has no runs. -/
theorem evenRuns_nil : EvenRuns [] := by
  intro before n after heq _ _
  have hrest : List.replicate n '{' ++ after = [] := (List.append_eq_nil_iff.mp heq.symm).2
  have hn : n = 0 := by simpa using (List.append_eq_nil_iff.mp hrest).1
  rw [hn]
  exact Nat.dvd_zero 2

/-- A character that is no opening brace belongs to no run. -/
theorem evenRuns_other {c : Char} (hopen : c ≠ '{') (cs : List Char) :
    EvenRuns (c :: cs) ↔ EvenRuns cs := by
  constructor
  · intro h before n after heq hbefore hafter
    refine h (c :: before) n after (by rw [heq, List.cons_append]) ?_ hafter
    cases before with
    | nil => simpa using hopen
    | cons x before => simpa using hbefore
  · intro h before n after heq hbefore hafter
    cases before with
    | nil =>
      cases n with
      | zero => exact Nat.dvd_zero 2
      | succ n =>
        rw [List.nil_append, List.replicate_succ, List.cons_append] at heq
        exact absurd (List.cons.inj heq).1 hopen
    | cons x before =>
      rw [List.cons_append] at heq
      exact h before n after (List.cons.inj heq).2 (getLast?_ne_of_cons hbefore) hafter

/-- **A pair of braces in front of a text changes no parity.** It makes the first run longer by two,
if the text starts with one, or is a run of its own; all other runs stay as they are, with more in
front of them. -/
theorem evenRuns_pair (cs : List Char) : EvenRuns ('{' :: '{' :: cs) ↔ EvenRuns cs := by
  constructor
  · intro h before n after heq hbefore hafter
    cases before with
    | nil =>
      -- the run starts the text, so the pair in front makes it longer
      have hn := h [] (n + 2) after (by rw [heq]; rfl) (by simp) hafter
      omega
    | cons x before =>
      exact h ('{' :: '{' :: x :: before) n after (by rw [heq]; rfl) (by simpa using hbefore) hafter
  · intro h before n after heq hbefore hafter
    -- where the run starts: with the pair, between its two braces, or behind it
    match before, n, heq, hbefore with
    | [], 0, _, _ => exact Nat.dvd_zero 2
    | [], 1, heq, _ =>
      have htail : '{' :: cs = after := by simpa using heq
      exact absurd (by rw [← htail]; rfl) hafter
    | [], n + 2, heq, _ =>
      have hn := h [] n after (by simpa [List.replicate_succ] using heq) (by simp) hafter
      omega
    | [x], n, heq, hbefore =>
      rw [List.cons_append] at heq
      exact absurd (by rw [← (List.cons.inj heq).1]; rfl) hbefore
    | x :: y :: before, n, heq, hbefore =>
      rw [List.cons_append, List.cons_append] at heq
      have htail := (List.cons.inj (List.cons.inj heq).2).2
      exact h before n after htail (getLast?_ne_of_cons (getLast?_ne_of_cons hbefore)) hafter

/-- A lone brace in front of a text is a run of odd length. -/
theorem not_evenRuns_open {cs : List Char} (hnext : cs.head? ≠ some '{') :
    ¬ EvenRuns ('{' :: cs) := by
  intro h
  have hone := h [] 1 cs rfl (by simp) hnext
  omega

/-- The two conditions are one. Induction along the pairs, with one lemma for each way in which a
text can start. -/
theorem paired_iff_evenRuns {cs : List Char} : Paired cs ↔ EvenRuns cs := by
  fun_induction Paired cs with
  | case1 => exact iff_of_true trivial evenRuns_nil
  | case2 cs ih => rw [ih, evenRuns_pair]
  | case3 cs hpair =>
    refine iff_of_false not_false (not_evenRuns_open fun hhead => ?_)
    obtain ⟨tail, rfl⟩ := List.head?_eq_some_iff.mp hhead
    exact hpair tail rfl
  | case4 c cs hpair hopen ih => rw [ih, evenRuns_other hopen]

namespace Piece

/-! ## The walk, piece by piece

The walk collects characters until a lone brace comes. What it has collected is a parameter, `read`,
with the last character first. These lemmas say what the walk makes of the text of one piece at its
front, so that nothing below opens the walk again but the induction that follows its own cases. -/

theorem ofRead_reverse {content : List Char} (hne : content ≠ []) :
    ofRead content.reverse = [.literal content] := by
  rw [ofRead, List.isEmpty_reverse, List.isEmpty_eq_false_iff.mpr hne, List.reverse_reverse]
  rfl

/-- The walk takes up a literal whose braces are in pairs, whatever follows it. -/
theorem ofCharsFrom_paired {content : List Char} (h : Paired content) (read rest : List Char) :
    ofCharsFrom read (content ++ rest) = ofCharsFrom (content.reverse ++ read) rest := by
  fun_induction Paired content generalizing read with
  | case1 => rfl
  | case2 cs ih =>
    rw [List.cons_append, List.cons_append, ofCharsFrom, ih h]
    simp
  | case3 => exact absurd h not_false
  | case4 c cs hpair hopen ih =>
    rw [List.cons_append, ofCharsFrom, ih h]
    · simp
    · exact fun _ hc => absurd hc hopen
    · exact fun hc => absurd hc hopen

/-- At a lone brace the literal in front of it ends and the search for the closing brace starts. -/
theorem ofCharsFrom_open {cs : List Char} (hnext : cs.head? ≠ some '{') (read : List Char) :
    ofCharsFrom read ('{' :: cs) =
      ofRead read ++
        match takeBalanced 0 cs with
        | none => [.verbatim ('{' :: cs)]
        | some (source, rest) => .placeholder source :: ofCharsFrom [] rest := by
  rw [ofCharsFrom]
  · congr 1
    split <;> rename_i hfound <;> simp only [hfound]
  · intro tail htail
    rw [htail] at hnext
    exact hnext rfl

/-- A balanced source in braces is cut out, and the walk starts anew behind it. -/
theorem ofCharsFrom_placeholder {source : List Char} (hopen : source.head? ≠ some '{')
    (hbalanced : Balanced source) (read rest : List Char) :
    ofCharsFrom read ('{' :: (source ++ '}' :: rest)) =
      ofRead read ++ .placeholder source :: ofCharsFrom [] rest := by
  have hnext : (source ++ '}' :: rest).head? ≠ some '{' := by
    cases source with
    | nil => simp
    | cons c source => simpa using hopen
  have hfound : takeBalanced 0 (source ++ '}' :: rest) = some (source, rest) :=
    takeBalanced_complete rest hbalanced.1 (by simpa using hbalanced.2)
  rw [ofCharsFrom_open hnext, hfound]

theorem ofCharsFrom_verbatim {cs : List Char} (hnext : cs.head? ≠ some '{')
    (hstays : ClosesAtMost 0 cs) (read : List Char) :
    ofCharsFrom read ('{' :: cs) = ofRead read ++ [.verbatim ('{' :: cs)] := by
  rw [ofCharsFrom_open hnext, takeBalanced_eq_none_iff.mpr hstays]

/-! ## The grammar

The grammar says of each piece what it looks like and of neighbours whether they may stand side by
side. It does not say where a piece ends; that there is only one place for that is a theorem. -/

/-- What a piece of each kind is made of. -/
def WellFormed : Piece → Prop
  | literal content => content ≠ [] ∧ EvenRuns content
  | verbatim content =>
    (∃ cs, content = '{' :: cs ∧ cs.head? ≠ some '{') ∧ StaysOpen content
  | placeholder source =>
    source.head? ≠ some '{' ∧ StaysOpen ('{' :: source) ∧ braceDepth source = 0

/-- Whether a piece may stand directly in front of another: nothing follows a verbatim literal, and
two other literals are not side by side. -/
def MayPrecede : Piece → Piece → Prop
  | verbatim _, _ => False
  | literal _, literal _ => False
  | _, _ => True

/-- The text `cs` is cut into `pieces`. -/
structure Cut (cs : List Char) (pieces : List Piece) : Prop where
  /-- Together the pieces are the text. -/
  display : pieces.flatMap Piece.display = cs
  wellFormed : ∀ piece ∈ pieces, piece.WellFormed
  chain : pieces.IsChain MayPrecede

theorem wellFormed_placeholder {source : List Char} :
    (placeholder source).WellFormed ↔ source.head? ≠ some '{' ∧ Balanced source := by
  rw [WellFormed, staysOpen_open, Balanced]

/-- A rest that is never closed is well-formed if its first brace is a lone one and stays open. -/
theorem wellFormed_verbatim {cs : List Char} :
    (verbatim ('{' :: cs)).WellFormed ↔ cs.head? ≠ some '{' ∧ ClosesAtMost 0 cs := by
  rw [WellFormed, staysOpen_open]
  constructor
  · intro h
    obtain ⟨⟨tail, heq, hnext⟩, hstays⟩ := h
    rw [(List.cons.inj heq).2]
    exact ⟨hnext, (List.cons.inj heq).2 ▸ hstays⟩
  · intro h
    obtain ⟨hnext, hstays⟩ := h
    exact ⟨⟨cs, rfl, hnext⟩, hstays⟩

/-! ## The walk cuts by the grammar

The invariant of the walk is that the characters collected so far have their braces in pairs. It is
kept by every character, and when a literal is finished it is what the grammar asks of it. -/

theorem flatMap_display_ofRead (read : List Char) :
    (ofRead read).flatMap display = read.reverse := by
  cases read with
  | nil => rfl
  | cons c read => simp [ofRead, display]

/-- The literal of the characters collected so far is well-formed if they have their braces in
pairs. -/
theorem wellFormed_ofRead {read : List Char} (hpaired : Paired read.reverse) :
    ∀ piece ∈ ofRead read, piece.WellFormed := by
  cases read with
  | nil => simp [ofRead]
  | cons c read =>
    intro piece hpiece
    have hliteral : piece = .literal (c :: read).reverse := by simpa [ofRead] using hpiece
    rw [hliteral]
    exact ⟨by simp, paired_iff_evenRuns.mp hpaired⟩

/-- Pieces may follow the literal of the characters collected so far unless they start with a
literal themselves. -/
theorem cut_ofRead_append {read cs : List Char} {pieces : List Piece} (hpaired : Paired read.reverse)
    (hcut : Cut cs pieces) (hhead : ∀ content, pieces.head? ≠ some (.literal content)) :
    Cut (read.reverse ++ cs) (ofRead read ++ pieces) := by
  obtain ⟨hdisplay, hwell, hchain⟩ := hcut
  cases read with
  | nil => exact ⟨hdisplay, hwell, hchain⟩
  | cons c read =>
    refine ⟨?_, ?_, ?_⟩
    · rw [List.flatMap_append, flatMap_display_ofRead, hdisplay]
    · intro piece hpiece
      rcases List.mem_append.mp hpiece with hread | hrest
      · exact wellFormed_ofRead hpaired piece hread
      · exact hwell piece hrest
    · refine List.isChain_cons.mpr ⟨fun piece hpiece => ?_, hchain⟩
      cases piece with
      | literal content => exact absurd hpiece (hhead content)
      | verbatim content => trivial
      | placeholder source => trivial

theorem cut_nil : Cut [] [] := ⟨rfl, by simp, List.isChain_nil⟩

/-- A rest that is never closed is one piece. -/
theorem cut_verbatim {cs : List Char} (hnext : cs.head? ≠ some '{') (hstays : ClosesAtMost 0 cs) :
    Cut ('{' :: cs) [.verbatim ('{' :: cs)] := by
  refine ⟨by simp [display], ?_, List.isChain_singleton _⟩
  intro piece hpiece
  rw [List.mem_singleton.mp hpiece]
  exact wellFormed_verbatim.mpr ⟨hnext, hstays⟩

/-- A placeholder may stand in front of any cut. -/
theorem cut_placeholder {source rest : List Char} {pieces : List Piece}
    (hopen : source.head? ≠ some '{') (hbalanced : Balanced source) (hcut : Cut rest pieces) :
    Cut ('{' :: (source ++ '}' :: rest)) (.placeholder source :: pieces) := by
  obtain ⟨hdisplay, hwell, hchain⟩ := hcut
  refine ⟨?_, ?_, List.isChain_cons.mpr ⟨fun piece _ => ?_, hchain⟩⟩
  · rw [List.flatMap_cons, hdisplay]
    simp [display]
  · intro piece hpiece
    rcases List.mem_cons.mp hpiece with rfl | hrest
    · exact wellFormed_placeholder.mpr ⟨hopen, hbalanced⟩
    · exact hwell piece hrest
  · cases piece <;> trivial

/-- What the walk makes of the rest of a text, when the characters collected so far have their
braces in pairs, is a cut of these characters and the rest. Induction along the walk: at a lone
brace the search decides between a placeholder and a rest that is never closed. -/
theorem ofCharsFrom_cut (read cs : List Char) (hpaired : Paired read.reverse) :
    Cut (read.reverse ++ cs) (ofCharsFrom read cs) := by
  induction read, cs using ofCharsFrom.induct with
  | case1 read =>
    rw [ofCharsFrom]
    simpa using cut_ofRead_append hpaired cut_nil (by simp)
  | case2 read cs ih =>
    -- two braces are collected at once, which keeps the invariant
    have hread : Paired ('{' :: '{' :: read).reverse := by
      rw [List.reverse_cons, List.reverse_cons, List.append_assoc]
      exact hpaired.append trivial
    rw [ofCharsFrom]
    simpa using ih hread
  | case3 read cs hlone ih =>
    have hnext : cs.head? ≠ some '{' := fun hhead => by
      obtain ⟨tail, rfl⟩ := List.head?_eq_some_iff.mp hhead
      exact hlone tail rfl
    rw [ofCharsFrom_open hnext]
    cases hfound : takeBalanced 0 cs with
    | none =>
      have hstays := takeBalanced_eq_none_iff.mp hfound
      exact cut_ofRead_append hpaired (cut_verbatim hnext hstays) (by simp)
    | some found =>
      obtain ⟨source, rest⟩ := found
      obtain ⟨rfl, hbound, hdepth⟩ := takeBalanced_eq_some_iff.mp hfound
      -- the brace is a lone one, so the source does not go on with another
      have hopen : source.head? ≠ some '{' := by
        cases source with
        | nil => simp
        | cons c source => simpa using hnext
      have hrest := ih source rest hfound paired_nil
      refine cut_ofRead_append hpaired (cut_placeholder hopen ⟨hbound, ?_⟩ hrest) (by simp)
      simpa using hdepth
  | case4 read c cs hpair hopen ih =>
    have hread : Paired (c :: read).reverse := by
      rw [List.reverse_cons]
      exact hpaired.append ((paired_other (fun hc => hopen hc) []).mpr trivial)
    rw [ofCharsFrom]
    · simpa using ih hread
    · exact hpair
    · exact hopen

/-- The walk cuts a text by the grammar. -/
theorem ofChars_cut (cs : List Char) : Cut cs (ofChars cs) := by
  simpa [ofChars] using ofCharsFrom_cut [] cs paired_nil

/-! ## There is no other cut

Pieces that the grammar allows are found again by the walk: it does not stop inside a literal, since
the braces there come in pairs, and it stops at the end of one, since the next piece starts with a
lone brace. -/

/-- What the walk makes of the text of some pieces. A literal in front would grow together with the
characters collected so far, so there are none of these or the pieces start otherwise. Induction on
the pieces. -/
theorem ofCharsFrom_flatMap {pieces : List Piece} (hwell : ∀ piece ∈ pieces, piece.WellFormed)
    (hchain : pieces.IsChain MayPrecede) {read : List Char}
    (hread : read = [] ∨ ∀ content, pieces.head? ≠ some (.literal content)) :
    ofCharsFrom read (pieces.flatMap display) = ofRead read ++ pieces := by
  induction pieces generalizing read with
  | nil =>
    rw [List.flatMap_nil, ofCharsFrom, List.append_nil]
  | cons piece rest ih =>
    obtain ⟨hnext, htail⟩ := List.isChain_cons.mp hchain
    have hrest : ∀ piece ∈ rest, piece.WellFormed := fun piece hpiece =>
      hwell piece (List.mem_cons_of_mem _ hpiece)
    have hpiece := hwell piece List.mem_cons_self
    rw [List.flatMap_cons]
    cases piece with
    | literal content =>
      -- the walk collects the whole literal; its neighbour is none, so it ends there
      have hempty : read = [] := hread.resolve_right (by simp)
      obtain ⟨hne, heven⟩ := hpiece
      have hstart : ∀ content, rest.head? ≠ some (.literal content) := fun other hhead =>
        hnext (.literal other) hhead
      rw [hempty, display, ofCharsFrom_paired (paired_iff_evenRuns.mpr heven), List.append_nil,
        ih hrest htail (Or.inr hstart), ofRead_reverse hne]
      rfl
    -- nothing may follow it, so it is the last piece
    | verbatim content =>
      have hlast : rest = [] := by
        cases rest with
        | nil => rfl
        | cons other rest => exact absurd (hnext other rfl) not_false
      obtain ⟨⟨cs, rfl, _⟩, _⟩ := id hpiece
      obtain ⟨hlone, hstays⟩ := wellFormed_verbatim.mp hpiece
      rw [hlast, List.flatMap_nil, List.append_nil, display, ofCharsFrom_verbatim hlone hstays]
    | placeholder source =>
      obtain ⟨hopen, hbalanced⟩ := wellFormed_placeholder.mp hpiece
      have hshape : display (.placeholder source) ++ rest.flatMap display =
          '{' :: (source ++ '}' :: rest.flatMap display) := by
        simp [display]
      rw [hshape, ofCharsFrom_placeholder hopen hbalanced, ih hrest htail (Or.inl rfl)]
      rfl

/-- A cut by the grammar is the one of the walk. -/
theorem eq_ofChars_of_cut {cs : List Char} {pieces : List Piece} (hcut : Cut cs pieces) :
    pieces = ofChars cs := by
  rw [ofChars, ← hcut.display, ofCharsFrom_flatMap hcut.wellFormed hcut.chain (Or.inl rfl)]
  rfl

end Piece

end Stencil
