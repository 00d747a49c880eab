import Stencil.Proofs.Outcome
import Stencil.Proofs.Pieces

/-!
# What the scanner accepts

`Fragment.scan` cuts a text into pieces and reads the expressions of its placeholders. The cut is
that of the grammar (`Piece.Cut`); the scan succeeds if every placeholder holds an expression, and
otherwise its error is that of the leftmost placeholder that holds none.

* **`Fragment.Cut`** — the grammar on fragments: a fragment is a piece (`Fragment.piece`), together
  with the expression if it is a placeholder.
* **`Fragment.scan_exact`** — the scan yields the fragments of the grammar and nothing else.
-/

namespace Stencil

namespace Fragment

variable {ε : Type} {parse : String → Except ε Expr} {describe : ε → String}

/-- The piece that a fragment is, without the expression of a placeholder. -/
def piece : Fragment → Piece
  | literal content => .literal content.toList
  | verbatim content => .verbatim content.toList
  | placeholder source _ => .placeholder source.toList

/-- The text `text` is cut into `fragments`, where `parse` reads expressions. -/
structure Cut (parse : String → Except ε Expr) (text : String) (fragments : List Fragment) :
    Prop where
  /-- Together the fragments are the text. -/
  display : String.join (fragments.map Fragment.display) = text
  wellFormed : ∀ fragment ∈ fragments, fragment.piece.WellFormed
  chain : (fragments.map piece).IsChain Piece.MayPrecede
  /-- A placeholder has the expression that its source holds. -/
  parsed : ∀ source expr, .placeholder source expr ∈ fragments → parse source = .ok expr

/-- A fragment is shown as its piece is. Only a placeholder has more to it, and its expression does
not show. -/
theorem toList_display (fragment : Fragment) :
    fragment.display.toList = fragment.piece.display := by
  cases fragment with
  | literal content => rfl
  | verbatim content => rfl
  | placeholder source expr => simp [display, piece, Piece.display, braced]

theorem toList_join_display (fragments : List Fragment) :
    (String.join (fragments.map display)).toList = (fragments.map piece).flatMap Piece.display := by
  rw [String.toList_join, List.flatMap_map, List.flatMap_map]
  exact List.flatMap_congr fun fragment _ => toList_display fragment

/-- The grammar on fragments is the grammar on their pieces, and that of the expressions. The two do
not meet anywhere else: what is a placeholder is settled before any expression is read. -/
theorem cut_iff {text : String} {fragments : List Fragment} :
    Cut parse text fragments ↔
      Piece.Cut text.toList (fragments.map piece) ∧
        ∀ source expr, .placeholder source expr ∈ fragments → parse source = .ok expr := by
  constructor
  · intro h
    obtain ⟨hdisplay, hwell, hchain, hparsed⟩ := h
    refine ⟨⟨?_, ?_, hchain⟩, hparsed⟩
    · rw [← toList_join_display, hdisplay]
    · intro p hp
      obtain ⟨fragment, hfragment, rfl⟩ := List.mem_map.mp hp
      exact hwell fragment hfragment
  · intro h
    obtain ⟨⟨hdisplay, hwell, hchain⟩, hparsed⟩ := h
    refine ⟨?_, fun fragment hfragment => ?_, hchain, hparsed⟩
    · apply String.toList_injective
      rw [toList_join_display, hdisplay]
    · exact hwell fragment.piece (List.mem_map_of_mem hfragment)

/-! ## From pieces to fragments

The scan makes fragments of the pieces one after the other and stops at the first error. Each lemma
of this section is first about one piece and then about all of them. -/

/-- A fragment with a placeholder as its piece is one, with some expression. -/
theorem eq_placeholder_of_piece {fragment : Fragment} {source : List Char}
    (h : fragment.piece = .placeholder source) :
    ∃ expr, fragment = .placeholder (String.ofList source) expr := by
  cases fragment with
  | literal content => cases h
  | verbatim content => cases h
  | placeholder source' expr =>
    have hsource : source'.toList = source := by simpa [piece] using h
    exact ⟨expr, by rw [← hsource, String.ofList_toList]⟩

/-- **The fragment of a piece**: the same text, and for a placeholder the expression that its source
holds. Literals always have one, so the only question is whether the source of a placeholder can be
read. -/
theorem ofPiece_eq_ok_iff {p : Piece} {fragment : Fragment} :
    ofPiece parse describe p = .ok fragment ↔
      fragment.piece = p ∧
        ∀ source expr, fragment = .placeholder source expr → parse source = .ok expr := by
  constructor
  · intro h
    cases p with
    | literal content =>
      cases h
      exact ⟨by simp [piece], by rintro _ _ ⟨⟩⟩
    | verbatim content =>
      cases h
      exact ⟨by simp [piece], by rintro _ _ ⟨⟩⟩
    -- a placeholder needs its source to be read
    | placeholder source =>
      rw [ofPiece] at h
      split at h
      · next expr hexpr =>
        cases h
        refine ⟨by simp [piece], ?_⟩
        rintro _ _ ⟨⟩
        exact hexpr
      · cases h
  · intro h
    obtain ⟨rfl, hparsed⟩ := h
    cases fragment with
    | literal content => simp [piece, ofPiece]
    | verbatim content => simp [piece, ofPiece]
    | placeholder source expr => simp [piece, ofPiece, hparsed source expr rfl]

/-- Only a placeholder can go wrong, and then the error has its source and the reason in it. -/
theorem ofPiece_eq_error_iff {p : Piece} {error : Error} :
    ofPiece parse describe p = .error error ↔
      ∃ source reason, p = .placeholder source ∧
        parse (String.ofList source) = .error reason ∧
        error = .invalidExpression (String.ofList source) (describe reason) := by
  constructor
  · intro h
    cases p with
    | literal content => cases h
    | verbatim content => cases h
    | placeholder source =>
      rw [ofPiece] at h
      split at h
      · cases h
      · next reason hreason =>
        cases h
        exact ⟨source, reason, rfl, hreason, rfl⟩
  · intro h
    obtain ⟨source, reason, rfl, hreason, rfl⟩ := h
    simp only [ofPiece, hreason]

/-- The fragments of some pieces are those with these pieces and with the right expressions.
Induction on the pieces; the first fragment is that of the first piece, and the rest is the
hypothesis. -/
theorem mapM_ofPiece_eq_ok_iff {pieces : List Piece} {fragments : List Fragment} :
    pieces.mapM (ofPiece parse describe) = .ok fragments ↔
      fragments.map piece = pieces ∧
        ∀ source expr, .placeholder source expr ∈ fragments → parse source = .ok expr := by
  induction pieces generalizing fragments with
  | nil =>
    constructor
    · rintro ⟨⟩
      exact ⟨rfl, by simp⟩
    · intro h
      obtain ⟨hpieces, _⟩ := h
      rw [List.map_eq_nil_iff.mp hpieces]
      rfl
  -- both sides are taken apart at the first fragment
  | cons p pieces ih =>
    rw [mapM_cons_eq_ok_iff]
    constructor
    · intro h
      obtain ⟨fragment, rest, hfragment, hrest, rfl⟩ := h
      obtain ⟨rfl, hhead⟩ := ofPiece_eq_ok_iff.mp hfragment
      obtain ⟨rfl, htail⟩ := ih.mp hrest
      refine ⟨rfl, fun source expr hmem => ?_⟩
      rcases List.mem_cons.mp hmem with heq | hmem
      · exact hhead source expr heq.symm
      · exact htail source expr hmem
    · intro h
      obtain ⟨hpieces, hparsed⟩ := h
      cases fragments with
      | nil => simp at hpieces
      | cons fragment rest =>
        obtain ⟨hhead, htail⟩ := List.cons.inj hpieces
        refine ⟨fragment, rest, ofPiece_eq_ok_iff.mpr ⟨hhead, ?_⟩, ih.mpr ⟨htail, ?_⟩, rfl⟩
        · rintro source expr rfl
          exact hparsed source expr List.mem_cons_self
        · intro source expr hmem
          exact hparsed source expr (List.mem_cons_of_mem _ hmem)

/-- The scan yields the cuts of the text. There is one way to cut a text into pieces, so the pieces
of any cut are those of the walk. -/
theorem scan_eq_ok_iff {text : String} {fragments : List Fragment} :
    scan parse describe text = .ok fragments ↔ Cut parse text fragments := by
  rw [scan, mapM_ofPiece_eq_ok_iff, cut_iff]
  constructor
  · intro h
    obtain ⟨hpieces, hparsed⟩ := h
    exact ⟨hpieces ▸ Piece.ofChars_cut text.toList, hparsed⟩
  · intro h
    obtain ⟨hcut, hparsed⟩ := h
    -- a cut has the pieces of the walk, since there is no other
    exact ⟨Piece.eq_ofChars_of_cut hcut, hparsed⟩

/-- The error of a scan is that of the first placeholder without an expression: all pieces in front
of it have become fragments. -/
theorem scan_eq_error_iff {text : String} {error : Error} :
    scan parse describe text = .error error ↔
      ∃ before source after reason,
        Piece.ofChars text.toList = before ++ .placeholder source :: after ∧
          (∀ p ∈ before, ∃ fragment, ofPiece parse describe p = .ok fragment) ∧
          parse (String.ofList source) = .error reason ∧
          error = .invalidExpression (String.ofList source) (describe reason) := by
  rw [scan, mapM_eq_error_iff]
  constructor
  · intro h
    obtain ⟨before, p, after, heq, hbefore, hp⟩ := h
    obtain ⟨source, reason, rfl, hreason, rfl⟩ := ofPiece_eq_error_iff.mp hp
    exact ⟨before, source, after, reason, heq, hbefore, hreason, rfl⟩
  · intro h
    obtain ⟨before, source, after, reason, heq, hbefore, hreason, rfl⟩ := h
    exact ⟨before, .placeholder source, after, heq, hbefore,
      ofPiece_eq_error_iff.mpr ⟨source, reason, rfl, hreason, rfl⟩⟩

/-- A scan that meets a placeholder without an expression has no fragments. -/
theorem exists_error_of_mem {text : String} {source : List Char} {reason : ε}
    (hmem : .placeholder source ∈ Piece.ofChars text.toList)
    (hreason : parse (String.ofList source) = .error reason) :
    ∃ error, scan parse describe text = .error error := by
  cases hscan : scan parse describe text with
  | error error => exact ⟨error, rfl⟩
  | ok fragments =>
    rw [scan, mapM_ofPiece_eq_ok_iff] at hscan
    obtain ⟨hpieces, hparsed⟩ := hscan
    rw [← hpieces] at hmem
    obtain ⟨fragment, hfragment, hpiece⟩ := List.mem_map.mp hmem
    obtain ⟨expr, rfl⟩ := eq_placeholder_of_piece hpiece
    rw [hparsed _ expr hfragment] at hreason
    cases hreason

/-- **The scanner accepts its grammar and nothing else.** The first part says both that what the
scan yields is a cut and that it is the only one, since a scan has one outcome. The decomposition
into pieces exists for every text, whether or not the placeholders hold expressions; the last part
names the leftmost placeholder without one, and the error that is reported of it. -/
theorem scan_exact (parse : String → Except ε Expr) (describe : ε → String) (text : String) :
    (∀ fragments, scan parse describe text = .ok fragments ↔ Cut parse text fragments) ∧
    ∃ pieces, Piece.Cut text.toList pieces ∧
      (∀ other, Piece.Cut text.toList other → other = pieces) ∧
      ((∃ error, scan parse describe text = .error error) ↔
        ∃ source reason, .placeholder source ∈ pieces ∧
          parse (String.ofList source) = .error reason) ∧
      ∀ error, scan parse describe text = .error error →
        ∃ before source after reason, pieces = before ++ .placeholder source :: after ∧
          (∀ earlier, .placeholder earlier ∈ before →
            ∃ expr, parse (String.ofList earlier) = .ok expr) ∧
          parse (String.ofList source) = .error reason ∧
          error = .invalidExpression (String.ofList source) (describe reason) := by
  refine ⟨fun fragments => scan_eq_ok_iff, Piece.ofChars text.toList,
    Piece.ofChars_cut text.toList, fun other => Piece.eq_ofChars_of_cut, ?_, ?_⟩
  · -- an error comes from a placeholder, and a placeholder without an expression makes one
    constructor
    · intro h
      obtain ⟨error, herror⟩ := h
      obtain ⟨before, source, after, reason, heq, _, hreason, _⟩ := scan_eq_error_iff.mp herror
      exact ⟨source, reason, heq ▸ List.mem_append_right before List.mem_cons_self, hreason⟩
    · intro h
      obtain ⟨source, reason, hmem, hreason⟩ := h
      exact exists_error_of_mem hmem hreason
  · intro error herror
    obtain ⟨before, source, after, reason, heq, hbefore, hreason, hmessage⟩ :=
      scan_eq_error_iff.mp herror
    refine ⟨before, source, after, reason, heq, fun earlier hearlier => ?_, hreason, hmessage⟩
    -- an earlier piece became a fragment, so it holds an expression if it is a placeholder
    obtain ⟨fragment, hfragment⟩ := hbefore _ hearlier
    obtain ⟨hpiece, hparsed⟩ := ofPiece_eq_ok_iff.mp hfragment
    obtain ⟨expr, rfl⟩ := eq_placeholder_of_piece hpiece
    exact ⟨expr, hparsed _ expr rfl⟩

end Fragment

end Stencil
