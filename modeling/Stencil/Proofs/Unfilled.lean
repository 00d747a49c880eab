import Stencil.Proofs.Abort
import Stencil.Proofs.Scan

/-!
# Templates that come back as written

A rendering in which no placeholder has a value writes every placeholder as its source. The template
comes back, but for one thing: the literals are still read as literals, with doubled braces made
single.

* **`undouble_eq_self`**, **`byteLength_undouble_lt`** — a text without doubled characters stays as
  it is, and any other becomes shorter.
* **`Fragment.unfilled`** — what becomes of a fragment; `unfilled_eq_display` and
  `utf8ByteSize_unfilled_lt` are the same two cases for it.
* **`render_unfilled`** — the output is the text of the template, or shorter.
-/

namespace Stencil

open Text

/-! ## Doubled characters

Doubled braces are looked for from the left, pair by pair. All three lemmas go along that walk: a
pair is found and one of it is dropped, or it is none and one character is passed. -/

variable {c : Char} {cs : List Char}

theorem pair_infix_cons {a b : Char} :
    [c, c] <:+: a :: b :: cs ↔ a = c ∧ b = c ∨ [c, c] <:+: b :: cs := by
  rw [List.infix_cons_iff, List.cons_prefix_cons, List.cons_prefix_cons, and_iff_left List.nil_prefix,
    eq_comm, eq_comm (a := c)]

/-- Where none are doubled nothing is dropped. -/
theorem undouble_eq_self (h : ¬ [c, c] <:+: cs) : undouble c cs = cs := by
  fun_induction undouble c cs with
  | case1 a b cs hboth ih => exact absurd (pair_infix_cons.mpr (.inl hboth)) h
  | case2 a b cs hboth ih => rw [ih fun hrest => h (pair_infix_cons.mpr (.inr hrest))]
  | case3 cs hshort => rfl

/-- Nothing becomes longer. -/
theorem byteLength_undouble_le (c : Char) (cs : List Char) :
    byteLength (undouble c cs) ≤ byteLength cs := by
  fun_induction undouble c cs with
  | case1 a b cs hboth ih =>
    obtain ⟨rfl, rfl⟩ := hboth
    simp only [byteLength_cons]
    omega
  | case2 a b cs hboth ih =>
    rw [byteLength_cons, byteLength_cons a]
    omega
  | case3 cs hshort => exact Nat.le_refl _

/-- Where two stand in a row one of them is dropped, so the text becomes shorter. Induction along
the walk: at the pair a character is gone, and `byteLength_undouble_le` does for the rest; without
one the pair is further on. -/
theorem byteLength_undouble_lt (h : [c, c] <:+: cs) :
    byteLength (undouble c cs) < byteLength cs := by
  fun_induction undouble c cs with
  | case1 a b cs hboth ih =>
    -- one of the two characters is gone, whatever becomes of the rest
    obtain ⟨rfl, rfl⟩ := hboth
    have hrest := byteLength_undouble_le b cs
    have hsize := b.utf8Size_pos
    simp only [byteLength_cons]
    omega
  | case2 a b cs hboth ih =>
    have hrest := ih ((pair_infix_cons.mp h).resolve_left hboth)
    rw [byteLength_cons, byteLength_cons a]
    omega
  | case3 cs hshort =>
    -- a text of one character has no two in a row
    have hlength := h.length_le
    match cs with
    | [] => simp at hlength
    | [a] => simp at hlength
    | a :: b :: cs => exact absurd rfl (hshort a b cs)

/-! ## Lengths of texts

The output and the template are joined of pieces one by one, so their lengths are compared piece by
piece. -/

section

variable {α : Type} {short long : α → String} {xs : List α}

/-- If no piece is longer, the whole is not. -/
theorem utf8ByteSize_join_le (h : ∀ x ∈ xs, (short x).utf8ByteSize ≤ (long x).utf8ByteSize) :
    (String.join (xs.map short)).utf8ByteSize ≤ (String.join (xs.map long)).utf8ByteSize := by
  induction xs with
  | nil => exact Nat.le_refl _
  | cons x xs ih =>
    obtain ⟨hx, hxs⟩ := List.forall_mem_cons.mp h
    have hrest := ih hxs
    simp only [List.map_cons, String.join_cons, String.utf8ByteSize_append]
    omega

/-- If one is shorter besides, the whole is. -/
theorem utf8ByteSize_join_lt (h : ∀ x ∈ xs, (short x).utf8ByteSize ≤ (long x).utf8ByteSize) {x : α}
    (hmem : x ∈ xs) (hlt : (short x).utf8ByteSize < (long x).utf8ByteSize) :
    (String.join (xs.map short)).utf8ByteSize < (String.join (xs.map long)).utf8ByteSize := by
  obtain ⟨before, after, rfl⟩ := List.append_of_mem hmem
  rw [List.forall_mem_append, List.forall_mem_cons] at h
  have hbefore := utf8ByteSize_join_le h.1
  have hafter := utf8ByteSize_join_le h.2.2
  simp only [List.map_append, List.map_cons, String.join_append, String.join_cons,
    String.utf8ByteSize_append]
  omega

end

/-! ## Fragments of which nothing is filled in

What becomes of a fragment then depends on the fragment alone, so it is a function of it. Only
literals are read on the way, and only for doubled braces. -/

namespace Fragment

/-- What the fragment appears as if nothing is filled in: a literal as the text that it stands for,
and a placeholder as it is written. -/
def unfilled (fragment : Fragment) : String := fragment.literalText?.getD fragment.display

/-- The fragment is a literal in which braces are made single. -/
def HasDoubledBraces (fragment : Fragment) : Prop :=
  ∃ content, fragment = .literal content ∧
    (['{', '{'] <:+: content.toList ∨ ['}', '}'] <:+: content.toList)

variable {fragment : Fragment}

/-- A fragment without doubled braces appears as it is written. -/
theorem unfilled_eq_display (h : ¬ fragment.HasDoubledBraces) :
    fragment.unfilled = fragment.display := by
  cases fragment with
  | literal content =>
    have hopen : ¬ ['{', '{'] <:+: content.toList := fun hopen => h ⟨content, rfl, .inl hopen⟩
    have hclose : ¬ ['}', '}'] <:+: content.toList := fun hclose => h ⟨content, rfl, .inr hclose⟩
    rw [unfilled, literalText?, undouble_eq_self hopen, undouble_eq_self hclose,
      String.ofList_toList]
    rfl
  | verbatim content => rfl
  | placeholder source expr => rfl

/-- With doubled braces it appears shorter. If there are no opening ones to be made single, the
closing ones are found as they were. -/
theorem utf8ByteSize_unfilled_lt (h : fragment.HasDoubledBraces) :
    fragment.unfilled.utf8ByteSize < fragment.display.utf8ByteSize := by
  obtain ⟨content, rfl, hbraces⟩ := h
  show (String.ofList (undouble '}' (undouble '{' content.toList))).utf8ByteSize <
    content.utf8ByteSize
  rw [utf8ByteSize_eq_byteLength, utf8ByteSize_eq_byteLength, String.toList_ofList]
  by_cases hopen : ['{', '{'] <:+: content.toList
  · exact (byteLength_undouble_le _ _).trans_lt (byteLength_undouble_lt hopen)
  · rw [undouble_eq_self hopen]
    exact byteLength_undouble_lt (hbraces.resolve_left hopen)

/-- It never appears longer. -/
theorem utf8ByteSize_unfilled_le (fragment : Fragment) :
    fragment.unfilled.utf8ByteSize ≤ fragment.display.utf8ByteSize := by
  by_cases h : fragment.HasDoubledBraces
  · exact (utf8ByteSize_unfilled_lt h).le
  · rw [unfilled_eq_display h]

/-- What a fragment appears as where its placeholder has no value. -/
theorem output_unfilled {engine : Engine} {document : Json} {config : RenderConfig}
    (h : ∀ source expr, fragment = .placeholder source expr →
      (expr.evaluate (engine.environment document config)).result = .ok .null ∨
      ∃ error, (expr.evaluate (engine.environment document config)).result =
        .error (.failed error)) :
    fragment.output engine document config = .ok fragment.unfilled := by
  cases fragment with
  | literal content => rfl
  | verbatim content => rfl
  | placeholder source expr =>
    show (Template.renderPlaceholder source _ config).result = _
    rw [result_renderPlaceholder]
    rcases h source expr rfl with hnull | ⟨error, herror⟩
    · rw [hnull]
      rfl
    · rw [herror]
      rfl

end Fragment

/-! ## Templates

A template is the fragments of its text, so all of them together are the text, and their outputs
together are its rendering. What is known of one fragment is summed up. -/

/-- If every piece has an output, all of them together are the output. -/
theorem joinOutputs_of_ok {α : Type} {output : α → Except Stop String} {text : α → String}
    {xs : List α} (h : ∀ x ∈ xs, output x = .ok (text x)) :
    joinOutputs output xs = .ok (String.join (xs.map text)) := by
  induction xs with
  | nil => exact joinOutputs_nil output
  | cons x xs ih =>
    obtain ⟨hx, hxs⟩ := List.forall_mem_cons.mp h
    rw [joinOutputs_cons, hx, ih hxs, List.map_cons, String.join_cons]
    rfl

/-- The fragments of a template are those of its text. -/
theorem Template.cut_of_compile {text : String} {config : RenderConfig} {template : Template}
    (h : compile text config = .ok template) :
    Fragment.Cut Expr.parse text template.fragments ∧ template.config = config := by
  obtain ⟨fragments, hscan, htemplate⟩ := bind_eq_ok_iff.mp h
  cases htemplate
  exact ⟨Fragment.scan_eq_ok_iff.mp hscan, rfl⟩

/-- **A template in which nothing is filled in comes back as written.** Every placeholder that has
the value null or ends with an error is written as its source in braces, so that only literals can
change. The output is the text of the template if no literal has two opening or two closing braces
in a row, and otherwise it is shorter; the open end of a text may have them. -/
theorem render_unfilled {text context : String} {own : RenderConfig} {override : Option RenderConfig}
    {template : Template} {engine : Engine} {document : Json}
    (hcompile : Template.compile text own = .ok template)
    (hdocument : (Template.readContext context).result = .ok document)
    (hunfilled : ∀ source expr, .placeholder source expr ∈ template.fragments →
      let environment := engine.environment document (override.getD own)
      (expr.evaluate environment).result = .ok .null ∨
        ∃ error, (expr.evaluate environment).result = .error (.failed error)) :
    let output := String.join (template.fragments.map Fragment.unfilled)
    (template.render engine context override).result = .ok output ∧
      (output = text ↔ ∀ content, .literal content ∈ template.fragments →
        ¬ ['{', '{'] <:+: content.toList ∧ ¬ ['}', '}'] <:+: content.toList) ∧
      (output ≠ text → output.utf8ByteSize < text.utf8ByteSize) := by
  obtain ⟨hcut, rfl⟩ := Template.cut_of_compile hcompile
  intro output
  have hshorter (hbraces : ∃ fragment ∈ template.fragments, fragment.HasDoubledBraces) :
      output.utf8ByteSize < text.utf8ByteSize := by
    obtain ⟨fragment, hmem, hbraces⟩ := hbraces
    rw [← hcut.display]
    exact utf8ByteSize_join_lt (fun fragment _ => fragment.utf8ByteSize_unfilled_le) hmem
      (Fragment.utf8ByteSize_unfilled_lt hbraces)
  have hsame (hbraces : ¬ ∃ fragment ∈ template.fragments, fragment.HasDoubledBraces) :
      output = text := by
    rw [← hcut.display]
    refine congrArg String.join (List.map_congr_left fun fragment hmem => ?_)
    exact Fragment.unfilled_eq_display fun h => hbraces ⟨fragment, hmem, h⟩
  have hplain : (¬ ∃ fragment ∈ template.fragments, fragment.HasDoubledBraces) ↔
      ∀ content, .literal content ∈ template.fragments →
        ¬ ['{', '{'] <:+: content.toList ∧ ¬ ['}', '}'] <:+: content.toList := by
    constructor
    · intro h content hmem
      exact not_or.mp fun hbraces => h ⟨_, hmem, content, rfl, hbraces⟩
    · rintro h ⟨_, hmem, content, rfl, hbraces⟩
      exact not_or.mpr (h content hmem) hbraces
  refine ⟨?output, ?same, fun hne => hshorter (not_not.mp (mt hsame hne))⟩
  case output =>
    rw [Template.render, Traced.result_bind, hdocument]
    refine (result_renderDocument template engine document _).trans (joinOutputs_of_ok ?_)
    intro fragment hmem
    refine Fragment.output_unfilled ?_
    rintro source expr rfl
    exact hunfilled source expr hmem
  case same =>
    rw [← hplain]
    constructor
    · -- an output that is the template is not shorter than it
      intro heq hbraces
      have hlt := hshorter hbraces
      rw [heq] at hlt
      exact Nat.lt_irrefl _ hlt
    · exact hsame

/-- Of an odd run of closing braces one is lost, and so is one of the opening braces in front of a
space; those behind the brace that stays open to the end are not. -/
theorem render_unfilled_odd_run :
    ∃ template, Template.compile "\x7d\x7d\x7d\x7b$x\x7d\x7b\x7b \x7b1 \x7b\x7b" = .ok template ∧
      (template.render {} "" none).result = .ok "\x7d\x7d\x7b$x\x7d\x7b \x7b1 \x7b\x7b" := by
  have hfragments : (Template.compile "\x7d\x7d\x7d\x7b$x\x7d\x7b\x7b \x7b1 \x7b\x7b").toOption.map
      (fun template => (template.fragments.map Fragment.unfilled,
        template.fragments.filterMap Fragment.source?)) =
      some (["\x7d\x7d", "\x7b$x\x7d", "\x7b ", "\x7b1 \x7b\x7b"], ["$x"]) := by
    decide +kernel
  obtain ⟨template, hcompile, hunfilled⟩ := exists_of_map_toOption hfragments
  obtain ⟨htexts, hsources⟩ := Prod.mk.inj hunfilled
  -- nothing is under that name in the empty document
  have hmissing : (Engine.evaluate {} "$x" .emptyObject {}).result =
      .error (.failed (.unknownVariable "$x")) := by
    refine eq_error_of_map_eq_error (f := fun _ => ()) ?_
    decide +kernel
  have hnothing : ∀ source expr, .placeholder source expr ∈ template.fragments →
      (expr.evaluate (Engine.environment {} .emptyObject {})).result =
        .error (.failed (.unknownVariable "$x")) := by
    intro source expr hmem
    obtain rfl : source = "$x" := by
      have hsource : source ∈ template.fragments.filterMap Fragment.source? :=
        List.mem_filterMap.mpr ⟨_, hmem, rfl⟩
      rw [hsources] at hsource
      exact List.mem_singleton.mp hsource
    have hparse := (Template.cut_of_compile hcompile).1.parsed _ expr hmem
    rwa [Engine.evaluate, hparse] at hmissing
  have hdocument : (Template.readContext "").result = .ok .emptyObject := rfl
  have hrender : (template.render {} "" none).result =
      .ok (String.join (template.fragments.map Fragment.unfilled)) :=
    (render_unfilled hcompile hdocument
      fun source expr hmem => .inr ⟨_, hnothing source expr hmem⟩).1
  rw [htexts] at hrender
  exact ⟨template, hcompile, hrender⟩

end Stencil
