import Stencil.Proofs.Outcome
import Stencil.Proofs.Pieces
import Stencil.Template

/-!
# Templates put together from parts

A host that puts a template together from texts and expressions doubles the braces of the texts and
puts the expressions in braces. The template then renders as the texts, unchanged, and the values of
the expressions, whatever stands side by side.

* **`assemble`** — the text of such a template.
* **`undouble_doubleBraces`** — the rendering of a literal takes the doubling back.
* **`Segment.Stands`** — that fragments stand for some segments behind a literal that is not
  finished. Neighbouring texts become one literal, so fragments and segments do not correspond one
  by one; the text of the unfinished literal, `pending`, is what the induction carries.
* **`exists_stands`** — the walk over an assembled text yields fragments that stand for its
  segments.
* **`render_assembled`** — the round trip.
-/

namespace Stencil

open Text

/-- `cs` with every brace doubled. -/
def doubleBraces (cs : List Char) : List Char :=
  cs.flatMap fun c => if c = '{' ∨ c = '}' then [c, c] else [c]

/-- A part that a template is put together from. -/
inductive Segment where
  /-- A text that is to appear as it is. -/
  | literal (text : String)
  /-- An expression whose value is to appear. -/
  | expression (source : String)

/-- What is put into the text for a placeholder with this outcome of its expression. Nothing is put
there if the evaluation is aborted. -/
def placeholderOutput (source : String) (config : RenderConfig) :
    Except Stop Value → Except Stop String
  | .ok value => .ok (if value.isNull then braced source else value.render config)
  | .error (.failed _) => .ok (braced source)
  | .error .aborted => .error .aborted

namespace Segment

/-- How the segment is written in a template. -/
def written : Segment → String
  | literal text => String.ofList (doubleBraces text.toList)
  | expression source => braced source

/-- The source of an expression. -/
def source? : Segment → Option String
  | literal _ => none
  | expression source => some source

/-- An expression has to be one, and its braces have to be balanced. -/
def Valid : Segment → Prop
  | literal _ => True
  | expression source => (∃ expr, Expr.parse source = .ok expr) ∧ Balanced source.toList

/-- What the segment appears as. -/
def output (engine : Engine) (document : Json) (config : RenderConfig) :
    Segment → Except Stop String
  | literal text => .ok text
  | expression source =>
    placeholderOutput source config (engine.evaluate source document config).result

end Segment

/-- The text of the template that is put together from `segments`. -/
def assemble (segments : List Segment) : String := String.join (segments.map Segment.written)

/-- The source of a placeholder. -/
def Fragment.source? : Fragment → Option String
  | .placeholder source _ => some source
  | _ => none

/-! ## Doubling and its reverse

The two braces are doubled at once but made single one after the other. -/

/-- `cs` with every `c` doubled. -/
def double (c : Char) (cs : List Char) : List Char :=
  cs.flatMap fun a => if a = c then [c, c] else [a]

theorem double_cons_self (c : Char) (cs : List Char) :
    double c (c :: cs) = c :: c :: double c cs := by
  simp [double]

theorem double_cons_of_ne {c a : Char} (hne : a ≠ c) (cs : List Char) :
    double c (a :: cs) = a :: double c cs := by
  simp [double, hne]

/-- Another character is taken over as it is, so a pair never starts with it. -/
theorem undouble_cons_of_ne {c a : Char} (hne : a ≠ c) (cs : List Char) :
    undouble c (a :: cs) = a :: undouble c cs := by
  cases cs with
  | nil => rfl
  | cons b cs => rw [undouble, if_neg (fun hboth => hne hboth.1)]

/-- To make pairs single takes doubling back. Induction on the characters; a doubled character is
one pair, and no pair reaches from one character into the next. -/
theorem undouble_double (c : Char) (cs : List Char) : undouble c (double c cs) = cs := by
  induction cs with
  | nil => rfl
  | cons a cs ih =>
    by_cases hac : a = c
    · subst hac
      rw [double_cons_self, undouble, if_pos ⟨rfl, rfl⟩, ih]
    · rw [double_cons_of_ne hac, undouble_cons_of_ne hac, ih]

/-- Both braces are doubled at once or one kind after the other, which makes no difference as they
are different characters. -/
theorem doubleBraces_eq (cs : List Char) : doubleBraces cs = double '{' (double '}' cs) := by
  induction cs with
  | nil => rfl
  | cons a cs ih =>
    by_cases hopen : a = '{'
    · subst hopen
      rw [double_cons_of_ne (by decide), double_cons_self, ← ih]
      simp [doubleBraces]
    · by_cases hclose : a = '}'
      · subst hclose
        rw [double_cons_self, double_cons_of_ne (by decide), double_cons_of_ne (by decide), ← ih]
        simp [doubleBraces]
      · rw [double_cons_of_ne hclose, double_cons_of_ne hopen, ← ih]
        simp [doubleBraces, hopen, hclose]

/-- What a literal appears as takes the doubling of both braces back. -/
theorem undouble_doubleBraces (cs : List Char) :
    undouble '}' (undouble '{' (doubleBraces cs)) = cs := by
  rw [doubleBraces_eq, undouble_double, undouble_double]

theorem doubleBraces_append (xs ys : List Char) :
    doubleBraces (xs ++ ys) = doubleBraces xs ++ doubleBraces ys := by
  rw [doubleBraces, List.flatMap_append, ← doubleBraces, ← doubleBraces]

theorem doubleBraces_eq_nil {cs : List Char} (h : doubleBraces cs = []) : cs = [] := by
  rw [← undouble_doubleBraces cs, h]
  rfl

/-- Doubled braces stand in pairs. -/
theorem paired_doubleBraces (cs : List Char) : Paired (doubleBraces cs) := by
  induction cs with
  | nil => trivial
  | cons a cs ih =>
    have hsplit : doubleBraces (a :: cs) = doubleBraces [a] ++ doubleBraces cs :=
      doubleBraces_append [a] cs
    rw [hsplit]
    refine Paired.append ?_ ih
    -- a single character: an opening brace becomes a pair, and nothing else starts one
    by_cases hopen : a = '{'
    · subst hopen
      trivial
    · by_cases hclose : a = '}'
      · subst hclose
        exact (paired_other (by decide) _).mpr ((paired_other (by decide) _).mpr trivial)
      · have hsame : doubleBraces [a] = [a] := by simp [doubleBraces, hopen, hclose]
        rw [hsame]
        exact (paired_other hopen []).mpr trivial

/-! ## No expression starts with a brace

An opening brace behind another one is a doubled brace, so a placeholder whose source starts with a
brace would be taken for a literal. There is no such source: a brace is always a token of its own,
and a whole source that starts with this token is refused as a block. -/

/-- The scanner reads an opening brace as a mark, whatever comes behind it. -/
theorem step_open {cs : List Char} (hopen : cs.head? = some '{') (start : Nat) :
    ∃ size rest lt, Lexer.step cs start = .read (.mark .leftBrace) size rest lt := by
  obtain ⟨tail, rfl⟩ := List.head?_eq_some_iff.mp hopen
  -- the branches in front of that of the symbols are for other characters
  have hquote : ¬ (('{' : Char) = '"' ∨ '{' = '\'') := by decide
  have hnumber : Lexer.startsNumber ('{' :: tail) = false := rfl
  have hword : isIdentifierStart '{' = false := by decide
  have hsymbol : Lexer.symbolAt? ('{' :: tail) = some (.mark .leftBrace, 1) := rfl
  rw [Lexer.step, if_neg hquote, dif_neg (by simp [hnumber]), if_neg (by simp [hword])]
  split
  · next hnone => rw [hsymbol] at hnone; cases hnone
  · next token count hsome =>
    rw [hsymbol] at hsome
    cases hsome
    exact ⟨1, tail, Nat.lt_succ_self _, rfl⟩

/-- A source that starts with a brace starts with that token. -/
theorem token?_start_open {source : String} (hopen : source.toList.head? = some '{')
    {c : Parser.Cursor} (h : Parser.start source = .ok c) : c.token? = some (.mark .leftBrace) := by
  have hblank : (source.toList.dropWhile isBlank).head? = some '{' := by
    obtain ⟨tail, htail⟩ := List.head?_eq_some_iff.mp hopen
    have hbrace : isBlank '{' = false := by decide
    rw [htail, List.dropWhile_cons, hbrace]
    rfl
  obtain ⟨size, rest, lt, hstep⟩ :=
    step_open hblank (0 + byteLength (source.toList.takeWhile isBlank))
  rw [Parser.start, Parser.Cursor.checked] at h
  split at h
  · cases h
  · cases h
    rw [Parser.Cursor.token?, Lexed.ofSource, Lexed.scan, hstep]
    rfl

/-- A brace in front of a source is its first token, and the rule of whole sources refuses it as the
start of a block. So the braces of a placeholder around an expression are never doubled ones. -/
theorem head?_ne_of_parse {source : String} {expr : Expr} (h : Expr.parse source = .ok expr) :
    source.toList.head? ≠ some '{' := by
  intro hopen
  rw [Expr.parse] at h
  cases hstart : Parser.start source with
  | error e => rw [hstart] at h; cases h
  | ok c =>
    rw [hstart] at h
    have htoken := token?_start_open hopen hstart
    -- the brace is no semicolon, so it is still there when the rule looks for a block
    have hsemicolons : Parser.semicolons c = .ok ⟨(), c, Nat.le_refl _⟩ := by
      rw [Parser.semicolons]
      split
      · next hsemi => rw [htoken] at hsemi; cases hsemi
      · rfl
    have hprogram : Parser.program c = .ok expr := h
    rw [Parser.program, hsemicolons] at hprogram
    obtain ⟨before, hbefore, hprogram⟩ := bind_eq_ok_iff.mp hprogram
    cases hbefore
    split at hprogram
    · next hnone => rw [htoken] at hnone; cases hnone
    · cases hprogram
    · next token hbrace hother =>
      rw [htoken] at hother
      exact hbrace (Option.some.inj hother).symm

/-! ## What the walk makes of an assembled text

The walk collects the characters of a literal until a placeholder comes. What it has collected is
always the doubled text of some pending segments, so the walk is followed segment by segment. -/

theorem toList_assemble_cons (segment : Segment) (segments : List Segment) :
    (assemble (segment :: segments)).toList =
      segment.written.toList ++ (assemble segments).toList := by
  rw [assemble, List.map_cons, String.join_cons, String.toList_append, ← assemble]

/-- The literal that is written for the text `pending`. -/
def Fragment.ofPending (pending : List Char) : List Fragment :=
  if pending = [] then [] else [.literal (String.ofList (doubleBraces pending))]

/-- What has been collected for a pending text becomes one literal, or none if the text is empty. -/
theorem mapM_ofPiece_ofRead {ε : Type} (parse : String → Except ε Expr) (describe : ε → String)
    (pending : List Char) :
    (Piece.ofRead (doubleBraces pending).reverse).mapM (Fragment.ofPiece parse describe) =
      .ok (Fragment.ofPending pending) := by
  by_cases hempty : pending = []
  · subst hempty
    rfl
  · have hne : doubleBraces pending ≠ [] := fun h => hempty (doubleBraces_eq_nil h)
    rw [Piece.ofRead_reverse hne, Fragment.ofPending, if_neg hempty]
    rfl

/-! ## Outputs one after the other -/

/-- The outputs of the elements of a list in one text, unless one of them has none. -/
def joinOutputs {α : Type} (output : α → Except Stop String) (xs : List α) : Except Stop String :=
  String.join <$> xs.mapM output

section

variable {α : Type} (output : α → Except Stop String)

theorem joinOutputs_nil : joinOutputs output [] = .ok "" := by
  rw [joinOutputs, List.mapM_nil, map_pure, String.join_nil]
  rfl

/-- The outputs come one after the other, and the first one that is missing ends them. -/
theorem joinOutputs_cons (x : α) (xs : List α) :
    joinOutputs output (x :: xs) = do
      let text ← output x
      let rest ← joinOutputs output xs
      return text ++ rest := by
  simp only [joinOutputs, List.mapM_cons, map_bind, map_pure, bind_map_left, String.join_cons]

/-- The outputs of two lists are those of the first and then those of the second. -/
theorem joinOutputs_append (xs ys : List α) :
    joinOutputs output (xs ++ ys) = do
      let text ← joinOutputs output xs
      let rest ← joinOutputs output ys
      return text ++ rest := by
  simp only [joinOutputs, List.mapM_append, map_bind, map_pure, bind_map_left, String.join_append]

end

/-! ## What the fragments render as

Each kind of fragment against the segment that it was written for: a literal gives back the text
before doubling, a placeholder gives the value of its source or the source itself. Only an aborted
evaluation has no output at all. -/

/-- What a fragment appears as. -/
def Fragment.output (engine : Engine) (document : Json) (config : RenderConfig)
    (fragment : Fragment) : Except Stop String :=
  (Template.renderFragment engine document config fragment).result

/-- A pending literal appears as the text that it was written for. -/
theorem joinOutputs_ofPending (engine : Engine) (document : Json) (config : RenderConfig)
    (pending : List Char) :
    joinOutputs (Fragment.output engine document config) (Fragment.ofPending pending) =
      .ok (String.ofList pending) := by
  by_cases hempty : pending = []
  · subst hempty
    exact joinOutputs_nil _
  · have hliteral : Fragment.output engine document config
        (.literal (String.ofList (doubleBraces pending))) = .ok (String.ofList pending) := by
      simp [Fragment.output, Template.renderFragment, Fragment.literalText?, undouble_doubleBraces]
    rw [Fragment.ofPending, if_neg hempty, joinOutputs_cons, joinOutputs_nil, hliteral]
    show Except.ok (String.ofList pending ++ "") = _
    rw [String.append_empty]

/-- The outcome of a placeholder depends on the outcome of its expression only. -/
theorem result_renderPlaceholder (source : String) (value : Traced Value) (config : RenderConfig) :
    (Template.renderPlaceholder source value config).result =
      placeholderOutput source config value.result := by
  rw [Template.renderPlaceholder, Traced.result_recover, Traced.result_bind]
  cases value.result with
  | ok v => rfl
  | error stop => cases stop <;> rfl

/-- A placeholder appears as the value of its expression or as its source. -/
theorem output_placeholder {source : String} {expr : Expr} (hparse : Expr.parse source = .ok expr)
    (engine : Engine) (document : Json) (config : RenderConfig) :
    Fragment.output engine document config (.placeholder source expr) =
      Segment.output engine document config (.expression source) := by
  have hevaluate : engine.evaluate source document config =
      expr.evaluate (engine.environment document config) := by
    rw [Engine.evaluate, hparse]
  -- the engine parses the source again, with the same tree
  rw [Segment.output, hevaluate, Fragment.output]
  exact result_renderPlaceholder source _ config

/-! ## Fragments that stand for segments

Neighbouring texts of a template run together, so the literal that is being read belongs to several
segments. The relation is therefore about the segments that are still to come, with the pending text
as a parameter: a text of the segments makes it longer, and an expression ends it. -/

/-- The fragments stand for the segments, behind a literal text `pending` that is not finished. -/
structure Stands (pending : List Char) (segments : List Segment) (fragments : List Fragment) :
    Prop where
  sources : fragments.filterMap Fragment.source? = segments.filterMap Segment.source?
  output : ∀ engine document config,
    joinOutputs (Fragment.output engine document config) fragments = do
      let text ← joinOutputs (Segment.output engine document config) segments
      return String.ofList pending ++ text

/-- Behind the last segment the pending text is all that is left. -/
theorem stands_nil (pending : List Char) : Stands pending [] (Fragment.ofPending pending) where
  sources := by
    rw [Fragment.ofPending]
    split <;> rfl
  output engine document config := by
    rw [joinOutputs_ofPending, joinOutputs_nil]
    show _ = Except.ok (String.ofList pending ++ "")
    rw [String.append_empty]

/-- A text goes on with the pending literal. -/
theorem Stands.literal {pending : List Char} {text : String} {segments : List Segment}
    {fragments : List Fragment} (h : Stands (pending ++ text.toList) segments fragments) :
    Stands pending (.literal text :: segments) fragments where
  sources := h.sources
  output engine document config := by
    rw [h.output, joinOutputs_cons, String.ofList_append, String.ofList_toList]
    simp only [Segment.output, bind_assoc, pure_bind, String.append_assoc]
    rfl

/-- An expression ends the pending literal. -/
theorem Stands.expression {source : String} {expr : Expr} {segments : List Segment}
    {fragments : List Fragment} (hparse : Expr.parse source = .ok expr)
    (h : Stands [] segments fragments) (pending : List Char) :
    Stands pending (.expression source :: segments)
      (Fragment.ofPending pending ++ .placeholder source expr :: fragments) where
  sources := by
    rw [List.filterMap_append, (stands_nil pending).sources]
    exact congrArg (source :: ·) h.sources
  output engine document config := by
    rw [joinOutputs_append, joinOutputs_ofPending, joinOutputs_cons, joinOutputs_cons,
      output_placeholder hparse, h.output]
    simp only [bind_assoc, pure_bind, String.ofList_nil, String.empty_append]
    rfl

/-- **The walk over an assembled text**, which has collected a pending literal, yields fragments
that stand for the segments. Induction on them: a literal segment joins what is pending, and an
expression finishes it and starts with nothing pending behind its placeholder. -/
theorem exists_stands {segments : List Segment} (hvalid : ∀ segment ∈ segments, segment.Valid)
    (pending : List Char) :
    ∃ fragments,
      (Piece.ofCharsFrom (doubleBraces pending).reverse (assemble segments).toList).mapM
        (Fragment.ofPiece Expr.parse SyntaxError.message) = .ok fragments ∧
      Stands pending segments fragments := by
  induction segments generalizing pending with
  | nil =>
    have hend : (assemble []).toList = [] := rfl
    -- at the end of the text the pending literal is finished
    rw [hend, Piece.ofCharsFrom, mapM_ofPiece_ofRead]
    exact ⟨_, rfl, stands_nil pending⟩
  | cons segment segments ih =>
    have hrest : ∀ segment ∈ segments, segment.Valid := fun segment hsegment =>
      hvalid segment (List.mem_cons_of_mem _ hsegment)
    have hhead := hvalid segment List.mem_cons_self
    rw [toList_assemble_cons]
    cases segment with
    | literal text =>
      -- the doubled text joins what was collected, so the pending literal grows by `text`
      obtain ⟨fragments, hscan, hstands⟩ := ih hrest (pending ++ text.toList)
      refine ⟨fragments, ?_, hstands.literal⟩
      rw [doubleBraces_append, List.reverse_append] at hscan
      rw [Segment.written, String.toList_ofList,
        Piece.ofCharsFrom_paired (paired_doubleBraces text.toList), hscan]
    | expression source =>
      -- the placeholder finishes the pending literal, and the walk goes on with none
      obtain ⟨⟨expr, hparse⟩, hbalanced⟩ := hhead
      obtain ⟨fragments, hscan, hstands⟩ := ih hrest []
      refine ⟨_, ?_, hstands.expression hparse pending⟩
      have hwritten : (Segment.written (.expression source)).toList ++ (assemble segments).toList =
          '{' :: (source.toList ++ '}' :: (assemble segments).toList) := by
        simp [Segment.written, braced]
      have hpiece : Fragment.ofPiece Expr.parse SyntaxError.message (.placeholder source.toList) =
          .ok (.placeholder source expr) := by
        simp [Fragment.ofPiece, hparse]
      have hempty : (doubleBraces []).reverse = [] := rfl
      rw [hempty] at hscan
      rw [hwritten, Piece.ofCharsFrom_placeholder (head?_ne_of_parse hparse) hbalanced,
        List.mapM_append, mapM_ofPiece_ofRead, List.mapM_cons, hpiece, hscan]
      rfl

/-! ## The round trip

The walk starts with nothing pending, so the fragments of the whole text stand for all of the
segments. -/

/-- The rendering of a document is the outputs of the fragments one after the other. -/
theorem result_renderDocument (template : Template) (engine : Engine) (document : Json)
    (config : RenderConfig) :
    (template.renderDocument engine document config).result =
      joinOutputs (Fragment.output engine document config) template.fragments := by
  rw [Template.renderDocument, Traced.result_bind, Traced.result_mapM, joinOutputs]
  show Except.bind (template.fragments.mapM (Fragment.output engine document config)) _ = _
  cases template.fragments.mapM (Fragment.output engine document config) <;> rfl

/-- A context that is no document counts as the empty object, so that a rendering has a document in
any case. -/
theorem result_readContext (context : String) :
    (Template.readContext context).result =
      .ok ((Json.ofContext context).toOption.getD .emptyObject) := by
  unfold Template.readContext
  cases Json.ofContext context <;> rfl

/-- A rendering over a context is one over its document, with the settings that count. -/
theorem result_render (template : Template) (engine : Engine) (context : String)
    (override : Option RenderConfig) :
    (template.render engine context override).result =
      joinOutputs (Fragment.output engine ((Json.ofContext context).toOption.getD .emptyObject)
        (override.getD template.config)) template.fragments := by
  rw [Template.render, Traced.result_bind, result_readContext]
  exact result_renderDocument template engine _ _

/-- **Templates put together from parts render part by part.** The scan of the text succeeds, its
placeholders are the expressions in their order, and the rendering is the texts, unchanged, and the
outputs of the expressions. It is aborted only if the evaluation of an expression is. What the
fragments stand for (`Stands`) says both which sources they have and what they put out. -/
theorem render_assembled (segments : List Segment)
    (hvalid : ∀ segment ∈ segments, segment.Valid) :
    ∃ fragments,
      Fragment.scan Expr.parse SyntaxError.message (assemble segments) = .ok fragments ∧
      fragments.filterMap Fragment.source? = segments.filterMap Segment.source? ∧
      ∀ (own : RenderConfig),
        Template.compile (assemble segments) own = .ok ⟨assemble segments, fragments, own⟩ ∧
        ∀ (engine : Engine) (document : Json) (config : RenderConfig),
          (Template.renderDocument ⟨assemble segments, fragments, own⟩ engine document
            config).result =
              String.join <$> segments.mapM (Segment.output engine document config) := by
  obtain ⟨fragments, hscan, hstands⟩ := exists_stands hvalid []
  have hscanned : Fragment.scan Expr.parse SyntaxError.message (assemble segments) =
      .ok fragments := hscan
  refine ⟨fragments, hscanned, hstands.sources, fun own => ⟨?_, ?_⟩⟩
  · rw [Template.compile, hscanned]
    rfl
  · intro engine document config
    rw [result_renderDocument, hstands.output]
    simp only [String.ofList_nil, String.empty_append, bind_pure]
    rfl

/-- Braces on both sides of a placeholder with braces in it. -/
theorem render_assembled_braces_around :
    ∃ fragments,
      Fragment.scan Expr.parse SyntaxError.message
        "\x7b\x7b\x7b$a['\x7b\x7d']\x7d\x7d\x7d\x7b1\x7d" = .ok fragments ∧
      fragments.filterMap Fragment.source? = ["$a['\x7b\x7d']", "1"] := by
  have hfirst : (Expr.parse "$a['\x7b\x7d']").toOption.map Expr.display =
      some "$a[\"\x7b\x7d\"]" := by
    decide +kernel
  have hsecond : (Expr.parse "1").toOption.map Expr.display = some "1" := by
    decide +kernel
  obtain ⟨first, hfirst, _⟩ := exists_of_map_toOption hfirst
  obtain ⟨second, hsecond, _⟩ := exists_of_map_toOption hsecond
  have hvalid : ∀ segment ∈ [Segment.literal "\x7b", .expression "$a['\x7b\x7d']",
      .literal "\x7d", .literal "", .expression "1"], segment.Valid := by
    simp only [List.forall_mem_cons]
    exact ⟨trivial, ⟨⟨first, hfirst⟩, by decide⟩, trivial, trivial, ⟨⟨second, hsecond⟩, by decide⟩,
      by simp⟩
  obtain ⟨fragments, hscan, hsources, _⟩ := render_assembled _ hvalid
  exact ⟨fragments, hscan, hsources⟩

end Stencil
