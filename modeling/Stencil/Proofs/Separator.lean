import Stencil.Proofs.Agreement
import Stencil.Proofs.Assembly
import Stencil.Proofs.Grouping

/-!
# The thousands separator

Whether thousands are grouped is decided when a value is put into the text, so two renderings that
differ in it alone evaluate every expression in the same way, and their texts differ by commas.

* **`Environment.aligned_of_indifferent`** — two settings that the vocabulary does not tell apart,
  with the same limit, make for the same evaluations.
* **`SameButCommas`** — both renderings are aborted, or the second text is the first one with commas
  put in. From placeholders it passes to fragments, and from these to the whole text, by induction
  on them.
* **`render_grouping`** — the two renderings of a template.
-/

namespace Stencil

/-! ## The same evaluations

No function and no operator of the standard vocabulary looks at the separator, so the two
environments go alike in every step. An evaluation never writes a value down, and only there would
the separator matter. -/

/-- The settings do not matter if no operator and no function tells them apart. The limit on nesting
is the one setting that evaluation itself looks at, so it has to be the same. -/
theorem Environment.aligned_of_indifferent {environment : Environment} {settings : Settings}
    (hvocabulary : environment.vocabulary.Indifferent environment.settings settings)
    (hlimit : environment.settings.evaluation = settings.evaluation) :
    Aligned (fun _ => False) Eq environment { environment with settings := settings } where
  deeper := congrArg (· + 1)
  within {depth depth' body body'} hdepth hbody := by
    subst hdepth
    have hsame : Environment.within { environment with settings := settings } depth body =
        environment.within depth body := by
      unfold Environment.within
      rw [hlimit]
    rw [← hbody.eq, hsame]
    exact .refl _
  find := rfl
  operate := hvocabulary.operate
  call := hvocabulary.call

/-- The engine with the standard vocabulary. -/
def Engine.standard (resolve : Resolver) (limits : EvaluationConfig) : Engine :=
  ⟨.standard, resolve, limits⟩

/-- With the standard vocabulary every expression is evaluated alike, whether its thousands will be
grouped or not. -/
theorem evaluate_grouping (resolve : Resolver) (limits : EvaluationConfig) (document : Json)
    (config : RenderConfig) (expr : Expr) :
    expr.evaluate ((Engine.standard resolve limits).environment document (config.grouping true)) =
      expr.evaluate
        ((Engine.standard resolve limits).environment document (config.grouping false)) := by
  have hvocabulary : Vocabulary.standard.Indifferent ⟨config.grouping true, limits⟩
      ⟨config.grouping false, limits⟩ :=
    Vocabulary.standard_indifferent rfl rfl rfl
  have haligned : Environment.Aligned (fun _ => False) Eq
      ((Engine.standard resolve limits).environment document (config.grouping true))
      ((Engine.standard resolve limits).environment document (config.grouping false)) :=
    Environment.aligned_of_indifferent hvocabulary rfl
  exact Expr.evaluate_congr (haligned.meaning_agreesUnless (fun _ _ => rfl) rfl).eq

/-! ## Texts that differ by commas

Renderings are compared piece by piece, and a piece may be aborted, so the relation is on outcomes.
It is kept by concatenation, which is all that a template does with its pieces. -/

/-- Both renderings were aborted, or the second text is the first one with commas put in. -/
def SameButCommas : Except Stop String → Except Stop String → Prop
  | .ok plain, .ok grouped => AddsCommas plain.toList grouped.toList
  | .error stop, .error stop' => stop = stop'
  | _, _ => False

namespace SameButCommas

variable {plain grouped : Except Stop String}

theorem refl (outcome : Except Stop String) : SameButCommas outcome outcome := by
  cases outcome with
  | ok text => exact AddsCommas.refl text.toList
  | error stop => rfl

/-- Once the commas are gone the outcomes are the same. -/
theorem map_withoutCommas (h : SameButCommas plain grouped) :
    grouped.map withoutCommas = plain.map withoutCommas := by
  cases plain with
  | ok plain =>
    cases grouped with
    | ok grouped => exact congrArg Except.ok (AddsCommas.withoutCommas h)
    | error stop => cases h
  | error stop =>
    cases grouped with
    | ok grouped => cases h
    | error stop' => cases h; rfl

/-- One text after another. If either is aborted the whole is, in both renderings alike. -/
theorem append {plain' grouped' : Except Stop String} (h : SameButCommas plain grouped)
    (h' : SameButCommas plain' grouped') :
    SameButCommas (do let text ← plain; let rest ← plain'; return text ++ rest)
      (do let text ← grouped; let rest ← grouped'; return text ++ rest) := by
  cases plain with
  | error stop =>
    cases grouped with
    | ok grouped => cases h
    | error stop' => exact h
  | ok plain =>
    cases grouped with
    | error stop => cases h
    | ok grouped =>
      cases plain' with
      | error stop =>
        cases grouped' with
        | ok grouped' => cases h'
        | error stop' => exact h'
      | ok plain' =>
        cases grouped' with
        | error stop => cases h'
        | ok grouped' =>
          show AddsCommas (plain ++ plain').toList (grouped ++ grouped').toList
          rw [String.toList_append, String.toList_append]
          exact AddsCommas.append h h'

/-- Piece by piece, so all together. Induction on the pieces. -/
theorem joinOutputs {α : Type} {output output' : α → Except Stop String} {xs : List α}
    (h : ∀ x ∈ xs, SameButCommas (output x) (output' x)) :
    SameButCommas (joinOutputs output xs) (Stencil.joinOutputs output' xs) := by
  induction xs with
  | nil =>
    rw [joinOutputs_nil, joinOutputs_nil]
    exact refl _
  | cons x xs ih =>
    obtain ⟨hx, hxs⟩ := List.forall_mem_cons.mp h
    rw [joinOutputs_cons, joinOutputs_cons]
    exact hx.append (ih hxs)

end SameButCommas

/-- A value appears with more commas; the source of a placeholder without one does not change. -/
theorem placeholderOutput_grouping (source : String) (config : RenderConfig)
    (outcome : Except Stop Value) :
    SameButCommas (placeholderOutput source (config.grouping false) outcome)
      (placeholderOutput source (config.grouping true) outcome) := by
  cases outcome with
  | error stop => cases stop <;> exact .refl _
  | ok value =>
    show AddsCommas
      (if value.isNull then braced source else value.render (config.grouping false)).toList
      (if value.isNull then braced source else value.render (config.grouping true)).toList
    by_cases hnull : value.isNull
    · rw [if_pos hnull, if_pos hnull]
      exact .refl _
    · rw [if_neg hnull, if_neg hnull]
      exact value.render_addsCommas config

/-! ## The two renderings

Fragments other than placeholders are copied, so the placeholders are all there is to look at. -/

section

variable (resolve : Resolver) (limits : EvaluationConfig) (document : Json) (config : RenderConfig)

/-- One fragment. The evaluation of a placeholder is the same, and its value is written with more
commas. -/
theorem output_grouping (fragment : Fragment) :
    SameButCommas (fragment.output (Engine.standard resolve limits) document (config.grouping false))
      (fragment.output (Engine.standard resolve limits) document (config.grouping true)) := by
  cases fragment with
  | placeholder source expr =>
    simp only [Fragment.output, Template.renderFragment, result_renderPlaceholder, evaluate_grouping]
    exact placeholderOutput_grouping source config _
  | literal content => exact .refl _
  | verbatim content => exact .refl _

/-- All fragments of a template over one document. -/
theorem renderDocument_grouping (template : Template) :
    SameButCommas
      (template.renderDocument (Engine.standard resolve limits) document
        (config.grouping false)).result
      (template.renderDocument (Engine.standard resolve limits) document
        (config.grouping true)).result := by
  rw [result_renderDocument, result_renderDocument]
  exact .joinOutputs fun fragment _ => output_grouping resolve limits document config fragment

/-- The separator may come from the settings of the template or from those that take their place.
Which of the two it is makes no difference, as the settings in force are the same. -/
theorem render_sameButCommas (template : Template) {own own' : RenderConfig}
    {override override' : Option RenderConfig} (hplain : override.getD own = config.grouping false)
    (hgrouped : override'.getD own' = config.grouping true) (context : String) :
    SameButCommas
      (({ template with config := own } : Template).render (Engine.standard resolve limits) context
        override).result
      (({ template with config := own' } : Template).render (Engine.standard resolve limits) context
        override').result := by
  rw [result_render, result_render, hplain, hgrouped]
  exact .joinOutputs fun fragment _ => output_grouping resolve limits _ config fragment

end

/-- **The thousands separator only adds commas.** With the standard vocabulary, let two renderings
of a template differ in the separator alone. Then every expression evaluates to the same outcome in
both, with the same entries of the log; every value appears with some more commas in the second one;
and so does the whole template, over a document and over a context, whether the separator comes with
the rendering or is the template's own setting. Without the commas both texts are the same. -/
theorem render_grouping (template : Template) (resolve : Resolver) (limits : EvaluationConfig)
    (config : RenderConfig) :
    let engine := Engine.standard resolve limits
    let plain := config.grouping false
    let grouped := config.grouping true
    (∀ document (expr : Expr), expr.evaluate (engine.environment document grouped) =
      expr.evaluate (engine.environment document plain)) ∧
    (∀ value : Value, AddsCommas (value.render plain).toList (value.render grouped).toList) ∧
    (∀ document, (template.renderDocument engine document grouped).result.map withoutCommas =
      (template.renderDocument engine document plain).result.map withoutCommas) ∧
    (∀ context, (template.render engine context (some grouped)).result.map withoutCommas =
      (template.render engine context (some plain)).result.map withoutCommas) ∧
    ∀ context,
      (({ template with config := grouped } : Template).render engine context none).result.map
        withoutCommas =
      (({ template with config := plain } : Template).render engine context none).result.map
        withoutCommas := by
  intro engine plain grouped
  -- the setting comes from the rendering or, without one, from the template
  have hrender {own own' : RenderConfig} {override override' : Option RenderConfig}
      (hplain : override.getD own = plain) (hgrouped : override'.getD own' = grouped)
      (context : String) :=
    (render_sameButCommas resolve limits config template hplain hgrouped context).map_withoutCommas
  exact ⟨fun document expr => evaluate_grouping resolve limits document config expr,
    fun value => value.render_addsCommas config,
    fun document => (renderDocument_grouping resolve limits document config template).map_withoutCommas,
    fun context => hrender rfl rfl context,
    fun context => hrender rfl rfl context⟩

end Stencil
