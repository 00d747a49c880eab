import Stencil.Proofs.Agreement
import Stencil.Proofs.Paths

/-!
# Root keys

A template reads of its document the members that it names, and nothing else: two objects with the
same values there cannot be told apart by it, neither by its text nor by an error or an entry of the
log.

* **`Environment.name_cases`** — a name with a dollar sign reads one member of the document, and
  every other name none.
* **`agreeOn_of_reads`** — objects that agree on the keys that an expression reads give the same
  value to every name in it.
* **`render_reads`** — the same for whole templates.
-/

namespace Stencil

/-! ## What is read

Documents are read by names alone: a member or an index goes on from a value that is there already.
A name that is called is no name for a member, so callees are left out. -/

/-- The expression reads the member of the document under the key: the name for it stands in the
expression, outside callees. -/
def Expr.Reads (expr : Expr) (key : String) : Prop :=
  Relation.ReflTransGen Expr.Part (.identifier ("$" ++ key)) expr

/-- Some placeholder of the template reads the member under the key. -/
def Template.Reads (template : Template) (key : String) : Prop :=
  ∃ source expr, .placeholder source expr ∈ template.fragments ∧ expr.Reads key

namespace Environment

/-- A name either is for a member of the document or has no value. It is for a member if a dollar
sign stands in front. -/
theorem name_cases (name : String) :
    (∃ key, name = "$" ++ key) ∨
      ∀ environment : Environment, environment.identifier name = .fail (.unknownVariable name) := by
  -- the dollar sign decides
  by_cases hroot : ∃ key, name.toList = '$' :: key
  · obtain ⟨key, hkey⟩ := hroot
    refine Or.inl ⟨String.ofList key, ?_⟩
    have hdollar : "$".toList = ['$'] := rfl
    rw [← String.toList_inj, String.toList_append, hdollar, String.toList_ofList, hkey]
    rfl
  · refine Or.inr fun environment => ?_
    unfold identifier
    split
    · rename_i key hkey
      exact absurd ⟨key, hkey⟩ hroot
    · rfl

end Environment

/-! ## Two documents

The two evaluations differ in their document and nothing else, so they agree if all names in the
expression do. What is shown of names is carried to expressions by the lemma on environments that
agree. -/

section

variable {engine : Engine} {config : RenderConfig} {members members' : List (String × Json)}

/-- Every name inside the expression has the same value over both objects. If it is for a member,
the member is one that is read, and `hagree` gives the same one in both; any other name has no value
in either. -/
theorem agreeOn_of_reads (hresolve : engine.resolve = Json.resolve) {expr : Expr}
    (hagree : ∀ key, expr.Reads key → Assoc.get? key members = Assoc.get? key members') :
    Environment.AgreeOn (engine.environment (.object members) config)
      (engine.environment (.object members') config) expr := by
  intro name hinside
  rcases Environment.name_cases name with ⟨key, rfl⟩ | hnone
  · have hfind : ∀ members, (engine.environment (.object members) config).find? (.object members)
        (escapeSegment key) =
          if key = "" then none else (Assoc.get? key members).map Value.ofJson := by
      intro members
      rw [Environment.find?_escapeSegment hresolve, Json.follow_object]
    rw [Environment.identifier_root, Environment.identifier_root]
    show Traced.ofOption _ (Environment.find? _ (.object members) _) =
      Traced.ofOption _ (Environment.find? _ (.object members') _)
    rw [hfind, hfind, hagree key hinside]
  · rw [hnone, hnone]

/-- Over two documents an engine agrees with itself in every step, since none but the names looks at
the document. -/
theorem Engine.aligned (engine : Engine) (document document' : Json) (config : RenderConfig) :
    Environment.Aligned (fun _ => False) Eq (engine.environment document config)
      (engine.environment document' config) where
  deeper := congrArg (· + 1)
  within {depth depth' body body'} hdepth hbody := by
    subst hdepth
    rw [hbody.eq]
    exact .refl _
  find := rfl
  operate _ _ _ := rfl
  call _ _ := rfl

/-- So expressions are evaluated to the same outcome, with the same entries of the log. -/
theorem evaluate_eq_of_reads (hresolve : engine.resolve = Json.resolve) {expr : Expr}
    (hagree : ∀ key, expr.Reads key → Assoc.get? key members = Assoc.get? key members') :
    expr.evaluate (engine.environment (.object members) config) =
      expr.evaluate (engine.environment (.object members') config) := by
  have haligned := engine.aligned (.object members) (.object members') config
  exact Expr.evaluate_congr (haligned.meaning_agreesUnless (agreeOn_of_reads hresolve hagree) rfl).eq

end

/-- **A template reads only the root keys that it names.** Let two objects have the same values, or
both none, under every key for which a name stands in the template's expressions, outside callees.
Then every placeholder evaluates to the same outcome over both, with the same entries of the log,
and so does the template, over the documents and over contexts that hold them. -/
theorem render_reads (template : Template) (engine : Engine)
    (hresolve : engine.resolve = Json.resolve) (members members' : List (String × Json))
    (hagree : ∀ key, template.Reads key → Assoc.get? key members = Assoc.get? key members') :
    (∀ config source expr, .placeholder source expr ∈ template.fragments →
      expr.evaluate (engine.environment (.object members) config) =
        expr.evaluate (engine.environment (.object members') config)) ∧
    (∀ config, template.renderDocument engine (.object members) config =
      template.renderDocument engine (.object members') config) ∧
    ∀ context context', Json.ofContext context = .ok (.object members) →
      Json.ofContext context' = .ok (.object members') → ∀ override,
        template.render engine context override = template.render engine context' override := by
  -- placeholder by placeholder, then the fragments together, then the contexts that hold the
  -- documents
  have hevaluate : ∀ config source expr, .placeholder source expr ∈ template.fragments →
      expr.evaluate (engine.environment (.object members) config) =
        expr.evaluate (engine.environment (.object members') config) :=
    fun config source expr hmem => evaluate_eq_of_reads hresolve fun key hreads =>
      hagree key ⟨source, expr, hmem, hreads⟩
  have hrender : ∀ config, template.renderDocument engine (.object members) config =
      template.renderDocument engine (.object members') config := by
    intro config
    have hfragments : ∀ fragment ∈ template.fragments,
        Template.renderFragment engine (.object members) config fragment =
          Template.renderFragment engine (.object members') config fragment := by
      intro fragment hmem
      cases fragment with
      | placeholder source expr =>
        rw [Template.renderFragment, Template.renderFragment, hevaluate config source expr hmem]
      | literal content => rfl
      | verbatim content => rfl
    rw [Template.renderDocument, Template.renderDocument, mapM_congr hfragments]
  refine ⟨hevaluate, hrender, fun context context' hcontext hcontext' override => ?_⟩
  rw [Template.render, Template.render, Template.readContext, Template.readContext, hcontext,
    hcontext']
  show (pure _ >>= fun document => template.renderDocument engine document _) =
    (pure _ >>= fun document => template.renderDocument engine document _)
  rw [pure_bind, pure_bind]
  exact hrender _

/-- A member of `a` is the same beside different neighbours: the one name in the template is `$a`,
the base of its member, so no other key is read. -/
theorem render_reads_member :
    let template : Template :=
      ⟨"\x7b$a.b\x7d", [.placeholder "$a.b" (.member (.identifier "$a") "b")], {}⟩
    let member := ("a", Json.object [("b", .number "1")])
    template.renderDocument {} (.object [member, ("c", .null)]) {} =
      template.renderDocument {} (.object [member, ("d", .boolean true)]) {} := by
  intro template member
  have hreads : ∀ key, template.Reads key → key = "a" := by
    rintro key ⟨source, expr, hmem, hinside⟩
    cases List.mem_singleton.mp hmem
    -- inside the expression stands one name, the base of its member
    rcases hinside.cases_tail with hself | ⟨base, hbase, hpart⟩
    · cases hself
    · cases hpart
      rcases hbase.cases_tail with hname | ⟨_, _, hnone⟩
      · have hkey : "$" ++ "a" = "$" ++ key := Expr.identifier.inj hname
        exact ((String.append_right_inj "$").mp hkey).symm
      · cases hnone
  have hagree : ∀ key, template.Reads key →
      Assoc.get? key [member, ("c", Json.null)] = Assoc.get? key [member, ("d", .boolean true)] := by
    intro key hkey
    rw [hreads key hkey]
    rfl
  exact (render_reads template {} rfl _ _ hagree).2.1 {}

end Stencil
