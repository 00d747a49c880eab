import Stencil.Function.Host
import Stencil.Proofs.Display
import Stencil.Proofs.Limit

/-!
# Strictness

Evaluation is strict: no operator and no function decides which of its operands are evaluated, so
one part without a value leaves the whole expression without one. That makes constructs without a
value inert, wherever in an expression they stand and whatever a host registers.

* **`Evaluates.inside`** — what stands inside an expression with a value has a value at the same
  depth. Induction along the chain of constituents; on its own one has more levels left than in its
  place.
* **`Evaluates.supported`** — an expression with a value holds no construct without one, not even in
  a callee.
* **`evaluate_strict`** — both for whole evaluations and for the placeholders that hold them.
-/

namespace Stencil

/-- The first expression stands directly in the second one, and not as the name of a function that
is called there. -/
inductive Expr.Constituent : Expr → Expr → Prop where
  | part {part expr : Expr} (hpart : Part part expr) : Constituent part expr
  | callee {callee : Expr} (hcallee : ∀ name, callee ≠ .identifier name) (arguments : List Expr) :
      Constituent callee (.call callee arguments)

namespace Environment

variable {environment : Environment} {depth : Nat}

/-! ## What stands inside

An expression is evaluated one level above its parts, so a part that has a value there has one on
its own as well, where more levels are left. The left operand of an operator is the exception that
`operandDepth` stands for: in a chain it is evaluated at the level of the chain. -/

/-- One part of an expression with a value has a value at the same depth. There is a case for each
place at which a part can stand, and each is the lemma on that kind of expression, with the depth
raised. -/
theorem Evaluates.part {part expr : Expr} (h : environment.Evaluates expr depth)
    (hpart : Expr.Part part expr) : environment.Evaluates part depth := by
  cases hpart with
  | base _ property => exact h.member.of_le (Nat.le_succ depth)
  | indexed _ element => exact h.index.1.of_le (Nat.le_succ depth)
  | element base _ => exact h.index.2.of_le (Nat.le_succ depth)
  -- a chain to the left is evaluated without going a level down
  | left operator _ right => exact h.binary.1.of_le (part.le_operandDepth depth)
  | right operator left _ => exact h.binary.2.of_le (Nat.le_succ depth)
  | argument callee hargument =>
    by_cases hnamed : ∃ name, callee = .identifier name
    · obtain ⟨name, rfl⟩ := hnamed
      exact (h.call part hargument).of_le (Nat.le_succ depth)
    · exact absurd h (not_evaluates_other (fun name hname => hnamed ⟨name, hname⟩) _)

/-- A callee that is no name is never evaluated, so no call with one has a value, and there is
nothing to show of it. -/
theorem Evaluates.constituent {part expr : Expr} (h : environment.Evaluates expr depth)
    (hpart : Expr.Constituent part expr) : environment.Evaluates part depth := by
  cases hpart with
  | part hpart => exact h.part hpart
  | callee hcallee arguments => exact absurd h (not_evaluates_other hcallee arguments)

/-- **A value needs a value of everything inside.** Induction along the chain of constituents, from
the whole expression inward. -/
theorem Evaluates.inside {part expr : Expr}
    (hinside : Relation.ReflTransGen Expr.Constituent part expr)
    (h : environment.Evaluates expr depth) : environment.Evaluates part depth := by
  induction hinside with
  | refl => exact h
  | tail _ hpart ih => exact ih (h.constituent hpart)

/-! ## Constructs without a value

The same induction over the whole tree: wherever a construct without a value stands, it is on the
way to a value of the expression. It may even stand in a callee, which is why callees have to be
names. -/

/-- **An expression with a value is free of constructs without one.** Its callees are names. -/
theorem Evaluates.supported {expr : Expr} (h : environment.Evaluates expr depth) :
    expr.Supported := by
  induction expr using Expr.onParts generalizing depth with
  | number text => exact .number text
  | string value => exact .string value
  | boolean value => exact .boolean value
  | identifier name => exact .identifier name
  | member base property ih => exact .member property (ih h.member)
  | index base element ihbase ihelement => exact .index (ihbase h.index.1) (ihelement h.index.2)
  | binary operator left right ihleft ihright =>
    exact .binary operator (ihleft h.binary.1) (ihright h.binary.2)
  | call name arguments ih =>
    exact .call (.identifier name) fun argument hargument =>
      ih argument hargument (h.call argument hargument)
  | other callee arguments hcallee => exact absurd h (not_evaluates_other hcallee arguments)
  | unsupported construct source => exact absurd h (not_evaluates_unsupported construct source)

end Environment

/-! ## Whole evaluations

A whole evaluation has a value, an error or is aborted. Only the last is not an error, so it is said
when it can happen. -/

/-- **Evaluation is strict.** Where something inside an expression fails on its own, other than the
name of a function that is called, or where a construct without a value stands anywhere in it, the
expression has no value. Its evaluation ends with an error, and a placeholder that holds it is
written as its source; or it is aborted, and then by a call inside the expression for which the
vocabulary has a reason to abort. That holds for every vocabulary and resolver and under all limits.
-/
theorem evaluate_strict (engine : Engine) (document : Json) (config : RenderConfig) (expr : Expr)
    (hfails : (∃ part error, Relation.ReflTransGen Expr.Constituent part expr ∧
        (part.evaluate (engine.environment document config)).result = .error (.failed error)) ∨
      ¬ expr.Supported) :
    ((∃ error, (expr.evaluate (engine.environment document config)).result =
        .error (.failed error)) ∧
      ∀ source, (Template.renderFragment engine document config (.placeholder source expr)).result =
        .ok (braced source)) ∨
    ((expr.evaluate (engine.environment document config)).result = .error .aborted ∧
      ∀ reason, engine.vocabulary.AbortsOnlyIf reason →
        (engine.environment document config).Calls reason expr) := by
  cases hresult : (expr.evaluate (engine.environment document config)).result with
  | ok value =>
    -- a value contradicts both ways to have none
    have hvalue := Expr.evaluates_of_evaluate hresult
    rcases hfails with ⟨part, error, hinside, herror⟩ | hunsupported
    · obtain ⟨partValue, hpart⟩ := hvalue.inside hinside
      rw [Expr.result_evaluate part _, hpart] at herror
      cases herror
    · exact absurd hvalue.supported hunsupported
  | error stop =>
    cases stop with
    | failed error =>
      refine Or.inl ⟨⟨error, rfl⟩, fun source => ?_⟩
      show (Template.renderPlaceholder source _ config).result = _
      rw [result_renderPlaceholder, hresult]
      rfl
    -- only a call inside can abort
    | aborted =>
      refine Or.inr ⟨rfl, fun reason hvocabulary => ?_⟩
      exact Environment.evaluate_abortsOnlyIf hvocabulary expr hresult

/-- The coalescing operator of a host does not hide a construct without a value on its right, though
its left operand has one that it would be content with. -/
theorem evaluate_strict_coalesce :
    let engine : Engine := { vocabulary := ⟨.empty, .ofList [("??", .coalesce)]⟩ }
    let expr := Expr.binary .coalesce (.number "1") (.unsupported "unary expression" "typeof 2")
    ¬ expr.Supported ∧
      (Template.renderFragment engine .emptyObject {} (.placeholder "1 ?? typeof 2" expr)).result =
        .ok "\x7b1 ?? typeof 2\x7d" := by
  intro engine expr
  have hunsupported : ¬ expr.Supported := by
    intro hsupported
    change (Expr.binary _ _ (.unsupported _ _)).Supported at hsupported
    cases hsupported with
    | binary operator hleft hright => cases hright
  have hvocabulary : engine.vocabulary.AbortsOnlyIf fun _ _ => False :=
    { function := by rintro name function ⟨⟩
      operator := by
        intro symbol operation hoperation left right settings
        have hentry := Registry.mem_of_get?_ofList hoperation
        simp only [List.mem_cons, Prod.mk.injEq, List.not_mem_nil, or_false] at hentry
        obtain ⟨_, rfl⟩ := hentry
        exact .pure _ }
  refine ⟨hunsupported, ?_⟩
  rcases evaluate_strict engine .emptyObject {} expr (Or.inr hunsupported) with
    ⟨_, hsource⟩ | ⟨_, haborted⟩
  · exact hsource "1 ?? typeof 2"
  · -- no call inside has a reason to abort
    obtain ⟨_, _, _, _, _, _, hreason⟩ := haborted _ hvocabulary
    exact absurd hreason id

/-- A call that is aborted hides the error on its right: there is neither an error of the evaluation
nor a text of the placeholder, since the left operand comes first. -/
theorem evaluate_aborted_beside_unsupported :
    let right := Expr.unsupported "conditional expression" "true ? 2 : 3"
    let expr := Expr.binary .add (.call (.identifier "timezone")
      [.number "0", .number "79228162514264337593543950335"]) right
    let environment := ({} : Engine).environment .emptyObject {}
    Relation.ReflTransGen Expr.Constituent right expr ∧
      (∃ error, (right.evaluate environment).result = .error (.failed error)) ∧
      (¬ ∃ error, (expr.evaluate environment).result = .error (.failed error)) ∧
      ∀ source text, (Template.renderFragment {} .emptyObject {}
        (.placeholder source expr)).result ≠ .ok text := by
  intro right expr environment
  -- the left operand comes first, and aborts before the right one is looked at
  have haborted : (expr.evaluate environment).result = .error .aborted := by
    have houtcome : ((expr.evaluate environment).result.map fun _ => ()) = .error .aborted := by
      decide +kernel
    exact eq_error_of_map_eq_error houtcome
  refine ⟨.single (.part (.right _ _ _)), ⟨_, rfl⟩, ?_, fun source text htext => ?_⟩
  · rintro ⟨error, herror⟩
    rw [haborted] at herror
    cases herror
  · change (Template.renderPlaceholder source (expr.evaluate environment) {}).result = _ at htext
    rw [result_renderPlaceholder, haborted] at htext
    cases htext

end Stencil
