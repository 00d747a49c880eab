import Stencil.Proofs.Agreement
import Stencil.Proofs.Depth

/-!
# The recursion limit

The limit on nesting decides whether an expression is evaluated at all, and nothing else: below it
no outcome depends on it.

* **`Environment.aligned_of_room`** — an environment agrees step by step with itself under another
  limit, as long as the second evaluation has at least as many levels left. Only the error of the
  first limit is excused.
* **`Evaluates.of_le`** — a value at some depth is a value further up as well;
  **`result_meaning_of_lack`** — where its levels are not within the limit, the limit is reached.
* **`evaluate_limit_exact`** — an expression is evaluated without reaching the limit exactly if its
  nesting is within it, and then under every higher limit in the same way.
-/

namespace Stencil

/-! ## One expression under two limits

An environment is compared with itself under another limit and from another depth. What counts is
how many levels are left: the second evaluation may have more of them than the first, and then every
check that lets the first one pass lets the second one pass too. The converse is excused by the
error of the first limit. -/

namespace Environment

variable {environment : Environment} {settings : Settings}

/-- **More room changes nothing but the error of the limit.** The second evaluation may be at
another depth and under another limit, as long as it has no fewer levels left than the first one. It
is enough to look at the check in front of a level, for everything else is the same in both. -/
theorem aligned_of_room
    (hvocabulary : environment.vocabulary.Indifferent environment.settings settings) :
    Aligned (· = .recursionLimit environment.settings.evaluation.maxRecursionDepth)
      (fun depth depth' => environment.settings.evaluation.maxRecursionDepth + depth' ≤
        settings.evaluation.maxRecursionDepth + depth)
      environment { environment with settings := settings } where
  deeper hroom := by omega
  within {depth depth' body body'} hroom hbody := by
    -- the check of the first evaluation decides: if it passes the second one does, and if not its
    -- error is the excused one
    by_cases hdepth : depth ≤ environment.settings.evaluation.maxRecursionDepth
    · have hdepth' : depth' ≤ settings.evaluation.maxRecursionDepth := by omega
      have hsecond : { environment with settings := settings }.within depth' body' = body' :=
        within_of_le body' hdepth'
      rw [within_of_le body hdepth, hsecond]
      exact hbody
    · rw [within_of_lt body (Nat.lt_of_not_le hdepth)]
      refine .fail ?_ _
      rfl
  find := rfl
  operate := hvocabulary.operate
  call := hvocabulary.call

/-- A value at some depth is also the value further up. -/
theorem Evaluates.of_le {expr : Expr} {depth depth' : Nat} (h : environment.Evaluates expr depth)
    (hdepth : depth' ≤ depth) : environment.Evaluates expr depth' := by
  have hlevels := h.nesting_le
  obtain ⟨value, hvalue⟩ := h
  exact ⟨value, result_meaning_of_room hvalue (by omega)⟩

/-- Where its levels are not within the limit, an expression with a value reaches the limit. -/
theorem result_meaning_of_lack {expr : Expr} {depth depth' : Nat}
    (h : environment.Evaluates expr depth)
    (hlack : environment.settings.evaluation.maxRecursionDepth < depth' + expr.nesting) :
    (environment.meaning expr depth').result =
      .error (.failed (.recursionLimit environment.settings.evaluation.maxRecursionDepth)) := by
  have hlevels := h.nesting_le
  obtain ⟨value, hvalue⟩ := h
  by_contra hother
  have hself := aligned_of_room (.refl environment.vocabulary environment.settings)
  have hroom : environment.settings.evaluation.maxRecursionDepth + depth ≤
      environment.settings.evaluation.maxRecursionDepth + depth' := by omega
  have hsame : environment.meaning expr depth' = environment.meaning expr depth :=
    hself.meaning_agreesUnless (fun _ _ => rfl) hroom fun error herror hlimit =>
      hother (hlimit ▸ herror)
  -- then the value would be there as well, without room for its levels
  have hdeeper : environment.Evaluates expr depth' := ⟨value, hsame ▸ hvalue⟩
  have := hdeeper.nesting_le
  omega

end Environment

/-! ## Whole evaluations

A whole evaluation starts at depth zero, so its levels are the nesting of the expression. That is
all there is to the limit: within it the evaluation never meets it, beyond it there is no value, and
where it is not met a higher one changes nothing. -/

section

variable {environment : Environment} {settings : Settings}

/-- Within the limit on nesting an evaluation does not reach it. -/
theorem evaluate_ne_recursionLimit (hvocabulary : environment.vocabulary.NeverLimits) {expr : Expr}
    (hnesting : expr.nesting ≤ environment.settings.evaluation.maxRecursionDepth) (reached : Nat) :
    (expr.evaluate environment).result ≠ .error (.failed (.recursionLimit reached)) := by
  intro hreached
  rw [Expr.result_evaluate expr environment] at hreached
  have hlevels : 0 + expr.nesting ≤ environment.settings.evaluation.maxRecursionDepth := by omega
  have hother := Environment.meaning_notLimit hvocabulary expr 0 hlevels _ hreached
  cases hother

/-- An evaluation that does not reach the limit is the same under a higher one. -/
theorem evaluate_eq_of_room
    (hvocabulary : environment.vocabulary.Indifferent environment.settings settings)
    (hle : environment.settings.evaluation.maxRecursionDepth ≤
      settings.evaluation.maxRecursionDepth) {expr : Expr}
    (hlimit : (expr.evaluate environment).result ≠
      .error (.failed (.recursionLimit environment.settings.evaluation.maxRecursionDepth))) :
    expr.evaluate environment = expr.evaluate { environment with settings := settings } := by
  have hnames : Environment.AgreeOn environment { environment with settings := settings } expr :=
    fun _ _ => rfl
  have hagrees := (Environment.aligned_of_room hvocabulary).meaning_agreesUnless hnames
    (Nat.add_le_add_right hle 0)
  refine Expr.evaluate_congr (hagrees fun error herror hexcused => hlimit ?_)
  rw [Expr.result_evaluate expr environment, herror, hexcused]

/-- Beyond the limit there is no value. -/
theorem evaluate_fails_of_nesting {reason : String → List Value → Prop}
    (hvocabulary : environment.vocabulary.AbortsOnlyIf reason) {expr : Expr}
    (hnesting : environment.settings.evaluation.maxRecursionDepth < expr.nesting) :
    (∃ error, (expr.evaluate environment).result = .error (.failed error)) ∨
      ((expr.evaluate environment).result = .error .aborted ∧ environment.Calls reason expr) := by
  cases houtcome : (expr.evaluate environment).result with
  -- a value would be evidence that the nesting is within the limit
  | ok value =>
    have hwithin := (Expr.evaluates_of_evaluate houtcome).nesting_le
    omega
  | error stop =>
    cases stop with
    | failed error => exact Or.inl ⟨error, rfl⟩
    | aborted =>
      exact Or.inr ⟨rfl, Environment.evaluate_abortsOnlyIf hvocabulary expr houtcome⟩

end

/-- The environment of the standard vocabulary under a limit. -/
def Environment.standard (resolve : Resolver) (document : Json) (render : RenderConfig)
    (scale limit : Nat) : Environment :=
  ⟨.standard, resolve, ⟨render, ⟨limit, scale⟩⟩, document⟩

/-- **The limit is exact and otherwise invisible.** With the standard vocabulary, an expression
whose nesting is within the limit is evaluated without reaching it, and in the same way under every
higher limit. An expression with more nesting has no value: its evaluation ends with an error,
unless a clock inside it is given a far offset and aborts it before. Any outcome but the error of
the limit is that under every higher limit as well. -/
theorem evaluate_limit_exact (expr : Expr) (resolve : Resolver) (document : Json)
    (render : RenderConfig) (scale : Nat) {limit limit' : Nat} (hle : limit ≤ limit') :
    let environment := Environment.standard resolve document render scale
    (expr.nesting ≤ limit →
      (∀ reached, (expr.evaluate (environment limit)).result ≠
        .error (.failed (.recursionLimit reached))) ∧
      expr.evaluate (environment limit) = expr.evaluate (environment limit')) ∧
    (limit < expr.nesting →
      (∃ error, (expr.evaluate (environment limit)).result = .error (.failed error)) ∨
      ((expr.evaluate (environment limit)).result = .error .aborted ∧
        (environment limit).Calls Clock.FarCall expr)) ∧
    ((expr.evaluate (environment limit)).result ≠ .error (.failed (.recursionLimit limit)) →
      expr.evaluate (environment limit) = expr.evaluate (environment limit')) := by
  intro environment
  have hagrees : (expr.evaluate (environment limit)).result ≠
      .error (.failed (.recursionLimit limit)) →
        expr.evaluate (environment limit) = expr.evaluate (environment limit') := by
    intro hlimit
    -- the standard vocabulary does not see the limit
    have hsame : (environment limit).vocabulary.Indifferent (environment limit).settings
        (environment limit').settings :=
      Vocabulary.standard_indifferent rfl rfl rfl
    exact evaluate_eq_of_room hsame hle hlimit
  refine ⟨fun hnesting => ?_, fun hnesting => ?_, hagrees⟩
  · have hnever : ∀ reached, (expr.evaluate (environment limit)).result ≠
        .error (.failed (.recursionLimit reached)) :=
      evaluate_ne_recursionLimit Vocabulary.standard_neverLimits hnesting
    exact ⟨hnever, hagrees (hnever limit)⟩
  · exact evaluate_fails_of_nesting Vocabulary.standard_abortsOnlyIf hnesting

/-- Three levels below the root: the sum is the same under the least limit that lets it pass and
under the configured one. -/
theorem evaluate_limit_exact_sum :
    ∃ expr, Expr.parse "1 + (1 + (2 + 3))" = .ok expr ∧ expr.nesting = 3 ∧ 3 ≤ 1024 ∧
      ∀ document render,
        expr.evaluate (Environment.standard Json.resolve document render 28 3) =
          expr.evaluate (Environment.standard Json.resolve document render 28 1024) := by
  have hread : (Expr.parse "1 + (1 + (2 + 3))").toOption.map Expr.nesting = some 3 := by
    decide +kernel
  obtain ⟨expr, hparse, hnesting⟩ := exists_of_map_toOption hread
  refine ⟨expr, hparse, hnesting, by decide, fun document render => ?_⟩
  have hexact := evaluate_limit_exact expr Json.resolve document render 28 (by decide : 3 ≤ 1024)
  exact (hexact.1 (Nat.le_of_eq hnesting)).2

/-- A far offset on the left aborts the evaluation before the limit is met on the right. -/
theorem evaluate_aborted_before_limit :
    ∃ expr, Expr.parse "timezone(0, 79228162514264337593543950335) + (1 + (2 + 3))" = .ok expr ∧
      2 < expr.nesting ∧
      ¬ ∃ error, (expr.evaluate
        (Environment.standard Json.resolve .emptyObject {} 28 2)).result = .error (.failed error) := by
  have hread : (Expr.parse "timezone(0, 79228162514264337593543950335) + (1 + (2 + 3))").toOption.map
      (fun expr => (expr.nesting, (expr.evaluate
        (Environment.standard Json.resolve .emptyObject {} 28 2)).result.map fun _ => ())) =
        some (3, .error .aborted) := by
    decide +kernel
  obtain ⟨expr, hparse, houtcome⟩ := exists_of_map_toOption hread
  obtain ⟨hnesting, haborted⟩ := Prod.mk.inj houtcome
  refine ⟨expr, hparse, by omega, ?_⟩
  rintro ⟨error, herror⟩
  -- the outcome is known, and it is no error
  have haborted := eq_error_of_map_eq_error haborted
  rw [herror] at haborted
  cases haborted

end Stencil
