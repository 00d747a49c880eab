import Stencil.Evaluation
import Stencil.Proofs.Outcome

/-!
# The meaning of expressions

`Environment.run` walks down a chain of binary operators with a stack of links and folds the stack
afterwards. `Environment.meaning` is the plain semantics: it evaluates the parts of every node and
then the node, with each step of a node written out in its order. The two agree, with the journal
and with the error that comes first.

* **`Expr.operandDepth`** — where the depth enters: the left operand of a binary expression is at
  the same depth if it is binary itself, and every other part is one level deeper.
* **`run_eq_foldLinks`** — the invariant of the walk: with links on the stack, `run` gives what
  folding the links over the plain meaning gives. Induction on the expression.
* **`evaluate_eq_meaning`** — the refinement.
-/

namespace Stencil

/-- The depth of `left` as the left operand of a binary expression at `depth`. -/
def Expr.operandDepth (left : Expr) (depth : Nat) : Nat :=
  match left with
  | .binary _ _ _ => depth
  | _ => depth + 1

namespace Environment

variable (environment : Environment)

/-- The evaluation `body` of an expression at `depth`, unless that is too deep. The limit is put to
every expression before anything in it is evaluated. -/
def within (depth : Nat) (body : Traced Value) : Traced Value :=
  let limit := environment.settings.evaluation.maxRecursionDepth
  if limit < depth then .fail (.recursionLimit limit) else body

mutual

/-- The meaning of an expression at a depth: the parts from left to right, and then the node itself.
An error of a part is the error of the node, and the look-up of an operator or a function comes
behind its operands, so that an operand's error comes first. -/
def meaning : Expr → (depth : Nat) → Traced Value
  | .number text, depth => environment.within depth (numeral text)
  | .string value, depth => environment.within depth (pure (.string value))
  | .boolean value, depth => environment.within depth (pure (.boolean value))
  | .identifier name, depth => environment.within depth (environment.identifier name)
  | .member base property, depth => environment.within depth do
    let value ← meaning base (depth + 1)
    environment.member value property (.member base property)
  | .index base element, depth => environment.within depth do
    let value ← meaning base (depth + 1)
    match ← meaning element (depth + 1) with
    | .decimal position =>
      if position.trunc < 0 then return .null
      return (environment.find? value.toJson (toString position.trunc.natAbs)).getD .null
    | .string key => return (environment.find? value.toJson (escapeSegment key)).getD .null
    | other => .fail (.typeMismatch "Decimal or String" other.typeName)
  | .binary operator left right, depth => environment.within depth do
    let leftValue ← meaning left (left.operandDepth depth)
    let rightValue ← meaning right (depth + 1)
    let operation ← .ofOption (.unknownOperator operator.symbol)
      (environment.vocabulary.operators.get? operator.symbol)
    operation leftValue rightValue environment.settings
  | .call (.identifier name) arguments, depth => environment.within depth do
    let values ← meanings arguments (depth + 1)
    let function ← .ofOption (.unknownFunction name) (environment.vocabulary.functions.get? name)
    match function.countError? values.length with
    | some error => .fail error
    | none => function.run values environment.settings
  | .call callee _, depth => environment.within depth
    (.fail (.invalidExpression callee.display s!"cannot call a {callee.kind}, only named functions"))
  | .unsupported construct _, depth =>
    environment.within depth (.fail (.unsupportedExpression construct))

/-- The meanings of expressions at a depth, from left to right. -/
def meanings : List Expr → (depth : Nat) → Traced (List Value)
  | [], _ => pure []
  | expr :: exprs, depth => do
    let value ← meaning expr depth
    let values ← meanings exprs depth
    return value :: values

end

/-! ## One step of a node

The evaluator takes the last steps of a node in one function; the meaning writes them out. -/

/-- An operator is looked up under its symbol and then applied. -/
theorem operate_eq (vocabulary : Vocabulary) (symbol : String) (left right : Value)
    (settings : Settings) :
    vocabulary.operate symbol left right settings =
      (Traced.ofOption (.unknownOperator symbol) (vocabulary.operators.get? symbol) >>=
        fun operation => operation left right settings) := by
  unfold Vocabulary.operate
  cases vocabulary.operators.get? symbol with
  | none => rfl
  | some operation =>
    show operation left right settings =
      ((pure operation : Traced Operator) >>= fun operation => operation left right settings)
    rw [pure_bind]

/-- A function is looked up under its name, its arguments are counted, and only then it runs. -/
theorem call_eq (vocabulary : Vocabulary) (name : String) (arguments : List Value)
    (settings : Settings) :
    vocabulary.call name arguments settings =
      (Traced.ofOption (.unknownFunction name) (vocabulary.functions.get? name) >>=
        fun function =>
          match function.countError? arguments.length with
          | some error => .fail error
          | none => function.run arguments settings) := by
  unfold Vocabulary.call
  cases vocabulary.functions.get? name with
  | none => rfl
  | some function =>
    show function.apply arguments settings =
      ((pure function : Traced Function) >>= fun function =>
        match function.countError? arguments.length with
        | some error => .fail error
        | none => function.run arguments settings)
    rw [pure_bind]
    rfl

/-- **An index is a position or a key.** A negative position is null without a look-up; any other
one is looked up as its numeral, and a key with its special characters escaped. An index of another
type is an error. -/
theorem element_eq (base element : Value) :
    environment.element base element =
      match element with
      | .decimal position => do
        if position.trunc < 0 then return .null
        return (environment.find? base.toJson (toString position.trunc.natAbs)).getD .null
      | .string key => pure ((environment.find? base.toJson (escapeSegment key)).getD .null)
      | other => .fail (.typeMismatch "Decimal or String" other.typeName) := by
  unfold Environment.element
  cases element with
  | decimal position =>
    unfold elementPath?
    by_cases hnegative : position.trunc < 0
    · simp only [if_pos hnegative]
      rfl
    · simp only [if_neg hnegative]
      rfl
  | string key => rfl
  | boolean value => rfl
  | null => rfl
  | json document => rfl

/-! ## The stack of links

A chain of operators is long to the left, so the walk goes down its left side and leaves the right
operands on a stack, each with its operator and not evaluated yet. Folding the stack evaluates them
on the way back up. -/

/-- One link of the fold: the operands in order, and the operator on both. -/
theorem foldLinks_cons (first : Traced Value) (link : Link) (links : List Link) :
    environment.foldLinks first (link :: links) =
      environment.foldLinks (do
        let left ← first
        let right ← link.right
        environment.vocabulary.operate link.operator.symbol left right environment.settings) links :=
  rfl

/-- An operand that fails ends its whole chain, and nothing to the right of it is evaluated.
Induction on the links. -/
theorem foldLinks_fail (error : Error) (links : List Link) :
    environment.foldLinks (.fail error) links = .fail error := by
  induction links with
  | nil => rfl
  | cons link links ih =>
    rw [foldLinks_cons]
    exact ih

/-- The innermost operand of a chain is one level deeper than the chain; without a chain the
expression is at the given depth. -/
theorem enter_eq (expr : Expr) (depth : Nat) (links : List Link) (body : Nat → Traced Value)
    (hleaf : expr.operandDepth depth = depth + 1)
    (hbody : ∀ depth, environment.meaning expr depth = environment.within depth (body depth)) :
    environment.enter depth links body =
      environment.foldLinks
        (environment.meaning expr (if links.isEmpty then depth else expr.operandDepth depth))
        links := by
  rw [hbody, hleaf]
  rfl

mutual

/-- **The invariant of the walk.** With an empty stack it says that the walk is the meaning. With
links on the stack, the expression is an operand of a chain, and its depth is that of an operand;
the depth of the chain itself is what the walk carries. -/
theorem run_eq_foldLinks (expr : Expr) (depth : Nat) (links : List Link) :
    environment.run expr depth links =
      environment.foldLinks
        (environment.meaning expr (if links.isEmpty then depth else expr.operandDepth depth))
        links := by
  match expr with
  | .number text =>
    rw [run]
    exact environment.enter_eq (.number text) depth links _ rfl fun depth => by rw [meaning]
  | .string value =>
    rw [run]
    exact environment.enter_eq (.string value) depth links _ rfl fun depth => by rw [meaning]
  | .boolean value =>
    rw [run]
    exact environment.enter_eq (.boolean value) depth links _ rfl fun depth => by rw [meaning]
  | .identifier name =>
    rw [run]
    exact environment.enter_eq (.identifier name) depth links _ rfl fun depth => by rw [meaning]
  | .member base property =>
    -- a part is evaluated with an empty stack, where the walk is the meaning itself
    rw [run]
    refine environment.enter_eq (.member base property) depth links _ rfl fun depth => ?_
    rw [meaning, run_eq_foldLinks base]
    rfl
  | .index base element =>
    rw [run]
    refine environment.enter_eq (.index base element) depth links _ rfl fun depth => ?_
    rw [meaning, run_eq_foldLinks base, run_eq_foldLinks element]
    simp only [element_eq]
    rfl
  | .binary operator left right =>
    have hdepth : (Expr.binary operator left right).operandDepth depth = depth := rfl
    rw [run, hdepth, ite_self, meaning, within]
    by_cases hlimit : environment.settings.evaluation.maxRecursionDepth < depth
    · -- the chain is too deep as a whole, and none of its links is evaluated
      simp only [if_pos hlimit]
      rw [foldLinks_fail]
    · -- the right operand waits on the stack until the left one has its value
      simp only [if_neg hlimit]
      rw [run_eq_foldLinks left, foldLinks_cons, run_eq_foldLinks right]
      simp only [operate_eq]
      rfl
  | .call callee arguments =>
    by_cases hnamed : ∃ name, callee = .identifier name
    · obtain ⟨name, rfl⟩ := hnamed
      rw [run]
      refine environment.enter_eq (.call (.identifier name) arguments) depth links _ rfl
        fun depth => ?_
      rw [meaning, runList_eq_meanings arguments]
      simp only [call_eq]
    · -- nothing else can be called, and nothing of the call is evaluated
      have hother : ∀ name, callee = .identifier name → False := fun name hname =>
        hnamed ⟨name, hname⟩
      rw [run]
      · refine environment.enter_eq (.call callee arguments) depth links _ rfl fun depth => ?_
        rw [meaning]
        exact hother
      · exact hother
  | .unsupported construct source =>
    rw [run]
    exact environment.enter_eq (.unsupported construct source) depth links _ rfl
      fun depth => by rw [meaning]

/-- Arguments are walked one by one, each with a stack of its own. -/
theorem runList_eq_meanings (exprs : List Expr) (depth : Nat) :
    environment.runList exprs depth = environment.meanings exprs depth := by
  match exprs with
  | [] => rfl
  | expr :: exprs =>
    rw [runList, meanings, run_eq_foldLinks expr, runList_eq_meanings exprs]
    rfl

end

/-- With nothing on the stack, the walk is the plain meaning. -/
theorem run_eq_meaning (expr : Expr) (depth : Nat) :
    environment.run expr depth [] = environment.meaning expr depth :=
  environment.run_eq_foldLinks expr depth []

end Environment

/-- What an evaluation yields, without what it notes on the way. -/
theorem Expr.result_evaluate (expr : Expr) (environment : Environment) :
    (expr.evaluate environment).result = (environment.meaning expr 0).result := by
  rw [Expr.evaluate, environment.run_eq_meaning, Traced.result_recover]
  cases (environment.meaning expr 0).result with
  | ok value => rfl
  | error stop => cases stop <;> rfl

/-- **The evaluator refines the plain semantics.** What it yields, a value, an error or an abortion,
is the meaning of the expression at depth zero, and so is what it notes on the way. Only the note of
a failed evaluation is added, once and at the end. -/
theorem evaluate_eq_meaning (expr : Expr) (environment : Environment) :
    (expr.evaluate environment).result = (environment.meaning expr 0).result ∧
      (expr.evaluate environment).events = (environment.meaning expr 0).events ++
        match (environment.meaning expr 0).result with
        | .error (.failed error) => [.evaluationFailed expr error]
        | _ => [] := by
  refine ⟨expr.result_evaluate environment, ?_⟩
  rw [Expr.evaluate, environment.run_eq_meaning]
  obtain ⟨result, events⟩ := environment.meaning expr 0
  cases result with
  | ok value => exact (List.append_nil events).symm
  | error stop =>
    cases stop with
    | failed error => rfl
    | aborted => exact (List.append_nil events).symm

end Stencil
