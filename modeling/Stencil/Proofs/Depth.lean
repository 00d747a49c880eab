import Stencil.Proofs.Clocks
import Stencil.Proofs.Nesting
import Stencil.Proofs.Rules

/-!
# Depths of accepted trees

The parser carries the depth of every node along with its tree and refuses nodes beyond its limit.
The evaluator counts another depth, from the root down, and refuses to go below a limit of its own.
With the standard configuration the first limit is as strict as the second, so an accepted tree
never runs into the second.

* **`Measured`**, **`measured_invariant`** — the tracked depth is that of the tree and within the
  parser's limit, whichever rule made the node.
* **`meaning_notLimit`** — an expression that fits below its depth is evaluated without reaching the
  limit. Induction on the expression; what has to fit is its nesting, which is less than its depth.
* **`accepted_evaluates`** — the two together.
-/

namespace Stencil

/-! ## The depth that is tracked

Each rule of the parser that makes a node computes the depth of the node from those of its parts,
and checks it before it goes on. So that the depth is right is an invariant of nodes, with one case
for each way in which a node is made, and the lemma about invariants carries it through the rules.
-/

namespace Parser

/-- The depth that is tracked for a node is the depth of its tree, and not beyond the limit. -/
structure Measured (node : Node) : Prop where
  depth_eq : node.depth = node.expr.depth
  depth_le : node.depth ≤ maxDepth

/-- The deepest of the arguments, as the parser keeps it, is the depth of the list of their trees.
Induction on the list. -/
theorem deepest_eq_depthList {nodes : List Node} (hnodes : ∀ node ∈ nodes, Measured node) :
    deepest nodes = Expr.depthList (nodes.map Node.expr) := by
  induction nodes with
  | nil => rfl
  | cons node nodes ih =>
    obtain ⟨hnode, hnodes⟩ := List.forall_mem_cons.mp hnodes
    rw [deepest, List.map_cons, Expr.depthList, hnode.depth_eq, ih hnodes]

/-- **Every way to make a node keeps its depth right and within the limit.** A leaf has depth one,
and so has a construct without a value; other nodes are one deeper than the deepest of their parts,
and the check on the spot is the bound. -/
theorem measured_invariant : Invariant (fun _ => True) Measured where
  advance _ _ := fun _ _ => trivial
  -- a leaf is not checked, but its depth is one
  leaf _ hleaf := by
    refine ⟨?_, by show 1 ≤ maxDepth; decide⟩
    cases hleaf <;> rfl
  unsupported _ _ _ _ := ⟨rfl, by show 1 ≤ maxDepth; decide⟩
  member _ _ hbase hdepth := by
    refine ⟨?_, hdepth⟩
    show _ = Expr.depth _ + 1
    rw [hbase.depth_eq]
  index hbase helement hdepth := by
    refine ⟨?_, hdepth⟩
    show _ = max (Expr.depth _) (Expr.depth _) + 1
    rw [hbase.depth_eq, helement.depth_eq]
  call hcallee harguments hdepth := by
    refine ⟨?_, hdepth⟩
    show _ = max (Expr.depth _) (Expr.depthList _) + 1
    rw [hcallee.depth_eq, deepest_eq_depthList harguments]
  binary operator hleft hright hdepth := by
    refine ⟨?_, hdepth⟩
    show _ = max (Expr.depth _) (Expr.depth _) + 1
    rw [hleft.depth_eq, hright.depth_eq]

/-- The node that is read for a whole source has its depth with it. -/
theorem measured_root {source : String} {node : Node} (hroot : root source = .ok node) :
    Measured node :=
  root_keeps measured_invariant (fun _ _ => trivial) node hroot

end Parser

/-! ## Errors other than the limit

The recursion limit is an error like any other, so a function or an operator of a host might report
it too, and then an evaluation would end with it wherever the function stands. This is excluded by a
condition on the vocabulary. What is left is the evaluator's own check, which compares the depth of
a node in the walk with the limit. -/

/-- Whether the error is that of the recursion limit. -/
def Error.isLimit : Error → Bool
  | .recursionLimit _ => true
  | _ => false

/-- The error is not that of the recursion limit. -/
def Error.NotLimit (error : Error) : Prop := error.isLimit = false

/-- The functions and operators of the vocabulary never report the recursion limit. -/
structure Vocabulary.NeverLimits (vocabulary : Vocabulary) : Prop where
  function {name : String} {function : Function} :
    vocabulary.functions.get? name = some function →
      ∀ arguments settings, (function.run arguments settings).FailsWithin Error.NotLimit
  operator {symbol : String} {operation : Operator} :
    vocabulary.operators.get? symbol = some operation →
      ∀ left right settings, (operation left right settings).FailsWithin Error.NotLimit

theorem Expr.depth_pos (expr : Expr) : 0 < expr.depth := by
  cases expr <;> simp [Expr.depth]

namespace Environment

variable {environment : Environment}

/-- A literal that is no decimal is an invalid number. -/
theorem numeral_notLimit (text : String) : (numeral text).FailsWithin Error.NotLimit := by
  refine .ofExcept ?_
  unfold Decimal.read
  split
  · exact .ok _
  · exact .error rfl

/-- A member that is not there is an unknown variable. -/
theorem member_notLimit (base : Value) (property : String) (expr : Expr) :
    (environment.member base property expr).FailsWithin Error.NotLimit := by
  unfold member
  split
  · exact .pure _
  · exact .fail rfl

/-- An operator is not there, or reports what it reports. -/
theorem operate_notLimit {vocabulary : Vocabulary} (hvocabulary : vocabulary.NeverLimits)
    (symbol : String) (left right : Value) (settings : Settings) :
    (vocabulary.operate symbol left right settings).FailsWithin Error.NotLimit := by
  unfold Vocabulary.operate
  split
  · rename_i operation hoperation
    exact hvocabulary.operator hoperation left right settings
  · exact .fail rfl

/-- A function is not there, refuses the number of its arguments, or reports what it reports. -/
theorem call_notLimit {vocabulary : Vocabulary} (hvocabulary : vocabulary.NeverLimits)
    (name : String) (arguments : List Value) (settings : Settings) :
    (vocabulary.call name arguments settings).FailsWithin Error.NotLimit := by
  unfold Vocabulary.call
  split
  · rename_i function hfunction
    unfold Function.apply Function.countError?
    split
    · -- the only error of a check is that of the number of arguments
      rename_i error herror
      split at herror
      · cases herror
      · split at herror <;> cases herror
        exact .fail rfl
    · exact hvocabulary.function hfunction arguments settings
  · exact .fail rfl

mutual

/-- **An expression whose nesting fits below its depth never reaches the limit.** Induction on the
expression, together with its lists of arguments; the nesting of a part fits one level below. The
left operand of a chain stays at its level, and the nesting counts it in the same way. -/
theorem meaning_notLimit (hvocabulary : environment.vocabulary.NeverLimits) (expr : Expr)
    (depth : Nat)
    (hdepth : depth + expr.nesting ≤ environment.settings.evaluation.maxRecursionDepth) :
    (environment.meaning expr depth).FailsWithin Error.NotLimit := by
  have hentry : depth ≤ environment.settings.evaluation.maxRecursionDepth := by omega
  match expr with
  | .number text =>
    rw [meaning, within_of_le _ hentry]
    exact numeral_notLimit text
  | .string value =>
    rw [meaning, within_of_le _ hentry]
    exact .pure _
  | .boolean value =>
    rw [meaning, within_of_le _ hentry]
    exact .pure _
  | .identifier name =>
    rw [meaning, within_of_le _ hentry]
    exact .ofOption rfl
  | .member base property =>
    rw [Expr.nesting] at hdepth
    rw [meaning, within_of_le _ hentry]
    refine (meaning_notLimit hvocabulary base (depth + 1) (by omega)).bind fun value => ?_
    exact member_notLimit value property _
  | .index base element =>
    rw [Expr.nesting] at hdepth
    rw [meaning, within_of_le _ hentry]
    refine (meaning_notLimit hvocabulary base (depth + 1) (by omega)).bind fun value => ?_
    refine (meaning_notLimit hvocabulary element (depth + 1) (by omega)).bind fun key => ?_
    split
    · split <;> exact .pure _
    · exact .pure _
    · exact .fail rfl
  | .binary operator left right =>
    rw [Expr.nesting] at hdepth
    rw [meaning, within_of_le _ hentry]
    -- where the left operand is one level deeper, the nesting counts that level
    have hleft : left.operandDepth depth + left.nesting = left.operandDepth left.nesting + depth := by
      rw [← Expr.operandDepth_add, ← Expr.operandDepth_add, Nat.add_comm]
    refine (meaning_notLimit hvocabulary left _ (by omega)).bind fun leftValue => ?_
    refine (meaning_notLimit hvocabulary right (depth + 1) (by omega)).bind fun rightValue => ?_
    rw [← operate_eq]
    exact operate_notLimit hvocabulary _ leftValue rightValue _
  | .call callee arguments =>
    by_cases hnamed : ∃ name, callee = .identifier name
    · obtain ⟨name, rfl⟩ := hnamed
      rw [Expr.nesting] at hdepth
      rw [meaning, within_of_le _ hentry]
      refine (meanings_notLimit hvocabulary arguments (depth + 1) (by omega)).bind fun values => ?_
      rw [← call_eq]
      exact call_notLimit hvocabulary name values _
    · rw [meaning_other fun name hname => hnamed ⟨name, hname⟩, within_of_le _ hentry]
      exact .fail rfl
  | .unsupported construct source =>
    rw [meaning, within_of_le _ hentry]
    exact .fail rfl

/-- The same for a list of arguments, each of which is evaluated at the depth of the list. -/
theorem meanings_notLimit (hvocabulary : environment.vocabulary.NeverLimits) (exprs : List Expr)
    (depth : Nat)
    (hdepth : depth + Expr.nestingList exprs ≤
      environment.settings.evaluation.maxRecursionDepth + 1) :
    (environment.meanings exprs depth).FailsWithin Error.NotLimit := by
  match exprs with
  | [] => exact .pure _
  | expr :: exprs =>
    rw [Expr.nestingList] at hdepth
    rw [meanings]
    refine (meaning_notLimit hvocabulary expr depth (by omega)).bind fun value => ?_
    refine (meanings_notLimit hvocabulary exprs depth (by omega)).bind fun values => ?_
    exact .pure _

end

/-- A whole evaluation starts at depth zero, so it is enough that the nesting of the tree is within
the limit, and that is less than its depth. -/
theorem evaluate_notLimit (hvocabulary : environment.vocabulary.NeverLimits) (expr : Expr)
    (hdepth : expr.depth ≤ environment.settings.evaluation.maxRecursionDepth + 1) :
    (expr.evaluate environment).FailsWithin Error.NotLimit := by
  have hnesting := expr.nesting_lt_depth
  unfold Expr.evaluate
  rw [environment.run_eq_meaning]
  refine .recover fun error herror => ?_
  -- the handler only notes the error and raises it again
  have herror := meaning_notLimit hvocabulary expr 0 (by omega) error herror
  exact (Traced.FailsWithin.note _).bind fun _ => .fail herror

end Environment

/-! ## The standard vocabulary

None of its functions and operators evaluates an expression, so none can reach the limit. -/

/-- A value that is no decimal is an error of types. -/
theorem expectDecimal_notLimit (operation : String) (value : Value) :
    ErrorsWithin Error.NotLimit (value.expectDecimal operation) := by
  unfold Value.expectDecimal
  split
  · exact .ok _
  · exact .error rfl

/-- A result that no decimal holds is an overflow. -/
theorem checked_notLimit (symbol : String) (result? : Option Decimal) :
    ErrorsWithin Error.NotLimit (Operator.checked symbol result?) := by
  unfold Operator.checked
  split
  · exact .ok _
  · exact .error rfl

/-- An operator on decimals fails for its operands or in its combination. -/
theorem ofDecimals_notLimit (symbol : String)
    {combine : Decimal → Decimal → Settings → Except Error Decimal}
    (hcombine : ∀ a b settings, ErrorsWithin Error.NotLimit (combine a b settings))
    (left right : Value) (settings : Settings) :
    (Operator.ofDecimals symbol combine left right settings).FailsWithin Error.NotLimit := by
  refine .ofExcept ?_
  refine (expectDecimal_notLimit symbol left).bind fun a => ?_
  refine (expectDecimal_notLimit symbol right).bind fun b => ?_
  exact (hcombine a b settings).bind fun result => .ok _

/-- Division has one error more, that of a divisor of zero. -/
theorem divide_notLimit (left right : Value) (settings : Settings) :
    (Operator.divide left right settings).FailsWithin Error.NotLimit := by
  refine ofDecimals_notLimit "/" (fun a b settings => ?_) left right settings
  -- a divisor of zero is refused before anything is divided
  split
  · exact .bind (.error rfl) fun _ => (checked_notLimit "/" _).bind fun result => .ok _
  · exact (checked_notLimit "/" _).bind fun result => .ok _

/-- To round fails for the types of its arguments or with an overflow. -/
theorem round_notLimit (arguments : List Value) (settings : Settings) :
    (Function.round.run arguments settings).FailsWithin Error.NotLimit := by
  refine .ofExcept ?_
  split
  · refine (expectDecimal_notLimit "round" _).bind fun value => ?_
    refine (expectDecimal_notLimit "round" _).bind fun places => ?_
    split
    · exact .ok _
    · exact .error rfl
  · exact .error rfl

/-- The errors of clocks are those of arguments and failures of their own. -/
theorem clock_notLimit (name : String) (arguments : List Value) (settings : Settings) :
    ((Function.clock name).run arguments settings).FailsWithin Error.NotLimit := by
  refine (Clock.run_failsWithin (.range name 1 3) arguments settings).mono ?_
  rintro error (⟨_, _, rfl⟩ | ⟨_, rfl⟩ | ⟨_, _, rfl⟩) <;> rfl

/-- No function and no operator that an engine starts with reports the recursion limit. -/
theorem Vocabulary.standard_neverLimits : Vocabulary.standard.NeverLimits where
  function hfunction := by
    rcases standard_function_cases hfunction with ⟨_, rfl⟩ | ⟨_, rfl⟩ | ⟨_, rfl⟩
    · exact round_notLimit
    · exact clock_notLimit "timezone"
    · exact clock_notLimit "formatTime"
  operator hoperation := by
    -- three of the four operators differ in the operation on decimals only
    have hchecked : ∀ (symbol : String) (result : Decimal → Decimal → Option Decimal)
        (left right : Value) (settings : Settings),
        (Operator.ofDecimals symbol (fun a b _ => Operator.checked symbol (result a b)) left right
          settings).FailsWithin Error.NotLimit :=
      fun symbol result => ofDecimals_notLimit symbol fun a b _ => checked_notLimit symbol _
    rcases standard_operator_cases hoperation with ⟨_, rfl⟩ | ⟨_, rfl⟩ | ⟨_, rfl⟩ | ⟨_, rfl⟩
    · exact hchecked "+" Decimal.add?
    · exact hchecked "-" Decimal.sub?
    · exact hchecked "*" Decimal.mul?
    · exact divide_notLimit

/-! ## Accepted trees

Both limits are 1024 by default, one for the depth from the leaves up, which counts the node itself,
and one for the depth from the root down, which starts at zero. -/

/-- **Every accepted tree evaluates within the limit.** The depth that the parser tracked for it is
its depth and not beyond the parser's limit, and with the standard configuration the evaluator never
ends with the recursion limit, whatever the document, the resolver and the settings of the
rendering, as long as no function and no operator of the vocabulary reports that error itself. -/
theorem accepted_evaluates {source : String} {expr : Expr} (hparse : Expr.parse source = .ok expr) :
    (∃ node, Parser.root source = .ok node ∧ node.expr = expr ∧ node.depth = expr.depth ∧
      expr.depth ≤ Parser.maxDepth) ∧
    ∀ (vocabulary : Vocabulary) (resolve : Resolver) (render : RenderConfig) (document : Json),
      vocabulary.NeverLimits → ∀ limit : Nat,
        (expr.evaluate ⟨vocabulary, resolve, ⟨render, {}⟩, document⟩).result ≠
          .error (.failed (.recursionLimit limit)) := by
  obtain ⟨node, hroot, rfl⟩ := Parser.exists_root hparse
  have hmeasured := Parser.measured_root hroot
  have hdepth : node.expr.depth ≤ Parser.maxDepth := hmeasured.depth_eq ▸ hmeasured.depth_le
  refine ⟨⟨node, hroot, rfl, hmeasured.depth_eq, hdepth⟩, ?_⟩
  intro vocabulary resolve render document hvocabulary limit hlimit
  have hfits : node.expr.depth ≤ ({} : EvaluationConfig).maxRecursionDepth + 1 :=
    Nat.le_succ_of_le hdepth
  have hother := Environment.evaluate_notLimit hvocabulary node.expr hfits _ hlimit
  cases hother

/-- A call with arguments, an access and a folded minus sign, in the standard vocabulary. -/
theorem accepted_evaluates_round :
    ∃ expr, Expr.parse "round($a.b, 1) + -2 * c[0]" = .ok expr ∧
      expr.display = "(round($a.b, 1) + (-2 * c[0]))" ∧ expr.depth = 4 ∧
      (∃ node, Parser.root "round($a.b, 1) + -2 * c[0]" = .ok node ∧ node.depth = 4) ∧
      ∀ (render : RenderConfig) (document : Json) (limit : Nat),
        (expr.evaluate ⟨.standard, Json.resolve, ⟨render, {}⟩, document⟩).result ≠
          .error (.failed (.recursionLimit limit)) := by
  have hread : (Expr.parse "round($a.b, 1) + -2 * c[0]").toOption.map
      (fun expr => (expr.display, expr.depth)) = some ("(round($a.b, 1) + (-2 * c[0]))", 4) := by
    decide +kernel
  obtain ⟨expr, hparse, hshape⟩ := exists_of_map_toOption hread
  obtain ⟨hdisplay, hdepth⟩ := Prod.mk.inj hshape
  obtain ⟨⟨node, hroot, _, htracked, _⟩, hlimit⟩ := accepted_evaluates hparse
  refine ⟨expr, hparse, hdisplay, hdepth, ⟨node, hroot, htracked.trans hdepth⟩, ?_⟩
  intro render document limit
  exact hlimit .standard Json.resolve render document Vocabulary.standard_neverLimits limit

end Stencil
