import Stencil.Proofs.Semantics

/-!
# Nesting

How deep the evaluation of an expression goes, and what it needs for a value. Evaluation leaves two
kinds of parts alone: a callee is only looked at, and where it is no name the arguments are not
evaluated either.

* **`Expr.nesting`** — the levels below an expression that its evaluation enters;
  **`nesting_binary`** gives it for a chain of binary operators as a whole, by its operands.
* **`Environment.Evaluates`** — an expression has a value at a depth. One inversion for each node
  says what of its parts has a value then.
* **`Evaluates.nesting_le`** — a value needs as many levels as the nesting says, and
  **`result_meaning_of_room`** no more. Induction over the evaluated parts, `Expr.onParts`.
-/

namespace Stencil

namespace Expr

/-! ## Induction over the evaluated parts

An evaluation does not look into the callee of a call, and where this is no name it does not look at
the arguments either. Induction over all parts of a tree would ask for more than is true of these,
so the principle here has the cases of an evaluation: a call of a name with its arguments, and any
other call without anything. -/

/-- Induction over an expression by its evaluated parts. A call of a name has its arguments as
parts; any other call has none that count, so its case comes without a hypothesis. -/
@[elab_as_elim]
theorem onParts {motive : Expr → Prop}
    (number : ∀ text, motive (.number text)) (string : ∀ value, motive (.string value))
    (boolean : ∀ value, motive (.boolean value)) (identifier : ∀ name, motive (.identifier name))
    (member : ∀ base property, motive base → motive (.member base property))
    (index : ∀ base element, motive base → motive element → motive (.index base element))
    (binary : ∀ operator left right, motive left → motive right →
      motive (.binary operator left right))
    (call : ∀ name arguments, (∀ argument ∈ arguments, motive argument) →
      motive (.call (.identifier name) arguments))
    (other : ∀ callee arguments, (∀ name, callee ≠ .identifier name) →
      motive (.call callee arguments))
    (unsupported : ∀ construct source, motive (.unsupported construct source)) (expr : Expr) :
    motive expr := by
  -- recursion on the size of the tree, since arguments stand in a list
  have hrec : ∀ part : Expr, sizeOf part < sizeOf expr → motive part := fun part hpart =>
    onParts number string boolean identifier member index binary call other unsupported part
  cases expr with
  | number text => exact number text
  | string value => exact string value
  | boolean value => exact boolean value
  | identifier name => exact identifier name
  | member base property =>
    rw [Expr.member.sizeOf_spec] at hrec
    exact member base property (hrec base (by omega))
  | index base element =>
    rw [Expr.index.sizeOf_spec] at hrec
    exact index base element (hrec base (by omega)) (hrec element (by omega))
  | binary operator left right =>
    rw [Expr.binary.sizeOf_spec] at hrec
    exact binary operator left right (hrec left (by omega)) (hrec right (by omega))
  | call callee arguments =>
    rw [Expr.call.sizeOf_spec] at hrec
    by_cases hnamed : ∃ name, callee = .identifier name
    · obtain ⟨name, rfl⟩ := hnamed
      refine call name arguments fun argument hargument => hrec argument ?_
      have hsize := List.sizeOf_lt_of_mem hargument
      omega
    · exact other callee arguments fun name hname => hnamed ⟨name, hname⟩
  | unsupported construct source => exact unsupported construct source
termination_by sizeOf expr

/-! ## Levels

The levels are those of the walk from the root: one for each part below its node, and none for a
left operand that is binary itself, which is evaluated in the loop of its parent. The two lemmas at
the end of this section relate the number of levels to what can be seen of the tree, the operands of
a chain and the depth. -/

mutual

/-- The levels below an expression that its evaluation enters. The left operand of a binary
expression is at the same level if it is binary itself. -/
def nesting : Expr → Nat
  | .member base _ => nesting base + 1
  | .index base element => max (nesting base) (nesting element) + 1
  | .binary _ left right => max (left.operandDepth (nesting left)) (nesting right + 1)
  | .call (.identifier _) arguments => nestingList arguments
  | _ => 0

/-- The levels that expressions one level further down need, their own one included. -/
def nestingList : List Expr → Nat
  | [] => 0
  | expr :: exprs => max (nesting expr + 1) (nestingList exprs)

end

/-- The innermost left operand of a chain of binary operators, and then its right operands from the
inside out. -/
def operands : Expr → List Expr
  | .binary _ left right => operands left ++ [right]
  | expr => [expr]

/-- A left operand is at the depth of its operation or one level deeper, whatever the depth is. -/
theorem operandDepth_add (left : Expr) (depth more : Nat) :
    left.operandDepth (depth + more) = left.operandDepth depth + more := by
  unfold operandDepth
  split <;> omega

theorem le_operandDepth (left : Expr) (depth : Nat) : depth ≤ left.operandDepth depth := by
  unfold operandDepth
  split <;> omega

theorem operandDepth_le (left : Expr) (depth : Nat) : left.operandDepth depth ≤ depth + 1 := by
  unfold operandDepth
  split <;> omega

/-- Lists one after the other need the levels of the deeper one. -/
theorem nestingList_append (exprs others : List Expr) :
    nestingList (exprs ++ others) = max (nestingList exprs) (nestingList others) := by
  induction exprs with
  | nil => simp [nestingList]
  | cons expr exprs ih => rw [List.cons_append, nestingList, nestingList, ih, Nat.max_assoc]

/-- A bound on a list of expressions is a bound on each of them, one level further down. -/
theorem nestingList_le_iff {exprs : List Expr} {bound : Nat} :
    nestingList exprs ≤ bound ↔ ∀ expr ∈ exprs, expr.nesting + 1 ≤ bound := by
  induction exprs with
  | nil => simp [nestingList]
  | cons expr exprs ih => rw [nestingList, Nat.max_le, ih, List.forall_mem_cons]

/-- A left operand has the levels of its own operands: those of a chain stand beside the right
operand of the expression, and anything else is one operand. -/
theorem operandDepth_nesting (left : Expr) :
    left.operandDepth left.nesting = nestingList left.operands := by
  induction left using onParts with
  | binary operator left right ihleft _ =>
    have hsame : (Expr.binary operator left right).operandDepth
        (Expr.binary operator left right).nesting = (Expr.binary operator left right).nesting := rfl
    rw [hsame, nesting, operands, nestingList_append, ihleft]
    simp [nestingList]
  | _ => simp [operandDepth, operands, nestingList]

/-- **The nesting of a chain.** All of its operands are one level below it, however long it is. -/
theorem nesting_binary (operator : BinaryOperator) (left right : Expr) :
    (Expr.binary operator left right).nesting =
      nestingList (Expr.binary operator left right).operands :=
  operandDepth_nesting (.binary operator left right)

/-- An argument is not deeper than the arguments. -/
theorem depth_le_depthList {expr : Expr} {exprs : List Expr} (h : expr ∈ exprs) :
    expr.depth ≤ depthList exprs := by
  induction exprs with
  | nil => simp at h
  | cons first exprs ih =>
    rw [depthList]
    rcases List.mem_cons.mp h with rfl | hrest
    · omega
    · have := ih hrest
      omega

/-- **The nesting counts less than the depth**: the levels below the root, and none for a callee. A
left operand counts less again, as a chain of operations has one level and its depth has one for
each of them. -/
theorem nesting_lt_depth (expr : Expr) : expr.nesting < expr.depth := by
  induction expr using onParts with
  | member base property ih =>
    rw [nesting, depth]
    omega
  | index base element ihbase ihelement =>
    rw [nesting, depth]
    omega
  -- a left operand is at most one level below its operation, and its depth counts one level always
  | binary operator left right ihleft ihright =>
    have hleft := left.operandDepth_le left.nesting
    rw [nesting, depth]
    omega
  | call name arguments ih =>
    have harguments : nestingList arguments ≤ depthList arguments := by
      refine nestingList_le_iff.mpr fun argument hargument => ?_
      have hargumentDepth := depth_le_depthList hargument
      have := ih argument hargument
      omega
    rw [nesting, depth]
    omega
  | other callee arguments hcallee =>
    have hnone : (Expr.call callee arguments).nesting = 0 := by
      cases callee with
      | identifier name => exact absurd rfl (hcallee name)
      | _ => rfl
    rw [hnone, depth]
    omega
  | _ => simp [nesting, depth]

end Expr

/-! ## Expressions that have a value

Where an expression has a value, its parts had one, at the depths where the evaluation entered them.
There is one inversion for each kind of node, and with them the induction below does not look at
evaluations any more. -/

namespace Environment

/-- The expression has a value at the depth. -/
def Evaluates (environment : Environment) (expr : Expr) (depth : Nat) : Prop :=
  ∃ value, (environment.meaning expr depth).result = .ok value

variable {environment : Environment} {depth : Nat}

theorem within_of_le {depth : Nat} (body : Traced Value)
    (hdepth : depth ≤ environment.settings.evaluation.maxRecursionDepth) :
    environment.within depth body = body :=
  if_neg (Nat.not_lt.mpr hdepth)

/-- Beyond the limit the check is the outcome. -/
theorem within_of_lt {depth : Nat} (body : Traced Value)
    (hdepth : environment.settings.evaluation.maxRecursionDepth < depth) :
    environment.within depth body =
      .fail (.recursionLimit environment.settings.evaluation.maxRecursionDepth) :=
  if_pos hdepth

/-- Behind the check there is a value exactly if the check passes and there is one without it. -/
theorem result_within_eq_ok_iff {body : Traced Value} {value : Value} :
    (environment.within depth body).result = .ok value ↔
      depth ≤ environment.settings.evaluation.maxRecursionDepth ∧ body.result = .ok value := by
  by_cases hdepth : depth ≤ environment.settings.evaluation.maxRecursionDepth
  · rw [within_of_le body hdepth]
    exact (and_iff_right hdepth).symm
  · rw [within_of_lt body (Nat.lt_of_not_le hdepth)]
    exact iff_of_false (by rintro ⟨⟩) fun h => hdepth h.1

/-- A call of something that is no name is an error, whatever its arguments are. -/
theorem meaning_other {callee : Expr} (hcallee : ∀ name, callee ≠ .identifier name)
    (arguments : List Expr) (depth : Nat) :
    environment.meaning (.call callee arguments) depth = environment.within depth
      (.fail (.invalidExpression callee.display
        s!"cannot call a {callee.kind}, only named functions")) := by
  rw [meaning]
  exact hcallee

/-- Below the limit everything fails alike. -/
theorem meaning_of_lt (expr : Expr)
    (hdepth : environment.settings.evaluation.maxRecursionDepth < depth) :
    environment.meaning expr depth =
      .fail (.recursionLimit environment.settings.evaluation.maxRecursionDepth) := by
  induction expr using Expr.onParts with
  | other callee arguments hcallee => rw [meaning_other hcallee, within_of_lt _ hdepth]
  | _ => rw [meaning, within_of_lt _ hdepth]

/-- A value is only found within the limit. -/
theorem Evaluates.depth_le {expr : Expr} (h : environment.Evaluates expr depth) :
    depth ≤ environment.settings.evaluation.maxRecursionDepth := by
  obtain ⟨value, hvalue⟩ := h
  refine Nat.le_of_not_lt fun hdepth => ?_
  rw [meaning_of_lt expr hdepth] at hvalue
  cases hvalue

/-- A member has a base with a value. -/
theorem Evaluates.member {base : Expr} {property : String}
    (h : environment.Evaluates (.member base property) depth) :
    environment.Evaluates base (depth + 1) := by
  obtain ⟨value, hvalue⟩ := h
  rw [meaning, result_within_eq_ok_iff, Traced.result_bind_eq_ok_iff] at hvalue
  obtain ⟨_, baseValue, hbase, _⟩ := hvalue
  exact ⟨baseValue, hbase⟩

/-- An element has a base and an index with values. -/
theorem Evaluates.index {base element : Expr}
    (h : environment.Evaluates (.index base element) depth) :
    environment.Evaluates base (depth + 1) ∧ environment.Evaluates element (depth + 1) := by
  obtain ⟨value, hvalue⟩ := h
  rw [meaning, result_within_eq_ok_iff, Traced.result_bind_eq_ok_iff] at hvalue
  obtain ⟨_, baseValue, hbase, hrest⟩ := hvalue
  obtain ⟨elementValue, helement, _⟩ := Traced.result_bind_eq_ok_iff.mp hrest
  exact ⟨⟨baseValue, hbase⟩, ⟨elementValue, helement⟩⟩

/-- An operation has two operands with values. The left one is at its own depth. -/
theorem Evaluates.binary {operator : BinaryOperator} {left right : Expr}
    (h : environment.Evaluates (.binary operator left right) depth) :
    environment.Evaluates left (left.operandDepth depth) ∧
      environment.Evaluates right (depth + 1) := by
  obtain ⟨value, hvalue⟩ := h
  rw [meaning, result_within_eq_ok_iff, Traced.result_bind_eq_ok_iff] at hvalue
  obtain ⟨_, leftValue, hleft, hrest⟩ := hvalue
  obtain ⟨rightValue, hright, _⟩ := Traced.result_bind_eq_ok_iff.mp hrest
  exact ⟨⟨leftValue, hleft⟩, ⟨rightValue, hright⟩⟩

/-- If a list of expressions has values, each of them has one. Induction on the list. -/
theorem evaluates_of_meanings {exprs : List Expr} {values : List Value}
    (h : (environment.meanings exprs depth).result = .ok values) :
    ∀ expr ∈ exprs, environment.Evaluates expr depth := by
  induction exprs generalizing values with
  | nil => simp
  | cons expr exprs ih =>
    rw [meanings, Traced.result_bind_eq_ok_iff] at h
    obtain ⟨value, hvalue, hrest⟩ := h
    obtain ⟨rest, hvalues, _⟩ := Traced.result_bind_eq_ok_iff.mp hrest
    exact List.forall_mem_cons.mpr ⟨⟨value, hvalue⟩, ih hvalues⟩

/-- A call has arguments with values. -/
theorem Evaluates.call {name : String} {arguments : List Expr}
    (h : environment.Evaluates (.call (.identifier name) arguments) depth) :
    ∀ argument ∈ arguments, environment.Evaluates argument (depth + 1) := by
  obtain ⟨value, hvalue⟩ := h
  rw [meaning, result_within_eq_ok_iff, Traced.result_bind_eq_ok_iff] at hvalue
  obtain ⟨_, values, hvalues, _⟩ := hvalue
  exact evaluates_of_meanings hvalues

/-- Only names can be called. -/
theorem not_evaluates_other {callee : Expr} (hcallee : ∀ name, callee ≠ .identifier name)
    (arguments : List Expr) : ¬ environment.Evaluates (.call callee arguments) depth := by
  rintro ⟨value, hvalue⟩
  rw [meaning_other hcallee, result_within_eq_ok_iff] at hvalue
  cases hvalue.2

/-- A construct without a value has none. -/
theorem not_evaluates_unsupported (construct source : String) :
    ¬ environment.Evaluates (.unsupported construct source) depth := by
  rintro ⟨value, hvalue⟩
  rw [meaning, result_within_eq_ok_iff] at hvalue
  cases hvalue.2

/-- **A value needs its levels.** Every level below the expression that its evaluation enters is
within the limit. The parts of an expression that has a value have values, one level further down,
and the levels of the expression are those of its deepest part and one more. -/
theorem Evaluates.nesting_le {expr : Expr} (h : environment.Evaluates expr depth) :
    depth + expr.nesting ≤ environment.settings.evaluation.maxRecursionDepth := by
  induction expr using Expr.onParts generalizing depth with
  | member base property ih =>
    have hbase := ih h.member
    rw [Expr.nesting]
    omega
  | index base element ihbase ihelement =>
    have hbase := ihbase h.index.1
    have helement := ihelement h.index.2
    rw [Expr.nesting]
    omega
  | binary operator left right ihleft ihright =>
    have hleft := ihleft h.binary.1
    have hright := ihright h.binary.2
    -- both a chain and any other left operand shift the depth and the nesting alike
    rw [← Expr.operandDepth_add, Nat.add_comm, Expr.operandDepth_add] at hleft
    rw [Expr.nesting]
    omega
  | call name arguments ih =>
    have hentry := h.depth_le
    have harguments : Expr.nestingList arguments ≤
        environment.settings.evaluation.maxRecursionDepth - depth := by
      refine Expr.nestingList_le_iff.mpr fun argument hargument => ?_
      have := ih argument hargument (h.call argument hargument)
      omega
    rw [Expr.nesting]
    omega
  | other callee arguments hcallee => exact absurd h (not_evaluates_other hcallee arguments)
  | unsupported construct source => exact absurd h (not_evaluates_unsupported construct source)
  | _ => exact h.depth_le

/-! ## One value at several depths

The depth of an expression only matters for the check of the limit. So a value that is found at one
depth is found at every depth from which the levels below it are within the limit, and it is the
same. -/

/-- The same for a list of expressions. Induction on the list. -/
theorem result_meanings_of_room {exprs : List Expr} {values : List Value} {depth' : Nat}
    (hexprs : ∀ expr ∈ exprs, ∀ value, (environment.meaning expr depth).result = .ok value →
      (environment.meaning expr depth').result = .ok value)
    (h : (environment.meanings exprs depth).result = .ok values) :
    (environment.meanings exprs depth').result = .ok values := by
  induction exprs generalizing values with
  | nil => exact h
  | cons expr exprs ih =>
    obtain ⟨hexpr, hexprs⟩ := List.forall_mem_cons.mp hexprs
    rw [meanings, Traced.result_bind_eq_ok_iff] at h ⊢
    obtain ⟨value, hvalue, hrest⟩ := h
    obtain ⟨rest, hvalues, hcons⟩ := Traced.result_bind_eq_ok_iff.mp hrest
    exact ⟨value, hexpr value hvalue,
      Traced.result_bind_eq_ok_iff.mpr ⟨rest, ih hexprs hvalues, hcons⟩⟩

/-- **A value needs no more than its levels.** It is the same at every depth from which they are
within the limit. The other direction of `Evaluates.nesting_le`, by the same induction, but with the
values of the parts at hand. -/
theorem result_meaning_of_room {expr : Expr} {value : Value} {depth' : Nat}
    (h : (environment.meaning expr depth).result = .ok value)
    (hroom : depth' + expr.nesting ≤ environment.settings.evaluation.maxRecursionDepth) :
    (environment.meaning expr depth').result = .ok value := by
  have hentry : depth' ≤ environment.settings.evaluation.maxRecursionDepth := by omega
  induction expr using Expr.onParts generalizing depth depth' value with
  | member base property ih =>
    rw [meaning, result_within_eq_ok_iff, Traced.result_bind_eq_ok_iff] at h ⊢
    obtain ⟨_, baseValue, hbase, hmember⟩ := h
    rw [Expr.nesting] at hroom
    exact ⟨hentry, baseValue, ih hbase (by omega) (by omega), hmember⟩
  | index base element ihbase ihelement =>
    rw [meaning, result_within_eq_ok_iff, Traced.result_bind_eq_ok_iff] at h ⊢
    obtain ⟨_, baseValue, hbase, hrest⟩ := h
    obtain ⟨elementValue, helement, hfind⟩ := Traced.result_bind_eq_ok_iff.mp hrest
    rw [Expr.nesting] at hroom
    have helement' : (environment.meaning element (depth' + 1)).result = .ok elementValue :=
      ihelement helement (by omega) (by omega)
    exact ⟨hentry, baseValue, ihbase hbase (by omega) (by omega),
      Traced.result_bind_eq_ok_iff.mpr ⟨elementValue, helement', hfind⟩⟩
  | binary operator left right ihleft ihright =>
    rw [meaning, result_within_eq_ok_iff, Traced.result_bind_eq_ok_iff] at h ⊢
    obtain ⟨_, leftValue, hleft, hrest⟩ := h
    obtain ⟨rightValue, hright, hoperate⟩ := Traced.result_bind_eq_ok_iff.mp hrest
    rw [Expr.nesting] at hroom
    -- both a chain and any other left operand shift the depth and the nesting alike
    have hlevels := left.operandDepth_add depth' left.nesting
    rw [Nat.add_comm, left.operandDepth_add] at hlevels
    have hright' : (environment.meaning right (depth' + 1)).result = .ok rightValue :=
      ihright hright (by omega) (by omega)
    exact ⟨hentry, leftValue, ihleft hleft (by omega) (by omega),
      Traced.result_bind_eq_ok_iff.mpr ⟨rightValue, hright', hoperate⟩⟩
  | call name arguments ih =>
    rw [meaning, result_within_eq_ok_iff, Traced.result_bind_eq_ok_iff] at h ⊢
    obtain ⟨_, values, hvalues, hcall⟩ := h
    rw [Expr.nesting] at hroom
    have hlevels : Expr.nestingList arguments ≤
        environment.settings.evaluation.maxRecursionDepth - depth' := by omega
    have harguments : (environment.meanings arguments (depth' + 1)).result = .ok values := by
      refine result_meanings_of_room (fun argument hargument value hvalue => ?_) hvalues
      have := Expr.nestingList_le_iff.mp hlevels argument hargument
      exact ih argument hargument hvalue (by omega) (by omega)
    exact ⟨hentry, values, harguments, hcall⟩
  | other callee arguments hcallee =>
    rw [meaning_other hcallee, result_within_eq_ok_iff] at h ⊢
    exact ⟨hentry, h.2⟩
  | _ =>
    rw [meaning, result_within_eq_ok_iff] at h ⊢
    exact ⟨hentry, h.2⟩

end Environment

/-- A whole evaluation is one at depth zero. -/
theorem Expr.evaluates_of_evaluate {expr : Expr} {environment : Environment} {value : Value}
    (h : (expr.evaluate environment).result = .ok value) : environment.Evaluates expr 0 := by
  rw [Expr.result_evaluate expr environment] at h
  exact ⟨value, h⟩

end Stencil
