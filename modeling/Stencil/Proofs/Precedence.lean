import Stencil.Proofs.Taking
import Stencil.Proofs.Quoting

/-!
# How operators group

A sequence of operands with operators between them can be read as many trees. One of them groups its
operators as their precedences say, and that is the one the parser makes.

* **`Expr.Grouped`** — to the left of an operator stand operators that bind at least as tightly, to
  its right only tighter ones; with powers it is the other way round.
* **`Expr.Grouped.eq_of_inOrder`** — grouped trees with the same operands and operators from left to
  right are the same. The topmost operator of one tree cannot stand in a part of the other one.
* **`exists_grouped`** — every sequence has a grouped tree. Induction from the left: one more
  operand goes down the right side of the tree (`Expr.attach`).
* **`binary_takes_grouped`** — the parser reads the tokens of a grouped tree as that tree. Induction
  on the tree: what stands to the left of an operator is read by the loop before it, what stands to
  the right by the rule for right operands.
-/

namespace Stencil

/-! ## Operands and operators from left to right

A sequence is given by its first operand and the pairs of an operator and an operand behind it. The
tree of a sequence is compared with it through its own sequence of leaves and operators, so that no
tree has to be written down to say what it groups. -/

/-- An operand that is one token. A string has no escapes. -/
inductive Atom where
  | number (text : String)
  | string (value : String) (h : '\\' ∉ value.toList)
  | boolean (value : Bool)
  | identifier (name : String)

namespace Atom

/-- The token of an operand. -/
def token : Atom → Token
  | number text => .number text
  | string value _ => .string value
  | boolean value => .boolean value
  | identifier name => .identifier name

/-- The leaf of an operand. -/
def expr : Atom → Expr
  | number text => .number text
  | string value _ => .string value
  | boolean value => .boolean value
  | identifier name => .identifier name

end Atom

/-- The operands and operators of a sequence, from left to right. -/
def sequenceOf (first : Atom) (tail : List (BinaryOperator × Atom)) : List (Atom ⊕ BinaryOperator) :=
  .inl first :: tail.flatMap fun (operator, atom) => [.inr operator, .inl atom]

/-- The tokens of a sequence. -/
def tokensOf (sequence : List (Atom ⊕ BinaryOperator)) : List Token :=
  sequence.map (Sum.elim Atom.token Token.operator)

/-- The operands of a sequence as leaves. -/
def leavesOf (sequence : List (Atom ⊕ BinaryOperator)) : List (Expr ⊕ BinaryOperator) :=
  sequence.map (Sum.map Atom.expr id)

namespace Expr

/-- The operands and operators of a tree from left to right. -/
def inOrder : Expr → List (Expr ⊕ BinaryOperator)
  | binary operator left right => inOrder left ++ .inr operator :: inOrder right
  | expr => [.inl expr]

/-- The operator at the top of a tree. -/
def top? : Expr → Option BinaryOperator
  | binary operator _ _ => some operator
  | _ => none

end Expr

namespace BinaryOperator

/-- Whether the left operand of an operator may have another one at its top: one that binds at least
as tightly, and none in front of a power. -/
def AllowsLeft (operator other : BinaryOperator) : Prop :=
  operator.precedence.level ≤ other.precedence.level ∧ operator.precedence ≠ .exponent

/-- Whether the right operand of an operator may have another one at its top: one that binds more
tightly, or another power behind a power. -/
def AllowsRight (operator other : BinaryOperator) : Prop :=
  operator.precedence.level < other.precedence.level ∨
    operator.precedence.level = other.precedence.level ∧ operator.precedence = .exponent

instance (operator other : BinaryOperator) : Decidable (operator.AllowsRight other) :=
  inferInstanceAs (Decidable (_ ∨ _))

end BinaryOperator

/-- Every operator of the tree stands where precedences put it without parentheses. Only the topmost
operators of the two operands are asked, for they are the loosest of their parts. -/
def Expr.Grouped : Expr → Prop
  | .binary operator left right =>
    (∀ other ∈ left.top?, operator.AllowsLeft other) ∧
      (∀ other ∈ right.top?, operator.AllowsRight other) ∧ left.Grouped ∧ right.Grouped
  | _ => True

/-! ## Bounds on the operators of a tree

What an operator asks of the operators at its sides is a bound on their levels, so it passes from
one operator to all tighter ones. In a grouped tree the top is the loosest, and what is asked of it
is asked of the whole part. -/

namespace Precedence

theorem eq_exponent_of_le {precedence : Precedence} (h : exponent.level ≤ precedence.level) :
    precedence = exponent := by
  cases precedence <;> first | rfl | exact absurd h (by decide)

end Precedence

namespace BinaryOperator

variable {operator other top : BinaryOperator}

theorem AllowsLeft.mono (h : operator.AllowsLeft top)
    (hle : top.precedence.level ≤ other.precedence.level) : operator.AllowsLeft other :=
  ⟨Nat.le_trans h.1 hle, h.2⟩

/-- A tighter operator may stand to the right as well. Behind a power it can only be another power.
-/
theorem AllowsRight.mono (h : operator.AllowsRight top)
    (hle : top.precedence.level ≤ other.precedence.level) : operator.AllowsRight other := by
  rcases h with hlt | ⟨heq, hexponent⟩
  · exact Or.inl (Nat.lt_of_lt_of_le hlt hle)
  · rcases Nat.lt_or_eq_of_le (heq ▸ hle) with hlt | heq
    · exact Or.inl hlt
    · exact Or.inr ⟨heq, hexponent⟩

theorem AllowsRight.level_le (h : operator.AllowsRight other) :
    operator.precedence.level ≤ other.precedence.level :=
  h.elim Nat.le_of_lt fun h => Nat.le_of_eq h.1

/-- Of two operators in a row, one allows the other at its side. Only powers ask for more than their
level, and they do so in the two directions in opposite ways. -/
theorem allowsLeft_of_not_allowsRight (h : ¬operator.AllowsRight other) :
    other.AllowsLeft operator := by
  obtain ⟨hlevel, hpower⟩ := not_or.mp h
  refine ⟨Nat.le_of_not_lt hlevel, fun hother => hpower ?_⟩
  have hexponent : operator.precedence = .exponent :=
    Precedence.eq_exponent_of_le (hother ▸ Nat.le_of_not_lt hlevel)
  exact ⟨by rw [hexponent, hother], hexponent⟩

/-- And only one of them does. This is what makes grouping unique. -/
theorem AllowsLeft.not_allowsRight (h : other.AllowsLeft operator) :
    ¬operator.AllowsRight other := by
  rintro (hlt | ⟨heq, hexponent⟩)
  · exact absurd h.1 (Nat.not_le_of_lt hlt)
  · exact h.2 (Precedence.eq_exponent_of_le (hexponent ▸ Nat.le_of_eq heq))

end BinaryOperator

namespace Expr

/-- The loosest operator of a grouped tree is at its top. Induction on the tree, where an operator
in a part is tighter than the top of the part, and that is tighter than the top of the tree. -/
theorem Grouped.exists_top {expr : Expr} (h : expr.Grouped) {other : BinaryOperator}
    (hother : .inr other ∈ expr.inOrder) :
    ∃ top ∈ expr.top?, top.precedence.level ≤ other.precedence.level := by
  fun_induction inOrder expr with
  | case1 operator left right ihleft ihright =>
    obtain ⟨hallowsLeft, hallowsRight, hleft, hright⟩ := h
    refine ⟨operator, rfl, ?_⟩
    rcases List.mem_append.mp hother with hother | hother
    · obtain ⟨top, htop, hle⟩ := ihleft hleft hother
      exact Nat.le_trans (hallowsLeft top htop).1 hle
    · rcases List.mem_cons.mp hother with heq | hother
      · cases heq
        exact Nat.le_refl _
      · obtain ⟨top, htop, hle⟩ := ihright hright hother
        exact Nat.le_trans (hallowsRight top htop).level_le hle
  | case2 expr hleaf => simp at hother

section
variable {operator : BinaryOperator} {left right : Expr} (h : (binary operator left right).Grouped)
include h

/-- What an operator asks of the top of its left operand holds of every operator there. -/
theorem Grouped.allowsLeft {other : BinaryOperator} (hother : .inr other ∈ left.inOrder) :
    operator.AllowsLeft other := by
  obtain ⟨top, htop, hle⟩ := h.2.2.1.exists_top hother
  exact (h.1 top htop).mono hle

/-- What an operator asks of the top of its right operand holds of every operator there. -/
theorem Grouped.allowsRight {other : BinaryOperator} (hother : .inr other ∈ right.inOrder) :
    operator.AllowsRight other := by
  obtain ⟨top, htop, hle⟩ := h.2.2.2.exists_top hother
  exact (h.2.1 top htop).mono hle

end

/-! ## One grouped tree at most

Two trees of one sequence have their tops at two places of it. If these differ, the left one of them
is in the left part of the other and the other one in its right part, and each would have to allow
the other one at its side. -/

/-- All that is no operator with two operands is a leaf. -/
theorem inOrder_leaf {expr : Expr} (h : ∀ operator left right, expr ≠ binary operator left right) :
    expr.inOrder = [.inl expr] := by
  fun_cases inOrder expr with
  | case1 => exact absurd rfl (h _ _ _)
  | case2 => rfl

theorem inOrder_ne_nil (expr : Expr) : expr.inOrder ≠ [] := by
  fun_cases inOrder expr <;> simp

/-- A tree with an operator is more than one leaf. -/
theorem inOrder_binary_ne (operator : BinaryOperator) (left right : Expr)
    (item : Expr ⊕ BinaryOperator) : (binary operator left right).inOrder ≠ [item] := by
  intro heq
  rcases List.append_eq_singleton_iff.mp heq with ⟨hleft, _⟩ | ⟨_, hright⟩
  · exact inOrder_ne_nil left hleft
  · cases hright

section
variable {operator operator' : BinaryOperator} {left right left' right' : Expr}

/-- One of two topmost operators cannot stand to the left of the other. What is between them belongs
to the right part of the one and to the left part of the other, so each is seen by the other tree.
-/
theorem Grouped.not_overlap (h : (binary operator left right).Grouped)
    (h' : (binary operator' left' right').Grouped) {between : List (Expr ⊕ BinaryOperator)}
    (hleft : left'.inOrder = left.inOrder ++ .inr operator :: between)
    (hright : right.inOrder = between ++ .inr operator' :: right'.inOrder) : False := by
  have hallows : operator'.AllowsLeft operator := h'.allowsLeft (by simp [hleft])
  exact hallows.not_allowsRight (h.allowsRight (by simp [hright]))

/-- Two grouped trees of one sequence have the same operator at the top, with the same sequences at
its sides. Where a list is split in two ways, one of the splits comes first; if it really does, the
operators overlap. -/
theorem Grouped.same_top (h : (binary operator left right).Grouped)
    (h' : (binary operator' left' right').Grouped)
    (heq : (binary operator left right).inOrder = (binary operator' left' right').inOrder) :
    left.inOrder = left'.inOrder ∧ operator = operator' ∧ right.inOrder = right'.inOrder := by
  -- `between` is what stands between the two operators, besides the left one of them
  rcases List.append_eq_append_iff.mp heq with ⟨between, hleft, hright⟩ | ⟨between, hleft, hright⟩
  · cases between with
    | nil =>
      obtain ⟨hoperator, hrest⟩ := List.cons.inj hright
      exact ⟨by simpa using hleft.symm, Sum.inr.inj hoperator, hrest⟩
    | cons item between =>
      obtain ⟨rfl, hrest⟩ := List.cons.inj hright
      exact (h.not_overlap h' hleft hrest).elim
  · cases between with
    | nil =>
      obtain ⟨hoperator, hrest⟩ := List.cons.inj hright
      exact ⟨by simpa using hleft, (Sum.inr.inj hoperator).symm, hrest.symm⟩
    | cons item between =>
      obtain ⟨rfl, hrest⟩ := List.cons.inj hright
      exact (h'.not_overlap h hleft hrest).elim

end

/-- **Grouped trees with the same operands and operators are the same.** Induction on the first one:
the tops are the same, and so are the parts. -/
theorem Grouped.eq_of_inOrder {expr expr' : Expr} (h : expr.Grouped) (h' : expr'.Grouped)
    (heq : expr.inOrder = expr'.inOrder) : expr = expr' := by
  induction expr using inOrder.induct generalizing expr' with
  | case1 operator left right ihleft ihright =>
    cases expr' with
    | binary operator' left' right' =>
      obtain ⟨hleft, rfl, hright⟩ := h.same_top h' heq
      rw [ihleft h.2.2.1 h'.2.2.1 hleft, ihright h.2.2.2 h'.2.2.2 hright]
    | _ => exact (inOrder_binary_ne _ _ _ _ heq).elim
  -- a leaf has the sequence of no tree with an operator
  | case2 expr hleaf =>
    rw [inOrder_leaf hleaf] at heq
    cases expr' with
    | binary operator' left' right' => exact (inOrder_binary_ne _ _ _ _ heq.symm).elim
    | _ => exact Sum.inl.inj (List.cons.inj heq).1

/-! ## One grouped tree at least

A sequence is built up from the left. Its last operator goes as far down the right side as the
operators there allow it, and everything below becomes its left operand. -/

/-- The tree with one more operator and operand behind it: in the right part where that one may have
the operator, and around the whole tree otherwise. -/
def attach : Expr → BinaryOperator → Expr → Expr
  | binary other left right, operator, operand =>
    if other.AllowsRight operator then binary other left (attach right operator operand)
    else binary operator (binary other left right) operand
  | expr, operator, operand => binary operator expr operand

/-- The new operator and operand are the last ones of the sequence, however far down they go. -/
theorem inOrder_attach (expr : Expr) (operator : BinaryOperator) (operand : Expr) :
    (expr.attach operator operand).inOrder = expr.inOrder ++ .inr operator :: operand.inOrder := by
  -- down the right side, as the operator goes
  fun_induction attach expr operator operand with
  | case1 other left right operator operand hallows ih => simp [inOrder, ih]
  | case2 | case3 => rfl

/-- At the top is then the new operator or the one that was there. -/
theorem top?_attach {expr : Expr} {operator : BinaryOperator} {operand : Expr}
    {other : BinaryOperator} (h : other ∈ (expr.attach operator operand).top?) :
    other = operator ∨ other ∈ expr.top? := by
  cases expr with
  | binary top left right =>
    rw [attach] at h
    split at h
    · exact Or.inr h
    · exact Or.inl (Option.some.inj h).symm
  | _ => exact Or.inl (Option.some.inj h).symm

/-- A leaf has no operator at its top. -/
theorem top?_leaf {expr : Expr} (h : ∀ operator left right, expr ≠ binary operator left right) :
    expr.top? = none := by
  fun_cases top? expr with
  | case1 => exact absurd rfl (h _ _ _)
  | case2 => rfl

/-- Induction along the right side of the tree. -/
theorem Grouped.attach {expr : Expr} {operator : BinaryOperator} {operand : Expr} (h : expr.Grouped)
    (htop : operand.top? = none) (hoperand : operand.Grouped) :
    (expr.attach operator operand).Grouped := by
  fun_induction Expr.attach expr operator operand with
  | case1 other left right operator operand hallows ih =>
    obtain ⟨hallowsLeft, hallowsRight, hleft, hright⟩ := h
    -- the new top of the right part is either the new operator or the top it had
    refine ⟨hallowsLeft, fun top htop => ?_, hleft, ih hright htop hoperand⟩
    rcases top?_attach htop with rfl | htop
    · exact hallows
    · exact hallowsRight top htop
  | case2 other left right operator operand hallows =>
    refine ⟨?_, by simp [htop], h, hoperand⟩
    rintro _ ⟨⟩
    exact BinaryOperator.allowsLeft_of_not_allowsRight hallows
  | case3 expr operator operand hleaf =>
    exact ⟨by simp [top?_leaf hleaf], by simp [htop], h, hoperand⟩

end Expr

theorem Atom.expr_ne_binary (atom : Atom) (operator : BinaryOperator) (left right : Expr) :
    atom.expr ≠ .binary operator left right := by
  cases atom <;> rintro ⟨⟩

theorem Atom.top?_expr (atom : Atom) : atom.expr.top? = none := Expr.top?_leaf atom.expr_ne_binary

theorem Atom.grouped_expr (atom : Atom) : atom.expr.Grouped := by
  cases atom <;> trivial

theorem Atom.inOrder_expr (atom : Atom) : atom.expr.inOrder = [.inl atom.expr] :=
  Expr.inOrder_leaf atom.expr_ne_binary

/-- **Every sequence has a grouped tree.** Induction from the left, over the rest of the sequence:
the tree so far is any grouped tree, and the next operator and operand are attached to it.
`Grouped.attach` keeps it grouped, and `inOrder_attach` puts the two at the end of its sequence. -/
theorem exists_grouped (first : Atom) (tail : List (BinaryOperator × Atom)) :
    ∃ tree : Expr, tree.Grouped ∧ tree.inOrder = leavesOf (sequenceOf first tail) := by
  -- for any tree so far, so that the induction can go on behind one more operator
  have hfrom : ∀ (tail : List (BinaryOperator × Atom)) (expr : Expr), expr.Grouped →
      ∃ tree : Expr, tree.Grouped ∧ tree.inOrder = expr.inOrder ++
        leavesOf (tail.flatMap fun (operator, atom) => [.inr operator, .inl atom]) := by
    intro tail
    induction tail with
    | nil => exact fun expr hexpr => ⟨expr, hexpr, by simp [leavesOf]⟩
    | cons link tail ih =>
      intro expr hexpr
      obtain ⟨operator, atom⟩ := link
      have hattached : (expr.attach operator atom.expr).Grouped :=
        hexpr.attach atom.top?_expr atom.grouped_expr
      obtain ⟨tree, htree, hinOrder⟩ := ih _ hattached
      refine ⟨tree, htree, ?_⟩
      rw [hinOrder, Expr.inOrder_attach, atom.inOrder_expr]
      simp [leavesOf]
  obtain ⟨tree, htree, hinOrder⟩ := hfrom tail first.expr first.grouped_expr
  refine ⟨tree, htree, ?_⟩
  rw [hinOrder, first.inOrder_expr]
  rfl

/-! ## The parser groups

The parser reads an operand and then loops over operators from a level on; the right operand of each
is read by the same rule from a tighter level on. Whether an operator belongs to the loop or to the
rule further in is decided by its level, as in a grouped tree. -/

/-- The token of an operand is read as its leaf. There are no escapes to decode in a string. -/
theorem Atom.isLeaf (atom : Atom) : Parser.IsLeaf atom.token atom.expr := by
  cases atom with
  | number text => exact .number text
  | string value h =>
    have hleaf : Parser.IsLeaf (.string value) _ := .string (Escape.decode_self h)
    rwa [String.ofList_toList] at hleaf
  | boolean value => exact .boolean value
  | identifier name => exact .identifier name

/-- A sequence with one leaf is one operand. -/
theorem exists_atom_of_leavesOf {sequence : List (Atom ⊕ BinaryOperator)} {expr : Expr}
    (h : [.inl expr] = leavesOf sequence) : ∃ atom, sequence = [.inl atom] ∧ atom.expr = expr := by
  obtain ⟨item, rfl, hitem⟩ := List.map_eq_singleton_iff.mp h.symm
  cases item with
  | inl atom => exact ⟨atom, rfl, Sum.inl.inj hitem⟩
  | inr operator => cases hitem

/-- A sequence with the items of a tree splits at the operator at its top. -/
theorem exists_parts_of_leavesOf {sequence : List (Atom ⊕ BinaryOperator)}
    {operator : BinaryOperator} {left right : List (Expr ⊕ BinaryOperator)}
    (h : left ++ .inr operator :: right = leavesOf sequence) :
    ∃ before behind, sequence = before ++ .inr operator :: behind ∧ left = leavesOf before ∧
      right = leavesOf behind := by
  obtain ⟨before, later, rfl, hbefore, hlater⟩ := List.map_eq_append_iff.mp h.symm
  obtain ⟨item, behind, rfl, hitem, hbehind⟩ := List.map_eq_cons_iff.mp hlater
  cases item with
  | inl atom => cases hitem
  | inr other =>
    cases hitem
    exact ⟨before, behind, rfl, hbefore.symm, hbehind.symm⟩

namespace Parser

open Cursor

/-- A token that is an expression of its own, where no access follows. -/
theorem unary_leaf {rules : Rules} {fits : Prop} {token : Token} {expr : Expr}
    (h : IsLeaf token expr) :
    (unary rules).Takes fits .unary [token] fun node => node = ⟨expr, 1⟩ := by
  have hatom : (primary rules).Takes fits .primary [token] fun node => node = ⟨expr, 1⟩ :=
    (primary_atom h.isAtom).mono fun _ node _ hnode => hnode expr h
  exact unary_single hatom (prefixed?_head_of_derives (.atom h.isAtom)) (by simp)

/-- An operator that has another one to its left is none of that one's right operand, so the rule
for that operand stops in front of it. -/
theorem looser_of_allowsLeft {operator other : BinaryOperator} (h : operator.AllowsLeft other)
    (ts : List Token) : Looser (.operator operator :: ts) other.precedence.ofRightOperand.level := by
  rintro _ ⟨⟩ _ ⟨⟩
  show operator.precedence.level < _
  obtain ⟨hlevel, hpower⟩ := h
  rw [Precedence.level_ofRightOperand]
  split
  · -- powers bind most tightly, and the operator is none
    rename_i hright
    have hexponent : other.precedence = .exponent := by
      cases hother : other.precedence <;> first | rfl | (rw [hother] at hright; cases hright)
    rw [hexponent]
    refine Nat.lt_of_le_of_ne (Precedence.level_le_exponent _) fun heq => hpower ?_
    exact Precedence.eq_exponent_of_le (Nat.le_of_eq heq.symm)
  · exact Nat.lt_succ_of_le hlevel

/-- An operator of a right operand binds tightly enough to be read there. -/
theorem level_le_of_allowsRight {operator other : BinaryOperator} (h : operator.AllowsRight other) :
    operator.precedence.ofRightOperand.level ≤ other.precedence.level := by
  rw [Precedence.level_ofRightOperand]
  split
  · exact h.level_le
  · rename_i hright
    rcases h with hlt | ⟨_, hexponent⟩
    · exact hlt
    · rw [hexponent] at hright
      exact absurd rfl hright

/-- **The parser reads the tokens of a grouped tree as that tree**, and goes on behind it. Induction
on the tree: the left part is read before the operator by the same rule, the right part by the rule
for right operands. `hrest` says how the loop goes on from the whole tree, so the left part is given
what the operator and its right part make of it. -/
theorem binary_takes_grouped (goal : Node → Cursor → Prop) {tree : Expr} (h : tree.Grouped)
    {sequence : List (Atom ⊕ BinaryOperator)} (hsequence : tree.inOrder = leavesOf sequence) {n : Nat}
    {loosest : Precedence} {rest : List Token} {c : Cursor}
    (htight : ∀ operator, .inr operator ∈ tree.inOrder →
      loosest.level ≤ operator.precedence.level)
    (hlooser : ∀ operator, .inr operator ∈ tree.inOrder →
      Looser rest operator.precedence.ofRightOperand.level)
    (hends : Ends .unary rest) (hc : c.At (tokensOf sequence ++ rest))
    (hrest : ∀ origin node d, node.expr = tree → d.At rest →
      Accepts False (links (Rules.within n) loosest origin node d)
        fun kept => goal kept.value kept.next) :
    Accepts False (binary (Rules.within n) loosest c) fun taken => goal taken.value taken.next := by
  induction tree using Expr.inOrder.induct generalizing sequence n loosest rest c goal with
  | case1 operator left right ihleft ihright =>
    obtain ⟨before, behind, rfl, hbefore, hbehind⟩ := exists_parts_of_leavesOf hsequence
    have hcleft : c.At (tokensOf before ++ .operator operator :: (tokensOf behind ++ rest)) := by
      simpa [tokensOf] using hc
    refine ihleft goal h.2.2.1 hbefore
      (fun other hother => htight other (List.mem_append_left _ hother))
      (fun other hother => looser_of_allowsLeft (h.allowsLeft hother) _) (.unary_of_link (.operator _))
      hcleft fun origin node d hnode hd => ?_
    -- the right part is a whole operand: what follows it binds too loosely to belong to it
    have hright : ∀ d, d.At (tokensOf behind ++ rest) →
        Accepts False ((Rules.within n).operand operator.precedence.ofRightOperand d)
          fun taken => taken.next.At rest ∧ taken.value.expr = right := by
      intro d hd
      cases n with
      | zero => exact .tooDeep _ _ id
      | succ n =>
        refine ihright (fun node d => d.At rest ∧ node.expr = right) h.2.2.2 hbehind
          (fun other hother => level_le_of_allowsRight (h.allowsRight hother))
          (fun other hother => hlooser other ?_) hends hd fun origin node d hnode hd => ?_
        · exact List.mem_append_right _ (List.mem_cons_of_mem _ hother)
        · have hstop := hlooser operator (List.mem_append_right _ List.mem_cons_self)
          rw [links_stop (hstop.linksBelow hd)]
          exact .ok ⟨hd, hnode⟩
    -- and the node of the operator is the left part of whatever follows
    refine links_link goal (fun node d => d.At rest ∧ node.expr = right) rfl
      (htight operator (List.mem_append_right _ List.mem_cons_self)) hd hright
      (fun _ _ _ hfits => hfits.elim) fun taken d htaken => ?_
    refine hrest origin _ d ?_ htaken.1
    rw [linked, hnode, htaken.2]
  -- a leaf is one token, and what may follow it is left to `hrest`
  | case2 expr hleaf =>
    rw [Expr.inOrder_leaf hleaf] at hsequence
    obtain ⟨atom, rfl, rfl⟩ := exists_atom_of_leavesOf hsequence
    unfold binary
    refine (unary_leaf atom.isLeaf c rest hc hends).bind fun first hfirst => ?_
    refine (hrest c.position first.value first.next ?_ hfirst.1).bind fun kept hkept => .ok hkept
    rw [hfirst.2]

section
variable {tree : Expr} (h : tree.Grouped) {sequence : List (Atom ⊕ BinaryOperator)}
  (hsequence : tree.inOrder = leavesOf sequence)
include h hsequence

/-- From the loosest operator on, all of a grouped tree is read, and the loop stops behind it, as no
operator follows. Where no rule may be entered any more there is the error of the limit instead. -/
theorem operand_takes_grouped (n : Nat) :
    ((Rules.within n).operand .logicalOr).Takes False .binary (tokensOf sequence)
      fun node => node.expr = tree := by
  cases n with
  | zero => exact tooDeep_takes id
  | succ n =>
    intro c rest hc hends
    refine binary_takes_grouped (fun node d => d.At rest ∧ node.expr = tree) h hsequence
      (fun operator _ => Precedence.level_pos _) (fun operator _ => ?_) hends.unary_of_binary hc
      fun origin node d hnode hd => ?_
    · -- whatever may follow an expression is no operator at all
      intro token htoken link hlink
      cases rest with
      | nil => cases htoken
      | cons other rest =>
        cases htoken
        have hnot : goesOn .binary token = false := hends
        simp [goesOn, hlink] at hnot
    · rw [hends.links_stop hd]
      exact .ok ⟨hd, hnode⟩

/-- No conditional or assignment follows, so the rules around the loop add nothing. -/
theorem assignment_takes_grouped (n : Nat) :
    (Rules.within n).assignment.Takes False .assignment (tokensOf sequence)
      fun node => node.expr = tree := by
  cases n with
  | zero => exact tooDeep_takes id
  | succ n => exact assignment_single (conditional_single (operand_takes_grouped h hsequence n))

end

end Parser

open Stencil.Parser

theorem opens_tokensOf (first : Atom) (tail : List (BinaryOperator × Atom)) :
    Opens (tokensOf (sequenceOf first tail)) := by
  cases first <;> exact ⟨_, _, rfl, rfl⟩

theorem head?_tokensOf_ne (first : Atom) (tail : List (BinaryOperator × Atom)) :
    (tokensOf (sequenceOf first tail)).head? ≠ some (.mark .leftBrace) := by
  cases first <;> rintro ⟨⟩

/-- **Operators group as their precedences say.** A source that is a sequence of operands with
operators between them is the one grouped tree of the sequence, if its nesting is not too deep. That
the tree is the only one is said with it, so that the tree is determined by the sequence and not by
the parser. -/
theorem parse_groups {source : String} {first : Atom} {tail : List (BinaryOperator × Atom)}
    (hcomplete : (Lexed.ofSource source).Complete)
    (htokens : (Lexed.ofSource source).tokens = tokensOf (sequenceOf first tail)) :
    ∃ tree : Expr,
      (∀ other : Expr, other.Grouped ∧ other.inOrder = leavesOf (sequenceOf first tail) ↔
        other = tree) ∧
      (Expr.parse source = .ok tree ∨
        ∃ limit position, Expr.parse source = .error (.nestingTooDeep limit position)) := by
  obtain ⟨tree, htree, hinOrder⟩ := exists_grouped first tail
  refine ⟨tree, fun other => ⟨fun hother => ?_, ?_⟩, ?_⟩
  · exact hother.1.eq_of_inOrder htree (hother.2.trans hinOrder.symm)
  · rintro rfl
    exact ⟨htree, hinOrder⟩
  · have htokens : (Lexed.ofSource source).tokens = List.replicate 0 (.mark .semicolon) ++
        (tokensOf (sequenceOf first tail) ++ List.replicate 0 (.mark .semicolon)) := by
      simpa using htokens
    have htakes := sequence_single (assignment_takes_grouped htree hinOrder maxNesting)
    obtain ⟨expr, hparse, node, hnode, rfl⟩ | ⟨_, hdeep⟩ := parse_takes hcomplete htokens
      (opens_tokensOf first tail) (head?_tokensOf_ne first tail) htakes
    · exact Or.inl (hnode ▸ hparse)
    · exact Or.inr hdeep

/-- Powers group from the right, differences from the left, and both bind before a comparison. -/
theorem parse_groups_powers :
    ∃ tree : Expr, tree.Grouped ∧ Expr.parse "a - 1 - b ** 2 ** 'c' < true" = .ok tree ∧
      tree.display = "(((a - 1) - (b ** (2 ** \"c\"))) < true)" := by
  have htokens : (Lexed.ofSource "a - 1 - b ** 2 ** 'c' < true").tokens =
      tokensOf (sequenceOf (.identifier "a") [(.subtract, .number "1"), (.subtract, .identifier "b"),
        (.power, .number "2"), (.power, .string "c" (by decide)), (.lessThan, .boolean true)]) := by
    decide +kernel
  have hread : (Expr.parse "a - 1 - b ** 2 ** 'c' < true").toOption.map Expr.display =
      some "(((a - 1) - (b ** (2 ** \"c\"))) < true)" := by
    decide +kernel
  obtain ⟨tree, hunique, hparse⟩ := parse_groups ⟨28, by decide +kernel⟩ htokens
  rcases hparse with hparse | ⟨limit, position, hdeep⟩
  · refine ⟨tree, ((hunique tree).mpr rfl).1, hparse, ?_⟩
    rw [hparse] at hread
    exact Option.some.inj hread
  · rw [hdeep] at hread
    cases hread

end Stencil
