/-!
# Binary operators

All binary operators that expressions can be written with, their symbols and how tightly they bind.
Which of them have a meaning is up to the registries of an engine.
-/

namespace Stencil

/-- A binary operator. -/
inductive BinaryOperator where
  | add | subtract | multiply | divide | modulo | power
  | equal | notEqual | strictEqual | strictNotEqual
  | lessThan | lessThanOrEqual | greaterThan | greaterThanOrEqual
  | and | or | coalesce
  | bitAnd | bitOr | bitXor | shiftLeft | shiftRight | unsignedShiftRight
deriving DecidableEq, Repr

namespace BinaryOperator

/-- Every operator, in the order of their declaration. -/
def all : List BinaryOperator :=
  [add, subtract, multiply, divide, modulo, power,
   equal, notEqual, strictEqual, strictNotEqual,
   lessThan, lessThanOrEqual, greaterThan, greaterThanOrEqual,
   and, or, coalesce,
   bitAnd, bitOr, bitXor, shiftLeft, shiftRight, unsignedShiftRight]

/-- The symbol of an operator, by which registries know it. -/
def symbol : BinaryOperator → String
  | add => "+"
  | subtract => "-"
  | multiply => "*"
  | divide => "/"
  | modulo => "%"
  | power => "**"
  | equal => "=="
  | notEqual => "!="
  | strictEqual => "==="
  | strictNotEqual => "!=="
  | lessThan => "<"
  | lessThanOrEqual => "<="
  | greaterThan => ">"
  | greaterThanOrEqual => ">="
  | and => "&&"
  | or => "||"
  | coalesce => "??"
  | bitAnd => "&"
  | bitOr => "|"
  | bitXor => "^"
  | shiftLeft => "<<"
  | shiftRight => ">>"
  | unsignedShiftRight => ">>>"

/-- The operator with the given symbol. -/
def ofSymbol? (symbol : String) : Option BinaryOperator :=
  all.find? fun operator => operator.symbol == symbol

/-- Whether the operator is one of arithmetic. -/
def isArithmetic : BinaryOperator → Bool
  | add | subtract | multiply | divide | modulo | power => true
  | _ => false

theorem mem_all (operator : BinaryOperator) : operator ∈ all := by cases operator <;> decide

theorem ofSymbol?_symbol (operator : BinaryOperator) :
    ofSymbol? operator.symbol = some operator := by
  cases operator <;> decide

end BinaryOperator

/-- How tightly operators bind, from the loosest to the tightest. -/
inductive Precedence where
  | logicalOr | logicalAnd | bitwiseOr | bitwiseXor | bitwiseAnd
  | equality | relational | shift | additive | multiplicative | exponent
deriving DecidableEq, Repr

namespace Precedence

/-- The levels in numbers, from 1 to 11. -/
def level : Precedence → Nat
  | logicalOr => 1
  | logicalAnd => 2
  | bitwiseOr => 3
  | bitwiseXor => 4
  | bitwiseAnd => 5
  | equality => 6
  | relational => 7
  | shift => 8
  | additive => 9
  | multiplicative => 10
  | exponent => 11

/-- Every precedence, from the loosest. -/
def all : List Precedence :=
  [logicalOr, logicalAnd, bitwiseOr, bitwiseXor, bitwiseAnd, equality, relational, shift, additive,
   multiplicative, exponent]

/-- The precedence with the given level. -/
def ofLevel? (level : Nat) : Option Precedence := all.find? fun p => p.level == level

/-- No two precedences have the same level. -/
theorem ofLevel?_eq_some_iff {n : Nat} {p : Precedence} : ofLevel? n = some p ↔ p.level = n := by
  constructor
  · intro h
    have hlevel := List.find?_some h
    exact eq_of_beq hlevel
  · rintro rfl
    cases p <;> rfl

/-- The next tighter precedence; the tightest is its own. -/
def next : Precedence → Precedence
  | logicalOr => logicalAnd
  | logicalAnd => bitwiseOr
  | bitwiseOr => bitwiseXor
  | bitwiseXor => bitwiseAnd
  | bitwiseAnd => equality
  | equality => relational
  | relational => shift
  | shift => additive
  | additive => multiplicative
  | multiplicative => exponent
  | exponent => exponent

/-- Whether operators of this precedence group from the right. -/
def isRightAssociative : Precedence → Bool
  | exponent => true
  | _ => false

/-- The loosest operators that a right operand may have at its top. -/
def ofRightOperand (p : Precedence) : Precedence := if p.isRightAssociative then p else p.next

/-- A right operand binds tighter, unless operators of this precedence group from the right. -/
theorem level_ofRightOperand (p : Precedence) :
    p.ofRightOperand.level = if p.isRightAssociative then p.level else p.level + 1 := by
  cases p <;> rfl

end Precedence

/-- How tightly an operator binds. -/
def BinaryOperator.precedence : BinaryOperator → Precedence
  | or | coalesce => .logicalOr
  | and => .logicalAnd
  | bitOr => .bitwiseOr
  | bitXor => .bitwiseXor
  | bitAnd => .bitwiseAnd
  | equal | notEqual | strictEqual | strictNotEqual => .equality
  | lessThan | lessThanOrEqual | greaterThan | greaterThanOrEqual => .relational
  | shiftLeft | shiftRight | unsignedShiftRight => .shift
  | add | subtract => .additive
  | multiply | divide | modulo => .multiplicative
  | power => .exponent

/-- The operators of arithmetic are those that bind tighter than a shift. -/
theorem BinaryOperator.isArithmetic_iff (operator : BinaryOperator) :
    operator.isArithmetic = true ↔ Precedence.shift.level < operator.precedence.level := by
  cases operator <;> decide

end Stencil
