import Stencil.Expr.Operator
import Stencil.Text.Printable
/-!
# Expressions

The tree of a placeholder's expression. Constructs that are well formed but have no value, such as
conditionals, are leaves that keep their source.

* `Expr.display` — the text of a tree, with every binary expression in parentheses.
* `Expr.depth` — the depth of a tree.
-/

namespace Stencil

open Text

/-- An expression. -/
inductive Expr where
  /-- A number, by its text. -/
  | number (text : String)
  /-- A string, without quotes and escapes. -/
  | string (value : String)
  | boolean (value : Bool)
  | identifier (name : String)
  /-- A member by its name, as in `base.property`. -/
  | member (base : Expr) (property : String)
  /-- A member by a value, as in `base[element]`. -/
  | index (base element : Expr)
  | binary (operator : BinaryOperator) (left right : Expr)
  | call (callee : Expr) (arguments : List Expr)
  /-- A construct without a value, by its name and its source. -/
  | unsupported (construct source : String)
deriving Repr, Inhabited

namespace Expr

/-- The kind of an expression, as named in messages. -/
def kind : Expr → String
  | number _ => "number literal"
  | string _ => "string literal"
  | boolean _ => "boolean literal"
  | identifier _ => "identifier"
  | member _ _ => "member access"
  | index _ _ => "index access"
  | binary _ _ _ => "binary expression"
  | call _ _ => "call expression"
  | unsupported _ _ => "unsupported expression"

mutual

/-- The text of an expression. -/
def display : Expr → String
  | number text => text
  | string value => quoted value
  | boolean true => "true"
  | boolean false => "false"
  | identifier name => name
  | member base property => display base ++ "." ++ property
  | index base element => display base ++ "[" ++ display element ++ "]"
  | binary operator left right =>
    "(" ++ display left ++ " " ++ operator.symbol ++ " " ++ display right ++ ")"
  | call callee arguments => display callee ++ "(" ++ displayList arguments ++ ")"
  | unsupported _ source => source

/-- The texts of expressions, with commas between them. -/
def displayList : List Expr → String
  | [] => ""
  | [expr] => display expr
  | expr :: exprs => display expr ++ ", " ++ displayList exprs

end

mutual

/-- The depth of an expression: one for a leaf, and one more than the deepest part otherwise. -/
def depth : Expr → Nat
  | number _ | string _ | boolean _ | identifier _ | unsupported _ _ => 1
  | member base _ => depth base + 1
  | index base element => max (depth base) (depth element) + 1
  | binary _ left right => max (depth left) (depth right) + 1
  | call callee arguments => max (depth callee) (depthList arguments) + 1

/-- The depth of the deepest of several expressions. -/
def depthList : List Expr → Nat
  | [] => 0
  | expr :: exprs => max (depth expr) (depthList exprs)

end

end Expr

end Stencil
