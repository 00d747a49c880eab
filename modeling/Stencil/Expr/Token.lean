import Stencil.Expr.Operator
/-!
# Tokens

The words and marks that the source of an expression is made of, and how each is shown.
-/

namespace Stencil

/-- A reserved word. -/
inductive Keyword where
  | typeof | instanceof | in_ | new | delete | void | this | function | var | let_ | const | if_
  | else_ | return_
deriving DecidableEq, Repr

namespace Keyword

/-- Every reserved word. -/
def all : List Keyword :=
  [typeof, instanceof, in_, new, delete, void, this, function, var, let_, const, if_, else_, return_]

/-- The word itself. -/
def word : Keyword → String
  | typeof => "typeof"
  | instanceof => "instanceof"
  | in_ => "in"
  | new => "new"
  | delete => "delete"
  | void => "void"
  | this => "this"
  | function => "function"
  | var => "var"
  | let_ => "let"
  | const => "const"
  | if_ => "if"
  | else_ => "else"
  | return_ => "return"

/-- The keyword that a word is. -/
def ofWord? (word : String) : Option Keyword := all.find? fun keyword => keyword.word == word

end Keyword

/-- A mark that is no binary operator. -/
inductive Mark where
  | bang | tilde | question | colon | assign | arrow
  | leftParen | rightParen | leftBracket | rightBracket | leftBrace | rightBrace
  | dot | comma | semicolon
deriving DecidableEq, Repr

/-- The text of a mark. -/
def Mark.text : Mark → String
  | bang => "!"
  | tilde => "~"
  | question => "?"
  | colon => ":"
  | assign => "="
  | arrow => "=>"
  | leftParen => "("
  | rightParen => ")"
  | leftBracket => "["
  | rightBracket => "]"
  | leftBrace => "\x7b"
  | rightBrace => "\x7d"
  | dot => "."
  | comma => ","
  | semicolon => ";"

/-- A token. -/
inductive Token where
  /-- A number, by its text. -/
  | number (text : String)
  /-- A string, by what stands between its quotes. -/
  | string (raw : String)
  | boolean (value : Bool)
  | null
  | identifier (name : String)
  | keyword (word : Keyword)
  | operator (symbol : BinaryOperator)
  | mark (symbol : Mark)
deriving DecidableEq, Repr

namespace Token

/-- How a token is shown: as in the source, but for the quotes of a string. -/
def display : Token → String
  | number text => text
  | string raw => "'" ++ raw ++ "'"
  | boolean true => "true"
  | boolean false => "false"
  | null => "null"
  | identifier name => name
  | keyword k => k.word
  | operator o => o.symbol
  | mark m => m.text

/-- The token that an identifier-like word is. -/
def ofWord (word : String) : Token :=
  if word = "true" then boolean true
  else if word = "false" then boolean false
  else if word = "null" then null
  else match Keyword.ofWord? word with
    | some k => keyword k
    | none => identifier word

theorem display_ofWord (word : String) : (ofWord word).display = word := by
  unfold ofWord
  split
  · simp_all [display]
  · split
    · simp_all [display]
    · split
      · simp_all [display]
      · split
        · rename_i k found
          have := List.find?_some found
          simpa [display] using this
        · rfl

end Token

/-- A token and the positions where it starts and stops. -/
structure Lexeme where
  token : Token
  start : Nat
  stop : Nat
deriving DecidableEq, Repr

end Stencil
