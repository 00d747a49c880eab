/-!
# Syntax errors

What can be wrong with the source of an expression. Positions count the bytes before the place that
an error is about.
-/

namespace Stencil

/-- A fault in the source of an expression. -/
inductive SyntaxError where
  | unexpectedToken (token : String) (position : Nat)
  /-- A character that starts no token. -/
  | unexpectedCharacter (character : Char) (position : Nat)
  | unexpectedEnd (position : Nat)
  /-- Another token than the one that has to come. -/
  | expectedToken (expected : String) (position : Nat)
  /-- A literal that runs on into other characters. -/
  | invalidLiteral (kind text : String) (position : Nat)
  /-- An escape that stands for no character, in the string literal at the position. -/
  | invalidEscape (escape : String) (position : Nat)
  | unclosedString (position : Nat)
  /-- A source without any token of an expression. -/
  | emptyExpression
  | multipleStatements (position : Nat)
  /-- A statement where an expression has to stand. -/
  | unsupported (construct : String) (position : Nat)
  | nestingTooDeep (limit position : Nat)
deriving DecidableEq, Repr

namespace SyntaxError

/-- The position that an error is about. -/
def position : SyntaxError → Nat
  | unexpectedToken _ position => position
  | unexpectedCharacter _ position => position
  | unexpectedEnd position => position
  | expectedToken _ position => position
  | invalidLiteral _ _ position => position
  | invalidEscape _ position => position
  | unclosedString position => position
  | emptyExpression => 0
  | multipleStatements position => position
  | unsupported _ position => position
  | nestingTooDeep _ position => position

/-- The wording of an error. -/
def message : SyntaxError → String
  | unexpectedToken token position => s!"Unexpected token '{token}' at position {position}"
  | unexpectedCharacter character position =>
    s!"Unexpected character '{character}' at position {position}"
  | unexpectedEnd position => s!"Unexpected end of input at position {position}"
  | expectedToken expected position => s!"Expected {expected} at position {position}"
  | invalidLiteral kind text position => s!"Invalid {kind} literal at position {position}: {text}"
  | invalidEscape escape position => s!"Invalid escape sequence at position {position}: {escape}"
  | unclosedString position => s!"Unclosed string literal starting at position {position}"
  | emptyExpression => "Empty expression"
  | multipleStatements position =>
    s!"Expected a single expression, found another statement at position {position}"
  | unsupported construct position => s!"Unsupported {construct} at position {position}"
  | nestingTooDeep limit position =>
    s!"Expression nested deeper than {limit} levels at position {position}"

end SyntaxError

end Stencil
