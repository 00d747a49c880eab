import Stencil.Expr.Basic
import Stencil.Expr.Escape
import Stencil.Expr.Lexer
/-!
# From tokens to expressions

`Expr.parse` reads one expression from a source. Binary operators bind as their precedence says;
members, bracket accesses and calls bind tightest. Constructs without a value (prefix operators,
conditionals, assignments, arrow functions, sequences, array and object literals, `null`, `this`)
are checked all the same and become leaves.

Two limits keep deep sources out: the nesting of the parser's own rules, `maxNesting`, and the depth
of the tree it builds, `maxDepth`. The rules that can contain themselves are the three of `Rules`;
`Rules.within n` are those rules where only `n` more may be entered inside one another. Every other
rule is written once, over the rules it may enter, and consumes at least one token (`Taken`); the
loops of repeated parts consume tokens or stop (`Kept`).
-/

namespace Stencil.Parser

/-- The number of rules that may be entered inside one another. -/
def maxNesting : Nat := 256

/-- The depth that a tree may have. -/
def maxDepth : Nat := 1024

/-! ## The place in the source -/

/-- A place between the tokens of a source. -/
structure Cursor where
  source : List Char
  /-- The tokens that follow. -/
  lexemes : List Lexeme
  ending : Ending
  /-- The byte where the token before the place stops. -/
  previousStop : Nat

namespace Cursor

/-- The number of tokens that follow. -/
def remaining (c : Cursor) : Nat := c.lexemes.length

/-- The token that follows. -/
def token? (c : Cursor) : Option Token := c.lexemes.head?.map Lexeme.token

/-- The byte where the token that follows starts, or where the source ends. -/
def position (c : Cursor) : Nat :=
  match c.lexemes, c.ending with
  | lexeme :: _, _ => lexeme.start
  | [], .finished position => position
  | [], .failed error => error.position

/-- The error of a place where no token follows although the source goes on. -/
def fault? (c : Cursor) : Option SyntaxError :=
  match c.lexemes, c.ending with
  | [], .failed error => some error
  | _, _ => none

/-- The place itself, unless the source goes on there with something that is no token. -/
def checked (c : Cursor) : Except SyntaxError Cursor :=
  match c.fault? with
  | some error => .error error
  | none => .ok c

end Cursor

/-- A parsed part and the place after it, which is after at least one more token. -/
structure Taken (c : Cursor) (α : Type) where
  value : α
  next : Cursor
  lt : next.remaining < c.remaining

/-- A parsed part and the place after it, which may be the same. -/
structure Kept (c : Cursor) (α : Type) where
  value : α
  next : Cursor
  le : next.remaining ≤ c.remaining

/-- A rule: what it makes of the tokens at a place. -/
abbrev Rule (α : Type) := (c : Cursor) → Except SyntaxError (Taken c α)

/-- The part, seen from an earlier place. -/
def Taken.widen {c later : Cursor} {α : Type} (taken : Taken later α)
    (le : later.remaining ≤ c.remaining) : Taken c α :=
  ⟨taken.value, taken.next, Nat.lt_of_lt_of_le taken.lt le⟩

/-- The part, seen from an earlier place. -/
def Kept.widen {c later : Cursor} {α : Type} (kept : Kept later α)
    (le : later.remaining ≤ c.remaining) : Kept c α :=
  ⟨kept.value, kept.next, Nat.le_trans kept.le le⟩

/-- The part, seen from a place before at least one more token. -/
def Kept.after {c later : Cursor} {α : Type} (kept : Kept later α)
    (lt : later.remaining < c.remaining) : Taken c α :=
  ⟨kept.value, kept.next, Nat.lt_of_le_of_lt kept.le lt⟩

namespace Cursor

/-- Past the token that follows. The place after it may be faulty. -/
def advance (c : Cursor) {token : Token} (h : c.token? = some token) :
    Except SyntaxError (Taken c Unit) :=
  match rest : c.lexemes with
  | [] => absurd h (by simp [token?, rest])
  | lexeme :: lexemes =>
    let next : Cursor := { c with lexemes, previousStop := lexeme.stop }
    match next.fault? with
    | some error => .error error
    | none => .ok ⟨(), next, by simp [next, remaining, rest]⟩

/-- The error that `what` should follow. -/
def expected (c : Cursor) (what : String) : SyntaxError :=
  match c.token? with
  | some _ => .expectedToken what c.position
  | none => .unexpectedEnd c.position

/-- Past the given mark. -/
def expect (mark : Mark) : Rule Unit := fun c =>
  match h : c.token? with
  | some token =>
    if token = .mark mark then c.advance h
    else .error (.expectedToken ("'" ++ mark.text ++ "'") c.position)
  | none => .error (.unexpectedEnd c.position)

end Cursor

/-! ## Parts -/

/-- A tree and its depth. -/
structure Node where
  expr : Expr
  depth : Nat

/-- The leaf for a construct that reaches from byte `start` to the token before `c`. -/
def unsupported (construct : String) (start : Nat) (c : Cursor) : Node :=
  ⟨.unsupported construct (String.ofList (Text.slice c.source start c.previousStop)), 1⟩

/-- The node, unless it is too deep. -/
def checkDepth (node : Node) (c : Cursor) : Except SyntaxError Node :=
  if maxDepth < node.depth then .error (.nestingTooDeep maxDepth c.position) else .ok node

/-- The rules that can contain themselves. -/
structure Rules where
  /-- A conditional, or an assignment or arrow function that starts with one. -/
  assignment : Rule Node
  /-- An operand with the binary operators behind it that bind at least so tightly. -/
  operand : Precedence → Rule Node
  /-- An operand with its prefix operators. -/
  unary : Rule Node

/-- One or more assignments with commas between them, after the first one. -/
def sequenceRest (rules : Rules) (c : Cursor) : Except SyntaxError (Kept c Unit) :=
  match h : c.token? with
  | some (.mark .comma) => do
    let comma ← c.advance h
    let item ← rules.assignment comma.next
    have shorter := Nat.lt_trans item.lt comma.lt
    return (← sequenceRest rules item.next).widen (Nat.le_of_lt shorter)
  | _ => .ok ⟨(), c, Nat.le_refl _⟩
termination_by c.remaining

/-- Assignments with commas between them. More than one have no value. -/
def sequence (rules : Rules) : Rule Node := fun c => do
  let first ← rules.assignment c
  match first.next.token? with
  | some (.mark .comma) =>
    let rest ← sequenceRest rules first.next
    return ⟨unsupported "sequence expression" c.position rest.next, rest.next,
      Nat.lt_of_le_of_lt rest.le first.lt⟩
  | _ => return first

/-- The items of an array literal and its closing bracket. -/
def arrayItems (rules : Rules) (c : Cursor) : Except SyntaxError (Taken c Unit) :=
  match h : c.token? with
  | some (.mark .rightBracket) => c.advance h
  | some (.mark .comma) => do
    let comma ← c.advance h
    have shorter := comma.lt
    return (← arrayItems rules comma.next).widen (Nat.le_of_lt shorter)
  | some _ => do
    let item ← rules.assignment c
    have shorter := item.lt
    match h : item.next.token? with
    | some (.mark .comma) =>
      let comma ← item.next.advance h
      have shorter := Nat.lt_trans comma.lt shorter
      return (← arrayItems rules comma.next).widen (Nat.le_of_lt shorter)
    | some (.mark .rightBracket) =>
      return (← arrayItems rules item.next).widen (Nat.le_of_lt shorter)
    | _ => .error (item.next.expected "',' or ']' in array literal")
  | none => .error (c.expected "']'")
termination_by c.remaining

/-- Whether a token can be the key of a property, and if so, whether it can stand without a value.
-/
def propertyKey? : Token → Option Bool
  | .identifier _ => some true
  | .keyword _ | .string _ | .number _ | .boolean _ | .null => some false
  | _ => none

/-- The value of a property behind its key. Some keys may stand alone. -/
def propertyValue (rules : Rules) (alone : Bool) (c : Cursor) : Except SyntaxError (Kept c Unit) :=
  match h : c.token? with
  | some (.mark .colon) => do
    let colon ← c.advance h
    let value ← rules.assignment colon.next
    return ⟨(), value.next, Nat.le_of_lt (Nat.lt_trans value.lt colon.lt)⟩
  | some (.mark .comma) | some (.mark .rightBrace) =>
    if alone then .ok ⟨(), c, Nat.le_refl _⟩ else .error (c.expected "':' after property name")
  | _ => .error (c.expected "':' after property name")

/-- The properties of an object literal and its closing brace. -/
def objectProperties (rules : Rules) (c : Cursor) : Except SyntaxError (Taken c Unit) :=
  match h : c.token? with
  | some (.mark .rightBrace) => c.advance h
  | some token =>
    match propertyKey? token with
    | none => .error (c.expected "property name")
    | some alone => do
      let key ← c.advance h
      let value ← propertyValue rules alone key.next
      have shorter := Nat.lt_of_le_of_lt value.le key.lt
      match h : value.next.token? with
      | some (.mark .comma) =>
        let comma ← value.next.advance h
        have shorter := Nat.lt_trans comma.lt shorter
        return (← objectProperties rules comma.next).widen (Nat.le_of_lt shorter)
      | some (.mark .rightBrace) =>
        return (← objectProperties rules value.next).widen (Nat.le_of_lt shorter)
      | _ => .error (value.next.expected "',' or '\x7d' in object literal")
  | none => .error (c.expected "property name")
termination_by c.remaining

/-- A literal, an identifier, or an expression in parentheses. -/
def primary (rules : Rules) : Rule Node := fun c =>
  let start := c.position
  match h : c.token? with
  | none => .error (.unexpectedEnd start)
  | some token =>
    let leaf (expr : Expr) : Except SyntaxError (Taken c Node) := do
      let taken ← c.advance h
      return ⟨⟨expr, 1⟩, taken.next, taken.lt⟩
    let construct (name : String) (body : Rule Unit) : Except SyntaxError (Taken c Node) := do
      let first ← c.advance h
      let rest ← body first.next
      return ⟨unsupported name start rest.next, rest.next, Nat.lt_trans rest.lt first.lt⟩
    let word (name : String) : Except SyntaxError (Taken c Node) := do
      let taken ← c.advance h
      return ⟨unsupported name start taken.next, taken.next, taken.lt⟩
    match token with
    | .number text => leaf (.number text)
    | .string raw => do leaf (.string (← decodeEscapes raw start))
    | .boolean value => leaf (.boolean value)
    | .identifier name => leaf (.identifier name)
    | .null => word "null literal"
    | .keyword .this => word "'this' expression"
    | .mark .leftBracket => construct "array literal" (arrayItems rules)
    | .mark .leftBrace => construct "object literal" (objectProperties rules)
    | .mark .leftParen => do
      let opening ← c.advance h
      let inner ← sequence rules opening.next
      let closing ← Cursor.expect .rightParen inner.next
      return ⟨inner.value, closing.next,
        Nat.lt_trans closing.lt (Nat.lt_trans inner.lt opening.lt)⟩
    | .keyword keyword => .error (.unsupported ("'" ++ keyword.word ++ "' statement") start)
    | other => .error (.unexpectedToken other.display start)

/-- The name that a token is behind a dot. Reserved words are names there too. -/
def propertyName? : Token → Option String
  | .identifier name => some name
  | .keyword keyword => some keyword.word
  | .boolean true => some "true"
  | .boolean false => some "false"
  | .null => some "null"
  | _ => none

/-- The name of a member behind its dot. -/
def propertyName : Rule String := fun c =>
  match h : c.token? with
  | none => .error (c.expected "property name")
  | some token =>
    match propertyName? token with
    | none => .error (c.expected "property name")
    | some name => do
      let taken ← c.advance h
      return ⟨name, taken.next, taken.lt⟩

/-- The arguments of a call, one at least, and the closing parenthesis, after the arguments `read`,
the last one first. Also the depth of the deepest one. -/
def argumentsFrom (rules : Rules) (read : List Expr) (depth : Nat) (c : Cursor) :
    Except SyntaxError (Taken c (List Expr × Nat)) := do
  let argument ← rules.assignment c
  have shorter := argument.lt
  let read := argument.value.expr :: read
  let depth := max depth argument.value.depth
  match h : argument.next.token? with
  | some (.mark .comma) =>
    let comma ← argument.next.advance h
    have shorter := Nat.lt_trans comma.lt shorter
    match h : comma.next.token? with
    | some (.mark .rightParen) =>
      let closing ← comma.next.advance h
      return ⟨(read.reverse, depth), closing.next, Nat.lt_trans closing.lt shorter⟩
    | _ => return (← argumentsFrom rules read depth comma.next).widen (Nat.le_of_lt shorter)
  | some (.mark .rightParen) =>
    let closing ← argument.next.advance h
    return ⟨(read.reverse, depth), closing.next, Nat.lt_trans closing.lt shorter⟩
  | _ => .error (argument.next.expected "',' or ')' in call arguments")
termination_by c.remaining

/-- The arguments of a call and the closing parenthesis. Also the depth of the deepest one. -/
def arguments (rules : Rules) : Rule (List Expr × Nat) := fun c =>
  match h : c.token? with
  | some (.mark .rightParen) => do
    let closing ← c.advance h
    return ⟨([], 0), closing.next, closing.lt⟩
  | _ => argumentsFrom rules [] 0 c

/-- The members, bracket accesses and calls behind `left`. -/
def accesses (rules : Rules) (left : Node) (c : Cursor) : Except SyntaxError (Kept c Node) :=
  match h : c.token? with
  | some (.mark .dot) => do
    let dot ← c.advance h
    let name ← propertyName dot.next
    have shorter := Nat.lt_trans name.lt dot.lt
    let node ← checkDepth ⟨.member left.expr name.value, left.depth + 1⟩ name.next
    return (← accesses rules node name.next).widen (Nat.le_of_lt shorter)
  | some (.mark .leftBracket) => do
    let opening ← c.advance h
    let inner ← sequence rules opening.next
    let closing ← Cursor.expect .rightBracket inner.next
    have shorter := Nat.lt_trans closing.lt (Nat.lt_trans inner.lt opening.lt)
    let node ← checkDepth
      ⟨.index left.expr inner.value.expr, max left.depth inner.value.depth + 1⟩ closing.next
    return (← accesses rules node closing.next).widen (Nat.le_of_lt shorter)
  | some (.mark .leftParen) => do
    let opening ← c.advance h
    let list ← arguments rules opening.next
    have shorter := Nat.lt_trans list.lt opening.lt
    let node ← checkDepth ⟨.call left.expr list.value.1, max left.depth list.value.2 + 1⟩ list.next
    return (← accesses rules node list.next).widen (Nat.le_of_lt shorter)
  | _ => .ok ⟨left, c, Nat.le_refl _⟩
termination_by c.remaining

/-- A primary expression with its accesses. -/
def accessed (rules : Rules) : Rule Node := fun c => do
  let first ← primary rules c
  return (← accesses rules first.value first.next).after first.lt

/-- The construct that a prefix operator makes of its operand. -/
def prefixed? : Token → Option String
  | .operator .subtract | .operator .add | .mark .bang | .mark .tilde
  | .keyword .typeof | .keyword .void | .keyword .delete => some "unary expression"
  | .keyword .new => some "'new' expression"
  | _ => none

/-- An operand with its prefix operators. A minus sign directly in front of a number makes it a
negative number; any other operand with a prefix operator has no value. -/
def unary (rules : Rules) : Rule Node := fun c =>
  match h : c.token? with
  | none => accessed rules c
  | some token =>
    match prefixed? token with
    | none => accessed rules c
    | some construct => do
      let sign ← c.advance h
      match h : sign.next.token? with
      | some (.number text) =>
        if token = .operator .subtract then
          let number ← sign.next.advance h
          return (← accesses rules ⟨.number ("-" ++ text), 1⟩ number.next).after
            (Nat.lt_trans number.lt sign.lt)
        else
          let operand ← rules.unary sign.next
          return ⟨unsupported construct c.position operand.next, operand.next,
            Nat.lt_trans operand.lt sign.lt⟩
      | _ =>
        let operand ← rules.unary sign.next
        return ⟨unsupported construct c.position operand.next, operand.next,
          Nat.lt_trans operand.lt sign.lt⟩

/-- How a token links two operands: by an operator, or by one of the two relations that are words
and have no value. -/
def linkOf? : Token → Option (Option BinaryOperator × Precedence)
  | .operator operator => some (some operator, operator.precedence)
  | .keyword .in_ | .keyword .instanceof => some (none, .relational)
  | _ => none

/-- The binary operators behind `left` that bind at least as tightly as `loosest`, with their right
operands. The chain starts at byte `start`. -/
def links (rules : Rules) (loosest : Precedence) (start : Nat) (left : Node) (c : Cursor) :
    Except SyntaxError (Kept c Node) :=
  match h : c.token? with
  | none => .ok ⟨left, c, Nat.le_refl _⟩
  | some token =>
    match linkOf? token with
    | none => .ok ⟨left, c, Nat.le_refl _⟩
    | some (operator?, precedence) =>
      if precedence.level < loosest.level then .ok ⟨left, c, Nat.le_refl _⟩
      else do
        let link ← c.advance h
        let right ← rules.operand precedence.ofRightOperand link.next
        have shorter := Nat.lt_trans right.lt link.lt
        let node ← match operator? with
          | some operator =>
            checkDepth ⟨.binary operator left.expr right.value.expr,
              max left.depth right.value.depth + 1⟩ right.next
          | none => pure (unsupported "relational expression" start right.next)
        return (← links rules loosest start node right.next).widen (Nat.le_of_lt shorter)
termination_by c.remaining

/-- An operand with the binary operators behind it that bind at least as tightly as `loosest`. -/
def binary (rules : Rules) (loosest : Precedence) : Rule Node := fun c => do
  let first ← unary rules c
  return (← links rules loosest c.position first.value first.next).after first.lt

/-- Binary operators, with a condition's two outcomes behind them or not. -/
def conditional (rules : Rules) : Rule Node := fun c => do
  let test ← rules.operand .logicalOr c
  match h : test.next.token? with
  | some (.mark .question) =>
    let question ← test.next.advance h
    let consequent ← rules.assignment question.next
    let colon ← Cursor.expect .colon consequent.next
    let alternate ← rules.assignment colon.next
    return ⟨unsupported "conditional expression" c.position alternate.next, alternate.next,
      Nat.lt_trans alternate.lt (Nat.lt_trans colon.lt (Nat.lt_trans consequent.lt
        (Nat.lt_trans question.lt test.lt)))⟩
  | _ => return test

/-- The construct that a token makes of the conditional in front of it. -/
def assigned? : Token → Option String
  | .mark .assign => some "assignment"
  | .mark .arrow => some "arrow function"
  | _ => none

/-- A conditional, or an assignment or arrow function that starts with one. -/
def assignment (rules : Rules) : Rule Node := fun c => do
  let target ← conditional rules c
  match h : target.next.token? with
  | none => return target
  | some token =>
    match assigned? token with
    | none => return target
    | some construct =>
      let link ← target.next.advance h
      let value ← rules.assignment link.next
      return ⟨unsupported construct c.position value.next, value.next,
        Nat.lt_trans value.lt (Nat.lt_trans link.lt target.lt)⟩

/-! ## Nesting -/

/-- The error of entering one rule too many. -/
def tooDeep : Rule Node := fun c => .error (.nestingTooDeep maxNesting c.position)

/-- The rules that can contain themselves, where `n` of them may be entered inside one another. -/
def Rules.within : (n : Nat) → Rules
  | 0 => ⟨tooDeep, fun _ => tooDeep, tooDeep⟩
  | n + 1 =>
    let inner := Rules.within n
    ⟨Parser.assignment inner, Parser.binary inner, Parser.unary inner⟩

/-! ## Whole sources -/

/-- Past the semicolons that follow. -/
def semicolons (c : Cursor) : Except SyntaxError (Kept c Unit) :=
  match h : c.token? with
  | some (.mark .semicolon) => do
    let semicolon ← c.advance h
    have shorter := semicolon.lt
    return (← semicolons semicolon.next).widen (Nat.le_of_lt shorter)
  | _ => .ok ⟨(), c, Nat.le_refl _⟩
termination_by c.remaining

/-- The place before the first token of a source. -/
def start (source : String) : Except SyntaxError Cursor :=
  let lexed := Lexed.ofSource source
  Cursor.checked ⟨source.toList, lexed.lexemes, lexed.ending, 0⟩

/-- The expression that is left to the end, behind semicolons or not. -/
def program (c : Cursor) : Except SyntaxError Expr := do
  let before ← semicolons c
  match before.next.token? with
  | none => .error .emptyExpression
  | some (.mark .leftBrace) => .error (.unsupported "block statement" before.next.position)
  | some _ =>
    let expr ← sequence (Rules.within maxNesting) before.next
    let behind ← semicolons expr.next
    match behind.next.token? with
    | none => return expr.value.expr
    | some token =>
      if expr.next.token? = some (.mark .semicolon) then
        .error (.multipleStatements behind.next.position)
      else .error (.unexpectedToken token.display behind.next.position)

end Stencil.Parser

namespace Stencil

/-- The expression that a source is. -/
def Expr.parse (source : String) : Except SyntaxError Expr := do
  Parser.program (← Parser.start source)

end Stencil
