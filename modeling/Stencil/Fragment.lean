import Stencil.Error
import Stencil.Expr.Basic
/-!
# Fragments

The text of a template is a sequence of literals and placeholders. A brace that is not doubled opens
a placeholder, which runs to the matching brace. A doubled brace in a literal stands for a single
one. A placeholder that is still open at the end of the text is a literal without that rule.

* `Piece.ofChars` — the pieces of a text; together they are the text.
* `Fragment.scan` — the same pieces with the expressions of the placeholders.
-/

namespace Stencil

/-! ## Pieces -/

/-- A piece of a text. -/
inductive Piece where
  /-- A literal in which doubled braces stand for single ones. -/
  | literal (content : List Char)
  /-- A literal that stands for itself. -/
  | verbatim (content : List Char)
  /-- A placeholder, by what stands between its braces. -/
  | placeholder (source : List Char)
deriving DecidableEq, Repr

namespace Piece

/-- What stands before the brace that closes the outermost of `depth + 1` open braces, and what
after it. -/
def takeBalanced (depth : Nat) : List Char → Option (List Char × List Char)
  | [] => none
  | c :: cs =>
    if c = '}' then
      match depth with
      | 0 => some ([], cs)
      | depth + 1 => (takeBalanced depth cs).map fun (source, rest) => (c :: source, rest)
    else
      (takeBalanced (if c = '{' then depth + 1 else depth) cs).map fun (source, rest) =>
        (c :: source, rest)

theorem takeBalanced_eq {depth : Nat} {cs source rest : List Char}
    (h : takeBalanced depth cs = some (source, rest)) : cs = source ++ '}' :: rest := by
  fun_induction takeBalanced depth cs generalizing source with
  | case1 => cases h
  | case2 cs =>
    cases h
    rfl
  | case3 cs depth ih =>
    obtain ⟨⟨source', rest'⟩, found, same⟩ := Option.map_eq_some_iff.1 h
    cases same
    simp [ih found]
  | case4 depth c cs _ ih =>
    obtain ⟨⟨source', rest'⟩, found, same⟩ := Option.map_eq_some_iff.1 h
    cases same
    simp [ih found]

/-- The literal of the characters `read`, the last one first; nothing for no characters. -/
def ofRead (read : List Char) : List Piece :=
  if read.isEmpty then [] else [.literal read.reverse]

/-- The pieces of a text whose first characters, `read`, belong to one literal. -/
def ofCharsFrom (read : List Char) : List Char → List Piece
  | [] => ofRead read
  | '{' :: '{' :: cs => ofCharsFrom ('{' :: '{' :: read) cs
  | '{' :: cs =>
    ofRead read ++
      match h : takeBalanced 0 cs with
      | none => [.verbatim ('{' :: cs)]
      | some (source, rest) =>
        have : rest.length < cs.length := by simp [takeBalanced_eq h]; omega
        .placeholder source :: ofCharsFrom [] rest
  | c :: cs => ofCharsFrom (c :: read) cs
termination_by cs => cs.length
decreasing_by
  all_goals simp only [List.length_cons]; omega

/-- The pieces of a text. -/
def ofChars (cs : List Char) : List Piece := ofCharsFrom [] cs

/-- How a piece stands in the text. -/
def display : Piece → List Char
  | literal content => content
  | verbatim content => content
  | placeholder source => '{' :: (source ++ ['}'])

end Piece

/-! ## Fragments -/

/-- A piece of a template. -/
inductive Fragment where
  /-- A literal in which doubled braces stand for single ones. -/
  | literal (content : String)
  /-- A literal that stands for itself. -/
  | verbatim (content : String)
  /-- A placeholder, by what stands between its braces and the expression that this is. -/
  | placeholder (source : String) (expr : Expr)
deriving Repr

/-- `cs` with every two characters `c` in a row made one, from left to right. -/
def undouble (c : Char) : List Char → List Char
  | a :: b :: cs => if a = c ∧ b = c then c :: undouble c cs else a :: undouble c (b :: cs)
  | cs => cs

/-- A placeholder as it stands in the text. -/
def braced (source : String) : String := "\x7b" ++ source ++ "\x7d"

namespace Fragment

/-- What stands in the text, without the braces of a placeholder. -/
def content : Fragment → String
  | literal content => content
  | verbatim content => content
  | placeholder source _ => source

/-- Whether the fragment is a literal. -/
def isLiteral : Fragment → Bool
  | placeholder _ _ => false
  | _ => true

/-- Whether the fragment is a literal that stands for itself. -/
def isVerbatim : Fragment → Bool
  | verbatim _ => true
  | _ => false

/-- The text that a literal stands for. -/
def literalText? : Fragment → Option String
  | literal content => some (String.ofList (undouble '}' (undouble '{' content.toList)))
  | verbatim content => some content
  | placeholder _ _ => none

/-- How the fragment stands in the text. -/
def display : Fragment → String
  | literal content => content
  | verbatim content => content
  | placeholder source _ => braced source

/-- The fragment of a piece. The source of a placeholder must be what `parse` reads; its errors are
worded by `describe`. -/
def ofPiece {ε : Type} (parse : String → Except ε Expr) (describe : ε → String) :
    Piece → Except Error Fragment
  | .literal content => .ok (.literal (String.ofList content))
  | .verbatim content => .ok (.verbatim (String.ofList content))
  | .placeholder source =>
    match parse (String.ofList source) with
    | .ok expr => .ok (.placeholder (String.ofList source) expr)
    | .error error => .error (.invalidExpression (String.ofList source) (describe error))

/-- The fragments of a text, or the error of its first placeholder that holds no expression. -/
def scan {ε : Type} (parse : String → Except ε Expr) (describe : ε → String) (text : String) :
    Except Error (List Fragment) :=
  (Piece.ofChars text.toList).mapM (ofPiece parse describe)

end Fragment

end Stencil
