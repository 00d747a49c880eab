import Stencil.Proofs.Taking
import Stencil.Proofs.Depth
import Stencil.Proofs.Lexing
import Stencil.Proofs.Quoting

/-!
# Reading back displayed expressions

The text of a tree is the source of that tree again. Every binary expression stands in parentheses,
so precedences do not matter; but the parentheses nest where the tree was written without them, and
a deep tree may be too deep for the parser then.

* **`Expr.Written`** — the parts of a tree are written as the tokens they came from. Every accepted
  tree is, unless it holds a construct without a value: an invariant of the parser's rules.
* **`Expr.tokens`** — the tokens of the text of a tree. **`Expr.Written.lexes`** — they are what the
  scanner makes of that text.
* **`Expr.Written.readBack`** — the parser makes the tree of those tokens. Three levels of nesting
  for a level of the tree suffice.
* **`parse_display`** — all of it together.
-/

namespace Stencil

open Text

/-! ## The tokens of a displayed tree

What a tree is displayed as is a text, and both readers in front of it have to make the tree of it
again: the scanner, which goes by characters, and the parser, which goes by tokens. So the tokens of
a tree are defined next to its text, with the same recursion, and each reader is compared with them.
-/

namespace Expr

/-- The tokens of the text of a number. A minus sign is a token of its own. -/
def numberTokens (text : String) : List Token :=
  match text.toList with
  | '-' :: cs => [.operator .subtract, .number (String.ofList cs)]
  | _ => [.number text]

mutual

/-- The tokens of the text of an expression. -/
def tokens : Expr → List Token
  | number text => numberTokens text
  | string value => [.string (String.ofList (value.toList.flatMap quotedChar))]
  | boolean value => [.boolean value]
  | identifier name => [.identifier name]
  | member base property => tokens base ++ [.mark .dot, .ofWord property]
  | index base element => tokens base ++ .mark .leftBracket :: (tokens element ++ [.mark .rightBracket])
  | binary operator left right =>
    .mark .leftParen :: (tokens left ++ .operator operator :: (tokens right ++ [.mark .rightParen]))
  | call callee arguments =>
    tokens callee ++ .mark .leftParen :: (tokensList arguments ++ [.mark .rightParen])
  | unsupported _ _ => []

/-- The tokens of the texts of expressions, with commas between them. -/
def tokensList : List Expr → List Token
  | [] => []
  | [expr] => tokens expr
  | expr :: exprs => tokens expr ++ .mark .comma :: tokensList exprs

end

/-- The tree holds no construct without a value. Such a construct is displayed as its source, and
this may be something else inside the parentheses of the text around it. -/
inductive Supported : Expr → Prop where
  | number (text : String) : Supported (.number text)
  | string (value : String) : Supported (.string value)
  | boolean (value : Bool) : Supported (.boolean value)
  | identifier (name : String) : Supported (.identifier name)
  | member {base : Expr} (property : String) (hbase : Supported base) :
      Supported (.member base property)
  | index {base element : Expr} (hbase : Supported base) (helement : Supported element) :
      Supported (.index base element)
  | binary {left right : Expr} (operator : BinaryOperator) (hleft : Supported left)
      (hright : Supported right) : Supported (.binary operator left right)
  | call {callee : Expr} {arguments : List Expr} (hcallee : Supported callee)
      (harguments : ∀ argument ∈ arguments, Supported argument) : Supported (.call callee arguments)

/-- The parts of the tree are written as the tokens they can come from: numbers and names as the
scanner reads them, members as names that may stand behind a dot. Any string may stand in a tree, as
it is quoted when it is displayed. -/
inductive Written : Expr → Prop where
  | number {text : String} (h : NumberText text.toList) : Written (.number text)
  | negative {text : String} (h : NumberText text.toList) : Written (.number ("-" ++ text))
  | string (value : String) : Written (.string value)
  | boolean (value : Bool) : Written (.boolean value)
  | identifier {name : String} (hword : Word name.toList)
      (hname : Token.ofWord name = .identifier name) :
      Written (.identifier name)
  | member {base : Expr} {property : String} (hbase : Written base) (hword : Word property.toList)
      (hname : Parser.propertyName? (.ofWord property) = some property) :
      Written (.member base property)
  | index {base element : Expr} (hbase : Written base) (helement : Written element) :
      Written (.index base element)
  | binary {left right : Expr} (operator : BinaryOperator) (hleft : Written left)
      (hright : Written right) : Written (.binary operator left right)
  | call {callee : Expr} {arguments : List Expr} (hcallee : Written callee)
      (harguments : ∀ argument ∈ arguments, Written argument) : Written (.call callee arguments)

end Expr

/-! ## Accepted trees

The parser puts a tree together from the tokens of its source, so the parts of the tree are written
as these are. That is an invariant of the rules, about the tokens that are still to come and about
the nodes that are made. -/

namespace Parser

/-- Every token that follows is written as its kind asks. -/
def Cursor.Written (c : Cursor) : Prop := ∀ lexeme ∈ c.lexemes, lexeme.token.Written

theorem Cursor.Written.token {c : Cursor} (h : c.Written) {token : Token}
    (htoken : c.token? = some token) : token.Written := by
  obtain ⟨lexeme, hlexeme, rfl⟩ := Option.map_eq_some_iff.mp htoken
  exact h lexeme (List.mem_of_head? hlexeme)

/-- Behind a token the others follow. -/
theorem Cursor.Written.advance {c : Cursor} (h : c.Written) {token : Token}
    (htoken : c.token? = some token) : Yields (c.advance htoken) fun taken => taken.next.Written := by
  unfold Cursor.advance
  split
  · rename_i hlexemes
    simp [Cursor.token?, hlexemes] at htoken
  · rename_i lexeme lexemes hlexemes
    dsimp only
    split
    · exact .error
    · exact .ok fun other hother => h other (hlexemes ▸ List.mem_cons_of_mem _ hother)

/-- An unsupported construct stays one in all that is made of it. -/
theorem written_invariant :
    Invariant Cursor.Written fun node => node.expr.Supported → node.expr.Written where
  advance htoken hc := hc.advance htoken
  leaf hc hleaf _ := by
    cases hleaf with
    | number htoken => exact .number (hc.token htoken)
    | negative htoken => exact .negative (hc.token htoken)
    | string _ _ => exact .string _
    | boolean _ => exact .boolean _
    | identifier htoken => exact .identifier (hc.token htoken).1 (hc.token htoken).2
  unsupported _ _ _ _ hsupported := by cases hsupported
  member hc hnamed hbase _ hsupported := by
    obtain ⟨htoken, hname⟩ := hnamed
    obtain ⟨hword, hname⟩ := Token.word_of_propertyName? (hc.token htoken) hname
    cases hsupported with
    | member _ hsupported => exact .member (hbase hsupported) hword hname
  index hbase helement _ hsupported := by
    cases hsupported with
    | index hsupportedBase hsupportedElement =>
      exact .index (hbase hsupportedBase) (helement hsupportedElement)
  call hcallee harguments _ hsupported := by
    cases hsupported with
    | call hsupportedCallee hsupportedArguments =>
      refine .call (hcallee hsupportedCallee) fun argument hargument => ?_
      obtain ⟨node, hnode, rfl⟩ := List.mem_map.mp hargument
      exact harguments node hnode (hsupportedArguments _ hargument)
  binary operator hleft hright _ hsupported := by
    cases hsupported with
    | binary _ hsupportedLeft hsupportedRight =>
      exact .binary operator (hleft hsupportedLeft) (hright hsupportedRight)

/-- The scanner writes every token as its kind asks. -/
theorem start_written (source : String) : Yields (start source) Cursor.Written := by
  unfold start Cursor.checked
  dsimp only
  split
  · exact .error
  · exact .ok (Lexed.scan_written source.toList 0)

/-- The parts of an accepted tree are written as the tokens of its source. -/
theorem written_of_parse {source : String} {expr : Expr} (hparse : Expr.parse source = .ok expr)
    (hsupported : expr.Supported) : expr.Written := by
  obtain ⟨node, hroot, rfl⟩ := exists_root hparse
  exact root_keeps written_invariant (start_written source) node hroot hsupported

end Parser

/-! ## The text as tokens

The scanner reads as far as it can, so whether a part of the text is read as its tokens depends on
what comes behind it. All parts but the last are followed by a mark or a blank, and those stop every
token. `LexesAs` is therefore about the text in front of any rest that stops a token. -/

namespace Expr

/-- In front of what stops a token, the text of the expression is its tokens. -/
def LexesAs (expr : Expr) : Prop :=
  ∀ rest ts, Stops rest → Lexes rest ts → Lexes (expr.display.toList ++ rest) (expr.tokens ++ ts)

/-- A literal as it is scanned has no sign in front, so it is one token. -/
theorem numberTokens_of_numberText {text : String} (h : NumberText text.toList) :
    numberTokens text = [.number text] := by
  unfold numberTokens
  split
  · rename_i cs heq
    rw [heq] at h
    -- no number starts with a minus sign
    have hnumber := Lexer.startsNumber_text h []
    cases hnumber
  · rfl

/-- A literal with a minus sign in front is two tokens. -/
theorem numberTokens_minus (text : String) :
    numberTokens ("-" ++ text) = [.operator .subtract, .number text] := by
  have heq : ("-" ++ text).toList = '-' :: text.toList := by simp
  unfold numberTokens
  rw [heq]
  simp

/-- The arguments of a call, with a comma and a blank between them. Induction on the list. -/
theorem lexes_displayList {arguments : List Expr} (h : ∀ argument ∈ arguments, argument.LexesAs)
    {rest : List Char} {ts : List Token} (hstops : Stops rest) (hrest : Lexes rest ts) :
    Lexes ((displayList arguments).toList ++ rest) (tokensList arguments ++ ts) := by
  induction arguments with
  | nil => exact hrest
  | cons argument arguments ih =>
    obtain ⟨hargument, harguments⟩ := List.forall_mem_cons.mp h
    cases arguments with
    | nil => exact hargument rest ts hstops hrest
    | cons next arguments =>
      have hall := hargument _ _ (.cons (by decide) _)
        ((ih harguments).blank.separator ',' rfl)
      simpa [displayList, tokensList] using hall

/-- **The scanner makes of the text of a written tree its tokens.** Induction on the tree; each text
is put together from the back, so what follows a part is known when the part is scanned. A part only
has to be stopped by its next character: a bracket, a comma, a dot or a blank. -/
theorem Written.lexesAs {expr : Expr} (h : expr.Written) : expr.LexesAs := by
  intro rest ts hstops hrest
  induction h generalizing rest ts with
  | @number text h =>
    have hall := Lexes.number h hstops hrest
    rw [String.ofList_toList] at hall
    rw [tokens, numberTokens_of_numberText h]
    exact hall
  | @negative text h =>
    have hall := (Lexes.number h hstops hrest).minus
    rw [String.ofList_toList] at hall
    rw [tokens, numberTokens_minus]
    simpa [display] using hall
  | string value =>
    have hall := Lexes.quoted (Lexer.scanString_flatMap_quotedChar value.toList rest) hrest
    simpa [display, tokens, quoted] using hall
  | boolean value =>
    cases value
    · exact Lexes.word (.of_all (by decide +kernel)) hstops hrest
    · exact Lexes.word (.of_all (by decide +kernel)) hstops hrest
  | @identifier name hword hname =>
    have hall := Lexes.word hword hstops hrest
    rw [String.ofList_toList, hname] at hall
    exact hall
  | @member base property _ hword _ ih =>
    have hproperty := Lexes.word hword hstops hrest
    rw [String.ofList_toList] at hproperty
    -- a number in front would take the dot only with a digit behind it
    have hdigit := hword.not_digit rest
    have hall := ih _ _ (.dot hdigit) (.dot hdigit hproperty)
    simpa [display, tokens] using hall
  | index _ _ ihbase ihelement =>
    have hclose := hrest.separator ']' rfl
    have helement := ihelement _ _ (.cons (by decide) _) hclose
    have hall := ihbase _ _ (.cons (by decide) _) (helement.separator '[' rfl)
    simpa [display, tokens] using hall
  -- the blanks around the operator are not tokens, but the first one stops the left operand
  | @binary left right operator _ _ ihleft ihright =>
    have hclose := hrest.separator ')' rfl
    have hright := ihright _ _ (.cons (by decide) _) hclose
    have hoperator := Lexes.operator operator hright
    have hall := ihleft _ _ (.cons (by decide) _) hoperator.blank
    simpa [display, tokens] using hall.separator '(' rfl
  | @call callee arguments _ _ ihcallee iharguments =>
    have hclose := hrest.separator ')' rfl
    have hlist := lexes_displayList iharguments (.cons (by decide) _) hclose
    have hall := ihcallee _ _ (.cons (by decide) _) (hlist.separator '(' rfl)
    simpa [display, tokens] using hall

end Expr

/-! ## The tokens as a tree

A tree of the depth is read by rules inside one another: an expression inside parentheses, brackets
or a list of arguments is three rules further down. What has to be left of the nesting is `Fits`, as
long as the tree is not too deep for the parser. The statements carry a condition `fits`: if it
holds the tree is read, and if not the only other outcome is that the nesting is too deep. -/

namespace Parser

open Cursor

/-- A tree of the depth is within the limit, and so is the nesting of its text where `n` rules may
be entered inside one another. -/
def Fits (n depth : Nat) : Prop := 3 * depth ≤ n + 3 ∧ depth ≤ maxDepth

theorem Fits.mono {n depth part : Nat} (h : Fits n depth) (hpart : part ≤ depth) : Fits n part :=
  ⟨by have := h.1; omega, Nat.le_trans hpart h.2⟩

/-- Three levels of nesting are left for the parts of a tree. -/
theorem Fits.exists_part {n depth part : Nat} (h : Fits n depth) (hpart : part < depth)
    (hpos : 0 < part) : ∃ m, n = m + 3 ∧ Fits m part := by
  have hnesting := h.1
  exact ⟨n - 3, by omega, by omega, Nat.le_trans (Nat.le_of_lt hpart) h.2⟩

theorem Fits.succ {n depth : Nat} (h : Fits n depth) : Fits (n + 1) depth :=
  ⟨Nat.le_succ_of_le h.1, h.2⟩

/-- The rule for operands reads the tokens of the expression first, and then what is accessed of it.
-/
def ReadBack (fits : Prop) (expr : Expr) : Prop :=
  ∀ (goal : Node → Cursor → Prop) (n : Nat) (c : Cursor) (rest : List Token),
    (fits → Fits n expr.depth) → c.At (expr.tokens ++ rest) →
    (∀ d, d.At rest → Accepts fits (accesses (Rules.within n) ⟨expr, expr.depth⟩ d)
      fun kept => goal kept.value kept.next) →
    Accepts fits (unary (Rules.within n) c) fun taken => goal taken.value taken.next

section
variable {fits : Prop} {expr : Expr} {n : Nat}

/-- Where no access follows, the rule stops behind the expression. -/
theorem ReadBack.unary (h : ReadBack fits expr) (hfits : fits → Fits n expr.depth) :
    (unary (Rules.within n)).Takes fits .unary expr.tokens fun node => node = ⟨expr, expr.depth⟩ := by
  intro c rest hc hends
  refine h (fun node d => d.At rest ∧ node = ⟨expr, expr.depth⟩) n c rest hfits hc fun d hd => ?_
  rw [hends.accesses_stop hd]
  exact .ok ⟨hd, rfl⟩

/-- An operand is one level further down. -/
theorem ReadBack.operand (h : ReadBack fits expr) (precedence : Precedence)
    (hfits : fits → ∃ m, n = m + 1 ∧ Fits m expr.depth) :
    ((Rules.within n).operand precedence).Takes fits .binary expr.tokens
      fun node => node = ⟨expr, expr.depth⟩ := by
  match n with
  -- no rule may be entered any more, so there is no tree that fits
  | 0 =>
    refine tooDeep_takes fun hfit => ?_
    obtain ⟨m, hm, _⟩ := hfits hfit
    cases hm
  | n + 1 =>
    refine binary_single (h.unary fun hfit => ?_)
    obtain ⟨m, hm, hpart⟩ := hfits hfit
    cases hm
    exact hpart

/-- An assignment is a chain of operands two levels further down. -/
theorem assignment_within {ts : List Token} {holds : Node → Prop} (hfits : fits → ∃ m, n = m + 2)
    (h : ∀ m, n = m + 2 → (binary (Rules.within m) .logicalOr).Takes fits .binary ts holds) :
    (Rules.within n).assignment.Takes fits .assignment ts holds := by
  have hnot (hn : n < 2) : ¬fits := by
    intro hfit
    obtain ⟨m, hm⟩ := hfits hfit
    omega
  match n with
  | 0 => exact tooDeep_takes (hnot (by decide))
  | 1 => exact assignment_single (conditional_single (tooDeep_takes (hnot (by decide))))
  | m + 2 => exact assignment_single (conditional_single (h m rfl))

/-- An expression as a whole item: of the three levels that its parts have, two are entered before
its first token is read. -/
theorem ReadBack.assignment (h : ReadBack fits expr) (hfits : fits → Fits n (expr.depth + 1)) :
    (Rules.within n).assignment.Takes fits .assignment expr.tokens
      fun node => node = ⟨expr, expr.depth⟩ := by
  have hpart : fits → ∃ m, n = m + 3 ∧ Fits m expr.depth := fun hfit =>
    (hfits hfit).exists_part (Nat.lt_succ_self _) expr.depth_pos
  refine assignment_within (fun hfit => ?_) fun m hm => binary_single (h.unary fun hfit => ?_)
  · obtain ⟨m, rfl, _⟩ := hpart hfit
    exact ⟨m + 1, rfl⟩
  · obtain ⟨m', hm', hfit⟩ := hpart hfit
    obtain rfl : m = m' + 1 := by omega
    exact hfit.succ

/-- **An operator between two expressions.** The left one is an operand of the chain and the right
one is what follows the operator, and displayed trees have parentheses around every operation, so
the chain ends there. Of the levels that `Fits` leaves each of the two gets enough. -/
theorem ReadBack.binary {left right : Expr} (operator : BinaryOperator) (hleft : ReadBack fits left)
    (hright : ReadBack fits right) (hfits : fits → Fits n (max left.depth right.depth + 1)) :
    (Rules.within n).assignment.Takes fits .assignment
      (left.tokens ++ .operator operator :: right.tokens)
      fun node => node = ⟨.binary operator left right, max left.depth right.depth + 1⟩ := by
  have hpart : fits → ∃ m, n = m + 3 ∧ Fits m left.depth ∧ Fits m right.depth := fun hfit => by
    obtain ⟨m, hm, hpart⟩ := (hfits hfit).exists_part (Nat.lt_succ_self _)
      (Nat.lt_of_lt_of_le left.depth_pos (Nat.le_max_left _ _))
    exact ⟨m, hm, hpart.mono (Nat.le_max_left _ _), hpart.mono (Nat.le_max_right _ _)⟩
  refine assignment_within (fun hfit => ?_) fun m hm => ?_
  · obtain ⟨m, rfl, _⟩ := hpart hfit
    exact ⟨m + 1, rfl⟩
  · intro c rest hc hends
    rw [List.append_assoc] at hc
    have hpart : fits → ∃ k, m = k + 1 ∧ Fits k left.depth ∧ Fits k right.depth := fun hfit => by
      obtain ⟨k, hk, hparts⟩ := hpart hfit
      exact ⟨k, by omega, hparts⟩
    -- of the three levels that `Fits` leaves, the right operand needs one more than the left one
    have hfirst := hleft.unary (n := m) fun hfit => by
      obtain ⟨k, rfl, hpart, _⟩ := hpart hfit
      exact hpart.succ
    have hsecond := hright.operand (n := m) operator.precedence.ofRightOperand fun hfit => by
      obtain ⟨k, rfl, _, hpart⟩ := hpart hfit
      exact ⟨k, rfl, hpart⟩
    unfold Parser.binary
    refine (hfirst c _ hc (.unary_of_link (.operator _))).bind fun first hfirst => ?_
    obtain ⟨hnext, hvalue⟩ := hfirst
    have hlevel : Precedence.logicalOr.level ≤ operator.precedence.level := Precedence.level_pos _
    refine (links_link
      (fun node d => d.At rest ∧ node = ⟨.binary operator left right, max left.depth right.depth + 1⟩)
      (fun node d => d.At rest ∧ node = ⟨right, right.depth⟩) rfl hlevel hnext
      (fun d hd => hsecond d rest hd hends) ?_ fun taken d htaken => ?_).bind
        fun kept hkept => .ok hkept
    · rintro taken d ⟨_, rfl⟩ hfit
      rw [hvalue]
      exact (hfits hfit).2
    · -- behind the right operand the item ends, and so does the chain
      rw [hends.links_stop htaken.1]
      refine .ok ⟨htaken.1, ?_⟩
      rw [linked, hvalue, htaken.2]

/-- A tree that is one token is read by the rule for atoms. -/
theorem readBack_leaf {token : Token} (h : IsLeaf token expr) (htokens : expr.tokens = [token])
    (hdepth : expr.depth = 1) : ReadBack fits expr := by
  intro goal n c rest _ hc hrest
  rw [htokens] at hc
  refine unary_accessed goal (primary_atom h.isAtom) (prefixed?_head_of_derives (.atom h.isAtom))
    (by simp) hc fun node d hnode hd => ?_
  rw [hnode expr h, ← hdepth]
  exact hrest d hd

/-- A minus sign in front of a number is folded into the number. -/
theorem readBack_minus (text : String) : ReadBack fits (.number ("-" ++ text)) := by
  intro goal n c rest _ hc hrest
  rw [Expr.tokens, Expr.numberTokens_minus] at hc
  unfold Parser.unary
  split
  · rename_i hnone
    cases hc.token?_cons.symm.trans hnone
  · rename_i token htoken
    cases hc.token?_cons.symm.trans htoken
    refine (hc.advance _).bind fun sign hsign => ?_
    split
    · rename_i other hnumber
      cases hsign.token?_cons.symm.trans hnumber
      rw [if_pos rfl]
      refine (hsign.advance _).bind fun number hnumber => ?_
      exact (hrest number.next hnumber).bind fun kept hkept => .ok hkept
    · rename_i hnumber
      exact absurd hsign.token?_cons (hnumber text)

/-- A list of arguments starts with what may start its first one. -/
theorem opens_tokensList {arguments : List Expr}
    (h : ∀ argument ∈ arguments, Opens argument.tokens) (hne : arguments ≠ []) :
    Opens (Expr.tokensList arguments) := by
  match arguments with
  | [] => exact absurd rfl hne
  | [argument] => exact h argument List.mem_cons_self
  | argument :: next :: arguments => exact (h argument List.mem_cons_self).append _

/-- **The arguments are read one after the other**, and the deepest of them is tracked. Induction on
the list, with what has been read already as a parameter; the displayed list has no comma behind its
last argument, so the loop ends at the parenthesis. -/
theorem argumentsFrom_readBack {arguments : List Expr}
    (h : ∀ argument ∈ arguments, ReadBack fits argument ∧ Opens argument.tokens)
    (hne : arguments ≠ []) {read : List Expr} {depth : Nat} {c : Cursor} {rest : List Token}
    (hfits : fits → Fits n (Expr.depthList arguments + 1))
    (hc : c.At (Expr.tokensList arguments ++ .mark .rightParen :: rest)) :
    Accepts fits (argumentsFrom (Rules.within n) read depth c) fun taken => taken.next.At rest ∧
      taken.value = (read.reverse ++ arguments, max depth (Expr.depthList arguments)) := by
  induction arguments generalizing read depth c with
  | nil => exact absurd rfl hne
  | cons argument arguments ih =>
    obtain ⟨⟨hargument, _⟩, harguments⟩ := List.forall_mem_cons.mp h
    -- the first argument has no more levels than the deepest one
    have hitem := hargument.assignment (n := n) fun hfit =>
      (hfits hfit).mono (Nat.succ_le_succ (Nat.le_max_left _ _))
    cases arguments with
    | nil =>
      refine (argumentsFrom_last hitem hc (Or.inl rfl)).mono fun taken htaken => ?_
      obtain ⟨hnext, node, rfl, hvalue⟩ := htaken
      refine ⟨hnext, hvalue.trans ?_⟩
      simp [Expr.depthList]
    | cons next arguments =>
      -- an argument follows the comma, so no parenthesis does
      have hopens := opens_tokensList (fun argument hargument => (harguments argument hargument).2)
        (List.cons_ne_nil next arguments)
      rw [Expr.tokensList, List.append_assoc, List.cons_append] at hc
      · refine argumentsFrom_comma (fun value d => d.At rest ∧ value = _) hitem hc
          (hopens.head?_ne _) ?_
        rintro node rfl d hd
        refine (ih harguments (by simp) (fun hfit => (hfits hfit).mono ?_) hd).mono
          fun taken htaken => ?_
        · exact Nat.succ_le_succ (Nat.le_max_right _ _)
        · refine ⟨htaken.1, htaken.2.trans ?_⟩
          simp [Expr.depthList, Nat.max_assoc]
      · simp

/-- The list of arguments, which may be empty. -/
theorem arguments_readBack {arguments : List Expr}
    (h : ∀ argument ∈ arguments, ReadBack fits argument ∧ Opens argument.tokens) {c : Cursor}
    {rest : List Token} (hfits : fits → Fits n (Expr.depthList arguments + 1))
    (hc : c.At (Expr.tokensList arguments ++ .mark .rightParen :: rest)) :
    Accepts fits (Parser.arguments (Rules.within n) c) fun taken => taken.next.At rest ∧
      taken.value = (arguments, Expr.depthList arguments) := by
  by_cases hne : arguments = []
  · subst hne
    exact arguments_none hc
  · have hopens := opens_tokensList (fun argument hargument => (h argument hargument).2) hne
    rw [arguments_some hc (hopens.head?_ne _)]
    refine (argumentsFrom_readBack h hne hfits hc).mono fun taken htaken => ?_
    simpa using htaken

end

end Parser

namespace Expr.Written

open Stencil.Parser

/-- The text starts neither with the end of a list nor with a brace. -/
theorem exists_head {expr : Expr} (h : expr.Written) :
    ∃ token us, expr.tokens = token :: us ∧ isOpening token = true ∧ token ≠ .mark .leftBrace := by
  induction h with
  | number h =>
    rw [tokens, numberTokens_of_numberText h]
    exact ⟨_, _, rfl, rfl, by simp⟩
  | negative h =>
    rw [tokens, numberTokens_minus]
    exact ⟨_, _, rfl, rfl, by simp⟩
  | string | boolean | identifier | binary => exact ⟨_, _, rfl, rfl, by simp⟩
  | member _ _ _ ih | index _ _ ih _ | call _ _ ih _ =>
    obtain ⟨token, us, heq, htoken⟩ := ih
    rw [tokens, heq]
    exact ⟨token, _, rfl, htoken⟩

theorem opens {expr : Expr} (h : expr.Written) : Opens expr.tokens := by
  obtain ⟨token, us, heq, htoken, _⟩ := h.exists_head
  exact ⟨token, us, heq, htoken⟩

/-- **The parser makes the tree of its tokens.** Induction on the tree. `ReadBack` is a statement on
the loop over accesses, with what is made of the tree as its goal, so that a tree that is the base
of an access hands on to it without being finished first. -/
theorem readBack {fits : Prop} {expr : Expr} (h : expr.Written) : ReadBack fits expr := by
  induction h with
  | number h => exact readBack_leaf (.number _) (numberTokens_of_numberText h) rfl
  | negative _ => exact readBack_minus _
  | string value =>
    refine readBack_leaf ?_ rfl rfl
    have hdecode : Escape.decode (String.ofList (value.toList.flatMap quotedChar)).toList =
        .ok value.toList := by
      rw [String.toList_ofList]
      exact Escape.decode_flatMap_quotedChar value.toList
    have hleaf := IsLeaf.string hdecode
    rwa [String.ofList_toList] at hleaf
  | boolean value => exact readBack_leaf (.boolean value) rfl rfl
  | identifier _ _ => exact readBack_leaf (.identifier _) rfl rfl
  | member _ _ hname ih =>
    intro goal n c rest hfits hc hrest
    rw [tokens, List.append_assoc] at hc
    refine ih goal n c _ (fun hfit => (hfits hfit).mono (Nat.le_succ _)) hc fun d hd => ?_
    exact accesses_member goal hname hd (fun hfit => (hfits hfit).2) hrest
  | @index base element _ _ ihbase ihelement =>
    intro goal n c rest hfits hc hrest
    rw [tokens, List.append_assoc, List.cons_append, List.append_assoc] at hc
    refine ihbase goal n c _ (fun hfit => (hfits hfit).mono ?_) hc fun d hd => ?_
    · exact Nat.le_succ_of_le (Nat.le_max_left _ _)
    · have hinner := sequence_single (ihelement.assignment (n := n) fun hfit =>
        (hfits hfit).mono (Nat.succ_le_succ (Nat.le_max_right _ _)))
      refine accesses_index goal hinner hd ?_ ?_
      · rintro _ rfl hfit
        exact (hfits hfit).2
      · rintro _ rfl d hd
        exact hrest d hd
  | @binary left right operator _ _ ihleft ihright =>
    intro goal n c rest hfits hc hrest
    -- the parentheses of the text are those of the rule, and leave no trace in the tree
    have hinner := sequence_single (ihleft.binary operator ihright hfits)
    have heq : (Expr.binary operator left right).tokens =
        .mark .leftParen :: ((left.tokens ++ .operator operator :: right.tokens) ++
          [.mark .rightParen]) := by
      simp [tokens]
    rw [heq] at hc
    refine unary_accessed goal (primary_parentheses hinner) ?_ (by simp) hc ?_
    · rintro _ ⟨⟩
      rfl
    · rintro _ d rfl hd
      exact hrest d hd
  | @call callee arguments _ hwritten ihcallee iharguments =>
    intro goal n c rest hfits hc hrest
    rw [tokens, List.append_assoc, List.cons_append, List.append_assoc] at hc
    refine ihcallee goal n c _ (fun hfit => (hfits hfit).mono ?_) hc fun d hd => ?_
    · exact Nat.le_succ_of_le (Nat.le_max_left _ _)
    · have hlist : ∀ d, d.At (tokensList arguments ++ .mark .rightParen :: rest) →
          Accepts fits (Parser.arguments (Rules.within n) d) fun taken =>
            taken.next.At rest ∧ taken.value = (arguments, depthList arguments) := fun d hd =>
        arguments_readBack (fun argument hargument =>
          ⟨iharguments argument hargument, (hwritten argument hargument).opens⟩)
          (fun hfit => (hfits hfit).mono (Nat.succ_le_succ (Nat.le_max_right _ _))) hd
      refine accesses_call goal (fun list => list = (arguments, depthList arguments)) hlist
        (by simpa using hd) ?_ ?_
      · rintro _ rfl hfit
        exact (hfits hfit).2
      · rintro _ rfl d hd
        exact hrest d hd

end Expr.Written

/-- **Printing and parsing agree.** The text of an accepted tree that holds no construct without a
value is read as the same tree, if its nesting is not too deep; at a depth of 80 it never is. An
accepted tree is `Written`, its text has the tokens of the tree (`Written.lexesAs`), and those are
read as the tree (`readBack`); parentheses of the text cost three rules for each level. -/
theorem parse_display {source : String} {expr : Expr} (hparse : Expr.parse source = .ok expr)
    (hsupported : expr.Supported) :
    (Expr.parse expr.display = .ok expr ∨
      ∃ limit position, Expr.parse expr.display = .error (.nestingTooDeep limit position)) ∧
    (expr.depth ≤ 80 → Expr.parse expr.display = .ok expr) := by
  have hwritten := Parser.written_of_parse hparse hsupported
  have hlexes : Lexes expr.display.toList expr.tokens := by
    simpa using hwritten.lexesAs [] [] trivial .nil
  obtain ⟨htokens, hcomplete⟩ := hlexes 0
  have hplace : (Lexed.ofSource expr.display).tokens = List.replicate 0 (.mark .semicolon) ++
      (expr.tokens ++ List.replicate 0 (.mark .semicolon)) := by
    rw [List.replicate_zero, List.append_nil]
    exact htokens
  -- a text that starts with a brace would be refused as a block
  have hbrace : expr.tokens.head? ≠ some (.mark .leftBrace) := by
    obtain ⟨token, us, heq, _, hne⟩ := hwritten.exists_head
    simp [heq, hne]
  -- 256 levels of nesting are enough for a depth of 81 and the rule of the whole expression
  have hfits : expr.depth ≤ 80 → Parser.Fits Parser.maxNesting (expr.depth + 1) := by
    intro hdepth
    have hnesting : Parser.maxNesting = 256 := rfl
    have hlimit : Parser.maxDepth = 1024 := rfl
    exact ⟨by omega, by omega⟩
  have htakes := Parser.sequence_single (hwritten.readBack.assignment hfits)
  obtain ⟨_, hok, _, rfl, rfl⟩ | ⟨hnot, hdeep⟩ :=
    Parser.parse_takes hcomplete hplace hwritten.opens hbrace htakes
  · exact ⟨Or.inl hok, fun _ => hok⟩
  · exact ⟨Or.inr hdeep, fun hdepth => absurd hdepth hnot⟩

/-- Folded minus signs, a fraction and an exponent in front of what ends them, a reserved word as a
name, escapes, and parentheses that the source does not have. -/
theorem parse_display_signs :
    ∃ expr, Expr.parse "-1.5.in ** 'a\\x01\"'[f(x, -.5e3,)] - 2.if" = .ok expr ∧
      expr.display = "((-1.5.in ** \"a\\u\x7b1\x7d\\\"\"[f(x, -.5e3)]) - 2.if)" ∧
      Expr.parse expr.display = .ok expr := by
  have hparse : Expr.parse "-1.5.in ** 'a\\x01\"'[f(x, -.5e3,)] - 2.if" =
      .ok (.binary .subtract
        (.binary .power (.member (.number "-1.5") "in")
          (.index (.string "a\x01\"") (.call (.identifier "f") [.identifier "x", .number "-.5e3"])))
        (.member (.number "2") "if")) := by
    set_option maxRecDepth 4000 in
    with_unfolding_all rfl
  refine ⟨_, hparse, by decide +kernel, (parse_display hparse ?_).2 (by decide)⟩
  refine .binary _ (.binary _ (.member _ (.number _)) (.index (.string _) ?_)) (.member _ (.number _))
  exact .call (.identifier _) (List.forall_mem_cons.mpr ⟨.identifier _, List.forall_mem_cons.mpr
    ⟨.number _, by simp⟩⟩)

end Stencil
