import Stencil.Proofs.Rules

/-!
# Two readings side by side

A rule of the parser looks at tokens, and uses positions only for what it writes down. So from two
places with the same tokens in front of them it goes the same way, and ends in the same tree or with
an error that is about the same thing.

* **`Alike`** — two outcomes are both values or both errors, and related.
* **`Expr.shape`** — a tree without the sources of its constructs.
* **`Raised`** — all that a rule can find wrong at a place.
* **`Parallel`** — what has to be known of two places: the same token follows, and what is wrong at
  the one place is wrong at the other.
* **`sequence_alike`**, **`links_alike`**, … — one lemma for each rule, over rules that go side by
  side.
* **`parse_alike`** — whole sources go side by side.
-/

namespace Stencil

/-! ## Outcomes

What two readings have in common is said of their outcomes, values and errors at once. A pair of
relations is enough: the one on errors leaves positions open, and the one on values is chosen for
each rule. -/

/-- Both outcomes are values that are `related`, or both are errors that are `faults`. -/
inductive Alike {ε α β : Type} (faults : ε → ε → Prop) (related : α → β → Prop) :
    Except ε α → Except ε β → Prop where
  | ok {a : α} {b : β} (h : related a b) : Alike faults related (.ok a) (.ok b)
  | error {e e' : ε} (h : faults e e') : Alike faults related (.error e) (.error e')

/-- **Two readings that go alike and then go on alike go alike as a whole.** If the first steps are
errors, nothing comes next; if they are values, `hnext` is asked of just those. All lemmas on rules
below are chains of this one, a link for each line of the rule, so no outcome is taken apart in
them. -/
theorem Alike.bind {ε α β γ δ : Type} {faults : ε → ε → Prop} {related : α → β → Prop}
    {goal : γ → δ → Prop} {left : Except ε α} {right : Except ε β} {next : α → Except ε γ}
    {next' : β → Except ε δ} (h : Alike faults related left right)
    (hnext : ∀ a b, related a b → Alike faults goal (next a) (next' b)) :
    Alike faults goal (left >>= next) (right >>= next') := by
  cases h with
  | ok h => exact hnext _ _ h
  | error h => exact .error h

/-! ## Trees

The sources of constructs without a value are texts of the readings' own sources, and are forgotten
before two trees are compared. The tracked depth stays, for the limit depends on it. -/

namespace Expr

mutual

/-- The tree without the sources of the constructs in it that have no value. -/
def shape : Expr → Expr
  | member base property => member (shape base) property
  | index base element => index (shape base) (shape element)
  | binary operator left right => binary operator (shape left) (shape right)
  | call callee arguments => call (shape callee) (shapes arguments)
  | unsupported construct _ => unsupported construct ""
  | leaf => leaf

/-- The trees without those sources. -/
def shapes : List Expr → List Expr
  | [] => []
  | expr :: exprs => shape expr :: shapes exprs

end

/-- The shapes of a list of trees, one by one. The mutual definition needs a function of its own for
lists, which the lemmas on argument lists do not want to see. -/
theorem shapes_eq_map (exprs : List Expr) : shapes exprs = exprs.map shape := by
  induction exprs with
  | nil => rfl
  | cons expr exprs ih => rw [shapes, ih, List.map_cons]

end Expr

namespace Parser

/-- The trees differ in the sources of constructs without a value at most, and are as deep. -/
structure Node.SameShape (a b : Node) : Prop where
  shape_eq : a.expr.shape = b.expr.shape
  depth_eq : a.depth = b.depth

theorem Node.SameShape.refl (a : Node) : a.SameShape a := ⟨rfl, rfl⟩

/-- A construct is one wherever it stands. -/
theorem Node.SameShape.unsupported (construct : String) (start start' : Nat) (c d : Cursor) :
    (Parser.unsupported construct start c).SameShape (Parser.unsupported construct start' d) :=
  ⟨rfl, rfl⟩

/-- So do several trees, with the depth of the deepest. -/
structure SameShapes (a b : List Expr × Nat) : Prop where
  shapes_eq : a.1.map Expr.shape = b.1.map Expr.shape
  depth_eq : a.2 = b.2

namespace Node.SameShape

variable {a b : Node}

/-- Constructors keep the relation. The four lemmas are what `accesses` and `links` do with the
trees they have read. -/
theorem member (h : a.SameShape b) (property : String) :
    SameShape ⟨.member a.expr property, a.depth + 1⟩ ⟨.member b.expr property, b.depth + 1⟩ where
  shape_eq := by simp only [Expr.shape, h.shape_eq]
  depth_eq := by rw [h.depth_eq]

theorem index {element element' : Node} (h : a.SameShape b) (helement : element.SameShape element') :
    SameShape ⟨.index a.expr element.expr, max a.depth element.depth + 1⟩
      ⟨.index b.expr element'.expr, max b.depth element'.depth + 1⟩ where
  shape_eq := by simp only [Expr.shape, h.shape_eq, helement.shape_eq]
  depth_eq := by rw [h.depth_eq, helement.depth_eq]

theorem binary {right right' : Node} (operator : BinaryOperator) (h : a.SameShape b)
    (hright : right.SameShape right') :
    SameShape ⟨.binary operator a.expr right.expr, max a.depth right.depth + 1⟩
      ⟨.binary operator b.expr right'.expr, max b.depth right'.depth + 1⟩ where
  shape_eq := by simp only [Expr.shape, h.shape_eq, hright.shape_eq]
  depth_eq := by rw [h.depth_eq, hright.depth_eq]

/-- The list of a call has its depth beside it, already the deepest of its items. -/
theorem call {list list' : List Expr × Nat} (h : a.SameShape b) (hlist : SameShapes list list') :
    SameShape ⟨.call a.expr list.1, max a.depth list.2 + 1⟩
      ⟨.call b.expr list'.1, max b.depth list'.2 + 1⟩ where
  shape_eq := by
    simp only [Expr.shape, Expr.shapes_eq_map, h.shape_eq, hlist.shapes_eq]
  depth_eq := by rw [h.depth_eq, hlist.depth_eq]

end Node.SameShape

/-! ## Places

A rule is a function of the token at its place, and a position is only written into an error.
`Parallel` says this of a pair of places once, so the lemmas on rules know nothing about why two
places are alike: whether blanks were put in between, or one source is cut out of another. -/

/-- A rule can find this wrong at the place: the error, but for the position. -/
inductive Raised (c : Cursor) : (Nat → SyntaxError) → Prop where
  | ended (h : c.token? = none) : Raised c .unexpectedEnd
  | empty (h : c.token? = none) : Raised c fun _ => .emptyExpression
  | expected {token : Token} (what : String) (h : c.token? = some token) :
      Raised c (.expectedToken what)
  | unexpected {token : Token} (h : c.token? = some token) : Raised c (.unexpectedToken token.display)
  | statement {keyword : Keyword} (h : c.token? = some (.keyword keyword)) :
      Raised c (.unsupported ("'" ++ keyword.word ++ "' statement"))
  | block (h : c.token? = some (.mark .leftBrace)) : Raised c (.unsupported "block statement")
  | another {token : Token} (h : c.token? = some token) : Raised c .multipleStatements
  | escape {raw escape : String} (h : c.token? = some (.string raw))
      (hescape : Escape.decode raw.toList = .error escape) : Raised c (.invalidEscape escape)
  | tooDeep (limit : Nat) : Raised c (.nestingTooDeep limit)

/-- Pairs of places from which rules go the same way. -/
structure Parallel (places : Cursor → Cursor → Prop) (faults : SyntaxError → SyntaxError → Prop) :
    Prop where
  token?_eq {c d : Cursor} (h : places c d) : c.token? = d.token?
  advance {c d : Cursor} {token : Token} (h : places c d) (hc : c.token? = some token)
    (hd : d.token? = some token) :
    Alike faults (fun taken taken' => places taken.next taken'.next) (c.advance hc) (d.advance hd)
  raised {c d : Cursor} {error : Nat → SyntaxError} (h : places c d) (hraised : Raised c error) :
    faults (error c.position) (error d.position)

/-- From two such places the rule goes the same way. -/
def Rule.GoesAlike {α : Type} (places : Cursor → Cursor → Prop)
    (faults : SyntaxError → SyntaxError → Prop) (related : α → α → Prop) (rule : Rule α) : Prop :=
  ∀ c d, places c d →
    Alike faults (fun taken taken' => places taken.next taken'.next ∧ related taken.value taken'.value)
      (rule c) (rule d)

/-- So do the rules that can contain themselves. -/
structure Rules.GoAlike (places : Cursor → Cursor → Prop)
    (faults : SyntaxError → SyntaxError → Prop) (rules : Rules) : Prop where
  assignment : Rule.GoesAlike places faults Node.SameShape rules.assignment
  operand (precedence : Precedence) :
    Rule.GoesAlike places faults Node.SameShape (rules.operand precedence)
  unary : Rule.GoesAlike places faults Node.SameShape rules.unary

variable {places : Cursor → Cursor → Prop} {faults : SyntaxError → SyntaxError → Prop} {rules : Rules}

/-! ## Tokens

The same token follows at both places, so both readings take the same case of a rule. Where a rule
has a case for all other tokens, that case is closed against the named ones. -/

section

variable (hparallel : Parallel places faults)
include hparallel

/-- The error about a missing token names what was expected, and is raised at the end of the source
or at some token. Both places have the same one of the two. -/
theorem expected_alike {c d : Cursor} (h : places c d) (what : String) :
    faults (c.expected what) (d.expected what) := by
  have htoken := hparallel.token?_eq h
  unfold Cursor.expected
  rw [← htoken]
  -- the end of the source has an error of its own
  cases hc : c.token? with
  | none => exact hparallel.raised h (.ended hc)
  | some token => exact hparallel.raised h (.expected what hc)

/-- A mark is taken at both places or refused at both. -/
theorem expect_alike (mark : Mark) {c d : Cursor} (h : places c d) :
    Alike faults (fun taken taken' => places taken.next taken'.next) (Cursor.expect mark c)
      (Cursor.expect mark d) := by
  have htoken := hparallel.token?_eq h
  unfold Cursor.expect
  split
  · rename_i token hc
    by_cases hmark : token = .mark mark
    · rw [if_pos hmark]
      split <;> rename_i hd <;> cases hc.symm.trans (htoken.trans hd)
      rw [if_pos hmark]
      exact hparallel.advance h hc hd
    · rw [if_neg hmark]
      split <;> rename_i hd <;> cases hc.symm.trans (htoken.trans hd)
      rw [if_neg hmark]
      exact .error (hparallel.raised h (.expected _ hc))
  · rename_i hc
    split <;> rename_i hd <;> cases hc.symm.trans (htoken.trans hd)
    exact .error (hparallel.raised h (.ended hc))

/-- A name behind a dot may be a keyword as well. Which tokens can be a name is `propertyName?`, a
function of the token, so only whether it answers is looked at. -/
theorem propertyName_alike {c d : Cursor} (h : places c d) :
    Alike faults (fun taken taken' => places taken.next taken'.next ∧ taken.value = taken'.value)
      (propertyName c) (propertyName d) := by
  have htoken := hparallel.token?_eq h
  unfold propertyName
  split
  · rename_i hc
    split <;> rename_i hd <;> cases hc.symm.trans (htoken.trans hd)
    exact .error (expected_alike hparallel h _)
  · rename_i token hc
    cases hname : propertyName? token with
    | none =>
      dsimp only
      split <;> rename_i hd <;> cases hc.symm.trans (htoken.trans hd)
      rw [hname]
      exact .error (expected_alike hparallel h _)
    | some name =>
      dsimp only
      split <;> rename_i hd <;> cases hc.symm.trans (htoken.trans hd)
      rw [hname]
      refine (hparallel.advance h hc hd).bind fun taken taken' htaken => ?_
      exact .ok ⟨htaken, rfl⟩

/-- As many semicolons are skipped in front of and behind the expression. The induction is on what
remains of the first source, as the recursion is. -/
theorem semicolons_alike (c d : Cursor) (h : places c d) :
    Alike faults (fun kept kept' => places kept.next kept'.next) (semicolons c) (semicolons d) := by
  have htoken := hparallel.token?_eq h
  rw [semicolons.eq_def c, semicolons.eq_def d]
  split
  · rename_i hc
    split
    · rename_i hd
      refine (hparallel.advance h hc hd).bind fun semicolon semicolon' hsemicolon => ?_
      have shorter := semicolon.lt
      refine (semicolons_alike semicolon.next semicolon'.next hsemicolon).bind
        fun rest rest' hrest => ?_
      exact .ok hrest
    · exact absurd (htoken.symm.trans hc) (by assumption)
  · split
    · rename_i hd
      exact absurd (htoken.trans hd) (by assumption)
    · exact .ok h
termination_by c.remaining

/-- A string token has the same raw text at both places, so the same escapes are decoded and the
same one is refused. -/
theorem decodeEscapes_alike {c d : Cursor} (h : places c d) {raw : String}
    (hc : c.token? = some (.string raw)) :
    Alike faults Eq (decodeEscapes raw c.position) (decodeEscapes raw d.position) := by
  unfold decodeEscapes
  split
  · exact .ok rfl
  · rename_i escape hescape
    exact .error (hparallel.raised h (.escape hc hescape))

/-- The limit is put to the tracked depth, which is the same on both sides. -/
theorem checkDepth_alike {c d : Cursor} (h : places c d) {a b : Node} (hnodes : a.SameShape b) :
    Alike faults Node.SameShape (checkDepth a c) (checkDepth b d) := by
  unfold checkDepth
  rw [hnodes.depth_eq]
  split
  · exact .error (hparallel.raised h (.tooDeep _))
  · exact .ok hnodes

end

/-! ## Operands

Tokens that start no operand are sorted out first. -/

/-- Whether an operand can start with the token, prefix operators aside. -/
def startsPrimary : Token → Bool
  | .operator _ => false
  | .keyword keyword => keyword = .this
  | .mark mark => mark ∈ [.leftParen, .leftBracket, .leftBrace]
  | _ => true

/-- The error of a token that no operand starts with. -/
def refusal : Token → Nat → SyntaxError
  | .keyword keyword => .unsupported ("'" ++ keyword.word ++ "' statement")
  | token => .unexpectedToken token.display

section

variable {c : Cursor} {token : Token}

theorem raised_refusal (hc : c.token? = some token) : Raised c (refusal token) := by
  cases token with
  | keyword keyword => exact .statement hc
  | _ => exact .unexpected hc

theorem primary_none (hc : c.token? = none) :
    primary rules c = .error (.unexpectedEnd c.position) := by
  unfold primary
  split <;> rename_i hother <;> cases hc.symm.trans hother
  rfl

/-- A token that starts no operand is refused whatever it is, and the error is read off the token.
The rules inside do not matter, for none is entered. -/
theorem primary_refused (hc : c.token? = some token) (hrefused : startsPrimary token = false) :
    primary rules c = .error (refusal token c.position) := by
  unfold primary
  split <;> rename_i hother <;> cases hc.symm.trans hother
  cases token with
  | operator operator => rfl
  | keyword keyword => cases keyword <;> first | rfl | cases hrefused
  | mark mark => cases mark <;> first | rfl | cases hrefused
  | _ => cases hrefused

end

/-! ## The rules

The rules come in the order of the grammar's file, and each lemma has the shape of its rule: one
`Alike.bind` for each part that is read, and a case split where the rule looks at a token. `hrules`
stands for the rules that can contain themselves; the recursion over them is closed in the next
section. -/

section

variable (hparallel : Parallel places faults) (hrules : rules.GoAlike places faults)
include hparallel hrules

/-- The expressions behind commas are read and dropped, so only the places behind them are compared.
-/
theorem sequenceRest_alike (c d : Cursor) (h : places c d) :
    Alike faults (fun kept kept' => places kept.next kept'.next) (sequenceRest rules c)
      (sequenceRest rules d) := by
  have htoken := hparallel.token?_eq h
  rw [sequenceRest.eq_def rules c, sequenceRest.eq_def rules d]
  split
  · rename_i hc
    split
    · rename_i hd
      refine (hparallel.advance h hc hd).bind fun comma comma' hcomma => ?_
      refine (hrules.assignment _ _ hcomma).bind fun item item' hitem => ?_
      have shorter := Nat.lt_trans item.lt comma.lt
      refine (sequenceRest_alike item.next item'.next hitem.1).bind fun rest rest' hrest => ?_
      exact .ok hrest
    · exact absurd (htoken.symm.trans hc) (by assumption)
  · split
    · rename_i hd
      exact absurd (htoken.trans hd) (by assumption)
    · exact .ok h
termination_by c.remaining

/-- With a comma the sequence is a construct without a value, whatever the expressions in it are;
without one it is its first expression. -/
theorem sequence_alike : Rule.GoesAlike places faults Node.SameShape (sequence rules) := by
  intro c d h
  unfold sequence
  refine (hrules.assignment c d h).bind fun first first' hfirst => ?_
  have htoken := hparallel.token?_eq hfirst.1
  split
  · rename_i hc
    split
    · refine (sequenceRest_alike hparallel hrules _ _ hfirst.1).bind fun rest rest' hrest => ?_
      exact .ok ⟨hrest, .unsupported _ _ _ _ _⟩
    · exact absurd (htoken.symm.trans hc) (by assumption)
  · split
    · rename_i hd
      exact absurd (htoken.trans hd) (by assumption)
    · exact .ok hfirst

/-- **The items of an array.** There are three things at the front of what is left: the bracket, a
comma without an item, and an item with a comma or the bracket behind it. Nothing of an array
literal is kept but the place behind it, and the recursion goes by what remains of the first source.
-/
theorem arrayItems_alike (c d : Cursor) (h : places c d) :
    Alike faults (fun taken taken' => places taken.next taken'.next) (arrayItems rules c)
      (arrayItems rules d) := by
  have htoken := hparallel.token?_eq h
  rw [arrayItems.eq_def rules c, arrayItems.eq_def rules d]
  split <;> rename_i hc <;> rw [htoken] at hc
  · split <;> rename_i hd <;> cases hc.symm.trans hd <;> try contradiction
    exact hparallel.advance h _ _
  · -- a comma without an item in front
    split <;> rename_i hd <;> cases hc.symm.trans hd <;> try contradiction
    refine (hparallel.advance h _ _).bind fun comma comma' hcomma => ?_
    have shorter := comma.lt
    refine (arrayItems_alike comma.next comma'.next hcomma).bind fun rest rest' hrest => ?_
    exact .ok hrest
  · split <;> rename_i hd <;> cases hc.symm.trans hd <;> try contradiction
    refine (hrules.assignment c d h).bind fun item item' hitem => ?_
    have shorter := item.lt
    -- behind an item comes a comma, or the bracket, which the recursion takes, or an error
    have hnext := hparallel.token?_eq hitem.1
    dsimp only
    split
    · rename_i hcomma
      rw [hnext] at hcomma
      split <;> rename_i hother <;> first | contradiction | cases hcomma.symm.trans hother
      refine (hparallel.advance hitem.1 _ _).bind fun comma comma' hcomma => ?_
      have shorter := Nat.lt_trans comma.lt shorter
      refine (arrayItems_alike comma.next comma'.next hcomma).bind fun rest rest' hrest => ?_
      exact .ok hrest
    · rename_i hbracket
      rw [hnext] at hbracket
      split <;> rename_i hother <;> first | contradiction | cases hbracket.symm.trans hother
      refine (arrayItems_alike item.next item'.next hitem.1).bind fun rest rest' hrest => ?_
      exact .ok hrest
    · rename_i hcomma hbracket
      rw [hnext] at hcomma hbracket
      split <;> try contradiction
      exact .error (expected_alike hparallel hitem.1 _)
  · split <;> rename_i hd <;> cases hc.symm.trans hd
    exact .error (expected_alike hparallel h _)
termination_by c.remaining

/-- Behind a key stands a colon with a value, or, if the key may stand alone, nothing. Whether it
may is a `Bool` that both sides are given, so it is split first and each of its cases has the same
four tokens to tell apart. -/
theorem propertyValue_alike (alone : Bool) {c d : Cursor} (h : places c d) :
    Alike faults (fun kept kept' => places kept.next kept'.next) (propertyValue rules alone c)
      (propertyValue rules alone d) := by
  have htoken := hparallel.token?_eq h
  have hmissing := expected_alike hparallel h "':' after property name"
  -- whether the key may stand alone is settled first, so that no case has cases in it
  cases alone
  all_goals
    unfold propertyValue
    simp only [Bool.false_eq_true, if_true, if_false]
    split
    · rename_i hc
      rw [htoken] at hc
      split <;> rename_i hd <;> first | contradiction | cases hc.symm.trans hd
      refine (hparallel.advance h _ _).bind fun colon colon' hcolon => ?_
      refine (hrules.assignment _ _ hcolon).bind fun value value' hvalue => ?_
      exact .ok hvalue.1
    · rename_i hc
      rw [htoken] at hc
      split <;> rename_i hd <;> first | contradiction | cases hc.symm.trans hd
      first | exact .ok h | exact .error hmissing
    · rename_i hc
      rw [htoken] at hc
      split <;> rename_i hd <;> first | contradiction | cases hc.symm.trans hd
      first | exact .ok h | exact .error hmissing
    · rename_i hcolon hcomma hbrace
      rw [htoken] at hcolon hcomma hbrace
      split <;> try contradiction
      exact .error hmissing

/-- **The properties of an object.** As with arrays only the place behind the literal is kept. The
key is one of the tokens that `propertyKey?` lets through, and the same token lets through the same
key on the other side; what stands behind it is `propertyValue_alike`. -/
theorem objectProperties_alike (c d : Cursor) (h : places c d) :
    Alike faults (fun taken taken' => places taken.next taken'.next) (objectProperties rules c)
      (objectProperties rules d) := by
  have htoken := hparallel.token?_eq h
  rw [objectProperties.eq_def rules c, objectProperties.eq_def rules d]
  split <;> rename_i hc <;> rw [htoken] at hc
  · split <;> rename_i hd <;> cases hc.symm.trans hd <;> try contradiction
    exact hparallel.advance h _ _
  · -- a key, of which `propertyKey?` tells whether it may stand alone
    rename_i token hbrace _
    cases hkey : propertyKey? token with
    | none =>
      dsimp only
      split <;> rename_i hd <;> cases hc.symm.trans hd <;> try contradiction
      rw [hkey]
      exact .error (expected_alike hparallel h _)
    | some alone =>
      dsimp only
      split <;> rename_i hd <;> cases hc.symm.trans hd <;> try contradiction
      rw [hkey]
      refine (hparallel.advance h _ _).bind fun key key' hkey => ?_
      refine (propertyValue_alike hparallel hrules alone hkey).bind fun value value' hvalue => ?_
      have shorter := Nat.lt_of_le_of_lt value.le key.lt
      -- behind a property as behind an item
      have hnext := hparallel.token?_eq hvalue
      split
      · rename_i hcomma
        rw [hnext] at hcomma
        split <;> rename_i hother <;> first | contradiction | cases hcomma.symm.trans hother
        refine (hparallel.advance hvalue _ _).bind fun comma comma' hcomma => ?_
        have shorter := Nat.lt_trans comma.lt shorter
        refine (objectProperties_alike comma.next comma'.next hcomma).bind
          fun rest rest' hrest => ?_
        exact .ok hrest
      · rename_i hbrace
        rw [hnext] at hbrace
        split <;> rename_i hother <;> first | contradiction | cases hbrace.symm.trans hother
        refine (objectProperties_alike value.next value'.next hvalue).bind
          fun rest rest' hrest => ?_
        exact .ok hrest
      · rename_i hcomma hbrace
        rw [hnext] at hcomma hbrace
        split <;> try contradiction
        exact .error (expected_alike hparallel hvalue _)
  · split <;> rename_i hd <;> cases hc.symm.trans hd
    exact .error (expected_alike hparallel h _)
termination_by c.remaining

/-- An operand is read alike at both places. Once refused tokens are out of the way there is one
case for each token that starts an operand: leaves take one token and are the same tree, and a
bracketed construct is read on by its own rule. -/
theorem primary_alike : Rule.GoesAlike places faults Node.SameShape (primary rules) := by
  intro c d h
  have htoken := hparallel.token?_eq h
  cases hc : c.token? with
  | none =>
    have hd := htoken.symm.trans hc
    rw [primary_none hc, primary_none hd]
    exact .error (hparallel.raised h (.ended hc))
  | some token =>
    have hd := htoken.symm.trans hc
    by_cases hrefused : startsPrimary token = false
    · rw [primary_refused hc hrefused, primary_refused hd hrefused]
      exact .error (hparallel.raised h (raised_refusal hc))
    -- a leaf takes its token and is the same tree at both places
    have hleaf : ∀ expr : Expr, Alike faults
        (fun taken taken' => places taken.next taken'.next ∧ taken.value.SameShape taken'.value)
        (c.advance hc >>= fun taken => pure (⟨⟨expr, 1⟩, taken.next, taken.lt⟩ : Taken c Node))
        (d.advance hd >>= fun taken => pure (⟨⟨expr, 1⟩, taken.next, taken.lt⟩ : Taken d Node)) := by
      intro expr
      refine (hparallel.advance h hc hd).bind fun taken taken' htaken => ?_
      exact .ok ⟨htaken, .refl _⟩
    unfold primary
    split <;> rename_i hother <;> cases hc.symm.trans hother
    -- one case for each token that starts an operand; the others are gone
    cases token with
    | number text =>
      dsimp only
      split <;> rename_i hother <;> cases hd.symm.trans hother
      exact hleaf _
    | string raw =>
      dsimp only
      split <;> rename_i hother <;> cases hd.symm.trans hother
      refine (decodeEscapes_alike hparallel h hc).bind fun value value' hvalue => ?_
      rw [hvalue]
      exact hleaf _
    | boolean value =>
      dsimp only
      split <;> rename_i hother <;> cases hd.symm.trans hother
      exact hleaf _
    | null =>
      dsimp only
      split <;> rename_i hother <;> cases hd.symm.trans hother
      refine (hparallel.advance h hc hd).bind fun taken taken' htaken => ?_
      exact .ok ⟨htaken, .unsupported _ _ _ _ _⟩
    | identifier name =>
      dsimp only
      split <;> rename_i hother <;> cases hd.symm.trans hother
      exact hleaf _
    | operator operator => exact absurd rfl hrefused
    | keyword keyword =>
      cases keyword <;> try exact absurd rfl hrefused
      dsimp only
      split <;> rename_i hother <;> cases hd.symm.trans hother
      refine (hparallel.advance h hc hd).bind fun taken taken' htaken => ?_
      exact .ok ⟨htaken, .unsupported _ _ _ _ _⟩
    | mark mark =>
      cases mark <;> try exact absurd rfl hrefused
      · -- parentheses
        dsimp only
        split <;> rename_i hother <;> cases hd.symm.trans hother
        refine (hparallel.advance h hc hd).bind fun opening opening' hopening => ?_
        refine (sequence_alike hparallel hrules _ _ hopening).bind fun inner inner' hinner => ?_
        refine (expect_alike hparallel _ hinner.1).bind fun closing closing' hclosing => ?_
        exact .ok ⟨hclosing, hinner.2⟩
      · dsimp only
        split <;> rename_i hother <;> cases hd.symm.trans hother
        refine (hparallel.advance h hc hd).bind fun first first' hfirst => ?_
        refine (arrayItems_alike hparallel hrules _ _ hfirst).bind fun rest rest' hrest => ?_
        exact .ok ⟨hrest, .unsupported _ _ _ _ _⟩
      · dsimp only
        split <;> rename_i hother <;> cases hd.symm.trans hother
        refine (hparallel.advance h hc hd).bind fun first first' hfirst => ?_
        refine (objectProperties_alike hparallel hrules _ _ hfirst).bind fun rest rest' hrest => ?_
        exact .ok ⟨hrest, .unsupported _ _ _ _ _⟩

/-- **The arguments of a call.** They are collected from the front in reverse, so the invariant is
on the reversed lists: what was read so far has the same shapes on both sides, and the deepest of it
the same depth. A comma may stand in front of the parenthesis, which ends the list in one more way.
-/
theorem argumentsFrom_alike (read read' : List Expr) (depth : Nat) (c d : Cursor) (h : places c d)
    (hread : read.map Expr.shape = read'.map Expr.shape) :
    Alike faults (fun taken taken' => places taken.next taken'.next ∧
      SameShapes taken.value taken'.value) (argumentsFrom rules read depth c)
      (argumentsFrom rules read' depth d) := by
  rw [argumentsFrom.eq_def rules read, argumentsFrom.eq_def rules read']
  refine (hrules.assignment c d h).bind fun argument argument' hargument => ?_
  have shorter := argument.lt
  have hnext := hparallel.token?_eq hargument.1
  have hmore : (argument.value.expr :: read).map Expr.shape =
      (argument'.value.expr :: read').map Expr.shape := by
    rw [List.map_cons, List.map_cons, hread, hargument.2.shape_eq]
  have hmade : ∀ depth, SameShapes ((argument.value.expr :: read).reverse, depth)
      ((argument'.value.expr :: read').reverse, depth) := fun depth =>
    ⟨by rw [List.map_reverse, hmore, List.map_reverse], rfl⟩
  rw [hargument.2.depth_eq]
  split
  · rename_i hcomma
    rw [hnext] at hcomma
    split <;> rename_i hother <;> first | contradiction | cases hcomma.symm.trans hother
    refine (hparallel.advance hargument.1 _ _).bind fun comma comma' hcomma => ?_
    have shorter := Nat.lt_trans comma.lt shorter
    -- a comma may stand in front of the parenthesis
    have hbehind := hparallel.token?_eq hcomma
    dsimp only
    split
    · rename_i hclosing
      rw [hbehind] at hclosing
      split <;> rename_i hother <;> first | contradiction | skip
      refine (hparallel.advance hcomma _ _).bind fun closing closing' hclosing => ?_
      exact .ok ⟨hclosing, hmade _⟩
    · rename_i hclosing
      rw [hbehind] at hclosing
      split <;> rename_i hother <;> first | contradiction | skip
      refine (argumentsFrom_alike _ _ _ comma.next comma'.next hcomma hmore).bind
        fun rest rest' hrest => ?_
      exact .ok hrest
  · rename_i hclosing
    rw [hnext] at hclosing
    split <;> rename_i hother <;> first | contradiction | cases hclosing.symm.trans hother
    refine (hparallel.advance hargument.1 _ _).bind fun closing closing' hclosing => ?_
    exact .ok ⟨hclosing, hmade _⟩
  · rename_i hcomma hclosing
    rw [hnext] at hcomma hclosing
    split <;> try contradiction
    exact .error (expected_alike hparallel hargument.1 _)
termination_by c.remaining

/-- An empty list is told from the others at once, for a comma alone is no argument. -/
theorem arguments_alike : Rule.GoesAlike places faults SameShapes (arguments rules) := by
  intro c d h
  have htoken := hparallel.token?_eq h
  unfold arguments
  split
  · rename_i hclosing
    rw [htoken] at hclosing
    split <;> try contradiction
    refine (hparallel.advance h _ _).bind fun closing closing' hclosing => ?_
    exact .ok ⟨hclosing, rfl, rfl⟩
  · rename_i hclosing
    rw [htoken] at hclosing
    split <;> try contradiction
    exact argumentsFrom_alike hparallel hrules [] [] 0 c d h rfl

/-- The spine behind an operand: members, indices and calls fold to the left, and at each of them
the limit is put to the tree so far. The recursion is on what remains, with the tree so far as its
argument. -/
theorem accesses_alike (left left' : Node) (hleft : left.SameShape left') (c d : Cursor)
    (h : places c d) :
    Alike faults (fun kept kept' => places kept.next kept'.next ∧ kept.value.SameShape kept'.value)
      (accesses rules left c) (accesses rules left' d) := by
  have htoken := hparallel.token?_eq h
  -- both sides are opened once, for the recursion calls them on other places
  rw [accesses.eq_def rules left c, accesses.eq_def rules left' d]
  split
  · rename_i hc
    rw [htoken] at hc
    split <;> rename_i hd <;> first | contradiction | cases hc.symm.trans hd
    -- `.name`
    refine (hparallel.advance h _ _).bind fun dot dot' hdot => ?_
    refine (propertyName_alike hparallel hdot).bind fun name name' hname => ?_
    have shorter := Nat.lt_trans name.lt dot.lt
    obtain ⟨hnext, hvalue⟩ := hname
    refine (checkDepth_alike hparallel hnext (hvalue ▸ hleft.member name.value)).bind
      fun node node' hnode => ?_
    refine (accesses_alike node node' hnode name.next name'.next hnext).bind
      fun rest rest' hrest => ?_
    exact .ok hrest
  · rename_i hc
    rw [htoken] at hc
    split <;> rename_i hd <;> first | contradiction | cases hc.symm.trans hd
    -- `[index]`
    refine (hparallel.advance h _ _).bind fun opening opening' hopening => ?_
    refine (sequence_alike hparallel hrules _ _ hopening).bind fun inner inner' hinner => ?_
    refine (expect_alike hparallel _ hinner.1).bind fun closing closing' hclosing => ?_
    have shorter := Nat.lt_trans closing.lt (Nat.lt_trans inner.lt opening.lt)
    refine (checkDepth_alike hparallel hclosing (hleft.index hinner.2)).bind
      fun node node' hnode => ?_
    refine (accesses_alike node node' hnode closing.next closing'.next hclosing).bind
      fun rest rest' hrest => ?_
    exact .ok hrest
  · rename_i hc
    rw [htoken] at hc
    split <;> rename_i hd <;> first | contradiction | cases hc.symm.trans hd
    -- `(arguments)`
    refine (hparallel.advance h _ _).bind fun opening opening' hopening => ?_
    refine (arguments_alike hparallel hrules _ _ hopening).bind fun list list' hlist => ?_
    have shorter := Nat.lt_trans list.lt opening.lt
    refine (checkDepth_alike hparallel hlist.1 (hleft.call hlist.2)).bind fun node node' hnode => ?_
    refine (accesses_alike node node' hnode list.next list'.next hlist.1).bind
      fun rest rest' hrest => ?_
    exact .ok hrest
  · rename_i hdot hbracket hparen
    rw [htoken] at hdot hbracket hparen
    split <;> try contradiction
    exact .ok ⟨h, hleft⟩
termination_by c.remaining

/-- An operand with its accesses. -/
theorem accessed_alike : Rule.GoesAlike places faults Node.SameShape (accessed rules) := by
  intro c d h
  unfold accessed
  refine (primary_alike hparallel hrules c d h).bind fun first first' hfirst => ?_
  refine (accesses_alike hparallel hrules _ _ hfirst.2 _ _ hfirst.1).bind fun rest rest' hrest => ?_
  exact .ok hrest

/-- Prefix operators. All of them make a construct without a value, but a minus in front of a number
literal belongs to the literal, so it depends on the token behind the minus which of the two is
read. -/
theorem unary_alike : Rule.GoesAlike places faults Node.SameShape (unary rules) := by
  intro c d h
  have htoken := hparallel.token?_eq h
  have haccessed := accessed_alike hparallel hrules c d h
  unfold unary
  split
  · rename_i hc
    rw [htoken] at hc
    split <;> rename_i hd <;> cases hc.symm.trans hd
    exact haccessed
  · rename_i token hc
    rw [htoken] at hc
    cases hprefixed : prefixed? token with
    | none =>
      dsimp only
      split <;> rename_i hd <;> cases hc.symm.trans hd
      rw [hprefixed]
      exact haccessed
    | some construct =>
      -- the prefix is a construct without a value, unless it is the sign of a number
      have hoperand : ∀ {sign : Taken c Unit} {sign' : Taken d Unit}, places sign.next sign'.next →
          Alike faults (fun taken taken' => places taken.next taken'.next ∧
              taken.value.SameShape taken'.value)
            (rules.unary sign.next >>= fun operand =>
              pure (⟨unsupported construct c.position operand.next, operand.next,
                Nat.lt_trans operand.lt sign.lt⟩ : Taken c Node))
            (rules.unary sign'.next >>= fun operand =>
              pure (⟨unsupported construct d.position operand.next, operand.next,
                Nat.lt_trans operand.lt sign'.lt⟩ : Taken d Node)) := by
        intro sign sign' hsign
        refine (hrules.unary _ _ hsign).bind fun operand operand' hoperand => ?_
        exact .ok ⟨hoperand.1, .unsupported _ _ _ _ _⟩
      dsimp only
      by_cases hminus : token = .operator .subtract
      · simp only [if_pos hminus]
        split <;> rename_i hd <;> cases hc.symm.trans hd
        simp only [hprefixed, if_pos hminus]
        refine (hparallel.advance h _ _).bind fun sign sign' hsign => ?_
        -- whether a number follows is the same at both places
        have hnext := hparallel.token?_eq hsign
        split
        · rename_i text hnumber
          rw [hnext] at hnumber
          split <;> rename_i hother
          · cases hnumber.symm.trans hother
            refine (hparallel.advance hsign _ _).bind fun number number' hnumber => ?_
            refine (accesses_alike hparallel hrules _ _ (.refl _) _ _ hnumber).bind
              fun rest rest' hrest => ?_
            exact .ok hrest
          · exact absurd hnumber (hother text)
        · rename_i hnumber
          rw [hnext] at hnumber
          split <;> rename_i hother
          · exact absurd hother (hnumber _)
          · exact hoperand hsign
      · simp only [if_neg hminus]
        split <;> rename_i hd <;> cases hc.symm.trans hd
        simp only [hprefixed, if_neg hminus]
        refine (hparallel.advance h _ _).bind fun sign sign' hsign => ?_
        -- what follows does not matter behind another prefix
        split <;> split <;> exact hoperand hsign

/-- Operators at one level of precedence and tighter. Three things are decided by the operator's
token: whether it is an operator, whether it binds tightly enough to be taken here, and whether it
has a value. Each is the same at both places. -/
theorem links_alike {loosest : Precedence} (start start' : Nat) (left left' : Node)
    (hleft : left.SameShape left') (c d : Cursor) (h : places c d) :
    Alike faults (fun kept kept' => places kept.next kept'.next ∧ kept.value.SameShape kept'.value)
      (links rules loosest start left c) (links rules loosest start' left' d) := by
  have htoken := hparallel.token?_eq h
  rw [links.eq_def rules loosest start, links.eq_def rules loosest start']
  split
  · rename_i hc
    rw [htoken] at hc
    split <;> rename_i hd <;> cases hc.symm.trans hd
    exact .ok ⟨h, hleft⟩
  · rename_i token hc
    rw [htoken] at hc
    cases hlink : linkOf? token with
    | none =>
      dsimp only
      split <;> rename_i hd <;> cases hc.symm.trans hd
      rw [hlink]
      exact .ok ⟨h, hleft⟩
    | some link =>
      obtain ⟨operator?, precedence⟩ := link
      dsimp only
      -- an operator that binds too loosely is left to a rule further out
      by_cases hloose : precedence.level < loosest.level
      · rw [if_pos hloose]
        split <;> rename_i hd <;> cases hc.symm.trans hd
        rw [hlink]
        dsimp only
        rw [if_pos hloose]
        exact .ok ⟨h, hleft⟩
      · rw [if_neg hloose]
        -- an operator with a value makes a node and has to pass the limit, one without makes a
        -- construct
        cases operator? with
        | some operator =>
          dsimp only
          split <;> rename_i hd <;> cases hc.symm.trans hd
          rw [hlink]
          dsimp only
          rw [if_neg hloose]
          refine (hparallel.advance h _ _).bind fun link link' hlink => ?_
          refine (hrules.operand _ _ _ hlink).bind fun right right' hright => ?_
          have shorter := Nat.lt_trans right.lt link.lt
          refine (checkDepth_alike hparallel hright.1 (hleft.binary operator hright.2)).bind
            fun node node' hnode => ?_
          refine (links_alike start start' node node' hnode right.next right'.next hright.1).bind
            fun rest rest' hrest => ?_
          exact .ok hrest
        | none =>
          dsimp only
          split <;> rename_i hd <;> cases hc.symm.trans hd
          rw [hlink]
          dsimp only
          rw [if_neg hloose]
          refine (hparallel.advance h _ _).bind fun link link' hlink => ?_
          refine (hrules.operand _ _ _ hlink).bind fun right right' hright => ?_
          have shorter := Nat.lt_trans right.lt link.lt
          refine (links_alike start start' _ _ (.unsupported _ _ _ _ _) right.next right'.next
            hright.1).bind fun rest rest' hrest => ?_
          exact .ok hrest
termination_by c.remaining

/-- A chain of operators starts with its first operand. -/
theorem binary_alike (loosest : Precedence) :
    Rule.GoesAlike places faults Node.SameShape (binary rules loosest) := by
  intro c d h
  unfold binary
  refine (unary_alike hparallel hrules c d h).bind fun first first' hfirst => ?_
  refine (links_alike hparallel hrules _ _ _ _ hfirst.2 _ _ hfirst.1).bind
    fun rest rest' hrest => ?_
  exact .ok hrest

/-- A conditional is a construct without a value, its three parts are read and dropped. -/
theorem conditional_alike : Rule.GoesAlike places faults Node.SameShape (conditional rules) := by
  intro c d h
  unfold conditional
  refine (hrules.operand _ c d h).bind fun test test' htest => ?_
  have htoken := hparallel.token?_eq htest.1
  -- only a question mark goes on
  split
  · rename_i hc
    rw [htoken] at hc
    split <;> try contradiction
    refine (hparallel.advance htest.1 _ _).bind fun question question' hquestion => ?_
    refine (hrules.assignment _ _ hquestion).bind fun consequent consequent' hconsequent => ?_
    refine (expect_alike hparallel _ hconsequent.1).bind fun colon colon' hcolon => ?_
    refine (hrules.assignment _ _ hcolon).bind fun alternate alternate' halternate => ?_
    exact .ok ⟨halternate.1, .unsupported _ _ _ _ _⟩
  · rename_i hc
    rw [htoken] at hc
    split <;> try contradiction
    exact .ok htest

/-- An assignment is looked for behind a conditional. Its sign is one of the tokens of `assigned?`,
and what it makes is a construct without a value, of which only the name is kept in the shape. -/
theorem assignment_alike : Rule.GoesAlike places faults Node.SameShape (assignment rules) := by
  intro c d h
  unfold assignment
  refine (conditional_alike hparallel hrules c d h).bind fun target target' htarget => ?_
  -- the next token is the same in both, and it alone decides
  have htoken := hparallel.token?_eq htarget.1
  split
  · rename_i hc
    rw [htoken] at hc
    split <;> rename_i hd <;> cases hc.symm.trans hd
    exact .ok htarget
  · rename_i token hc
    rw [htoken] at hc
    cases hassigned : assigned? token with
    | none =>
      dsimp only
      split <;> rename_i hd <;> cases hc.symm.trans hd
      rw [hassigned]
      exact .ok htarget
    | some construct =>
      dsimp only
      split <;> rename_i hd <;> cases hc.symm.trans hd
      rw [hassigned]
      refine (hparallel.advance htarget.1 _ _).bind fun link link' hlink => ?_
      refine (hrules.assignment _ _ hlink).bind fun value value' hvalue => ?_
      exact .ok ⟨hvalue.1, .unsupported _ _ _ _ _⟩

end

/-! ## The recursion

The rules for nested expressions are entered through a record that counts how often that may happen,
and a place where nothing may be entered any more raises the limit's error. The count is the same
for both readings. -/

theorem tooDeep_alike (hparallel : Parallel places faults) {related : Node → Node → Prop} :
    Rule.GoesAlike places faults related tooDeep :=
  fun _ _ h => .error (hparallel.raised h (.tooDeep _))

/-- Induction on how many rules may be entered. Each of the three rules of one count is made from
the rules of the count before, so the lemmas of the section above are the step. -/
theorem Rules.within_alike (hparallel : Parallel places faults) (n : Nat) :
    (Rules.within n).GoAlike places faults := by
  induction n with
  | zero =>
    exact ⟨tooDeep_alike hparallel, fun _ => tooDeep_alike hparallel, tooDeep_alike hparallel⟩
  | succ n ih =>
    exact ⟨assignment_alike hparallel ih, binary_alike hparallel ih, unary_alike hparallel ih⟩

/-! ## Whole sources

Around the expression stand semicolons, and behind it the end of the source. Everything else that
can stand there is one of the errors of `program`. -/

/-- **A whole program, from its first token.** The four things that can be wrong with it, no
expression, a block, a second statement and a token that is none of them, are about the token at the
start or behind the expression; both readings have the same token there, so they raise the same one.
-/
theorem program_alike (hparallel : Parallel places faults) {c d : Cursor} (h : places c d) :
    Alike faults (fun expr expr' => expr.shape = expr'.shape) (program c) (program d) := by
  unfold program
  refine (semicolons_alike hparallel c d h).bind fun before before' hbefore => ?_
  have htoken := hparallel.token?_eq hbefore
  rw [htoken]
  split
  · rename_i hnone
    exact .error (hparallel.raised hbefore (.empty (htoken.trans hnone)))
  · rename_i hbrace
    exact .error (hparallel.raised hbefore (.block (htoken.trans hbrace)))
  · refine (sequence_alike hparallel (Rules.within_alike hparallel _) _ _ hbefore).bind
      fun expr expr' hexpr => ?_
    refine (semicolons_alike hparallel _ _ hexpr.1).bind fun behind behind' hbehind => ?_
    have hlast := hparallel.token?_eq hbehind
    rw [hlast, hparallel.token?_eq hexpr.1]
    split
    · exact .ok hexpr.2.shape_eq
    · rename_i token htoken
      split
      · exact .error (hparallel.raised hbehind (.another (hlast.trans htoken)))
      · exact .error (hparallel.raised hbehind (.unexpected (hlast.trans htoken)))

/-- **If the readings of two sources start side by side, they end so.** The trees then differ in
nothing but the sources of constructs without a value, and an error is of the same kind. Only the
first token of each source is left to the caller, for it is found by the lexer and not by a rule. -/
theorem parse_alike (hparallel : Parallel places faults) {source other : String}
    (hstart : Alike faults places (start source) (start other)) :
    Alike faults (fun expr expr' => expr.shape = expr'.shape) (Expr.parse source)
      (Expr.parse other) :=
  hstart.bind fun _ _ h => program_alike hparallel h

end Parser

end Stencil
