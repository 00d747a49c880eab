import Stencil.Proofs.Grammar

/-!
# What the rules take

A rule reads as far as it can. So what it makes of some tokens depends on what comes next, and a
phrase is read as a whole where it ends: in front of a token that cannot belong to it (`Ends`).
These are the lemmas by which proofs follow a rule along the tokens of a phrase.

* **`Accepts`** — the outcome is a value, or the error of nesting too deep where the nesting does
  not fit. With nothing known about the nesting the second is always possible.
* **`Rule.Makes`** — a rule accepts some tokens wherever they stand, and stops behind them; what it
  makes of them may depend on the two places (`Rule.Takes`: it does not).
* **`operand_takes`** — the heart: a chain of operands is read from its first operand up to a link
  that binds too loosely. Induction on how many rules may be entered, and on the chain.
* **`parse_makes`** — from the rule for expressions to whole sources.
-/

namespace Stencil.Parser

open Cursor

/-! ## Outcomes

A proof that a phrase is accepted meets one error that it cannot exclude, that of nesting too deep.
Instead of carrying a bound on the nesting through every lemma, the outcome is stated with a
proposition `fits`: where it holds there is a value, and where it is `False` nothing is claimed
about the nesting. The two uses are grammar (`fits` is `False`) and reading back what was displayed
(`fits` is a bound on the depth). -/

/-- A value that `holds`, or, unless the nesting `fits`, the error of nesting too deep. -/
def Accepts {α : Type} (fits : Prop) (outcome : Except SyntaxError α) (holds : α → Prop) : Prop :=
  (∃ value, outcome = .ok value ∧ holds value) ∨
    ¬fits ∧ ∃ limit position, outcome = .error (.nestingTooDeep limit position)

namespace Accepts

variable {α β : Type} {fits : Prop} {holds : α → Prop} {outcome : Except SyntaxError α}

theorem ok {value : α} (h : holds value) : Accepts fits (.ok value) holds :=
  Or.inl ⟨value, rfl, h⟩

theorem tooDeep (limit position : Nat) (h : ¬fits) :
    Accepts fits (.error (.nestingTooDeep limit position)) holds :=
  Or.inr ⟨h, limit, position, rfl⟩

/-- Steps are accepted one after the other. The error of the first step is that of both, so that the
value is all that the second step has to deal with. This is what every lemma on a rule is put
together with. -/
theorem bind {next : α → Except SyntaxError β} {goal : β → Prop} (h : Accepts fits outcome holds)
    (hnext : ∀ value, holds value → Accepts fits (next value) goal) :
    Accepts fits (outcome >>= next) goal := by
  rcases h with ⟨value, rfl, hvalue⟩ | ⟨hfits, limit, position, rfl⟩
  · exact hnext value hvalue
  · exact tooDeep limit position hfits

theorem exists_value (h : Accepts True outcome holds) :
    ∃ value, outcome = .ok value ∧ holds value :=
  h.resolve_right fun hdeep => hdeep.1 trivial

/-- What is accepted may be called by its name: the value is the outcome. -/
theorem self (h : Accepts fits outcome holds) :
    Accepts fits outcome fun value => outcome = .ok value ∧ holds value := by
  rcases h with ⟨value, hok, hvalue⟩ | hdeep
  · exact Or.inl ⟨value, hok, hok, hvalue⟩
  · exact Or.inr hdeep

/-- What holds of the value may be weakened. -/
theorem mono {goal : α → Prop} (h : Accepts fits outcome holds)
    (hgoal : ∀ value, holds value → goal value) : Accepts fits outcome goal := by
  rcases h with ⟨value, hok, hvalue⟩ | hdeep
  · exact Or.inl ⟨value, hok, hgoal value hvalue⟩
  · exact Or.inr hdeep

end Accepts

/-- The one test that can fail. A node that is within the limit passes unchanged, and that is known
where the nesting fits. -/
theorem checkDepth_accepts {fits : Prop} {node : Node} (c : Cursor)
    (h : fits → node.depth ≤ maxDepth) :
    Accepts fits (checkDepth node c) fun result => result = node := by
  unfold checkDepth
  split
  · refine .tooDeep _ _ fun hfits => ?_
    have := h hfits
    omega
  · exact .ok rfl

/-! ## Places in front of known tokens

`At` ties a place of the parser to the list of tokens behind it. All that a rule does with a place
is to look at the next token and to step over it, so lemmas about these two are all that is needed
to follow a rule. -/

/-- The tokens `ts` follow the place, and then the source ends. A source with a fault behind its
tokens is left out: there every rule that gets so far fails. -/
structure Cursor.At (c : Cursor) (ts : List Token) : Prop where
  tokens_eq : c.tokens = ts
  finished : ∃ position, c.ending = .finished position

namespace Cursor.At

variable {c : Cursor} {token : Token} {ts : List Token} {fits : Prop}

theorem token?_eq (h : c.At ts) : c.token? = ts.head? := by
  rw [token?_eq_head?, h.tokens_eq]

theorem token?_cons (h : c.At (token :: ts)) : c.token? = some token := h.token?_eq

/-- Stepping over the first token leads in front of the others. A step looks one token ahead for a
fault of the scanner, of which there is none here. -/
theorem advance {other : Token} (h : c.At (token :: ts)) (hother : c.token? = some other) :
    Accepts fits (c.advance hother) fun taken => taken.next.At ts := by
  obtain ⟨position, hposition⟩ := h.finished
  have htokens := h.tokens_eq
  unfold Cursor.advance
  split
  · rename_i hlexemes
    simp [tokens, hlexemes] at htokens
  · rename_i lexeme lexemes hlexemes
    -- a source that ends with its last token has no fault
    have hfault : Cursor.fault? { c with lexemes, previousStop := lexeme.stop } = none := by
      cases lexemes <;> simp [fault?, hposition]
    dsimp only
    split
    · rename_i error herror
      cases hfault.symm.trans herror
    · refine .ok ⟨?_, position, hposition⟩
      simp only [tokens, hlexemes, List.map_cons, List.cons.injEq] at htokens ⊢
      exact htokens.2

/-- A mark that is asked for is stepped over if it is next. -/
theorem expect {mark : Mark} (h : c.At (.mark mark :: ts)) :
    Accepts fits (Cursor.expect mark c) fun taken => taken.next.At ts := by
  unfold Cursor.expect
  split
  · rename_i token htoken
    cases h.token?_cons.symm.trans htoken
    rw [if_pos rfl]
    exact h.advance _
  · rename_i hnone
    cases h.token?_cons.symm.trans hnone

end Cursor.At

/-! ## Where phrases end

A rule that may go on does so whenever it can, so that a phrase ends only in front of a token that
cannot belong to it. Which tokens these are depends on the kind of the phrase, and from one kind to
the next outer one they become fewer. -/

/-- Whether a token goes on with an operand: with a member, a bracket access or a call. -/
def isAccess : Token → Bool
  | .mark .dot | .mark .leftBracket | .mark .leftParen => true
  | _ => false

/-- Whether a token behind a phrase of the kind goes on with the phrase. Primary expressions are
closed: nothing goes on with them. -/
def goesOn : Phrase → Token → Bool
  | .unary, token => isAccess token
  | .binary, token => isAccess token || (linkOf? token).isSome
  | .conditional, token => isAccess token || (linkOf? token).isSome || token == .mark .question
  | .assignment, token =>
    isAccess token || (linkOf? token).isSome || token == .mark .question || (assigned? token).isSome
  | .expression, token =>
    isAccess token || (linkOf? token).isSome || token == .mark .question || (assigned? token).isSome
      || token == .mark .comma
  | _, _ => false

/-- A phrase of the kind ends in front of the tokens. -/
def Ends (phrase : Phrase) (ts : List Token) : Prop := ts.head?.any (goesOn phrase) = false

namespace Ends

variable {ts : List Token}

/-- Where a phrase ends, the token that a rule looks at next is none that goes on with it. This
refutes the branches of a rule that would read on. -/
theorem goesOn_eq {phrase : Phrase} {c : Cursor} {token : Token} (h : Ends phrase ts) (hc : c.At ts)
    (htoken : c.token? = some token) : goesOn phrase token = false := by
  rw [hc.token?_eq] at htoken
  rw [Ends, htoken] at h
  exact h

/-- A kind of phrase that fewer tokens go on with ends where the other one ends. The lemmas below
are its instances from each kind of phrase to the next inner one. -/
theorem mono {phrase other : Phrase} (h : Ends phrase ts)
    (hle : ∀ token, goesOn phrase token = false → goesOn other token = false) : Ends other ts := by
  cases ts with
  | nil => rfl
  | cons token ts => exact hle token h

theorem assignment_of_expression (h : Ends .expression ts) : Ends .assignment ts :=
  h.mono fun _ htoken => (Bool.or_eq_false_iff.mp htoken).1

theorem conditional_of_assignment (h : Ends .assignment ts) : Ends .conditional ts :=
  h.mono fun _ htoken => (Bool.or_eq_false_iff.mp htoken).1

theorem binary_of_conditional (h : Ends .conditional ts) : Ends .binary ts :=
  h.mono fun _ htoken => (Bool.or_eq_false_iff.mp htoken).1

theorem unary_of_binary (h : Ends .binary ts) : Ends .unary ts :=
  h.mono fun _ htoken => (Bool.or_eq_false_iff.mp htoken).1

theorem primary : Ends .primary ts := by
  cases ts <;> rfl

theorem unary_of_link {link : Token} (h : link.IsLink) : Ends .unary (link :: ts) := by
  cases h <;> rfl

theorem conditional_of_isAssignment {link : Token} (h : link.IsAssignment) :
    Ends .conditional (link :: ts) := by
  cases h <;> rfl

end Ends

/-! ## Rules that take a phrase

The statements that the rest of the module is about. `Makes` is relative to the place, because what
a rule makes of an unsupported construct is a piece of the source; everything else is of the form
`Takes`. -/

/-- Where the tokens `ts` are followed by something that does not go on with the phrase, the rule
accepts them and stops behind them. What it makes of them is related to the two places. -/
def Rule.Makes {α : Type} (rule : Rule α) (fits : Prop) (phrase : Phrase) (ts : List Token)
    (made : Cursor → α → Cursor → Prop) : Prop :=
  ∀ c rest, c.At (ts ++ rest) → Ends phrase rest →
    Accepts fits (rule c) fun taken => taken.next.At rest ∧ made c taken.value taken.next

/-- The rule accepts the tokens and makes of them what `holds`, wherever they stand. -/
abbrev Rule.Takes {α : Type} (rule : Rule α) (fits : Prop) (phrase : Phrase) (ts : List Token)
    (holds : α → Prop) : Prop :=
  rule.Makes fits phrase ts fun _ value _ => holds value

/-- What is made may be weakened, as with `Accepts.mono`. -/
theorem Rule.Makes.mono {α : Type} {rule : Rule α} {fits : Prop} {phrase : Phrase} {ts : List Token}
    {made made' : Cursor → α → Cursor → Prop} (h : rule.Makes fits phrase ts made)
    (hmade : ∀ c value d, made c value d → made' c value d) : rule.Makes fits phrase ts made' :=
  fun c rest hc hends => (h c rest hc hends).mono fun taken htaken =>
    ⟨htaken.1, hmade c taken.value taken.next htaken.2⟩

/-- Besides, the tokens stand between the two places. It follows from where the rule stopped and
need not be carried through the proofs. -/
theorem Rule.Makes.reads {α : Type} {rule : Rule α} {fits : Prop} {phrase : Phrase} {ts : List Token}
    {made : Cursor → α → Cursor → Prop} (h : rule.Makes fits phrase ts made) :
    rule.Makes fits phrase ts fun c value d => c.tokens = ts ++ d.tokens ∧ made c value d :=
  fun c rest hc hends => (h c rest hc hends).mono fun taken htaken =>
    ⟨htaken.1, by rw [hc.tokens_eq, htaken.1.tokens_eq], htaken.2⟩

/-- A rule that must not be entered does not fit, and then there is nothing to show. -/
theorem tooDeep_takes {fits : Prop} {phrase : Phrase} {ts : List Token}
    {made : Cursor → Node → Cursor → Prop} (h : ¬fits) : Rule.Makes tooDeep fits phrase ts made :=
  fun c _ _ _ => .tooDeep maxNesting c.position h

section
variable {rules : Rules} {fits : Prop} {ts us vs : List Token} {holds : Node → Prop}
  {made : Cursor → Node → Cursor → Prop}

/-! ### One part only

Most rules hand on what they read when nothing of their own follows it. -/

/-- An expression without a comma is what the rule for assignments makes of it. -/
theorem sequence_single (h : rules.assignment.Makes fits .assignment ts made) :
    (sequence rules).Makes fits .expression ts made := by
  intro c rest hc hends
  unfold sequence
  refine (h c rest hc hends.assignment_of_expression).bind fun first hfirst => ?_
  split
  · rename_i hcomma
    -- a comma would go on with the expression
    cases hends.goesOn_eq hfirst.1 hcomma
  · exact .ok hfirst

/-- An assignment without a sign of assignment is what the rule for conditionals makes of it. The
rule looks at the next token only, so it does not matter whether the conditional would end there by
itself. -/
theorem assignment_passes (h : (conditional rules).Makes fits .assignment ts made) :
    (assignment rules).Makes fits .assignment ts made := by
  intro c rest hc hends
  unfold assignment
  refine (h c rest hc hends).bind fun target htarget => ?_
  split
  · exact .ok htarget
  · rename_i token htoken
    split
    · exact .ok htarget
    · rename_i construct hassigned
      have hnot := hends.goesOn_eq htarget.1 htoken
      simp [goesOn, hassigned] at hnot

theorem assignment_single (h : (conditional rules).Makes fits .conditional ts made) :
    (assignment rules).Makes fits .assignment ts made :=
  assignment_passes fun c rest hc hends => h c rest hc hends.conditional_of_assignment

/-- A conditional without a question mark is the chain of operands in front of it. -/
theorem conditional_single (h : (rules.operand .logicalOr).Makes fits .binary ts made) :
    (conditional rules).Makes fits .conditional ts made := by
  intro c rest hc hends
  unfold conditional
  refine (h c rest hc hends.binary_of_conditional).bind fun test htest => ?_
  split
  · rename_i hquestion
    cases hends.goesOn_eq htest.1 hquestion
  · exact .ok htest

/-- A link that binds too loosely, or no link at all, ends a chain, and the loop returns what it was
given. -/
theorem links_stop {loosest : Precedence} {origin : Nat} {left : Node} {c : Cursor}
    (h : c.LinksBelow loosest.level) :
    links rules loosest origin left c = .ok ⟨left, c, Nat.le_refl _⟩ := by
  rw [links]
  split
  · rfl
  · rename_i token htoken
    split
    · rfl
    · rename_i operator? precedence hlinked
      exact if_pos (h token htoken _ hlinked)

/-- If a link is at the front of the tokens, it binds more loosely than the level. That is how the
end of a right operand looks from inside. -/
def Looser (ts : List Token) (level : Nat) : Prop :=
  ∀ token ∈ ts.head?, ∀ link, linkOf? token = some link → link.2.level < level

theorem Looser.linksBelow {level : Nat} {c : Cursor} (h : Looser ts level) (hc : c.At ts) :
    c.LinksBelow level :=
  fun token htoken link hlink => h token (hc.token?_eq.symm.trans htoken) link hlink

/-- Where a chain ends no link follows, so that the level does not matter. -/
theorem Ends.looser (hends : Ends .binary ts) (level : Nat) : Looser ts level := by
  cases ts with
  | nil =>
    rintro _ ⟨⟩
  | cons token ts =>
    rintro _ ⟨⟩ link hlink
    have hnot : goesOn .binary token = false := hends
    simp [goesOn, hlink] at hnot

theorem Ends.links_stop {loosest : Precedence} {origin : Nat} {left : Node} {c : Cursor}
    (hends : Ends .binary ts) (hc : c.At ts) :
    links rules loosest origin left c = .ok ⟨left, c, Nat.le_refl _⟩ :=
  Parser.links_stop ((hends.looser _).linksBelow hc)

/-- A chain without links is its one operand. -/
theorem binary_single {loosest : Precedence} (h : (unary rules).Makes fits .unary ts made) :
    (binary rules loosest).Makes fits .binary ts made := by
  intro c rest hc hends
  unfold binary
  refine (h c rest hc hends.unary_of_binary).bind fun first hfirst => ?_
  rw [hends.links_stop hfirst.1]
  exact .ok hfirst

/-- An expression is read behind the opening parenthesis, and its node is that of the parentheses.
The places are named, since an unsupported construct inside starts at the place behind the
parenthesis. -/
theorem primary_parenthesised (h : (sequence rules).Makes fits .expression ts made) :
    (primary rules).Makes fits .primary (.mark .leftParen :: (ts ++ [.mark .rightParen]))
      fun c value _ => ∃ htoken : c.token? = some (.mark .leftParen), ∃ opening, ∃ inner : Taken _ Node,
        c.advance htoken = .ok opening ∧ sequence rules opening.next = .ok inner ∧
        made opening.next inner.value inner.next ∧ value = inner.value := by
  intro c rest hc _
  rw [List.cons_append, List.append_assoc] at hc
  unfold primary
  split
  · rename_i hnone
    cases hc.token?_cons.symm.trans hnone
  · rename_i token htoken
    cases hc.token?_cons.symm.trans htoken
    refine (hc.advance htoken).self.bind fun opening hopening => ?_
    refine (h opening.next _ hopening.2 rfl).self.bind fun inner hinner => ?_
    refine hinner.2.1.expect.bind fun closing hclosing => ?_
    exact .ok ⟨hclosing, htoken, opening, inner, hopening.1, hinner.1, hinner.2.2, rfl⟩

/-- The same where the places do not matter. -/
theorem primary_parentheses (h : (sequence rules).Takes fits .expression ts holds) :
    (primary rules).Takes fits .primary (.mark .leftParen :: (ts ++ [.mark .rightParen])) holds := by
  refine (primary_parenthesised h).mono fun c value d hvalue => ?_
  obtain ⟨_, _, inner, _, _, hinner, rfl⟩ := hvalue
  exact hinner

/-! ### Loops, one turn at a time

What a loop ends with is stated of its node and of the place behind it, since the place before it
changes from turn to turn. -/

/-- The loop over accesses stops where no member, bracket or call follows. -/
theorem Ends.accesses_stop {left : Node} {c : Cursor} (hends : Ends .unary ts) (hc : c.At ts) :
    accesses rules left c = .ok ⟨left, c, Nat.le_refl _⟩ := by
  rw [accesses]
  -- the three tokens that it goes on with, and all others
  split
  · rename_i htoken
    cases hends.goesOn_eq hc htoken
  · rename_i htoken
    cases hends.goesOn_eq hc htoken
  · rename_i htoken
    cases hends.goesOn_eq hc htoken
  · rfl

/-- The name behind a dot may be any word, reserved ones included. -/
theorem propertyName_accepts {token : Token} {name : String} {c : Cursor}
    (hname : propertyName? token = some name) (hc : c.At (token :: ts)) :
    Accepts fits (propertyName c) fun taken => taken.next.At ts ∧ taken.value = name := by
  unfold propertyName
  split
  · rename_i hnone
    cases hc.token?_cons.symm.trans hnone
  · rename_i other hother
    cases hc.token?_cons.symm.trans hother
    split
    · rename_i hnone
      cases hname.symm.trans hnone
    · rename_i other hother
      cases hname.symm.trans hother
      refine (hc.advance _).bind fun taken htaken => ?_
      exact .ok ⟨htaken, rfl⟩

variable (goal : Node → Cursor → Prop)

/-- One turn of the loop over a member. What is known of the turns that follow, from the new node,
is known of this one; so the loop is followed turn by turn with no induction here. -/
theorem accesses_member {left : Node} {c : Cursor} {token : Token} {name : String}
    (hname : propertyName? token = some name) (hc : c.At (.mark .dot :: token :: ts))
    (hdepth : fits → left.depth + 1 ≤ maxDepth)
    (hrest : ∀ d, d.At ts → Accepts fits (accesses rules ⟨.member left.expr name, left.depth + 1⟩ d)
      fun kept => goal kept.value kept.next) :
    Accepts fits (accesses rules left c) fun kept => goal kept.value kept.next := by
  rw [accesses]
  split
  · refine (hc.advance _).bind fun dot hdot => ?_
    refine (propertyName_accepts hname hdot).bind fun taken htaken => ?_
    obtain ⟨hnext, hvalue⟩ := htaken
    rw [hvalue]
    refine (checkDepth_accepts _ hdepth).bind fun node hnode => ?_
    rw [hnode]
    exact (hrest _ hnext).bind fun kept hkept => .ok hkept
  · rename_i htoken
    cases hc.token?_cons.symm.trans htoken
  · rename_i htoken
    cases hc.token?_cons.symm.trans htoken
  · rename_i hdot _ _
    exact absurd hc.token?_cons hdot

/-- One turn over an element. The expression in brackets is read by the rule for expressions, which
ends in front of the bracket. -/
theorem accesses_index {left : Node} {c : Cursor}
    (hinner : (sequence rules).Takes fits .expression us holds)
    (hc : c.At (.mark .leftBracket :: (us ++ .mark .rightBracket :: ts)))
    (hdepth : ∀ element, holds element → fits → max left.depth element.depth + 1 ≤ maxDepth)
    (hrest : ∀ element, holds element → ∀ d, d.At ts → Accepts fits
      (accesses rules ⟨.index left.expr element.expr, max left.depth element.depth + 1⟩ d)
      fun kept => goal kept.value kept.next) :
    Accepts fits (accesses rules left c) fun kept => goal kept.value kept.next := by
  rw [accesses]
  split
  · rename_i htoken
    cases hc.token?_cons.symm.trans htoken
  · refine (hc.advance _).bind fun opening hopening => ?_
    refine (hinner opening.next _ hopening rfl).bind fun inner hinner => ?_
    refine hinner.1.expect.bind fun closing hclosing => ?_
    refine (checkDepth_accepts _ (hdepth _ hinner.2)).bind fun node hnode => ?_
    rw [hnode]
    exact (hrest _ hinner.2 _ hclosing).bind fun kept hkept => .ok hkept
  · rename_i htoken
    cases hc.token?_cons.symm.trans htoken
  · rename_i hbracket _
    exact absurd hc.token?_cons hbracket

/-- One turn over a call, with a list of arguments of which only what holds of it matters. -/
theorem accesses_call {left : Node} {c : Cursor} (holds : List Expr × Nat → Prop)
    (hlist : ∀ d, d.At (us ++ .mark .rightParen :: ts) → Accepts fits (arguments rules d)
      fun taken => taken.next.At ts ∧ holds taken.value)
    (hc : c.At (.mark .leftParen :: (us ++ .mark .rightParen :: ts)))
    (hdepth : ∀ list, holds list → fits → max left.depth list.2 + 1 ≤ maxDepth)
    (hrest : ∀ list, holds list → ∀ d, d.At ts → Accepts fits
      (accesses rules ⟨.call left.expr list.1, max left.depth list.2 + 1⟩ d)
      fun kept => goal kept.value kept.next) :
    Accepts fits (accesses rules left c) fun kept => goal kept.value kept.next := by
  rw [accesses]
  split
  · rename_i htoken
    cases hc.token?_cons.symm.trans htoken
  · rename_i htoken
    cases hc.token?_cons.symm.trans htoken
  · refine (hc.advance _).bind fun opening hopening => ?_
    refine (hlist opening.next hopening).bind fun list hlist => ?_
    refine (checkDepth_accepts _ (hdepth _ hlist.2)).bind fun node hnode => ?_
    rw [hnode]
    exact (hrest _ hlist.2 _ hlist.1).bind fun kept hkept => .ok hkept
  · rename_i hparen
    exact absurd hc.token?_cons hparen

/-- What a link makes of its two operands: a binary expression, or an unsupported construct for the
links that have no operator. The construct keeps the source from the first operand on. -/
def linked (operator? : Option BinaryOperator) (origin : Nat) (left right : Node) (d : Cursor) : Node :=
  match operator? with
  | some operator => ⟨.binary operator left.expr right.expr, max left.depth right.depth + 1⟩
  | none => unsupported "relational expression" origin d

/-- One turn of the loop over links: a link that binds tightly enough, with its right operand. The
right operand is read as far as its own precedence allows, and the loop goes on with what it left
over. -/
theorem links_link {loosest precedence : Precedence} {operator? : Option BinaryOperator}
    {link : Token} {origin : Nat} {left : Node} {c : Cursor} (read : Node → Cursor → Prop)
    (hlink : linkOf? link = some (operator?, precedence))
    (hlevel : loosest.level ≤ precedence.level) (hc : c.At (link :: ts))
    (hright : ∀ d, d.At ts → Accepts fits (rules.operand precedence.ofRightOperand d)
      fun taken => read taken.value taken.next)
    (hdepth : ∀ right d, read right d → fits → max left.depth right.depth + 1 ≤ maxDepth)
    (hrest : ∀ right d, read right d →
      Accepts fits (links rules loosest origin (linked operator? origin left right d) d)
        fun kept => goal kept.value kept.next) :
    Accepts fits (links rules loosest origin left c) fun kept => goal kept.value kept.next := by
  rw [links]
  split
  · rename_i hnone
    cases hc.token?_cons.symm.trans hnone
  · rename_i token htoken
    cases hc.token?_cons.symm.trans htoken
    split
    · rename_i hnone
      cases hlink.symm.trans hnone
    · rename_i other hother
      cases hlink.symm.trans hother
      -- the link binds tightly enough, so its right operand is read
      rw [if_neg (Nat.not_lt.mpr hlevel)]
      refine (hc.advance _).bind fun first hfirst => ?_
      refine (hright first.next hfirst).bind fun right hright => ?_
      dsimp only
      split
      · refine (checkDepth_accepts _ (hdepth _ _ hright)).bind fun node hnode => ?_
        rw [hnode]
        exact (hrest _ _ hright).bind fun kept hkept => .ok hkept
      · exact (hrest _ _ hright).bind fun kept hkept => .ok hkept

end

/-- Levels are counted from one, so that nothing binds more loosely than the level zero. -/
theorem Precedence.level_pos (precedence : Precedence) : 0 < precedence.level := by
  cases precedence <;> decide

/-! ## Chains of operands

A chain is given by its first operand and by the links behind it, each with the operand to its
right. The right operand of a link is a chain of its own, up to the first link that binds more
loosely. -/

/-- The tokens of links with their right operands, as they stand in the source. -/
def chain (tail : List (Token × List Token)) : List Token :=
  tail.flatMap fun link => link.1 :: link.2

theorem chain_cons (link : Token) (operand : List Token) (tail : List (Token × List Token)) :
    chain ((link, operand) :: tail) = link :: (operand ++ chain tail) := rfl

/-- However many rules may be entered, the rule takes the tokens, if the nesting is not too deep.
Nothing is said about the node: for the grammar it is enough that there is one. -/
def TakesAll (rule : Rules → Rule Node) (phrase : Phrase) (ts : List Token) : Prop :=
  ∀ n, (rule (Rules.within n)).Takes False phrase ts fun _ => True

/-! What a rule makes of tokens with the rules of one level less, the rule one level up makes of
them. -/

section
variable {ts : List Token} {made : Cursor → Node → Cursor → Prop}

/-- An assignment is read through the rules with one level less. Without a level left the error of
nesting too deep is what is accepted. -/
theorem enter_assignment (h : ∀ n, (assignment (Rules.within n)).Makes False .assignment ts made)
    (n : Nat) : (Rules.within n).assignment.Makes False .assignment ts made := by
  cases n with
  | zero => exact tooDeep_takes id
  | succ n => exact h n

/-- The same for the right operand of a link. -/
theorem enter_operand {loosest : Precedence}
    (h : ∀ n, (binary (Rules.within n) loosest).Makes False .binary ts made) (n : Nat) :
    ((Rules.within n).operand loosest).Makes False .binary ts made := by
  cases n with
  | zero => exact tooDeep_takes id
  | succ n => exact h n

/-- The same for the operand of a prefix operator. -/
theorem enter_unary (h : ∀ n, (unary (Rules.within n)).Makes False .unary ts made) (n : Nat) :
    (Rules.within n).unary.Makes False .unary ts made := by
  cases n with
  | zero => exact tooDeep_takes id
  | succ n => exact h n

end

/-- A link and an operand to its right. -/
def IsLinked (link : Token × List Token) : Prop :=
  link.1.IsLink ∧ TakesAll unary .unary link.2

/-- No link at the front of the chain binds as tightly as the operators of a right operand. What
follows the first link is of no interest: reading has stopped there. -/
def StopsBelow (loosest : Precedence) (tail : List (Token × List Token)) : Prop :=
  ∀ link ∈ tail.head?, ∀ binding, linkOf? link.1 = some binding → binding.2.level < loosest.level

/-- The first operand of a chain ends where its first link stands, or where the chain ends. -/
theorem chain_ends {tail : List (Token × List Token)} {rest : List Token}
    (htail : ∀ link ∈ tail, IsLinked link) (hends : Ends .binary rest) :
    Ends .unary (chain tail ++ rest) := by
  cases tail with
  | nil => exact hends.unary_of_binary
  | cons link tail => exact .unary_of_link (htail link List.mem_cons_self).1

/-- Where the chain stops below a precedence, so does the loop. -/
theorem chain_stop {rules : Rules} {loosest : Precedence} {origin : Nat} {left : Node}
    {tail : List (Token × List Token)} {rest : List Token} {c : Cursor}
    (hc : c.At (chain tail ++ rest)) (hstops : StopsBelow loosest tail) (hends : Ends .binary rest) :
    links rules loosest origin left c = .ok ⟨left, c, Nat.le_refl _⟩ := by
  cases tail with
  | nil => exact hends.links_stop hc
  | cons link tail =>
    refine links_stop fun token htoken binding hbinding => ?_
    cases hc.token?_cons.symm.trans htoken
    exact hstops link rfl binding hbinding

/-- What is left of a chain where its reading stops below a precedence. It is a suffix of the chain,
so that the induction on the length of the chain goes through. -/
def LeftOver (loosest : Precedence) (tail : List (Token × List Token)) (rest : List Token)
    (d : Cursor) : Prop :=
  ∃ later, later <:+ tail ∧ d.At (chain later ++ rest) ∧ StopsBelow loosest later

/-- What is left of a later part of a chain is left of the chain. -/
theorem LeftOver.mono {loosest : Precedence} {tail later : List (Token × List Token)}
    {rest : List Token} {d : Cursor} (h : LeftOver loosest later rest d) (hlater : later <:+ tail) :
    LeftOver loosest tail rest d := by
  obtain ⟨last, hlast, hd, hstops⟩ := h
  exact ⟨last, hlast.trans hlater, hd, hstops⟩

section
variable {rest : List Token}

/-- The loop over the links of a chain, where right operands are read up to the first link that
binds too loosely. Induction on the length of the chain. The hypothesis on right operands is the
statement of `operand_takes` with one rule less to enter. -/
theorem links_takes {rules : Rules}
    (hoperand : ∀ (precedence : Precedence) (first : List Token) (tail : List (Token × List Token))
      (c : Cursor), TakesAll unary .unary first → (∀ link ∈ tail, IsLinked link) →
      c.At (first ++ (chain tail ++ rest)) → Ends .binary rest →
      Accepts False (rules.operand precedence c) fun taken => LeftOver precedence tail rest taken.next)
    (loosest : Precedence) (origin : Nat) (tail : List (Token × List Token)) (left : Node) (c : Cursor)
    (htail : ∀ link ∈ tail, IsLinked link) (hc : c.At (chain tail ++ rest))
    (hends : Ends .binary rest) :
    Accepts False (links rules loosest origin left c) fun kept =>
      LeftOver loosest tail rest kept.next := by
  match tail with
  -- nothing is left of the empty chain
  | [] =>
    rw [hends.links_stop hc]
    refine .ok ⟨[], List.suffix_rfl, hc, ?_⟩
    rintro _ ⟨⟩
  | (link, operand) :: tail =>
    obtain ⟨⟨hlink, hfirst⟩, htail⟩ := List.forall_mem_cons.mp htail
    obtain ⟨⟨operator?, precedence⟩, hbinding⟩ := isLink_iff.mp hlink
    by_cases hlevel : loosest.level ≤ precedence.level
    · rw [chain_cons, List.cons_append, List.append_assoc] at hc
      refine links_link (fun _ d => LeftOver loosest ((link, operand) :: tail) rest d)
        (fun _ d => LeftOver precedence.ofRightOperand tail rest d) hbinding hlevel hc
        (fun d hd => hoperand _ operand tail d hfirst htail hd hends)
        (fun _ _ _ hfits => hfits.elim) fun right d hright => ?_
      -- the right operand took some of the links with it, and the loop goes on with the others
      obtain ⟨later, hlater, hd, _⟩ := hright
      have shorter : later.length < tail.length + 1 := Nat.lt_succ_of_le hlater.length_le
      refine (links_takes hoperand loosest origin later _ d
        (fun link hmem => htail link (hlater.subset hmem)) hd hends).mono fun kept hkept => ?_
      exact hkept.mono (hlater.trans (List.suffix_cons _ _))
    · -- the link belongs to a chain further out
      have hstops : StopsBelow loosest ((link, operand) :: tail) := by
        rintro _ ⟨⟩ binding hother
        cases hbinding.symm.trans hother
        exact Nat.lt_of_not_le hlevel
      rw [chain_stop hc hstops hends]
      exact .ok ⟨_, List.suffix_rfl, hc, hstops⟩
termination_by tail.length

/-- A chain is read from its first operand up to a link that binds too loosely. Induction on how
many rules may be entered: each right operand enters one rule, and the chain that it takes is a
suffix of the one at hand. -/
theorem operand_takes (n : Nat) (loosest : Precedence) (first : List Token)
    (tail : List (Token × List Token)) (c : Cursor) (hfirst : TakesAll unary .unary first)
    (htail : ∀ link ∈ tail, IsLinked link) (hc : c.At (first ++ (chain tail ++ rest)))
    (hends : Ends .binary rest) :
    Accepts False ((Rules.within n).operand loosest c)
      fun taken => LeftOver loosest tail rest taken.next := by
  induction n generalizing loosest first tail c with
  | zero => exact .tooDeep _ _ id
  | succ n ih =>
    show Accepts False (binary (Rules.within n) loosest c) _
    unfold binary
    refine (hfirst n c _ hc (chain_ends htail hends)).bind fun operand hoperand => ?_
    -- right operands may enter one rule less
    refine (links_takes (fun precedence first tail c hfirst htail hc _ =>
      ih precedence first tail c hfirst htail hc) loosest _ tail operand.value operand.next htail
      hoperand.1 hends).bind fun kept hkept => ?_
    exact .ok hkept

end

/-! ## First tokens

The loops look at the next token to see whether an item follows. No item starts with a token that
ends a list. -/

/-- Whether an expression may start with the token, as far as lists and semicolons go. -/
def isOpening : Token → Bool
  | .mark .comma | .mark .semicolon | .mark .rightParen | .mark .rightBracket => false
  | _ => true

/-- Whether phrases of the kind are expressions of some sort. -/
def isOperand : Phrase → Bool
  | .expression | .assignment | .conditional | .binary | .unary | .primary => true
  | _ => false

/-- The tokens start with one that no list ends with. Loops over items decide by this whether
another item follows. -/
def Opens (ts : List Token) : Prop := ∃ token us, ts = token :: us ∧ isOpening token = true

theorem Opens.append {ts : List Token} (h : Opens ts) (us : List Token) : Opens (ts ++ us) := by
  obtain ⟨token, vs, rfl, htoken⟩ := h
  exact ⟨token, vs ++ us, rfl, htoken⟩

theorem Opens.token? {ts rest : List Token} {c : Cursor} (h : Opens ts) (hc : c.At (ts ++ rest)) :
    ∃ token, c.token? = some token ∧ isOpening token = true := by
  obtain ⟨token, us, rfl, htoken⟩ := h
  exact ⟨token, hc.token?_cons, htoken⟩

/-- In particular the list of arguments is not closed there. -/
theorem Opens.head?_ne {ts : List Token} (h : Opens ts) (us : List Token) :
    (ts ++ us).head? ≠ some (.mark .rightParen) := by
  obtain ⟨token, vs, rfl, htoken⟩ := h
  rintro ⟨⟩
  cases htoken

/-- Every expression starts with such a token. Induction on the derivation, along the first part of
each phrase down to an atom, a prefix operator or an opening bracket. -/
theorem opens_of_derives {phrase : Phrase} {ts : List Token} (h : Derives phrase ts)
    (hphrase : isOperand phrase = true) : Opens ts := by
  induction h with
  | expression _ ih | assignment _ ih | conditional _ ih => exact ih rfl
  | sequence _ _ ih _ | assigned _ _ _ ih _ | choice _ _ _ ih _ _ | binary _ _ ih _
  | accessed _ _ ih _ => exact (ih rfl).append _
  | prefixed hsign _ _ => cases hsign <;> exact ⟨_, _, rfl, rfl⟩
  | atom htoken => cases htoken <;> exact ⟨_, _, rfl, rfl⟩
  | parentheses | array | object => exact ⟨_, _, rfl, rfl⟩
  | _ => cases hphrase

/-- So does every list of arguments that is not empty. -/
theorem opens_of_arguments {ts : List Token} (h : Derives .arguments ts) (hne : ts ≠ []) :
    Opens ts := by
  cases h with
  | noArgument => exact absurd rfl hne
  | lastArgument h => exact opens_of_derives h rfl
  | argument h _ => exact (opens_of_derives h rfl).append _

/-- No primary expression starts with a prefix operator. So an operand that starts with one is read
as an operator with its operand. -/
theorem prefixed?_head_of_derives {ts : List Token} (h : Derives .primary ts) (token : Token)
    (htoken : ts.head? = some token) : prefixed? token = none := by
  cases h with
  | atom hatom =>
    cases htoken
    cases hatom <;> rfl
  | _ =>
    cases htoken
    rfl

/-! ## Leaves and accesses

What a single token makes, and what the accesses behind it make of that. Here it matters for the
first time which node it is, since a display is read back by these lemmas. -/

section
variable {rules : Rules} {ts us rest : List Token} {c : Cursor}

/-- The leaf that a token makes on its own. A string has an escape in it or not; what it stands for
is the text without escapes. -/
inductive IsLeaf : Token → Expr → Prop where
  | number (text : String) : IsLeaf (.number text) (.number text)
  | string {raw : String} {characters : List Char} (h : Escape.decode raw.toList = .ok characters) :
      IsLeaf (.string raw) (.string (String.ofList characters))
  | boolean (value : Bool) : IsLeaf (.boolean value) (.boolean value)
  | identifier (name : String) : IsLeaf (.identifier name) (.identifier name)

/-- A token that makes a leaf is an atom. The converse fails for `null` and `this`, which are atoms
without a value. -/
theorem IsLeaf.isAtom {token : Token} {expr : Expr} (h : IsLeaf token expr) : token.IsAtom := by
  cases h with
  | number text => exact .number text
  | string hraw => exact .string ⟨_, hraw⟩
  | boolean value => exact .boolean value
  | identifier name => exact .identifier name

/-- **An atom is taken by itself**, and if it makes a leaf, then that is the node. The cases differ
in what is put into the node, so the step over the token is shown once, for any node. -/
theorem primary_atom {fits : Prop} {token : Token} (h : token.IsAtom) :
    (primary rules).Takes fits .primary [token] fun node =>
      ∀ expr, IsLeaf token expr → node = ⟨expr, 1⟩ := by
  intro c rest hc _
  have htoken : c.token? = some token := hc.token?_cons
  unfold primary
  split
  · rename_i hnone
    cases htoken.symm.trans hnone
  · rename_i other hother
    cases htoken.symm.trans hother
    -- the step over the token, with whatever node a case makes of it
    have hleaf : ∀ node : Taken c Unit → Node,
        (∀ taken expr, IsLeaf token expr → node taken = ⟨expr, 1⟩) →
        Accepts fits (c.advance hother >>= fun taken =>
          pure (⟨node taken, taken.next, taken.lt⟩ : Taken c Node))
          fun taken => taken.next.At rest ∧ ∀ expr, IsLeaf token expr → taken.value = ⟨expr, 1⟩ :=
      fun node hnode => (hc.advance hother).bind fun taken htaken => .ok ⟨htaken, hnode taken⟩
    cases h with
    | string hraw =>
      obtain ⟨characters, hraw⟩ := hraw
      dsimp only
      rw [decodeEscapes, hraw]
      refine hleaf _ fun _ expr hexpr => ?_
      obtain ⟨_⟩ | ⟨hother⟩ := hexpr
      cases hraw.symm.trans hother
      rfl
    | null => exact hleaf _ fun _ expr hexpr => by cases hexpr
    | this => exact hleaf _ fun _ expr hexpr => by cases hexpr
    | _ =>
      refine hleaf _ fun _ expr hexpr => ?_
      cases hexpr
      rfl

/-- **An operand without a prefix operator** is read by its first part, and then by its accesses.
What the accesses come to is left open; it is shown turn by turn with the lemmas on the loop. -/
theorem unary_accessed {fits : Prop} {made : Cursor → Node → Cursor → Prop}
    (goal : Node → Cursor → Prop) (hfirst : (primary rules).Makes fits .primary ts made)
    (hsign : ∀ token, ts.head? = some token → prefixed? token = none) (hts : ts ≠ [])
    (hc : c.At (ts ++ us))
    (hrest : ∀ node d, made c node d → d.At us →
      Accepts fits (accesses rules node d) fun kept => goal kept.value kept.next) :
    Accepts fits (unary rules c) fun taken => goal taken.value taken.next := by
  have haccessed : Accepts fits (accessed rules c) fun taken => goal taken.value taken.next := by
    unfold accessed
    refine (hfirst c _ hc .primary).bind fun first hfirst => ?_
    exact (hrest first.value first.next hfirst.2 hfirst.1).bind fun kept hkept => .ok hkept
  unfold unary
  split
  · exact haccessed
  · rename_i token htoken
    have hnone : prefixed? token = none := by
      cases ts with
      | nil => exact absurd rfl hts
      | cons first ts =>
        cases hc.token?_cons.symm.trans htoken
        exact hsign token rfl
    split
    · exact haccessed
    · rename_i construct hconstruct
      cases hnone.symm.trans hconstruct

/-- An operand that is its first part, where no access follows. -/
theorem unary_single {fits : Prop} {made : Cursor → Node → Cursor → Prop}
    (h : (primary rules).Makes fits .primary ts made)
    (hsign : ∀ token, ts.head? = some token → prefixed? token = none) (hts : ts ≠ []) :
    (unary rules).Makes fits .unary ts made := by
  intro c rest hc hends
  refine unary_accessed (fun node d => d.At rest ∧ made c node d) h hsign hts hc
    fun node d hnode hd => ?_
  rw [hends.accesses_stop hd]
  exact .ok ⟨hd, hnode⟩

/-! ### Arguments

Stated with the trees that are collected, the last one first, and with their depth. -/

variable {fits : Prop} {holds : Node → Prop} {read : List Expr} {depth : Nat}

/-- The last argument, with the closing parenthesis behind it. A comma may stand in between. -/
theorem argumentsFrom_last (hitem : rules.assignment.Takes fits .assignment ts holds)
    (hc : c.At (ts ++ us))
    (hus : us = .mark .rightParen :: rest ∨ us = .mark .comma :: .mark .rightParen :: rest) :
    Accepts fits (argumentsFrom rules read depth c) fun taken => taken.next.At rest ∧
      ∃ node, holds node ∧ taken.value = ((node.expr :: read).reverse, max depth node.depth) := by
  have hends : Ends .assignment us := by
    rcases hus with rfl | rfl <;> rfl
  rw [argumentsFrom]
  refine (hitem c _ hc hends).bind fun argument hargument => ?_
  obtain ⟨hnext, hnode⟩ := hargument
  rcases hus with rfl | rfl
  · split
    · rename_i hcomma
      cases hnext.token?_cons.symm.trans hcomma
    · refine (hnext.advance _).bind fun closing hclosing => ?_
      exact .ok ⟨hclosing, argument.value, hnode, rfl⟩
    · rename_i hparen
      exact absurd hnext.token?_cons hparen
  · split
    · refine (hnext.advance _).bind fun comma hcomma => ?_
      split
      · refine (hcomma.advance _).bind fun closing hclosing => ?_
        exact .ok ⟨hclosing, argument.value, hnode, rfl⟩
      · rename_i hparen
        exact absurd hcomma.token?_cons hparen
    · rename_i hparen
      cases hnext.token?_cons.symm.trans hparen
    · rename_i hcomma _
      exact absurd hnext.token?_cons hcomma

/-- An argument with a comma behind it, where the list goes on. What is known of the loop from the
next argument on is known of it from this one. -/
theorem argumentsFrom_comma (goal : List Expr × Nat → Cursor → Prop)
    (hitem : rules.assignment.Takes fits .assignment ts holds)
    (hc : c.At (ts ++ .mark .comma :: us)) (hus : us.head? ≠ some (.mark .rightParen))
    (hrest : ∀ node, holds node → ∀ d, d.At us →
      Accepts fits (argumentsFrom rules (node.expr :: read) (max depth node.depth) d)
        fun taken => goal taken.value taken.next) :
    Accepts fits (argumentsFrom rules read depth c) fun taken => goal taken.value taken.next := by
  rw [argumentsFrom]
  refine (hitem c _ hc rfl).bind fun argument hargument => ?_
  obtain ⟨hnext, hnode⟩ := hargument
  split
  · refine (hnext.advance _).bind fun comma hcomma => ?_
    split
    · rename_i hparen
      exact absurd (hcomma.token?_eq.symm.trans hparen) hus
    · exact (hrest _ hnode comma.next hcomma).bind fun taken htaken => .ok htaken
  · rename_i hparen
    cases hnext.token?_cons.symm.trans hparen
  · rename_i hcomma _
    exact absurd hnext.token?_cons hcomma

/-- A list without arguments is closed at once. -/
theorem arguments_none (hc : c.At (.mark .rightParen :: rest)) :
    Accepts fits (arguments rules c) fun taken => taken.next.At rest ∧ taken.value = ([], 0) := by
  unfold arguments
  split
  · refine (hc.advance _).bind fun closing hclosing => ?_
    exact .ok ⟨hclosing, rfl⟩
  · rename_i hparen
    exact absurd hc.token?_cons hparen

/-- In front of an argument the list is the loop over arguments, with nothing read so far. -/
theorem arguments_some (hc : c.At us) (hus : us.head? ≠ some (.mark .rightParen)) :
    arguments rules c = argumentsFrom rules [] 0 c := by
  unfold arguments
  split
  · rename_i hparen
    exact absurd (hc.token?_eq.symm.trans hparen) hus
  · rfl

end

/-! ## Whole sources

A source may have semicolons in front of its expression and behind it. The parser reads them over,
and then the source must end. -/

/-- Semicolons are read over, as many as there are. Induction on their number. -/
theorem semicolons_takes {fits : Prop} (count : Nat) {c : Cursor} {rest : List Token}
    (hc : c.At (List.replicate count (.mark .semicolon) ++ rest))
    (hrest : rest.head? ≠ some (.mark .semicolon)) :
    Accepts fits (semicolons c) fun kept => kept.next.At rest := by
  induction count generalizing c with
  -- no semicolon is left, and none follows
  | zero =>
    rw [semicolons]
    split
    · rename_i htoken
      exact absurd (hc.token?_eq.symm.trans htoken) hrest
    · exact .ok hc
  | succ count ih =>
    rw [semicolons]
    split
    · refine (hc.advance _).bind fun semicolon hsemicolon => ?_
      exact (ih hsemicolon).bind fun kept hkept => .ok hkept
    · rename_i hsemicolon
      exact absurd hc.token?_cons hsemicolon

/-- An expression with semicolons around it, when it is known what the rule for it makes of it. A
brace at the front would be a block statement, which is why the expression must not start with one.
-/
theorem program_accepts {fits : Prop} {made : Cursor → Node → Cursor → Prop} {before behind : Nat}
    {c : Cursor} {ts : List Token} (hopens : Opens ts) (hbrace : ts.head? ≠ some (.mark .leftBrace))
    (htakes : (sequence (Rules.within maxNesting)).Makes fits .expression ts made)
    (hc : c.At (List.replicate before (.mark .semicolon) ++
      (ts ++ List.replicate behind (.mark .semicolon)))) :
    Accepts fits (program c) fun expr => ∃ kept node d, semicolons c = .ok kept ∧
      made kept.next node d ∧ node.expr = expr := by
  obtain ⟨first, us, rfl, hfirst⟩ := hopens
  have hsemicolon : (first :: us ++ List.replicate behind (Token.mark .semicolon)).head? ≠
      some (.mark .semicolon) := by
    rintro ⟨⟩
    cases hfirst
  unfold program
  refine (semicolons_takes before hc hsemicolon).self.bind fun kept hkept => ?_
  have htoken := hkept.2.token?_cons
  split
  · rename_i hnone
    cases htoken.symm.trans hnone
  · rename_i hother
    cases htoken.symm.trans hother
    exact absurd rfl hbrace
  · -- a semicolon does not go on with an expression, and neither does the end
    have hends : Ends .expression (List.replicate behind (.mark .semicolon)) := by
      cases behind <;> rfl
    refine (htakes kept.next _ hkept.2 hends).bind fun expr hexpr => ?_
    have hlast : expr.next.At (List.replicate behind (.mark .semicolon) ++ []) := by
      rw [List.append_nil]
      exact hexpr.1
    refine (semicolons_takes behind hlast (by simp)).bind fun last hlast => ?_
    split
    · exact .ok ⟨kept, expr.value, expr.next, hkept.1, hexpr.2, rfl⟩
    · rename_i htoken
      cases hlast.token?_eq.symm.trans htoken

/-- A complete source is started in front of its tokens. The first step looks for a fault of the
scanner, and finds none. -/
theorem exists_start {source : String} (h : (Lexed.ofSource source).Complete) :
    ∃ c, start source = .ok c ∧ c.At (Lexed.ofSource source).tokens := by
  obtain ⟨position, hposition⟩ := h
  have hfault : Cursor.fault? ⟨source.toList, (Lexed.ofSource source).lexemes,
      (Lexed.ofSource source).ending, 0⟩ = none := by
    -- a fault is reported only where the last token is followed by one
    unfold Cursor.fault?
    rw [hposition]
    split
    · simp_all
    · rfl
  refine ⟨⟨source.toList, (Lexed.ofSource source).lexemes, (Lexed.ofSource source).ending, 0⟩, ?_,
    rfl, position, hposition⟩
  simp only [Parser.start, Cursor.checked, hfault]

section
variable {fits : Prop} {source : String} {before behind : Nat} {ts : List Token}
  (hcomplete : (Lexed.ofSource source).Complete)
  (htokens : (Lexed.ofSource source).tokens = List.replicate before (.mark .semicolon) ++
    (ts ++ List.replicate behind (.mark .semicolon)))
  (hopens : Opens ts) (hbrace : ts.head? ≠ some (.mark .leftBrace))
include hcomplete htokens hopens hbrace

/-- A complete source with semicolons around an expression is what the rule makes of the expression,
behind the semicolons in front of it. -/
theorem parse_makes {made : Cursor → Node → Cursor → Prop}
    (htakes : (sequence (Rules.within maxNesting)).Makes fits .expression ts made) :
    Accepts fits (Expr.parse source) fun expr => ∃ c kept node d, start source = .ok c ∧
      semicolons c = .ok kept ∧ made kept.next node d ∧ node.expr = expr := by
  obtain ⟨c, hstart, hc⟩ := exists_start hcomplete
  rw [htokens] at hc
  unfold Expr.parse
  rw [hstart]
  refine (program_accepts hopens hbrace htakes hc).mono fun expr hexpr => ?_
  obtain ⟨kept, node, d, hkept, hmade, hnode⟩ := hexpr
  exact ⟨c, kept, node, d, rfl, hkept, hmade, hnode⟩

/-- The same where the places do not matter: what holds of the node that the rule makes holds of the
node of the source. -/
theorem parse_takes {holds : Node → Prop}
    (htakes : (sequence (Rules.within maxNesting)).Takes fits .expression ts holds) :
    Accepts fits (Expr.parse source) fun expr => ∃ node, holds node ∧ node.expr = expr := by
  refine (parse_makes hcomplete htokens hopens hbrace htakes).mono fun expr hexpr => ?_
  obtain ⟨_, _, node, _, _, _, hholds, hnode⟩ := hexpr
  exact ⟨node, hholds, hnode⟩

end

end Stencil.Parser
