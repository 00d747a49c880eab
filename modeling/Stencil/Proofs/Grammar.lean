import Stencil.Expr.Parser
import Stencil.Proofs.Outcome

/-!
# The grammar of expressions

The syntax of expressions as rules on sequences of tokens, without a parser in mind: no places in a
source, no limits, and precedences only where they decide how far a chain of operands is read. A
phrase that is a list of others is given by its first item and the list behind it.

* **`Derives`** — the grammar, one constructor for each alternative of a rule.
* **`LinksAt`** — the links of a chain as they are read that bind tightly enough.
* **`Construct`** — the phrases that have no value, each with its name.
* **`Program`** — a whole source: an expression between semicolons.
* **`Rules.within_sound`** — what a rule of the parser reads is a phrase of the grammar, for every
  number of rules that may be entered. One lemma for each rule; the loops go by their own induction.
* **`program_sound`** — an accepted source has no fault, and its tokens are a program.
-/

namespace Stencil

/-! ## Classes of tokens

The rules of the parser ask functions such as `propertyName?` and `prefixed?` what a token can be.
The grammar has a predicate for each of them, which says which tokens there are; the lemmas with
`iff` in their names below say that the two agree. -/

namespace Token

/-- The names behind a dot, reserved words among them. A word is reserved only where an expression
could start. -/
inductive IsName : Token → Prop where
  | identifier (name : String) : IsName (.identifier name)
  | keyword (word : Keyword) : IsName (.keyword word)
  | boolean (value : Bool) : IsName (.boolean value)
  | null : IsName .null

/-- The keys of properties: names, strings whatever their escapes, and numbers. -/
inductive IsKey : Token → Prop where
  | name {token : Token} (h : IsName token) : IsKey token
  | string (raw : String) : IsKey (.string raw)
  | number (text : String) : IsKey (.number text)

/-- The prefix operators. Two of them are binary operators as well, and some are words. -/
inductive IsPrefix : Token → Prop where
  | add : IsPrefix (.operator .add)
  | subtract : IsPrefix (.operator .subtract)
  | bang : IsPrefix (.mark .bang)
  | tilde : IsPrefix (.mark .tilde)
  | typeof : IsPrefix (.keyword .typeof)
  | void : IsPrefix (.keyword .void)
  | delete : IsPrefix (.keyword .delete)
  | new : IsPrefix (.keyword .new)

/-- What stands between two operands: a binary operator or one of two relations that are words. -/
inductive IsLink : Token → Prop where
  | operator (symbol : BinaryOperator) : IsLink (.operator symbol)
  | in_ : IsLink (.keyword .in_)
  | instanceof : IsLink (.keyword .instanceof)

/-- The tokens that are expressions of their own. The escapes of a string have to be in order, since
its text is decoded while it is parsed; that is why this class is no matter of the kind of token
alone. -/
inductive IsAtom : Token → Prop where
  | number (text : String) : IsAtom (.number text)
  | string {raw : String} (h : ∃ characters, Escape.decode raw.toList = .ok characters) :
      IsAtom (.string raw)
  | boolean (value : Bool) : IsAtom (.boolean value)
  | null : IsAtom .null
  | this : IsAtom (.keyword .this)
  | identifier (name : String) : IsAtom (.identifier name)

/-- What makes an assignment or an arrow function. -/
inductive IsAssignment : Token → Prop where
  | assign : IsAssignment (.mark .assign)
  | arrow : IsAssignment (.mark .arrow)

end Token

/-! ## Phrases

One kind of phrase for each rule of the parser, from the loosest one inward, with the lists that the
loops of the rules read. -/

/-- The kinds of phrases. -/
inductive Phrase where
  | expression | assignment | conditional | binary | links | unary | accesses | arguments | primary
  | elements | properties | property
deriving DecidableEq

/-- The tokens are a phrase of a kind. The constructors are the alternatives of the grammar. A
phrase that is a list of others is given by its first item and the list behind it, which is how the
loops read it as well. Precedence is not part of this: any operands with binary operators between
them are a phrase. -/
inductive Derives : Phrase → List Token → Prop where
  | expression {ts : List Token} (h : Derives .assignment ts) : Derives .expression ts
  | sequence {ts us : List Token} (hfirst : Derives .assignment ts)
      (hrest : Derives .expression us) : Derives .expression (ts ++ .mark .comma :: us)
  | assignment {ts : List Token} (h : Derives .conditional ts) : Derives .assignment ts
  | assigned {ts us : List Token} {link : Token} (htarget : Derives .conditional ts)
      (hlink : link.IsAssignment) (hvalue : Derives .assignment us) :
      Derives .assignment (ts ++ link :: us)
  | conditional {ts : List Token} (h : Derives .binary ts) : Derives .conditional ts
  | choice {ts us vs : List Token} (htest : Derives .binary ts)
      (hconsequent : Derives .assignment us) (halternate : Derives .assignment vs) :
      Derives .conditional (ts ++ .mark .question :: (us ++ .mark .colon :: vs))
  | binary {ts us : List Token} (hfirst : Derives .unary ts) (hlinks : Derives .links us) :
      Derives .binary (ts ++ us)
  | noLink : Derives .links []
  | link {ts us : List Token} {link : Token} (hlink : link.IsLink) (hoperand : Derives .unary ts)
      (hlinks : Derives .links us) : Derives .links (link :: (ts ++ us))
  | prefixed {ts : List Token} {sign : Token} (hsign : sign.IsPrefix) (h : Derives .unary ts) :
      Derives .unary (sign :: ts)
  | accessed {ts us : List Token} (hfirst : Derives .primary ts) (haccesses : Derives .accesses us) :
      Derives .unary (ts ++ us)
  | noAccess : Derives .accesses []
  | member {us : List Token} {name : Token} (hname : name.IsName) (haccesses : Derives .accesses us) :
      Derives .accesses (.mark .dot :: name :: us)
  | index {ts us : List Token} (h : Derives .expression ts) (haccesses : Derives .accesses us) :
      Derives .accesses (.mark .leftBracket :: (ts ++ .mark .rightBracket :: us))
  | call {ts us : List Token} (h : Derives .arguments ts) (haccesses : Derives .accesses us) :
      Derives .accesses (.mark .leftParen :: (ts ++ .mark .rightParen :: us))
  | noArgument : Derives .arguments []
  | lastArgument {ts : List Token} (h : Derives .assignment ts) : Derives .arguments ts
  | argument {ts us : List Token} (hfirst : Derives .assignment ts)
      (hrest : Derives .arguments us) : Derives .arguments (ts ++ .mark .comma :: us)
  | atom {token : Token} (h : token.IsAtom) : Derives .primary [token]
  | parentheses {ts : List Token} (h : Derives .expression ts) :
      Derives .primary (.mark .leftParen :: (ts ++ [.mark .rightParen]))
  | array {ts : List Token} (h : Derives .elements ts) :
      Derives .primary (.mark .leftBracket :: (ts ++ [.mark .rightBracket]))
  | object {ts : List Token} (h : Derives .properties ts) :
      Derives .primary (.mark .leftBrace :: (ts ++ [.mark .rightBrace]))
  | noElement : Derives .elements []
  | lastElement {ts : List Token} (h : Derives .assignment ts) : Derives .elements ts
  | hole {us : List Token} (hrest : Derives .elements us) : Derives .elements (.mark .comma :: us)
  | element {ts us : List Token} (hfirst : Derives .assignment ts) (hrest : Derives .elements us) :
      Derives .elements (ts ++ .mark .comma :: us)
  | noProperty : Derives .properties []
  | lastProperty {ts : List Token} (h : Derives .property ts) : Derives .properties ts
  | properties {ts us : List Token} (hfirst : Derives .property ts)
      (hrest : Derives .properties us) : Derives .properties (ts ++ .mark .comma :: us)
  | property {ts : List Token} {key : Token} (hkey : key.IsKey) (hvalue : Derives .assignment ts) :
      Derives .property (key :: .mark .colon :: ts)
  | shorthand (name : String) : Derives .property [.identifier name]

/-- The tokens of a source. -/
def Lexed.tokens (lexed : Lexed) : List Token := lexed.lexemes.map Lexeme.token

/-- The source ends after its last token, and not with characters that are no token. -/
def Lexed.Complete (lexed : Lexed) : Prop := ∃ position, lexed.ending = .finished position

/-- The tokens are an expression with any number of semicolons before and behind it. An expression
that starts with a brace is none: a brace there opens a block, which the parser refuses although it
could read an object. -/
def Program (ts : List Token) : Prop :=
  ∃ before expression behind, ts = List.replicate before (.mark .semicolon) ++ expression ++
    List.replicate behind (.mark .semicolon) ∧
    Derives .expression expression ∧ expression.head? ≠ some (.mark .leftBrace)

/-- Links behind links are links. Induction on the first ones. Links that are read by precedence
come in nested runs, and this is how they become one list. -/
theorem Derives.links_append {ts us : List Token} (hts : Derives .links ts)
    (hus : Derives .links us) : Derives .links (ts ++ us) := by
  generalize hphrase : Phrase.links = phrase at hts
  induction hts with
  | noLink => exact hus
  | link hlink hoperand _ _ ih =>
    rw [List.cons_append, List.append_assoc]
    exact .link hlink hoperand (ih rfl)
  | _ => cases hphrase

/-! ## Chains by precedence

Precedence does not decide which tokens are an expression, but it decides how far a right operand
goes, and with it what the source of a relational construct is. `LinksAt` is the reading of the
loop, without the trees. -/

/-- Nothing binds as tightly as the level behind the last one, which is the bound in front of the
first link. -/
theorem Precedence.level_le_exponent (precedence : Precedence) :
    precedence.level ≤ exponent.level := by
  cases precedence <;> decide

namespace Parser

/-- Links with their operands, each of which binds at least as tightly as `loosest`. A right operand
is as long as it can be, so the link behind it binds more loosely than those in it: for the next
link that is the `bound`, and for the first one there is none. -/
inductive LinksAt : (loosest : Precedence) → (bound : Nat) → List Token → Prop where
  | none (loosest : Precedence) : LinksAt loosest (Precedence.exponent.level + 1) []
  | link {loosest precedence : Precedence} {bound bound' : Nat} {us first inner : List Token}
      {link : Token} {operator? : Option BinaryOperator} (hbefore : LinksAt loosest bound us)
      (hlink : linkOf? link = some (operator?, precedence))
      (htight : loosest.level ≤ precedence.level) (hbound : precedence.level < bound)
      (hfirst : Derives .unary first) (hinner : LinksAt precedence.ofRightOperand bound' inner) :
      LinksAt loosest precedence.ofRightOperand.level (us ++ link :: (first ++ inner))

/-! ## Constructs without a value -/

/-- The tokens are a construct that has no value. A minus sign in front of a number is none. The
names are those that are reported, so that a leaf of a tree and its source can be told to belong
together. -/
inductive Construct : (name : String) → List Token → Prop where
  | null : Construct "null literal" [.null]
  | this : Construct "'this' expression" [.keyword .this]
  | array {ts : List Token} (h : Derives .elements ts) :
      Construct "array literal" (.mark .leftBracket :: (ts ++ [.mark .rightBracket]))
  | object {ts : List Token} (h : Derives .properties ts) :
      Construct "object literal" (.mark .leftBrace :: (ts ++ [.mark .rightBrace]))
  | prefixed {name : String} {ts : List Token} {sign : Token} (hsign : prefixed? sign = some name)
      (hnumber : sign = .operator .subtract → ∀ text, ts.head? ≠ some (.number text))
      (h : Derives .unary ts) : Construct name (sign :: ts)
  | relational {loosest precedence : Precedence} {bound bound' : Nat}
      {first us operand inner : List Token} {link : Token} (hfirst : Derives .unary first)
      (hlinks : LinksAt loosest bound us) (hlink : linkOf? link = some (none, precedence))
      (hbound : precedence.level < bound) (hoperand : Derives .unary operand)
      (hinner : LinksAt precedence.ofRightOperand bound' inner) :
      Construct "relational expression" (first ++ (us ++ link :: (operand ++ inner)))
  | choice {ts us vs : List Token} (htest : Derives .binary ts)
      (hconsequent : Derives .assignment us) (halternate : Derives .assignment vs) :
      Construct "conditional expression" (ts ++ .mark .question :: (us ++ .mark .colon :: vs))
  | assigned {name : String} {ts us : List Token} {link : Token} (hlink : assigned? link = some name)
      (htarget : Derives .binary ts) (hvalue : Derives .assignment us) :
      Construct name (ts ++ link :: us)
  | sequence {ts us : List Token} (hfirst : Derives .assignment ts)
      (hrest : Derives .expression us) :
      Construct "sequence expression" (ts ++ .mark .comma :: us)

/-! ## Tokens between two places

What a rule reads is stated by the two places around it: the tokens between them, and that no fault
of the scanner stands there. A step over one token is the only way from one place to another, so
everything else follows by putting steps together. -/

namespace Cursor

/-- The tokens that follow a place. -/
def tokens (c : Cursor) : List Token := c.lexemes.map Lexeme.token

theorem token?_eq_head? (c : Cursor) : c.token? = c.tokens.head? := by
  simp [token?, tokens, List.head?_map]

/-- The tokens `ts` stand between the places `c` and `d`, and no fault does. -/
structure Reads (c : Cursor) (ts : List Token) (d : Cursor) : Prop where
  tokens_eq : c.tokens = ts ++ d.tokens
  ending_eq : d.ending = c.ending
  fault?_eq : c.fault? = none → d.fault? = none

theorem Reads.nil (c : Cursor) : c.Reads [] c := ⟨rfl, rfl, id⟩

theorem Reads.trans {c d e : Cursor} {ts us : List Token} (h : c.Reads ts d) (h' : d.Reads us e) :
    c.Reads (ts ++ us) e := by
  refine ⟨?_, h'.ending_eq.trans h.ending_eq, fun hfault => h'.fault?_eq (h.fault?_eq hfault)⟩
  rw [h.tokens_eq, h'.tokens_eq, List.append_assoc]

theorem Reads.cons {c d e : Cursor} {token : Token} {ts : List Token} (h : c.Reads [token] d)
    (h' : d.Reads ts e) : c.Reads (token :: ts) e :=
  h.trans h'

/-- A step leads over one token, if it leads anywhere: it fails if a fault of the scanner comes
next. -/
theorem advance_reads {c : Cursor} {token : Token} (h : c.token? = some token) :
    Yields (c.advance h) fun taken => c.Reads [token] taken.next := by
  unfold advance
  split
  · rename_i hlexemes
    simp [token?, hlexemes] at h
  · rename_i lexeme lexemes hlexemes
    have htoken : lexeme.token = token := by simpa [token?, hlexemes] using h
    dsimp only
    split
    · exact .error
    · rename_i hfault
      refine .ok ⟨?_, rfl, fun _ => hfault⟩
      simp [tokens, hlexemes, htoken]

/-- The same for a mark that is asked for. -/
theorem expect_reads (mark : Mark) (c : Cursor) :
    Yields (Cursor.expect mark c) fun taken => c.Reads [.mark mark] taken.next := by
  unfold Cursor.expect
  split
  · split
    · subst_vars
      exact advance_reads _
    · exact .error
  · exact .error

/-- A phrase of the kind stands between the places. The tokens are left out, as rules further out
only put phrases together. -/
def Covers (phrase : Phrase) (c d : Cursor) : Prop := ∃ ts, c.Reads ts d ∧ Derives phrase ts

/-- If a link follows, it binds more loosely than the level. -/
def LinksBelow (c : Cursor) (level : Nat) : Prop :=
  ∀ token, c.token? = some token → ∀ link, linkOf? token = some link → link.2.level < level

theorem LinksBelow.any (c : Cursor) : c.LinksBelow (Precedence.exponent.level + 1) :=
  fun _ _ link _ => Nat.lt_succ_of_le link.2.level_le_exponent

/-- Nothing follows that makes an assignment or an arrow function. -/
def NotAssigned (c : Cursor) : Prop := ∀ token, c.token? = some token → assigned? token = none

/-- Between the places stands an operand with the links behind it that bind at least as tightly as
`loosest`, and the next link does not. The last part is what makes the reading the longest one. -/
def CoversChain (loosest : Precedence) (c d : Cursor) : Prop :=
  ∃ first us bound, c.Reads (first ++ us) d ∧ Derives .unary first ∧ LinksAt loosest bound us ∧
    d.LinksBelow loosest.level

end Cursor

open Cursor

/-! ## The rules

Each proof follows its rule from token to token and puts the derivation together at the end. A rule
that can contain itself is entered through `Rules`, whose soundness is the hypothesis `hrules`; the
loops are recursive functions, and their proofs call themselves on what is left of the tokens. -/

/-- What the rule reads is a phrase of the kind. Nothing is said about a rule that fails, nor about
the node. -/
def Rule.Sound {α : Type} (phrase : Phrase) (rule : Rule α) : Prop :=
  ∀ c, Yields (rule c) fun taken => c.Covers phrase taken.next

/-- What the rules that can contain themselves read is what they are named for, and as long as it
can be. -/
structure Rules.Sound (rules : Rules) : Prop where
  assignment (c : Cursor) : Yields (rules.assignment c) fun taken =>
    c.Covers .assignment taken.next ∧ taken.next.NotAssigned
  operand (precedence : Precedence) (c : Cursor) : Yields (rules.operand precedence c) fun taken =>
    c.CoversChain precedence taken.next
  unary : Rule.Sound .unary rules.unary

/-- Names are the tokens that the rule for names accepts. The cases are those of the definitions on
both sides, and so it is with the other classes. -/
theorem isName_iff {token : Token} : token.IsName ↔ ∃ name, propertyName? token = some name := by
  constructor
  · intro h
    cases h with
    | boolean value => cases value <;> exact ⟨_, rfl⟩
    | _ => exact ⟨_, rfl⟩
  · intro h
    obtain ⟨name, h⟩ := h
    unfold propertyName? at h
    split at h
    · exact .identifier _
    · exact .keyword _
    · exact .boolean true
    · exact .boolean false
    · exact .null
    · cases h

/-- Keys are the tokens that the rule for properties accepts in front of a colon. -/
theorem isKey_iff {token : Token} : token.IsKey ↔ ∃ alone, propertyKey? token = some alone := by
  constructor
  · intro h
    cases h with
    | name h => cases h <;> exact ⟨_, rfl⟩
    | string raw => exact ⟨_, rfl⟩
    | number text => exact ⟨_, rfl⟩
  · intro h
    obtain ⟨alone, h⟩ := h
    unfold propertyKey? at h
    split at h
    · exact .name (.identifier _)
    · exact .name (.keyword _)
    · exact .string _
    · exact .number _
    · exact .name (.boolean _)
    · exact .name .null
    · cases h

/-- The keys that may stand alone are identifiers. -/
theorem propertyKey?_eq_some_true_iff {token : Token} :
    propertyKey? token = some true ↔ ∃ name, token = .identifier name := by
  constructor
  · intro h
    unfold propertyKey? at h
    split at h <;> first | exact ⟨_, rfl⟩ | cases h
  · rintro ⟨name, rfl⟩
    rfl

/-- Prefix operators are the tokens for which there is a construct to report. -/
theorem isPrefix_iff {token : Token} :
    token.IsPrefix ↔ ∃ construct, prefixed? token = some construct := by
  constructor
  · intro h
    cases h <;> exact ⟨_, rfl⟩
  · intro h
    obtain ⟨construct, h⟩ := h
    unfold prefixed? at h
    split at h
    · exact .subtract
    · exact .add
    · exact .bang
    · exact .tilde
    · exact .typeof
    · exact .void
    · exact .delete
    · exact .new
    · cases h

/-- Links are the tokens that the loop over links goes on with. -/
theorem isLink_iff {token : Token} : token.IsLink ↔ ∃ link, linkOf? token = some link := by
  constructor
  · intro h
    cases h <;> exact ⟨_, rfl⟩
  · intro h
    obtain ⟨link, h⟩ := h
    unfold linkOf? at h
    split at h
    · exact .operator _
    · exact .in_
    · exact .instanceof
    · cases h

/-- The links of a chain by precedence are links. Induction on the reading: the links of a right
operand follow the link in front of it. -/
theorem LinksAt.derives {loosest : Precedence} {bound : Nat} {us : List Token}
    (h : LinksAt loosest bound us) : Derives .links us := by
  induction h with
  | none => exact .noLink
  | link _ hlink _ _ hfirst _ ihbefore ihinner =>
    exact ihbefore.links_append (.link (isLink_iff.mpr ⟨_, hlink⟩) hfirst ihinner)

theorem Cursor.CoversChain.binary {loosest : Precedence} {c d : Cursor} (h : c.CoversChain loosest d) :
    c.Covers .binary d := by
  obtain ⟨first, us, _, hreads, hfirst, hlinks, _⟩ := h
  exact ⟨first ++ us, hreads, .binary hfirst hlinks.derives⟩

/-- What makes an assignment are the tokens for which there is a construct to report. -/
theorem isAssignment_iff {token : Token} :
    token.IsAssignment ↔ ∃ construct, assigned? token = some construct := by
  constructor
  · intro h
    cases h <;> exact ⟨_, rfl⟩
  · intro h
    obtain ⟨construct, h⟩ := h
    unfold assigned? at h
    split at h
    · exact .assign
    · exact .arrow
    · cases h

/-- The rule for names reads one token, which is a name. -/
theorem propertyName_sound (c : Cursor) :
    Yields (propertyName c) fun taken => ∃ name, c.Reads [name] taken.next ∧ name.IsName := by
  unfold propertyName
  split
  · exact .error
  · rename_i token _
    split
    · exact .error
    · rename_i hname
      refine (advance_reads _).bind fun taken htaken => ?_
      exact .ok ⟨token, htaken, isName_iff.mpr ⟨_, hname⟩⟩

/-- Whether escapes are in order does not depend on where their string stands; the place is only for
the error. -/
theorem exists_decodeEscapes_iff {raw : String} {position : Nat} :
    (∃ value, decodeEscapes raw position = .ok value) ↔
      ∃ characters, Escape.decode raw.toList = .ok characters := by
  unfold decodeEscapes
  cases Escape.decode raw.toList with
  | ok characters => exact iff_of_true ⟨_, rfl⟩ ⟨_, rfl⟩
  | error escape => exact iff_of_false (by rintro ⟨_, ⟨⟩⟩) (by rintro ⟨_, ⟨⟩⟩)

/-- At the closing bracket the loop over items is a step over the bracket. The loop checks for it in
front of every item, which is why a comma may stand behind the last one. -/
theorem arrayItems_close {rules : Rules} {c : Cursor} (h : c.token? = some (.mark .rightBracket)) :
    arrayItems rules c = c.advance h := by
  rw [arrayItems]
  split
  · rfl
  · next hcomma => cases h.symm.trans hcomma
  · next hbracket _ htoken =>
    cases h.symm.trans htoken
    exact absurd rfl hbracket
  · next hnone => cases h.symm.trans hnone

/-- The same for the loop over properties and the closing brace. -/
theorem objectProperties_close {rules : Rules} {c : Cursor}
    (h : c.token? = some (.mark .rightBrace)) : objectProperties rules c = c.advance h := by
  rw [objectProperties]
  split
  · rfl
  · next hbrace htoken =>
    cases h.symm.trans htoken
    exact absurd rfl hbrace
  · next hnone => cases h.symm.trans hnone

section
variable {rules : Rules} (hrules : rules.Sound)
include hrules

/-- The rest of a sequence is an expression behind a comma, if there is one. Stated with both
possibilities, as the rule in front of it already knows which one it is: without a comma a sequence
is one assignment, and with a comma it is an assignment and a sequence. -/
theorem sequenceRest_sound (c : Cursor) :
    Yields (sequenceRest rules c) fun kept => ∃ ts, c.Reads ts kept.next ∧
      (ts = [] ∧ c.token? ≠ some (.mark .comma) ∨
        ∃ us, ts = .mark .comma :: us ∧ Derives .expression us) := by
  rw [sequenceRest]
  split
  · refine (advance_reads _).bind fun comma hcomma => ?_
    refine (hrules.assignment comma.next).bind fun item hitem => ?_
    obtain ⟨⟨ts, hts, hderives⟩, _⟩ := hitem
    have shorter := Nat.lt_trans item.lt comma.lt
    refine (sequenceRest_sound item.next).bind fun rest hrest => ?_
    obtain ⟨vs, hvs, hrest⟩ := hrest
    refine .ok ⟨_, hcomma.cons (hts.trans hvs), .inr ⟨_, rfl, ?_⟩⟩
    rcases hrest with ⟨rfl, _⟩ | ⟨us, rfl, hmore⟩
    · rw [List.append_nil]
      exact .expression hderives
    · exact .sequence hderives hmore
  · rename_i hcomma
    exact .ok ⟨[], .nil c, .inl ⟨rfl, hcomma⟩⟩
termination_by c.remaining

/-- An expression is an assignment, or one with the rest of a sequence behind it. -/
theorem sequence_sound : Rule.Sound .expression (sequence rules) := by
  intro c
  unfold sequence
  refine (hrules.assignment c).bind fun first hfirst => ?_
  obtain ⟨⟨ts, hts, hderives⟩, _⟩ := hfirst
  split
  · rename_i hcomma
    refine (sequenceRest_sound hrules first.next).bind fun rest hrest => ?_
    obtain ⟨vs, hvs, hrest⟩ := hrest
    rcases hrest with ⟨_, hother⟩ | ⟨us, rfl, hmore⟩
    · exact absurd hcomma hother
    · exact .ok ⟨_, hts.trans hvs, .sequence hderives hmore⟩
  · exact .ok ⟨ts, hts, .expression hderives⟩

/-- **The loop over the items of an array**, up to and with its bracket. One turn reads a hole, or
an item with a comma behind it, or the last item; a comma where an item could be leaves a hole. The
induction is on what remains of the source, which every turn makes shorter. -/
theorem arrayItems_sound (c : Cursor) :
    Yields (arrayItems rules c) fun taken => ∃ ts,
      c.Reads (ts ++ [.mark .rightBracket]) taken.next ∧ Derives .elements ts := by
  rw [arrayItems]
  split
  · refine (advance_reads _).mono fun taken htaken => ?_
    exact ⟨[], htaken, .noElement⟩
  · refine (advance_reads _).bind fun comma hcomma => ?_
    have shorter := comma.lt
    refine (arrayItems_sound comma.next).bind fun rest hrest => ?_
    obtain ⟨ts, hts, hderives⟩ := hrest
    exact .ok ⟨_, hcomma.cons hts, .hole hderives⟩
  · refine (hrules.assignment c).bind fun item hitem => ?_
    obtain ⟨⟨ts, hts, hderives⟩, _⟩ := hitem
    have shorter := item.lt
    split
    · refine (advance_reads _).bind fun comma hcomma => ?_
      have shorter := Nat.lt_trans comma.lt shorter
      refine (arrayItems_sound comma.next).bind fun rest hrest => ?_
      obtain ⟨us, hus, hmore⟩ := hrest
      refine .ok ⟨ts ++ .mark .comma :: us, ?_, .element hderives hmore⟩
      rw [List.append_assoc]
      exact hts.trans (hcomma.cons hus)
    · rename_i hclose
      -- at the bracket the loop ends, so the item was the last one
      rw [arrayItems_close hclose]
      refine (advance_reads hclose).bind fun close hclose => ?_
      exact .ok ⟨ts, hts.trans hclose, .lastElement hderives⟩
    · exact .error
  · exact .error
termination_by c.remaining

/-- **A key and what is read behind it are a property.** Behind an identifier nothing need follow;
behind every other key there is a colon and a value. A comma and a brace end the rule without a
value, and the argument for them is the same. -/
theorem propertyValue_sound (alone : Bool) (c : Cursor) :
    Yields (propertyValue rules alone c) fun kept => ∃ ts, c.Reads ts kept.next ∧
      ∀ key, propertyKey? key = some alone → Derives .property (key :: ts) := by
  -- nothing follows the key, which is the outcome at a comma and at a brace
  have hshorthand : Yields (if alone then .ok ⟨(), c, Nat.le_refl _⟩
      else .error (c.expected "':' after property name") : Except SyntaxError (Kept c Unit))
      fun kept => ∃ ts, c.Reads ts kept.next ∧
        ∀ key, propertyKey? key = some alone → Derives .property (key :: ts) := by
    split
    · rename_i halone
      refine .ok ⟨[], .nil c, fun key hkey => ?_⟩
      obtain ⟨name, rfl⟩ := propertyKey?_eq_some_true_iff.mp (halone ▸ hkey)
      exact .shorthand name
    · exact .error
  unfold propertyValue
  split
  · refine (advance_reads _).bind fun colon hcolon => ?_
    refine (hrules.assignment colon.next).bind fun value hvalue => ?_
    obtain ⟨⟨ts, hts, hderives⟩, _⟩ := hvalue
    refine .ok ⟨_, hcolon.cons hts, fun key hkey => ?_⟩
    exact .property (isKey_iff.mpr ⟨_, hkey⟩) hderives
  · exact hshorthand
  · exact hshorthand
  · exact .error

/-- **The loop over the properties of an object**, up to and with its brace. As the loop of
`arrayItems_sound`, but without holes, and with a token in front of each value that is taken as its
key whatever follows. -/
theorem objectProperties_sound (c : Cursor) :
    Yields (objectProperties rules c) fun taken => ∃ ts,
      c.Reads (ts ++ [.mark .rightBrace]) taken.next ∧ Derives .properties ts := by
  rw [objectProperties]
  split
  · refine (advance_reads _).mono fun taken htaken => ?_
    exact ⟨[], htaken, .noProperty⟩
  · rename_i token _ _
    split
    · exact .error
    · rename_i halone
      refine (advance_reads _).bind fun key hkey => ?_
      refine (propertyValue_sound hrules _ key.next).bind fun value hvalue => ?_
      obtain ⟨ts, hts, hderives⟩ := hvalue
      have hproperty := hderives token halone
      have shorter := Nat.lt_of_le_of_lt value.le key.lt
      split
      · refine (advance_reads _).bind fun comma hcomma => ?_
        have shorter := Nat.lt_trans comma.lt shorter
        refine (objectProperties_sound comma.next).bind fun rest hrest => ?_
        obtain ⟨us, hus, hmore⟩ := hrest
        refine .ok ⟨(token :: ts) ++ .mark .comma :: us, ?_, .properties hproperty hmore⟩
        rw [List.append_assoc]
        exact (hkey.cons hts).trans (hcomma.cons hus)
      · rename_i hclose
        -- at the brace the loop ends, so the property was the last one
        rw [objectProperties_close hclose]
        refine (advance_reads hclose).bind fun close hclose => ?_
        exact .ok ⟨token :: ts, (hkey.cons hts).trans hclose, .lastProperty hproperty⟩
      · exact .error
  · exact .error
termination_by c.remaining

/-- **A primary expression is a token of its own or something in brackets.** The rule looks at one
token, and there is a case for each kind of token that it knows. A string is read only if its
escapes are, so its case uses `exists_decodeEscapes_iff`. -/
theorem primary_sound : Rule.Sound .primary (primary rules) := by
  intro c
  unfold primary
  split
  · exact .error
  · rename_i token h
    -- all tokens of their own are read in the same way, whatever the node
    have hatom : ∀ node : Node, token.IsAtom →
        Yields (c.advance h >>= fun taken => pure (⟨node, taken.next, taken.lt⟩ : Taken c Node))
          fun taken => c.Covers .primary taken.next := by
      intro node hatom
      refine (advance_reads h).bind fun taken htaken => ?_
      exact .ok ⟨[token], htaken, .atom hatom⟩
    dsimp only
    -- one case for each kind of token, in the order of the rule
    split
    · exact hatom _ (.number _)
    · refine (Yields.self _).bind fun value hvalue => ?_
      exact hatom _ (.string (exists_decodeEscapes_iff.mp ⟨value, hvalue⟩))
    · exact hatom _ (.boolean _)
    · exact hatom _ (.identifier _)
    · refine (advance_reads h).bind fun taken htaken => ?_
      exact .ok ⟨_, htaken, .atom .null⟩
    · refine (advance_reads h).bind fun taken htaken => ?_
      exact .ok ⟨_, htaken, .atom .this⟩
    · refine (advance_reads h).bind fun first hfirst => ?_
      refine (arrayItems_sound hrules first.next).bind fun rest hrest => ?_
      obtain ⟨ts, hts, hderives⟩ := hrest
      exact .ok ⟨_, hfirst.cons hts, .array hderives⟩
    · refine (advance_reads h).bind fun first hfirst => ?_
      refine (objectProperties_sound hrules first.next).bind fun rest hrest => ?_
      obtain ⟨ts, hts, hderives⟩ := hrest
      exact .ok ⟨_, hfirst.cons hts, .object hderives⟩
    · refine (advance_reads h).bind fun opening hopening => ?_
      refine (sequence_sound hrules opening.next).bind fun inner hinner => ?_
      obtain ⟨ts, hts, hderives⟩ := hinner
      refine (expect_reads _ inner.next).bind fun closing hclosing => ?_
      exact .ok ⟨_, hopening.cons (hts.trans hclosing), .parentheses hderives⟩
    · exact .error
    · exact .error

/-- **The loop over arguments**, up to and with the parenthesis. A comma may stand behind the last
one, and none without an argument in front of it. So a turn starts with an argument, unlike a turn
of `arrayItems_sound`. -/
theorem argumentsFrom_sound (read : List Expr) (depth : Nat) (c : Cursor) :
    Yields (argumentsFrom rules read depth c) fun taken => ∃ ts,
      c.Reads (ts ++ [.mark .rightParen]) taken.next ∧ Derives .arguments ts := by
  rw [argumentsFrom]
  refine (hrules.assignment c).bind fun argument hargument => ?_
  obtain ⟨⟨ts, hts, hderives⟩, _⟩ := hargument
  have shorter := argument.lt
  split
  · refine (advance_reads _).bind fun comma hcomma => ?_
    have shorter := Nat.lt_trans comma.lt shorter
    split
    · refine (advance_reads _).bind fun closing hclosing => ?_
      refine .ok ⟨ts ++ [.mark .comma], ?_, .argument hderives .noArgument⟩
      rw [List.append_assoc]
      exact hts.trans (hcomma.cons hclosing)
    · refine (argumentsFrom_sound _ _ comma.next).bind fun rest hrest => ?_
      obtain ⟨us, hus, hmore⟩ := hrest
      refine .ok ⟨ts ++ .mark .comma :: us, ?_, .argument hderives hmore⟩
      rw [List.append_assoc]
      exact hts.trans (hcomma.cons hus)
  · refine (advance_reads _).bind fun closing hclosing => ?_
    exact .ok ⟨ts, hts.trans hclosing, .lastArgument hderives⟩
  · exact .error
termination_by c.remaining

/-- A list of arguments: none, or the loop. -/
theorem arguments_sound (c : Cursor) :
    Yields (arguments rules c) fun taken => ∃ ts,
      c.Reads (ts ++ [.mark .rightParen]) taken.next ∧ Derives .arguments ts := by
  unfold arguments
  split
  · refine (advance_reads _).bind fun closing hclosing => ?_
    exact .ok ⟨[], hclosing, .noArgument⟩
  · exact argumentsFrom_sound hrules [] 0 c

/-- **The loop over accesses**: members, elements and calls, each with what it stands behind as its
base. The limit on the depth of trees can end the loop at any turn, which is an error and of no
concern here. -/
theorem accesses_sound (left : Node) (c : Cursor) :
    Yields (accesses rules left c) fun kept => c.Covers .accesses kept.next := by
  rw [accesses]
  split
  · refine (advance_reads _).bind fun dot hdot => ?_
    refine (propertyName_sound dot.next).bind fun name hname => ?_
    obtain ⟨token, htoken, hname⟩ := hname
    have shorter := Nat.lt_trans name.lt dot.lt
    refine (Yields.self _).bind fun node _ => ?_
    refine (accesses_sound node name.next).bind fun rest hrest => ?_
    obtain ⟨ts, hts, hderives⟩ := hrest
    exact .ok ⟨_, hdot.cons (htoken.cons hts), .member hname hderives⟩
  · refine (advance_reads _).bind fun opening hopening => ?_
    refine (sequence_sound hrules opening.next).bind fun inner hinner => ?_
    obtain ⟨ts, hts, hinner⟩ := hinner
    refine (expect_reads _ inner.next).bind fun closing hclosing => ?_
    have shorter := Nat.lt_trans closing.lt (Nat.lt_trans inner.lt opening.lt)
    refine (Yields.self _).bind fun node _ => ?_
    refine (accesses_sound node closing.next).bind fun rest hrest => ?_
    obtain ⟨us, hus, hderives⟩ := hrest
    exact .ok ⟨_, hopening.cons (hts.trans (hclosing.cons hus)), .index hinner hderives⟩
  · refine (advance_reads _).bind fun opening hopening => ?_
    refine (arguments_sound hrules opening.next).bind fun list hlist => ?_
    obtain ⟨ts, hts, hlist⟩ := hlist
    have shorter := Nat.lt_trans list.lt opening.lt
    refine (Yields.self _).bind fun node _ => ?_
    refine (accesses_sound node list.next).bind fun rest hrest => ?_
    obtain ⟨us, hus, hderives⟩ := hrest
    refine .ok ⟨.mark .leftParen :: (ts ++ .mark .rightParen :: us), ?_, .call hlist hderives⟩
    -- the grammar has the parenthesis in front of the accesses, the rule behind the arguments
    rw [List.append_cons ts]
    exact hopening.cons (hts.trans hus)
  · exact .ok ⟨[], .nil c, .noAccess⟩
termination_by c.remaining

/-- A primary expression with its accesses is an operand. -/
theorem accessed_sound : Rule.Sound .unary (accessed rules) := by
  intro c
  unfold accessed
  refine (primary_sound hrules c).bind fun first hfirst => ?_
  obtain ⟨ts, hts, hprimary⟩ := hfirst
  refine (accesses_sound hrules first.value first.next).bind fun rest hrest => ?_
  obtain ⟨us, hus, haccesses⟩ := hrest
  exact .ok ⟨ts ++ us, hts.trans hus, .accessed hprimary haccesses⟩

/-- An operand may have prefix operators in front of it. A minus sign in front of a number is folded
into the number, and then the accesses behind it belong to the negative number; the tokens are those
of a prefix operator all the same. -/
theorem unary_sound : Rule.Sound .unary (unary rules) := by
  intro c
  unfold unary
  split
  · exact accessed_sound hrules c
  · rename_i sign _
    split
    · exact accessed_sound hrules c
    · rename_i construct hprefixed
      have hsign := isPrefix_iff.mpr ⟨_, hprefixed⟩
      refine (advance_reads _).bind fun first hfirst => ?_
      -- an operand behind the sign, whatever the source of the construct
      have hoperand : ∀ source, Yields (rules.unary first.next >>= fun operand =>
          pure (⟨unsupported construct source operand.next, operand.next,
            Nat.lt_trans operand.lt first.lt⟩ : Taken c Node))
          fun taken => c.Covers .unary taken.next := by
        intro source
        refine (hrules.unary first.next).bind fun operand hoperand => ?_
        obtain ⟨ts, hts, hderives⟩ := hoperand
        exact .ok ⟨sign :: ts, hfirst.cons hts, .prefixed hsign hderives⟩
      split
      · split
        · -- a number behind the sign is an operand like any other
          refine (advance_reads _).bind fun number hnumber => ?_
          refine (accesses_sound hrules _ number.next).bind fun rest hrest => ?_
          obtain ⟨us, hus, haccesses⟩ := hrest
          refine .ok ⟨_, hfirst.cons (hnumber.trans hus), .prefixed hsign ?_⟩
          exact .accessed (.atom (.number _)) haccesses
        · exact hoperand _
      · exact hoperand _

/-- **The loop over operators** goes on with the links `us` that it has read. The bound on the next
link is what the right operand in front of it left behind, so it is known at each turn from the turn
before. At the end no link follows that binds as tightly as the loosest one asked for. -/
theorem links_sound {loosest : Precedence} {bound : Nat} {us : List Token}
    (hlinks : LinksAt loosest bound us) (origin : Nat) (left : Node) (c : Cursor)
    (hbound : c.LinksBelow bound) :
    Yields (links rules loosest origin left c) fun kept => ∃ ts bound', c.Reads ts kept.next ∧
      LinksAt loosest bound' (us ++ ts) ∧ kept.next.LinksBelow loosest.level := by
  -- all ways to end the loop are alike: no further links are read
  have hstop : c.LinksBelow loosest.level → ∃ ts bound', c.Reads ts c ∧
      LinksAt loosest bound' (us ++ ts) ∧ c.LinksBelow loosest.level := by
    intro hbelow
    refine ⟨[], bound, .nil c, ?_, hbelow⟩
    rwa [List.append_nil]
  rw [links]
  split
  · rename_i hnone
    refine .ok (hstop fun token htoken => ?_)
    cases hnone.symm.trans htoken
  · rename_i token htoken
    split
    · rename_i hnone
      refine .ok (hstop fun other hother link hlink => ?_)
      cases htoken.symm.trans hother
      cases hnone.symm.trans hlink
    · rename_i operator? precedence hlinked
      split
      · rename_i hloose
        refine .ok (hstop fun other hother link hlink => ?_)
        cases htoken.symm.trans hother
        cases hlinked.symm.trans hlink
        exact hloose
      · rename_i htight
        refine (advance_reads _).bind fun link hlink => ?_
        refine (hrules.operand _ link.next).bind fun right hright => ?_
        obtain ⟨first, inner, _, hts, hfirst, hinner, hbelow⟩ := hright
        have shorter := Nat.lt_trans right.lt link.lt
        -- one link more, with its right operand, binds tightly enough
        have hmore : LinksAt loosest precedence.ofRightOperand.level
            (us ++ token :: (first ++ inner)) :=
          .link hlinks hlinked (Nat.le_of_not_lt htight) (hbound token htoken _ hlinked) hfirst hinner
        have hchain : ∀ node, Yields (links rules loosest origin node right.next) fun kept =>
            ∃ ts bound', c.Reads ts kept.next ∧ LinksAt loosest bound' (us ++ ts) ∧
              kept.next.LinksBelow loosest.level := by
          intro node
          refine (links_sound hmore origin node right.next hbelow).mono fun rest hrest => ?_
          obtain ⟨vs, bound', hvs, hall, hlast⟩ := hrest
          rw [List.append_assoc] at hall
          exact ⟨_, bound', hlink.cons (hts.trans hvs), hall, hlast⟩
        split
        · refine (Yields.self _).bind fun node _ => ?_
          exact (hchain node).bind fun rest hrest => .ok hrest
        · exact (hchain _).bind fun rest hrest => .ok hrest
termination_by c.remaining

/-- A chain is an operand with the links that the loop reads. In front of the first link there is no
bound. -/
theorem binary_sound (loosest : Precedence) (c : Cursor) :
    Yields (binary rules loosest c) fun taken => c.CoversChain loosest taken.next := by
  unfold binary
  refine (unary_sound hrules c).bind fun first hfirst => ?_
  obtain ⟨ts, hts, hunary⟩ := hfirst
  refine (links_sound hrules (.none loosest) _ first.value first.next (LinksBelow.any _)).bind
    fun rest hrest => ?_
  obtain ⟨us, bound, hus, hlinks, hbelow⟩ := hrest
  exact .ok ⟨ts, us, bound, hts.trans hus, hunary, hlinks, hbelow⟩

/-- A conditional in front of an assignment has no outcomes to choose from: the second one would
take the assignment as well. -/
theorem conditional_sound (c : Cursor) :
    Yields (conditional rules c) fun taken => ∃ ts, c.Reads ts taken.next ∧
      Derives .conditional ts ∧ (Derives .binary ts ∨ taken.next.NotAssigned) := by
  unfold conditional
  refine (hrules.operand _ c).bind fun test htest => ?_
  obtain ⟨ts, hts, htest⟩ := htest.binary
  split
  · refine (advance_reads _).bind fun question hquestion => ?_
    refine (hrules.assignment question.next).bind fun consequent hconsequent => ?_
    obtain ⟨⟨us, hus, hconsequent⟩, _⟩ := hconsequent
    refine (expect_reads _ consequent.next).bind fun colon hcolon => ?_
    refine (hrules.assignment colon.next).bind fun alternate halternate => ?_
    obtain ⟨⟨vs, hvs, halternate⟩, hlast⟩ := halternate
    refine .ok ⟨_, hts.trans (hquestion.cons (hus.trans (hcolon.cons hvs))), ?_, .inr hlast⟩
    exact .choice htest hconsequent halternate
  · exact .ok ⟨ts, hts, .conditional htest, .inl htest⟩

/-- **An assignment is a conditional, or one with a sign and an assignment behind it.** Either way
no sign follows, which is known of a conditional from the token looked at and of an assignment from
its last part. -/
theorem assignment_sound (c : Cursor) :
    Yields (assignment rules c) fun taken =>
      c.Covers .assignment taken.next ∧ taken.next.NotAssigned := by
  unfold assignment
  refine (conditional_sound hrules c).bind fun target htarget => ?_
  obtain ⟨ts, hts, htarget, _⟩ := htarget
  split
  · rename_i hnone
    refine .ok ⟨⟨ts, hts, .assignment htarget⟩, fun token htoken => ?_⟩
    cases hnone.symm.trans htoken
  · rename_i token htoken
    split
    · rename_i hnone
      refine .ok ⟨⟨ts, hts, .assignment htarget⟩, fun other hother => ?_⟩
      cases htoken.symm.trans hother
      exact hnone
    · rename_i hlinked
      refine (advance_reads _).bind fun link hlink => ?_
      refine (hrules.assignment link.next).bind fun value hvalue => ?_
      obtain ⟨⟨us, hus, hvalue⟩, hlast⟩ := hvalue
      refine .ok ⟨⟨_, hts.trans (hlink.cons hus), ?_⟩, hlast⟩
      exact .assigned htarget (isAssignment_iff.mpr ⟨_, hlinked⟩) hvalue

end

/-- Rules that may be entered to any depth are sound. Induction on how many may be entered: with
none, each of them fails, and one more is put together from those that may be entered below it. -/
theorem Rules.within_sound (n : Nat) : (Rules.within n).Sound := by
  induction n with
  | zero => exact ⟨fun _ => .error, fun _ _ => .error, fun _ => .error⟩
  | succ n ih => exact ⟨assignment_sound ih, binary_sound ih, unary_sound ih⟩

/-! ## Whole sources

A program is read from its first token to the end of the source. A fault of the scanner behind the
last token would have stopped the step over that token. -/

/-- The loop over semicolons reads semicolons only. How many there are does not matter. -/
theorem semicolons_sound (c : Cursor) :
    Yields (semicolons c) fun kept =>
      ∃ count, c.Reads (List.replicate count (.mark .semicolon)) kept.next := by
  rw [semicolons]
  split
  · refine (advance_reads _).bind fun semicolon hsemicolon => ?_
    have shorter := semicolon.lt
    refine (semicolons_sound semicolon.next).bind fun rest hrest => ?_
    obtain ⟨count, hcount⟩ := hrest
    exact .ok ⟨count + 1, hsemicolon.cons hcount⟩
  · exact .ok ⟨0, .nil c⟩
termination_by c.remaining

/-- Where no token follows and no fault is, the source ends. -/
theorem Cursor.exists_finished {c : Cursor} (htoken : c.token? = none) (hfault : c.fault? = none) :
    c.tokens = [] ∧ ∃ position, c.ending = .finished position := by
  obtain ⟨source, lexemes, ending, previousStop⟩ := c
  cases lexemes with
  | cons lexeme lexemes => simp [token?] at htoken
  | nil =>
    cases ending with
    | finished position => exact ⟨rfl, position, rfl⟩
    | failed error => simp [fault?] at hfault

/-- An accepted source is a program and has no fault. The tokens of the three parts are put
together, and the brace that must not open the expression was looked at between the first and the
second one. -/
theorem program_sound {c : Cursor} (hfault : c.fault? = none) :
    Yields (program c) fun _ => Program c.tokens ∧ ∃ position, c.ending = .finished position := by
  unfold program
  refine (semicolons_sound c).bind fun before hbefore => ?_
  obtain ⟨first, hfirst⟩ := hbefore
  split
  · exact .error
  · exact .error
  · rename_i hbrace htoken
    refine (sequence_sound (Rules.within_sound _) before.next).bind fun expr hexpr => ?_
    obtain ⟨ts, hts, hderives⟩ := hexpr
    refine (semicolons_sound expr.next).bind fun behind hbehind => ?_
    obtain ⟨last, hlast⟩ := hbehind
    split
    · rename_i hend
      have hall := hfirst.trans (hts.trans hlast)
      obtain ⟨hnone, position, hposition⟩ :=
        Cursor.exists_finished hend (hall.fault?_eq hfault)
      refine .ok ⟨⟨first, ts, last, ?_, hderives, ?_⟩, position, hall.ending_eq ▸ hposition⟩
      · rw [hall.tokens_eq, hnone, List.append_nil, List.append_assoc]
      · intro hhead
        cases ts with
        | nil => cases hhead
        | cons first ts =>
          -- the brace would be the token in front of the expression
          cases hhead
          have hbefore : before.next.token? = some (.mark .leftBrace) := by
            rw [token?_eq_head?, hts.tokens_eq]
            rfl
          cases hbefore.symm.trans htoken
          exact hbrace rfl
    · split <;> exact .error

end Parser

end Stencil
