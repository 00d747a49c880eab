import Stencil.Proofs.Grammar

/-!
# What the rules of the parser keep

The rules call one another, and three of them can contain themselves. A property of the trees that
come out of them is proved where trees are made: at a leaf, at the leaf of a construct without a
value, whose tokens are known, and at the four nodes with parts, whose tracked depth is checked on
the spot. `Invariant` lists these places, and that is all there is to prove about a property:

* **`Rules.Keep`** — the property holds of what the rules yield that can contain themselves.
* **`accesses_keeps`**, **`links_keeps`**, … — one lemma for each of the other rules, over rules
  that keep the property. The loops go by their own induction, from one token to a later one.
* **`Rules.within_keep`** — the recursion: rules that may be entered `n` times inside one another.
* **`root_keeps`** — the property holds of the root of every source that is accepted.
-/

namespace Stencil.Parser

open Cursor

/-! ## Invariants

A property may speak of places as well as of trees, since a leaf is made of the token at a place and
a construct of all tokens between two places. What the fields are given is all that is known where a
tree is made: the token, the tokens, the name, and that the depth has passed the check. -/

/-- The tree of a leaf that is made of the token at `c`. -/
inductive Leaf (c : Cursor) : Expr → Prop where
  | number {text : String} (h : c.token? = some (.number text)) : Leaf c (.number text)
  /-- A number behind a minus sign. -/
  | negative {text : String} (h : c.token? = some (.number text)) : Leaf c (.number ("-" ++ text))
  | string {raw value : String} (h : c.token? = some (.string raw))
      (hvalue : decodeEscapes raw c.position = .ok value) : Leaf c (.string value)
  | boolean {value : Bool} (h : c.token? = some (.boolean value)) : Leaf c (.boolean value)
  | identifier {name : String} (h : c.token? = some (.identifier name)) : Leaf c (.identifier name)

/-- A name behind a dot that is made of the token at `c`. -/
inductive Named (c : Cursor) : String → Prop where
  | token {token : Token} {name : String} (h : c.token? = some token)
      (hname : propertyName? token = some name) : Named c name

/-- The greatest depth that is tracked for several nodes. -/
def deepest : List Node → Nat
  | [] => 0
  | node :: nodes => max node.depth (deepest nodes)

/-- What is true of places and of nodes all along the way of a parser. -/
structure Invariant (place : Cursor → Prop) (holds : Node → Prop) : Prop where
  advance {c : Cursor} {token : Token} (h : c.token? = some token) (hc : place c) :
    Yields (c.advance h) fun taken => place taken.next
  leaf {c : Cursor} {expr : Expr} (hc : place c) (hleaf : Leaf c expr) : holds ⟨expr, 1⟩
  unsupported {c next : Cursor} {construct : String} {ts : List Token} (hc : place c)
    (hnext : place next) (hreads : c.Reads ts next) (hmade : Construct construct ts) :
    holds (unsupported construct c.position next)
  member {c : Cursor} {base : Node} {property : String} (hc : place c) (hname : Named c property)
    (hbase : holds base) (hdepth : base.depth + 1 ≤ maxDepth) :
    holds ⟨.member base.expr property, base.depth + 1⟩
  index {base element : Node} (hbase : holds base) (helement : holds element)
    (hdepth : max base.depth element.depth + 1 ≤ maxDepth) :
    holds ⟨.index base.expr element.expr, max base.depth element.depth + 1⟩
  call {callee : Node} {arguments : List Node} (hcallee : holds callee)
    (harguments : ∀ argument ∈ arguments, holds argument)
    (hdepth : max callee.depth (deepest arguments) + 1 ≤ maxDepth) :
    holds ⟨.call callee.expr (arguments.map Node.expr), max callee.depth (deepest arguments) + 1⟩
  binary {left right : Node} (operator : BinaryOperator) (hleft : holds left) (hright : holds right)
    (hdepth : max left.depth right.depth + 1 ≤ maxDepth) :
    holds ⟨.binary operator left.expr right.expr, max left.depth right.depth + 1⟩

/-- Behind what the rule takes at a `place` is a `place` again, and what it takes `holds`. -/
def Rule.Keeps {α : Type} (place : Cursor → Prop) (holds : α → Prop) (rule : Rule α) : Prop :=
  ∀ c, place c → Yields (rule c) fun taken => place taken.next ∧ holds taken.value

/-- The rules that can contain themselves keep an invariant. -/
structure Rules.Keep (place : Cursor → Prop) (holds : Node → Prop) (rules : Rules) : Prop where
  assignment : Rule.Keeps place holds rules.assignment
  operand (precedence : Precedence) : Rule.Keeps place holds (rules.operand precedence)
  unary : Rule.Keeps place holds rules.unary

variable {place : Cursor → Prop} {holds : Node → Prop} {rules : Rules}

/-! ## Tokens

A place behind a place is a place. Every token is taken by one function, so the first field of the
invariant is used through these three lemmas and by rules that take a token themselves. -/

section
variable (hinvariant : Invariant place holds)
include hinvariant

/-- A mark is taken, or there is an error and nothing to show. -/
theorem expect_keeps (mark : Mark) (c : Cursor) (hc : place c) :
    Yields (Cursor.expect mark c) fun taken => place taken.next := by
  unfold Cursor.expect
  split
  · split
    · exact hinvariant.advance _ hc
    · exact .error
  · exact .error

/-- The name behind a dot comes with the token that it is made of. -/
theorem propertyName_keeps (c : Cursor) (hc : place c) :
    Yields (propertyName c) fun taken => place taken.next ∧ Named c taken.value := by
  unfold propertyName
  split
  · exact .error
  · rename_i htoken
    split
    · exact .error
    · rename_i hname
      refine (hinvariant.advance _ hc).bind fun taken htaken => ?_
      exact .ok ⟨htaken, .token htoken hname⟩

/-- Semicolons in front of and behind an expression are skipped one by one. The induction is on what
remains, as the recursion is. -/
theorem semicolons_keeps (c : Cursor) (hc : place c) :
    Yields (semicolons c) fun kept => place kept.next := by
  rw [semicolons]
  split
  · refine (hinvariant.advance _ hc).bind fun semicolon hsemicolon => ?_
    have shorter := semicolon.lt
    refine (semicolons_keeps semicolon.next hsemicolon).bind fun rest hrest => ?_
    exact .ok hrest
  · exact .ok hc
termination_by c.remaining

end

/-! ## Depths and arguments

A node with parts is made first and checked then, so the invariant gets the bound on its depth from
the check. Arguments are kept in reverse, as trees and their greatest depth; `Arguments` is the list
of nodes behind both. -/

/-- The check lets a node through unchanged. -/
theorem checkDepth_eq_ok_iff {node result : Node} {c : Cursor} :
    checkDepth node c = .ok result ↔ node.depth ≤ maxDepth ∧ result = node := by
  unfold checkDepth
  by_cases hdepth : maxDepth < node.depth
  · rw [if_pos hdepth]
    refine iff_of_false (by intro h; cases h) ?_
    intro h
    omega
  · rw [if_neg hdepth]
    constructor
    · intro h
      cases h
      exact ⟨by omega, rfl⟩
    · intro h
      rw [h.2]

/-- A node that has passed the check satisfies what nodes within the bound do. -/
theorem checkDepth_keeps {node : Node} (c : Cursor) (hnode : node.depth ≤ maxDepth → holds node) :
    Yields (checkDepth node c) holds := by
  intro result hresult
  obtain ⟨hdepth, rfl⟩ := checkDepth_eq_ok_iff.mp hresult
  exact hnode hdepth

/-- The list holds the trees of nodes that `holds` is true of, and comes with their greatest depth.
-/
def Arguments (holds : Node → Prop) (list : List Expr × Nat) : Prop :=
  ∃ nodes : List Node, list = (nodes.map Node.expr, deepest nodes) ∧ ∀ node ∈ nodes, holds node

/-- The greatest depth of two lists is the greater one of theirs. -/
theorem deepest_append (nodes rest : List Node) :
    deepest (nodes ++ rest) = max (deepest nodes) (deepest rest) := by
  induction nodes with
  | nil => simp [deepest]
  | cons node nodes ih => rw [List.cons_append, deepest, deepest, ih, Nat.max_assoc]

/-- So the order of the nodes does not matter. -/
theorem deepest_reverse (nodes : List Node) : deepest nodes.reverse = deepest nodes := by
  induction nodes with
  | nil => rfl
  | cons node nodes ih =>
    rw [List.reverse_cons, deepest_append, ih]
    simp only [deepest]
    omega

/-- The arguments are collected in reverse; the greatest depth does not mind. -/
theorem Arguments.reverse {nodes : List Node} (hnodes : ∀ node ∈ nodes, holds node) :
    Arguments holds ((nodes.map Node.expr).reverse, deepest nodes) := by
  refine ⟨nodes.reverse, ?_, ?_⟩
  · rw [List.map_reverse, deepest_reverse]
  · intro node hnode
    exact hnodes node (List.mem_reverse.mp hnode)

/-! ## The rules

Each proof follows its rule from token to token; `shorter` is the bound by which a loop goes on. The
parts of array and object literals are read and dropped, so only the place behind them counts. -/

section
variable (hinvariant : Invariant place holds) (hrules : rules.Keep place holds)
  (hsound : rules.Sound)
include hinvariant hrules

/-- The expressions behind commas are dropped, but the place behind the last of them is one. -/
theorem sequenceRest_keeps (c : Cursor) (hc : place c) :
    Yields (sequenceRest rules c) fun kept => place kept.next := by
  rw [sequenceRest]
  split
  · refine (hinvariant.advance _ hc).bind fun comma hcomma => ?_
    refine (hrules.assignment comma.next hcomma).bind fun item hitem => ?_
    have shorter := Nat.lt_trans item.lt comma.lt
    refine (sequenceRest_keeps item.next hitem.1).bind fun rest hrest => ?_
    exact .ok hrest
  · exact .ok hc
termination_by c.remaining

include hsound in
/-- Several expressions make a construct of all tokens in them; a single one is handed on. -/
theorem sequence_keeps : Rule.Keeps place holds (sequence rules) := by
  intro c hc
  unfold sequence
  refine ((hrules.assignment c hc).and (hsound.assignment c)).bind fun first hfirst => ?_
  obtain ⟨hfirst, ⟨ts, hts, hderives⟩, _⟩ := hfirst
  split
  · rename_i hcomma
    refine ((sequenceRest_keeps hinvariant hrules first.next hfirst.1).and
      (sequenceRest_sound hsound first.next)).bind fun rest hrest => ?_
    obtain ⟨hplace, _, hvs, ⟨_, hother⟩ | ⟨us, rfl, hmore⟩⟩ := hrest
    · exact absurd hcomma hother
    · exact .ok ⟨hplace,
        hinvariant.unsupported hc hplace (hts.trans hvs) (.sequence hderives hmore)⟩
  · exact .ok hfirst

/-- The items of an array and its holes, up to the bracket. They are read and dropped, so what is
kept is only that places lead to places. -/
theorem arrayItems_keeps (c : Cursor) (hc : place c) :
    Yields (arrayItems rules c) fun taken => place taken.next := by
  rw [arrayItems]
  split
  · exact hinvariant.advance _ hc
  · refine (hinvariant.advance _ hc).bind fun comma hcomma => ?_
    have shorter := comma.lt
    refine (arrayItems_keeps comma.next hcomma).bind fun rest hrest => ?_
    exact .ok hrest
  · refine (hrules.assignment c hc).bind fun item hitem => ?_
    have shorter := item.lt
    split
    · refine (hinvariant.advance _ hitem.1).bind fun comma hcomma => ?_
      have shorter := Nat.lt_trans comma.lt shorter
      refine (arrayItems_keeps comma.next hcomma).bind fun rest hrest => ?_
      exact .ok hrest
    · refine (arrayItems_keeps item.next hitem.1).bind fun rest hrest => ?_
      exact .ok hrest
    · exact .error
  · exact .error
termination_by c.remaining

/-- A value behind a colon, or none where the key may stand alone. -/
theorem propertyValue_keeps (alone : Bool) (c : Cursor) (hc : place c) :
    Yields (propertyValue rules alone c) fun kept => place kept.next := by
  unfold propertyValue
  split
  · refine (hinvariant.advance _ hc).bind fun colon hcolon => ?_
    refine (hrules.assignment colon.next hcolon).bind fun value hvalue => ?_
    exact .ok hvalue.1
  · split
    · exact .ok hc
    · exact .error
  · split
    · exact .ok hc
    · exact .error
  · exact .error

/-- The properties of an object, up to the brace. A key is one token, and what stands behind it is
`propertyValue_keeps`. -/
theorem objectProperties_keeps (c : Cursor) (hc : place c) :
    Yields (objectProperties rules c) fun taken => place taken.next := by
  rw [objectProperties]
  split
  · exact hinvariant.advance _ hc
  · split
    · exact .error
    · refine (hinvariant.advance _ hc).bind fun key hkey => ?_
      refine (propertyValue_keeps hinvariant hrules _ key.next hkey).bind fun value hvalue => ?_
      have shorter := Nat.lt_of_le_of_lt value.le key.lt
      split
      · refine (hinvariant.advance _ hvalue).bind fun comma hcomma => ?_
        have shorter := Nat.lt_trans comma.lt shorter
        refine (objectProperties_keeps comma.next hcomma).bind fun rest hrest => ?_
        exact .ok hrest
      · refine (objectProperties_keeps value.next hvalue).bind fun rest hrest => ?_
        exact .ok hrest
      · exact .error
  · exact .error
termination_by c.remaining

include hsound in
/-- What an operand starts with: a leaf, a construct that is one token, a literal in brackets or
braces, or an expression in parentheses. All constructs are made in the same way, of the tokens that
the rule for their parts has read. -/
theorem primary_keeps : Rule.Keeps place holds (primary rules) := by
  intro c hc
  unfold primary
  split
  · exact .error
  · rename_i token h
    have hleaf : ∀ expr, Leaf c expr →
        Yields (c.advance h >>= fun taken => pure (⟨⟨expr, 1⟩, taken.next, taken.lt⟩ : Taken c Node))
          fun taken => place taken.next ∧ holds taken.value := by
      intro expr hexpr
      refine (hinvariant.advance h hc).bind fun taken htaken => ?_
      exact .ok ⟨htaken, hinvariant.leaf hc hexpr⟩
    have hfirst := (hinvariant.advance h hc).and (advance_reads h)
    dsimp only
    -- one case for each kind of token, in the order of the rule
    split
    · exact hleaf _ (.number h)
    · refine (Yields.self _).bind fun value hvalue => ?_
      exact hleaf _ (.string h hvalue)
    · exact hleaf _ (.boolean h)
    · exact hleaf _ (.identifier h)
    · refine hfirst.bind fun taken htaken => ?_
      exact .ok ⟨htaken.1, hinvariant.unsupported hc htaken.1 htaken.2 .null⟩
    · refine hfirst.bind fun taken htaken => ?_
      exact .ok ⟨htaken.1, hinvariant.unsupported hc htaken.1 htaken.2 .this⟩
    · refine hfirst.bind fun first hfirst => ?_
      refine ((arrayItems_keeps hinvariant hrules first.next hfirst.1).and
        (arrayItems_sound hsound first.next)).bind fun rest hrest => ?_
      obtain ⟨hplace, ts, hts, hderives⟩ := hrest
      exact .ok ⟨hplace,
        hinvariant.unsupported hc hplace (hfirst.2.cons hts) (.array hderives)⟩
    · refine hfirst.bind fun first hfirst => ?_
      refine ((objectProperties_keeps hinvariant hrules first.next hfirst.1).and
        (objectProperties_sound hsound first.next)).bind fun rest hrest => ?_
      obtain ⟨hplace, ts, hts, hderives⟩ := hrest
      exact .ok ⟨hplace,
        hinvariant.unsupported hc hplace (hfirst.2.cons hts) (.object hderives)⟩
    · -- parentheses make no node, so the depth is that of what stands in them
      refine (hinvariant.advance h hc).bind fun opening hopening => ?_
      refine (sequence_keeps hinvariant hrules hsound opening.next hopening).bind
        fun inner hinner => ?_
      refine (expect_keeps hinvariant _ inner.next hinner.1).bind fun closing hclosing => ?_
      exact .ok ⟨hclosing, hinner.2⟩
    · exact .error
    · exact .error

/-- **The arguments of a call**, up to the parenthesis. The loop carries the trees read so far in
reverse and the greatest depth of them; as an invariant these are a list of nodes, each of which
satisfies the property. At the end `Arguments.reverse` turns the list around. -/
theorem argumentsFrom_keeps (nodes : List Node) (hnodes : ∀ node ∈ nodes, holds node)
    (c : Cursor) (hc : place c) :
    Yields (argumentsFrom rules (nodes.map Node.expr) (deepest nodes) c) fun taken =>
      place taken.next ∧ Arguments holds taken.value := by
  rw [argumentsFrom]
  refine (hrules.assignment c hc).bind fun argument hargument => ?_
  have shorter := argument.lt
  -- what the loop carries is again the trees and the depth of nodes, now with this one in front
  have hread : ∀ node ∈ argument.value :: nodes, holds node :=
    List.forall_mem_cons.mpr ⟨hargument.2, hnodes⟩
  have hdepth : max (deepest nodes) argument.value.depth = deepest (argument.value :: nodes) :=
    Nat.max_comm _ _
  rw [hdepth]
  split
  · refine (hinvariant.advance _ hargument.1).bind fun comma hcomma => ?_
    have shorter := Nat.lt_trans comma.lt shorter
    split
    · refine (hinvariant.advance _ hcomma).bind fun closing hclosing => ?_
      exact .ok ⟨hclosing, .reverse hread⟩
    · refine (argumentsFrom_keeps _ hread comma.next hcomma).bind fun rest hrest => ?_
      exact .ok hrest
  · refine (hinvariant.advance _ hargument.1).bind fun closing hclosing => ?_
    exact .ok ⟨hclosing, .reverse hread⟩
  · exact .error
termination_by c.remaining

/-- No arguments, or some. -/
theorem arguments_keeps : Rule.Keeps place (Arguments holds) (arguments rules) := by
  intro c hc
  unfold arguments
  split
  · refine (hinvariant.advance _ hc).bind fun closing hclosing => ?_
    refine .ok ⟨hclosing, [], rfl, ?_⟩
    intro node hnode
    cases hnode
  · exact argumentsFrom_keeps hinvariant hrules [] (by simp) c hc

include hsound in
/-- **The spine behind an operand.** Each access makes a node of the one so far, and the depth of it
is checked before the loop goes on; so the loop carries one node that satisfies the property. The
three kinds of access are the three fields `member`, `index` and `call` of the invariant. -/
theorem accesses_keeps (left : Node) (hleft : holds left) (c : Cursor) (hc : place c) :
    Yields (accesses rules left c) fun kept => place kept.next ∧ holds kept.value := by
  rw [accesses]
  split
  · refine (hinvariant.advance _ hc).bind fun dot hdot => ?_
    refine (propertyName_keeps hinvariant dot.next hdot).bind fun name hname => ?_
    have shorter := Nat.lt_trans name.lt dot.lt
    refine (checkDepth_keeps _ (hinvariant.member hdot hname.2 hleft)).bind fun node hnode => ?_
    refine (accesses_keeps node hnode name.next hname.1).bind fun rest hrest => ?_
    exact .ok hrest
  · refine (hinvariant.advance _ hc).bind fun opening hopening => ?_
    refine (sequence_keeps hinvariant hrules hsound opening.next hopening).bind
      fun inner hinner => ?_
    refine (expect_keeps hinvariant _ inner.next hinner.1).bind fun closing hclosing => ?_
    have shorter := Nat.lt_trans closing.lt (Nat.lt_trans inner.lt opening.lt)
    refine (checkDepth_keeps _ (hinvariant.index hleft hinner.2)).bind fun node hnode => ?_
    refine (accesses_keeps node hnode closing.next hclosing).bind fun rest hrest => ?_
    exact .ok hrest
  · refine (hinvariant.advance _ hc).bind fun opening hopening => ?_
    refine (arguments_keeps hinvariant hrules opening.next hopening).bind fun list hlist => ?_
    have shorter := Nat.lt_trans list.lt opening.lt
    obtain ⟨hnext, nodes, hvalue, hnodes⟩ := hlist
    rw [hvalue]
    refine (checkDepth_keeps _ (hinvariant.call hleft hnodes)).bind fun node hnode => ?_
    refine (accesses_keeps node hnode list.next hnext).bind fun rest hrest => ?_
    exact .ok hrest
  · exact .ok ⟨hc, hleft⟩
termination_by c.remaining

include hsound in
/-- An operand with its accesses. -/
theorem accessed_keeps : Rule.Keeps place holds (accessed rules) := by
  intro c hc
  unfold accessed
  refine (primary_keeps hinvariant hrules hsound c hc).bind fun first hfirst => ?_
  refine (accesses_keeps hinvariant hrules hsound first.value hfirst.2 first.next hfirst.1).bind
    fun rest hrest => ?_
  exact .ok hrest

include hsound in
/-- **Prefixes.** A prefix makes a construct of the operand behind it. The one that does not is a
minus in front of a number, which makes a negative leaf that may be accessed in turn; that a minus
is followed by no number is part of what is known of the construct it makes. -/
theorem unary_keeps : Rule.Keeps place holds (unary rules) := by
  intro c hc
  have haccessed := accessed_keeps hinvariant hrules hsound c hc
  unfold unary
  split
  · exact haccessed
  · rename_i token htoken
    split
    · exact haccessed
    · rename_i construct hconstruct
      refine ((hinvariant.advance htoken hc).and (advance_reads htoken)).bind fun sign hsign => ?_
      -- a prefix that makes a construct, whichever it is; a minus only where no number follows
      have hoperand : (token = .operator .subtract → ∀ text,
            sign.next.token? ≠ some (.number text)) →
          Yields (rules.unary sign.next >>= fun operand =>
            pure (⟨unsupported construct c.position operand.next, operand.next,
              Nat.lt_trans operand.lt sign.lt⟩ : Taken c Node))
            fun taken => place taken.next ∧ holds taken.value := by
        intro hnumber
        refine ((hrules.unary sign.next hsign.1).and (hsound.unary sign.next)).bind
          fun operand hoperand => ?_
        obtain ⟨⟨hplace, _⟩, ts, hts, hderives⟩ := hoperand
        refine .ok ⟨hplace, hinvariant.unsupported hc hplace (hsign.2.cons hts)
          (.prefixed hconstruct (fun hminus text hhead => hnumber hminus text ?_) hderives)⟩
        rw [token?_eq_head?, hts.tokens_eq, List.head?_append, hhead]
        rfl
      split
      · rename_i text h
        split
        · refine (hinvariant.advance h hsign.1).bind fun number hnumber => ?_
          have hnode := hinvariant.leaf hsign.1 (.negative h)
          refine (accesses_keeps hinvariant hrules hsound _ hnode number.next hnumber).bind
            fun rest hrest => ?_
          exact .ok hrest
        · rename_i hother
          exact hoperand fun hminus => absurd hminus hother
      · rename_i hother
        exact hoperand fun _ text htext => hother text htext

include hsound in
/-- The chain starts at `origin`, which is where its leaf starts if it has no value. Behind its
first operand the links `us` have been read, and they are kept as a chain of the grammar, for a link
without a value makes a construct of all tokens up to it and not only of its own operand. -/
theorem links_keeps {loosest : Precedence} {bound : Nat} {origin : Cursor} {first us : List Token}
    (horigin : place origin) (hfirst : Derives .unary first) (hlinks : LinksAt loosest bound us)
    (left : Node) (hleft : holds left) (c : Cursor) (hc : place c)
    (hread : origin.Reads (first ++ us) c) (hbound : c.LinksBelow bound) :
    Yields (links rules loosest origin.position left c) fun kept =>
      place kept.next ∧ holds kept.value := by
  -- no token, no link, or a link that is too loose: the chain ends here
  rw [links]
  split
  · exact .ok ⟨hc, hleft⟩
  · rename_i token htoken
    split
    · exact .ok ⟨hc, hleft⟩
    · rename_i operator? precedence hlinked
      split
      · exact .ok ⟨hc, hleft⟩
      · rename_i htight
        refine ((hinvariant.advance htoken hc).and (advance_reads htoken)).bind fun link hlink => ?_
        refine ((hrules.operand _ link.next hlink.1).and (hsound.operand _ link.next)).bind
          fun right hright => ?_
        obtain ⟨hright, operand, inner, _, hts, hoperand, hinner, hbelow⟩ := hright
        have shorter := Nat.lt_trans right.lt link.lt
        have hlevel : precedence.level < bound := hbound token htoken _ hlinked
        have hmore : origin.Reads (first ++ (us ++ token :: (operand ++ inner))) right.next := by
          rw [← List.append_assoc]
          exact hread.trans (hlink.2.cons hts)
        -- the rest of the chain, whatever the link makes of the two operands
        have hchain : ∀ node, holds node →
            Yields (links rules loosest origin.position node right.next) fun kept =>
              place kept.next ∧ holds kept.value :=
          fun node hnode =>
            links_keeps horigin hfirst
              (.link hlinks hlinked (Nat.le_of_not_lt htight) hlevel hoperand hinner) node hnode
              right.next hright.1 hmore hbelow
        split
        · refine (checkDepth_keeps _ (hinvariant.binary _ hleft hright.2)).bind fun node hnode => ?_
          exact (hchain node hnode).bind fun rest hrest => .ok hrest
        · have hnode := hinvariant.unsupported horigin hright.1 hmore
            (.relational hfirst hlinks hlinked hlevel hoperand hinner)
          exact (hchain _ hnode).bind fun rest hrest => .ok hrest
termination_by c.remaining

include hsound in
/-- An operand with the links behind it. The chain starts empty. -/
theorem binary_keeps (loosest : Precedence) : Rule.Keeps place holds (binary rules loosest) := by
  intro c hc
  unfold binary
  refine ((unary_keeps hinvariant hrules hsound c hc).and (unary_sound hsound c)).bind
    fun first hfirst => ?_
  obtain ⟨hfirst, ts, hts, hderives⟩ := hfirst
  have hread : c.Reads (ts ++ []) first.next := by
    rw [List.append_nil]
    exact hts
  refine (links_keeps hinvariant hrules hsound hc hderives (.none loosest) first.value hfirst.2
    first.next hfirst.1 hread (LinksBelow.any _)).bind fun rest hrest => ?_
  exact .ok hrest

include hsound in
/-- A question mark makes a construct of the three parts. What is read of them goes into one run of
tokens from the test to the alternative. -/
theorem conditional_keeps : Rule.Keeps place holds (conditional rules) := by
  intro c hc
  unfold conditional
  refine ((hrules.operand _ c hc).and (hsound.operand _ c)).bind fun test htest => ?_
  obtain ⟨htest, hchain⟩ := htest
  obtain ⟨ts, hts, hderives⟩ := hchain.binary
  split
  · refine ((hinvariant.advance _ htest.1).and (advance_reads _)).bind fun question hquestion => ?_
    refine ((hrules.assignment _ hquestion.1).and (hsound.assignment _)).bind
      fun consequent hconsequent => ?_
    obtain ⟨hconsequent, ⟨us, hus, hfirst⟩, _⟩ := hconsequent
    refine ((expect_keeps hinvariant _ _ hconsequent.1).and (expect_reads _ _)).bind
      fun colon hcolon => ?_
    refine ((hrules.assignment _ hcolon.1).and (hsound.assignment _)).bind
      fun alternate halternate => ?_
    obtain ⟨halternate, ⟨vs, hvs, hsecond⟩, _⟩ := halternate
    have hread := hts.trans (hquestion.2.cons (hus.trans (hcolon.2.cons hvs)))
    exact .ok ⟨halternate.1,
      hinvariant.unsupported hc halternate.1 hread (.choice hderives hfirst hsecond)⟩
  · exact .ok htest

include hsound in
/-- **Assignments.** A sign of assignment makes a construct of its target and its value. The target
is a chain of operators then: behind a conditional no such sign is left, by `conditional_sound`,
since the alternative would have taken it. -/
theorem assignment_keeps : Rule.Keeps place holds (assignment rules) := by
  intro c hc
  unfold assignment
  refine ((conditional_keeps hinvariant hrules hsound c hc).and (conditional_sound hsound c)).bind
    fun target htarget => ?_
  obtain ⟨htarget, ts, hts, _, hbinary⟩ := htarget
  split
  · exact .ok htarget
  · rename_i token htoken
    split
    · exact .ok htarget
    · rename_i construct hconstruct
      refine ((hinvariant.advance htoken htarget.1).and (advance_reads htoken)).bind
        fun link hlink => ?_
      refine ((hrules.assignment _ hlink.1).and (hsound.assignment _)).bind fun value hvalue => ?_
      obtain ⟨hvalue, ⟨us, hus, hderives⟩, _⟩ := hvalue
      have hread := hts.trans (hlink.2.cons hus)
      rcases hbinary with hbinary | hnone
      · exact .ok ⟨hvalue.1,
          hinvariant.unsupported hc hvalue.1 hread (.assigned hconstruct hbinary hderives)⟩
      · cases (hnone token htoken).symm.trans hconstruct

end

/-! ## The recursion

All rules of one count are made from those of the count before, and three of them go back into the
rules. With the lemmas above as the step, the recursion is a plain induction. -/

/-- Induction on how many rules may be entered: the rules one level up keep what these keep, and
rules that must not be entered yield nothing. -/
theorem Rules.within_keep (hinvariant : Invariant place holds) (n : Nat) :
    (Rules.within n).Keep place holds := by
  induction n with
  | zero =>
    exact ⟨fun c _ => .error, fun _ c _ => .error, fun c _ => .error⟩
  | succ n ih =>
    have hsound := Rules.within_sound n
    exact ⟨assignment_keeps hinvariant ih hsound, binary_keeps hinvariant ih hsound,
      unary_keeps hinvariant ih hsound⟩

/-! ## Whole sources

The parser hands out a tree, and the depth that was tracked for it is dropped. `root` is the same
reading with the node as its result, so that lemmas on depths can be said of it. -/

/-- The node of the expression of a source, as the rules made it: the tree that `Expr.parse` hands
out together with the depth that was tracked for it. -/
def root (source : String) : Except SyntaxError Node := do
  let c ← start source
  let before ← semicolons c
  let node ← sequence (Rules.within maxNesting) before.next
  return node.value

/-- Every tree that is handed out is the tree of a root. `Expr.parse` and `root` read the same
expression from the same place, and what follows it only decides between the tree and an error. -/
theorem exists_root {source : String} {expr : Expr} (hparse : Expr.parse source = .ok expr) :
    ∃ node, root source = .ok node ∧ node.expr = expr := by
  obtain ⟨c, hstart, hprogram⟩ := bind_eq_ok_iff.mp hparse
  unfold program at hprogram
  obtain ⟨before, hbefore, hprogram⟩ := bind_eq_ok_iff.mp hprogram
  have hroot : root source =
      sequence (Rules.within maxNesting) before.next >>= fun node => pure node.value := by
    unfold root
    rw [hstart]
    show (semicolons c >>= _) = _
    rw [hbefore]
    rfl
  split at hprogram
  · cases hprogram
  · cases hprogram
  · obtain ⟨node, hnode, hprogram⟩ := bind_eq_ok_iff.mp hprogram
    obtain ⟨behind, _, hprogram⟩ := bind_eq_ok_iff.mp hprogram
    -- what follows the tree only decides whether it is handed out
    have hexpr : node.value.expr = expr := by
      split at hprogram
      · cases hprogram
        rfl
      · split at hprogram <;> cases hprogram
    refine ⟨node.value, ?_, hexpr⟩
    rw [hroot, hnode]
    rfl

/-- The property holds of every root. The first place is found by the lexer, so that it is one is
asked of the caller. -/
theorem root_keeps (hinvariant : Invariant place holds) {source : String}
    (hstart : Yields (start source) place) : Yields (root source) holds := by
  refine hstart.bind fun c hc => ?_
  refine (semicolons_keeps hinvariant c hc).bind fun before hbefore => ?_
  have hrules := Rules.within_keep hinvariant maxNesting
  refine (sequence_keeps hinvariant hrules (Rules.within_sound _) before.next hbefore).bind
    fun node hnode => ?_
  exact .ok hnode.2

end Stencil.Parser
