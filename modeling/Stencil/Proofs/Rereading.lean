import Stencil.Proofs.Acceptance
import Stencil.Proofs.Leaves
import Stencil.Proofs.Relexing

/-!
# Leaves that are read again

A construct without a value becomes a leaf with a part of the source. That part is enough: put into
parentheses it is read as the same leaf again.

* **`links_reach`** — a loop over links comes to the end of a chain that was read by precedence.
  Induction on the chain; right operands are read by the rule with one level less.
* **`construct_makes`** — of the tokens of a construct the rule for expressions makes the leaf of
  its name, whatever stands behind them. One case for each construct.
* **`parenthesised_makes`** — the places of the leaf in a source of parentheses and nothing else.
* **`unsupported_source`** — every leaf of an accepted source has a part of the source from the
  start of a token to the end of one, and that part is read again.
-/

namespace Stencil.Parser

open Cursor Text

/-! ## Chains by precedence

The source of a relational expression is a chain with operators in front of its last link. To read
the chain again, the loop over links has to come to the end of it whatever nodes it makes on the
way, so only places are followed. -/

namespace LinksAt

variable {loosest : Precedence} {bound : Nat} {us rest : List Token}

/-- The bound that a chain leaves behind is no looser than the one it started with. -/
theorem le_bound (h : LinksAt loosest bound us) : loosest.level ≤ bound := by
  cases h with
  | none => exact Nat.le_succ_of_le (Precedence.level_le_exponent loosest)
  | link _ _ htight =>
    rw [Precedence.level_ofRightOperand]
    split <;> omega

/-- Behind a chain in front of other tokens stands what ends an operand: a link, or what stands
behind the chain. -/
theorem ends (h : LinksAt loosest bound us) (hrest : Ends .unary rest) :
    Ends .unary (us ++ rest) := by
  induction h generalizing rest with
  | none => exact hrest
  | link _ hlink _ _ _ _ ih =>
    rw [List.append_assoc]
    exact ih (.unary_of_link (isLink_iff.mpr ⟨_, hlink⟩))

end LinksAt

theorem Looser.mono {ts : List Token} {level level' : Nat} (h : Looser ts level)
    (hle : level ≤ level') : Looser ts level' :=
  fun token htoken link hlink => Nat.lt_of_lt_of_le (h token htoken link hlink) hle

/-- A link that binds more loosely than a level ends the chain there. -/
theorem looser_link {link : Token} {binding : Option BinaryOperator × Precedence} {ts : List Token}
    {level : Nat} (hlink : linkOf? link = some binding) (h : binding.2.level < level) :
    Looser (link :: ts) level := by
  rintro _ ⟨⟩ other hother
  cases hlink.symm.trans hother
  exact h

/-- An operand is read with the links behind it that bind at least as tightly, up to one that does
not. -/
def ReadsChains (rules : Rules) : Prop :=
  ∀ {precedence : Precedence} {bound : Nat} {first us rest : List Token} {c : Cursor},
    Derives .unary first → LinksAt precedence bound us → Looser rest precedence.level →
    Ends .unary rest → c.At (first ++ (us ++ rest)) →
    Accepts False (rules.operand precedence c) fun taken => taken.next.At rest

/-- The loop comes to the end of the links, with whatever node they make. Induction on the links,
from the last one back to the first: the links before it end at it, and its operand takes the
tighter ones behind. -/
theorem links_reach {rules : Rules} (hrules : ReadsChains rules) (goal : Node → Cursor → Prop)
    {loosest outer : Precedence} {bound : Nat} {us rest : List Token} {origin : Nat} {left : Node}
    {c : Cursor} (h : LinksAt loosest bound us) (houter : outer.level ≤ loosest.level)
    (hlooser : Looser rest bound) (hends : Ends .unary rest) (hc : c.At (us ++ rest))
    (hrest : ∀ node d, d.At rest → Accepts False (links rules outer origin node d)
      fun kept => goal kept.value kept.next) :
    Accepts False (links rules outer origin left c) fun kept => goal kept.value kept.next := by
  induction h generalizing rest with
  -- without a link the loop is where it has to come to
  | none => exact hrest left c hc
  | @link loosest precedence bound _ us first inner link _ _ hlink htight hbound hfirst hinner ih _ =>
    have hassoc : us ++ link :: (first ++ inner) ++ rest =
        us ++ link :: (first ++ (inner ++ rest)) := by
      simp
    rw [hassoc] at hc
    have hends' : Ends .unary (link :: (first ++ (inner ++ rest))) :=
      .unary_of_link (isLink_iff.mpr ⟨_, hlink⟩)
    refine ih houter (looser_link hlink hbound) hends' hc fun node d hd => ?_
    -- the last link, with the operand that the other links did not take
    exact links_link goal (fun _ d => d.At rest) hlink (Nat.le_trans houter htight) hd
      (fun d hd => hrules hfirst hinner hlooser hends hd) (fun _ _ _ hfits => hfits.elim)
      fun right d hd => hrest _ d hd

/-- Right operands are read with their links, whatever the count of rules that may be entered.
Induction on the count; the rules inside have one less. -/
theorem within_readsChains (n : Nat) : ReadsChains (Rules.within n) := by
  induction n with
  | zero => exact fun _ _ _ _ _ => .tooDeep _ _ id
  | succ n ih =>
    intro precedence bound first us rest c hfirst hlinks hlooser hends hc
    show Accepts False (binary (Rules.within n) precedence c) _
    unfold binary
    have hunary := (accepted_of_derives hfirst).1 n c _ hc (hlinks.ends hends)
    refine hunary.bind fun operand hoperand => ?_
    refine (links_reach ih (fun _ d => d.At rest) hlinks (Nat.le_refl _)
      (hlooser.mono hlinks.le_bound) hends hoperand.1 fun node d hd => ?_).bind fun kept hkept => ?_
    · rw [links_stop (hlooser.linksBelow hd)]
      exact .ok hd
    · exact .ok hkept

/-! ## One construct at a time

A construct is recognised by one rule of the grammar, between the rule for operands and the rule for
expressions. The rules around that one add nothing, since what stands behind a construct in
parentheses goes on with none of them. -/

/-- **A link without a value makes a leaf of all of the chain in front of it.** The links before it
are read by `links_reach`, with any node, for the node is thrown away: of the two operands only the
place where the chain started and the place behind the last operand go into the leaf. -/
theorem binary_relational {loosest precedence : Precedence} {bound bound' : Nat}
    {first us operand inner : List Token} {link : Token} (hfirst : Derives .unary first)
    (hlinks : LinksAt loosest bound us) (hlink : linkOf? link = some (none, precedence))
    (hbound : precedence.level < bound) (hoperand : Derives .unary operand)
    (hinner : LinksAt precedence.ofRightOperand bound' inner) (n : Nat) :
    (binary (Rules.within n) .logicalOr).Makes False .binary
      (first ++ (us ++ link :: (operand ++ inner))) fun c node d =>
        node = unsupported "relational expression" c.position d := by
  intro c rest hc hends
  have hassoc : first ++ (us ++ link :: (operand ++ inner)) ++ rest =
      first ++ (us ++ link :: (operand ++ (inner ++ rest))) := by simp
  rw [hassoc] at hc
  have hends' : Ends .unary (link :: (operand ++ (inner ++ rest))) :=
    .unary_of_link (isLink_iff.mpr ⟨_, hlink⟩)
  -- the rule for expressions takes operators from the loosest level on
  have hlevel : ∀ other : Precedence, Precedence.logicalOr.level ≤ other.level :=
    Precedence.level_pos
  unfold binary
  have hunary := (accepted_of_derives hfirst).1 n c _ hc (hlinks.ends hends')
  refine hunary.bind fun taken htaken => ?_
  let goal (node : Node) (d : Cursor) : Prop :=
    d.At rest ∧ node = unsupported "relational expression" c.position d
  refine (links_reach (within_readsChains n) goal hlinks (hlevel _) (looser_link hlink hbound) hends'
    htaken.1 fun node d hd => ?_).bind fun kept hkept => ?_
  · refine links_link goal (fun _ d => d.At rest) hlink (hlevel _) hd
      (fun d hd => within_readsChains n hoperand hinner (hends.looser _) hends.unary_of_binary hd)
      (fun _ _ _ hfits => hfits.elim) fun right d hd => ?_
    rw [hends.links_stop hd]
    exact .ok ⟨hd, rfl⟩
  · exact .ok hkept

/-- The two words that are constructs of their own. -/
theorem primary_word {rules : Rules} {fits : Prop} {token : Token} {construct : String}
    (h : token = .null ∧ construct = "null literal" ∨
      token = .keyword .this ∧ construct = "'this' expression") :
    (primary rules).Makes fits .primary [token] fun c node d =>
      node = unsupported construct c.position d := by
  intro c rest hc _
  have htoken : c.token? = some token := hc.token?_cons
  unfold primary
  split
  · rename_i hnone
    cases htoken.symm.trans hnone
  · rename_i other hother
    cases htoken.symm.trans hother
    rcases h with ⟨rfl, rfl⟩ | ⟨rfl, rfl⟩
    · exact (hc.advance hother).bind fun taken htaken => .ok ⟨htaken, rfl⟩
    · exact (hc.advance hother).bind fun taken htaken => .ok ⟨htaken, rfl⟩

section
variable {ts : List Token} {made : Cursor → Node → Cursor → Prop}

/-! What each rule makes of tokens, the rule for expressions makes of them. -/

theorem sequence_of_assignment
    (h : ∀ n, (assignment (Rules.within n)).Makes False .assignment ts made) (n : Nat) :
    (sequence (Rules.within n)).Makes False .expression ts made :=
  sequence_single (enter_assignment h n)

theorem sequence_of_binary
    (h : ∀ n, (binary (Rules.within n) .logicalOr).Makes False .binary ts made) (n : Nat) :
    (sequence (Rules.within n)).Makes False .expression ts made :=
  sequence_of_assignment (fun n => assignment_single (conditional_single (enter_operand h n))) n

theorem sequence_of_unary (h : ∀ n, (unary (Rules.within n)).Makes False .unary ts made) (n : Nat) :
    (sequence (Rules.within n)).Makes False .expression ts made :=
  sequence_of_binary (fun n => binary_single (h n)) n

/-- What starts an operand and is none itself has no prefix in front and no access behind it, so it
is the whole expression. -/
theorem sequence_of_primary (h : ∀ n, (primary (Rules.within n)).Makes False .primary ts made)
    (hts : ∃ token us, ts = token :: us ∧ prefixed? token = none) (n : Nat) :
    (sequence (Rules.within n)).Makes False .expression ts made := by
  obtain ⟨token, us, rfl, hsign⟩ := hts
  refine sequence_of_unary (fun n => unary_single (h n) ?_ (by simp)) n
  rintro _ ⟨⟩
  exact hsign

end

/-- **Of the tokens of a construct the leaf of its name is made**, from the place in front of them
to the place behind them. One case for each construct, with the rule that makes it; the phrases
inside were accepted once, so they are accepted again. -/
theorem construct_makes {construct : String} {ts : List Token} (h : Construct construct ts) (n : Nat) :
    (sequence (Rules.within n)).Makes False .expression ts fun c node d =>
      node = unsupported construct c.position d := by
  -- inner parts are phrases of the grammar, and are read as such
  have htakes : ∀ {us : List Token}, Derives .assignment us → ∀ n,
      (Rules.within n).assignment.Takes False .assignment us Anything :=
    fun hus n => (accepted_of_derives hus).takes n
  cases h with
  | null => exact sequence_of_primary (fun n => primary_word (Or.inl ⟨rfl, rfl⟩)) ⟨_, _, rfl, rfl⟩ n
  | this => exact sequence_of_primary (fun n => primary_word (Or.inr ⟨rfl, rfl⟩)) ⟨_, _, rfl, rfl⟩ n
  | array helements =>
    exact sequence_of_primary (fun n => primary_array (accepted_of_derives helements n))
      ⟨_, _, rfl, rfl⟩ n
  | object hproperties =>
    exact sequence_of_primary (fun n => primary_object (accepted_of_derives hproperties n))
      ⟨_, _, rfl, rfl⟩ n
  -- a minus in front of a number would belong to the number
  | prefixed hsign hnumber hoperand =>
    refine sequence_of_unary (fun n => ?_) n
    have haccepted := accepted_of_derives hoperand
    have hunary := unary_prefixed hsign (opens_of_derives hoperand rfl) (enter_unary haccepted.1 n)
      fun text us heq => haccepted.2 text us heq n
    exact hunary.mono fun c node d hnode => hnode hnumber
  | relational hfirst hlinks hlink hbound hoperand hinner =>
    exact sequence_of_binary (binary_relational hfirst hlinks hlink hbound hoperand hinner) n
  | choice htest hconsequent halternate =>
    refine sequence_of_assignment (fun n => assignment_passes ?_) n
    exact conditional_choice (accepted_of_derives htest n) (htakes hconsequent n) (htakes halternate n)
  | assigned hlink htarget hvalue =>
    refine sequence_of_assignment (fun n => ?_) n
    exact assignment_assigned hlink (conditional_single (accepted_of_derives htarget n))
      (htakes hvalue n)
  | sequence hfirst hrest =>
    exact sequence_several (htakes hfirst n) ((accepted_of_derives hrest).2 n)

/-! ## In parentheses

In front of the construct stands one parenthesis and behind it another, and both are read by the
rule for operands. The leaf is then cut out of the new source between the places around the run, and
it has to be seen that these are the bytes of the old leaf. -/

/-- The leaf in the parentheses, with the places at which it starts and stops. They are kept as
places of the source, so that their positions can be looked up in its tokens. -/
theorem parenthesised_makes {construct : String} {ts : List Token} (h : Construct construct ts)
    (source : String) (n : Nat) :
    (sequence (Rules.within n)).Makes False .expression
      (.mark .leftParen :: (ts ++ [.mark .rightParen])) fun c node _ => c.In source →
        ∃ first last : Cursor, first.In source ∧ last.In source ∧
          c.tokens = .mark .leftParen :: first.tokens ∧ first.tokens = ts ++ last.tokens ∧
          node = unsupported construct first.position last := by
  refine sequence_of_primary (fun n => ?_) ⟨_, _, rfl, rfl⟩ n
  -- the parentheses hand on the node of what stands in them, and both places are in the source
  refine (primary_parenthesised (construct_makes h n).reads).mono fun c node _ hmade hc => ?_
  obtain ⟨htoken, opening, inner, hopening, hinner, ⟨hreads, hleaf⟩, hnode⟩ := hmade
  have hinvariant := sourced_invariant source
  have hfirst := hc.advance htoken opening hopening
  have hlast := (sequence_keeps hinvariant (Rules.within_keep hinvariant n) (Rules.within_sound n)
    opening.next hfirst inner hinner).1
  have hparen := (advance_reads htoken opening hopening).tokens_eq
  exact ⟨opening.next, inner.next, hfirst, hlast, hparen, hreads, hnode.trans hleaf⟩

/-- In a source of some tokens in parentheses, the places around those tokens are where the first
one of them starts and where the last one stops. A place knows its position only through the tokens
in front of it, so the run between the places is first seen to be the inside of the source, by
counting tokens. -/
theorem exists_ends {source : String} {opening closing : Lexeme} {inside : List Lexeme}
    {c first last d : Cursor}
    (hlexemes : (Lexed.ofSource source).lexemes = opening :: (inside ++ [closing]))
    (hc : c.In source) (hfirst : first.In source) (hlast : last.In source) (hne : inside ≠ [])
    (hall : c.tokens = .mark .leftParen :: (inside.map Lexeme.token ++ [.mark .rightParen]) ++ d.tokens)
    (hopening : c.tokens = .mark .leftParen :: first.tokens)
    (hinside : first.tokens = inside.map Lexeme.token ++ last.tokens) :
    ∃ head ∈ inside.head?, ∃ tail ∈ inside.getLast?,
      first.position = head.start ∧ last.previousStop = tail.stop := by
  obtain ⟨before, run, head, tail, hruns, hrun, hhead, htail, hstart, hstop⟩ :=
    hfirst.exists_run hlast hinside (by simp [hne])
  -- in front of the run stands a part of the source's tokens
  obtain ⟨before', hbefore', _⟩ := hc.exists_before
  have hsplit : before ++ (run ++ last.lexemes) = [opening] ++ (inside ++ [closing]) :=
    hruns.symm.trans hlexemes
  -- the source has no more tokens than those of the run and the two parentheses
  have hlength : before.length = [opening].length := by
    have h₁ := congrArg List.length hsplit
    have h₂ := congrArg List.length (hbefore'.symm.trans hlexemes)
    have h₃ := congrArg List.length hall
    have h₄ := congrArg List.length hopening
    have h₅ := congrArg List.length hinside
    have h₆ := congrArg List.length hrun
    simp only [List.length_append, List.length_cons, List.length_nil, List.length_map,
      Cursor.tokens] at h₁ h₂ h₃ h₄ h₅ h₆ ⊢
    omega
  obtain ⟨_, hbehind⟩ := List.append_inj hsplit hlength
  have hrunLength : run.length = inside.length := by
    have h := congrArg List.length hrun
    simpa using h
  obtain ⟨rfl, _⟩ := List.append_inj hbehind hrunLength
  exact ⟨head, hhead, tail, htail, hstart, hstop⟩

/-- **The run of a construct is read again in parentheses**, as a leaf with just the characters of
the run. The new source has the tokens of the run (`Run.parenthesised`), the rules make the leaf of
them (`parenthesised_makes`), and its bytes are those between the parentheses (`exists_ends`). -/
theorem parse_parenthesised {source construct : String} {offset : Nat} {body rest : List Char}
    {lexemes : List Lexeme} (hsource : source.toList = '(' :: (body ++ [')']))
    (hrun : Lexed.Run offset body lexemes rest) (hblank : body.head?.any isBlank = false)
    (h : Construct construct (lexemes.map Lexeme.token)) :
    Accepts False (Expr.parse source)
      fun expr => expr = .unsupported construct (String.ofList body) := by
  obtain ⟨inside, htokens, hinside, hscan⟩ := hrun.parenthesised
  rw [← hsource] at hscan
  rw [← htokens] at h
  have hne : inside ≠ [] := by
    have hne := h.ne_nil
    simpa using hne
  have hcomplete : (Lexed.ofSource source).Complete := ⟨_, by rw [Lexed.ofSource, hscan]⟩
  have hprogram : (Lexed.ofSource source).tokens = List.replicate 0 (.mark .semicolon) ++
      (.mark .leftParen :: (inside.map Lexeme.token ++ [.mark .rightParen]) ++
        List.replicate 0 (.mark .semicolon)) := by
    simp [Lexed.tokens, Lexed.ofSource, hscan]
  have hmakes := (parenthesised_makes h source maxNesting).reads
  refine (parse_makes hcomplete hprogram ⟨_, _, rfl, rfl⟩ (by rintro ⟨⟩) hmakes).mono
    fun expr hexpr => ?_
  obtain ⟨c, kept, _, d, hstart, hkept, ⟨hall, hmade⟩, rfl⟩ := hexpr
  have hc := semicolons_keeps (sourced_invariant source) c (In.start c hstart) kept hkept
  obtain ⟨first, last, hfirst, hlast, hopening, hbetween, rfl⟩ := hmade hc
  obtain ⟨head, hhead, tail, htail, hposition, hstop⟩ :=
    exists_ends (congrArg Lexed.lexemes hscan) hc hfirst hlast hne hall hopening hbetween
  -- the leaf reaches from the byte behind one parenthesis to the other one
  have hslice : slice last.source first.position last.previousStop = body := by
    rw [hlast.source_eq, hsource, hposition, hstop, hinside.start_eq hblank hhead,
      hinside.stop_eq htail]
    exact slice_append ['('] body [')']
  rw [unsupported, hslice]

end Stencil.Parser

namespace Stencil

open Text

/-- **A leaf without a value has its own source**: a part of the accepted source that starts with a
token and stops with one, and that is the same leaf again when it is read in parentheses, unless its
nesting is too deep then. The invariant of leaves has kept the tokens that the leaf was made of, and
`Lexed.exists_cutout` finds the characters for them. -/
theorem unsupported_source {source : String} {tree : Expr} (hparse : Expr.parse source = .ok tree)
    {construct text : String} (hleaf : (construct, text) ∈ tree.unsupportedLeaves) :
    (∃ before after, source = before ++ text ++ after ∧ text ≠ "" ∧
      (∃ first ∈ (Lexed.ofSource source).lexemes, first.start = byteLength before.toList) ∧
      (∃ last ∈ (Lexed.ofSource source).lexemes, last.stop = byteLength (before ++ text).toList)) ∧
    (Expr.parse ("(" ++ text ++ ")") = .ok (.unsupported construct text) ∨
      ∃ limit position, Expr.parse ("(" ++ text ++ ")") = .error (.nestingTooDeep limit position)) := by
  -- the leaf was cut out between two tokens of the source
  obtain ⟨before, inside, after, first, last, hlexemes, hfirst, hlast, hmade, htext⟩ :=
    sourced_of_parse hparse _ hleaf
  obtain ⟨front, body, rest, hlist, hstart, hstop, hne, hblank, hrun⟩ :=
    Lexed.exists_cutout hlexemes hfirst hlast
  obtain rfl : text = String.ofList body := by
    rw [hlist, hstart, hstop, slice_append] at htext
    exact htext
  have hmem : ∀ lexeme ∈ inside, lexeme ∈ (Lexed.ofSource source).lexemes := by
    intro lexeme hmem
    rw [hlexemes]
    exact List.mem_append_right _ (List.mem_append_left _ hmem)
  refine ⟨⟨String.ofList front, String.ofList rest, ?_, ?_, ?_, ?_⟩, ?_⟩
  · refine String.toList_injective ?_
    simp [hlist]
  · intro hempty
    have hnil := congrArg String.toList hempty
    rw [String.toList_ofList] at hnil
    exact hne hnil
  · refine ⟨first, hmem first (List.mem_of_mem_head? hfirst), ?_⟩
    rw [hstart, String.toList_ofList]
  · refine ⟨last, hmem last (List.mem_of_mem_getLast? hlast), ?_⟩
    rw [hstop, String.toList_append, String.toList_ofList, String.toList_ofList, byteLength_append]
  · have hsource : ("(" ++ String.ofList body ++ ")").toList = '(' :: (body ++ [')']) := by simp
    obtain ⟨expr, hexpr, rfl⟩ | ⟨_, limit, position, hdeep⟩ :=
      Parser.parse_parenthesised hsource hrun hblank hmade
    · exact Or.inl hexpr
    · exact Or.inr ⟨limit, position, hdeep⟩

/-- The leaf of a relation has the sums on both sides of it, and not the factor in front of the
parentheses or the blank behind one. -/
theorem unsupported_source_relation :
    (∃ tree, Expr.parse "x * ( a + 1 in b - 2)" = .ok tree ∧
      ("relational expression", "a + 1 in b - 2") ∈ tree.unsupportedLeaves) ∧
    (Expr.parse ("(" ++ "a + 1 in b - 2" ++ ")") =
        .ok (.unsupported "relational expression" "a + 1 in b - 2") ∨
      ∃ limit position, Expr.parse ("(" ++ "a + 1 in b - 2" ++ ")") =
        .error (.nestingTooDeep limit position)) := by
  have hread : (Expr.parse "x * ( a + 1 in b - 2)").toOption.map Expr.unsupportedLeaves =
      some [("relational expression", "a + 1 in b - 2")] := by
    decide +kernel
  obtain ⟨tree, hparse, hleaves⟩ := exists_of_map_toOption hread
  have hleaf : ("relational expression", "a + 1 in b - 2") ∈ tree.unsupportedLeaves := by
    rw [hleaves]
    exact List.mem_singleton_self _
  exact ⟨⟨tree, hparse, hleaf⟩, (unsupported_source hparse hleaf).2⟩

end Stencil
