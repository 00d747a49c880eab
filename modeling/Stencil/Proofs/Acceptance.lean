import Stencil.Proofs.Taking

/-!
# What the parser accepts

Every phrase of the grammar is read by the rule for its kind, unless the nesting is too deep for the
parser.

* **`Accepted`** — what that says for each kind of phrases: of a chain or a list of arguments it is
  said at every place where the rule for it goes on.
* **`accepted_of_derives`** — induction on the derivation: one case for each alternative of the
  grammar.
* **`parse_accepts_iff`** — the parser accepts the programs of the grammar and nothing else.
-/

namespace Stencil.Parser

open Cursor

/-! ## The rules

Each lemma follows its rule along the tokens of a phrase. -/

section
variable {rules : Rules} {ts us vs rest : List Token} {c : Cursor}

/-- Nothing is asked of a value. -/
def Anything {α : Type} (_ : α) : Prop := True

/-- What a rule makes of a phrase is of no interest here, only that it reads it. -/
theorem Rule.Makes.anything {α : Type} {rule : Rule α} {fits : Prop} {phrase : Phrase}
    {made : Cursor → α → Cursor → Prop} (h : rule.Makes fits phrase ts made) :
    rule.Takes fits phrase ts Anything :=
  h.mono fun _ _ _ _ => trivial

/-- A comma and an item, and then what `hrest` says of the items behind it. The item goes as far as
an assignment does. -/
theorem sequenceRest_comma (hitem : rules.assignment.Takes False .assignment ts Anything)
    (hc : c.At (.mark .comma :: (ts ++ us))) (hends : Ends .assignment us)
    (hrest : ∀ d, d.At us →
      Accepts False (sequenceRest rules d) fun kept => kept.next.At rest) :
    Accepts False (sequenceRest rules c) fun kept => kept.next.At rest := by
  rw [sequenceRest]
  split
  · refine (hc.advance _).bind fun comma hcomma => ?_
    refine (hitem comma.next us hcomma hends).bind fun item hitem => ?_
    exact (hrest item.next hitem.1).bind fun kept hkept => .ok hkept
  · rename_i hcomma
    exact absurd hc.token?_cons hcomma

/-- Where an expression may end there is no further comma, so the loop stops. -/
theorem sequenceRest_stop (hc : c.At ts) (hends : Ends .expression ts) :
    Accepts False (sequenceRest rules c) fun kept => kept.next.At ts := by
  rw [sequenceRest]
  split
  · rename_i hcomma
    cases hends.goesOn_eq hc hcomma
  · exact .ok hc

/-- An expression with a comma is a leaf, whatever its items are: its kind is the only thing that is
kept of them. -/
theorem sequence_several (hitem : rules.assignment.Takes False .assignment ts Anything)
    (hrest : ∀ d rest, d.At (.mark .comma :: (us ++ rest)) → Ends .expression rest →
      Accepts False (sequenceRest rules d) fun kept => kept.next.At rest) :
    (sequence rules).Makes False .expression (ts ++ .mark .comma :: us) fun c node d =>
      node = unsupported "sequence expression" c.position d := by
  intro c rest hc hends
  rw [List.append_assoc] at hc
  unfold sequence
  refine (hitem c _ hc rfl).bind fun first hfirst => ?_
  split
  · exact (hrest first.next rest hfirst.1 hends).bind fun kept hkept => .ok ⟨hkept, rfl⟩
  · rename_i hcomma
    exact absurd hfirst.1.token?_cons hcomma

/-- **A target, a sign of an assignment and a value.** The target is read by the rule of
conditionals, which stops in front of the sign, since no link and no question mark is one. What is
made is a construct from the place of the target to the place behind the value. -/
theorem assignment_assigned {link : Token} {construct : String}
    (hconstruct : assigned? link = some construct)
    (htarget : (conditional rules).Takes False .conditional ts Anything)
    (hvalue : rules.assignment.Takes False .assignment us Anything) :
    (assignment rules).Makes False .assignment (ts ++ link :: us) fun c node d =>
      node = unsupported construct c.position d := by
  intro c rest hc hends
  rw [List.append_assoc] at hc
  -- the target is followed by the sign, so the rule of conditionals stops there
  have hlink : link.IsAssignment := isAssignment_iff.mpr ⟨construct, hconstruct⟩
  unfold assignment
  refine (htarget c _ hc (.conditional_of_isAssignment hlink)).bind fun target htarget => ?_
  split
  · rename_i hnone
    cases htarget.1.token?_cons.symm.trans hnone
  · rename_i token htoken
    cases htarget.1.token?_cons.symm.trans htoken
    split
    · rename_i hnone
      cases hconstruct.symm.trans hnone
    · rename_i other hother
      cases hconstruct.symm.trans hother
      refine (htarget.1.advance _).bind fun first hfirst => ?_
      refine (hvalue first.next rest hfirst hends).bind fun value hvalue => ?_
      exact .ok ⟨hvalue.1, rfl⟩

/-- A conditional with two outcomes, the second one of which goes on as far as an assignment does.
-/
theorem conditional_choice (htest : (rules.operand .logicalOr).Takes False .binary ts Anything)
    (hconsequent : rules.assignment.Takes False .assignment us Anything)
    (halternate : rules.assignment.Takes False .assignment vs Anything) :
    (conditional rules).Makes False .assignment
      (ts ++ .mark .question :: (us ++ .mark .colon :: vs)) fun c node d =>
        node = unsupported "conditional expression" c.position d := by
  intro c rest hc hends
  rw [List.append_assoc, List.cons_append, List.append_assoc] at hc
  unfold conditional
  refine (htest c _ hc rfl).bind fun test htest => ?_
  split
  · refine (htest.1.advance _).bind fun question hquestion => ?_
    refine (hconsequent question.next _ hquestion rfl).bind fun consequent hconsequent => ?_
    refine hconsequent.1.expect.bind fun colon hcolon => ?_
    refine (halternate colon.next rest hcolon hends).bind fun alternate halternate => ?_
    exact .ok ⟨halternate.1, rfl⟩
  · rename_i hquestion
    exact absurd htest.1.token?_cons hquestion

/-- The loop over accesses, from any node. -/
def AccessesTake (rules : Rules) (ts : List Token) : Prop :=
  ∀ left c rest, c.At (ts ++ rest) → Ends .unary rest →
    Accepts False (accesses rules left c) fun kept => kept.next.At rest

/-- **An operand behind a prefix.** The rule reads it by itself, and makes a construct of it; but a
number behind a minus sign is read as one operand with it, and only its accesses are left for
`hnumber`. In that case nothing is claimed of the node. -/
theorem unary_prefixed {sign : Token} {construct : String}
    (hconstruct : prefixed? sign = some construct) (hopens : Opens ts)
    (hoperand : rules.unary.Takes False .unary ts Anything)
    (hnumber : ∀ text us, ts = .number text :: us → AccessesTake rules us) :
    (unary rules).Makes False .unary (sign :: ts) fun c node d =>
      (sign = .operator .subtract → ∀ text, ts.head? ≠ some (.number text)) →
        node = unsupported construct c.position d := by
  intro c rest hc hends
  unfold unary
  split
  · rename_i hnone
    cases hc.token?_cons.symm.trans hnone
  · rename_i token htoken
    cases hc.token?_cons.symm.trans htoken
    split
    · rename_i hnone
      cases hconstruct.symm.trans hnone
    · rename_i other hother
      cases hconstruct.symm.trans hother
      refine (hc.advance _).bind fun first hfirst => ?_
      -- the operand is read by the rule itself, unless it is a number behind a minus sign
      have hrest : Accepts False (rules.unary first.next >>= fun operand =>
            pure (⟨unsupported construct c.position operand.next, operand.next,
              Nat.lt_trans operand.lt first.lt⟩ : Taken c Node))
          fun taken => taken.next.At rest ∧
            ((sign = .operator .subtract → ∀ text, ts.head? ≠ some (.number text)) →
              taken.value = unsupported construct c.position taken.next) :=
        (hoperand first.next rest hfirst hends).bind fun operand hoperand =>
          .ok ⟨hoperand.1, fun _ => rfl⟩
      split
      · rename_i text htext
        split
        · rename_i hminus
          obtain ⟨token, us, rfl, _⟩ := hopens
          cases hfirst.token?_cons.symm.trans htext
          refine (hfirst.advance _).bind fun number hnumber' => ?_
          refine (hnumber text us rfl _ number.next rest hnumber' hends).bind fun kept hkept => ?_
          -- the operator was a minus sign before a number, where nothing is claimed of the node
          exact .ok ⟨hkept, fun hnot => absurd rfl (hnot hminus text)⟩
        · exact hrest
      · exact hrest

/-- A comma where an item may stand is a hole of the array. -/
theorem arrayItems_comma (hc : c.At (.mark .comma :: ts))
    (hrest : ∀ d, d.At ts → Accepts False (arrayItems rules d) fun taken => taken.next.At rest) :
    Accepts False (arrayItems rules c) fun taken => taken.next.At rest := by
  rw [arrayItems]
  split
  · rename_i htoken
    cases hc.token?_cons.symm.trans htoken
  · refine (hc.advance _).bind fun comma hcomma => ?_
    exact (hrest comma.next hcomma).bind fun taken htaken => .ok htaken
  · rename_i hcomma htoken
    cases hc.token?_cons.symm.trans htoken
    exact absurd rfl hcomma
  · rename_i hnone
    cases hc.token?_cons.symm.trans hnone

/-- **One item of an array.** Behind it stands a comma, or the bracket that closes the array; behind
a comma the loop goes on, which is what `hus` says of it. The other alternatives of the loop are
excluded by the first token of the item. -/
theorem arrayItems_item (hopens : Opens ts)
    (hitem : rules.assignment.Takes False .assignment ts Anything) (hc : c.At (ts ++ us))
    (hus : (∃ vs, us = .mark .comma :: vs ∧ ∀ d, d.At vs →
        Accepts False (arrayItems rules d) fun taken => taken.next.At rest) ∨
      us = .mark .rightBracket :: rest) :
    Accepts False (arrayItems rules c) fun taken => taken.next.At rest := by
  obtain ⟨token, htoken, hopening⟩ := hopens.token? hc
  have hends : Ends .assignment us := by
    rcases hus with ⟨vs, rfl, _⟩ | rfl <;> rfl
  -- neither a bracket nor a comma opens an item, so the third alternative is taken
  rw [arrayItems]
  split
  · rename_i hother
    cases htoken.symm.trans hother
    cases hopening
  · rename_i hother
    cases htoken.symm.trans hother
    cases hopening
  · refine (hitem c _ hc hends).bind fun item hitem => ?_
    rcases hus with ⟨vs, rfl, hvs⟩ | rfl
    · split
      · refine (hitem.1.advance _).bind fun comma hcomma => ?_
        exact (hvs comma.next hcomma).bind fun taken htaken => .ok htaken
      · rename_i hbracket
        cases hitem.1.token?_cons.symm.trans hbracket
      · rename_i hcomma _
        exact absurd hitem.1.token?_cons hcomma
    · split
      · rename_i hcomma
        cases hitem.1.token?_cons.symm.trans hcomma
      · rename_i hbracket
        rw [arrayItems_close hbracket]
        exact (hitem.1.advance _).bind fun closing hclosing => .ok hclosing
      · rename_i hbracket
        exact absurd hitem.1.token?_cons hbracket
  · rename_i hnone
    cases htoken.symm.trans hnone

/-- A colon and a value, whether the key may stand alone or not. -/
theorem propertyValue_colon (hvalue : rules.assignment.Takes False .assignment ts Anything)
    (alone : Bool) (hc : c.At (.mark .colon :: (ts ++ us))) (hends : Ends .assignment us) :
    Accepts False (propertyValue rules alone c) fun kept => kept.next.At us := by
  unfold propertyValue
  split
  · refine (hc.advance _).bind fun colon hcolon => ?_
    exact (hvalue colon.next us hcolon hends).bind fun value hvalue => .ok hvalue.1
  · rename_i htoken
    cases hc.token?_cons.symm.trans htoken
  · rename_i htoken
    cases hc.token?_cons.symm.trans htoken
  · rename_i hcolon _ _
    exact absurd hc.token?_cons hcolon

/-- What follows a property: a comma, or the brace that closes the object. -/
def EndsProperty (ts : List Token) : Prop :=
  ts.head? = some (.mark .comma) ∨ ts.head? = some (.mark .rightBrace)

/-- A key that may stand alone is followed by the comma or the brace behind its property. -/
theorem propertyValue_alone (hc : c.At us) (hus : EndsProperty us) :
    Accepts False (propertyValue rules true c) fun kept => kept.next.At us := by
  rw [EndsProperty, ← hc.token?_eq] at hus
  unfold propertyValue
  split
  · rename_i htoken
    rw [htoken] at hus
    rcases hus with hus | hus <;> cases hus
  · exact .ok hc
  · exact .ok hc
  · rename_i hcomma hbrace
    rcases hus with hus | hus
    · exact absurd hus hcomma
    · exact absurd hus hbrace

/-- **One property of an object**: its key, what follows the key by `hvalue`, and then a comma with
the properties behind it or the brace that closes the object. As with items, the loop behind the
comma is given by `hus`. -/
theorem objectProperties_item {key : Token} {alone : Bool} (hkey : propertyKey? key = some alone)
    (hvalue : ∀ d, d.At (ts ++ us) →
      Accepts False (propertyValue rules alone d) fun kept => kept.next.At us)
    (hc : c.At (key :: (ts ++ us)))
    (hus : (∃ vs, us = .mark .comma :: vs ∧ ∀ d, d.At vs →
        Accepts False (objectProperties rules d) fun taken => taken.next.At rest) ∨
      us = .mark .rightBrace :: rest) :
    Accepts False (objectProperties rules c) fun taken => taken.next.At rest := by
  rw [objectProperties]
  split
  · rename_i htoken
    cases hc.token?_cons.symm.trans htoken
    cases hkey
  · rename_i token _ htoken
    cases hc.token?_cons.symm.trans htoken
    split
    · rename_i hnone
      cases hkey.symm.trans hnone
    · rename_i other hother
      cases hkey.symm.trans hother
      refine (hc.advance _).bind fun first hfirst => ?_
      refine (hvalue first.next hfirst).bind fun value hvalue => ?_
      -- behind the value the two ends of a property are read by different alternatives
      rcases hus with ⟨vs, rfl, hvs⟩ | rfl
      · split
        · refine (hvalue.advance _).bind fun comma hcomma => ?_
          exact (hvs comma.next hcomma).bind fun taken htaken => .ok htaken
        · rename_i hbrace
          cases hvalue.token?_cons.symm.trans hbrace
        · rename_i hcomma _
          exact absurd hvalue.token?_cons hcomma
      · split
        · rename_i hcomma
          cases hvalue.token?_cons.symm.trans hcomma
        · rename_i hbrace
          rw [objectProperties_close hbrace]
          exact (hvalue.advance _).bind fun closing hclosing => .ok hclosing
        · rename_i hbrace
          exact absurd hvalue.token?_cons hbrace
  · rename_i hnone
    cases hc.token?_cons.symm.trans hnone

/-- A bracket, items and a bracket make one leaf. -/
theorem primary_array (hitems : ∀ d rest, d.At (ts ++ .mark .rightBracket :: rest) →
      Accepts False (arrayItems rules d) fun taken => taken.next.At rest) :
    (primary rules).Makes False .primary (.mark .leftBracket :: (ts ++ [.mark .rightBracket]))
      fun c node d => node = unsupported "array literal" c.position d := by
  intro c rest hc _
  rw [List.cons_append, List.append_assoc] at hc
  unfold primary
  split
  · rename_i hnone
    cases hc.token?_cons.symm.trans hnone
  · rename_i token htoken
    cases hc.token?_cons.symm.trans htoken
    refine (hc.advance _).bind fun first hfirst => ?_
    exact (hitems first.next rest hfirst).bind fun taken htaken => .ok ⟨htaken, rfl⟩

/-- Braces with properties between them make one leaf. -/
theorem primary_object (hproperties : ∀ d rest, d.At (ts ++ .mark .rightBrace :: rest) →
      Accepts False (objectProperties rules d) fun taken => taken.next.At rest) :
    (primary rules).Makes False .primary (.mark .leftBrace :: (ts ++ [.mark .rightBrace]))
      fun c node d => node = unsupported "object literal" c.position d := by
  intro c rest hc _
  rw [List.cons_append, List.append_assoc] at hc
  unfold primary
  split
  · rename_i hnone
    cases hc.token?_cons.symm.trans hnone
  · rename_i token htoken
    cases hc.token?_cons.symm.trans htoken
    refine (hc.advance _).bind fun first hfirst => ?_
    exact (hproperties first.next rest hfirst).bind fun taken htaken => .ok ⟨htaken, rfl⟩

end

/-! ## The induction

`Accepted` says of a phrase what its context needs of it. For phrases that a rule reads from their
first token on, that is the rule for them, at every number of levels that are left. The loops start
behind their first item, and so do their statements: of accesses, items, properties and arguments it
is said what the loop does from there on. Assignments need more than the rule for them, since the
last part of a conditional goes on as far as the assignment does and may thus be the target of the
next one (`Assignable`). -/

/-- Behind a phrase of assignments another link and another assignment may stand. -/
structure Assignable (ts : List Token) : Prop where
  takes : TakesAll Rules.assignment .assignment ts
  assigned {link : Token} {us : List Token} : link.IsAssignment →
    TakesAll Rules.assignment .assignment us →
      TakesAll Rules.assignment .assignment (ts ++ link :: us)

/-- What the parser makes of a phrase, by its kind. A conditional may be the target of an
assignment, but then its last part is read as far as the assignment goes. -/
def Accepted : Phrase → List Token → Prop
  | .expression, ts => TakesAll sequence .expression ts ∧
    ∀ n c rest, c.At (.mark .comma :: (ts ++ rest)) → Ends .expression rest →
      Accepts False (sequenceRest (Rules.within n) c) fun kept => kept.next.At rest
  | .assignment, ts => Assignable ts
  | .conditional, ts => Assignable ts
  | .binary, ts => TakesAll (fun rules => rules.operand .logicalOr) .binary ts
  | .links, ts => ∃ tail, ts = chain tail ∧ ∀ link ∈ tail, IsLinked link
  | .unary, ts => TakesAll unary .unary ts ∧
    ∀ text us, ts = .number text :: us → ∀ n, AccessesTake (Rules.within n) us
  | .accesses, ts => ∀ n, AccessesTake (Rules.within n) ts
  | .primary, ts => TakesAll primary .primary ts
  | .arguments, ts => ∀ n c rest, c.At (ts ++ .mark .rightParen :: rest) →
    Accepts False (arguments (Rules.within n) c) (fun taken => taken.next.At rest) ∧
    (ts ≠ [] → ∀ read depth,
      Accepts False (argumentsFrom (Rules.within n) read depth c) fun taken => taken.next.At rest)
  | .elements, ts => ∀ n c rest, c.At (ts ++ .mark .rightBracket :: rest) →
    Accepts False (arrayItems (Rules.within n) c) fun taken => taken.next.At rest
  | .properties, ts => ∀ n c rest, c.At (ts ++ .mark .rightBrace :: rest) →
    Accepts False (objectProperties (Rules.within n) c) fun taken => taken.next.At rest
  | .property, ts => ∃ key alone us, ts = key :: us ∧ propertyKey? key = some alone ∧
    ∀ n c rest, c.At (us ++ rest) → EndsProperty rest →
      Accepts False (propertyValue (Rules.within n) alone c) fun kept => kept.next.At rest

/-- A number is a primary expression of its own, so accesses follow it. -/
theorem accesses_of_number {ts us vs : List Token} {text : String} (h : Derives .primary ts)
    (heq : ts ++ us = .number text :: vs) : us = vs := by
  -- of the primary expressions only an atom starts with a number
  cases h <;> cases heq
  rfl

/-- Nothing is left of a chain that is read from the loosest precedence on. -/
theorem LeftOver.nil {tail : List (Token × List Token)} {rest : List Token} {d : Cursor}
    (htail : ∀ link ∈ tail, IsLinked link) (h : LeftOver .logicalOr tail rest d) : d.At rest := by
  obtain ⟨later, hlater, hd, hstops⟩ := h
  cases later with
  | nil => exact hd
  | cons link later =>
    -- a link that is left over would bind more loosely than the loosest precedence, whose level is
    -- one
    obtain ⟨binding, hbinding⟩ := isLink_iff.mp (htail link (hlater.subset List.mem_cons_self)).1
    have hlevel := hstops link rfl binding hbinding
    have hpos := Precedence.level_pos binding.2
    have hone : Precedence.logicalOr.level = 1 := rfl
    omega

/-- **Every phrase is accepted**, if its nesting is not too deep. Induction on the derivation, with
one case for each production and one lemma of this module in each. `Accepted` says more than that
the phrase is read where it is needed: of an expression also that it goes on with commas, of a
conditional that it goes on with a sign of assignment, of an operand that a number in front of it
can be taken off. -/
theorem accepted_of_derives {phrase : Phrase} {ts : List Token} (h : Derives phrase ts) :
    Accepted phrase ts := by
  induction h with
  | expression _ ih =>
    refine ⟨fun n => sequence_single (ih.takes n), fun n c rest hc hends => ?_⟩
    exact sequenceRest_comma (ih.takes n) hc hends.assignment_of_expression
      fun d hd => sequenceRest_stop hd hends
  | sequence _ _ ihfirst ihrest =>
    refine ⟨fun n => (sequence_several (ihfirst.takes n) (ihrest.2 n)).anything,
      fun n c rest hc hends => ?_⟩
    rw [List.append_assoc] at hc
    exact sequenceRest_comma (ihfirst.takes n) hc rfl fun d hd => ihrest.2 n d rest hd hends
  | assignment _ ih => exact ih
  -- an assignment is right associative: what is assigned next is assigned to the value
  | assigned _ hlink _ ihtarget ihvalue =>
    refine ⟨ihtarget.assigned hlink ihvalue.takes, fun hlink' hus => ?_⟩
    rw [List.append_assoc]
    exact ihtarget.assigned hlink (ihvalue.assigned hlink' hus)
  | conditional _ ih =>
    refine ⟨enter_assignment fun n => assignment_single (conditional_single (ih n)),
      fun hlink hus => enter_assignment fun n => ?_⟩
    obtain ⟨_, hconstruct⟩ := isAssignment_iff.mp hlink
    exact (assignment_assigned hconstruct (conditional_single (ih n)) (hus n)).anything
  | @choice ts us vs _ _ _ ihtest ihconsequent ihalternate =>
    have hchoice : ∀ ws, TakesAll Rules.assignment .assignment ws →
        TakesAll Rules.assignment .assignment
          (ts ++ .mark .question :: (us ++ .mark .colon :: ws)) := fun ws hws =>
      enter_assignment fun n => assignment_passes
        (conditional_choice (ihtest n) (ihconsequent.takes n) (hws n)).anything
    refine ⟨hchoice vs ihalternate.takes, fun hlink hus => ?_⟩
    rw [List.append_assoc, List.cons_append, List.append_assoc]
    -- the last part of the choice is the target, so the whole assignment is that part
    exact hchoice _ (ihalternate.assigned hlink hus)
  | binary _ _ ihfirst ihlinks =>
    obtain ⟨tail, rfl, htail⟩ := ihlinks
    intro n c rest hc hends
    rw [List.append_assoc] at hc
    refine (operand_takes n .logicalOr _ tail c ihfirst.1 htail hc hends).mono
      fun taken htaken => ?_
    -- no link binds more loosely than the loosest precedence
    exact ⟨htaken.nil htail, trivial⟩
  | noLink => exact ⟨[], rfl, by simp⟩
  | @link ts us link hlink _ _ ihoperand ihlinks =>
    obtain ⟨tail, rfl, htail⟩ := ihlinks
    exact ⟨(link, ts) :: tail, rfl, List.forall_mem_cons.mpr ⟨⟨hlink, ihoperand.1⟩, htail⟩⟩
  | prefixed hsign h ih =>
    refine ⟨fun n => ?_, ?_⟩
    · obtain ⟨_, hconstruct⟩ := isPrefix_iff.mp hsign
      exact (unary_prefixed hconstruct (opens_of_derives h rfl) (enter_unary ih.1 n)
        fun text us heq => ih.2 text us heq n).anything
    · rintro text us ⟨⟩
      cases hsign
  | accessed hfirst _ ihfirst ihaccesses =>
    refine ⟨fun n => ?_, fun text vs heq => ?_⟩
    · intro c rest hc hends
      rw [List.append_assoc] at hc
      obtain ⟨token, us, heq, _⟩ := opens_of_derives hfirst rfl
      refine (unary_accessed (fun _ d => d.At rest) (ihfirst n) (prefixed?_head_of_derives hfirst)
        (by simp [heq]) hc fun node d _ hd => ihaccesses n node d rest hd hends).mono ?_
      exact fun taken htaken => ⟨htaken, trivial⟩
    · -- behind a minus sign the number is taken already
      rw [← accesses_of_number hfirst heq]
      exact ihaccesses
  -- the loops stop where a phrase of their kind may end
  | noAccess =>
    intro n left c rest hc hends
    rw [hends.accesses_stop hc]
    exact .ok hc
  | member hname _ ih =>
    intro n left c rest hc hends
    obtain ⟨name, hname⟩ := isName_iff.mp hname
    exact accesses_member (fun _ d => d.At rest) hname hc False.elim
      fun d hd => ih n _ d rest hd hends
  | index _ _ ih ihaccesses =>
    intro n left c rest hc hends
    rw [List.cons_append, List.append_assoc] at hc
    exact accesses_index (fun _ d => d.At rest) (ih.1 n) hc (fun _ _ hfits => hfits.elim)
      fun _ _ d hd => ihaccesses n _ d rest hd hends
  | @call ts us _ _ ih ihaccesses =>
    intro n left c rest hc hends
    rw [List.cons_append, List.append_assoc] at hc
    have hlist : ∀ d, d.At (ts ++ .mark .rightParen :: (us ++ rest)) →
        Accepts False (arguments (Rules.within n) d)
          fun taken => taken.next.At (us ++ rest) ∧ Anything taken.value := fun d hd =>
      (ih n d _ hd).1.mono fun taken htaken => ⟨htaken, trivial⟩
    exact accesses_call (fun _ d => d.At rest) Anything hlist hc (fun _ _ hfits => hfits.elim)
      fun _ _ d hd => ihaccesses n _ d rest hd hends
  | noArgument =>
    intro n c rest hc
    exact ⟨(arguments_none hc).mono fun taken htaken => htaken.1, fun hne => absurd rfl hne⟩
  | lastArgument h ih =>
    intro n c rest hc
    have hfrom : ∀ read depth, Accepts False (argumentsFrom (Rules.within n) read depth c)
        fun taken => taken.next.At rest := fun read depth =>
      (argumentsFrom_last (ih.takes n) hc (Or.inl rfl)).mono fun taken htaken => htaken.1
    rw [arguments_some hc ((opens_of_derives h rfl).head?_ne _)]
    exact ⟨hfrom [] 0, fun _ => hfrom⟩
  | @argument ts us h hrest ihfirst ihrest =>
    intro n c rest hc
    rw [List.append_assoc, List.cons_append] at hc
    have hfrom : ∀ read depth, Accepts False (argumentsFrom (Rules.within n) read depth c)
        fun taken => taken.next.At rest := by
      intro read depth
      by_cases hus : us = []
      · -- the comma is the one that may stand behind the last argument
        rw [hus] at hc
        exact (argumentsFrom_last (ihfirst.takes n) hc (Or.inr rfl)).mono fun _ htaken => htaken.1
      · exact argumentsFrom_comma (fun _ d => d.At rest) (ihfirst.takes n) hc
          ((opens_of_arguments hrest hus).head?_ne _)
          fun node _ d hd => (ihrest n d rest hd).2 hus _ _
    rw [arguments_some hc ((opens_of_derives h rfl).head?_ne _)]
    exact ⟨hfrom [] 0, fun _ => hfrom⟩
  | atom h =>
    exact fun n c rest hc hends => (primary_atom h c rest hc hends).mono fun taken htaken =>
      ⟨htaken.1, trivial⟩
  | parentheses _ ih => exact fun n => primary_parentheses (ih.1 n)
  | array _ ih => exact fun n => (primary_array (ih n)).anything
  | object _ ih => exact fun n => (primary_object (ih n)).anything
  | noElement =>
    intro n c rest hc
    rw [arrayItems_close hc.token?_cons]
    exact hc.advance _
  | lastElement h ih =>
    intro n c rest hc
    exact arrayItems_item (opens_of_derives h rfl) (ih.takes n) hc (Or.inr rfl)
  | hole _ ih =>
    intro n c rest hc
    exact arrayItems_comma hc fun d hd => ih n d rest hd
  | element h _ ihfirst ihrest =>
    intro n c rest hc
    rw [List.append_assoc] at hc
    exact arrayItems_item (opens_of_derives h rfl) (ihfirst.takes n) hc
      (Or.inl ⟨_, rfl, fun d hd => ihrest n d rest hd⟩)
  | noProperty =>
    intro n c rest hc
    rw [objectProperties_close hc.token?_cons]
    exact hc.advance _
  | lastProperty _ ih =>
    obtain ⟨key, alone, us, rfl, hkey, hvalue⟩ := ih
    intro n c rest hc
    exact objectProperties_item hkey (fun d hd => hvalue n d _ hd (Or.inr rfl)) hc (Or.inr rfl)
  | properties _ _ ihfirst ihrest =>
    obtain ⟨key, alone, us, rfl, hkey, hvalue⟩ := ihfirst
    intro n c rest hc
    rw [List.append_assoc] at hc
    exact objectProperties_item hkey (fun d hd => hvalue n d _ hd (Or.inl rfl)) hc
      (Or.inl ⟨_, rfl, fun d hd => ihrest n d rest hd⟩)
  | property hkey _ ih =>
    obtain ⟨alone, halone⟩ := isKey_iff.mp hkey
    refine ⟨_, alone, _, rfl, halone, fun n c rest hc hends => ?_⟩
    refine propertyValue_colon (ih.takes n) alone hc ?_
    cases rest with
    | nil => rfl
    | cons token rest => rcases hends with ⟨⟨⟩⟩ | ⟨⟨⟩⟩ <;> rfl
  | shorthand name =>
    exact ⟨_, true, [], rfl, rfl, fun n c rest hc hends => propertyValue_alone hc hends⟩

end Stencil.Parser

namespace Stencil

/-- An accepted source is complete, and its tokens are a program. -/
theorem Parser.program_of_parse {source : String} {expr : Expr}
    (hparse : Expr.parse source = .ok expr) :
    (Lexed.ofSource source).Complete ∧ Program (Lexed.ofSource source).tokens := by
  have hyields : Yields (Expr.parse source) fun _ =>
      Program (Lexed.ofSource source).tokens ∧ (Lexed.ofSource source).Complete := by
    unfold Expr.parse Parser.start Cursor.checked
    dsimp only
    -- a source that does not even start has no tree, so there is a first place
    split
    · exact .error
    · rename_i hfault
      exact program_sound hfault
  exact (hyields expr hparse).symm

/-- A complete source whose tokens are a program is accepted, or its nesting is too deep. -/
theorem Parser.parse_accepts {source : String} (hcomplete : (Lexed.ofSource source).Complete)
    (hprogram : Program (Lexed.ofSource source).tokens) :
    Accepts False (Expr.parse source) fun _ => True := by
  obtain ⟨before, ts, behind, htokens, hderives, hbrace⟩ := hprogram
  rw [List.append_assoc] at htokens
  have htakes := (accepted_of_derives hderives).1 maxNesting
  exact (parse_takes hcomplete htokens (opens_of_derives hderives rfl) hbrace htakes).mono
    fun _ _ => trivial

/-- **The parser accepts exactly its grammar**: a source that is not nested too deeply is an
expression just if it ends after its last token and its tokens are a program. One direction is
`Parser.program_of_parse`, which follows the rules; the other one is `Parser.parse_accepts`, which
follows the derivation. -/
theorem parse_accepts_iff (source : String)
    (hdeep : ∀ limit position, Expr.parse source ≠ .error (.nestingTooDeep limit position)) :
    (∃ expr, Expr.parse source = .ok expr) ↔
      (Lexed.ofSource source).Complete ∧ Program (Lexed.ofSource source).tokens := by
  constructor
  · rintro ⟨expr, hparse⟩
    exact Parser.program_of_parse hparse
  · -- the rules refuse a program only where it is nested too deeply, which is excluded
    rintro ⟨hcomplete, hprogram⟩
    obtain ⟨expr, hparse, _⟩ | ⟨_, limit, position, herror⟩ :=
      Parser.parse_accepts hcomplete hprogram
    · exact ⟨expr, hparse⟩
    · exact absurd herror (hdeep limit position)

/-- Holes in an array, a shorthand property, a conditional and an arrow function make a program; a
comma without an argument does not. -/
theorem parse_accepts_iff_holes :
    Program (Lexed.ofSource ";f(x => x.in[0], [, a,], \x7bb, 'c': d ? 1 : -2,\x7d,);").tokens ∧
      ¬Program (Lexed.ofSource "f(,)").tokens := by
  have hread :
      (Expr.parse ";f(x => x.in[0], [, a,], \x7bb, 'c': d ? 1 : -2,\x7d,);").toOption.map Expr.depth =
        some 2 := by
    decide +kernel
  obtain ⟨expr, hparse, _⟩ := exists_of_map_toOption hread
  have hreject : (match Expr.parse "f(,)" with
      | .error error => some error
      | .ok _ => none) = some (.unexpectedToken "," 2) := by
    decide +kernel
  -- neither source is nested too deeply: the outcome of each is known
  constructor
  · refine ((parse_accepts_iff _ fun limit position herror => ?_).mp ⟨expr, hparse⟩).2
    cases hparse.symm.trans herror
  · intro hprogram
    have hcomplete : (Lexed.ofSource "f(,)").Complete := ⟨4, by decide +kernel⟩
    obtain ⟨other, hother⟩ := (parse_accepts_iff "f(,)" fun limit position herror => by
      rw [herror] at hreject
      cases hreject).mpr ⟨hcomplete, hprogram⟩
    rw [hother] at hreject
    cases hreject

end Stencil
