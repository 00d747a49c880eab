import Stencil.Proofs.Rules

/-!
# The sources of constructs without a value

A construct without a value becomes a leaf that keeps a part of the source. That part is cut out by
two positions, one from before the construct was read and one from behind it, and all that is
between them are the tokens of the construct.

* **`Cursor.In`** — a place of a parser belongs to a source: its tokens are the last ones of the
  source, and the token before it is where the place says.
* **`Cursor.In.exists_run`** — what was read between two places of a source is a run of its tokens.
* **`sourced_of_parse`** — every such leaf of an accepted source is a run of tokens that is the
  construct of its name, with the text between the run's two ends.
-/

namespace Stencil

open Text

mutual

/-- The constructs without a value in the tree, each with its source. -/
def Expr.unsupportedLeaves : Expr → List (String × String)
  | .number _ | .string _ | .boolean _ | .identifier _ => []
  | .member base _ => base.unsupportedLeaves
  | .index base element => base.unsupportedLeaves ++ element.unsupportedLeaves
  | .binary _ left right => left.unsupportedLeaves ++ right.unsupportedLeaves
  | .call callee arguments => callee.unsupportedLeaves ++ Expr.unsupportedLeavesList arguments
  | .unsupported construct source => [(construct, source)]

/-- The constructs without a value in several trees. -/
def Expr.unsupportedLeavesList : List Expr → List (String × String)
  | [] => []
  | expr :: exprs => expr.unsupportedLeaves ++ Expr.unsupportedLeavesList exprs

end

/-- The leaves of several trees are those of each of them. -/
theorem Expr.mem_unsupportedLeavesList {leaf : String × String} {exprs : List Expr} :
    leaf ∈ Expr.unsupportedLeavesList exprs ↔ ∃ expr ∈ exprs, leaf ∈ expr.unsupportedLeaves := by
  induction exprs with
  | nil => simp [Expr.unsupportedLeavesList]
  | cons expr exprs ih => simp [Expr.unsupportedLeavesList, ih]

namespace Parser

/-! ## The places of a source

The parser works on the list of tokens that are left and keeps the end of the token before them. So
a place of a source is known by two facts, that the tokens left are the last ones of the source, and
that the end is the one of the token in front of these. Both are kept when the parser moves on, and
two places determine the tokens between them. -/

/-- The place is one of the source. -/
structure Cursor.In (source : String) (c : Cursor) : Prop where
  source_eq : c.source = source.toList
  exists_before : ∃ before, (Lexed.ofSource source).lexemes = before ++ c.lexemes ∧
    ∀ last ∈ before.getLast?, c.previousStop = last.stop

namespace Cursor.In

variable {source : String} {c d : Cursor}

/-- The parser starts at a place of its source, with no token before it. -/
theorem start : Yields (start source) (Cursor.In source) := by
  unfold Parser.start Cursor.checked
  dsimp only
  split
  · exact .error
  · refine .ok ⟨rfl, [], rfl, ?_⟩
    rintro _ ⟨⟩

/-- The place behind a token is one of the source again. -/
theorem advance {token : Token} (htoken : c.token? = some token) (h : c.In source) :
    Yields (c.advance htoken) fun taken => taken.next.In source := by
  obtain ⟨before, hlexemes, _⟩ := h.exists_before
  unfold Cursor.advance
  split
  · rename_i hnone
    simp [Cursor.token?, hnone] at htoken
  · rename_i lexeme lexemes hcons
    dsimp only
    split
    · exact .error
    · refine .ok ⟨h.source_eq, before ++ [lexeme], ?_, ?_⟩
      · show (Lexed.ofSource source).lexemes = before ++ [lexeme] ++ lexemes
        rw [hlexemes, hcons, List.append_assoc, List.singleton_append]
      · intro last hlast
        rw [List.getLast?_concat] at hlast
        cases hlast
        rfl

/-- **Between two places of a source stands a run of its tokens.** Both places have the rest of the
tokens of the source behind them, so the second rest ends the first one and the run is the
difference. The first place knows where the run starts, and the second one where it stops. -/
theorem exists_run {ts : List Token} (hc : c.In source) (hd : d.In source)
    (htokens : c.tokens = ts ++ d.tokens) (hne : ts ≠ []) :
    ∃ before inside first last, (Lexed.ofSource source).lexemes = before ++ (inside ++ d.lexemes) ∧
      inside.map Lexeme.token = ts ∧ inside.head? = some first ∧ inside.getLast? = some last ∧
      c.position = first.start ∧ d.previousStop = last.stop := by
  obtain ⟨before, hbefore, _⟩ := hc.exists_before
  obtain ⟨before', hbefore', hstop⟩ := hd.exists_before
  have hmap : c.lexemes.map Lexeme.token = ts ++ d.lexemes.map Lexeme.token := htokens
  -- both places have the last tokens of the source before them, and the second one has fewer
  have hle : d.lexemes.length ≤ c.lexemes.length := by
    have hlength := congrArg List.length hmap
    simp only [List.length_map, List.length_append] at hlength
    omega
  obtain ⟨inside, hinside⟩ : d.lexemes <:+ c.lexemes :=
    List.suffix_of_suffix_length_le ⟨before', hbefore'.symm⟩ ⟨before, hbefore.symm⟩ hle
  -- so what the second one has less is the run
  have hrun : inside.map Lexeme.token = ts := by
    rw [← hinside, List.map_append] at hmap
    exact List.append_cancel_right hmap
  have hsplit : before' = before ++ inside := by
    rw [hbefore', ← hinside, ← List.append_assoc] at hbefore
    exact List.append_cancel_right hbefore
  have hinsideNe : inside ≠ [] := by
    rintro rfl
    exact hne hrun.symm
  obtain ⟨first, others, rfl⟩ := List.exists_cons_of_ne_nil hinsideNe
  have hlast := List.getLast?_eq_some_getLast hinsideNe
  refine ⟨before, first :: others, first, _, by rw [hbefore, hinside], hrun, rfl, hlast, ?_, ?_⟩
  · unfold Cursor.position
    rw [← hinside]
    rfl
  · refine hstop _ ?_
    rw [hsplit, List.getLast?_append, hlast]
    rfl

end Cursor.In

/-! ## Leaves and their sources

A leaf is made at the place behind its construct, from the position where the construct started.
What was read in between is a run of tokens that the construct's own grammar describes, so the
source of the leaf is what the run spans. Other nodes only hand on the leaves of their parts. -/

theorem Construct.ne_nil {construct : String} {ts : List Token} (h : Construct construct ts) :
    ts ≠ [] := by
  cases h <;> simp

/-- A run of tokens of the source is the construct, and the text is what the source holds from where
the first of them starts to where the last one stops. -/
def Sourced (source : String) (leaf : String × String) : Prop :=
  ∃ before inside after first last,
    (Lexed.ofSource source).lexemes = before ++ (inside ++ after) ∧
    inside.head? = some first ∧ inside.getLast? = some last ∧
    Construct leaf.1 (inside.map Lexeme.token) ∧
    leaf.2 = String.ofList (slice source.toList first.start last.stop)

/-- The leaf that is made for a construct is the source of the run that was read for it. -/
theorem sourced_unsupported {source construct : String} {c next : Cursor} {ts : List Token}
    (hc : c.In source) (hnext : next.In source) (hreads : c.Reads ts next)
    (hmade : Construct construct ts) :
    Sourced source (construct, String.ofList (slice next.source c.position next.previousStop)) := by
  obtain ⟨before, inside, first, last, hlexemes, hrun, hfirst, hlast, hstart, hstop⟩ :=
    hc.exists_run hnext hreads.tokens_eq hmade.ne_nil
  refine ⟨before, inside, next.lexemes, first, last, hlexemes, hfirst, hlast, hrun ▸ hmade, ?_⟩
  rw [hnext.source_eq, hstart, hstop]

/-- **Leaves come from their own sources.** A construct has itself as its only leaf, and
`sourced_unsupported` is about its text; every other tree has the leaves of its parts, which come
from their sources by the hypotheses of the invariant. -/
theorem sourced_invariant (source : String) :
    Invariant (Cursor.In source) fun node =>
      ∀ leaf ∈ node.expr.unsupportedLeaves, Sourced source leaf where
  advance htoken hc := hc.advance htoken
  leaf _ hleaf := by
    -- none of these trees is a construct
    cases hleaf <;> exact fun leaf hmem => by cases hmem
  unsupported hc hnext hreads hmade := by
    intro leaf hmem
    cases List.mem_singleton.mp hmem
    exact sourced_unsupported hc hnext hreads hmade
  member _ _ hbase _ := hbase
  index hbase helement _ := by
    intro leaf hmem
    exact (List.mem_append.mp hmem).elim (hbase leaf) (helement leaf)
  call hcallee harguments _ := by
    intro leaf hmem
    rcases List.mem_append.mp hmem with hmem | hmem
    · exact hcallee leaf hmem
    · obtain ⟨_, hexpr, hmem⟩ := Expr.mem_unsupportedLeavesList.mp hmem
      obtain ⟨node, hnode, rfl⟩ := List.mem_map.mp hexpr
      exact harguments node hnode leaf hmem
  binary _ hleft hright _ := by
    intro leaf hmem
    exact (List.mem_append.mp hmem).elim (hleft leaf) (hright leaf)

end Parser

/-- Every leaf of an accepted source comes from a run of its tokens. -/
theorem sourced_of_parse {source : String} {tree : Expr} (hparse : Expr.parse source = .ok tree) :
    ∀ leaf ∈ tree.unsupportedLeaves, Parser.Sourced source leaf := by
  obtain ⟨node, hroot, rfl⟩ := Parser.exists_root hparse
  -- the invariant, carried through all rules
  exact Parser.root_keeps (Parser.sourced_invariant source) Parser.Cursor.In.start node hroot

end Stencil
