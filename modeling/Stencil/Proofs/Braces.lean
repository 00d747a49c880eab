import Stencil.Fragment

/-!
# Brace depth

How many braces a text leaves open, and what that says about `Piece.takeBalanced`, which looks for
the brace that closes a placeholder.

* **`braceDepth`** — opening braces less closing ones. It is an integer, so a text that closes more
  than it opens has a negative depth.
* **`ClosesAtMost`** — the same for every prefix: how many braces a text may close that were opened
  in front of it. With the bound `0` this is one half of being balanced.
* **`takeBalanced_eq_some_iff`**, **`takeBalanced_eq_none_iff`** — what the search finds, and when
  it finds nothing, in terms of these two. Both are inductions along the search, whose counter of
  open braces is the bound of `ClosesAtMost`.
-/

namespace Stencil

/-- The braces that `cs` opens less the braces that it closes. -/
def braceDepth (cs : List Char) : Int := (cs.count '{' : Int) - (cs.count '}' : Int)

/-- Every prefix of `cs` closes at most `bound` braces more than it opens. -/
def ClosesAtMost (bound : Nat) (cs : List Char) : Prop :=
  ∀ p, p <+: cs → 0 ≤ (bound : Int) + braceDepth p

/-- No prefix of `cs` closes more braces than it opens, and `cs` closes all that it opens. -/
def Balanced (cs : List Char) : Prop := ClosesAtMost 0 cs ∧ braceDepth cs = 0

/-- After each character of `cs` at least one brace is open. -/
def StaysOpen (cs : List Char) : Prop := ∀ p, p <+: cs → p ≠ [] → 1 ≤ braceDepth p

/-! ## Depth, character by character

The depth of a text is a difference of two counts, so it changes with the first character alone.
These are the only places where the counts are opened. -/

@[simp] theorem braceDepth_nil : braceDepth [] = 0 := rfl

@[simp] theorem braceDepth_open (cs : List Char) : braceDepth ('{' :: cs) = braceDepth cs + 1 := by
  rw [braceDepth, List.count_cons_self, List.count_cons_of_ne (by decide), braceDepth]
  push_cast
  omega

@[simp] theorem braceDepth_close (cs : List Char) : braceDepth ('}' :: cs) = braceDepth cs - 1 := by
  rw [braceDepth, List.count_cons_of_ne (by decide), List.count_cons_self, braceDepth]
  push_cast
  omega

theorem braceDepth_other {c : Char} (hopen : c ≠ '{') (hclose : c ≠ '}') (cs : List Char) :
    braceDepth (c :: cs) = braceDepth cs := by
  rw [braceDepth, List.count_cons_of_ne hopen, List.count_cons_of_ne hclose, braceDepth]

/-! ## Bounds, character by character

A bound holds of a text iff it holds of every prefix that has the first character: the empty prefix
closes nothing. -/

theorem closesAtMost_nil (bound : Nat) : ClosesAtMost bound [] := by
  intro p hp
  rw [List.prefix_nil.mp hp]
  simp

/-- The bound of a text is a bound of the prefixes that have its first character. -/
theorem closesAtMost_cons {bound : Nat} {c : Char} {cs : List Char} :
    ClosesAtMost bound (c :: cs) ↔
      ∀ p, p <+: cs → 0 ≤ (bound : Int) + braceDepth (c :: p) := by
  constructor
  · intro h p hp
    exact h (c :: p) (List.cons_prefix_cons.mpr ⟨rfl, hp⟩)
  · intro h p hp
    rcases List.prefix_cons_iff.mp hp with rfl | ⟨t, rfl, ht⟩
    · simp
    · exact h t ht

/-- Behind an opening brace one brace more may be closed. -/
@[simp] theorem closesAtMost_open {bound : Nat} {cs : List Char} :
    ClosesAtMost bound ('{' :: cs) ↔ ClosesAtMost (bound + 1) cs := by
  rw [closesAtMost_cons]
  refine forall_congr' fun p => imp_congr_right fun _ => ?_
  rw [braceDepth_open]
  push_cast
  omega

/-- Behind a closing brace one brace less may be closed. -/
@[simp] theorem closesAtMost_close_succ {bound : Nat} {cs : List Char} :
    ClosesAtMost (bound + 1) ('}' :: cs) ↔ ClosesAtMost bound cs := by
  rw [closesAtMost_cons]
  refine forall_congr' fun p => imp_congr_right fun _ => ?_
  rw [braceDepth_close]
  push_cast
  omega

/-- With nothing open, a text that starts with a closing brace breaks the bound at once. -/
theorem not_closesAtMost_close (cs : List Char) : ¬ ClosesAtMost 0 ('}' :: cs) := by
  intro h
  have hfirst := closesAtMost_cons.mp h [] (List.nil_prefix)
  simp at hfirst

/-- Other characters leave the bound as it is. -/
theorem closesAtMost_other {bound : Nat} {c : Char} {cs : List Char} (hopen : c ≠ '{')
    (hclose : c ≠ '}') : ClosesAtMost bound (c :: cs) ↔ ClosesAtMost bound cs := by
  rw [closesAtMost_cons]
  refine forall_congr' fun p => imp_congr_right fun _ => ?_
  rw [braceDepth_other hopen hclose]

/-- Behind an opening brace, staying open is closing nothing that was opened in front. -/
theorem staysOpen_open {cs : List Char} : StaysOpen ('{' :: cs) ↔ ClosesAtMost 0 cs := by
  constructor
  · intro h p hp
    have hdepth := h ('{' :: p) (List.cons_prefix_cons.mpr ⟨rfl, hp⟩) (by simp)
    rw [braceDepth_open] at hdepth
    omega
  · intro h p hp hne
    rcases List.prefix_cons_iff.mp hp with rfl | ⟨t, rfl, ht⟩
    · exact absurd rfl hne
    · have hdepth := h t ht
      rw [braceDepth_open]
      omega

/-! ## The search for the closing brace

The counter of the search is the number of braces that are open besides the outermost one. It goes
up and down with the depth, and the search stops where it would go below zero. So the text in front
of the brace that is found is one that the counter bounds, and with the counter it has depth zero;
conversely the search cannot stop inside such a text. -/

namespace Piece

/-- **What the search takes is balanced**: the text in front of the closing brace closes exactly the
braces that were open but for the outermost one, and never that one. Induction along the search,
with the number of open braces as it changes. -/
theorem takeBalanced_sound {depth : Nat} {cs source rest : List Char}
    (h : takeBalanced depth cs = some (source, rest)) :
    ClosesAtMost depth source ∧ (depth : Int) + braceDepth source = 0 := by
  fun_induction takeBalanced depth cs generalizing source with
  | case1 => cases h
  | case2 cs =>
    cases h
    exact ⟨closesAtMost_nil 0, by simp⟩
  -- a closing brace that belongs to an inner one
  | case3 cs depth ih =>
    obtain ⟨⟨source', rest'⟩, hfound, hsame⟩ := Option.map_eq_some_iff.mp h
    cases hsame
    obtain ⟨hbound, hdepth⟩ := ih hfound
    refine ⟨closesAtMost_close_succ.mpr hbound, ?_⟩
    rw [braceDepth_close]
    push_cast
    omega
  | case4 depth c cs hclose ih =>
    obtain ⟨⟨source', rest'⟩, hfound, hsame⟩ := Option.map_eq_some_iff.mp h
    cases hsame
    obtain ⟨hbound, hdepth⟩ := ih hfound
    -- the counter went up exactly if the character opens a brace
    by_cases hopen : c = '{'
    · subst hopen
      simp only [if_true] at hbound hdepth
      refine ⟨closesAtMost_open.mpr hbound, ?_⟩
      rw [braceDepth_open]
      push_cast at hdepth
      omega
    · simp only [hopen, if_false] at hbound hdepth
      refine ⟨(closesAtMost_other hopen hclose).mpr hbound, ?_⟩
      rwa [braceDepth_other hopen hclose]

/-- **The search finds the brace** behind a text that closes what is open but for the outermost
brace. With `takeBalanced_sound` the source of a placeholder is the text up to the brace that closes
it, and no other. -/
theorem takeBalanced_complete {depth : Nat} {source : List Char} (rest : List Char)
    (hbound : ClosesAtMost depth source) (hdepth : (depth : Int) + braceDepth source = 0) :
    takeBalanced depth (source ++ '}' :: rest) = some (source, rest) := by
  induction source generalizing depth with
  | nil =>
    have hzero : depth = 0 := by simpa using hdepth
    subst hzero
    simp [takeBalanced]
  | cons c source ih =>
    rw [List.cons_append]
    -- in each case the bound of the rest is the counter that the search goes on with
    by_cases hclose : c = '}'
    · subst hclose
      cases depth with
      | zero =>
        -- here the search would stop too early, but `source` may close nothing more
        exact absurd hbound (not_closesAtMost_close source)
      | succ depth =>
        rw [braceDepth_close] at hdepth
        have hinner := ih (closesAtMost_close_succ.mp hbound) (by push_cast at hdepth; omega)
        simp [takeBalanced, hinner]
    · by_cases hopen : c = '{'
      · subst hopen
        rw [braceDepth_open] at hdepth
        have hinner := ih (closesAtMost_open.mp hbound) (by push_cast; omega)
        simp [takeBalanced, hinner]
      · rw [braceDepth_other hopen hclose] at hdepth
        have hinner := ih ((closesAtMost_other hopen hclose).mp hbound) hdepth
        simp [takeBalanced, hclose, hopen, hinner]

/-- What the search finds: the shortest text in front of a closing brace that closes as many braces
as the counter says. -/
theorem takeBalanced_eq_some_iff {depth : Nat} {cs source rest : List Char} :
    takeBalanced depth cs = some (source, rest) ↔
      cs = source ++ '}' :: rest ∧ ClosesAtMost depth source ∧
        (depth : Int) + braceDepth source = 0 := by
  constructor
  · intro h
    exact ⟨takeBalanced_eq h, takeBalanced_sound h⟩
  · intro h
    obtain ⟨rfl, hbound, hdepth⟩ := h
    exact takeBalanced_complete rest hbound hdepth

/-- A text is balanced iff a brace put behind it is the one that the search finds. -/
theorem balanced_iff_takeBalanced {cs : List Char} :
    Balanced cs ↔ takeBalanced 0 (cs ++ ['}']) = some (cs, []) := by
  rw [takeBalanced_eq_some_iff, Balanced]
  constructor
  · intro h
    obtain ⟨hbound, hdepth⟩ := h
    exact ⟨rfl, hbound, by simpa using hdepth⟩
  · intro h
    obtain ⟨_, hbound, hdepth⟩ := h
    exact ⟨hbound, by simpa using hdepth⟩

instance (cs : List Char) : Decidable (Balanced cs) :=
  decidable_of_iff _ balanced_iff_takeBalanced.symm

/-- Nothing is found exactly if the outermost brace stays open to the end of the text. Induction
along the search, in whose third case the bound and the counter go down together. -/
theorem takeBalanced_eq_none_iff {depth : Nat} {cs : List Char} :
    takeBalanced depth cs = none ↔ ClosesAtMost depth cs := by
  fun_induction takeBalanced depth cs with
  | case1 depth => simp [closesAtMost_nil]
  | case2 cs => simp [not_closesAtMost_close]
  | case3 cs depth ih => rw [Option.map_eq_none_iff, ih, closesAtMost_close_succ]
  | case4 depth c cs hclose ih =>
    rw [Option.map_eq_none_iff, ih]
    by_cases hopen : c = '{'
    · subst hopen
      simp
    · simp only [hopen, if_false]
      exact (closesAtMost_other hopen hclose).symm

end Piece

end Stencil
