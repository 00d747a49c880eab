import Mathlib.Data.List.TakeWhile
import Stencil.Proofs.Paths

/-!
# Paths put together

Two paths with a dot between them are one path: it finds in a document what the second one finds in
what the first one finds. The one thing that the dot must not meet is a backslash that takes it
along.

* **`EndsUnpaired`** — the path ends in such a backslash: with an odd number of them.
* **`splitFrom_append_dot`** — behind any other path a dot ends the segment. Induction on the
  splitter, which takes backslashes in pairs with the characters behind them, and that keeps the
  parity.
* **`Json.follow_append`** — segments are followed in two runs as in one.
* **`paths_compose`** — segments are split as they were put together, and parts are found in two
  steps as in one.
-/

namespace Stencil

/-! ## Backslashes at the end

Whether the last backslash of a text takes the character behind it depends on how many backslashes
there are at the end: they pair up from the left. So the number is taken from the end of the text,
and what matters of it is its parity. -/

/-- The backslashes at the end, back to the last other character. -/
def trailingBackslashes (cs : List Char) : Nat := (cs.reverse.takeWhile (· = '\\')).length

/-- The path ends in a backslash that no backslash in front of it takes. -/
def EndsUnpaired (path : String) : Prop := trailingBackslashes path.toList % 2 = 1

instance : DecidablePred EndsUnpaired :=
  fun path => inferInstanceAs (Decidable (trailingBackslashes path.toList % 2 = 1))

theorem trailingBackslashes_le (cs : List Char) : trailingBackslashes cs ≤ cs.length := by
  have hle := (List.takeWhile_prefix (p := fun c => decide (c = '\\')) (l := cs.reverse)).length_le
  rwa [List.length_reverse] at hle

/-- A character in front counts only if there is nothing but backslashes. -/
theorem trailingBackslashes_cons (c : Char) (cs : List Char) :
    trailingBackslashes (c :: cs) =
      if c = '\\' ∧ trailingBackslashes cs = cs.length then cs.length + 1
      else trailingBackslashes cs := by
  by_cases hc : c = '\\' <;> by_cases hall : trailingBackslashes cs = cs.length <;>
    simp_all [trailingBackslashes, List.takeWhile_append]

theorem trailingBackslashes_plain {c : Char} (hc : c ≠ '\\') (cs : List Char) :
    trailingBackslashes (c :: cs) = trailingBackslashes cs := by
  rw [trailingBackslashes_cons, if_neg fun h => hc h.1]

/-- A backslash and the character that it takes, whatever it is, leave the parity as it is. -/
theorem trailingBackslashes_pair (c : Char) (cs : List Char) :
    trailingBackslashes ('\\' :: c :: cs) % 2 = trailingBackslashes cs % 2 := by
  have hle := trailingBackslashes_le cs
  -- the pair counts only if all that follows it is backslashes
  simp only [trailingBackslashes_cons, List.length_cons, true_and]
  split_ifs <;> omega

/-! ## Segments

The splitter goes over the path once and takes a character along with every backslash. Behind a path
that does not end in an unpaired backslash it is at the start of a character, so a dot there ends
the segment. -/

/-- **A dot ends a segment**, unless a backslash takes it. Induction along the walk over what is in
front of the dot; a backslash is taken together with its companion, so the number of those at the
end stays odd or even with each pair. -/
theorem splitFrom_append_dot (segment front back : List Char)
    (h : trailingBackslashes front % 2 ≠ 1) :
    splitFrom segment (front ++ '.' :: back) = splitFrom segment front ++ splitFrom [] back := by
  fun_induction splitFrom segment front with
  | case1 segment => exact splitFrom_dot segment back
  | case2 segment => exact absurd rfl h
  | case3 segment c cs ih =>
    rw [trailingBackslashes_pair] at h
    exact ih h
  | case4 segment cs hlast hescape ih =>
    rw [trailingBackslashes_plain (by decide)] at h
    rw [List.cons_append, splitFrom_dot, ih h, List.cons_append]
  -- the character is no backslash, since a backslash was taken together with its companion
  | case5 segment c cs hlast hescape hdot ih =>
    have hbackslash : c ≠ '\\' := by
      rintro rfl
      cases cs with
      | nil => exact hlast rfl rfl
      | cons d cs => exact hescape d cs rfl rfl
    rw [trailingBackslashes_plain hbackslash] at h
    rw [List.cons_append, splitFrom_plain hdot hbackslash, ih h]

/-- The segments of two paths with a dot between them are those of the first and those of the
second. -/
theorem splitPath_append_dot {path : String} (h : ¬ EndsUnpaired path) (rest : String) :
    splitPath (path ++ "." ++ rest) = splitPath path ++ splitPath rest := by
  have hchars : (path ++ "." ++ rest).toList = path.toList ++ '.' :: rest.toList := by
    rw [String.toList_append, String.toList_append, List.append_assoc]
    rfl
  rw [splitPath, hchars, splitFrom_append_dot [] path.toList rest.toList h, splitPath, splitPath]

/-! ## Parts

To follow segments is to go down from part to part, so that a list of segments may be cut anywhere.
The two paths of the theorem may not be empty, since the empty path finds nothing while the list of
its segments has one, the empty key. -/

/-- **Segments are followed in two runs as in one.** The length of an array is a number, so that it
has no parts in either. -/
theorem Json.follow_append (document : Json) (segments more : List String) :
    document.follow (segments ++ more) =
      (document.follow segments).bind fun part => part.follow more := by
  induction segments generalizing document with
  | nil => rw [List.nil_append, follow_nil, Option.bind_some]
  | cons segment segments ih =>
    rw [List.cons_append, follow_cons, follow_cons document segment segments, Option.bind_assoc]
    exact Option.bind_congr fun part _ => ih part

/-- **Paths compose.** Escaped segments with dots between them are split into the same segments
again, whatever they are and however many, as long as there is one. And a path with another one
behind a dot finds in a document what the second one finds in the part that the first one finds, and
nothing if the first one finds nothing: for all paths but empty ones, and unless a backslash takes
the dot. -/
theorem paths_compose :
    (∀ segments : List String, segments ≠ [] →
      splitPath (".".intercalate (segments.map escapeSegment)) = segments) ∧
    ∀ (document : Json) (path rest : String), path ≠ "" → rest ≠ "" → ¬ EndsUnpaired path →
      document.resolve (path ++ "." ++ rest) =
        (document.resolve path).bind fun part => part.resolve rest := by
  constructor
  · intro segments hsegments
    obtain ⟨segment, segments, rfl⟩ := List.exists_cons_of_ne_nil hsegments
    exact splitPath_intercalate segment segments
  · intro document path rest hpath hrest hpaired
    have hwhole : path ++ "." ++ rest ≠ "" := by
      intro hempty
      have hchars := congrArg String.toList hempty
      simp at hchars
    unfold Json.resolve
    simp only [if_neg hpath, if_neg hrest, if_neg hwhole, splitPath_append_dot hpaired,
      Json.follow_append]

/-- The length of the array under a key that is a backslash. The path of the key ends in two of
them, which pair up. -/
theorem paths_compose_length :
    let document := Json.object [("\\", .array [.null, .boolean true])]
    splitPath (".".intercalate (["\\", "#"].map escapeSegment)) = ["\\", "#"] ∧
      ¬ EndsUnpaired "\\\\" ∧ document.resolve "\\\\.#" = some (.number "2") := by
  intro document
  have hpaired : ¬ EndsUnpaired "\\\\" := by decide
  have hcomposed := paths_compose.2 document "\\\\" "#" (by decide) (by decide) hpaired
  have harray : document.resolve "\\\\" = some (.array [.null, .boolean true]) := rfl
  rw [harray] at hcomposed
  exact ⟨paths_compose.1 ["\\", "#"] (by decide), hpaired, hcomposed⟩

/-- A backslash without a partner makes the dot a character of the key. -/
example : EndsUnpaired "a\\" ∧ splitPath ("a\\" ++ "." ++ "b") = ["a.b"] := by decide

end Stencil
