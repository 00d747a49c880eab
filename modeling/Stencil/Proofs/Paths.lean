import Stencil.Function.Host
import Stencil.Template
import Stencil.Proofs.Nesting

/-!
# Paths and member chains

A chain of members such as `$a.b.c` finds its value one name at a time, through the value in
between; a path finds it in the document in one go. Both find the same.

* **`splitPath_intercalate`** — a path put together from escaped segments is split into them again.
  Induction on the segments, over a walk that is followed character by character.
* **`Json.follow_cons`** — following a segment first and then the others is following all of them.
* **`Finds.member`**, **`Finds.members`** — what one member of a chain finds, and from it what the
  whole chain finds.
* **`evaluate_members`** — the chain on a root name and the path of the same keys.
-/

namespace Stencil

/-! ## Segments of a path

A path is written with a dot between its segments and a backslash in front of a character that would
mean something else. Splitting goes through it character by character with the segment so far in
reverse; written segments are put back in the same order, so each of the lemmas is about one written
piece in front of any rest. -/

/-- A character that means nothing in a path goes into the segment. -/
theorem splitFrom_plain {c : Char} (hdot : c ≠ '.') (hbackslash : c ≠ '\\')
    (segment cs : List Char) : splitFrom segment (c :: cs) = splitFrom (c :: segment) cs := by
  rw [splitFrom, if_neg hdot]
  · exact fun heq _ => hbackslash heq
  · exact fun _ _ heq _ => hbackslash heq

/-- An escaped character is taken into the segment, whatever it is. -/
theorem splitFrom_escapedPathChar (segment : List Char) (c : Char) (cs : List Char) :
    splitFrom segment (escapedPathChar c ++ cs) = splitFrom (c :: segment) cs := by
  unfold escapedPathChar
  split
  · rfl
  · next hplain =>
    rw [not_or] at hplain
    exact splitFrom_plain hplain.1 hplain.2 segment cs

/-- A whole key, escaped, goes into the segment. Induction on the key, one escaped character at a
time, with the segment so far left general. -/
theorem splitFrom_escaped (segment key cs : List Char) :
    splitFrom segment (key.flatMap escapedPathChar ++ cs) = splitFrom (key.reverse ++ segment) cs := by
  induction key generalizing segment with
  | nil => rfl
  | cons c key ih =>
    rw [List.flatMap_cons, List.append_assoc, splitFrom_escapedPathChar, ih, List.reverse_cons,
      List.append_assoc]
    rfl

theorem splitFrom_dot (segment cs : List Char) :
    splitFrom segment ('.' :: cs) = String.ofList segment.reverse :: splitFrom [] cs := by
  simp [splitFrom]

/-- The path of a single key has that key as its only segment, dots and backslashes in it included.
-/
theorem splitPath_escapeSegment (key : String) : splitPath (escapeSegment key) = [key] := by
  have hsplit := splitFrom_escaped [] key.toList []
  rw [List.append_nil, List.append_nil] at hsplit
  rw [splitPath, escapeSegment, String.toList_ofList, hsplit, splitFrom, List.reverse_reverse,
    String.ofList_toList]

/-- **An escaped path is split into its keys**, any keys, the empty one among them. Induction on the
keys: the first is taken into the segment, the dot behind it ends the segment, and what is left is
the path of the others. -/
theorem splitPath_intercalate (key : String) (keys : List String) :
    splitPath (".".intercalate ((key :: keys).map escapeSegment)) = key :: keys := by
  induction keys generalizing key with
  | nil =>
    rw [List.map_singleton, String.intercalate_singleton]
    exact splitPath_escapeSegment key
  | cons next keys ih =>
    -- the dot is a string of one character between the segments
    have hdot : ".".toList = ['.'] := rfl
    rw [List.map_cons, List.map_cons, String.intercalate_cons_cons, splitPath, String.toList_append,
      String.toList_append, escapeSegment, String.toList_ofList, hdot, List.append_assoc,
      splitFrom_escaped, List.singleton_append, splitFrom_dot, List.append_nil,
      List.reverse_reverse, String.ofList_toList]
    exact congrArg (key :: ·) (ih next)

/-! ## Parts of a document

Following segments is a recursion of its own, over the document and not over the expression. It
composes, and that is all a chain needs to know about it. -/

namespace Json

theorem follow_nil (document : Json) : document.follow [] = some document := by
  cases document <;> rfl

/-- **A path is followed segment by segment.** What the first one finds is the document for the
others. The length of an array is the one part that is not stored in the document, and it has no
parts in turn. -/
theorem follow_cons (document : Json) (segment : String) (segments : List String) :
    document.follow (segment :: segments) =
      (document.follow [segment]).bind fun part => part.follow segments := by
  cases document with
  | object members =>
    simp only [follow, Option.bind_eq_bind]
    cases Assoc.get? segment members <;> rfl
  | array items =>
    by_cases hlength : segment = "#"
    · -- the length of an array is a number, which has no parts
      cases segments <;> simp [follow, hlength]
    · simp [follow, hlength, Option.bind_assoc]
  | _ => rfl

/-- A key by itself names a member of an object. -/
theorem follow_object (members : List (String × Json)) (key : String) :
    (Json.object members).follow [key] = Assoc.get? key members := by
  simp only [follow, Option.bind_eq_bind]
  cases Assoc.get? key members <;> rfl

/-- The empty path has the empty key as its one segment. `resolve` asks for the empty path before it
splits it, so this segment is never followed. -/
theorem splitPath_empty : splitPath "" = [""] := rfl

/-- The path of one key finds what the key names; the empty key names nothing. -/
theorem resolve_escapeSegment (document : Json) (key : String) :
    document.resolve (escapeSegment key) = if key = "" then none else document.follow [key] := by
  have hempty : escapeSegment key = "" ↔ key = "" := by
    constructor
    · intro hescaped
      have hsplit := splitPath_escapeSegment key
      rw [hescaped, splitPath_empty] at hsplit
      exact (List.singleton_inj.mp hsplit).symm
    · rintro rfl
      rfl
  unfold resolve
  simp only [hempty, splitPath_escapeSegment]

/-- The path of a list of keys follows them, one after the other. -/
theorem resolve_intercalate (document : Json) {key : String} (hkey : key ≠ "")
    (keys : List String) :
    document.resolve (".".intercalate ((key :: keys).map escapeSegment)) =
      document.follow (key :: keys) := by
  have hsplit := splitPath_intercalate key keys
  have hpath : ".".intercalate ((key :: keys).map escapeSegment) ≠ "" := by
    intro hempty
    rw [hempty, splitPath_empty] at hsplit
    exact hkey (List.cons.inj hsplit).1.symm
  rw [resolve, if_neg hpath, hsplit]

/-- In the document of a text it follows them as well. A text that holds none has no parts. -/
theorem resolveText_intercalate (text : String) {key : String} (hkey : key ≠ "")
    (keys : List String) :
    resolveText text (".".intercalate ((key :: keys).map escapeSegment)) =
      (read? text).bind fun document => document.follow (key :: keys) := by
  rw [resolveText]
  exact Option.bind_congr fun document _ => document.resolve_intercalate hkey keys

/-- Case makes a difference only where an object has a key twice but for it. In every other object
the path of a key finds the same whether case counts or not. -/
theorem resolveIgnoringCase_escapeSegment {members : List (String × Json)} {key : String}
    (hdistinct : ∀ member ∈ members, sameIgnoringCase member.1 key = true → member.1 = key) :
    (Json.object members).resolveIgnoringCase (escapeSegment key) = Assoc.get? key members := by
  rw [resolveIgnoringCase, splitPath_escapeSegment, followIgnoringCase]
  induction members with
  | nil => rfl
  | cons member members ih =>
    rw [List.forall_mem_cons] at hdistinct
    rw [Assoc.get?, List.find?_cons]
    by_cases hkey : key = member.1
    · have hsame : sameIgnoringCase member.1 key = true := by
        rw [hkey, sameIgnoringCase]
        exact beq_self_eq_true _
      rw [if_pos hkey, hsame]
      rfl
    · have hother : sameIgnoringCase member.1 key = false :=
        Bool.eq_false_iff.mpr fun hsame => hkey (hdistinct.1 hsame).symm
      rw [if_neg hkey, hother]
      exact ih hdistinct.2

/-- The parts of a value are those of the document that it is of: a number may be written anew, but
neither a number nor a string has parts. -/
theorem follow_toJson_ofJson (document : Json) (segment : String) (segments : List String) :
    (Value.ofJson document).toJson.follow (segment :: segments) =
      document.follow (segment :: segments) := by
  cases document with
  | number text =>
    simp only [Value.ofJson]
    cases Decimal.ofText? text with
    | none => rfl
    | some d =>
      simp only [Value.toJson]
      cases numberOfText d.canonicalText <;> rfl
  | _ => rfl

end Json

/-! ## Member chains

A chain is put together from its base outward, and evaluated from the outside in, one level deeper
at each member. `Finds` is what both directions have in common: it relates an outcome to a part of
the document, and a member takes it from one part to the next. -/

/-- The members along `keys`, each one of the one before. -/
def Expr.members (base : Expr) (keys : List String) : Expr := keys.foldl Expr.member base

namespace Environment

/-- The outcome is the value of the part that was looked for, or says that there is none. Which path
it names then depends on the member, so that is left open. -/
def Finds (outcome : Except Stop Value) : Option Json → Prop
  | some part => outcome = .ok (Value.ofJson part)
  | none => ∃ path, outcome = .error (.failed (.unknownVariable path))

namespace Finds

variable {outcome : Except Stop Value} {part? : Option Json}

/-- There is a value exactly if there is a part, and it is the value of the part. -/
theorem ok_iff (h : Finds outcome part?) {value : Value} :
    outcome = .ok value ↔ ∃ part, part? = some part ∧ Value.ofJson part = value := by
  cases part? with
  | some part =>
    have houtcome : outcome = .ok (Value.ofJson part) := h
    simp [houtcome]
  | none =>
    obtain ⟨path, rfl⟩ := h
    simp

/-- An unknown variable is reported exactly if there is no part. -/
theorem unknownVariable_iff (h : Finds outcome part?) :
    (∃ path, outcome = .error (.failed (.unknownVariable path))) ↔ part? = none := by
  cases part? with
  | some part =>
    have houtcome : outcome = .ok (Value.ofJson part) := h
    simp [houtcome]
  | none => exact iff_of_true h rfl

end Finds

variable {environment : Environment} {depth : Nat}

/-- Looking up a key in a value is following its one segment, but for the empty key, which is never
found. -/
theorem find?_escapeSegment (hresolve : environment.resolve = Json.resolve) (document : Json)
    (key : String) :
    environment.find? document (escapeSegment key) =
      if key = "" then none else (document.follow [key]).map Value.ofJson := by
  rw [find?, hresolve, Json.resolve_escapeSegment]
  by_cases hempty : key = ""
  · simp [hempty]
  · simp [hempty]

/-- A name with a dollar sign in front looks the rest of it up in the document. -/
theorem identifier_root (environment : Environment) (key : String) :
    environment.identifier ("$" ++ key) = .ofOption (.unknownVariable ("$" ++ key))
      (environment.find? environment.document (escapeSegment key)) := by
  have hname : ("$" ++ key).toList = '$' :: key.toList := by
    rw [String.toList_append]
    rfl
  unfold identifier
  rw [hname]
  simp only [String.ofList_toList]

/-- The root name finds the part of the document that its key names. It is where a chain starts. -/
theorem finds_identifier (hresolve : environment.resolve = Json.resolve) {key : String}
    (hkey : key ≠ "") (hdepth : depth ≤ environment.settings.evaluation.maxRecursionDepth) :
    Finds (environment.meaning (.identifier ("$" ++ key)) depth).result
      (environment.document.follow [key]) := by
  rw [meaning, within_of_le _ hdepth, identifier_root, find?_escapeSegment hresolve, if_neg hkey]
  cases environment.document.follow [key] with
  | some part => rfl
  | none => exact ⟨_, rfl⟩

/-- **One member of a chain.** It looks its key up in what the chain has found so far, one level
below. If the chain has found nothing, the error of the level below is the error of the whole;
otherwise the value found is turned back into a document, which has the parts of the one it came
from (`Json.follow_toJson_ofJson`). -/
theorem Finds.member (hresolve : environment.resolve = Json.resolve) {base : Expr} {key : String}
    (hkey : key ≠ "") (hdepth : depth ≤ environment.settings.evaluation.maxRecursionDepth)
    {part? : Option Json} (hbase : Finds (environment.meaning base (depth + 1)).result part?) :
    Finds (environment.meaning (.member base key) depth).result
      (part?.bind fun part => part.follow [key]) := by
  rw [meaning, within_of_le _ hdepth, Traced.result_bind]
  cases part? with
  | none =>
    obtain ⟨path, hpath⟩ := hbase
    rw [hpath]
    exact ⟨path, rfl⟩
  | some part =>
    have hvalue : (environment.meaning base (depth + 1)).result = .ok (Value.ofJson part) := hbase
    rw [hvalue]
    show Finds (environment.member _ key (.member base key)).result (part.follow [key])
    -- the value is turned back into a document before the key is looked up in it
    rw [Environment.member, find?_escapeSegment hresolve, if_neg hkey, Json.follow_toJson_ofJson]
    cases part.follow [key] with
    | some found => rfl
    | none => exact ⟨_, rfl⟩

/-- **A whole chain.** Induction on the keys, from the base outward; the base is as many levels
below the chain as there are keys, and `Finds.member` takes it up by one. What the keys after the
first one find is put together with `Json.follow_cons`. -/
theorem Finds.members (hresolve : environment.resolve = Json.resolve) {keys : List String}
    (hkeys : ∀ key ∈ keys, key ≠ "") {base : Expr} {part? : Option Json}
    (hdepth : depth + keys.length ≤ environment.settings.evaluation.maxRecursionDepth)
    (hbase : Finds (environment.meaning base (depth + keys.length)).result part?) :
    Finds (environment.meaning (base.members keys) depth).result
      (part?.bind fun part => part.follow keys) := by
  induction keys generalizing base part? with
  | nil =>
    simp only [Json.follow_nil, Option.bind_fun_some]
    exact hbase
  | cons key keys ih =>
    obtain ⟨hkey, hkeys⟩ := List.forall_mem_cons.mp hkeys
    rw [List.length_cons] at hdepth
    have hbase : Finds (environment.meaning base (depth + keys.length + 1)).result part? := hbase
    have hfirst := hbase.member hresolve hkey (by omega)
    have hchain := ih hkeys (by omega) hfirst
    rw [Option.bind_assoc] at hchain
    simp only [← Json.follow_cons] at hchain
    exact hchain

end Environment

/-- **A member chain and the path of its keys agree.** The chain on the root name of the first key
has a value exactly if the path finds a part of the document, and it is the value of that part; it
is an unknown variable exactly if the path finds none. That holds for all keys but empty ones, and
for chains no longer than the limit. -/
theorem evaluate_members (environment : Environment) (hresolve : environment.resolve = Json.resolve)
    (key : String) (keys : List String) (hkeys : ∀ k ∈ key :: keys, k ≠ "")
    (hlimit : keys.length ≤ environment.settings.evaluation.maxRecursionDepth) :
    (∀ value, (((Expr.identifier ("$" ++ key)).members keys).evaluate environment).result =
        .ok value ↔
      ∃ part, environment.document.resolve (".".intercalate ((key :: keys).map escapeSegment)) =
        some part ∧ Value.ofJson part = value) ∧
    ((∃ path, (((Expr.identifier ("$" ++ key)).members keys).evaluate environment).result =
        .error (.failed (.unknownVariable path))) ↔
      environment.document.resolve (".".intercalate ((key :: keys).map escapeSegment)) = none) := by
  obtain ⟨hkey, hkeys⟩ := List.forall_mem_cons.mp hkeys
  have hlevels : 0 + keys.length ≤ environment.settings.evaluation.maxRecursionDepth := by omega
  have hroot := environment.finds_identifier hresolve hkey hlevels
  have hchain := hroot.members hresolve hkeys hlevels
  rw [← Json.follow_cons, ← environment.document.resolve_intercalate hkey] at hchain
  rw [Expr.result_evaluate _ environment]
  exact ⟨fun value => hchain.ok_iff, hchain.unknownVariable_iff⟩

/-- A key with a dot in it, and the length of an array. -/
theorem evaluate_members_length :
    let environment := ({} : Engine).environment
      (.object [("a.b", .array [.boolean true, .null])]) {}
    ((Expr.member (.identifier "$a.b") "#").evaluate environment).result =
      .ok (Value.ofJson (.number "2")) := by
  intro environment
  have hpath : ".".intercalate (["a.b", "#"].map escapeSegment) = "a\\.b.#" := by decide
  have hfound : environment.document.resolve "a\\.b.#" = some (.number "2") := by
    rw [← hpath, Json.resolve_intercalate _ (by decide)]
    rfl
  have hchain := evaluate_members environment rfl "a.b" ["#"] (by decide) (by decide)
  rw [hpath] at hchain
  exact (hchain.1 _).mpr ⟨_, hfound, rfl⟩

/-- The value of a chain does not determine the part that the path finds: `1e+0` has the value of
`1` and is another number. So the part cannot be asked for by its value, and `evaluate_members` asks
for some part with that value. -/
theorem evaluate_members_exponent :
    let document := Json.object [("a", .object [("b", .number "1e+0")])]
    ¬ ((((Expr.identifier "$a").members ["b"]).evaluate
          (({} : Engine).environment document {})).result = .ok (Value.ofJson (.number "1")) ↔
      document.resolve (".".intercalate (["a", "b"].map escapeSegment)) = some (.number "1")) := by
  intro document hiff
  let environment := ({} : Engine).environment document {}
  have hkey : "a" ≠ "" ∧ "b" ≠ "" := by decide
  have hroot : Environment.Finds (environment.meaning (.identifier "$a") 1).result
      (document.follow ["a"]) :=
    Environment.finds_identifier rfl hkey.1 (by decide)
  have hvalue : (((Expr.identifier "$a").members ["b"]).evaluate environment).result =
      .ok (Value.ofJson (.number "1e+0")) := by
    rw [Expr.result_evaluate _ environment]
    exact hroot.member rfl hkey.2 (Nat.zero_le _)
  -- two numbers of a document with one value
  have hsame : Value.ofJson (.number "1e+0") = Value.ofJson (.number "1") := by
    have hdecimal : Decimal.ofText? "1e+0" = some (.ofNat 1) ∧
        Decimal.ofText? "1" = some (.ofNat 1) := by
      decide +kernel
    simp only [Value.ofJson, hdecimal]
  have hresolved : document.resolve (".".intercalate (["a", "b"].map escapeSegment)) =
      some (.number "1e+0") := by
    rw [Json.resolve_intercalate document hkey.1]
    rfl
  have hother := hiff.mp (hsame ▸ hvalue)
  rw [hresolved] at hother
  simp at hother

end Stencil
