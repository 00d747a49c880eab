import Stencil.Proofs.Limit
import Stencil.Proofs.Paths

/-!
# Members and elements

A part of a value is looked up by a dot or by brackets. Both look in the same place in the same way;
what they differ in is what they make of a part that is not there. By a dot that is an error, by
brackets it is null, which a part that is there may be as well.

* **`meaning_member`**, **`meaning_index_string`** — at every depth the base comes first, and the
  limit on nesting is reached in it, if at all.
* **`member_index_agree`** — what the two make of the same base and the same name.
* **`index_reaches`** — brackets reach the members of an object, under whatever key, with one
  exception: **`index_misses_empty_key`**.
-/

namespace Stencil

namespace Environment

variable {environment : Environment}

/-! ## The base comes first

An access has its base one level below itself. So an access that is itself too deep has a base that
is, and where the base has a value the access is not too deep. This is why the look-ups below need
not mention the limit at all: it is part of the outcome of the base. -/

/-- The meaning of an access by a dot: that of the base one level down, and then the look-up in its
value. -/
theorem meaning_member (base : Expr) (property : String) (depth : Nat) :
    environment.meaning (.member base property) depth =
      environment.meaning base (depth + 1) >>= fun value =>
        environment.member value property (.member base property) := by
  rw [meaning]
  -- too deep: so is the base, with the same error
  rcases Nat.lt_or_ge environment.settings.evaluation.maxRecursionDepth depth with
    hdepth | hdepth
  · rw [within_of_lt _ hdepth, meaning_of_lt base (by omega)]
    rfl
  · rw [within_of_le _ hdepth]

/-- The meaning of an access by a key in brackets. The key is an expression of its own, one level
down like the base, but evaluating it fails only if evaluating the base does. -/
theorem meaning_index_string (base : Expr) (key : String) (depth : Nat) :
    environment.meaning (.index base (.string key)) depth =
      environment.meaning base (depth + 1) >>= fun value =>
        pure ((environment.find? value.toJson (escapeSegment key)).getD .null) := by
  rw [meaning]
  rcases Nat.lt_or_ge environment.settings.evaluation.maxRecursionDepth (depth + 1) with
    hdeeper | hdeeper
  · -- the base is too deep, whether the access itself is or not
    rw [meaning_of_lt base hdeeper]
    rcases Nat.lt_or_ge environment.settings.evaluation.maxRecursionDepth depth with
      hdepth | hdepth
    · rw [within_of_lt _ hdepth]
      rfl
    · rw [within_of_le _ hdepth]
      rfl
  · -- the key is at the depth of the base
    rw [within_of_le _ (by omega), meaning, within_of_le _ hdeeper]
    simp only [pure_bind]

end Environment

/-! ## By a dot and by brackets

Both look-ups ask the resolver for the same path in the same document, which is the text of the name
with its dots and backslashes escaped. They are compared at every depth, because an access inside an
expression is run at the depth where it stands. -/

/-- **The strict and the lenient lookup agree.** Whatever the base, the name, the environment and
the depth: where the base has no value, the two end like the base, be it with an error of its own,
with the limit on nesting or aborted. Where it has one, the strict lookup has a value exactly if the
resolver finds a part of that name in it, which is the value of this part, and the lenient one has
the same. If the resolver finds none, and only then, the strict lookup is an unknown variable, which
is shown as the whole access, and the lenient one is null. At depth zero these are the outcomes of
whole evaluations. -/
theorem member_index_agree (environment : Environment) (base : Expr) (property : String)
    (depth : Nat) :
    let outcome := (environment.run base (depth + 1) []).result
    let strict := (environment.run (.member base property) depth []).result
    let lenient := (environment.run (.index base (.string property)) depth []).result
    (∀ stop, outcome = .error stop → strict = .error stop ∧ lenient = .error stop) ∧
    (∀ value, outcome = .ok value →
      let part? := environment.resolve value.toJson (escapeSegment property)
      (∀ found, strict = .ok found ↔ ∃ part, part? = some part ∧ Value.ofJson part = found) ∧
      (∀ found, strict = .ok found → lenient = .ok found) ∧
      (strict = .error (.failed (.unknownVariable (Expr.member base property).display)) ↔
        part? = none) ∧
      (part? = none → lenient = .ok .null)) ∧
    (depth = 0 → strict = ((Expr.member base property).evaluate environment).result ∧
      lenient = ((Expr.index base (.string property)).evaluate environment).result) := by
  -- both outcomes are the base's outcome, followed by one look-up
  intro outcome strict lenient
  have hstrict : strict = outcome.bind fun value =>
      (environment.member value property (.member base property)).result := by
    simp only [strict, outcome, environment.run_eq_meaning, Environment.meaning_member,
      Traced.result_bind]
  have hlenient : lenient = outcome.bind fun value =>
      .ok ((environment.find? value.toJson (escapeSegment property)).getD .null) := by
    simp only [lenient, outcome, environment.run_eq_meaning, Environment.meaning_index_string,
      Traced.result_bind, Traced.result_pure]
  refine ⟨?fails, ?finds, ?whole⟩
  case fails =>
    intro stop hstop
    rw [hstrict, hlenient, hstop]
    exact ⟨rfl, rfl⟩
  -- the two look-ups differ in the default for a part that is not there
  case finds =>
    intro value hvalue part?
    have hfind : environment.find? value.toJson (escapeSegment property) =
        part?.map Value.ofJson := rfl
    rw [hvalue] at hstrict hlenient
    rw [hstrict, hlenient]
    simp only [Except.bind, Environment.member, hfind]
    cases part? with
    | none => simp [Traced.fail]
    | some part => simp
  case whole =>
    rintro rfl
    simp only [strict, lenient, environment.run_eq_meaning, Expr.result_evaluate _ environment,
      and_self]

/-- A null that is there and a member that is not: by brackets they look alike. -/
theorem member_index_agree_null :
    let environment := ({} : Engine).environment (.object [("a", .object [("b", .null)])]) {}
    let base := Expr.identifier "$a"
    ((Expr.member base "b").evaluate environment).result = .ok .null ∧
      ((Expr.index base (.string "b")).evaluate environment).result = .ok .null ∧
      ((Expr.member base "c").evaluate environment).result =
        .error (.failed (.unknownVariable "$a.c")) ∧
      ((Expr.index base (.string "c")).evaluate environment).result = .ok .null := by
  intro environment base
  -- the document is small enough for the base to be evaluated by computation
  have hbase : (environment.run base 1 []).result = .ok (.json (.object [("b", .null)])) := rfl
  obtain ⟨-, hpresent, hb⟩ := member_index_agree environment base "b" 0
  obtain ⟨-, habsent, hc⟩ := member_index_agree environment base "c" 0
  obtain ⟨hfound, hsame, -, -⟩ := hpresent _ hbase
  obtain ⟨-, -, hunknown, hnull⟩ := habsent _ hbase
  rw [← (hb rfl).1, ← (hb rfl).2, ← (hc rfl).1, ← (hc rfl).2]
  have hstrict := (hfound .null).mpr ⟨.null, rfl, rfl⟩
  exact ⟨hstrict, hsame .null hstrict, hunknown.mpr rfl, hnull rfl⟩

/-! ## The keys of an object

What the resolver of the engine makes of an escaped key is known from the paths: it is the look-up
of the key among the members. The empty key is the exception, since its path is the empty path, and
the empty path finds nothing. -/

/-- **Brackets reach the keys of an object**, whatever characters they are of: dots, backslashes,
digits or a number sign by itself. The path of a key finds the member under it, or nothing if there
is none, and an access by the key to any base with this object for its value is the value of this
member, or null. The base is one level below the access, so that the limit on nesting needs room for
that. The one key that is not reached is the empty one, whose path is the path that finds nothing.
-/
theorem index_reaches (members : List (String × Json)) (key : String) :
    let member? := if key = "" then none else Assoc.get? key members
    (Json.object members).resolve (escapeSegment key) = member? ∧
    ∀ (environment : Environment) (base : Expr), environment.resolve = Json.resolve →
      (base.evaluate environment).result = .ok (.json (.object members)) →
      ((Expr.index base (.string key)).evaluate environment).result =
        if base.nesting < environment.settings.evaluation.maxRecursionDepth then
          .ok ((member?.map Value.ofJson).getD .null)
        else .error (.failed
          (.recursionLimit environment.settings.evaluation.maxRecursionDepth)) := by
  intro member?
  have hfound : (Json.object members).resolve (escapeSegment key) = member? := by
    rw [Json.resolve_escapeSegment, Json.follow_object]
  refine ⟨hfound, fun environment base hresolve hbase => ?_⟩
  rw [Expr.result_evaluate _ environment] at hbase ⊢
  rw [Environment.meaning_index_string, Traced.result_bind]
  -- the base has a value at depth zero, and at depth one it has it if there is room for one level
  -- more
  by_cases hroom : base.nesting < environment.settings.evaluation.maxRecursionDepth
  · have hvalue : (environment.meaning base (0 + 1)).result = .ok (.json (.object members)) :=
      Environment.result_meaning_of_room hbase (by omega)
    rw [if_pos hroom, hvalue, ← hfound, ← hresolve]
    rfl
  · have hlimit : (environment.meaning base (0 + 1)).result = .error (.failed
        (.recursionLimit environment.settings.evaluation.maxRecursionDepth)) :=
      Environment.result_meaning_of_lack ⟨_, hbase⟩ (by omega)
    rw [if_neg hroom, hlimit]
    rfl

/-- A key with a dot and a backslash at its end, each of which the path has to escape. -/
theorem index_reaches_backslash :
    let environment := ({} : Engine).environment
      (.object [("a", .object [("x.\\", .boolean true)])]) {}
    ((Expr.index (.identifier "$a") (.string "x.\\")).evaluate environment).result =
      .ok (.boolean true) := by
  intro environment
  have hreached := index_reaches [("x.\\", .boolean true)] "x.\\"
  exact hreached.2 environment (.identifier "$a") rfl rfl

/-- The empty key is there and is not reached: its member is a number, and the access gives null. -/
theorem index_misses_empty_key :
    let members := [("", Json.number "1")]
    let environment := ({} : Engine).environment (.object [("a", .object members)]) {}
    Assoc.get? "" members = some (.number "1") ∧
      (Json.object members).resolve (escapeSegment "") = none ∧
      ((Expr.identifier "$a").evaluate environment).result = .ok (.json (.object members)) ∧
      ((Expr.index (.identifier "$a") (.string "")).evaluate environment).result = .ok .null :=
  ⟨rfl, rfl, rfl, rfl⟩

end Stencil
