import Mathlib.Logic.Relation
import Stencil.Proofs.Assembly
import Stencil.Proofs.Magnitude
import Stencil.Proofs.Semantics

/-!
# What aborts a rendering

An error of an expression ends at its placeholder, which is then written as its source. An abortion
ends the whole rendering. It comes from decimal arithmetic without an error of its own, and all of
that is in the two functions of clocks: timestamps are always in range, but a distance from UTC is
multiplied by the seconds of an hour before anything bounds it.

* **`Decimal.HoursOverflow`**, **`Clock.run_aborted_iff`** — exactly when a clock aborts.
* **`meaning_abortsOnlyIf`** — an expression is aborted only by a call inside it. Induction on the
  expression, for any vocabulary whose operators never abort.
* **`render_ok_or_farOffset`** — a rendering gives a text, or some clock was given such a distance.
-/

namespace Stencil

/-! ## Distances from UTC

The distance is given in hours, any number of them, and counted in seconds before anything else is
done with it. The product is exact or rounded to a whole second, so it leaves the range of decimals
only where even the nearest second does. -/

/-- The seconds of so many hours are, to the nearest one, too many for a decimal. This is decidable,
and the least whole number of hours for which it holds stands below. -/
def Decimal.HoursOverflow (hours : Decimal) : Prop :=
  unitBound ≤ halfEven (hours.units.natAbs * 3600) (pow10 hours.scale)

instance : DecidablePred Decimal.HoursOverflow :=
  fun _ => inferInstanceAs (Decidable (Decimal.unitBound ≤ _))

theorem Decimal.mul?_3600_eq_none_iff (hours : Decimal) :
    hours.mul? (ofNat 3600) = none ↔ hours.HoursOverflow :=
  mul?_eq_none_iff hours (ofNat 3600)

/-- The whole numbers from which on there are too many seconds. -/
example : ¬ (Decimal.ofNat 22007822920628982664873319).HoursOverflow ∧
    (Decimal.ofNat 22007822920628982664873320).HoursOverflow := by
  decide

/-- The hours of the settings are a word of 32 bits and never too many. So a far distance can only
come from an argument. -/
theorem Decimal.not_hoursOverflow_ofInt32 (n : Int32) : ¬ (ofInt32 n).HoursOverflow := by
  have hlow := n.le_toInt
  have hhigh := n.toInt_lt
  have hle : halfEven (n.toInt.natAbs * 3600) (pow10 0) ≤ 2147483648 * 3600 := by
    refine halfEven_le (pow10_pos 0) ?_
    rw [pow10_zero]
    omega
  show ¬ unitBound ≤ halfEven (n.toInt.natAbs * 3600) (pow10 0)
  simp only [unitBound]
  omega

/-- A distance aborts just there. A product that is in range but further than clocks go has an error
of its own. -/
theorem Offset.ofHours_aborted_iff (hours : Decimal) :
    (ofHours hours).result = .error .aborted ↔ hours.HoursOverflow := by
  rw [← Decimal.mul?_3600_eq_none_iff, ofHours, Traced.result_bind_eq_error_iff]
  cases hours.mul? (Decimal.ofNat 3600) with
  | none => exact iff_of_true (Or.inl rfl) rfl
  | some seconds =>
    refine iff_of_false ?_ (by rintro ⟨⟩)
    -- what follows the product is a choice between a value and an error
    rintro (⟨⟨⟩⟩ | ⟨_, _, haborted⟩)
    exact Traced.AbortsOnlyIf.ofOption _ haborted

/-! ## Instants

The way from a timestamp to an instant has three steps that abort where their result is out of
range: the quotient by a thousand, the whole seconds and the nanoseconds. None of them can be: a
quotient by a whole number is no larger than the dividend, the whole part of a decimal is a decimal,
and a fraction is below one. -/

/-- A timestamp in milliseconds is divided by a thousand, which is never out of range. -/
theorem Instant.secondsOfTimestamp_eq_ok (timestamp : Decimal) :
    ∃ seconds, (secondsOfTimestamp timestamp).result = .ok seconds := by
  unfold secondsOfTimestamp
  split
  · have hquotient : timestamp.div? (Decimal.ofNat 1000) ≠ none :=
      Decimal.div?_ne_none timestamp (by decide)
    obtain ⟨seconds, hseconds⟩ := Option.ne_none_iff_exists'.mp hquotient
    exact ⟨seconds, Traced.orAbort_eq_ok_iff.mpr hseconds⟩
  · exact ⟨timestamp, rfl⟩

/-- What a timestamp has beyond its whole seconds is less than one second, so its nanoseconds are in
range. -/
theorem Instant.nanosOf_eq_ok {seconds whole : Decimal}
    (hwhole : Decimal.ofUnits? seconds.floor 0 = some whole) :
    ∃ nanos, (nanosOf seconds whole).result = .ok nanos := by
  obtain ⟨fraction, hfraction, hrange, _⟩ := Decimal.sub?_floor hwhole
  obtain ⟨nanos, hnanos⟩ := Option.ne_none_iff_exists'.mp
    (Decimal.mul?_ne_none_of_isFraction hrange 1000000000 (by decide))
  refine ⟨nanos.trunc, ?_⟩
  rw [nanosOf, Traced.result_bind_of_ok (Traced.orAbort_eq_ok_iff.mpr hfraction),
    Traced.result_bind_of_ok (Traced.orAbort_eq_ok_iff.mpr hnanos)]
  rfl

/-- With values for the three steps the last one remains, which asks whether the instant is within
the years that are supported. -/
theorem Instant.result_ofTimestamp_of_steps {timestamp seconds whole : Decimal} {nanos : Int}
    (hseconds : (secondsOfTimestamp timestamp).result = .ok seconds)
    (hwhole : Decimal.ofUnits? seconds.floor 0 = some whole)
    (hnanos : (nanosOf seconds whole).result = .ok nanos) :
    (ofTimestamp timestamp).result = (Traced.ofOption
      (.functionFailure "timezone" s!"timestamp {timestamp.toText} out of range")
      (ofSeconds? seconds.floor nanos.toNat)).result := by
  rw [ofTimestamp, Traced.result_bind_of_ok hseconds,
    Traced.result_bind_of_ok (Traced.orAbort_eq_ok_iff.mpr hwhole), Traced.result_bind_of_ok hnanos,
    (Decimal.ofUnits?_eq_some_iff.mp hwhole).1]

/-- Every step from a timestamp to an instant is in range, up to the last one, which has an error of
its own. The seconds are named, as it is known of them where that error comes. -/
theorem Instant.result_ofTimestamp (timestamp : Decimal) :
    ∃ seconds nanos, (secondsOfTimestamp timestamp).result = .ok seconds ∧
      (ofTimestamp timestamp).result = (Traced.ofOption
        (.functionFailure "timezone" s!"timestamp {timestamp.toText} out of range")
        (ofSeconds? seconds.floor nanos)).result := by
  obtain ⟨seconds, hseconds⟩ := secondsOfTimestamp_eq_ok timestamp
  obtain ⟨whole, hwhole⟩ := Option.ne_none_iff_exists'.mp (Decimal.ofUnits?_floor seconds)
  obtain ⟨nanos, hnanos⟩ := nanosOf_eq_ok hwhole
  exact ⟨seconds, nanos.toNat, hseconds, result_ofTimestamp_of_steps hseconds hwhole hnanos⟩

/-- So a timestamp never aborts. -/
theorem Instant.ofTimestamp_completes (timestamp : Decimal) :
    (ofTimestamp timestamp).AbortsOnlyIf False := by
  obtain ⟨seconds, nanos, _, hresult⟩ := result_ofTimestamp timestamp
  intro haborted
  rw [hresult] at haborted
  exact Traced.AbortsOnlyIf.ofOption _ haborted

/-- Neither does a text: it is a time by one of the layouts, or a timestamp, or no time at all. -/
theorem Instant.ofText_completes (text format : String) :
    (ofText text format).AbortsOnlyIf False := by
  unfold ofText
  dsimp only
  split
  · exact .pure _
  · refine Traced.AbortsOnlyIf.bind (by rintro ⟨⟩) fun _ _ => ?_
    refine Traced.AbortsOnlyIf.bind (.ofOption _) fun timestamp _ => ?_
    exact ofTimestamp_completes timestamp

/-! ## Clocks

A clock is a function with a time, a distance and a pattern. It reads them in this order and then
writes the time, and the far distance shows in the writing. That is why an error in any of the three
arguments comes first. -/

/-- Writing a time aborts on a far distance and on nothing else. -/
theorem formatTime_aborted_iff (instant : Instant) (hours : Decimal) (format : String) :
    (formatTime instant hours format).result = .error .aborted ↔ hours.HoursOverflow := by
  rw [← Offset.ofHours_aborted_iff, formatTime, Traced.result_bind_eq_error_iff]
  refine or_iff_left ?_
  rintro ⟨offset, _, haborted⟩
  -- a pattern that cannot be written is an error
  dsimp only at haborted
  split at haborted <;> cases haborted

namespace Clock

/-- The second argument is a number of hours of which the seconds are too many for a decimal. A
string that is a numeral counts as a number. -/
def FarOffset (arguments : List Value) : Prop :=
  ∃ value hours, arguments[1]? = some value ∧ value.toDecimal? = some hours ∧ hours.HoursOverflow

/-- The first argument never aborts a clock. -/
theorem instant_completes (name : String) (value : Value) (settings : Settings) :
    (instant name value settings).AbortsOnlyIf False := by
  unfold instant
  split
  · exact Instant.ofTimestamp_completes _
  · exact Instant.ofText_completes _ _
  · exact .fail

/-- Nor does the third one, which is a pattern or nothing. -/
theorem format_completes (name : String) (value : Option Value) (settings : Settings) :
    (format name value settings).AbortsOnlyIf False := by
  unfold format
  split
  · exact .pure _
  · exact .pure _
  · exact .pure _
  · exact .fail

/-- The name under which errors are reported does not matter for abortions, which have no name. -/
theorem reportAs_aborted_iff {α : Type} (name : String) (step : Traced α) :
    (reportAs name step).result = .error .aborted ↔ step.result = .error .aborted := by
  rw [reportAs, Traced.result_recover]
  cases step.result with
  | ok value => rfl
  | error stop =>
    cases stop with
    | failed error => cases error <;> exact iff_of_false (by rintro ⟨⟩) (by rintro ⟨⟩)
    | aborted => rfl

/-- A value counts as a number if it has one; what the operation is called is for the error only. -/
theorem expectDecimal_eq_ok_iff {operation : String} {value : Value} {d : Decimal} :
    value.expectDecimal operation = .ok d ↔ value.toDecimal? = some d := by
  unfold Value.expectDecimal
  cases value.toDecimal? with
  | none => exact iff_of_false (by rintro ⟨⟩) (by rintro ⟨⟩)
  | some found => simp

/-- Nor does the second argument by itself: it is read here, and multiplied later. -/
theorem hours_completes (name : String) (value : Option Value) (settings : Settings) :
    (Clock.hours name value settings).AbortsOnlyIf False := by
  unfold Clock.hours
  split
  · exact .pure _
  · exact .pure _
  · exact .ofExcept _

/-- The hours come from the second argument, or else from the settings, and those are in range. So
the condition on the arguments is one on the hours that are used, and later lemmas only speak of
`Clock.hours`. Null and a missing argument are the two ways to get those of the settings. -/
theorem farOffset_iff (name : String) (time : Value) (rest : List Value) (settings : Settings) :
    FarOffset (time :: rest) ↔
      ∃ hours, (Clock.hours name rest[0]? settings).result = .ok hours ∧ hours.HoursOverflow := by
  have hsecond : (time :: rest)[1]? = rest[0]? := List.getElem?_cons_succ
  have hsettings : ¬ ∃ hours, (pure (.ofInt32 settings.render.timeOffsetHours) :
      Traced Decimal).result = .ok hours ∧ hours.HoursOverflow := by
    rintro ⟨hours, hhours, hoverflow⟩
    cases hhours
    exact Decimal.not_hoursOverflow_ofInt32 _ hoverflow
  rw [FarOffset, hsecond]
  generalize rest[0]? = second
  -- no second argument, null, or a value that has to be a number
  unfold Clock.hours
  split
  · exact iff_of_false (by rintro ⟨_, _, ⟨⟩, _⟩) hsettings
  · refine iff_of_false ?_ hsettings
    rintro ⟨_, _, hnull, hhours, _⟩
    cases hnull
    cases hhours
  · simp only [Traced.ofExcept_eq_ok_iff, expectDecimal_eq_ok_iff, Option.some.injEq,
      exists_and_left, exists_eq_left']

/-- The steps of a clock in order: the first that ends in an error or an abortion ends the clock.
Both kinds of ends are read off this one statement. -/
theorem run_error_iff {signature : Signature} {time : Value} {rest : List Value}
    {settings : Settings} {stop : Stop} :
    (run signature (time :: rest) settings).result = .error stop ↔
      (Clock.instant signature.name time settings).result = .error stop ∨
      ∃ instant, (Clock.instant signature.name time settings).result = .ok instant ∧
        ((Clock.hours signature.name rest[0]? settings).result = .error stop ∨
        ∃ hours, (Clock.hours signature.name rest[0]? settings).result = .ok hours ∧
          ((Clock.format signature.name rest[1]? settings).result = .error stop ∨
          ∃ format, (Clock.format signature.name rest[1]? settings).result = .ok format ∧
            (reportAs signature.name (formatTime instant hours format)).result = .error stop)) := by
  simp only [run, Traced.result_bind_eq_error_iff, Traced.result_pure, reduceCtorEq, and_false,
    exists_false, or_false]

/-- **A clock aborts exactly on a far offset.** The time and the pattern come first: with an error
in one of them there is no abortion. -/
theorem run_aborted_iff (signature : Signature) (time : Value) (rest : List Value)
    (settings : Settings) :
    (run signature (time :: rest) settings).result = .error .aborted ↔
      (∃ instant, (Clock.instant signature.name time settings).result = .ok instant) ∧
        FarOffset (time :: rest) ∧
        ∃ pattern, (Clock.format signature.name rest[1]? settings).result = .ok pattern := by
  rw [farOffset_iff signature.name time rest settings, run_error_iff,
    or_iff_right (instant_completes _ _ _)]
  simp only [or_iff_right (hours_completes _ _ _), or_iff_right (format_completes _ _ _),
    reportAs_aborted_iff, formatTime_aborted_iff]
  constructor
  · rintro ⟨instant, hinstant, hours, hhours, pattern, hpattern, hoverflow⟩
    exact ⟨⟨instant, hinstant⟩, ⟨hours, hhours, hoverflow⟩, ⟨pattern, hpattern⟩⟩
  · rintro ⟨⟨instant, hinstant⟩, ⟨hours, hhours, hoverflow⟩, ⟨pattern, hpattern⟩⟩
    exact ⟨instant, hinstant, hours, hhours, pattern, hpattern, hoverflow⟩

/-- In the form in which vocabularies are asked about their functions: an abortion has the far
distance for its reason. -/
theorem run_abortsOnlyIf (signature : Signature) (arguments : List Value) (settings : Settings) :
    (run signature arguments settings).AbortsOnlyIf (FarOffset arguments) := by
  cases arguments with
  -- without a time the clock is not run at all
  | nil => exact .fail
  | cons time rest =>
    intro haborted
    obtain ⟨_, hfar, _⟩ := (run_aborted_iff signature time rest settings).mp haborted
    exact hfar

end Clock

/-! ## Calls inside an expression

Operators and names have no abortions. So an abortion of an expression comes from a function that
was called, and the call stands somewhere in the expression, at a place that is evaluated, with
arguments that have values. -/

/-- Operators never abort, and functions only if their `reason` is true of the name and the
arguments. The results below hold for every vocabulary of this kind and every reason. -/
structure Vocabulary.AbortsOnlyIf (reason : String → List Value → Prop) (vocabulary : Vocabulary) :
    Prop where
  function {name : String} {function : Function} :
    vocabulary.functions.get? name = some function →
      ∀ arguments settings, (function.run arguments settings).AbortsOnlyIf (reason name arguments)
  operator {symbol : String} {operation : Operator} :
    vocabulary.operators.get? symbol = some operation →
      ∀ left right settings, (operation left right settings).AbortsOnlyIf False

/-- The first expression stands directly in the second one, at a place that is evaluated. The callee
of a call is none: it is looked up, not evaluated. -/
inductive Expr.Part : Expr → Expr → Prop where
  | base (base : Expr) (property : String) : Part base (.member base property)
  | indexed (base element : Expr) : Part base (.index base element)
  | element (base element : Expr) : Part element (.index base element)
  | left (operator : BinaryOperator) (left right : Expr) : Part left (.binary operator left right)
  | right (operator : BinaryOperator) (left right : Expr) : Part right (.binary operator left right)
  | argument {argument : Expr} (callee : Expr) {arguments : List Expr}
      (h : argument ∈ arguments) : Part argument (.call callee arguments)

namespace Environment

variable (environment : Environment) {reason : String → List Value → Prop}

/-- Somewhere in the expression stands a call of which the arguments have values, and the `reason`
is true of its name and of these values. -/
def Calls (reason : String → List Value → Prop) (expr : Expr) : Prop :=
  ∃ name arguments depth values,
    Relation.ReflTransGen Expr.Part (.call (.identifier name) arguments) expr ∧
    (environment.meanings arguments depth).result = .ok values ∧ reason name values

variable {environment}

theorem Calls.of_part {part expr : Expr} (hpart : Expr.Part part expr)
    (h : environment.Calls reason part) : environment.Calls reason expr := by
  obtain ⟨name, arguments, depth, values, hinside, hvalues, hreason⟩ := h
  exact ⟨name, arguments, depth, values, hinside.tail hpart, hvalues, hreason⟩

/-- The limit on nesting has an error of its own. -/
theorem within_abortsOnlyIf {cause : Prop} {depth : Nat} {body : Traced Value}
    (hbody : body.AbortsOnlyIf cause) : (environment.within depth body).AbortsOnlyIf cause := by
  unfold within
  dsimp only
  split
  · exact .fail
  · exact hbody

/-- Looking a member up gives a value or an error. -/
theorem member_abortsOnlyIf {cause : Prop} (base : Value) (property : String) (expr : Expr) :
    (environment.member base property expr).AbortsOnlyIf cause := by
  unfold member
  split
  · exact .pure _
  · exact .fail

mutual

/-- **An abortion of an expression has a call for its reason.** Induction on the expression; each
part hands its call on to the whole by `Calls.of_part`, and only a call adds one of its own, with
the values that its arguments have. Leaves and look-ups are never aborted, and the operators of a
vocabulary have no reason to be. -/
theorem meaning_abortsOnlyIf (hvocabulary : environment.vocabulary.AbortsOnlyIf reason)
    (expr : Expr) (depth : Nat) :
    (environment.meaning expr depth).AbortsOnlyIf (environment.Calls reason expr) := by
  match expr with
  | .number text =>
    rw [meaning]
    exact within_abortsOnlyIf (.ofExcept _)
  | .string value =>
    rw [meaning]
    exact within_abortsOnlyIf (.pure _)
  | .boolean value =>
    rw [meaning]
    exact within_abortsOnlyIf (.pure _)
  | .identifier name =>
    rw [meaning]
    exact within_abortsOnlyIf (.ofOption _)
  | .member base property =>
    rw [meaning]
    have hbase := (meaning_abortsOnlyIf hvocabulary base (depth + 1)).mono
      (Calls.of_part (.base base property))
    exact within_abortsOnlyIf (hbase.bind fun value _ => member_abortsOnlyIf value property _)
  | .index base element =>
    rw [meaning]
    have hbase := (meaning_abortsOnlyIf hvocabulary base (depth + 1)).mono
      (Calls.of_part (.indexed base element))
    have helement := (meaning_abortsOnlyIf hvocabulary element (depth + 1)).mono
      (Calls.of_part (.element base element))
    refine within_abortsOnlyIf (hbase.bind fun value _ => helement.bind fun key _ => ?_)
    split
    · split <;> exact .pure _
    · exact .pure _
    · exact .fail
  | .binary operator left right =>
    rw [meaning]
    have hleft := (meaning_abortsOnlyIf hvocabulary left (left.operandDepth depth)).mono
      (Calls.of_part (.left operator left right))
    have hright := (meaning_abortsOnlyIf hvocabulary right (depth + 1)).mono
      (Calls.of_part (.right operator left right))
    refine within_abortsOnlyIf (hleft.bind fun leftValue _ => hright.bind fun rightValue _ => ?_)
    refine Traced.AbortsOnlyIf.bind (.ofOption _) fun operation hoperation => ?_
    have hknown := Traced.ofOption_eq_ok_iff.mp hoperation
    exact (hvocabulary.operator hknown leftValue rightValue _).mono False.elim
  | .call callee arguments =>
    by_cases hnamed : ∃ name, callee = .identifier name
    · obtain ⟨name, rfl⟩ := hnamed
      rw [meaning]
      have harguments := (meanings_abortsOnlyIf hvocabulary arguments (depth + 1)).mono
        fun ⟨argument, hargument, hcalls⟩ =>
          Calls.of_part (.argument (.identifier name) hargument) hcalls
      refine within_abortsOnlyIf (harguments.bind fun values hvalues => ?_)
      refine Traced.AbortsOnlyIf.bind (.ofOption _) fun function hfunction => ?_
      have hknown := Traced.ofOption_eq_ok_iff.mp hfunction
      split
      · exact .fail
      · -- the call itself is the one that the reason is about
        exact (hvocabulary.function hknown values _).mono fun hreason =>
          ⟨name, arguments, depth + 1, values, .refl, hvalues, hreason⟩
    · rw [meaning]
      · exact within_abortsOnlyIf .fail
      · exact fun name hname => hnamed ⟨name, hname⟩
  | .unsupported construct _ =>
    rw [meaning]
    exact within_abortsOnlyIf .fail

/-- For a list of arguments it is a call in one of them. -/
theorem meanings_abortsOnlyIf (hvocabulary : environment.vocabulary.AbortsOnlyIf reason)
    (exprs : List Expr) (depth : Nat) :
    (environment.meanings exprs depth).AbortsOnlyIf
      (∃ expr ∈ exprs, environment.Calls reason expr) := by
  match exprs with
  | [] => exact .pure _
  | expr :: exprs =>
    rw [meanings]
    refine Traced.AbortsOnlyIf.bind ?first fun value _ => .bind ?rest fun values _ => .pure _
    case first =>
      refine (meaning_abortsOnlyIf hvocabulary expr depth).mono fun hcalls => ?_
      exact ⟨expr, List.mem_cons_self, hcalls⟩
    case rest =>
      refine (meanings_abortsOnlyIf hvocabulary exprs depth).mono ?_
      rintro ⟨other, hother, hcalls⟩
      exact ⟨other, List.mem_cons_of_mem expr hother, hcalls⟩

end

/-- The same of a whole evaluation, which ends as its meaning does. -/
theorem evaluate_abortsOnlyIf (hvocabulary : environment.vocabulary.AbortsOnlyIf reason)
    (expr : Expr) : (expr.evaluate environment).AbortsOnlyIf (environment.Calls reason expr) := by
  intro haborted
  rw [Expr.result_evaluate expr environment] at haborted
  exact meaning_abortsOnlyIf hvocabulary expr 0 haborted

end Environment

/-! ## The standard vocabulary

Of the three functions that every engine starts with, two are clocks and one rounds. Rounding has an
error for a result out of range, and so has every operator. -/

/-- A clock of the standard vocabulary with a far offset. The functions have different names and are
otherwise the same. -/
def Clock.FarCall (name : String) (arguments : List Value) : Prop :=
  (name = "timezone" ∨ name = "formatTime") ∧ FarOffset arguments

/-- The standard vocabulary aborts for no other reason. -/
theorem Vocabulary.standard_abortsOnlyIf : Vocabulary.standard.AbortsOnlyIf Clock.FarCall where
  function hfunction arguments settings := by
    rcases standard_function_cases hfunction with ⟨rfl, rfl⟩ | ⟨rfl, rfl⟩ | ⟨rfl, rfl⟩
    · exact .ofExcept _
    · exact (Clock.run_abortsOnlyIf _ arguments settings).mono fun hfar => ⟨Or.inl rfl, hfar⟩
    · exact (Clock.run_abortsOnlyIf _ arguments settings).mono fun hfar => ⟨Or.inr rfl, hfar⟩
  operator hoperation left right settings := by
    -- every operator has an error for a result out of range
    rcases standard_operator_cases hoperation with ⟨_, rfl⟩ | ⟨_, rfl⟩ | ⟨_, rfl⟩ | ⟨_, rfl⟩ <;>
      exact .ofExcept _

/-! ## Renderings

A rendering puts the outputs of its fragments together, and an error of a placeholder is an output:
the source in braces. Only an abortion is none, and it goes through to the rendering. -/

/-- A fragment has no text only if it is a placeholder whose evaluation is aborted. An evaluation
with an error has the source of the placeholder for its text, so it is not among them. -/
theorem Fragment.output_eq_error {engine : Engine} {document : Json} {config : RenderConfig}
    {fragment : Fragment} {stop : Stop} (h : fragment.output engine document config = .error stop) :
    stop = .aborted ∧ ∃ source expr, fragment = .placeholder source expr ∧
      (expr.evaluate (engine.environment document config)).result = .error .aborted := by
  cases fragment with
  | literal content => cases h
  | verbatim content => cases h
  | placeholder source expr =>
    change (Template.renderPlaceholder source _ config).result = _ at h
    rw [result_renderPlaceholder] at h
    cases hvalue : (expr.evaluate (engine.environment document config)).result with
    | ok value =>
      rw [hvalue] at h
      cases h
    | error cause =>
      rw [hvalue] at h
      cases cause with
      | failed error => cases h
      | aborted =>
        cases h
        exact ⟨rfl, source, expr, rfl, hvalue⟩

/-- **A rendering gives a text, unless a clock is given a far offset.** That holds for every
template, compiled or not, and for every context and all settings, in an engine with the standard
vocabulary. No error of an expression ends a rendering. What can end it is one call in one of the
placeholders: `timezone` or `formatTime` with a second argument of which the seconds are too many
for a decimal. -/
theorem render_ok_or_farOffset (template : Template) (resolve : Resolver)
    (limits : EvaluationConfig) (context : String) (override : Option RenderConfig) :
    (∃ text, (template.render ⟨.standard, resolve, limits⟩ context override).result = .ok text) ∨
      ((template.render ⟨.standard, resolve, limits⟩ context override).result = .error .aborted ∧
        ∃ document source expr,
          (Template.readContext context).result = .ok document ∧
          .placeholder source expr ∈ template.fragments ∧
          Environment.Calls
            ⟨.standard, resolve, ⟨override.getD template.config, limits⟩, document⟩
            Clock.FarCall expr) := by
  let document := (Json.ofContext context).toOption.getD .emptyObject
  let engine : Engine := ⟨.standard, resolve, limits⟩
  let config := override.getD template.config
  have hrender := result_render template engine context override
  rw [joinOutputs] at hrender
  cases houtputs : template.fragments.mapM (Fragment.output engine document config) with
  | ok texts =>
    rw [houtputs] at hrender
    exact Or.inl ⟨String.join texts, hrender⟩
  | error stop =>
    rw [houtputs] at hrender
    -- the first fragment without a text is a placeholder, and its evaluation was aborted
    obtain ⟨before, fragment, after, hsplit, _, hstop⟩ := mapM_eq_error_iff.mp houtputs
    obtain ⟨rfl, source, expr, rfl, haborted⟩ := Fragment.output_eq_error hstop
    have hmem : .placeholder source expr ∈ template.fragments := by
      rw [hsplit]
      exact List.mem_append_right before List.mem_cons_self
    have hcalls : (engine.environment document config).Calls Clock.FarCall expr :=
      Environment.evaluate_abortsOnlyIf Vocabulary.standard_abortsOnlyIf expr haborted
    exact Or.inr ⟨hrender, document, source, expr, result_readContext context, hmem, hcalls⟩

/-- With the largest decimal as the distance the rendering is aborted: no text, and no error either.
The hours are turned into seconds by an unchecked product, which has no decimal here. -/
theorem render_aborted_largest_offset :
    ∃ template, Template.compile "\x7btimezone(0, 79228162514264337593543950335)\x7d" =
        .ok template ∧
      (template.render {} "" none).result = .error .aborted := by
  have hrender : (Template.compile "\x7btimezone(0, 79228162514264337593543950335)\x7d").toOption.map
      (fun template => (template.render {} "" none).result) = some (.error .aborted) := by
    decide +kernel
  exact exists_of_map_toOption hrender

end Stencil
