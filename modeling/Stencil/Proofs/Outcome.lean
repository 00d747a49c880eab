import Stencil.Journal

/-!
# Outcomes in sequence

A run of steps succeeds if every step does, and otherwise ends like the first step that does not.
These are the inversions by which proofs take a run apart: for two steps, and for a step on every
element of a list.

Most facts about a long run need only half of that, and are put together from its steps:

* **`Yields`** — what holds of the value of a run, if there is one.
* **`ErrorsWithin`**, **`Traced.FailsWithin`** — what holds of its error, if there is one.
* **`Traced.AbortsOnlyIf`** — what has happened if it was aborted.
-/

namespace Stencil

variable {ε α β : Type}

/-- A run of two steps has a value exactly if the first step has one and the second step has it on
that value. This is the lemma by which all runs with a value are taken apart. -/
theorem bind_eq_ok_iff {step : Except ε α} {next : α → Except ε β} {b : β} :
    step >>= next = .ok b ↔ ∃ a, step = .ok a ∧ next a = .ok b := by
  cases step with
  | error e => exact iff_of_false (by rintro ⟨⟩) (by rintro ⟨a, ⟨⟩, _⟩)
  | ok a =>
    constructor
    · intro h
      exact ⟨a, rfl, h⟩
    · intro h
      obtain ⟨a', ha, h⟩ := h
      cases ha
      exact h

/-- A run of two steps fails in the first step, or in the second one on the value of the first. -/
theorem bind_eq_error_iff {step : Except ε α} {next : α → Except ε β} {e : ε} :
    step >>= next = .error e ↔ step = .error e ∨ ∃ a, step = .ok a ∧ next a = .error e := by
  cases step with
  | error e' =>
    constructor
    · intro h
      cases h
      exact Or.inl rfl
    · intro h
      rcases h with h | ⟨a, ha, _⟩
      · cases h
        rfl
      · cases ha
  | ok a =>
    constructor
    · intro h
      exact Or.inr ⟨a, rfl, h⟩
    · intro h
      rcases h with h | ⟨a', ha, h⟩
      · cases h
      · cases ha
        exact h

/-- An outcome of which a part is known is known to be a value. -/
theorem exists_of_map_toOption {f : α → β} {outcome : Except ε α} {b : β}
    (h : outcome.toOption.map f = some b) : ∃ a, outcome = .ok a ∧ f a = b := by
  cases outcome with
  | error e => cases h
  | ok a => exact ⟨a, rfl, Option.some.inj h⟩

/-- An outcome of which the error is known, whatever is done with values, is that error. -/
theorem eq_error_of_map_eq_error {f : α → β} {outcome : Except ε α} {e : ε}
    (h : outcome.map f = .error e) : outcome = .error e := by
  cases outcome with
  | error other =>
    cases h
    rfl
  | ok a => cases h

/-- A step on every element of a list gives one result for each. -/
theorem mapM_cons_eq_ok_iff {f : α → Except ε β} {x : α} {xs : List α} {ys : List β} :
    (x :: xs).mapM f = .ok ys ↔ ∃ y rest, f x = .ok y ∧ xs.mapM f = .ok rest ∧ ys = y :: rest := by
  rw [List.mapM_cons, bind_eq_ok_iff]
  constructor
  · intro h
    obtain ⟨y, hy, hrest⟩ := h
    obtain ⟨rest, hxs, hys⟩ := bind_eq_ok_iff.mp hrest
    cases hys
    exact ⟨y, rest, hy, hxs, rfl⟩
  · intro h
    obtain ⟨y, rest, hy, hxs, rfl⟩ := h
    exact ⟨y, hy, bind_eq_ok_iff.mpr ⟨rest, hxs, rfl⟩⟩

/-- **A step on every element of a list fails at the first element that it fails on.** Those before
it have results, and those behind it do not matter, as the step is not taken on them. -/
theorem mapM_eq_error_iff {f : α → Except ε β} {xs : List α} {e : ε} :
    xs.mapM f = .error e ↔
      ∃ before x after, xs = before ++ x :: after ∧ (∀ y ∈ before, ∃ z, f y = .ok z) ∧
        f x = .error e := by
  induction xs with
  | nil =>
    refine iff_of_false (by rintro ⟨⟩) ?_
    rintro ⟨before, x, after, heq, _⟩
    simp at heq
  | cons a xs ih =>
    rw [List.mapM_cons, bind_eq_error_iff]
    constructor
    · intro h
      rcases h with ha | ⟨b, hb, hrest⟩
      · exact ⟨[], a, xs, rfl, by simp, ha⟩
      · -- the first element has a result, so the error comes from the rest
        have hxs : xs.mapM f = .error e := by
          rcases bind_eq_error_iff.mp hrest with hxs | ⟨ys, _, hys⟩
          · exact hxs
          · cases hys
        obtain ⟨before, x, after, heq, hbefore, hx⟩ := ih.mp hxs
        refine ⟨a :: before, x, after, by rw [heq, List.cons_append], ?_, hx⟩
        intro y hy
        rcases List.mem_cons.mp hy with rfl | hy
        · exact ⟨b, hb⟩
        · exact hbefore y hy
    · intro h
      obtain ⟨before, x, after, heq, hbefore, hx⟩ := h
      cases before with
      | nil =>
        cases heq
        exact Or.inl hx
      | cons y before =>
        cases heq
        obtain ⟨b, hb⟩ := hbefore a List.mem_cons_self
        have hxs := ih.mpr ⟨before, x, after, rfl,
          fun y hy => hbefore y (List.mem_cons_of_mem a hy), hx⟩
        exact Or.inr ⟨b, hb, bind_eq_error_iff.mpr (Or.inl hxs)⟩

/-- Steps that agree on every element agree on the list. -/
theorem mapM_congr {m : Type → Type} [Monad m] [LawfulMonad m] {f g : α → m β} {xs : List α}
    (h : ∀ x ∈ xs, f x = g x) : xs.mapM f = xs.mapM g := by
  induction xs with
  | nil => rfl
  | cons x xs ih =>
    obtain ⟨hx, hxs⟩ := List.forall_mem_cons.mp h
    rw [List.mapM_cons, List.mapM_cons, hx, ih hxs]

/-! ## Values

Most invariants say something about the value of a rule if it has one, and nothing about its errors.
Such a statement is put together along the run, by the same rules for every run. -/

/-- If the outcome is a value, `holds` is true of it. -/
def Yields (outcome : Except ε α) (holds : α → Prop) : Prop :=
  ∀ value, outcome = .ok value → holds value

namespace Yields

variable {holds : α → Prop} {value : α} {e : ε}

theorem ok (h : holds value) : Yields (.ok value : Except ε α) holds := by
  intro other hother
  cases hother
  exact h

theorem error : Yields (.error e : Except ε α) holds := by
  intro value hvalue
  cases hvalue

theorem mono {outcome : Except ε α} {goal : α → Prop} (h : Yields outcome holds)
    (hgoal : ∀ value, holds value → goal value) : Yields outcome goal :=
  fun value hvalue => hgoal value (h value hvalue)

theorem and {outcome : Except ε α} {goal : α → Prop} (h : Yields outcome holds)
    (h' : Yields outcome goal) : Yields outcome fun value => holds value ∧ goal value :=
  fun value hvalue => ⟨h value hvalue, h' value hvalue⟩

/-- A value is known by the outcome that it is of. -/
theorem self (outcome : Except ε α) : Yields outcome fun value => outcome = .ok value :=
  fun _ hvalue => hvalue

/-- A run of two steps: the second step may use what is known of the value of the first. -/
theorem bind {step : Except ε α} {next : α → Except ε β} {goal : β → Prop}
    (hstep : Yields step holds) (hnext : ∀ value, holds value → Yields (next value) goal) :
    Yields (step >>= next) goal := by
  intro result hresult
  obtain ⟨value, hvalue, hrest⟩ := bind_eq_ok_iff.mp hresult
  exact hnext value (hstep value hvalue) result hrest

end Yields

/-! ## Errors

The same for the error of a run. Here a step with a value says nothing. -/

/-- If the outcome is an error, it is an `allowed` one. -/
def ErrorsWithin (allowed : ε → Prop) (outcome : Except ε α) : Prop :=
  ∀ e, outcome = .error e → allowed e

namespace ErrorsWithin

variable {allowed : ε → Prop} {e : ε}

theorem ok (value : α) : ErrorsWithin allowed (.ok value : Except ε α) := by
  intro e he
  cases he

theorem error (h : allowed e) : ErrorsWithin allowed (.error e : Except ε α) := by
  intro other hother
  cases hother
  exact h

/-- The error of a run is that of its first step or of the second one on some value. -/
theorem bind {step : Except ε α} {next : α → Except ε β} (hstep : ErrorsWithin allowed step)
    (hnext : ∀ value, ErrorsWithin allowed (next value)) :
    ErrorsWithin allowed (step >>= next) := by
  intro e he
  rcases bind_eq_error_iff.mp he with hfirst | ⟨value, _, hrest⟩
  · exact hstep e hfirst
  · exact hnext value e hrest

end ErrorsWithin

/-! ## Evaluations

Evaluations carry a journal besides their outcome and can be aborted. Their results are those of
runs as above, so the inversions are the same, with one more kind of end. That an evaluation fails
within certain errors and that it is aborted only for a reason are two statements, since different
things are known about the two. -/

/-- A handler takes the place of an error. Values and abortions pass it. -/
theorem Traced.result_recover (step : Traced α) (handler : Error → Traced α) :
    (step.recover handler).result =
      match step.result with
      | .error (.failed error) => (handler error).result
      | result => result := by
  obtain ⟨result, events⟩ := step
  cases result with
  | ok value => rfl
  | error stop => cases stop <;> rfl

/-- The results of a step on every element of a list, without the events on the way. -/
theorem Traced.result_mapM (f : α → Traced β) (xs : List α) :
    (xs.mapM f).result = xs.mapM fun x => (f x).result := by
  induction xs with
  | nil => rfl
  | cons x xs ih =>
    rw [List.mapM_cons, List.mapM_cons, Traced.result_bind]
    cases hx : (f x).result with
    | error stop => rfl
    | ok y =>
      show (xs.mapM f >>= fun rest => pure (y :: rest)).result = _
      rw [Traced.result_bind, ih]
      rfl

namespace Traced

/-- If the evaluation ends with an error, it is an `allowed` one. -/
def FailsWithin (allowed : Error → Prop) (step : Traced α) : Prop :=
  ∀ error, step.result = .error (.failed error) → allowed error

namespace FailsWithin

variable {allowed : Error → Prop} {error : Error} {step : Traced α}

theorem mono {other : Error → Prop} (h : FailsWithin allowed step)
    (hallowed : ∀ error, allowed error → other error) : FailsWithin other step :=
  fun error herror => hallowed error (h error herror)

theorem pure (value : α) : FailsWithin allowed (Pure.pure value : Traced α) := by
  intro error herror
  cases herror

theorem fail (h : allowed error) : FailsWithin allowed (Traced.fail error : Traced α) := by
  intro other hother
  cases hother
  exact h

theorem abort : FailsWithin allowed (Traced.abort : Traced α) := by
  intro error herror
  cases herror

theorem note (event : Event) : FailsWithin allowed (Traced.note event) := by
  intro error herror
  cases herror

/-- A step without events has the errors of its outcome. -/
theorem ofExcept {outcome : Except Error α} (h : ErrorsWithin allowed outcome) :
    FailsWithin allowed (Traced.ofExcept outcome) := by
  cases outcome with
  | ok value => exact pure value
  | error error => exact fail (h error rfl)

/-- The error is that which is given for a missing value. -/
theorem ofOption {value? : Option α} (h : allowed error) :
    FailsWithin allowed (Traced.ofOption error value?) := by
  cases value? with
  | some value => exact pure value
  | none => exact fail h

theorem orAbort {value? : Option α} : FailsWithin allowed (Traced.orAbort value?) := by
  cases value? with
  | some value => exact pure value
  | none => exact abort

/-- The error of a run is that of its first step or of the second one on some value. -/
theorem bind {next : α → Traced β} (hstep : FailsWithin allowed step)
    (hnext : ∀ value, FailsWithin allowed (next value)) :
    FailsWithin allowed (step >>= next) := by
  intro error herror
  rw [Traced.result_bind] at herror
  cases hresult : step.result with
  | error stop =>
    rw [hresult] at herror
    cases herror
    exact hstep error hresult
  | ok value =>
    rw [hresult] at herror
    exact hnext value error herror

/-- Behind a handler only the errors of the handler are left. -/
theorem recover {handler : Error → Traced α} (hhandler : ∀ error, step.result =
    .error (.failed error) → FailsWithin allowed (handler error)) :
    FailsWithin allowed (step.recover handler) := by
  intro error herror
  rw [result_recover] at herror
  cases hresult : step.result with
  | ok value =>
    rw [hresult] at herror
    cases herror
  | error stop =>
    rw [hresult] at herror
    cases stop with
    | failed cause => exact hhandler cause hresult error herror
    | aborted => cases herror

end FailsWithin

/-- A run of two evaluations has a value exactly if both have one. -/
theorem result_bind_eq_ok_iff {step : Traced α} {next : α → Traced β} {value : β} :
    (step >>= next).result = .ok value ↔
      ∃ first, step.result = .ok first ∧ (next first).result = .ok value := by
  rw [result_bind]
  exact bind_eq_ok_iff

/-- A run of two evaluations stops in the first one, or in the second one on the value of the first.
-/
theorem result_bind_eq_error_iff {step : Traced α} {next : α → Traced β} {stop : Stop} :
    (step >>= next).result = .error stop ↔ step.result = .error stop ∨
      ∃ value, step.result = .ok value ∧ (next value).result = .error stop := by
  rw [result_bind]
  exact bind_eq_error_iff

/-- Behind a step with a known value, the run is the next step on this value. -/
theorem result_bind_of_ok {step : Traced α} {next : α → Traced β} {value : α}
    (h : step.result = .ok value) : (step >>= next).result = (next value).result := by
  rw [result_bind, h]
  rfl

/-- The value of an abortable step is the one that is there. -/
theorem orAbort_eq_ok_iff {value? : Option α} {value : α} :
    (orAbort value?).result = .ok value ↔ value? = some value := by
  cases value? with
  | none => exact iff_of_false (by rintro ⟨⟩) (by rintro ⟨⟩)
  | some found =>
    show Except.ok found = .ok value ↔ _
    rw [Except.ok.injEq, Option.some.injEq]

/-- The value of a step with an error for a missing value is the one that is there. -/
theorem ofOption_eq_ok_iff {error : Error} {value? : Option α} {value : α} :
    (ofOption error value?).result = .ok value ↔ value? = some value := by
  cases value? with
  | none => exact iff_of_false (by rintro ⟨⟩) (by rintro ⟨⟩)
  | some found =>
    show Except.ok found = .ok value ↔ _
    rw [Except.ok.injEq, Option.some.injEq]

/-- Such a step fails exactly if nothing is there, and with the given error. -/
theorem ofOption_eq_error_iff {error : Error} {value? : Option α} {stop : Stop} :
    (ofOption error value?).result = .error stop ↔ value? = none ∧ stop = .failed error := by
  cases value? with
  | none =>
    show Except.error _ = Except.error stop ↔ _
    rw [Except.error.injEq, eq_comm, and_iff_right rfl]
  | some found => exact iff_of_false (by rintro ⟨⟩) (by rintro ⟨⟨⟩, _⟩)

/-- The value of a step without events is that of its outcome. -/
theorem ofExcept_eq_ok_iff {outcome : Except Error α} {value : α} :
    (ofExcept outcome).result = .ok value ↔ outcome = .ok value := by
  cases outcome with
  | error error => exact iff_of_false (by rintro ⟨⟩) (by rintro ⟨⟩)
  | ok found =>
    show Except.ok found = .ok value ↔ _
    rw [Except.ok.injEq, Except.ok.injEq]

/-- If the evaluation is aborted, there is this `reason` for it. -/
def AbortsOnlyIf (reason : Prop) (step : Traced α) : Prop :=
  step.result = .error .aborted → reason

namespace AbortsOnlyIf

variable {reason other : Prop} {error : Error} {step : Traced α}

theorem mono (h : AbortsOnlyIf reason step) (hreason : reason → other) : AbortsOnlyIf other step :=
  fun haborted => hreason (h haborted)

theorem pure (value : α) : AbortsOnlyIf reason (Pure.pure value : Traced α) := by
  rintro ⟨⟩

theorem fail : AbortsOnlyIf reason (Traced.fail error : Traced α) := by
  rintro ⟨⟩

theorem ofExcept (outcome : Except Error α) : AbortsOnlyIf reason (Traced.ofExcept outcome) := by
  cases outcome with
  | ok value => exact pure value
  | error error => exact fail

theorem ofOption (value? : Option α) : AbortsOnlyIf reason (Traced.ofOption error value?) := by
  cases value? with
  | some value => exact pure value
  | none => exact fail

/-- The second step may rely on the value that it was given. -/
theorem bind {next : α → Traced β} (hstep : AbortsOnlyIf reason step)
    (hnext : ∀ value, step.result = .ok value → AbortsOnlyIf reason (next value)) :
    AbortsOnlyIf reason (step >>= next) := by
  intro haborted
  rcases Traced.result_bind_eq_error_iff.mp haborted with hfirst | ⟨value, hvalue, hrest⟩
  · exact hstep hfirst
  · exact hnext value hvalue hrest

end AbortsOnlyIf

end Traced

end Stencil
