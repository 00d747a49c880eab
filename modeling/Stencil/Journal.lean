import Stencil.Event
/-!
# Evaluations and their journal

An evaluation ends with a value, with an error, or by being aborted, and on its way it notes events
for a log. The journal is part of the outcome: a step cannot see what earlier steps noted, it only
adds to it.

* `Traced` — the outcome of an evaluation with its journal; a monad.
* `Traced.recover` — a handler of errors; nothing handles an abortion.
-/

namespace Stencil

/-- Why an evaluation has no value. -/
inductive Stop where
  /-- An error, which a renderer recovers from. -/
  | failed (error : Error)
  /-- Decimal arithmetic that left its range at a step that has no error for it. -/
  | aborted
deriving DecidableEq, Repr

/-- The outcome of an evaluation, and the events noted on the way, the first one first. -/
structure Traced (α : Type) where
  result : Except Stop α
  events : List Event

namespace Traced

variable {α β : Type}

/-- The outcome `value`, without events. -/
protected def pure (value : α) : Traced α := ⟨.ok value, []⟩

/-- First `step`, then, on its value, `next`. -/
protected def bind (step : Traced α) (next : α → Traced β) : Traced β :=
  match step.result with
  | .ok value => ⟨(next value).result, step.events ++ (next value).events⟩
  | .error stop => ⟨.error stop, step.events⟩

instance : Monad Traced where
  pure := Traced.pure
  bind := Traced.bind

/-- An evaluation that ends with an error. -/
def fail (error : Error) : Traced α := ⟨.error (.failed error), []⟩

/-- An evaluation that is aborted. -/
def abort : Traced α := ⟨.error .aborted, []⟩

/-- A step that notes an event. -/
def note (event : Event) : Traced Unit := ⟨.ok (), [event]⟩

/-- The outcome of a step that notes nothing. -/
def ofExcept : Except Error α → Traced α
  | .ok value => .pure value
  | .error error => fail error

/-- The value, or the given error if there is none. -/
def ofOption (error : Error) : Option α → Traced α
  | some value => .pure value
  | none => fail error

/-- The value, or an abortion if there is none. -/
def orAbort : Option α → Traced α
  | some value => .pure value
  | none => abort

/-- The evaluation `step`, with `handler` in place of an error. -/
def recover (step : Traced α) (handler : Error → Traced α) : Traced α :=
  match step.result with
  | .error (.failed error) =>
    ⟨(handler error).result, step.events ++ (handler error).events⟩
  | _ => step

@[simp] theorem result_pure (value : α) : (pure value : Traced α).result = .ok value := rfl

@[simp] theorem events_pure (value : α) : (pure value : Traced α).events = [] := rfl

@[simp] theorem result_bind (step : Traced α) (next : α → Traced β) :
    (step >>= next).result = step.result.bind fun value => (next value).result := by
  show (Traced.bind step next).result = _
  unfold Traced.bind
  cases step.result <;> rfl

end Traced

instance : LawfulMonad Traced :=
  LawfulMonad.mk' Traced
    (fun step => by
      obtain ⟨result, events⟩ := step
      cases result <;> simp [Functor.map, Traced.bind, Traced.pure])
    (fun value next => by simp [bind, pure, Traced.bind, Traced.pure])
    (fun first second third => by
      obtain ⟨result, events⟩ := first
      cases result with
      | error stop => simp [bind, Traced.bind]
      | ok value =>
        simp only [bind, Traced.bind]
        cases (second value).result <;> simp)

end Stencil
