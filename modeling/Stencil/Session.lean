import Stencil.Template
/-!
# Sessions

A session holds engines and templates under names. Engines may have their registries in common: an
engine shares them with those cloned from it, and an engine can be put together from the functions
of one engine and the operators of another. What is registered with an engine is there for every
engine with the same registry. A template evaluates with the engine that it was compiled for, and
sees what is registered later.

* `Session.engine?` — an engine with its registries as they are now.
* `Session.registerFunction`, `Session.registerOperator` — registration for all that share a
  registry.
-/

namespace Stencil

/-- An engine of a session, apart from its registries. -/
structure Member where
  /-- The number of the registry of its functions. -/
  functions : Nat
  /-- The number of the registry of its operators. -/
  operators : Nat
  resolve : Resolver
  config : EvaluationConfig

/-- A template and the engine that it was compiled for. -/
structure BoundTemplate where
  template : Template
  member : Member

namespace Registry

variable {α : Type}

/-- The registry of a number. -/
def numbered (registries : List (Registry α)) (number : Nat) : Registry α :=
  registries.getD number .empty

/-- The registries with `value` under `name` in the one of a number; `replaced` is noted if the name
was taken there. -/
def registerIn (registries : List (Registry α)) (number : Nat) (name : String) (value : α)
    (replaced : Event) : Traced (List (Registry α)) := do
  return registries.set number (← (numbered registries number).register name value replaced)

end Registry

/-- Engines and templates under names. -/
structure Session where
  /-- The registries of functions, by their numbers. -/
  functions : List (Registry Function)
  /-- The registries of operators, by their numbers. -/
  operators : List (Registry Operator)
  members : List (String × Member)
  templates : List (String × BoundTemplate)

namespace Session

/-- The session without engines and templates. -/
def empty : Session := ⟨[], [], [], []⟩

/-- An engine of the session with its registries. -/
def engineOf (session : Session) (member : Member) : Engine :=
  ⟨⟨.numbered session.functions member.functions, .numbered session.operators member.operators⟩,
    member.resolve, member.config⟩

/-- The engine under a name. -/
def engine? (session : Session) (id : String) : Option Engine :=
  (Assoc.get? id session.members).map session.engineOf

/-- The session with `engine` under a name, with registries of its own. -/
def addEngine (session : Session) (id : String) (engine : Engine) : Session :=
  { session with
    functions := session.functions ++ [engine.vocabulary.functions]
    operators := session.operators ++ [engine.vocabulary.operators]
    members := Assoc.insert id
      ⟨session.functions.length, session.operators.length, engine.resolve, engine.config⟩
      session.members }

/-- The session with a clone of the engine `parent` under the name `id`: with the same registries,
and with its own way of following paths if `resolve` is given. -/
def cloneEngine? (session : Session) (id parent : String) (resolve : Option Resolver) :
    Option Session := do
  let member ← Assoc.get? parent session.members
  let clone := { member with resolve := resolve.getD member.resolve }
  return { session with members := Assoc.insert id clone session.members }

/-- The session with an engine under the name `id` that has the functions of one engine and the
operators of another. -/
def shareEngine? (session : Session) (id functions operators : String) (resolve : Resolver)
    (config : EvaluationConfig) : Option Session := do
  let first ← Assoc.get? functions session.members
  let second ← Assoc.get? operators session.members
  return { session with
    members := Assoc.insert id ⟨first.functions, second.operators, resolve, config⟩ session.members }

/-- The session with a function registered with an engine. -/
def registerFunction (session : Session) (id name : String) (function : Function) :
    Traced Session := do
  match Assoc.get? id session.members with
  | none => return session
  | some member => return { session with
      functions := ← Registry.registerIn session.functions member.functions name function
        (.functionReplaced name) }

/-- The session with an operator registered with an engine. -/
def registerOperator (session : Session) (id symbol : String) (operator : Operator) :
    Traced Session := do
  match Assoc.get? id session.members with
  | none => return session
  | some member => return { session with
      operators := ← Registry.registerIn session.operators member.operators symbol operator
        (.operatorReplaced symbol) }

/-- The session with a template compiled for the engine `engine`. -/
def addTemplate? (session : Session) (id engine : String) (template : Template) :
    Option Session := do
  let member ← Assoc.get? engine session.members
  return { session with templates := Assoc.insert id ⟨template, member⟩ session.templates }

/-- The template under a name, and its engine. -/
def template? (session : Session) (id : String) : Option (Template × Engine) :=
  (Assoc.get? id session.templates).map fun bound =>
    (bound.template, session.engineOf bound.member)

end Session

end Stencil
