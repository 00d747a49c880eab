import Stencil.Function.Host
import Stencil.Proofs.Assembly
import Stencil.Proofs.Registries
import Stencil.Proofs.Semantics

/-!
# What engines have registered

A session is made by steps: engines are created and cloned, templates are compiled, functions and
operators registered, expressions evaluated. Which engine stands for what can be told from the list
of the steps alone, and the session holds nothing else.

* **`member?`**, **`bound?`** — the engine under a name and the engine of a template, by the numbers
  of their registries. A new engine has new numbers, a clone has those of its parent.
* **`Shelf.latest?`** — what was last registered under a name in the registry of a number. Functions
  and operators are the two shelves.
* **`Tracks`**, **`Tracks.take`**, **`run_tracks`** — the invariant, one lemma for each kind of
  step.
* **`Member.outcome`**, **`BoundTemplate.outcome`** — what an evaluation and a rendering yield with
  a given vocabulary, by the plain semantics of expressions.
* **`Serves`**, **`Spares`**, **`run_serves`** — evaluations and renderings use what was last
  registered, and only the registrations of engines with the same registry change them.
-/

namespace Stencil

/-! ## What evaluations yield

An evaluation through an engine is the meaning of an expression over the vocabulary of that engine:
each call and each operator looks its name or symbol up there, and reports that it is unknown if
there is nothing. Which vocabulary that is, the engine does not say. It has two numbers of
registries, and what they hold depends on everything that has happened in the session. -/

namespace Member

/-- The engine with a vocabulary. -/
def engine (member : Member) (vocabulary : Vocabulary) : Engine :=
  ⟨vocabulary, member.resolve, member.config⟩

/-- What evaluating a source yields if the engine has the vocabulary. -/
def outcome (member : Member) (vocabulary : Vocabulary) (source : String) (document : Json)
    (render : RenderConfig) : Except Stop Value :=
  match Expr.parse source with
  | .ok expr => (((member.engine vocabulary).environment document render).meaning expr 0).result
  | .error error => .error (.failed (.parse error.position error.message))

/-- The engine parses the source and runs the tree, and this has the result that the plain semantics
gives. A source that does not parse is an error of the engine as well. -/
theorem result_evaluate (member : Member) (vocabulary : Vocabulary) (source : String) (document : Json)
    (render : RenderConfig) :
    ((member.engine vocabulary).evaluate source document render).result =
      member.outcome vocabulary source document render := by
  cases hparse : Expr.parse source with
  | ok expr =>
    simp only [Engine.evaluate, outcome, hparse]
    apply Expr.result_evaluate
  | error error =>
    simp only [Engine.evaluate, outcome, hparse]
    rfl

end Member

namespace BoundTemplate

/-- What rendering a template yields if its engine has the vocabulary: its literals, and in the
place of each placeholder the meaning of its expression. -/
def outcome (bound : BoundTemplate) (vocabulary : Vocabulary) (context : String)
    (override : Option RenderConfig) : Except Stop String :=
  let config := override.getD bound.template.config
  let document := (Json.ofContext context).toOption.getD .emptyObject
  let environment := (bound.member.engine vocabulary).environment document config
  joinOutputs (fun
    | .placeholder source expr => placeholderOutput source config (environment.meaning expr 0).result
    | literal => .ok (literal.literalText?.getD "")) bound.template.fragments

/-- Rendering through the engine has the result that is put together from the literals of the
template and the meanings of its placeholders. -/
theorem result_render (bound : BoundTemplate) (vocabulary : Vocabulary) (context : String)
    (override : Option RenderConfig) :
    (bound.template.render (bound.member.engine vocabulary) context override).result =
      bound.outcome vocabulary context override := by
  rw [Stencil.result_render, outcome]
  congr 1
  -- literals are rendered without the engine
  funext fragment
  cases fragment with
  | literal content => rfl
  | verbatim content => rfl
  | placeholder source expr =>
    refine (result_renderPlaceholder _ _ _).trans ?_
    rw [Expr.result_evaluate]

end BoundTemplate

/-! ## Steps of a session

What can be done with a session, as data. The results of evaluations and renderings are not kept by
the session, so these steps change nothing but the log. They belong to the steps nevertheless: that
nothing else is changed by them is a part of what is stated. -/

namespace Session

/-- A step of a session. -/
inductive Step where
  /-- A new engine, with registries of its own. -/
  | create (id : String) (engine : Engine)
  | clone (id parent : String) (resolve : Option Resolver)
  /-- A new engine over the functions of one engine and the operators of another. -/
  | share (id functions operators : String) (resolve : Resolver) (config : EvaluationConfig)
  | compile (id engine text : String) (config : RenderConfig)
  | registerFunction (engine name : String) (function : Function)
  | registerOperator (engine symbol : String) (operator : Operator)
  | evaluate (engine source : String) (document : Json) (render : RenderConfig)
  | render (template context : String) (override : Option RenderConfig)

/-- What evaluating with an engine gives, if there is one of that name. -/
def evaluate? (session : Session) (id source : String) (document : Json) (render : RenderConfig) :
    Option (Traced Value) :=
  (session.engine? id).map fun engine => engine.evaluate source document render

/-- What rendering a template gives, if there is one of that name. -/
def render? (session : Session) (id context : String) (override : Option RenderConfig) :
    Option (Traced String) :=
  (session.template? id).map fun (template, engine) => template.render engine context override

/-- The session as it is, with the events of an evaluation. -/
def noting {α : Type} (session : Session) (outcome? : Option (Traced α)) : Traced Session :=
  ⟨.ok session, (outcome?.map (·.events)).getD []⟩

/-- The session after a step. A step with an engine that does not exist changes nothing, and so does
a template that is not well-formed. -/
def take (session : Session) : Step → Traced Session
  | .create id engine => pure (session.addEngine id engine)
  | .clone id parent resolve => pure ((session.cloneEngine? id parent resolve).getD session)
  | .share id functions operators resolve config =>
    pure ((session.shareEngine? id functions operators resolve config).getD session)
  | .compile id engine text config =>
    match Template.compile text config with
    | .ok template => pure ((session.addTemplate? id engine template).getD session)
    | .error _ => pure session
  | .registerFunction engine name function => session.registerFunction engine name function
  | .registerOperator engine symbol operator => session.registerOperator engine symbol operator
  | .evaluate engine source document render =>
    session.noting (session.evaluate? engine source document render)
  | .render template context override => session.noting (session.render? template context override)

/-- The session after all steps of a history, which lists the latest one first. -/
def run : List Step → Traced Session
  | [] => pure .empty
  | step :: history => do (← run history).take step

/-! ## What a history tells

The functions below read off a list of steps what the session has become, without any registry in
between: which registries an engine uses, by their numbers, which engine a template was compiled
for, and what was registered last. They are the specification, and the invariant further down
compares the session with them. -/

/-- The number of engines with registries of their own. -/
def creations : List Step → Nat
  | [] => 0
  | .create _ _ :: history => creations history + 1
  | _ :: history => creations history

/-- The engine under a name: a new one gets new registries, others those of the engines that they
were made from. -/
def member? : List Step → String → Option Member
  | [], _ => none
  | .create id engine :: history, name =>
    if name = id then some ⟨creations history, creations history, engine.resolve, engine.config⟩
    else member? history name
  | .clone id parent resolve :: history, name =>
    match member? history parent with
    | some member =>
      if name = id then some { member with resolve := resolve.getD member.resolve }
      else member? history name
    | none => member? history name
  | .share id functions operators resolve config :: history, name =>
    match member? history functions, member? history operators with
    | some first, some second =>
      if name = id then some ⟨first.functions, second.operators, resolve, config⟩
      else member? history name
    | _, _ => member? history name
  | _ :: history, name => member? history name

/-- The template under a name, and the engine that had the name of its engine when it was compiled.
-/
def bound? : List Step → String → Option BoundTemplate
  | [], _ => none
  | .compile id engine text config :: history, name =>
    match Template.compile text config, member? history engine with
    | .ok template, some member => if name = id then some ⟨template, member⟩ else bound? history name
    | _, _ => bound? history name
  | _ :: history, name => bound? history name

/-- What is registered: functions or operators. -/
structure Shelf (α : Type) where
  /-- The number of the registry that an engine uses. -/
  number : Member → Nat
  /-- The registry that a step brings along. -/
  initial? : Step → Option (Registry α)
  /-- The engine, the name and the value of a registration. -/
  registered? : Step → Option (String × String × α)

namespace Shelf

variable {α : Type}

/-- The functions. -/
def functions : Shelf Function where
  number := Member.functions
  initial?
    | .create _ engine => some engine.vocabulary.functions
    | _ => none
  registered?
    | .registerFunction engine name function => some (engine, name, function)
    | _ => none

/-- The operators. -/
def operators : Shelf Operator where
  number := Member.operators
  initial?
    | .create _ engine => some engine.vocabulary.operators
    | _ => none
  registered?
    | .registerOperator engine symbol operator => some (engine, symbol, operator)
    | _ => none

/-- What was last registered under a name with an engine that uses the registry of a number. Before
the first registration it is what the registry came with. -/
def latest? (shelf : Shelf α) : List Step → Nat → String → Option α
  | [], _, _ => none
  | step :: history, number, name =>
    match shelf.initial? step, shelf.registered? step with
    | some registry, _ =>
      if number = creations history then registry.get? name else shelf.latest? history number name
    | none, some (engine, registered, value) =>
      if (member? history engine).map shelf.number = some number ∧ name = registered then some value
      else shelf.latest? history number name
    | none, none => shelf.latest? history number name

end Shelf

/-- An engine is in use if it has a name, or if a template has been compiled for it. -/
def InUse (history : List Step) (member : Member) : Prop :=
  (∃ id, member? history id = some member) ∨
    ∃ id template, bound? history id = some ⟨template, member⟩

/-- A step registers something with an engine that shares a registry with the given one. -/
def Reaches (history : List Step) (step : Step) (member : Member) : Prop :=
  (∃ engine name function, step = .registerFunction engine name function ∧
    (member? history engine).map Member.functions = some member.functions) ∨
  ∃ engine symbol operator, step = .registerOperator engine symbol operator ∧
    (member? history engine).map Member.operators = some member.operators

/-- The session serves every engine with a vocabulary that its history tells: there is, under each
name and symbol, what was last registered with the engines that share a registry with that engine,
and nothing else. What an evaluation or a rendering yields, it yields with this vocabulary. -/
structure Serves (history : List Step) (session : Session) (vocabulary : Member → Vocabulary) :
    Prop where
  functions_get? : ∀ member name, (vocabulary member).functions.get? name =
    Shelf.functions.latest? history member.functions name
  operators_get? : ∀ member symbol, (vocabulary member).operators.get? symbol =
    Shelf.operators.latest? history member.operators symbol
  call : ∀ member name arguments settings, (vocabulary member).call name arguments settings =
    match Shelf.functions.latest? history member.functions name with
    | some function => function.apply arguments settings
    | none => .fail (.unknownFunction name)
  operate : ∀ member symbol left right settings,
    (vocabulary member).operate symbol left right settings =
      match Shelf.operators.latest? history member.operators symbol with
      | some operator => operator left right settings
      | none => .fail (.unknownOperator symbol)
  /-- What can be asked of the registries agrees. -/
  consistent : ∀ member, (vocabulary member).functions.Consistent ∧
    (vocabulary member).operators.Consistent
  /-- No other vocabulary has all that. -/
  only : ∀ member (other : Vocabulary),
    (∀ name, other.functions.get? name = Shelf.functions.latest? history member.functions name) →
    (∀ symbol, other.operators.get? symbol =
      Shelf.operators.latest? history member.operators symbol) →
    other = vocabulary member
  engine? : ∀ id, session.engine? id =
    (member? history id).map fun member => member.engine (vocabulary member)
  template? : ∀ id, session.template? id =
    (bound? history id).map fun bound =>
      (bound.template, bound.member.engine (vocabulary bound.member))
  evaluate? : ∀ id source document render,
    (session.evaluate? id source document render).map Traced.result =
      (member? history id).map fun member =>
        member.outcome (vocabulary member) source document render
  /-- Of the vocabulary it matters what it is now, and not what it was when the template was
  compiled. -/
  render? : ∀ id context override, (session.render? id context override).map Traced.result =
    (bound? history id).map fun bound =>
      bound.outcome (vocabulary bound.member) context override

/-- The step changes nothing for engines with which it shares no registry, and nothing for their
templates. -/
structure Spares (history : List Step) (step : Step) (before after : Session) : Prop where
  engineOf : ∀ member, InUse history member → ¬ Reaches history step member →
    after.engineOf member = before.engineOf member
  evaluate? : ∀ id member, member? history id = some member →
    member? (step :: history) id = some member → ¬ Reaches history step member →
      after.evaluate? id = before.evaluate? id
  render? : ∀ id bound, bound? history id = some bound →
    bound? (step :: history) id = some bound → ¬ Reaches history step bound.member →
      after.render? id = before.render? id

/-! ## The invariant

The session keeps its registries in a list, and a new engine appends to it, so the numbers of
registries are below the number of engines that were created. Registrations only ever change the
registry of one number. With this the look-ups of the session and those of the history are compared
step by step, each kind of step by itself. -/

/-- **The engines of a history use registries that have been created.** Induction on the history: a
new engine takes the next number, and any other one takes those of engines before it. So what is
registered for a number that is yet to be given out does not matter. -/
theorem member?_lt {history : List Step} {id : String} {member : Member}
    (h : member? history id = some member) :
    member.functions < creations history ∧ member.operators < creations history := by
  induction history generalizing id member with
  | nil => cases h
  | cons step history ih =>
    cases step with
    | create other engine =>
      rw [member?] at h
      rw [creations]
      split at h
      · cases h
        exact ⟨Nat.lt_succ_self _, Nat.lt_succ_self _⟩
      · exact ⟨Nat.lt_succ_of_lt (ih h).1, Nat.lt_succ_of_lt (ih h).2⟩
    | clone other parent resolve =>
      rw [member?] at h
      split at h
      · next hparent =>
        split at h
        · cases h
          exact ⟨(ih hparent).1, (ih hparent).2⟩
        · exact ih h
      · exact ih h
    -- the two numbers come from two engines
    | share other functions operators resolve config =>
      rw [member?] at h
      split at h
      · next hfirst hsecond =>
        split at h
        · cases h
          exact ⟨(ih hfirst).1, (ih hsecond).2⟩
        · exact ih h
      · exact ih h
    | compile => exact ih h
    | registerFunction => exact ih h
    | registerOperator => exact ih h
    | evaluate => exact ih h
    | render => exact ih h

/-- So do the engines of templates, which have been engines under a name when the template was
compiled. The engine may be gone under that name; its registries stay. -/
theorem bound?_lt {history : List Step} {id : String} {bound : BoundTemplate}
    (h : bound? history id = some bound) :
    bound.member.functions < creations history ∧ bound.member.operators < creations history := by
  induction history generalizing id bound with
  | nil => cases h
  | cons step history ih =>
    cases step with
    | create => exact ⟨Nat.lt_succ_of_lt (ih h).1, Nat.lt_succ_of_lt (ih h).2⟩
    -- the engine of the template had a name at this point
    | compile other engine text config =>
      rw [bound?] at h
      split at h
      · next hcompiled hmember =>
        split at h
        · cases h
          exact member?_lt hmember
        · exact ih h
      · exact ih h
    | clone => exact ih h
    | share => exact ih h
    | registerFunction => exact ih h
    | registerOperator => exact ih h
    | evaluate => exact ih h
    | render => exact ih h

/-- An engine that is in use has registries that have been created. -/
theorem InUse.lt {history : List Step} {member : Member} (h : InUse history member) :
    member.functions < creations history ∧ member.operators < creations history := by
  rcases h with ⟨id, hmember⟩ | ⟨id, template, hbound⟩
  · exact member?_lt hmember
  · exact bound?_lt hbound

namespace Shelf

variable {α : Type} {shelf : Shelf α} {step : Step} {history : List Step}
  {registries : List (Registry α)}

/-- A step that brings a registry along determines what is found in it. The registries before it are
not changed. -/
theorem latest?_of_initial {registry : Registry α} (hinitial : shelf.initial? step = some registry)
    (number : Nat) (name : String) :
    shelf.latest? (step :: history) number name =
      if number = creations history then registry.get? name
      else shelf.latest? history number name := by
  rw [latest?, hinitial]

/-- A registration determines what is found under its name in the registry of its engine. All other
names, and all other registries, keep what they have. -/
theorem latest?_of_registered {engine registered : String} {value : α}
    (hinitial : shelf.initial? step = none)
    (hregistered : shelf.registered? step = some (engine, registered, value)) (number : Nat)
    (name : String) :
    shelf.latest? (step :: history) number name =
      if (member? history engine).map shelf.number = some number ∧ name = registered then some value
      else shelf.latest? history number name := by
  rw [latest?, hinitial, hregistered]

theorem latest?_of_neither (hinitial : shelf.initial? step = none)
    (hregistered : shelf.registered? step = none) (number : Nat) (name : String) :
    shelf.latest? (step :: history) number name = shelf.latest? history number name := by
  rw [latest?, hinitial, hregistered]

/-- A step only matters for a registry that it registers something in. -/
theorem latest?_frame {number : Nat} (hnumber : number < creations history)
    (h : ∀ engine name value, shelf.registered? step = some (engine, name, value) →
      (member? history engine).map shelf.number ≠ some number) (name : String) :
    shelf.latest? (step :: history) number name = shelf.latest? history number name := by
  -- a registry that comes along has the next number, which is not this one
  rcases hinitial : shelf.initial? step with _ | registry
  · rcases hregistered : shelf.registered? step with _ | ⟨engine, registered, value⟩
    · exact latest?_of_neither hinitial hregistered number name
    · rw [latest?_of_registered hinitial hregistered, if_neg fun hboth =>
        h engine registered value hregistered hboth.1]
  · rw [latest?_of_initial hinitial, if_neg (Nat.ne_of_lt hnumber)]

/-- The registries hold what the history tells. -/
structure Tracks (shelf : Shelf α) (history : List Step) (registries : List (Registry α)) : Prop where
  length : registries.length = creations history
  get? : ∀ number name,
    (Registry.numbered registries number).get? name = shelf.latest? history number name

/-- A registry that comes along is appended, and has the number that the history gives it. -/
theorem Tracks.initial {registry : Registry α} (h : shelf.Tracks history registries)
    (hcount : creations (step :: history) = creations history + 1)
    (hinitial : shelf.initial? step = some registry) :
    shelf.Tracks (step :: history) (registries ++ [registry]) := by
  refine ⟨by rw [List.length_append, h.length, hcount]; rfl, fun number name => ?_⟩
  rw [Registry.numbered_append, h.length, latest?_of_initial hinitial]
  split
  · rfl
  · exact h.get? number name

/-- A step without a registry and without a registration leaves the registries as they are. -/
theorem Tracks.skip (h : shelf.Tracks history registries)
    (hcount : creations (step :: history) = creations history)
    (hinitial : shelf.initial? step = none) (hregistered : shelf.registered? step = none) :
    shelf.Tracks (step :: history) registries := by
  refine ⟨by rw [h.length, hcount], fun number name => ?_⟩
  rw [latest?_of_neither hinitial hregistered]
  exact h.get? number name

/-- A registration with an engine of the history is made in the registry that the engine uses, and
is found there from then on. -/
theorem Tracks.register {engine name : String} {value : α} {member : Member}
    (h : shelf.Tracks history registries)
    (hcount : creations (step :: history) = creations history)
    (hinitial : shelf.initial? step = none)
    (hregistered : shelf.registered? step = some (engine, name, value))
    (hmember : member? history engine = some member) (hlt : shelf.number member < creations history) :
    shelf.Tracks (step :: history) (registries.set (shelf.number member)
      ((Registry.numbered registries (shelf.number member)).insert name value)) := by
  refine ⟨by rw [List.length_set, h.length, hcount], fun number other => ?_⟩
  rw [Registry.numbered_set (by rwa [h.length]), latest?_of_registered hinitial hregistered, hmember,
    Option.map_some]
  -- in the same registry it depends on the name, and other registries are not touched
  by_cases hnumber : number = shelf.number member
  · subst hnumber
    rw [if_pos rfl, Registry.get?_insert, h.get?]
    simp only [true_and]
  · rw [if_neg hnumber, if_neg fun hboth => hnumber (Option.some.inj hboth.1).symm]
    exact h.get? number other

/-- A registration with an engine that does not exist changes nothing. -/
theorem Tracks.missing {engine name : String} {value : α} (h : shelf.Tracks history registries)
    (hcount : creations (step :: history) = creations history)
    (hinitial : shelf.initial? step = none)
    (hregistered : shelf.registered? step = some (engine, name, value))
    (hmember : member? history engine = none) : shelf.Tracks (step :: history) registries := by
  refine ⟨by rw [h.length, hcount], fun number other => ?_⟩
  rw [latest?_of_registered hinitial hregistered, hmember]
  exact h.get? number other

/-- The only steps that register functions are those that say so. -/
theorem eq_registerFunction {engine name : String} {function : Function}
    (h : functions.registered? step = some (engine, name, function)) :
    step = .registerFunction engine name function := by
  cases step with
  | registerFunction => cases h; rfl
  | _ => cases h

/-- The only steps that register operators are those that say so. -/
theorem eq_registerOperator {engine symbol : String} {operator : Operator}
    (h : operators.registered? step = some (engine, symbol, operator)) :
    step = .registerOperator engine symbol operator := by
  cases step with
  | registerOperator => cases h; rfl
  | _ => cases h

end Shelf

/-- The session holds what its history tells. -/
structure Tracks (history : List Step) (session : Session) : Prop where
  functions : Shelf.functions.Tracks history session.functions
  operators : Shelf.operators.Tracks history session.operators
  members : ∀ id, Assoc.get? id session.members = member? history id
  templates : ∀ id, Assoc.get? id session.templates = bound? history id

/-- Before the first step there is nothing. -/
theorem tracks_empty : Tracks [] empty where
  functions := ⟨rfl, fun _ _ => rfl⟩
  operators := ⟨rfl, fun _ _ => rfl⟩
  members _ := rfl
  templates _ := rfl

variable {history : List Step} {session : Session}

/-- A function that is registered with an engine of the session is put into the registry of this
engine. That a function is replaced shows in the log only. -/
theorem result_registerFunction {id : String} {member : Member}
    (h : Assoc.get? id session.members = some member) (name : String) (function : Function) :
    (session.registerFunction id name function).result = .ok { session with
      functions := session.functions.set member.functions
        ((Registry.numbered session.functions member.functions).insert name function) } := by
  simp only [registerFunction, h, Traced.result_bind, Registry.result_registerIn, Except.bind,
    Traced.result_pure]

/-- The same for an operator, in the other registry. -/
theorem result_registerOperator {id : String} {member : Member}
    (h : Assoc.get? id session.members = some member) (symbol : String) (operator : Operator) :
    (session.registerOperator id symbol operator).result = .ok { session with
      operators := session.operators.set member.operators
        ((Registry.numbered session.operators member.operators).insert symbol operator) } := by
  simp only [registerOperator, h, Traced.result_bind, Registry.result_registerIn, Except.bind,
    Traced.result_pure]

/-- The session after a step holds what the longer history tells. -/
abbrev Keeps (history : List Step) (session : Session) (step : Step) : Prop :=
  ∃ after, (session.take step).result = .ok after ∧ after.Tracks (step :: history)

/-- A new engine has registries of its own, which are those that it comes with. -/
theorem Tracks.create (h : session.Tracks history) (id : String) (engine : Engine) :
    Keeps history session (.create id engine) := by
  have hmembers : (session.addEngine id engine).members = Assoc.insert id
      ⟨creations history, creations history, engine.resolve, engine.config⟩ session.members := by
    rw [addEngine, h.functions.length, h.operators.length]
  refine ⟨_, rfl, h.functions.initial rfl rfl, h.operators.initial rfl rfl, fun name => ?_, h.templates⟩
  rw [hmembers, member?, ← h.members]
  exact Assoc.get?_insert ..

/-- A step that registers nothing keeps the registries. -/
theorem Tracks.quiet {step : Step} {after : Session} (h : session.Tracks history)
    (hcount : creations (step :: history) = creations history)
    (hfunctions : Shelf.functions.initial? step = none ∧ Shelf.functions.registered? step = none)
    (hoperators : Shelf.operators.initial? step = none ∧ Shelf.operators.registered? step = none)
    (hsame : after.functions = session.functions ∧ after.operators = session.operators)
    (hmembers : ∀ id, Assoc.get? id after.members = member? (step :: history) id)
    (htemplates : ∀ id, Assoc.get? id after.templates = bound? (step :: history) id) :
    after.Tracks (step :: history) where
  functions := hsame.1 ▸ h.functions.skip hcount hfunctions.1 hfunctions.2
  operators := hsame.2 ▸ h.operators.skip hcount hoperators.1 hoperators.2
  members := hmembers
  templates := htemplates

/-- A clone has the registries of its parent, if there is one, and may follow paths in its own way.
-/
theorem Tracks.clone (h : session.Tracks history) (id parent : String) (resolve : Option Resolver) :
    Keeps history session (.clone id parent resolve) := by
  refine ⟨_, rfl, ?_⟩
  rw [cloneEngine?, h.members]
  cases hparent : member? history parent with
  -- without a parent the step changes nothing, and the history says so too
  | none =>
    refine h.quiet rfl ⟨rfl, rfl⟩ ⟨rfl, rfl⟩ ⟨rfl, rfl⟩ (fun name => ?_) h.templates
    rw [member?, hparent]
    exact h.members name
  | some member =>
    refine h.quiet rfl ⟨rfl, rfl⟩ ⟨rfl, rfl⟩ ⟨rfl, rfl⟩ (fun name => ?_) h.templates
    rw [member?, hparent, ← h.members]
    exact Assoc.get?_insert ..

/-- An engine over the functions of one engine and the operators of another has one registry of
each. -/
theorem Tracks.share (h : session.Tracks history) (id functions operators : String)
    (resolve : Resolver) (config : EvaluationConfig) :
    Keeps history session (.share id functions operators resolve config) := by
  refine ⟨_, rfl, ?_⟩
  rw [shareEngine?, h.members, h.members]
  rcases hfirst : member? history functions with _ | first
  · refine h.quiet rfl ⟨rfl, rfl⟩ ⟨rfl, rfl⟩ ⟨rfl, rfl⟩ (fun name => ?_) h.templates
    rw [member?, hfirst]
    exact h.members name
  rcases hsecond : member? history operators with _ | second
  · refine h.quiet rfl ⟨rfl, rfl⟩ ⟨rfl, rfl⟩ ⟨rfl, rfl⟩ (fun name => ?_) h.templates
    rw [member?, hfirst, hsecond]
    exact h.members name
  · refine h.quiet rfl ⟨rfl, rfl⟩ ⟨rfl, rfl⟩ ⟨rfl, rfl⟩ (fun name => ?_) h.templates
    rw [member?, hfirst, hsecond, ← h.members]
    exact Assoc.get?_insert ..

/-- A template is bound to the engine that has the name now. Later steps may give the name to
another one. -/
theorem Tracks.compile (h : session.Tracks history) (id engine text : String)
    (config : RenderConfig) : Keeps history session (.compile id engine text config) := by
  rw [Keeps, Session.take]
  rcases hcompiled : Template.compile text config with error | template
  · refine ⟨session, rfl, h.quiet rfl ⟨rfl, rfl⟩ ⟨rfl, rfl⟩ ⟨rfl, rfl⟩ h.members fun name => ?_⟩
    rw [bound?, hcompiled]
    exact h.templates name
  refine ⟨_, rfl, ?_⟩
  rw [addTemplate?, h.members]
  rcases hmember : member? history engine with _ | member
  · refine h.quiet rfl ⟨rfl, rfl⟩ ⟨rfl, rfl⟩ ⟨rfl, rfl⟩ h.members fun name => ?_
    rw [bound?, hcompiled, hmember]
    exact h.templates name
  · refine h.quiet rfl ⟨rfl, rfl⟩ ⟨rfl, rfl⟩ ⟨rfl, rfl⟩ h.members fun name => ?_
    rw [bound?, hcompiled, hmember, ← h.templates]
    exact Assoc.get?_insert ..

/-- To register a function keeps the invariant, whether the engine is there or not. -/
theorem Tracks.registerFunction (h : session.Tracks history) (engine name : String)
    (function : Function) : Keeps history session (.registerFunction engine name function) := by
  cases hmember : member? history engine with
  | none =>
    refine ⟨session, ?_, h.functions.missing rfl rfl rfl hmember, h.operators.skip rfl rfl rfl,
      h.members, h.templates⟩
    rw [Session.take, Session.registerFunction, h.members, hmember]
    rfl
  | some member =>
    exact ⟨_, result_registerFunction ((h.members engine).trans hmember) name function,
      h.functions.register rfl rfl rfl hmember (member?_lt hmember).1,
      h.operators.skip rfl rfl rfl, h.members, h.templates⟩

/-- To register an operator keeps the invariant, whether the engine is there or not. -/
theorem Tracks.registerOperator (h : session.Tracks history) (engine symbol : String)
    (operator : Operator) : Keeps history session (.registerOperator engine symbol operator) := by
  cases hmember : member? history engine with
  | none =>
    refine ⟨session, ?_, h.functions.skip rfl rfl rfl, h.operators.missing rfl rfl rfl hmember,
      h.members, h.templates⟩
    rw [Session.take, Session.registerOperator, h.members, hmember]
    rfl
  | some member =>
    exact ⟨_, result_registerOperator ((h.members engine).trans hmember) symbol operator,
      h.functions.skip rfl rfl rfl, h.operators.register rfl rfl rfl hmember (member?_lt hmember).2,
      h.members, h.templates⟩

/-- **A step keeps the session and its history together.** There is one lemma for each kind of step;
evaluations and renderings leave the session as it is. -/
theorem Tracks.take (h : session.Tracks history) (step : Step) : Keeps history session step := by
  cases step with
  | create id engine => exact h.create id engine
  | clone id parent resolve => exact h.clone id parent resolve
  | share id functions operators resolve config =>
    exact h.share id functions operators resolve config
  | compile id engine text config => exact h.compile id engine text config
  | registerFunction engine name function => exact h.registerFunction engine name function
  | registerOperator engine symbol operator => exact h.registerOperator engine symbol operator
  | evaluate =>
    exact ⟨session, rfl, h.quiet rfl ⟨rfl, rfl⟩ ⟨rfl, rfl⟩ ⟨rfl, rfl⟩ h.members h.templates⟩
  | render =>
    exact ⟨session, rfl, h.quiet rfl ⟨rfl, rfl⟩ ⟨rfl, rfl⟩ ⟨rfl, rfl⟩ h.members h.templates⟩

/-- **So does every run.** Every history leads to a session, since no step can fail, and this
session holds what the history tells. Induction on the history. -/
theorem run_tracks (history : List Step) :
    ∃ session, (run history).result = .ok session ∧ session.Tracks history := by
  -- a history starts with the latest step, which is taken off first
  induction history with
  | nil => exact ⟨empty, rfl, tracks_empty⟩
  | cons step history ih =>
    obtain ⟨session, hrun, htracks⟩ := ih
    obtain ⟨after, htake, hafter⟩ := htracks.take step
    refine ⟨after, ?_, hafter⟩
    rw [run, Traced.result_bind, hrun]
    exact htake

/-- The vocabulary that the session has for an engine. -/
def vocabularyOf (session : Session) (member : Member) : Vocabulary :=
  ⟨.numbered session.functions member.functions, .numbered session.operators member.operators⟩

/-- Two vocabularies in which the same is found are the same. -/
theorem Tracks.eq_vocabularyOf (h : session.Tracks history) (member : Member) (other : Vocabulary)
    (hfunctions : ∀ name, other.functions.get? name =
      Shelf.functions.latest? history member.functions name)
    (hoperators : ∀ symbol, other.operators.get? symbol =
      Shelf.operators.latest? history member.operators symbol) :
    other = session.vocabularyOf member := by
  obtain ⟨functions, operators⟩ := other
  have hsame : functions = Registry.numbered session.functions member.functions :=
    Registry.ext_get? fun name => (hfunctions name).trans (h.functions.get? _ name).symm
  have hsame' : operators = Registry.numbered session.operators member.operators :=
    Registry.ext_get? fun symbol => (hoperators symbol).trans (h.operators.get? _ symbol).symm
  rw [vocabularyOf, hsame, hsame']

/-- The engine under a name, with the vocabulary of the session. -/
theorem Tracks.engine? (h : session.Tracks history) (id : String) :
    session.engine? id =
      (member? history id).map fun member => member.engine (session.vocabularyOf member) := by
  rw [Session.engine?, h.members]
  rfl

/-- The template under a name, and its engine with the vocabulary that the session has now. -/
theorem Tracks.template? (h : session.Tracks history) (id : String) :
    session.template? id = (bound? history id).map fun bound =>
      (bound.template, bound.member.engine (session.vocabularyOf bound.member)) := by
  rw [Session.template?, h.templates]
  rfl

/-- **A session that holds what its history tells serves its engines.** All fields but two are
look-ups. An evaluation and a rendering go through the engine's parts one by one, and
`Member.result_evaluate` and `BoundTemplate.result_render` say what comes of them over the
vocabulary of the history. -/
theorem Tracks.serves (h : session.Tracks history) :
    Serves history session session.vocabularyOf where
  functions_get? member name := h.functions.get? member.functions name
  operators_get? member symbol := h.operators.get? member.operators symbol
  call member name arguments settings := by
    rw [Vocabulary.call, ← h.functions.get?]
    rfl
  operate member symbol left right settings := by
    rw [Vocabulary.operate, ← h.operators.get?]
    rfl
  consistent member := ⟨Registry.consistent _, Registry.consistent _⟩
  only := h.eq_vocabularyOf
  engine? := h.engine?
  template? := h.template?
  evaluate? id source document render := by
    -- the session has the engine that the history tells
    rw [Session.evaluate?, h.engine?]
    cases member? history id with
    | none => rfl
    | some member =>
      exact congrArg some (member.result_evaluate (session.vocabularyOf member) source document render)
  render? id context override := by
    rw [Session.render?, h.template?]
    cases bound? history id with
    | none => rfl
    | some bound =>
      exact congrArg some (bound.result_render (session.vocabularyOf bound.member) context override)

/-- What a step does not reach, it leaves as it is. An engine is what is found in its registries,
and for those the longer history tells the same. -/
theorem Tracks.frame {step : Step} {after : Session} (h : session.Tracks history)
    (hafter : after.Tracks (step :: history)) {member : Member} (huse : InUse history member)
    (hreach : ¬ Reaches history step member) : after.engineOf member = session.engineOf member := by
  have hsame : after.vocabularyOf member = session.vocabularyOf member := by
    refine h.eq_vocabularyOf member _ (fun name => ?_) fun symbol => ?_
    · rw [← @Shelf.latest?_frame _ _ step _ _ huse.lt.1]
      · exact hafter.functions.get? _ name
      · intro engine registered function hregistered hsame
        exact hreach (.inl ⟨engine, registered, function, Shelf.eq_registerFunction hregistered, hsame⟩)
    · rw [← @Shelf.latest?_frame _ _ step _ _ huse.lt.2]
      · exact hafter.operators.get? _ symbol
      · intro engine registered operator hregistered hsame
        exact hreach (.inr ⟨engine, registered, operator, Shelf.eq_registerOperator hregistered, hsame⟩)
  exact congrArg member.engine hsame

/-- Engines and templates that keep their names are then found as they were. -/
theorem Tracks.spares {step : Step} {after : Session} (h : session.Tracks history)
    (hafter : after.Tracks (step :: history)) : Spares history step session after where
  engineOf _ := h.frame hafter
  evaluate? id member hmember hstays hreach := by
    have hsame := h.frame hafter (.inl ⟨id, hmember⟩) hreach
    funext source document render
    rw [Session.evaluate?, Session.evaluate?, Session.engine?, Session.engine?, h.members,
      hafter.members, hmember, hstays]
    simp only [Option.map_some, hsame]
  render? id bound hbound hstays hreach := by
    have hsame := h.frame hafter (.inr ⟨id, bound.template, hbound⟩) hreach
    funext context override
    rw [Session.render?, Session.render?, Session.template?, Session.template?, h.templates,
      hafter.templates, hbound, hstays]
    simp only [Option.map_some, hsame]

/-- **Evaluations use what was last registered with the engines that share their registries.** After
any steps, evaluating through an engine and rendering a template yield what the expressions mean
over the vocabulary that the history tells: under each name the latest registration that reaches the
registry of the engine, else what the registry came with, else the error that the name is unknown. A
further step changes that only for engines that it reaches. -/
theorem run_serves (history : List Step) :
    ∃ session vocabulary, (run history).result = .ok session ∧ Serves history session vocabulary ∧
      ∀ step, ∃ after, (run (step :: history)).result = .ok after ∧
        Spares history step session after := by
  obtain ⟨session, hrun, htracks⟩ := run_tracks history
  refine ⟨session, session.vocabularyOf, hrun, htracks.serves, fun step => ?_⟩
  obtain ⟨after, htake, hafter⟩ := htracks.take step
  refine ⟨after, ?_, htracks.spares hafter⟩
  rw [run, Traced.result_bind, hrun]
  exact htake

/-- A template sees a function that is registered after it was compiled, with the engine of which
its own is a clone. Another engine does not know the function. -/
theorem run_serves_clone :
    ∃ session,
      (run [.registerFunction "original" "one" (Function.constant (.string "hi")),
        .compile "greeting" "copy" "\x7bone()\x7d" {}, .clone "copy" "original" none,
        .create "other" {}, .create "original" {}]).result = .ok session ∧
      (session.render? "greeting" "" none).map Traced.result = some (.ok "hi") ∧
      (session.evaluate? "other" "one()" .emptyObject {}).map Traced.result =
        some (.error (.failed (.unknownFunction "one"))) := by
  obtain ⟨session, vocabulary, hrun, hserves, -⟩ := run_serves
    [.registerFunction "original" "one" (Function.constant (.string "hi")),
      .compile "greeting" "copy" "\x7bone()\x7d" {}, .clone "copy" "original" none,
      .create "other" {}, .create "original" {}]
  -- the sources are short enough for the parser to be evaluated by computation
  have hparse : Expr.parse "one()" = .ok (.call (.identifier "one") []) := by
    set_option maxRecDepth 4000 in
    with_unfolding_all rfl
  have hcompile : Template.compile "\x7bone()\x7d" {} =
      .ok ⟨"\x7bone()\x7d", [.placeholder "one()" (.call (.identifier "one") [])], {}⟩ := by
    set_option maxRecDepth 4000 in
    with_unfolding_all rfl
  have hcall : ∀ environment : Environment, environment.meaning (.call (.identifier "one") []) 0 =
      environment.vocabulary.call "one" [] environment.settings := by
    intro environment
    rw [Environment.meaning, Environment.within, if_neg (Nat.not_lt_zero _), Environment.meanings,
      pure_bind, Environment.call_eq]
  refine ⟨session, hrun, ?_, ?_⟩
  · -- the clone has the registry of its parent, in which the function was registered last
    have hone : ∀ settings, (vocabulary ⟨0, 0, Json.resolve, {}⟩).call "one" [] settings =
        pure (.string "hi") := by
      intro settings
      rw [hserves.call]
      rfl
    rw [hserves.render?]
    simp only [bound?, hcompile, member?, creations, String.reduceEq, if_true, if_false,
      Option.getD_none, Option.map_some, BoundTemplate.outcome,
      joinOutputs_cons, joinOutputs_nil, hcall]
    show some (do
      let text ← placeholderOutput "one()" {}
        ((vocabulary ⟨0, 0, Json.resolve, {}⟩).call "one" [] _).result
      return text ++ (← .ok "")) = _
    rw [hone]
    rfl
  · rw [hserves.evaluate?]
    show some (Member.outcome ⟨1, 1, Json.resolve, {}⟩ _ "one()" .emptyObject {}) = _
    rw [Member.outcome, hparse]
    simp only [hcall]
    show some ((vocabulary ⟨1, 1, Json.resolve, {}⟩).call "one" [] _).result = _
    rw [hserves.call]
    rfl

end Session

end Stencil
