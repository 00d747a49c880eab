import Stencil.Proofs.Abort
import Stencil.Proofs.Nesting

/-!
# Evaluations side by side

The same expression in two environments: how far its two evaluations have to be alike, given how far
the environments are. Some errors may be excused: where the first evaluation ends with one of them,
nothing is said about the second.

* **`Traced.AgreesUnless`** — two evaluations are the same, or the first one ends with an excused
  error. Steps that agree make runs that agree.
* **`Vocabulary.Indifferent`** — functions and operators do not tell two settings apart.
* **`Environment.Aligned`** — the environments agree in each single step of an evaluation.
* **`Aligned.meaning_agreesUnless`** — then they agree in whole evaluations, for every expression of
  which they agree on the names. Induction over the evaluated parts.
-/

namespace Stencil

namespace Traced

variable {α β : Type} {excused : Error → Prop}

/-- Unless the first evaluation ends with an excused error, both are the same. -/
def AgreesUnless (excused : Error → Prop) (first second : Traced α) : Prop :=
  (∀ error, first.result = .error (.failed error) → ¬ excused error) → first = second

namespace AgreesUnless

theorem refl (step : Traced α) : AgreesUnless excused step step := fun _ => rfl

theorem fail {error : Error} (h : excused error) (second : Traced α) :
    AgreesUnless excused (Traced.fail error) second :=
  fun hfirst => absurd h (hfirst error rfl)

/-- **Runs agree if their first steps do and what comes next agrees on every value.** The error that
is excused may come up in the first step or later on. In the first case both runs are that step and
nothing is compared behind it; in the second the steps are the same and the runs differ at most
behind them. -/
theorem bind {first second : Traced α} {next other : α → Traced β}
    (hstep : AgreesUnless excused first second)
    (hnext : ∀ value, AgreesUnless excused (next value) (other value)) :
    AgreesUnless excused (first >>= next) (second >>= other) := by
  intro hrun
  rw [result_bind] at hrun
  cases hresult : first.result with
  | error stop =>
    have hsame : first = second := by
      refine hstep fun error herror => hrun error ?_
      rw [herror]
      rfl
    -- what would come next does not matter
    subst hsame
    show Traced.bind first next = Traced.bind first other
    simp only [Traced.bind, hresult]
  -- the step has a value, so it is the same step, and an error of the run is one of what comes next
  | ok value =>
    rw [hresult] at hrun
    have hsame : first = second := hstep fun error herror => by simp [hresult] at herror
    have hrest : next value = other value := hnext value hrun
    subst hsame
    show Traced.bind first next = Traced.bind first other
    simp only [Traced.bind, hresult, hrest]

/-- If nothing is excused, both are the same. -/
theorem eq {first second : Traced α} (h : AgreesUnless (fun _ => False) first second) :
    first = second :=
  h fun _ _ => id

end AgreesUnless

end Traced

/-! ## What functions and operators see of the settings

The settings of two environments may differ in what no function looks at. Whether they do is a
property of the vocabulary, and the one that an engine starts with looks at three of the five
settings. -/

/-- No function and no operator of the vocabulary tells the two settings apart. -/
structure Vocabulary.Indifferent (vocabulary : Vocabulary) (settings other : Settings) : Prop where
  operate (symbol : String) (left right : Value) :
    vocabulary.operate symbol left right settings = vocabulary.operate symbol left right other
  call (name : String) (arguments : List Value) :
    vocabulary.call name arguments settings = vocabulary.call name arguments other

theorem Vocabulary.Indifferent.refl (vocabulary : Vocabulary) (settings : Settings) :
    vocabulary.Indifferent settings settings where
  operate _ _ _ := rfl
  call _ _ := rfl

/-- **What the standard vocabulary sees of the settings**: what is written of times and the number
of places of quotients. It sees neither the grouping of thousands nor the limit on nesting. Each of
the seven definitions, once it is known which one it is, is the same term for both settings. -/
theorem Vocabulary.standard_indifferent {settings other : Settings}
    (hoffset : settings.render.timeOffsetHours = other.render.timeOffsetHours)
    (hformat : settings.render.timeFormat = other.render.timeFormat)
    (hscale : settings.evaluation.decimalScale = other.evaluation.decimalScale) :
    Vocabulary.standard.Indifferent settings other := by
  obtain ⟨⟨_, _, _⟩, ⟨_, _⟩⟩ := settings
  obtain ⟨⟨_, _, _⟩, ⟨_, _⟩⟩ := other
  cases hoffset
  cases hformat
  cases hscale
  -- with the seen settings in common, each of the seven definitions is the same term for both
  constructor
  · intro symbol left right
    unfold Vocabulary.operate
    cases hoperation : Vocabulary.standard.operators.get? symbol with
    | none => rfl
    | some operation =>
      rcases standard_operator_cases hoperation with
        ⟨_, rfl⟩ | ⟨_, rfl⟩ | ⟨_, rfl⟩ | ⟨_, rfl⟩ <;> rfl
  · intro name arguments
    unfold Vocabulary.call
    cases hfunction : Vocabulary.standard.functions.get? name with
    | none => rfl
    | some function =>
      rcases standard_function_cases hfunction with ⟨_, rfl⟩ | ⟨_, rfl⟩ | ⟨_, rfl⟩ <;> rfl

/-! ## Environments that agree step by step

Two evaluations of one expression take the same steps: they look names up, follow paths, operate,
call, and check the limit. `Aligned` asks for agreement in each of these at once, for a relation of
depths that is kept on the way down, since the two may start at different depths or have different
limits. -/

namespace Environment

/-- The two environments give the same value to every name that is evaluated in the expression. -/
def AgreeOn (environment other : Environment) (expr : Expr) : Prop :=
  ∀ name, Relation.ReflTransGen Expr.Part (.identifier name) expr →
    environment.identifier name = other.identifier name

/-- Environments that agree on the names of an expression agree on those of its parts. -/
theorem AgreeOn.part {environment other : Environment} {part expr : Expr}
    (h : AgreeOn environment other expr) (hpart : Expr.Part part expr) :
    AgreeOn environment other part :=
  fun name hinside => h name (hinside.tail hpart)

/-- The two environments agree in every step of an evaluation, the first one at a depth and the
second one at another, as long as the depths are within these `levels` of each other. -/
structure Aligned (excused : Error → Prop) (levels : Nat → Nat → Prop)
    (environment other : Environment) : Prop where
  deeper {depth depth' : Nat} : levels depth depth' → levels (depth + 1) (depth' + 1)
  within {depth depth' : Nat} {body body' : Traced Value} : levels depth depth' →
    Traced.AgreesUnless excused body body' →
      Traced.AgreesUnless excused (environment.within depth body) (other.within depth' body')
  find : environment.find? = other.find?
  operate (symbol : String) (left right : Value) :
    environment.vocabulary.operate symbol left right environment.settings =
      other.vocabulary.operate symbol left right other.settings
  call (name : String) (arguments : List Value) :
    environment.vocabulary.call name arguments environment.settings =
      other.vocabulary.call name arguments other.settings

namespace Aligned

variable {excused : Error → Prop} {levels : Nat → Nat → Prop} {environment other : Environment}
  {depth depth' : Nat}

/-- A left operand is at the depth of its operation in both evaluations, or one level deeper in
both. -/
theorem operandDepth (h : Aligned excused levels environment other) (left : Expr)
    (hlevels : levels depth depth') :
    levels (left.operandDepth depth) (left.operandDepth depth') := by
  unfold Expr.operandDepth
  split
  · exact hlevels
  · exact h.deeper hlevels

/-- Lists of arguments agree if each argument does. Induction on the list. -/
theorem meanings_agreeUnless {exprs : List Expr}
    (hexprs : ∀ expr ∈ exprs, Traced.AgreesUnless excused (environment.meaning expr depth)
      (other.meaning expr depth')) :
    Traced.AgreesUnless excused (environment.meanings exprs depth)
      (other.meanings exprs depth') := by
  induction exprs with
  | nil => exact .refl _
  | cons expr exprs ih =>
    obtain ⟨hexpr, hexprs⟩ := List.forall_mem_cons.mp hexprs
    rw [meanings, meanings]
    exact hexpr.bind fun value => (ih hexprs).bind fun values => .refl _

/-- **Environments that agree step by step agree.** Induction over the evaluated parts; in every
case the check of the limit comes first, then the parts in their order, and then the one step that
the node itself is. -/
theorem meaning_agreesUnless (h : Aligned excused levels environment other) {expr : Expr}
    (hnames : AgreeOn environment other expr) (hlevels : levels depth depth') :
    Traced.AgreesUnless excused (environment.meaning expr depth) (other.meaning expr depth') := by
  induction expr using Expr.onParts generalizing depth depth' with
  | identifier name =>
    rw [meaning, meaning, hnames name .refl]
    exact h.within hlevels (.refl _)
  | member base property ih =>
    rw [meaning, meaning]
    refine h.within hlevels ?_
    have hbase := ih (hnames.part (.base base property)) (h.deeper hlevels)
    refine hbase.bind fun value => ?_
    unfold Environment.member
    rw [h.find]
    exact .refl _
  | index base element ihbase ihelement =>
    rw [meaning, meaning]
    refine h.within hlevels ?_
    have hbase := ihbase (hnames.part (.indexed base element)) (h.deeper hlevels)
    have helement := ihelement (hnames.part (.element base element)) (h.deeper hlevels)
    refine hbase.bind fun value => helement.bind fun key => ?_
    rw [h.find]
    exact .refl _
  | binary operator left right ihleft ihright =>
    rw [meaning, meaning]
    refine h.within hlevels ?_
    have hleft := ihleft (hnames.part (.left operator left right)) (h.operandDepth left hlevels)
    have hright := ihright (hnames.part (.right operator left right)) (h.deeper hlevels)
    refine hleft.bind fun leftValue => hright.bind fun rightValue => ?_
    rw [← operate_eq, ← operate_eq, h.operate]
    exact .refl _
  | call name arguments ih =>
    rw [meaning, meaning]
    refine h.within hlevels ?_
    have harguments := meanings_agreeUnless fun argument hargument =>
      ih argument hargument (hnames.part (.argument _ hargument)) (h.deeper hlevels)
    refine harguments.bind fun values => ?_
    rw [← call_eq, ← call_eq, h.call]
    exact .refl _
  | other callee arguments hcallee =>
    rw [meaning_other hcallee, meaning_other hcallee]
    exact h.within hlevels (.refl _)
  -- what is left has no parts that are evaluated
  | _ =>
    rw [meaning, meaning]
    exact h.within hlevels (.refl _)

end Aligned

end Environment

/-! ## Whole evaluations -/

/-- Whole evaluations are the same if the meanings at the outermost depth are. -/
theorem Expr.evaluate_congr {expr : Expr} {environment other : Environment}
    (h : environment.meaning expr 0 = other.meaning expr 0) :
    expr.evaluate environment = expr.evaluate other := by
  unfold Expr.evaluate
  rw [environment.run_eq_meaning, other.run_eq_meaning, h]

end Stencil
