import Stencil.Assoc
import Stencil.Journal
/-!
# Registries

A registry holds things under names. Registering under a name that is taken replaces what was there,
and notes that.
-/

namespace Stencil

/-- Things under names, in the order of the names. -/
structure Registry (α : Type) where
  entries : List (String × α)
  ascending : Assoc.Ascending entries

namespace Registry

variable {α : Type}

/-- The registry that holds nothing. -/
def empty : Registry α := ⟨[], List.Pairwise.nil⟩

/-- The registry with `value` under `name`. -/
def insert (registry : Registry α) (name : String) (value : α) : Registry α :=
  ⟨Assoc.insert name value registry.entries, registry.ascending.insert name value⟩

/-- The registry of several things. The last one under a name counts. -/
def ofList (entries : List (String × α)) : Registry α :=
  entries.foldl (fun registry (name, value) => registry.insert name value) empty

/-- What is registered under `name`. -/
def get? (registry : Registry α) (name : String) : Option α := Assoc.get? name registry.entries

/-- Whether something is registered under `name`. -/
def contains (registry : Registry α) (name : String) : Bool := (registry.get? name).isSome

/-- The names, in order. -/
def names (registry : Registry α) : List String := Assoc.keys registry.entries

/-- The number of names. -/
def size (registry : Registry α) : Nat := registry.entries.length

/-- Whether nothing is registered. -/
def isEmpty (registry : Registry α) : Bool := registry.entries.isEmpty

/-- The registry with `value` under `name`; `replaced` is noted if the name was taken. -/
def register (registry : Registry α) (name : String) (value : α) (replaced : Event) :
    Traced (Registry α) := do
  if registry.contains name then .note replaced
  return registry.insert name value

@[simp] theorem get?_insert_self (registry : Registry α) (name : String) (value : α) :
    (registry.insert name value).get? name = some value :=
  Assoc.get?_insert_self name value registry.entries

theorem get?_insert_of_ne (registry : Registry α) {name other : String} (h : other ≠ name)
    (value : α) : (registry.insert name value).get? other = registry.get? other :=
  Assoc.get?_insert_of_ne h value registry.entries

theorem get?_foldl_insert {name : String} {value : α} (entries : List (String × α))
    (registry : Registry α)
    (hvalue : (entries.foldl (fun registry entry => registry.insert entry.1 entry.2) registry).get?
      name = some value) :
    (name, value) ∈ entries ∨ registry.get? name = some value := by
  induction entries generalizing registry with
  | nil => exact Or.inr hvalue
  | cons entry entries ih =>
    rcases ih (registry.insert entry.1 entry.2) hvalue with hmem | hinsert
    · exact Or.inl (List.mem_cons_of_mem entry hmem)
    · by_cases hname : name = entry.1
      · subst hname
        rw [get?_insert_self] at hinsert
        cases hinsert
        exact Or.inl List.mem_cons_self
      · rw [get?_insert_of_ne registry hname] at hinsert
        exact Or.inr hinsert

/-- A registry holds nothing but what was put into it. -/
theorem mem_of_get?_ofList {entries : List (String × α)} {name : String} {value : α}
    (hvalue : (ofList entries).get? name = some value) : (name, value) ∈ entries := by
  rcases get?_foldl_insert entries .empty hvalue with hmem | hempty
  · exact hmem
  · cases hempty

end Registry

end Stencil
