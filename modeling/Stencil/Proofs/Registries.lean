import Stencil.Session

/-!
# Registries

What a registry holds is settled by what is found under each name: two registries that agree there
are the same, and a registration changes one name in one of them.

* **`Assoc.Ascending.ext`**, **`Registry.ext_get?`** — no two registries answer alike.
* **`Registry.Consistent`** — whether a name is in a registry, what is there, and the list of the
  names are one and the same information.
* **`result_registerIn`**, **`numbered_append`**, **`numbered_set`** — lists of registries by
  number.
-/

namespace Stencil

namespace Assoc

variable {α : Type} {key : String} {entries : List (String × α)}

/-- After an insertion one key has the new value, and all others have what they had. -/
theorem get?_insert (key other : String) (value : α) (entries : List (String × α)) :
    get? other (insert key value entries) = if other = key then some value else get? other entries := by
  split
  · next h => rw [h, get?_insert_self]
  · next h => exact get?_insert_of_ne h value entries

/-- A key is found exactly if it is one of the keys. Induction on the entries, whose first match is
what is found. -/
theorem get?_isSome_iff : (get? key entries).isSome ↔ key ∈ keys entries := by
  induction entries with
  | nil => simp [get?, keys]
  | cons entry entries ih =>
    simp only [keys] at ih
    simp only [get?, keys, List.map_cons, List.mem_cons]
    split
    · next h => simp [h]
    · next h => simp [h, ih]

/-- A key in front of all keys is none of them. -/
theorem get?_eq_none_of_lt (h : ∀ entry ∈ entries, key < entry.1) : get? key entries = none := by
  rw [← Option.not_isSome_iff_eq_none, get?_isSome_iff]
  intro hmem
  obtain ⟨entry, hentry, rfl⟩ := List.mem_map.mp hmem
  exact absurd (h entry hentry) (String.lt_irrefl _)

/-- A list has nothing under a key that comes before all of its own. -/
theorem Ascending.get?_eq_none {entry : String × α} (h : Ascending (entry :: entries))
    (hkey : key < entry.1) : get? key (entry :: entries) = none := by
  refine get?_eq_none_of_lt fun other hother => ?_
  rcases List.mem_cons.mp hother with rfl | hother
  · exact hkey
  · exact String.lt_trans hkey ((List.pairwise_cons.mp h).1 other hother)

/-- Lists in key order are told apart by what they have under some key. Induction on both: the first
keys agree, for the smaller of two different ones is missing in the other list, and then the rests
do. -/
theorem Ascending.ext {others : List (String × α)} (h : Ascending entries) (h' : Ascending others)
    (hsame : ∀ key, get? key entries = get? key others) : entries = others := by
  induction entries generalizing others with
  | nil =>
    cases others with
    | nil => rfl
    | cons other others =>
      have hother := hsame other.1
      rw [get?, get?, if_pos rfl] at hother
      cases hother
  | cons entry entries ih =>
    cases others with
    | nil =>
      have hentry := hsame entry.1
      rw [get?, get?, if_pos rfl] at hentry
      cases hentry
    | cons other others =>
      have hentry := hsame entry.1
      have hother := hsame other.1
      rw [get?, if_pos rfl] at hentry
      rw [eq_comm, get?, if_pos rfl] at hother
      -- of two different first keys the smaller one would be missing in the other list
      have hkey : entry.1 = other.1 := by
        rcases Std.lt_trichotomy entry.1 other.1 with hlt | heq | hgt
        · rw [h'.get?_eq_none hlt] at hentry
          cases hentry
        · exact heq
        · rw [h.get?_eq_none hgt] at hother
          cases hother
      rw [get?, if_pos hkey] at hentry
      obtain ⟨hfirst, hrest⟩ := List.pairwise_cons.mp h
      obtain ⟨hfirst', hrest'⟩ := List.pairwise_cons.mp h'
      have htail (key : String) : get? key entries = get? key others := by
        by_cases hhead : key = entry.1
        · rw [get?_eq_none_of_lt (by rwa [hhead]), get?_eq_none_of_lt (by rwa [hhead, hkey])]
        · have := hsame key
          rwa [get?, if_neg hhead, get?, if_neg (by rwa [← hkey])] at this
      rw [ih hrest hrest' htail, Prod.ext hkey (Option.some.inj hentry)]

end Assoc

namespace Registry

variable {α : Type}

/-- A registry is what is found in it. The order is part of the type, so no other one has the same
answers. -/
theorem ext_get? {registry other : Registry α} (h : ∀ name, registry.get? name = other.get? name) :
    registry = other := by
  obtain ⟨entries, hentries⟩ := registry
  obtain ⟨others, hothers⟩ := other
  obtain rfl := hentries.ext hothers h
  rfl

/-- What can be asked of a registry agrees: whether a name is in it, what is there, and which names
and how many there are. -/
structure Consistent (registry : Registry α) : Prop where
  contains_iff_get? : ∀ name, registry.contains name = true ↔ ∃ value, registry.get? name = some value
  contains_iff_mem : ∀ name, registry.contains name = true ↔ name ∈ registry.names
  sorted : registry.names.Pairwise (· < ·)
  nodup : registry.names.Nodup
  size_eq : registry.size = registry.names.length

/-- Every registry is consistent. All of it follows from the ascending order of its keys, which the
type carries. -/
theorem consistent (registry : Registry α) : registry.Consistent where
  contains_iff_get? _ := Option.isSome_iff_exists
  contains_iff_mem _ := Assoc.get?_isSome_iff
  sorted := List.pairwise_map.mpr registry.ascending
  nodup := (List.pairwise_map.mpr registry.ascending).imp fun hlt => by
    rintro rfl
    exact String.lt_irrefl _ hlt
  size_eq := (List.length_map _).symm

/-- A registration inserts, whether it replaces an entry or not; replacing one is only reported. -/
theorem result_register (registry : Registry α) (name : String) (value : α) (replaced : Event) :
    (registry.register name value replaced).result = .ok (registry.insert name value) := by
  unfold register
  split <;> rfl

theorem result_registerIn (registries : List (Registry α)) (number : Nat) (name : String) (value : α)
    (replaced : Event) : (registerIn registries number name value replaced).result =
      .ok (registries.set number ((numbered registries number).insert name value)) := by
  simp only [registerIn, Traced.result_bind, result_register, Except.bind, Traced.result_pure]

/-! ## Registries by number

A host holds its registries by the numbers it has got for them. A number that was given out stays
valid, for registries are only added behind the others or replaced in place. -/

variable {registries : List (Registry α)}

/-- A new registry has the next number, and no other number changes. -/
theorem numbered_append (registry : Registry α) (number : Nat) :
    numbered (registries ++ [registry]) number =
      if number = registries.length then registry else numbered registries number := by
  simp only [numbered, List.getD_eq_getElem?_getD]
  split
  · next h => rw [h, List.getElem?_concat_length, Option.getD_some]
  · next h =>
    rcases Nat.lt_or_ge number registries.length with hlt | hge
    · rw [List.getElem?_append_left hlt]
    · rw [List.getElem?_eq_none hge, List.getElem?_eq_none (by simp; omega)]

/-- A changed registry changes under its own number. -/
theorem numbered_set {changed : Nat} (h : changed < registries.length) (registry : Registry α)
    (number : Nat) :
    numbered (registries.set changed registry) number =
      if number = changed then registry else numbered registries number := by
  simp only [numbered, List.getD_eq_getElem?_getD]
  split
  · next hsame => rw [hsame, List.getElem?_set_self h, Option.getD_some]
  · next hother => rw [List.getElem?_set_ne (Ne.symm hother)]

theorem get?_insert (registry : Registry α) (name other : String) (value : α) :
    (registry.insert name value).get? other =
      if other = name then some value else registry.get? other := Assoc.get?_insert ..

end Registry

end Stencil
