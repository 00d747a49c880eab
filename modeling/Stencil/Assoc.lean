/-!
# Association lists in key order

Members of JSON objects and entries of registries are kept as lists of pairs with strictly ascending
keys, compared by code point. `insert` puts a value under a key and keeps that order; a value
already there is replaced.
-/

namespace Stencil.Assoc

variable {α : Type}

/-- `entries` with `value` under `key`. -/
def insert (key : String) (value : α) : List (String × α) → List (String × α)
  | [] => [(key, value)]
  | entry :: entries =>
    if key < entry.1 then (key, value) :: entry :: entries
    else if key = entry.1 then (key, value) :: entries
    else entry :: insert key value entries

/-- The value under `key`. -/
def get? (key : String) : List (String × α) → Option α
  | [] => none
  | entry :: entries => if key = entry.1 then some entry.2 else get? key entries

/-- The keys, in order. -/
def keys (entries : List (String × α)) : List String := entries.map Prod.fst

/-- Keys in strictly ascending order, so that no key occurs twice. -/
def Ascending (entries : List (String × α)) : Prop := entries.Pairwise (·.1 < ·.1)

@[simp] theorem get?_insert_self (key : String) (value : α) (entries : List (String × α)) :
    get? key (insert key value entries) = some value := by
  induction entries with
  | nil => simp [insert, get?]
  | cons entry entries ih => grind [insert, get?]

theorem get?_insert_of_ne {key other : String} (h : other ≠ key) (value : α)
    (entries : List (String × α)) :
    get? other (insert key value entries) = get? other entries := by
  induction entries with
  | nil => simp [insert, get?, h]
  | cons entry entries ih => grind [insert, get?]

theorem mem_keys_insert {key other : String} {value : α} {entries : List (String × α)} :
    other ∈ keys (insert key value entries) ↔ other = key ∨ other ∈ keys entries := by
  induction entries with
  | nil => simp [insert, keys]
  | cons entry entries ih =>
    simp only [keys] at ih
    simp only [insert, keys]
    split
    · simp
    · split
      · rename_i same
        simp [same]
      · simp only [List.map_cons, List.mem_cons, ih]
        grind

/-- Insertion keeps the keys in order. -/
theorem Ascending.insert {entries : List (String × α)} (h : Ascending entries) (key : String)
    (value : α) : Ascending (insert key value entries) := by
  induction entries with
  | nil => exact List.pairwise_singleton _ _
  | cons entry entries ih =>
    obtain ⟨first, rest⟩ := List.pairwise_cons.1 h
    unfold Assoc.insert
    split
    · rename_i before
      refine List.pairwise_cons.2 ⟨fun other inside => ?_, h⟩
      rcases List.mem_cons.1 inside with same | inside
      · simpa [same] using before
      · exact String.lt_trans before (first other inside)
    · split
      · rename_i same
        exact List.pairwise_cons.2 ⟨fun other inside => by simpa [same] using first other inside, rest⟩
      · rename_i notBefore notSame
        refine List.pairwise_cons.2 ⟨fun other inside => ?_, ih rest⟩
        have : other.1 ∈ keys (Assoc.insert key value entries) := List.mem_map_of_mem inside
        rcases mem_keys_insert.1 this with same | inside
        · rw [same]
          exact Std.lt_of_le_of_ne (Std.not_lt.1 notBefore) (Ne.symm notSame)
        · obtain ⟨pair, isIn, same⟩ := List.mem_map.1 inside
          exact same ▸ first pair isIn

end Stencil.Assoc
