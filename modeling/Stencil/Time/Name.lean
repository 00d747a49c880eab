/-!
# Names of months and of days of the week

The names, and recognising them at the front of a text without regard to case. The short form of a
name is its first three letters, and no two names of a kind share it.
-/

namespace Stencil

/-- The names of the months. -/
def monthNames : List String :=
  ["January", "February", "March", "April", "May", "June", "July", "August", "September", "October",
   "November", "December"]

/-- The names of the days of the week, from Monday. -/
def weekdayNames : List String :=
  ["Monday", "Tuesday", "Wednesday", "Thursday", "Friday", "Saturday", "Sunday"]

/-- The number of letters of a short name. -/
def shortNameLength : Nat := 3

/-- The name at a position of a list, in full or in its short form. -/
def nameAt (names : List String) (full : Bool) (position : Nat) : List Char :=
  let name := (names.getD position "").toList
  if full then name else name.take shortNameLength

/-- What follows `word` in `cs`, if `cs` starts with that word in any case. -/
def dropWord? : (word : List Char) → List Char → Option (List Char)
  | [], cs => some cs
  | _ :: _, [] => none
  | letter :: word, c :: cs => if letter.toLower = c.toLower then dropWord? word cs else none

/-- The position of the name whose short form starts `cs`, and what follows. The other letters of
the name are read over as well if `full` is set and they follow. -/
def takeName? (full : Bool) (cs : List Char) : List String → Option (Nat × List Char)
  | [] => none
  | name :: names =>
    match dropWord? (name.toList.take shortNameLength) cs with
    | some rest =>
      some (0, if full then (dropWord? (name.toList.drop shortNameLength) rest).getD rest else rest)
    | none => (takeName? full cs names).map fun (position, rest) => (position + 1, rest)

end Stencil
