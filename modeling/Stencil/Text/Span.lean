/-!
# Positions in a text

Positions in expression sources count the bytes of the text's UTF-8 form. `slice` cuts a text
between two such positions.
-/

namespace Stencil.Text

/-- The number of bytes of the UTF-8 form of `cs`. -/
def byteLength : List Char → Nat
  | [] => 0
  | c :: cs => c.utf8Size + byteLength cs

@[simp] theorem byteLength_nil : byteLength [] = 0 := rfl

@[simp] theorem byteLength_cons (c : Char) (cs : List Char) :
    byteLength (c :: cs) = c.utf8Size + byteLength cs := rfl

@[simp] theorem byteLength_append (xs ys : List Char) :
    byteLength (xs ++ ys) = byteLength xs + byteLength ys := by
  induction xs with
  | nil => simp
  | cons c xs ih => simp [ih, Nat.add_assoc]

/-- The bytes of a text are those of its characters. -/
theorem utf8ByteSize_eq_byteLength (text : String) :
    text.utf8ByteSize = byteLength text.toList := by
  obtain ⟨cs, rfl⟩ : ∃ cs, text = String.ofList cs := ⟨text.toList, String.ofList_toList.symm⟩
  rw [String.toList_ofList]
  induction cs with
  | nil => rfl
  | cons c cs ih =>
    rw [String.ofList_cons, String.utf8ByteSize_append, ih]
    simp

/-- `cs` without the characters that start before byte `offset`. -/
def dropBytes : Nat → List Char → List Char
  | _, [] => []
  | offset, c :: cs => if offset = 0 then c :: cs else dropBytes (offset - c.utf8Size) cs

/-- The characters of `cs` that start before byte `offset`. -/
def takeBytes : Nat → List Char → List Char
  | _, [] => []
  | offset, c :: cs => if offset = 0 then [] else c :: takeBytes (offset - c.utf8Size) cs

theorem dropBytes_append (xs ys : List Char) : dropBytes (byteLength xs) (xs ++ ys) = ys := by
  induction xs with
  | nil => cases ys <;> rfl
  | cons c xs ih =>
    have hsize := c.utf8Size_pos
    rw [List.cons_append, byteLength_cons, dropBytes, if_neg (by omega), Nat.add_sub_cancel_left, ih]

theorem takeBytes_append (xs ys : List Char) : takeBytes (byteLength xs) (xs ++ ys) = xs := by
  induction xs with
  | nil => cases ys <;> rfl
  | cons c xs ih =>
    have hsize := c.utf8Size_pos
    rw [List.cons_append, byteLength_cons, takeBytes, if_neg (by omega), Nat.add_sub_cancel_left, ih]

/-- The characters of `cs` from byte `start` up to byte `stop`. -/
def slice (cs : List Char) (start stop : Nat) : List Char :=
  takeBytes (stop - start) (dropBytes start cs)

/-- What stands between two positions of a text. -/
theorem slice_append (xs ys zs : List Char) :
    slice (xs ++ (ys ++ zs)) (byteLength xs) (byteLength xs + byteLength ys) = ys := by
  rw [slice, Nat.add_sub_cancel_left, dropBytes_append, takeBytes_append]

end Stencil.Text
