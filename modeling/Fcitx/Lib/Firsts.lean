/-
# The first of each element

A list with its repetitions taken out, each element where it came first. It is what a
loop leaves that puts an element behind a list unless it is there.

Key definition: `Firsts.firsts`.
Key theorems: `Firsts.firsts_concat`, `Firsts.foldl_put`, `Firsts.length_firsts_le`.
-/
import Mathlib.Data.List.Dedup

namespace Firsts

variable {A : Type} [DecidableEq A]

/-- The first of each element. -/
def firsts (l : List A) : List A := l.reverse.dedup.reverse

/-- An element is put behind a list unless it is there. -/
def put (l : List A) (a : A) : List A := if a ∈ l then l else l ++ [a]

theorem mem_firsts {l : List A} {a : A} : a ∈ firsts l ↔ a ∈ l := by
  rw [firsts, List.mem_reverse, List.mem_dedup, List.mem_reverse]

theorem firsts_nodup (l : List A) : (firsts l).Nodup := List.nodup_reverse.mpr (List.nodup_dedup _)

/-- **One more element** is put behind the others. -/
theorem firsts_concat (l : List A) (a : A) : firsts (l ++ [a]) = put (firsts l) a := by
  rw [put, firsts, List.reverse_append, List.reverse_singleton, List.singleton_append]
  by_cases h : a ∈ l
  · rw [if_pos (mem_firsts.mpr h), List.dedup_cons_of_mem (List.mem_reverse.mpr h), firsts]
  · rw [if_neg fun hm => h (mem_firsts.mp hm), List.dedup_cons_of_notMem fun hm => h (List.mem_reverse.mp hm),
      List.reverse_cons, firsts]

/-- **The loop** that puts element after element. -/
theorem foldl_put (l before : List A) : l.foldl put (firsts before) = firsts (before ++ l) := by
  induction l generalizing before with
  | nil => rw [List.append_nil, List.foldl_nil]
  | cons a l ih => rw [List.foldl_cons, ← firsts_concat, ih, List.append_assoc, List.singleton_append]

theorem foldl_put_nil (l : List A) : l.foldl put [] = firsts l := foldl_put l []

theorem firsts_of_nodup {l : List A} (h : l.Nodup) : firsts l = l := by
  rw [firsts, (List.nodup_reverse.mpr h).dedup, List.reverse_reverse]

theorem length_firsts_le (l : List A) : (firsts l).length ≤ l.length := by
  calc (firsts l).length = l.reverse.dedup.length := List.length_reverse
    _ ≤ l.reverse.length := (List.dedup_sublist l.reverse).length_le
    _ = l.length := List.length_reverse

end Firsts
