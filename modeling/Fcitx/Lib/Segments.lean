/-
# Segments of a list

A list is cut behind each separator. A segment starts at the front of the list and
behind each separator that is not the last element; it ends before the next
separator, or with the list.

Key definitions: `Segments.isStart`, `Segments.startsFrom`, `Segments.segmentLength`.
Key theorems: `Segments.startsFrom_of_start`, `Segments.isStart_next`.
-/
import Mathlib.Data.List.Basic

namespace Segments

variable {α : Type*} (sep : α → Bool) (l : List α) {p : ℕ}

/-- A segment starts here. -/
def isStart (k : ℕ) : Bool := k == 0 || l[k - 1]?.any sep

/-- Where segments start, from a position on. -/
def startsFrom (p : ℕ) : List ℕ := (List.range' p (l.length - p)).filter (isStart sep l)

/-- Where segments start. -/
def starts : List ℕ := startsFrom sep l 0

/-- How long the segment from a position on is. -/
def segmentLength (p : ℕ) : ℕ := (l.drop p).findIdx sep

variable {sep l}

theorem startsFrom_of_le (h : l.length ≤ p) : startsFrom sep l p = [] := by
  rw [startsFrom, Nat.sub_eq_zero_of_le h, List.range'_zero, List.filter_nil]

theorem segmentLength_le (h : p ≤ l.length) : p + segmentLength sep l p ≤ l.length := by
  have hle : segmentLength sep l p ≤ (l.drop p).length := List.findIdx_le_length
  rw [List.length_drop] at hle
  omega

/-- Inside a segment there is no separator. -/
theorem not_sep_of_lt {i : ℕ} (h : i < segmentLength sep l p) : (l[p + i]?.any sep) = false := by
  have hnot := List.not_of_lt_findIdx h
  have hlt : i < (l.drop p).length := Nat.lt_of_lt_of_le h List.findIdx_le_length
  rw [← List.getElem?_drop, List.getElem?_eq_getElem hlt, Option.any_some]
  simpa using hnot

/-- Behind a segment that ends before the list does, the next one starts. -/
theorem isStart_next (h : p + segmentLength sep l p < l.length) :
    isStart sep l (p + segmentLength sep l p + 1) = true := by
  have hlt : (l.drop p).findIdx sep < (l.drop p).length := by
    rw [List.length_drop]
    unfold segmentLength at h
    omega
  have hsep : sep ((l.drop p).get ⟨(l.drop p).findIdx sep, hlt⟩) = true := List.findIdx_getElem
  have hget : l[p + (l.drop p).findIdx sep]? = some ((l.drop p).get ⟨(l.drop p).findIdx sep, hlt⟩) := by
    rw [← List.getElem?_drop]
    exact List.getElem?_eq_getElem hlt
  unfold isStart segmentLength
  rw [Nat.add_sub_cancel, hget, Option.any_some, hsep, Bool.or_true]

/-- No segment starts inside of one. -/
theorem filter_inside (k : ℕ) (h : k ≤ segmentLength sep l p) :
    (List.range' (p + 1) k).filter (isStart sep l) = [] := by
  rw [List.filter_eq_nil_iff]
  intro q hq
  obtain ⟨hle, hlt⟩ := List.mem_range'_1.mp hq
  have hnot : (l[p + (q - 1 - p)]?.any sep) = false := not_sep_of_lt (by omega)
  rw [Nat.add_sub_cancel' (by omega)] at hnot
  have hq0 : (q == 0) = false := by
    rw [beq_eq_false_iff_ne]
    omega
  rw [isStart, hq0, hnot]
  decide

/-- The first segment from a start on, and those behind it. -/
theorem startsFrom_of_start (hp : p < l.length) (hstart : isStart sep l p = true) :
    startsFrom sep l p = p :: startsFrom sep l (p + segmentLength sep l p + 1) := by
  have hle : p + segmentLength sep l p ≤ l.length := segmentLength_le (Nat.le_of_lt hp)
  generalize hlen : segmentLength sep l p = len at hle ⊢
  have hcut : List.range' p (l.length - p) = p :: List.range' (p + 1) (l.length - p - 1) := by
    rw [← List.range'_succ]
    congr 1
    omega
  unfold startsFrom
  rw [hcut, List.filter_cons_of_pos hstart]
  congr 1
  by_cases hend : p + len < l.length
  · have hsplit : List.range' (p + 1) (l.length - p - 1) =
        List.range' (p + 1) len ++ List.range' (p + len + 1) (l.length - (p + len + 1)) := by
      rw [Nat.add_right_comm p len 1, List.range'_append_1]
      congr 1
      omega
    rw [hsplit, List.filter_append, filter_inside len (Nat.le_of_eq hlen.symm), List.nil_append]
  · rw [filter_inside _ (by omega), Nat.sub_eq_zero_of_le (by omega), List.range'_zero, List.filter_nil]

end Segments
