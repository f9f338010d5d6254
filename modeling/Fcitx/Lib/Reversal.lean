/-
# Reversing in place

The loop that swaps the first cell with the last, the second with the last but one, and
so on: what is between the cells that are in their places is reversed at the end.

Key definition: `Reversal.swapLoop`.
Key theorems: `Reversal.swapLoop_eq`, `Reversal.reverse_eq`.
-/
import Fcitx.Lib.Buffer

namespace Reversal

variable {A : Type}

/-- The rounds from `j` on, over the `len` cells from `start` on. -/
def swapLoop (start len : ℕ) : ℕ → List A → ℕ → Option (List A)
  | 0, _, _ => none
  | rounds + 1, buf, j =>
    if j < len / 2 then do
      let temp ← buf[start + j]?
      let other ← buf[start + (len - j - 1)]?
      let buf ← Buffer.write buf (start + j) [other]
      let buf ← Buffer.write buf (start + (len - j - 1)) [temp]
      swapLoop start len rounds buf (j + 1)
    else some buf

/-- `len` cells need no more than `len / 2 + 1` rounds. -/
def reverse (buf : List A) (start len : ℕ) : Option (List A) := swapLoop start len (len / 2 + 1) buf 0

theorem reverse_short {cells : List A} (h : cells.length < 2) : cells.reverse = cells := by
  cases cells with
  | nil => rfl
  | cons x cells =>
    cases cells with
    | nil => rfl
    | cons y cells => exact absurd h (Nat.not_lt.mpr (Nat.le_add_left 2 cells.length))

/-- One swap, of the cells on both sides of `mid`. -/
theorem swap_eq (before mid behind : List A) (x y : A) {i k : ℕ} (hi : i = before.length)
    (hk : k = before.length + mid.length + 1) :
    (before ++ x :: (mid ++ y :: behind))[i]? = some x ∧ (before ++ x :: (mid ++ y :: behind))[k]? = some y ∧
      ((Buffer.write (before ++ x :: (mid ++ y :: behind)) i [y]).bind fun buf => Buffer.write buf k [x]) =
        some (before ++ y :: (mid ++ x :: behind)) := by
  subst hi hk
  refine ⟨?_, ?_, ?_⟩
  · rw [List.getElem?_append_right (Nat.le_refl _), Nat.sub_self]
    rfl
  · rw [List.getElem?_append_right (by omega), show before.length + mid.length + 1 - before.length = mid.length + 1 by omega,
      List.getElem?_cons_succ, List.getElem?_append_right (Nat.le_refl _), Nat.sub_self]
    rfl
  · have hmid : (before ++ y :: mid).length = before.length + mid.length + 1 := by
      rw [List.length_append, List.length_cons, Nat.add_assoc]
    have hsplit : ∀ c, before ++ y :: (mid ++ c :: behind) = before ++ y :: mid ++ c :: behind := fun c => by
      rw [List.append_assoc, List.cons_append]
    rw [Buffer.write_head, Option.bind_some, hsplit, ← hmid, Buffer.write_head, ← hsplit]

/-- **The loop** reverses what is between the cells that it has swapped already. -/
theorem swapLoop_eq {start len : ℕ} (rounds : ℕ) : ∀ (before mid behind : List A) {j : ℕ},
    start + j = before.length → len = 2 * j + mid.length → mid.length < 2 * rounds →
    swapLoop start len rounds (before ++ (mid ++ behind)) j = some (before ++ (mid.reverse ++ behind)) := by
  induction rounds with
  | zero => exact fun _ _ _ _ _ _ h => absurd h (Nat.not_lt_zero _)
  | succ rounds ih =>
    intro before mid behind j hstart hlen hrounds
    rw [swapLoop]
    by_cases hshort : mid.length < 2
    · rw [if_neg (by omega), reverse_short hshort]
    · obtain ⟨x, inner, y, rfl⟩ : ∃ x inner y, mid = x :: (inner ++ [y]) := by
        cases mid with
        | nil => exact absurd (Nat.succ_pos 1) hshort
        | cons x mid =>
          rcases List.eq_nil_or_concat mid with rfl | ⟨inner, y, rfl⟩
          · exact absurd (Nat.lt_succ_self 1) hshort
          · exact ⟨x, inner, y, by rw [List.concat_eq_append]⟩
      have hsize : (x :: (inner ++ [y])).length = inner.length + 2 := by
        rw [List.length_cons, List.length_append, List.length_singleton]
      have hview : before ++ (x :: (inner ++ [y]) ++ behind) = before ++ x :: (inner ++ y :: behind) := by
        simp
      obtain ⟨hfirst, hlast, hswap⟩ := swap_eq before inner behind x y hstart (by omega : start + (len - j - 1) = _)
      have hnext := ih (before ++ [y]) inner (x :: behind) (j := j + 1)
        (by rw [List.length_append, List.length_singleton]; omega) (by omega) (by omega)
      rw [if_pos (by omega), hview]
      simp only [bind, hfirst, hlast, Option.bind_some]
      rw [← Option.bind_assoc, hswap, Option.bind_some]
      simpa using hnext

/-- **Reversing in place.** -/
theorem reverse_eq (before cells behind : List A) :
    reverse (before ++ (cells ++ behind)) before.length cells.length = some (before ++ (cells.reverse ++ behind)) :=
  swapLoop_eq _ before cells behind rfl (by omega) (by omega)

end Reversal
