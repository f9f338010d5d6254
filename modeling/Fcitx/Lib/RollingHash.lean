/-
# Rolling hashes

The hash of a window is a polynomial in a base `b`, with the letters of the
window as its coefficients. When the window moves back by one letter, its last
letter is taken out, the rest is multiplied by the base, and the new first
letter is added (`hash_cons_of_concat`).

Key definition: `RollingHash.hash`.
Key theorems: `RollingHash.hash_concat`, `RollingHash.hash_cons_of_concat`, `RollingHash.foldl_reverse_eq_hash`.
-/
import Mathlib.Tactic.Ring

namespace RollingHash

variable {A R : Type*} [CommRing R] (b : R) (ch : A → R)

/-- The letters of a window, weighted with the powers of the base. -/
def hash (w : List A) : R := w.foldr (fun c h => ch c + b * h) 0

theorem hash_cons (c : A) (w : List A) : hash b ch (c :: w) = ch c + b * hash b ch w := rfl

theorem hash_concat (w : List A) (d : A) : hash b ch (w ++ [d]) = hash b ch w + ch d * b ^ w.length := by
  induction w with
  | nil => simp [hash]
  | cons c w ih =>
    calc
      hash b ch (c :: w ++ [d]) = ch c + b * (hash b ch w + ch d * b ^ w.length) := by
        rw [List.cons_append, hash_cons, ih]
      _ = hash b ch (c :: w) + ch d * b ^ (c :: w).length := by
        rw [hash_cons, List.length_cons, pow_succ]
        ring

/-- **The window moves back** by one letter. -/
theorem hash_cons_of_concat (c d : A) (w : List A) :
    hash b ch (c :: w) = ch c + b * (hash b ch (w ++ [d]) - ch d * b ^ w.length) := by
  rw [hash_concat, add_sub_cancel_right, hash_cons]

/-- The hash of a window is found from its last letter on. -/
theorem foldl_reverse_eq_hash (w : List A) : w.reverse.foldl (fun h c => b * h + ch c) 0 = hash b ch w := by
  rw [List.foldl_reverse]
  unfold hash
  congr 1
  funext c h
  exact add_comm _ _

end RollingHash
