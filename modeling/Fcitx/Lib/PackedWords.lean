/-
# Tables packed into one number

A table of 32-bit words as one natural number, so that reading a word of a closed table is
a shift and a remainder. What is checked of the packed table holds of the list.

Key definitions: `PackedWords.pack`, `PackedWords.word`, `PackedWords.found`.
Key theorems: `PackedWords.word_pack`, `PackedWords.mem_of_found`.
-/
import Mathlib.Data.Nat.Notation
import Mathlib.Tactic.Ring

namespace PackedWords

/-- The words of a list, the first one lowest. -/
def pack (l : List ℕ) : ℕ := l.foldr (fun v acc => acc * 4294967296 + v) 0

/-- A word of a packed list. -/
def word (packed i : ℕ) : ℕ := packed >>> (32 * i) % 4294967296

/-- The halving search of an ascending packed list. -/
def found (packed v : ℕ) : ℕ → ℕ → ℕ → Bool
  | 0, _, _ => false
  | rounds + 1, l, u =>
    match Nat.blt l u with
    | false => false
    | true =>
      match Nat.beq v (word packed ((l + u) / 2)) with
      | true => true
      | false =>
        match Nat.blt v (word packed ((l + u) / 2)) with
        | true => found packed v rounds l ((l + u) / 2)
        | false => found packed v rounds ((l + u) / 2 + 1) u

theorem pack_cons (v : ℕ) (l : List ℕ) : pack (v :: l) = pack l * 4294967296 + v := rfl

/-- **Reading a packed table.** -/
theorem word_pack {l : List ℕ} (h : ∀ v ∈ l, v < 4294967296) {i : ℕ} (hi : i < l.length) :
    word (pack l) i = l[i] := by
  induction l generalizing i with
  | nil => cases hi
  | cons v l ih =>
    have hv : v < 4294967296 := h v List.mem_cons_self
    rw [word, pack_cons, Nat.shiftRight_eq_div_pow]
    cases i with
    | zero =>
      rw [Nat.mul_zero, Nat.pow_zero, Nat.div_one, Nat.mul_add_mod_self_right, Nat.mod_eq_of_lt hv]
      rfl
    | succ i =>
      have hpow : 2 ^ (32 * (i + 1)) = 4294967296 * 2 ^ (32 * i) := by
        rw [Nat.mul_add, Nat.pow_add, Nat.mul_comm]
      have hrest : (pack l * 4294967296 + v) / 4294967296 = pack l := by omega
      have hih := ih (fun w hw => h w (List.mem_cons_of_mem v hw)) (Nat.lt_of_succ_lt_succ hi)
      rw [hpow, ← Nat.div_div_eq_div_mul, hrest]
      rw [word, Nat.shiftRight_eq_div_pow] at hih
      exact hih

/-- What is found is a word of the table. -/
theorem exists_of_found {packed v rounds l u : ℕ} (h : found packed v rounds l u = true) :
    ∃ i < u, word packed i = v := by
  induction rounds generalizing l u with
  | zero => cases h
  | succ rounds ih =>
    unfold found at h
    split at h
    · cases h
    · next hlu =>
      have hmid : (l + u) / 2 < u := by
        have hlt := Nat.le_of_ble_eq_true hlu
        omega
      split at h
      · next heq => exact ⟨_, hmid, (Nat.eq_of_beq_eq_true heq).symm⟩
      · split at h
        · obtain ⟨i, hi, hword⟩ := ih h
          exact ⟨i, Nat.lt_trans hi hmid, hword⟩
        · exact ih h

/-- **Finding a value in a packed table.** -/
theorem mem_of_found {l : List ℕ} (h : ∀ v ∈ l, v < 4294967296) {v rounds : ℕ}
    (hfound : found (pack l) v rounds 0 l.length = true) : v ∈ l := by
  obtain ⟨i, hi, hword⟩ := exists_of_found hfound
  rw [word_pack h hi] at hword
  rw [← hword]
  exact List.getElem_mem hi

end PackedWords
