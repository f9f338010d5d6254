/-
# The two trims

`fcitx_utils_trim` and `fcitx_utils_inplace_trim` share a helper that finds
where a string starts and ends without its white space. The one in place
returns the start it found; the copying one copies from the start of the string,
so the white space in front stays.

Key definitions: `trimBack`, `trimPointers`, `trimCopy`, `trimInPlace`, `TrimsAgree`.
Key theorems: `trimPointers_eq`, `trimCopy_eq`, `trimInPlace_eq`, `trimsAgree_iff`.
-/
import Fcitx.Utils.StringUtils

namespace Fcitx

/-- The loop of `fcitx_utils_trim_helper`, with at most `fuel` rounds: where the end pointer stops. It may go to
one before the start. -/
def trimBack (s : Bytes) (start : ℕ) : ℕ → ℤ → Option ℤ
  | 0, _ => none
  | fuel + 1, «end» =>
    if start ≤ «end» ∧ isspace (s.at «end».toNat) then trimBack s start fuel («end» - 1) else some «end»

/-- `fcitx_utils_trim_helper` with its pointers; for a blank string the end starts one before the start. -/
def trimPointers (s : Bytes) : Option (ℕ × ℤ) :=
  let start := (s.takeWhile isspace).length
  let len := s.length - start
  (trimBack s start (len + 1) (start + len - 1)).map fun «end» => (start, «end» + 1)

/-- `fcitx_utils_trim`: the bytes from `s` to the end pointer are copied. -/
def trimCopy (s : Bytes) : Option Bytes :=
  (trimPointers s).bind fun p => if 0 ≤ p.2 ∧ p.2 ≤ s.length then some (s.take p.2.toNat) else none

/-- `fcitx_utils_inplace_trim`: the terminator is put at the end pointer, and the start pointer is returned. -/
def trimInPlace (s : Bytes) : Option Bytes :=
  (trimPointers s).bind fun p =>
    if 0 ≤ p.2 ∧ p.2 ≤ s.length then some (cString (((s ++ [0]).set p.2.toNat 0).drop p.1)) else none

/-- **The law**: both trims return the string without its white space on both sides. -/
def TrimsAgree (s : Bytes) : Prop :=
  let trimmed := (s.dropWhile isspace).rdropWhile isspace
  trimCopy s = some trimmed ∧ trimInPlace s = some trimmed

/-! ### The helper -/

/-- **The loop** goes back to what does not end with white space. -/
theorem trimBack_eq (before : Bytes) (fuel : ℕ) : ∀ rest after : Bytes, rest.length < fuel →
    trimBack (before ++ rest ++ after) before.length fuel ((before.length + rest.length : ℕ) - 1) =
      some (((before.length + (rest.rdropWhile isspace).length : ℕ) : ℤ) - 1) := by
  induction fuel with
  | zero => exact fun rest after hlen => absurd hlen (Nat.not_lt_zero _)
  | succ fuel ih =>
    intro rest after hlen
    unfold trimBack
    rcases List.eq_nil_or_concat' rest with rfl | ⟨front, c, rfl⟩
    · -- one before the start
      have hout : ¬ ((before.length : ℤ) ≤ (before.length + List.length ([] : Bytes) : ℕ) - 1) := by
        rw [List.length_nil]
        omega
      rw [if_neg fun h => hout h.1, List.rdropWhile_nil]
    · have hend : ((before.length + (front ++ [c]).length : ℕ) : ℤ) - 1 = (before.length + front.length : ℕ) := by
        rw [List.length_append, List.length_singleton]
        omega
      have hat : (before ++ (front ++ [c]) ++ after).at (before.length + front.length) = c := by
        have hcat : before ++ (front ++ [c]) ++ after = before ++ front ++ c :: after := by simp
        rw [hcat, Bytes.at, ← List.length_append]
        simp
      rw [hend, Int.toNat_natCast, hat]
      cases hc : isspace c with
      | true =>
        have hcat : before ++ (front ++ [c]) ++ after = before ++ front ++ c :: after := by simp
        rw [if_pos ⟨by omega, rfl⟩, hcat, List.rdropWhile_concat_pos isspace front c hc]
        exact ih front (c :: after) (by rw [List.length_append] at hlen; exact Nat.lt_of_succ_lt_succ hlen)
      | false =>
        rw [if_neg fun h => Bool.false_ne_true h.2, List.rdropWhile_concat_neg isspace front c (by simp [hc]), hend]

/-- **The helper**: its pointers are the ends of the string without white space. -/
theorem trimPointers_eq (s : Bytes) : trimPointers s = some ((trimHelper s).1, ((trimHelper s).2 : ℤ)) := by
  have hlen : s.length - (s.takeWhile isspace).length = (s.dropWhile isspace).length := by
    have hall := congrArg List.length (List.takeWhile_append_dropWhile (p := isspace) (l := s))
    rw [List.length_append] at hall
    omega
  have hback := trimBack_eq (s.takeWhile isspace) ((s.dropWhile isspace).length + 1) (s.dropWhile isspace) []
    (Nat.lt_succ_self _)
  rw [List.append_nil, List.takeWhile_append_dropWhile] at hback
  unfold trimPointers
  dsimp only
  rw [hlen, ← Int.natCast_add, hback, trimHelper_eq]
  simp

/-! ### The two trims -/

theorem trim_eq_nil_iff (s : Bytes) : trim s = [] ↔ s = [] := by
  rw [trim_eq, List.append_eq_nil_iff, inplaceTrim_eq_nil_iff]
  constructor
  · intro h
    rw [← List.takeWhile_eq_self_iff.mpr h.2]
    exact h.1
  · rintro rfl
    exact ⟨rfl, fun c hc => absurd hc List.not_mem_nil⟩

theorem head?_trim (s : Bytes) : (trim s).head? = s.head? := by
  rcases hs : s with _ | ⟨c, s'⟩
  · rfl
  · have hne : trim (c :: s') ≠ [] := fun h => List.cons_ne_nil _ _ ((trim_eq_nil_iff _).mp h)
    have hstart : trim (c :: s') <+: c :: s' := List.take_prefix _ _
    obtain ⟨rest, hrest⟩ := hstart
    have hhead : (trim (c :: s') ++ rest).head? = _ := List.head?_append_of_ne_nil _ hne
    rw [hrest] at hhead
    exact hhead.symm

theorem trim_of_head {s : Bytes} (h : s.head?.all (fun c => ¬ isspace c) = true) : trim s = inplaceTrim s := by
  rw [trim_eq]
  cases s with
  | nil => rfl
  | cons c s =>
    have hc : isspace c = false := by simpa using h
    rw [List.takeWhile_cons, hc]
    rfl

theorem head_of_trim {s : Bytes} (h : trim s = inplaceTrim s) : s.head?.all (fun c => ¬ isspace c) = true := by
  rw [← head?_trim, h]
  cases hhead : (inplaceTrim s).head? with
  | none => rfl
  | some c =>
    rw [Option.all_some, head?_inplaceTrim s c hhead]
    rfl

theorem trimHelper_le (s : Bytes) : (trimHelper s).1 ≤ (trimHelper s).2 ∧ (trimHelper s).2 ≤ s.length := by
  rw [trimHelper_eq]
  have hsplit := congrArg List.length (List.takeWhile_append_dropWhile (p := isspace) (l := s))
  have hback := (List.rdropWhile_prefix isspace (l := s.dropWhile isspace)).length_le
  rw [List.length_append] at hsplit
  dsimp only
  omega

theorem trimCopy_eq (s : Bytes) : trimCopy s = some (trim s) := by
  have hle := (trimHelper_le s).2
  unfold trimCopy
  rw [trimPointers_eq, Option.bind_some, if_pos (by dsimp only; omega)]
  rfl

theorem trimInPlace_eq {s : Bytes} (h0 : 0 ∉ s) : trimInPlace s = some (inplaceTrim s) := by
  obtain ⟨hstart, hend⟩ := trimHelper_le s
  have hset : (s ++ [0]).set (trimHelper s).2 0 =
      s.take (trimHelper s).2 ++ 0 :: (s ++ [0]).drop ((trimHelper s).2 + 1) := by
    rw [List.set_eq_take_append_cons_drop, if_pos (by rw [List.length_append, List.length_singleton]; omega),
      List.take_append_of_le_length hend]
  have hfront : (trimHelper s).1 ≤ (s.take (trimHelper s).2).length := by
    rw [List.length_take]
    omega
  have hzero : 0 ∉ (s.take (trimHelper s).2).drop (trimHelper s).1 :=
    fun h => h0 (List.mem_of_mem_take (List.mem_of_mem_drop h))
  unfold trimInPlace
  rw [trimPointers_eq, Option.bind_some, if_pos (by dsimp only; omega)]
  dsimp only
  rw [Int.toNat_natCast, hset, List.drop_append_of_le_length hfront, cString_append_zero, cString_of_noZero hzero]
  rfl

/-- **The trims agree** exactly on the strings that do not start with white space. -/
theorem trimsAgree_iff (s : Bytes) (h0 : 0 ∉ s) : TrimsAgree s ↔ s.head?.all (fun c => ¬ isspace c) = true := by
  unfold TrimsAgree
  rw [trimCopy_eq, trimInPlace_eq h0, ← inplaceTrim_eq]
  constructor
  · intro h
    exact head_of_trim (Option.some.inj h.1)
  · intro h
    exact ⟨congrArg some (trim_of_head h), rfl⟩

/-- White space behind the text. -/
theorem trimsAgree_iff_newline : TrimsAgree [97, 10] ↔ ([97, 10] : Bytes).head?.all (fun c => ¬ isspace c) = true :=
  trimsAgree_iff [97, 10] (by decide)

/-- A space in front stays in the copy. -/
theorem not_trimsAgree_space : ¬ TrimsAgree [32, 97] := by
  intro h
  exact absurd h.1 (by decide)

end Fcitx
