/-
# Whole characters within a number of bytes

`fcitx_utf8_strncpy` copies characters while they fit and fills the rest with
zeros; `fcitx_utf8_strnlen` counts them. Both stop at the same character, and
no more characters fit (`Utf8.Fits`).

Key definitions: `Utf8.strncpy`, `Utf8.strnlen`, `Utf8.Fits`.
Key theorems: `Utf8.loops_fit`, `Utf8.strncpy_longest`.
-/
import Fcitx.Utils.Utf8Walk

namespace Fcitx
namespace Utf8

/-- The loop of `fcitx_utf8_strncpy`, with at most `fuel` rounds: what it copies, and how many bytes are left. -/
def copyChars : ℕ → Bytes → ℕ → Option (Bytes × ℕ)
  | fuel, s, byte =>
    if s.at 0 == 0 then some ([], byte)
    else match fuel with
      | 0 => none
      | fuel + 1 =>
        let next := (getChar s).2
        let diff := s.length - next.length
        if byte < diff then some ([], byte)
        else (copyChars fuel next (byte - diff)).map fun r => (s.take diff ++ r.1, r.2)

/-- `fcitx_utf8_strncpy`: what is written. -/
def strncpy (fuel : ℕ) (s : Bytes) (byte : ℕ) : Option Bytes :=
  (copyChars fuel s byte).map fun r => r.1 ++ List.replicate r.2 0

/-- `fcitx_utf8_strnlen`, with at most `fuel` rounds. -/
def strnlen : ℕ → Bytes → ℕ → Option ℕ
  | fuel, str, byte =>
    if str.at 0 == 0 || byte == 0 then some 0
    else match fuel with
      | 0 => none
      | fuel + 1 =>
        let next := (getChar str).2
        let diff := str.length - next.length
        if byte < diff then some 0
        else (strnlen fuel next (byte - diff)).map (· + 1)

/-- `fcitx_utf8_get_nth_char(s, n) - s` -/
def offset (s : Bytes) (n : ℕ) : ℕ := s.length - (getNthChar s n).length

/-- Not more than `k` characters have at most `n` bytes. -/
structure Fits (s : Bytes) (n k : ℕ) : Prop where
  le : k ≤ strlen s
  fits : offset s k ≤ n
  most : ∀ j ≤ strlen s, offset s j ≤ n → j ≤ k

variable {bytes rest : Bytes} {n k : ℕ}

/-! ### Offsets -/

theorem offset_zero (s : Bytes) : offset s 0 = 0 := Nat.sub_self _

theorem length_getNthChar (s : Bytes) (k : ℕ) : (getNthChar s k).length ≤ s.length := by
  induction k generalizing s with
  | zero => exact Nat.le_refl _
  | succ k ih =>
    unfold getNthChar
    split
    · exact Nat.le_refl _
    · apply Nat.le_trans (ih _)
      rw [getChar_drop, List.length_drop]
      exact Nat.sub_le ..

/-- The first character is in front of all others. -/
theorem offset_succ (h0 : 0 ∉ bytes) (hne : bytes ≠ []) (k : ℕ) :
    offset bytes (k + 1) = charLen bytes + offset (getChar bytes).2 k := by
  have hhead := at_zero_ne h0 hne []
  rw [List.append_nil] at hhead
  have hle := charLen_le hne
  have hlen := length_getNthChar (getChar bytes).2 k
  unfold offset
  rw [getNthChar, hhead, if_neg Bool.false_ne_true]
  rw [getChar_drop, List.length_drop] at hlen ⊢
  omega

theorem offset_append (h0 : 0 ∉ bytes) (rest : Bytes) (hk : k ≤ strlen bytes) :
    offset (bytes ++ 0 :: rest) k = offset bytes k := by
  obtain ⟨p, hp, happend, hget, -⟩ := getNthChar_append rest k bytes h0 hk
  unfold offset
  rw [happend, hget]
  simp only [List.length_append, List.length_drop, List.length_cons]
  omega

theorem Fits.unique {j : ℕ} (h : Fits bytes n j) (h' : Fits bytes n k) : j = k :=
  Nat.le_antisymm (h'.most j h.le h.fits) (h.most k h'.le h'.fits)

theorem Fits.append (h : Fits bytes n k) (h0 : 0 ∉ bytes) (rest : Bytes) : Fits (bytes ++ 0 :: rest) n k := by
  have hlen := strlen_append h0 rest
  refine ⟨by rw [hlen]; exact h.le, by rw [offset_append h0 rest h.le]; exact h.fits, fun j hj hfit => ?_⟩
  rw [hlen] at hj
  rw [offset_append h0 rest hj] at hfit
  exact h.most j hj hfit

/-! ### The loops -/

theorem fits_zero (h0 : 0 ∉ bytes) (hfew : bytes = [] ∨ n < charLen bytes) : Fits bytes n 0 := by
  refine ⟨Nat.zero_le _, by rw [offset_zero]; exact Nat.zero_le n, fun j hj hfit => ?_⟩
  cases j with
  | zero => exact Nat.le_refl 0
  | succ j =>
    have hne : bytes ≠ [] := by
      rintro rfl
      exact absurd hj (Nat.not_succ_le_zero j)
    rw [offset_succ h0 hne] at hfit
    have hlt := hfew.resolve_left hne
    omega

theorem Fits.succ (h0 : 0 ∉ bytes) (hne : bytes ≠ []) (hle : charLen bytes ≤ n)
    (h : Fits (getChar bytes).2 (n - charLen bytes) k) : Fits bytes n (k + 1) := by
  refine ⟨?_, ?_, fun j hj hfit => ?_⟩
  · rw [strlen_step h0 hne]
    exact Nat.succ_le_succ h.le
  · have hfits := h.fits
    rw [offset_succ h0 hne]
    omega
  · cases j with
    | zero => exact Nat.zero_le _
    | succ j =>
      rw [strlen_step h0 hne] at hj
      rw [offset_succ h0 hne] at hfit
      exact Nat.succ_le_succ (h.most j (Nat.le_of_succ_le_succ hj) (by omega))

/-- **Both loops** stop at the same character, behind which no other one fits. -/
theorem loops_fit (rest : Bytes) (fuel : ℕ) : ∀ (bytes : Bytes) (n : ℕ), 0 ∉ bytes → bytes.length ≤ fuel →
    ∃ k, Fits bytes n k ∧
      copyChars fuel (bytes ++ 0 :: rest) n = some (bytes.take (offset bytes k), n - offset bytes k) ∧
      strnlen fuel (bytes ++ 0 :: rest) n = some k := by
  induction fuel with
  | zero =>
    intro bytes n h0 hlen
    obtain rfl := List.length_eq_zero_iff.mp (Nat.le_zero.mp hlen)
    exact ⟨0, fits_zero h0 (Or.inl rfl), rfl, rfl⟩
  | succ fuel ih =>
    intro bytes n h0 hlen
    by_cases hne : bytes = []
    · subst hne
      exact ⟨0, fits_zero h0 (Or.inl rfl), rfl, rfl⟩
    · have hlt := length_getChar hne
      have hle := charLen_le hne
      have hpos := one_le_charLen bytes
      -- the bytes from one character to the next
      have hdiff : (bytes ++ 0 :: rest).length - ((getChar bytes).2 ++ 0 :: rest).length = charLen bytes := by
        rw [getChar_drop]
        simp only [List.length_append, List.length_drop, List.length_cons]
        omega
      unfold copyChars strnlen
      rw [at_zero_ne h0 hne, getChar_append hne, if_neg Bool.false_ne_true, Bool.false_or]
      dsimp only
      rw [hdiff]
      by_cases hfew : n < charLen bytes
      · refine ⟨0, fits_zero h0 (Or.inr hfew), ?_, ?_⟩
        · rw [if_pos hfew, offset_zero]
          rfl
        · rw [if_pos hfew, ite_self]
      · obtain ⟨k, hfits, hcopy, hcount⟩ := ih (getChar bytes).2 (n - charLen bytes) (notMem_getChar h0) (by omega)
        refine ⟨k + 1, hfits.succ h0 hne (Nat.le_of_not_lt hfew), ?_, ?_⟩
        · rw [if_neg hfew, hcopy, offset_succ h0 hne, List.take_append_of_le_length hle, Option.map_some,
            List.take_add, getChar_drop, Nat.sub_sub]
        · rw [if_neg hfew, hcount, if_neg (by rw [beq_iff_eq]; omega)]
          rfl

/-! ### Valid text -/

/-- The bytes before a character of a text of characters. -/
theorem take_offset_writeChars {cs : List UInt32} (hcs : ∀ c ∈ cs, c ≠ 0) (k : ℕ) :
    (writeChars cs).take (offset (writeChars cs) k) = writeChars (cs.take k) := by
  have hsplit : writeChars cs = writeChars (cs.take k) ++ writeChars (cs.drop k) := by
    unfold writeChars
    rw [← List.flatMap_append, List.take_append_drop]
  unfold offset
  rw [getNthChar_writeChars hcs]
  rw [hsplit, List.length_append, Nat.add_sub_cancel, List.take_left]

/-- What stands before a character of a valid string is valid. -/
theorem checkString_take (h0 : 0 ∉ bytes) (hvalid : checkString (bytes ++ 0 :: rest) = true) (k : ℕ) (rest' : Bytes) :
    checkString (bytes.take (offset bytes k) ++ 0 :: rest') = true := by
  obtain ⟨cs, hcs, rfl⟩ := (checkString_writeChars_iff bytes rest h0).mp hvalid
  have hnonzero : ∀ c ∈ cs, c ≠ 0 := fun c hc => (hcs c hc).1
  rw [take_offset_writeChars hnonzero]
  have hfront : ∀ c ∈ cs.take k, c ≠ 0 ∧ unicodeValid c = true := fun c hc => hcs c (List.mem_of_mem_take hc)
  apply (checkString_writeChars_iff _ rest' _).mpr
  · exact ⟨cs.take k, hfront, rfl⟩
  · exact zero_notMem_writeChars fun c hc => (hfront c hc).1

/-- **The bounded copy and count.** There is one number of characters of which no more fit into `n` bytes. The
copy writes `n` bytes: those characters, then zeros; the count is that number; and what is copied from a valid
string is valid. -/
theorem strncpy_longest (bytes rest : Bytes) (h0 : 0 ∉ bytes) (n : ℕ) :
    ∃ k, Fits (bytes ++ 0 :: rest) n k ∧
      (∀ fuel, bytes.length ≤ fuel → ∃ copy, strncpy fuel (bytes ++ 0 :: rest) n = some copy ∧ copy.length = n ∧
        copy = bytes.take (offset (bytes ++ 0 :: rest) k) ++ List.replicate (n - offset (bytes ++ 0 :: rest) k) 0 ∧
        strnlen fuel (bytes ++ 0 :: rest) n = some k) ∧
      (checkString (bytes ++ 0 :: rest) = true →
        ∀ rest', checkString (bytes.take (offset (bytes ++ 0 :: rest) k) ++ 0 :: rest') = true) := by
  obtain ⟨k, hfits, -⟩ := loops_fit rest bytes.length bytes n h0 (Nat.le_refl _)
  have hoffset : offset (bytes ++ 0 :: rest) k = offset bytes k := offset_append h0 rest hfits.le
  refine ⟨k, hfits.append h0 rest, fun fuel hfuel => ?_, fun hvalid rest' => ?_⟩
  · obtain ⟨k', hfits', hcopy, hcount⟩ := loops_fit rest fuel bytes n h0 hfuel
    obtain rfl := hfits'.unique hfits
    rw [hoffset]
    refine ⟨_, ?_, ?_, rfl, hcount⟩
    · rw [strncpy, hcopy]
      rfl
    · have hle := hfits.fits
      have hinside : offset bytes k' ≤ bytes.length := Nat.sub_le ..
      rw [List.length_append, List.length_take, List.length_replicate]
      omega
  · rw [hoffset]
    exact checkString_take h0 hvalid k rest'

/-- Eight bytes have room for two characters of three. -/
theorem strncpy_longest_eight :
    ∃ k copy, strncpy 9 [0xe4, 0xbd, 0xa0, 0xe5, 0xa5, 0xbd, 0xe6, 0xb5, 0x8b, 0] 8 = some copy ∧ copy.length = 8 ∧
      strnlen 9 [0xe4, 0xbd, 0xa0, 0xe5, 0xa5, 0xbd, 0xe6, 0xb5, 0x8b, 0] 8 = some k := by
  obtain ⟨k, -, hloops, -⟩ := strncpy_longest [0xe4, 0xbd, 0xa0, 0xe5, 0xa5, 0xbd, 0xe6, 0xb5, 0x8b] [] (by decide) 8
  obtain ⟨copy, hcopy, hlen, -, hcount⟩ := hloops 9 (by decide)
  exact ⟨k, copy, hcopy, hlen, hcount⟩

end Utf8
end Fcitx
