/-
# Walking over UTF-8 text

What `fcitx_utf8_get_char` steps over is what `fcitx_utf8_char_len` measures,
for any bytes: a character takes the bytes that its first byte asks for, if
these all continue it, and one byte otherwise. The terminator continues
nothing, so no step leads over it and no byte behind it is read
(`Utf8.readsInside_append`), and what is read does not depend on what stands
there (`Utf8.getChar_append`).

Key definitions: `Utf8.readsInside`, `Utf8.strlenWithin`.
Key theorems: `Utf8.getChar_drop`, `Utf8.getChar_append`, `Utf8.walk_inside`.
-/
import Fcitx.Utils.Utf8Check

namespace Fcitx
namespace Utf8

/-! ### Which bytes are read -/

/-- How many `CONT` a first byte asks for. -/
def follows (c : UInt8) : ℕ :=
  if c &&& 0x80 == 0 then 0
  else if c &&& 0xe0 == 0xc0 then 1
  else if c &&& 0xf0 == 0xe0 then 2
  else if c &&& 0xf8 == 0xf0 then 3
  else if c &&& 0xfc == 0xf8 then 4
  else if c &&& 0xfe == 0xfc then 5
  else 0

/-- `CONT(i) && … && CONT(i + n - 1)`, each byte read only if the ones before it continue; `none` if a byte
behind the memory is read. -/
def conts (m : Bytes) : ℕ → ℕ → Option Bool
  | _, 0 => some true
  | i, n + 1 =>
    match m[i]? with
    | none => none
    | some b => if b &&& 0xc0 == 0x80 then conts m (i + 1) n else some false

/-- `fcitx_utf8_get_char` and `fcitx_utf8_char_len` read the first byte and the `CONT` it asks for: whether these
are all in the memory. -/
def readsInside (m : Bytes) : Bool :=
  match m[0]? with
  | none => false
  | some c => (conts m 1 (follows c)).isSome

/-- The loop of `fcitx_utf8_strlen`; `none` if `fuel` rounds are not enough. -/
def strlenWithin : ℕ → Bytes → Option ℕ
  | fuel, s =>
    if s.at 0 == 0 then some 0
    else match fuel with
      | 0 => none
      | fuel + 1 => (strlenWithin fuel (getChar s).2).map (· + 1)

/-! ### One step -/

/-- **The two decoders** step alike. -/
theorem getChar_drop (s : Bytes) : (getChar s).2 = s.drop (charLen s) := by
  unfold getChar charLen
  dsimp only
  split_ifs <;> rfl

theorem one_le_charLen (s : Bytes) : 1 ≤ charLen s := by
  unfold charLen
  dsimp only
  split_ifs <;> decide

/-- The length by the class of the first byte. -/
theorem charLen_eq (s : Bytes) : charLen s =
    if (List.range' 1 (follows (s.at 0))).all (cont s) then follows (s.at 0) + 1 else 1 := by
  unfold charLen follows
  simp only [and80, andE0, andF0, andF8, andFC, andFE, Bool.and_eq_true, decide_eq_true_eq]
  generalize (s.at 0).toNat = b
  have hclass : b < 0x80 ∨ (0x80 ≤ b ∧ b < 0xC0 ∨ 0xFE ≤ b) ∨ (0xC0 ≤ b ∧ b < 0xE0) ∨ (0xE0 ≤ b ∧ b < 0xF0) ∨
      (0xF0 ≤ b ∧ b < 0xF8) ∨ (0xF8 ≤ b ∧ b < 0xFC) ∨ (0xFC ≤ b ∧ b < 0xFE) := by omega
  rcases hclass with h | h | h | h | h | h | h <;> simp (disch := omega) [if_neg, List.range', and_assoc, h]

/-- All bytes of a character behind the first one continue it. -/
theorem cont_of_lt_charLen {s : Bytes} {i : ℕ} (hi : 0 < i) (hlt : i < charLen s) : cont s i = true := by
  rw [charLen_eq] at hlt
  split_ifs at hlt with hall
  · apply List.all_eq_true.mp hall
    rw [List.mem_range'_1]
    omega
  · omega

variable {bytes rest : Bytes}

/-- Where the terminator stands, or nothing, no character goes on. -/
theorem charLen_le_of_at {s : Bytes} {n : ℕ} (hpos : 0 < n) (hzero : s.at n = 0) : charLen s ≤ n := by
  by_contra hgt
  have hcont := cont_of_lt_charLen hpos (Nat.lt_of_not_le hgt)
  rw [cont, hzero] at hcont
  exact absurd hcont (by decide)

theorem charLen_le (hne : bytes ≠ []) : charLen bytes ≤ bytes.length :=
  charLen_le_of_at (List.length_pos_of_ne_nil hne) (by simp [Bytes.at])

/-- **No step leads over the terminator.** -/
theorem charLen_append_le (hne : bytes ≠ []) (rest : Bytes) : charLen (bytes ++ 0 :: rest) ≤ bytes.length :=
  charLen_le_of_at (List.length_pos_of_ne_nil hne) (by simp [Bytes.at])

/-- **What is read** does not depend on what stands behind the terminator, which is like the end of the bytes. -/
theorem getChar_append (hne : bytes ≠ []) (rest : Bytes) :
    getChar (bytes ++ 0 :: rest) = ((getChar bytes).1, (getChar bytes).2 ++ 0 :: rest) := by
  rcases bytes with _ | ⟨b₀, _ | ⟨b₁, _ | ⟨b₂, _ | ⟨b₃, _ | ⟨b₄, _ | ⟨b₅, bytes⟩⟩⟩⟩⟩⟩
  · exact absurd rfl hne
  -- behind the bytes stands the terminator or the end: neither continues a character
  all_goals
    unfold getChar
    have hzero : ((0 : UInt8) &&& 0xc0 == 0x80) = false := rfl
    simp only [cont, val, Bytes.at, List.cons_append, List.nil_append, List.getD_cons_zero, List.getD_cons_succ,
      List.getD_nil, hzero, Bool.and_false, Bool.false_and, Bool.false_eq_true, if_false]
    split_ifs <;> rfl

theorem conts_isSome (bytes : Bytes) (n : ℕ) : ∀ i ≤ bytes.length, (conts (bytes ++ [0]) i n).isSome = true := by
  induction n with
  | zero => exact fun _ _ => rfl
  | succ n ih =>
    intro i hi
    unfold conts
    rcases Nat.lt_or_eq_of_le hi with hlt | rfl
    · rw [List.getElem?_append_left hlt, List.getElem?_eq_getElem hlt]
      dsimp only
      split
      · exact ih (i + 1) hlt
      · rfl
    · rw [List.getElem?_concat_length]
      rfl

/-- **No byte behind the terminator is read.** -/
theorem readsInside_append (bytes : Bytes) : readsInside (bytes ++ [0]) = true := by
  unfold readsInside
  cases bytes with
  | nil => rfl
  | cons b bytes => exact conts_isSome (b :: bytes) (follows b) 1 (Nat.succ_le_succ (Nat.zero_le _))

theorem length_getChar (hne : bytes ≠ []) : (getChar bytes).2.length < bytes.length := by
  rw [getChar_drop, List.length_drop]
  have hpos := List.length_pos_of_ne_nil hne
  have hone := one_le_charLen bytes
  omega

theorem notMem_getChar (h0 : 0 ∉ bytes) : 0 ∉ (getChar bytes).2 := by
  rw [getChar_drop]
  exact fun hm => h0 (List.mem_of_mem_drop hm)

theorem at_zero_ne (h0 : 0 ∉ bytes) (hne : bytes ≠ []) (rest : Bytes) : ((bytes ++ rest).at 0 == 0) = false := by
  obtain ⟨b, bytes, rfl⟩ := List.exists_cons_of_ne_nil hne
  rw [beq_eq_false_iff_ne]
  exact fun hb => h0 (hb ▸ List.mem_cons_self)

/-! ### Counting -/

/-- Rounds for all bytes are enough to count, and more do not change the count. -/
theorem strlenFrom_congr (n : ℕ) : ∀ (m : ℕ) (bytes : Bytes), bytes.length ≤ n → bytes.length ≤ m →
    strlenFrom n bytes = strlenFrom m bytes := by
  induction n with
  | zero =>
    intro m bytes hn _
    rw [List.length_eq_zero_iff.mp (Nat.le_zero.mp hn)]
    cases m <;> rfl
  | succ n ih =>
    intro m bytes hn hm
    cases bytes with
    | nil => cases m <;> rfl
    | cons b bytes =>
      obtain ⟨m, rfl⟩ := Nat.exists_eq_succ_of_ne_zero (Nat.ne_of_gt (Nat.lt_of_lt_of_le (Nat.succ_pos _) hm))
      have hlt := length_getChar (List.cons_ne_nil b bytes)
      unfold strlenFrom
      rw [ih m _ (by omega) (by omega)]

theorem strlen_step (h0 : 0 ∉ bytes) (hne : bytes ≠ []) : strlen bytes = strlen (getChar bytes).2 + 1 := by
  have hlt := length_getChar hne
  have hhead := at_zero_ne h0 hne []
  rw [List.append_nil] at hhead
  obtain ⟨n, hn⟩ : ∃ n, bytes.length = n + 1 := Nat.exists_eq_succ_of_ne_zero (by omega)
  unfold strlen
  rw [hn, strlenFrom, hhead, if_neg Bool.false_ne_true, strlenFrom_congr n _ _ (by omega) (Nat.le_refl _)]

/-- The count is that of the bytes before the terminator. -/
theorem strlenFrom_append (rest : Bytes) (n : ℕ) : ∀ bytes : Bytes, 0 ∉ bytes → bytes.length ≤ n →
    strlenFrom n (bytes ++ 0 :: rest) = strlen bytes := by
  induction n with
  | zero =>
    intro bytes _ hn
    rw [List.length_eq_zero_iff.mp (Nat.le_zero.mp hn)]
    rfl
  | succ n ih =>
    intro bytes h0 hn
    by_cases hne : bytes = []
    · subst hne
      rfl
    · have hlt := length_getChar hne
      rw [strlenFrom, at_zero_ne h0 hne, if_neg Bool.false_ne_true, getChar_append hne,
        ih _ (notMem_getChar h0) (by omega), strlen_step h0 hne]

theorem strlen_append (h0 : 0 ∉ bytes) (rest : Bytes) : strlen (bytes ++ 0 :: rest) = strlen bytes :=
  strlenFrom_append rest _ bytes h0 (by simp)

/-- **Counting** comes to an end within a round for each byte. -/
theorem strlenWithin_append (rest : Bytes) (n : ℕ) : ∀ bytes : Bytes, 0 ∉ bytes → bytes.length ≤ n →
    strlenWithin n (bytes ++ 0 :: rest) = some (strlen bytes) := by
  induction n with
  | zero =>
    intro bytes _ hn
    rw [List.length_eq_zero_iff.mp (Nat.le_zero.mp hn)]
    rfl
  | succ n ih =>
    intro bytes h0 hn
    by_cases hne : bytes = []
    · subst hne
      rfl
    · have hlt := length_getChar hne
      rw [strlenWithin, at_zero_ne h0 hne, if_neg Bool.false_ne_true, getChar_append hne,
        ih _ (notMem_getChar h0) (by omega), strlen_step h0 hne]
      rfl

/-! ### Going to a character -/

/-- What is left of a string from a character on, and how many characters these are. -/
theorem getNthChar_append (rest : Bytes) (n : ℕ) : ∀ bytes : Bytes, 0 ∉ bytes → n ≤ strlen bytes →
    ∃ p ≤ bytes.length, getNthChar (bytes ++ 0 :: rest) n = bytes.drop p ++ 0 :: rest ∧
      getNthChar bytes n = bytes.drop p ∧ strlen bytes = n + strlen (bytes.drop p) := by
  induction n with
  | zero => exact fun bytes _ _ => ⟨0, Nat.zero_le _, rfl, rfl, (Nat.zero_add _).symm⟩
  | succ n ih =>
    intro bytes h0 hn
    have hne : bytes ≠ [] := by
      rintro rfl
      exact absurd hn (Nat.not_succ_le_zero n)
    rw [strlen_step h0 hne] at hn
    have hle := charLen_le hne
    obtain ⟨p, hp, happend, hget, hcount⟩ := ih (getChar bytes).2 (notMem_getChar h0) (Nat.le_of_succ_le_succ hn)
    have hhead := at_zero_ne h0 hne []
    rw [List.append_nil] at hhead
    rw [getChar_drop] at hp happend hget hcount
    rw [List.drop_drop] at happend hget hcount
    rw [List.length_drop] at hp
    refine ⟨charLen bytes + p, ?_, ?_, ?_, ?_⟩
    · omega
    · rw [getNthChar, at_zero_ne h0 hne, if_neg Bool.false_ne_true, getChar_append hne, getChar_drop, happend]
    · rw [getNthChar, hhead, if_neg Bool.false_ne_true, getChar_drop, hget]
    · rw [strlen_step h0 hne, getChar_drop, hcount]
      omega

/-- **Walking is safe.** At every byte before the terminator a character has at least one byte, ends before the
terminator, is what `fcitx_utf8_get_char` steps over, and nothing behind the terminator is read to find that
out. So counting comes to an end, and every character that is counted can be gone to: what is left there has the
characters that were not passed. -/
theorem walk_inside (bytes rest : Bytes) (h0 : 0 ∉ bytes) :
    (∀ p < bytes.length, 1 ≤ charLen ((bytes ++ 0 :: rest).drop p) ∧
      p + charLen ((bytes ++ 0 :: rest).drop p) ≤ bytes.length ∧
      (getChar ((bytes ++ 0 :: rest).drop p)).2 =
        (bytes ++ 0 :: rest).drop (p + charLen ((bytes ++ 0 :: rest).drop p)) ∧
      readsInside ((bytes ++ [0]).drop p) = true) ∧
    (∀ fuel, bytes.length ≤ fuel → strlenWithin fuel (bytes ++ 0 :: rest) = some (strlen (bytes ++ 0 :: rest))) ∧
    ∀ n ≤ strlen (bytes ++ 0 :: rest), ∃ p ≤ bytes.length,
      getNthChar (bytes ++ 0 :: rest) n = (bytes ++ 0 :: rest).drop p ∧
        strlen (bytes ++ 0 :: rest) = n + strlen (getNthChar (bytes ++ 0 :: rest) n) := by
  refine ⟨fun p hp => ?_, fun fuel hfuel => ?_, fun n hn => ?_⟩
  · have hne : bytes.drop p ≠ [] := by
      rw [Ne, List.drop_eq_nil_iff]
      omega
    have hle := charLen_append_le hne rest
    rw [List.length_drop] at hle
    rw [List.drop_append_of_le_length (Nat.le_of_lt hp), List.drop_append_of_le_length (Nat.le_of_lt hp)]
    refine ⟨one_le_charLen _, by omega, ?_, readsInside_append _⟩
    rw [getChar_drop, ← List.drop_drop, List.drop_append_of_le_length (Nat.le_of_lt hp)]
  · rw [strlen_append h0]
    exact strlenWithin_append rest fuel bytes h0 hfuel
  · rw [strlen_append h0] at hn ⊢
    obtain ⟨p, hp, hget, -, hcount⟩ := getNthChar_append rest n bytes h0 hn
    refine ⟨p, hp, ?_, ?_⟩
    · rw [hget, List.drop_append_of_le_length hp]
    · rw [hget, strlen_append (fun hm => h0 (List.mem_of_mem_drop hm))]
      exact hcount

/-- A character of two bytes and one that has lost its second byte. -/
theorem walk_inside_truncated :
    (getChar ([0xC3, 0xA9, 0xC3, 0] : Bytes)).2 =
        ([0xC3, 0xA9, 0xC3, 0] : Bytes).drop (charLen [0xC3, 0xA9, 0xC3, 0]) ∧
      strlenWithin 3 [0xC3, 0xA9, 0xC3, 0] = some 2 := by
  obtain ⟨hstep, hcount, -⟩ := walk_inside [0xC3, 0xA9, 0xC3] [] (by decide)
  exact ⟨(hstep 0 (by decide)).2.2.1, hcount 3 (by decide)⟩

/-- Reading a character goes on in the string. -/
theorem getChar_suffix (s : Bytes) : (getChar s).2 <:+ s := by
  unfold getChar
  dsimp only
  repeat' split
  all_goals exact List.drop_suffix ..

theorem getNthChar_suffix (n : ℕ) (s : Bytes) : getNthChar s n <:+ s := by
  induction n generalizing s with
  | zero => exact List.suffix_rfl
  | succ n ih =>
    unfold getNthChar
    split
    · exact List.suffix_rfl
    · exact (ih _).trans (getChar_suffix s)

/-! ### Texts of characters -/

section characters

variable {cs : List UInt32}

theorem getNthChar_writeChars (hcs : ∀ c ∈ cs, c ≠ 0) (n : ℕ) :
    getNthChar (writeChars cs) n = writeChars (cs.drop n) := by
  induction n generalizing cs with
  | zero => rfl
  | succ n ih =>
    cases cs with
    | nil => rfl
    | cons c cs =>
      have hc := hcs c List.mem_cons_self
      rw [writeChars_cons, getNthChar, at_ucs4ToUtf8 hc, if_neg Bool.false_ne_true, getChar_ucs4ToUtf8,
        List.drop_succ_cons]
      exact ih fun c' hc' => hcs c' (List.mem_cons_of_mem c hc')

theorem strlenFrom_writeChars : ∀ (cs : List UInt32) (fuel : ℕ), (∀ c ∈ cs, c ≠ 0) → cs.length ≤ fuel →
    strlenFrom fuel (writeChars cs) = cs.length
  | [], 0, _, _ => rfl
  | [], fuel + 1, _, _ => rfl
  | c :: cs, 0, _, hf => absurd hf (Nat.not_succ_le_zero _)
  | c :: cs, fuel + 1, hcs, hf => by
    have hc := hcs c List.mem_cons_self
    rw [writeChars_cons, strlenFrom, at_ucs4ToUtf8 hc, if_neg Bool.false_ne_true, getChar_ucs4ToUtf8]
    exact congrArg (· + 1) (strlenFrom_writeChars cs fuel (fun c' hc' => hcs c' (List.mem_cons_of_mem c hc'))
      (Nat.le_of_succ_le_succ hf))

theorem strlen_writeChars (hcs : ∀ c ∈ cs, c ≠ 0) : strlen (writeChars cs) = cs.length :=
  strlenFrom_writeChars cs _ hcs (length_le_writeChars cs)

theorem zero_notMem_writeChars (hcs : ∀ c ∈ cs, c ≠ 0) : 0 ∉ writeChars cs := by
  intro hmem
  obtain ⟨c, hc, hmem⟩ := List.mem_flatMap.mp hmem
  have hfirst := at_ucs4ToUtf8 (hcs c hc) []
  rw [ucs4ToUtf8_bytes, List.cons_append, Bytes.at, List.getD_cons_zero, beq_eq_false_iff_ne] at hfirst
  rw [ucs4ToUtf8_bytes, List.mem_cons] at hmem
  rcases hmem with hmem | hmem
  · exact hfirst hmem.symm
  · exact zero_notMem_form (form_written c) hmem

end characters

end Utf8
end Fcitx
