/-
# Reading and writing a character

The functions of `fcitx-utils/utf8.c` share one layout of one to six bytes:
`fcitx_ucs4_to_utf8` writes it, `fcitx_utf8_get_char` and
`fcitx_utf8_get_char_extended` read it, and `fcitx_utf8_char_len` measures it.
Only the last threshold of the writer is another one: it writes five bytes below
`0x8000000`, which have room for the numbers below `0x4000000`.

Key definitions: `Utf8.RoundTrips`.
Key theorems: `Utf8.getChar_form`, `Utf8.charLen_form`, `Utf8.ucs4ToUtf8_form`,
`Utf8.roundTrips_iff`.
-/
import Fcitx.Lib.Sextets
import Fcitx.Utils.Utf8
import Mathlib.Tactic.Ring

namespace Fcitx

namespace Utf8

open Sextets

variable {l : UInt8} {ts t : Bytes} {c : UInt32}

/-! ### Bytes -/

@[elab_as_elim]
theorem forall_byte {motive : UInt8 → Prop} (h : ∀ n : Fin 256, motive (UInt8.ofNat n)) (b : UInt8) :
    motive b := by
  have hb := h ⟨b.toNat, b.toNat_lt⟩
  rwa [UInt8.ofNat_toNat] at hb

/-- What each mask asks of a byte. -/
theorem mask_tests (b : UInt8) :
    ((b &&& 0x80 == 0) = decide (b.toNat < 0x80)) ∧
    ((b &&& 0xe0 == 0xc0) = decide (0xC0 ≤ b.toNat ∧ b.toNat < 0xE0)) ∧
    ((b &&& 0xf0 == 0xe0) = decide (0xE0 ≤ b.toNat ∧ b.toNat < 0xF0)) ∧
    ((b &&& 0xf8 == 0xf0) = decide (0xF0 ≤ b.toNat ∧ b.toNat < 0xF8)) ∧
    ((b &&& 0xfc == 0xf8) = decide (0xF8 ≤ b.toNat ∧ b.toNat < 0xFC)) ∧
    ((b &&& 0xfe == 0xfc) = decide (0xFC ≤ b.toNat ∧ b.toNat < 0xFE)) ∧
    ((b &&& 0xc0 == 0x80) = decide (0x80 ≤ b.toNat ∧ b.toNat < 0xC0)) :=
  forall_byte (by decide +kernel) b

theorem and80 (b : UInt8) : (b &&& 0x80 == 0) = decide (b.toNat < 0x80) :=
  (mask_tests b).1

theorem andE0 (b : UInt8) : (b &&& 0xe0 == 0xc0) = decide (0xC0 ≤ b.toNat ∧ b.toNat < 0xE0) :=
  (mask_tests b).2.1

theorem andF0 (b : UInt8) : (b &&& 0xf0 == 0xe0) = decide (0xE0 ≤ b.toNat ∧ b.toNat < 0xF0) :=
  (mask_tests b).2.2.1

theorem andF8 (b : UInt8) : (b &&& 0xf8 == 0xf0) = decide (0xF0 ≤ b.toNat ∧ b.toNat < 0xF8) :=
  (mask_tests b).2.2.2.1

theorem andFC (b : UInt8) : (b &&& 0xfc == 0xf8) = decide (0xF8 ≤ b.toNat ∧ b.toNat < 0xFC) :=
  (mask_tests b).2.2.2.2.1

theorem andFE (b : UInt8) : (b &&& 0xfe == 0xfc) = decide (0xFC ≤ b.toNat ∧ b.toNat < 0xFE) :=
  (mask_tests b).2.2.2.2.2.1

theorem andC0 (b : UInt8) : (b &&& 0xc0 == 0x80) = decide (0x80 ≤ b.toNat ∧ b.toNat < 0xC0) :=
  (mask_tests b).2.2.2.2.2.2

/-- The low bits of a byte. -/
theorem toNat_mask (b : UInt8) {n : UInt8} {m : ℕ} (hm : n.toNat = 2 ^ m - 1) :
    (b &&& n).toUInt32.toNat = b.toNat % 2 ^ m := by
  rw [UInt8.toNat_toUInt32, UInt8.toNat_and, hm, Nat.and_two_pow_sub_one_eq_mod]

/-- The low bits of a byte, moved up. -/
theorem toNat_shift (b : UInt8) {n : UInt8} {s : UInt32} {m k : ℕ} (hm : n.toNat = 2 ^ m - 1)
    (hk : s.toNat = k) (hk32 : k < 32) (hmk : m + k ≤ 32) :
    ((b &&& n).toUInt32 <<< s).toNat = b.toNat % 2 ^ m * 2 ^ k := by
  have hlt : b.toNat % 2 ^ m * 2 ^ k < 2 ^ 32 := by
    calc b.toNat % 2 ^ m * 2 ^ k < 2 ^ m * 2 ^ k :=
          Nat.mul_lt_mul_of_pos_right (Nat.mod_lt _ (Nat.pow_pos (by decide))) (Nat.pow_pos (by decide))
      _ = 2 ^ (m + k) := (Nat.pow_add ..).symm
      _ ≤ 2 ^ 32 := Nat.pow_le_pow_right (by decide) hmk
  rw [UInt32.toNat_shiftLeft, hk, toNat_mask b hm, Nat.mod_eq_of_lt hk32, Nat.shiftLeft_eq, Nat.mod_eq_of_lt hlt]

/-- The bits of one more continuation byte. -/
theorem toNat_or_shift {x : UInt32} (b : UInt8) {s : UInt32} {a k : ℕ} (hk : s.toNat = k)
    (hk24 : k ≤ 24) (hx : x.toNat = a * 2 ^ (k + 6)) :
    (x ||| (b &&& 0x3f).toUInt32 <<< s).toNat = (a * 64 + b.toNat % 64) * 2 ^ k := by
  have hval : ((b &&& 0x3f).toUInt32 <<< s).toNat = b.toNat % 2 ^ 6 * 2 ^ k :=
    toNat_shift b rfl hk (by omega) (by omega)
  have hlt : b.toNat % 2 ^ 6 * 2 ^ k < 2 ^ (k + 6) := by
    rw [Nat.pow_add, Nat.mul_comm (2 ^ k)]
    exact Nat.mul_lt_mul_of_pos_right (Nat.mod_lt _ (by decide)) (Nat.pow_pos (by decide))
  rw [UInt32.toNat_or, hx, hval, Nat.mul_comm a, ← Nat.two_pow_add_eq_or_of_lt hlt, Nat.pow_add,
    show (2 : ℕ) ^ 6 = 64 from rfl]
  ring

/-! ### Reading a character -/

/-- **Reading a character that has the form.** -/
theorem getChar_form (h : Form l ts) (t : Bytes) :
    getChar (l :: (ts ++ t)) = (UInt32.ofNat (value l ts), t) := by
  obtain ⟨hlen, hge, hlt, hts⟩ := h
  have hvalue : ∀ {x : UInt32}, x.toNat = value l ts → x = UInt32.ofNat (value l ts) := by
    intro x hx
    rw [← hx, UInt32.ofNat_toNat]
  rcases ts with _ | ⟨t₁, _ | ⟨t₂, _ | ⟨t₃, _ | ⟨t₄, _ | ⟨t₅, _ | ⟨t₆, ts⟩⟩⟩⟩⟩⟩ <;>
    simp only [List.length_nil, List.length_cons, Nat.zero_add, leadBase, leadSize, List.forall_mem_cons, value,
      join, List.map_cons, List.map_nil, List.foldl_cons, List.foldl_nil] at hlen hge hlt hts hvalue ⊢ <;>
    simp only [getChar, Bytes.at, List.getD_cons_zero, List.getD_cons_succ, List.cons_append, cont, and80, andE0,
      andF0, andF8, andFC, andFE, andC0, Bool.and_eq_true, decide_eq_true_eq]
  · rw [if_pos (by omega)]
    refine Prod.ext (hvalue ?_) rfl
    exact UInt8.toNat_toUInt32 l
  · rw [if_neg (by omega), if_pos (by omega)]
    refine Prod.ext (hvalue ?_) rfl
    refine (toNat_or_shift t₁ (s := 0) (k := 0) rfl (by decide)
      (toNat_shift l (n := 0x1f) (m := 5) (s := 6) (k := 6) rfl rfl (by decide) (by decide))).trans ?_
    omega
  · rw [if_neg (by omega), if_neg (by omega), if_pos (by omega)]
    refine Prod.ext (hvalue ?_) rfl
    refine (toNat_or_shift t₂ (s := 0) (k := 0) rfl (by decide)
      (toNat_or_shift t₁ (s := 6) (k := 6) rfl (by decide)
      (toNat_shift l (n := 0xf) (m := 4) (s := 12) (k := 12) rfl rfl (by decide) (by decide)))).trans ?_
    omega
  · rw [if_neg (by omega), if_neg (by omega), if_neg (by omega), if_pos (by omega)]
    refine Prod.ext (hvalue ?_) rfl
    refine (toNat_or_shift t₃ (s := 0) (k := 0) rfl (by decide)
      (toNat_or_shift t₂ (s := 6) (k := 6) rfl (by decide)
      (toNat_or_shift t₁ (s := 12) (k := 12) rfl (by decide)
      (toNat_shift l (n := 0x7) (m := 3) (s := 18) (k := 18) rfl rfl (by decide) (by decide))))).trans ?_
    omega
  · rw [if_neg (by omega), if_neg (by omega), if_neg (by omega), if_neg (by omega), if_pos (by omega)]
    refine Prod.ext (hvalue ?_) rfl
    refine (toNat_or_shift t₄ (s := 0) (k := 0) rfl (by decide)
      (toNat_or_shift t₃ (s := 6) (k := 6) rfl (by decide)
      (toNat_or_shift t₂ (s := 12) (k := 12) rfl (by decide)
      (toNat_or_shift t₁ (s := 18) (k := 18) rfl (by decide)
      (toNat_shift l (n := 0x3) (m := 2) (s := 24) (k := 24) rfl rfl (by decide) (by decide)))))).trans ?_
    omega
  · rw [if_neg (by omega), if_neg (by omega), if_neg (by omega), if_neg (by omega), if_neg (by omega),
      if_pos (by omega)]
    refine Prod.ext (hvalue ?_) rfl
    refine (toNat_or_shift t₅ (s := 0) (k := 0) rfl (by decide)
      (toNat_or_shift t₄ (s := 6) (k := 6) rfl (by decide)
      (toNat_or_shift t₃ (s := 12) (k := 12) rfl (by decide)
      (toNat_or_shift t₂ (s := 18) (k := 18) rfl (by decide)
      (toNat_or_shift t₁ (s := 24) (k := 24) rfl (by decide)
      (toNat_shift l (n := 0x1) (m := 1) (s := 30) (k := 30) rfl rfl (by decide) (by decide))))))).trans ?_
    omega
  · omega

/-- The length of a character that has the form. -/
theorem charLen_form (h : Form l ts) (t : Bytes) : charLen (l :: (ts ++ t)) = ts.length + 1 := by
  obtain ⟨hlen, hge, hlt, hts⟩ := h
  rcases ts with _ | ⟨t₁, _ | ⟨t₂, _ | ⟨t₃, _ | ⟨t₄, _ | ⟨t₅, _ | ⟨t₆, ts⟩⟩⟩⟩⟩⟩ <;>
    simp only [List.length_nil, List.length_cons, Nat.zero_add, leadBase, leadSize,
      List.forall_mem_cons] at hlen hge hlt hts ⊢ <;>
    simp only [charLen, Bytes.at, List.getD_cons_zero, List.getD_cons_succ, List.cons_append, cont, and80, andE0,
      andF0, andF8, andFC, andFE, andC0, Bool.and_eq_true, decide_eq_true_eq]
  · rw [if_pos (by omega)]
  · rw [if_neg (by omega), if_pos (by omega)]
  · rw [if_neg (by omega), if_neg (by omega), if_pos (by omega)]
  · rw [if_neg (by omega), if_neg (by omega), if_neg (by omega), if_pos (by omega)]
  · rw [if_neg (by omega), if_neg (by omega), if_neg (by omega), if_neg (by omega), if_pos (by omega)]
  · rw [if_neg (by omega), if_neg (by omega), if_neg (by omega), if_neg (by omega), if_neg (by omega),
      if_pos (by omega)]
  · omega

/-! ### Writing a character -/

theorem outByte_eq {base s n : UInt32} {b k m : ℕ} (c : UInt32) (hb : base.toNat = b) (hs : s.toNat = k)
    (hk : k < 32) (hn : n.toNat = 2 ^ m - 1) :
    outByte base c s n = UInt8.ofNat (b + c.toNat / 2 ^ k % 2 ^ m) := by
  have hlt : c.toNat / 2 ^ k % 2 ^ m < 2 ^ m := Nat.mod_lt _ (Nat.pow_pos (by decide))
  apply UInt8.toNat_inj.mp
  rw [outByte, UInt32.toNat_toUInt8, UInt32.toNat_add, UInt32.toNat_and, UInt32.toNat_shiftRight, hb, hs, hn,
    Nat.mod_eq_of_lt hk, Nat.shiftRight_eq_div_pow, Nat.and_two_pow_sub_one_eq_mod, UInt8.toNat_ofNat']
  generalize c.toNat / 2 ^ k % 2 ^ m = d at hlt ⊢
  omega

theorem outByte_trail (c : UInt32) {s : UInt32} {k : ℕ} (hs : s.toNat = k) (hk : k < 32) :
    outByte 0x80 c s 0x3F = UInt8.ofNat (0x80 + c.toNat / 2 ^ k % 64) :=
  outByte_eq (m := 6) c rfl hs hk rfl

/-- The limits of the six lengths. -/
theorem ucs4CharLen_cases (c : UInt32) :
    (c.toNat < 0x80 ∧ ucs4CharLen c = 1) ∨ (0x80 ≤ c.toNat ∧ c.toNat < 0x800 ∧ ucs4CharLen c = 2) ∨
      (0x800 ≤ c.toNat ∧ c.toNat < 0x10000 ∧ ucs4CharLen c = 3) ∨
      (0x10000 ≤ c.toNat ∧ c.toNat < 0x200000 ∧ ucs4CharLen c = 4) ∨
      (0x200000 ≤ c.toNat ∧ c.toNat < 0x8000000 ∧ ucs4CharLen c = 5) ∨
      (0x8000000 ≤ c.toNat ∧ ucs4CharLen c = 6) := by
  have h80 : c < 0x80 ↔ c.toNat < 0x80 := Iff.rfl
  have h800 : c < 0x800 ↔ c.toNat < 0x800 := Iff.rfl
  have h10000 : c < 0x10000 ↔ c.toNat < 0x10000 := Iff.rfl
  have h200000 : c < 0x200000 ↔ c.toNat < 0x200000 := Iff.rfl
  have h8000000 : c < 0x8000000 ↔ c.toNat < 0x8000000 := Iff.rfl
  simp only [ucs4CharLen, h80, h800, h10000, h200000, h8000000]
  split_ifs <;> omega

/-- The number of continuation bytes that are written. -/
def trailing (c : UInt32) : ℕ := ucs4CharLen c - 1

/-- What the bytes that are written have room for. -/
def written (c : UInt32) : ℕ := c.toNat % (leadSize (trailing c) * 64 ^ trailing c)

/-- **Writing a character** writes the form of its low bits. -/
theorem ucs4ToUtf8_form (c : UInt32) : trailing c ≤ 5 ∧ ucs4CharLen c = trailing c + 1 ∧
    ucs4ToUtf8 c = (trailing c + 1, lead (trailing c) (written c) :: trail (trailing c) (written c)) := by
  have hlt := c.toNat_lt
  rw [written, trailing, ucs4CharLen, ucs4ToUtf8]
  split
  · next h =>
    have hc : c.toNat < 0x80 := h
    refine ⟨by decide, rfl, congrArg (Prod.mk 1) (congrArg (List.cons · []) ?_)⟩
    apply UInt8.toNat_inj.mp
    simp only [lead, leadBase, leadSize]
    rw [UInt32.toNat_toUInt8, UInt32.toNat_and, UInt8.toNat_ofNat',
      show (0xFF : UInt32).toNat = 2 ^ 8 - 1 from rfl, Nat.and_two_pow_sub_one_eq_mod]
    omega
  · split
    · refine ⟨by decide, rfl, ?_⟩
      rw [outByte_eq (b := 0xC0) (k := 6) (m := 5) c rfl rfl (by decide) rfl,
        outByte_trail (k := 0) c rfl (by decide)]
      simp only [Nat.reduceSub, lead, leadBase, leadSize, trail, digits, List.map_cons, List.map_nil, Prod.mk.injEq,
        List.cons.injEq, true_and, and_true]
      refine ⟨congrArg _ ?_, congrArg _ ?_⟩ <;> omega
    · split
      · refine ⟨by decide, rfl, ?_⟩
        rw [outByte_eq (b := 0xE0) (k := 12) (m := 4) c rfl rfl (by decide) rfl,
          outByte_trail (k := 6) c rfl (by decide), outByte_trail (k := 0) c rfl (by decide)]
        simp only [Nat.reduceSub, lead, leadBase, leadSize, trail, digits, List.map_cons, List.map_nil, Prod.mk.injEq,
          List.cons.injEq, true_and, and_true]
        refine ⟨congrArg _ ?_, congrArg _ ?_, congrArg _ ?_⟩ <;> omega
      · split
        · refine ⟨by decide, rfl, ?_⟩
          rw [outByte_eq (b := 0xF0) (k := 18) (m := 3) c rfl rfl (by decide) rfl,
            outByte_trail (k := 12) c rfl (by decide), outByte_trail (k := 6) c rfl (by decide),
            outByte_trail (k := 0) c rfl (by decide)]
          simp only [Nat.reduceSub, lead, leadBase, leadSize, trail, digits, List.map_cons, List.map_nil,
            Prod.mk.injEq, List.cons.injEq, true_and, and_true]
          refine ⟨congrArg _ ?_, congrArg _ ?_, congrArg _ ?_, congrArg _ ?_⟩ <;> omega
        · split
          · refine ⟨by decide, rfl, ?_⟩
            rw [outByte_eq (b := 0xF8) (k := 24) (m := 2) c rfl rfl (by decide) rfl,
              outByte_trail (k := 18) c rfl (by decide), outByte_trail (k := 12) c rfl (by decide),
              outByte_trail (k := 6) c rfl (by decide), outByte_trail (k := 0) c rfl (by decide)]
            simp only [Nat.reduceSub, lead, leadBase, leadSize, trail, digits, List.map_cons, List.map_nil,
              Prod.mk.injEq, List.cons.injEq, true_and, and_true]
            refine ⟨congrArg _ ?_, congrArg _ ?_, congrArg _ ?_, congrArg _ ?_, congrArg _ ?_⟩ <;> omega
          · refine ⟨by decide, rfl, ?_⟩
            rw [outByte_eq (b := 0xFC) (k := 30) (m := 1) c rfl rfl (by decide) rfl,
              outByte_trail (k := 24) c rfl (by decide), outByte_trail (k := 18) c rfl (by decide),
              outByte_trail (k := 12) c rfl (by decide), outByte_trail (k := 6) c rfl (by decide),
              outByte_trail (k := 0) c rfl (by decide)]
            simp only [Nat.reduceSub, lead, leadBase, leadSize, trail, digits, List.map_cons, List.map_nil,
              Prod.mk.injEq, List.cons.injEq, true_and, and_true]
            refine ⟨congrArg _ ?_, congrArg _ ?_, congrArg _ ?_, congrArg _ ?_, congrArg _ ?_, congrArg _ ?_⟩ <;>
              omega

/-! ### Reading what was written -/

theorem written_lt (c : UInt32) : written c < leadSize (trailing c) * 64 ^ trailing c := by
  refine Nat.mod_lt _ (Nat.mul_pos ?_ (Nat.pow_pos (by decide)))
  rcases trailing c with _ | _ | _ | _ | _ | k <;> simp [leadSize]

theorem form_written (c : UInt32) :
    Form (lead (trailing c) (written c)) (trail (trailing c) (written c)) :=
  form_lead_trail (ucs4ToUtf8_form c).1 (written_lt c)

theorem ucs4ToUtf8_bytes (c : UInt32) :
    (ucs4ToUtf8 c).2 = lead (trailing c) (written c) :: trail (trailing c) (written c) :=
  congrArg Prod.snd (ucs4ToUtf8_form c).2.2

/-- The number that is returned is that of the bytes. -/
theorem ucs4ToUtf8_length (c : UInt32) :
    (ucs4ToUtf8 c).1 = ucs4CharLen c ∧ (ucs4ToUtf8 c).2.length = ucs4CharLen c := by
  obtain ⟨-, hlen, heq⟩ := ucs4ToUtf8_form c
  rw [heq, hlen]
  exact ⟨rfl, congrArg Nat.succ (length_trail ..)⟩

theorem getChar_ucs4ToUtf8 (c : UInt32) (t : Bytes) :
    getChar ((ucs4ToUtf8 c).2 ++ t) = (UInt32.ofNat (written c), t) := by
  have hget := getChar_form (form_written c) t
  rw [value_lead_trail (written_lt c)] at hget
  rw [ucs4ToUtf8_bytes, List.cons_append]
  exact hget

theorem charLen_ucs4ToUtf8 (c : UInt32) (t : Bytes) : charLen ((ucs4ToUtf8 c).2 ++ t) = ucs4CharLen c := by
  have hlen := charLen_form (form_written c) t
  rw [length_trail] at hlen
  rw [ucs4ToUtf8_bytes, List.cons_append, (ucs4ToUtf8_form c).2.1]
  exact hlen

/-- A character other than zero does not start with the terminator. -/
theorem at_ucs4ToUtf8 {c : UInt32} (hc : c ≠ 0) (t : Bytes) : (((ucs4ToUtf8 c).2 ++ t).at 0 == 0) = false := by
  have hc' : c.toNat ≠ 0 := fun h => hc (UInt32.toNat_inj.mp h)
  have hform := form_written c
  have hge := hform.lead_ge
  rw [length_trail] at hge
  have hpos : (lead (trailing c) (written c)).toNat ≠ 0 := by
    by_cases hk : trailing c = 0
    · have hlt : c.toNat < 0x80 := by
        have hlen := (ucs4ToUtf8_form c).2.1
        have hcases := ucs4CharLen_cases c
        omega
      rw [toNat_lead (written_lt c), written, hk]
      simp only [leadSize, leadBase]
      omega
    · have hbase : 0 < leadBase (trailing c) := by
        rcases hk' : trailing c with _ | _ | _ | _ | _ | k
        · exact absurd hk' hk
        all_goals simp [leadBase]
      omega
  rw [ucs4ToUtf8_bytes, List.cons_append, Bytes.at, List.getD_cons_zero, beq_eq_false_iff_ne]
  intro h
  rw [h] at hpos
  exact hpos rfl

/-- **Iterating over what was written** reads every character that was written, up to the terminator. -/
theorem charsFrom_writeChars (rest : Bytes) : ∀ (cs : List UInt32) (fuel : ℕ), (∀ c ∈ cs, c ≠ 0) →
    cs.length ≤ fuel →
    charsFrom fuel (writeChars cs ++ 0 :: rest) = (cs.map fun c => UInt32.ofNat (written c), 0 :: rest)
  | [], 0, _, _ => rfl
  | [], fuel + 1, _, _ => rfl
  | c :: cs, 0, _, hf => absurd hf (Nat.not_succ_le_zero _)
  | c :: cs, fuel + 1, hcs, hf => by
    have ih := charsFrom_writeChars rest cs fuel (fun c' hc' => hcs c' (List.mem_cons_of_mem c hc'))
      (Nat.le_of_succ_le_succ hf)
    have hsplit : writeChars (c :: cs) ++ 0 :: rest = (ucs4ToUtf8 c).2 ++ (writeChars cs ++ 0 :: rest) := by
      rw [writeChars, List.flatMap_cons, List.append_assoc]
      rfl
    rw [hsplit, charsFrom, at_ucs4ToUtf8 (hcs c List.mem_cons_self), if_neg Bool.false_ne_true,
      getChar_ucs4ToUtf8]
    dsimp only
    rw [ih]
    rfl

/-- There are at least as many bytes as characters. -/
theorem length_le_writeChars (cs : List UInt32) : cs.length ≤ (writeChars cs).length := by
  induction cs with
  | nil => exact Nat.le_refl _
  | cons c cs ih =>
    have hlen := (ucs4ToUtf8_form c).2.1
    rw [writeChars, List.flatMap_cons, List.length_append, (ucs4ToUtf8_length c).2, List.length_cons]
    have hih : cs.length ≤ (cs.flatMap fun c => (ucs4ToUtf8 c).2).length := ih
    omega

theorem chars_writeChars {cs : List UInt32} (hcs : ∀ c ∈ cs, c ≠ 0) (rest : Bytes) :
    chars (writeChars cs ++ 0 :: rest) = (cs.map fun c => UInt32.ofNat (written c), 0 :: rest) := by
  refine charsFrom_writeChars rest cs _ hcs ?_
  rw [List.length_append]
  exact Nat.le_trans (length_le_writeChars cs) (Nat.le_add_right ..)

/-- The last five-byte character that has room is `0x3FFFFFF`. -/
theorem written_eq_iff {c : UInt32} (hc : c < 0x80000000) :
    UInt32.ofNat (written c) = c ↔ ¬ (0x4000000 ≤ c ∧ c < 0x8000000) := by
  have hlt : c.toNat < 0x80000000 := hc
  have hiff : UInt32.ofNat (written c) = c ↔ written c = c.toNat := by
    rw [← UInt32.toNat_inj, UInt32.toNat_ofNat']
    have hle : written c ≤ c.toNat := Nat.mod_le ..
    omega
  have hbad : (0x4000000 ≤ c ∧ c < 0x8000000) ↔ 0x4000000 ≤ c.toNat ∧ c.toNat < 0x8000000 := Iff.rfl
  rw [hiff, hbad]
  rcases ucs4CharLen_cases c with
    ⟨h, hlen⟩ | ⟨h, h', hlen⟩ | ⟨h, h', hlen⟩ | ⟨h, h', hlen⟩ | ⟨h, h', hlen⟩ | ⟨h, hlen⟩
  all_goals
    simp only [written, trailing, hlen, Nat.reduceSub, leadSize]
    omega

/-- Reading what was written gives it back, and the three lengths agree. -/
structure RoundTrips (cs : List UInt32) : Prop where
  chars : ∀ rest, Utf8.chars (writeChars cs ++ 0 :: rest) = (cs, 0 :: rest)
  written : ∀ c ∈ cs, (ucs4ToUtf8 c).1 = ucs4CharLen c ∧ (ucs4ToUtf8 c).2.length = ucs4CharLen c
  charLen : ∀ c ∈ cs, ∀ t, Utf8.charLen ((ucs4ToUtf8 c).2 ++ t) = ucs4CharLen c

/-- **Round trip** of the characters below `0x80000000`: all but those from
`0x4000000` to `0x7FFFFFF`, whose highest bit is lost. -/
theorem roundTrips_iff (cs : List UInt32) (hcs : ∀ c ∈ cs, 1 ≤ c ∧ c < 0x80000000) :
    RoundTrips cs ↔ ∀ c ∈ cs, ¬ (0x4000000 ≤ c ∧ c < 0x8000000) := by
  have hne : ∀ c ∈ cs, c ≠ 0 := by
    rintro c hc rfl
    exact absurd (hcs 0 hc).1 (by decide)
  constructor
  · intro h c hc
    have hchars := congrArg Prod.fst ((h.chars []).symm.trans (chars_writeChars hne []))
    refine (written_eq_iff (hcs c hc).2).mp ?_
    have hmap : cs.map (fun c => UInt32.ofNat (Utf8.written c)) = cs.map id := by
      rw [List.map_id]
      exact hchars.symm
    exact List.map_inj_left.mp hmap c hc
  · intro hall
    refine ⟨fun rest => ?_, fun c _ => ucs4ToUtf8_length c, fun c _ => charLen_ucs4ToUtf8 c⟩
    have hmap : cs.map (fun c => UInt32.ofNat (Utf8.written c)) = cs := by
      refine (List.map_congr_left fun c hc => ?_).trans (List.map_id _)
      exact (written_eq_iff (hcs c hc).2).mpr (hall c hc)
    rw [chars_writeChars hne, hmap]

/-- The limits of the six lengths. -/
theorem roundTrips_iff_limits :
    RoundTrips [0x7F, 0x80, 0x7FF, 0x800, 0xFFFF, 0x10000, 0x1FFFFF, 0x200000, 0x3FFFFFF, 0x8000000, 0x7FFFFFFF] ↔
      ∀ c ∈ [(0x7F : UInt32), 0x80, 0x7FF, 0x800, 0xFFFF, 0x10000, 0x1FFFFF, 0x200000, 0x3FFFFFF, 0x8000000,
        0x7FFFFFFF], ¬ (0x4000000 ≤ c ∧ c < 0x8000000) :=
  roundTrips_iff _ (by simp)

/-- Five bytes are written for `0x4000000`, and zero is read. -/
theorem not_roundTrips_fiveBytes : ¬ RoundTrips [0x4000000] :=
  fun h => absurd (congrArg Prod.fst (h.chars [])) (by decide)

end Utf8

end Fcitx
