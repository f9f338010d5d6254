/-
# Checking a string

`fcitx_utf8_check_string` accepts the strings that `fcitx_ucs4_to_utf8` writes
for valid characters, and no others. The checker reads a character of any form,
and the test of its length leaves the shortest one, which is what the writer
uses below `0x4000000`.

Key theorems: `Utf8.getCharExtended_form`, `Utf8.getCharExtended_cases`,
`Utf8.checkFrom_iff`, `Utf8.checkString_iff`.
-/
import Fcitx.Utils.Utf8Codec
import Mathlib.Data.List.GetD
import Mathlib.Data.Nat.Bitwise

namespace Fcitx

namespace Utf8

open Sextets

variable {l : UInt8} {ts t s : Bytes} {c : UInt32}

/-! ### Reading a character with its length -/

/-- What the masks leave of a byte. -/
theorem mask_values (b : UInt8) :
    (b.toUInt32 &&& 0xc0 != 0x80) = !decide (0x80 ≤ b.toNat ∧ b.toNat < 0xC0) ∧
    (b.toUInt32 &&& 0x3f).toNat = b.toNat % 64 ∧
    (b.toUInt32 &&& 0x1f).toNat = b.toNat % 32 ∧
    (b.toUInt32 &&& 0x0f).toNat = b.toNat % 16 ∧
    (b.toUInt32 &&& 0x07).toNat = b.toNat % 8 ∧
    (b.toUInt32 &&& 0x03).toNat = b.toNat % 4 ∧
    (b.toUInt32 &&& 0x01).toNat = b.toNat % 2 :=
  forall_byte (by decide +kernel) b

theorem continues_iff (b : UInt8) :
    (b.toUInt32 &&& 0xc0 != 0x80) = !decide (0x80 ≤ b.toNat ∧ b.toNat < 0xC0) :=
  (mask_values b).1

theorem toNat_and_3f (b : UInt8) : (b.toUInt32 &&& 0x3f).toNat = b.toNat % 64 := (mask_values b).2.1

/-- One more continuation byte. -/
theorem toNat_extend {wc : UInt32} {b : UInt8} (hb : 0x80 ≤ b.toNat ∧ b.toNat < 0xC0)
    (hlt : wc.toNat * 64 + (b.toNat - 0x80) < 2 ^ 32) :
    (wc <<< 6 ||| (b.toUInt32 &&& 0x3f)).toNat = wc.toNat * 64 + (b.toNat - 0x80) := by
  have hshift : (wc <<< 6).toNat = 2 ^ 6 * wc.toNat := by
    rw [UInt32.toNat_shiftLeft, show (6 : UInt32).toNat % 32 = 6 from rfl, Nat.shiftLeft_eq,
      Nat.mod_eq_of_lt (by omega), Nat.mul_comm]
  rw [UInt32.toNat_or, hshift, toNat_and_3f, ← Nat.two_pow_add_eq_or_of_lt (Nat.mod_lt _ (by decide))]
  omega

/-- The loop over continuation bytes. -/
theorem extendLoop_continues {ts : Bytes} (hts : ∀ b ∈ ts, 0x80 ≤ b.toNat ∧ b.toNat < 0xC0) (pre : Bytes)
    {wc : UInt32} (hwc : join wc.toNat (ts.map fun t => t.toNat - 0x80) < 2 ^ 32) (t : Bytes) :
    extendLoop (pre ++ (ts ++ t)) ts.length pre.length wc =
      .ok (UInt32.ofNat (join wc.toNat (ts.map fun t => t.toNat - 0x80))) := by
  induction ts generalizing pre wc with
  | nil =>
    show Except.ok wc = Except.ok (UInt32.ofNat wc.toNat)
    rw [UInt32.ofNat_toNat]
  | cons b ts ih =>
    have hb := hts b List.mem_cons_self
    have hle := le_join (wc.toNat * 64 + (b.toNat - 0x80)) (ts.map fun t => t.toNat - 0x80)
    rw [List.map_cons, join_cons] at hwc ⊢
    have hnext := toNat_extend hb (Nat.lt_of_le_of_lt hle hwc)
    have hat : (pre ++ (b :: ts ++ t)).at pre.length = b := by
      rw [Bytes.at, List.getD_eq_getElem?_getD, List.getElem?_append_right (Nat.le_refl _), Nat.sub_self]
      rfl
    have hwc' : join (wc <<< 6 ||| (b.toUInt32 &&& 0x3f)).toNat (ts.map fun t => t.toNat - 0x80) < 2 ^ 32 := by
      rw [hnext]
      exact hwc
    have hloop := ih (fun b' hb' => hts b' (List.mem_cons_of_mem b hb')) (pre ++ [b]) hwc'
    rw [hnext, List.length_append, List.length_singleton, List.append_assoc, List.singleton_append] at hloop
    rw [List.length_cons, extendLoop, hat, continues_iff, decide_eq_true hb, Bool.not_true, if_neg Bool.false_ne_true]
    exact hloop

/-- The loop stops, or all of its bytes continue the character. -/
theorem extendLoop_cases (s : Bytes) (n i : ℕ) (wc : UInt32) (hi : i ≤ s.length) :
    (∃ e, extendLoop s n i wc = .error e ∧ (e = -1 ∨ e = -2)) ∨
      ∃ ts t, s.drop i = ts ++ t ∧ ts.length = n ∧ ∀ b ∈ ts, 0x80 ≤ b.toNat ∧ b.toNat < 0xC0 := by
  induction n generalizing i wc with
  | zero => exact Or.inr ⟨[], s.drop i, rfl, rfl, fun _ hb => absurd hb List.not_mem_nil⟩
  | succ n ih =>
    rw [extendLoop, continues_iff]
    by_cases hb : 0x80 ≤ (s.at i).toNat ∧ (s.at i).toNat < 0xC0
    · have hlt : i < s.length := by
        by_contra hge
        rw [Bytes.at, List.getD_eq_default _ _ (by omega)] at hb
        exact absurd hb (by decide)
      have hdrop : s.drop i = s.at i :: s.drop (i + 1) := by
        rw [List.drop_eq_getElem_cons hlt, Bytes.at, List.getD_eq_getElem _ _ hlt]
      rw [decide_eq_true hb, Bool.not_true, if_neg Bool.false_ne_true]
      rcases ih (i + 1) (wc <<< 6 ||| ((s.at i).toUInt32 &&& 0x3f)) hlt with herr | ⟨ts, t, hts, hlen, hall⟩
      · exact Or.inl herr
      · refine Or.inr ⟨s.at i :: ts, t, ?_, congrArg Nat.succ hlen, ?_⟩
        · rw [hdrop, hts]
          rfl
        · exact List.forall_mem_cons.mpr ⟨hb, hall⟩
    · rw [decide_eq_false hb, Bool.not_false, if_pos rfl]
      refine Or.inl ⟨_, rfl, ?_⟩
      split
      · exact Or.inl rfl
      · exact Or.inr rfl

theorem extend_eq (s : Bytes) {len : ℕ} (hlen : len ≤ 6) (wc : UInt32) :
    extend s 6 len wc = match extendLoop s (len - 1) 1 wc with
      | .error wc => wc
      | .ok wc => if utf8Length wc != len then -1 else wc := by
  have hle : ¬ (0 ≤ (6 : ℤ) ∧ (6 : ℤ) < len) := by omega
  rw [extend]
  exact if_neg hle

/-- A character that has the form is read, when it is not longer than it must be. -/
theorem extend_form (hts : ∀ b ∈ ts, 0x80 ≤ b.toNat ∧ b.toNat < 0xC0) (hlen : ts.length ≤ 5) {wc : UInt32}
    (hwc : wc.toNat = l.toNat - leadBase ts.length) (hv : value l ts < 2 ^ 32) (t : Bytes) :
    extend (l :: (ts ++ t)) 6 (ts.length + 1) wc =
      if utf8Length (UInt32.ofNat (value l ts)) = ts.length + 1 then UInt32.ofNat (value l ts) else -1 := by
  have hjoin : join wc.toNat (ts.map fun t => t.toNat - 0x80) < 2 ^ 32 := by
    rw [hwc]
    exact hv
  have hloop := extendLoop_continues hts [l] hjoin t
  rw [hwc] at hloop
  have hloop' : extendLoop (l :: (ts ++ t)) ts.length 1 wc = .ok (UInt32.ofNat (value l ts)) := hloop
  rw [extend_eq _ (by omega), Nat.add_sub_cancel, hloop']
  dsimp only
  by_cases hu : utf8Length (UInt32.ofNat (value l ts)) = ts.length + 1
  · rw [if_pos hu, if_neg]
    rw [hu]
    simp
  · rw [if_neg hu, if_pos]
    simpa using hu

theorem extend_cases (s' : Bytes) {k : ℕ} (hk : k ≤ 5) (wc : UInt32) :
    extend (l :: s') 6 (k + 1) wc = -1 ∨ extend (l :: s') 6 (k + 1) wc = -2 ∨
      ∃ ts t, s' = ts ++ t ∧ ts.length = k ∧ ∀ b ∈ ts, 0x80 ≤ b.toNat ∧ b.toNat < 0xC0 := by
  rw [extend_eq _ (by omega), Nat.add_sub_cancel]
  rcases extendLoop_cases (l :: s') k 1 wc (by simp) with ⟨e, he, hcase⟩ | hcontinues
  · rw [he]
    rcases hcase with rfl | rfl
    · exact Or.inl rfl
    · exact Or.inr (Or.inl rfl)
  · exact Or.inr (Or.inr hcontinues)

/-- What is left of a lead byte, by its length. -/
theorem toNat_lead_bits (b : UInt8) : (b.toUInt32 &&& 0x1f).toNat = b.toNat % 32 ∧
    (b.toUInt32 &&& 0x0f).toNat = b.toNat % 16 ∧ (b.toUInt32 &&& 0x07).toNat = b.toNat % 8 ∧
    (b.toUInt32 &&& 0x03).toNat = b.toNat % 4 ∧ (b.toUInt32 &&& 0x01).toNat = b.toNat % 2 :=
  (mask_values b).2.2

/-- **The reader with a length** reads a character that has the form, and is as
short as it can be. -/
theorem getCharExtended_form (h : Form l ts) (t : Bytes) :
    getCharExtended (l :: (ts ++ t)) 6 =
      if utf8Length (UInt32.ofNat (value l ts)) = ts.length + 1 then UInt32.ofNat (value l ts) else -1 := by
  have hv := value_lt h
  obtain ⟨hlen, hge, hlt, hts⟩ := h
  obtain ⟨h1f, h0f, h07, h03, h01⟩ := toNat_lead_bits l
  have hwc : ∀ n : UInt32, l.toUInt32 < n ↔ l.toNat < n.toNat := fun _ => Iff.rfl
  rw [getCharExtended, Bytes.at, List.getD_cons_zero]
  simp only [hwc, UInt32.reduceToNat]
  rcases hk : ts.length with _ | _ | _ | _ | _ | _ | k <;>
    simp only [hk, leadBase, leadSize] at hge hlt hv
  · obtain rfl : ts = [] := List.length_eq_zero_iff.mp hk
    have hvalue : value l [] = l.toNat := rfl
    have hlow : UInt32.ofNat l.toNat < 0x80 := by
      rw [UInt32.lt_iff_toNat_lt, UInt32.toNat_ofNat']
      simp only [UInt32.reduceToNat]
      omega
    rw [if_pos (by omega), hvalue, utf8Length, if_pos hlow, if_pos rfl]
    apply UInt32.toNat_inj.mp
    rw [UInt8.toNat_toUInt32, UInt32.toNat_ofNat']
    omega
  · have hbits : (l.toUInt32 &&& 0x1f).toNat = l.toNat - leadBase ts.length := by
      rw [h1f, hk]
      exact (by omega : l.toNat % 32 = l.toNat - 0xC0)
    have hform := extend_form (l := l) hts hlen hbits (by omega) t
    rw [hk] at hform
    rw [if_neg (by omega), if_neg (by omega), if_pos (by omega), hform]
  · have hbits : (l.toUInt32 &&& 0x0f).toNat = l.toNat - leadBase ts.length := by
      rw [h0f, hk]
      exact (by omega : l.toNat % 16 = l.toNat - 0xE0)
    have hform := extend_form (l := l) hts hlen hbits (by omega) t
    rw [hk] at hform
    rw [if_neg (by omega), if_neg (by omega), if_neg (by omega), if_pos (by omega), hform]
  · have hbits : (l.toUInt32 &&& 0x07).toNat = l.toNat - leadBase ts.length := by
      rw [h07, hk]
      exact (by omega : l.toNat % 8 = l.toNat - 0xF0)
    have hform := extend_form (l := l) hts hlen hbits (by omega) t
    rw [hk] at hform
    rw [if_neg (by omega), if_neg (by omega), if_neg (by omega), if_neg (by omega), if_pos (by omega), hform]
  · have hbits : (l.toUInt32 &&& 0x03).toNat = l.toNat - leadBase ts.length := by
      rw [h03, hk]
      exact (by omega : l.toNat % 4 = l.toNat - 0xF8)
    have hform := extend_form (l := l) hts hlen hbits (by omega) t
    rw [hk] at hform
    rw [if_neg (by omega), if_neg (by omega), if_neg (by omega), if_neg (by omega), if_neg (by omega),
      if_pos (by omega), hform]
  · have hbits : (l.toUInt32 &&& 0x01).toNat = l.toNat - leadBase ts.length := by
      rw [h01, hk]
      exact (by omega : l.toNat % 2 = l.toNat - 0xFC)
    have hform := extend_form (l := l) hts hlen hbits (by omega) t
    rw [hk] at hform
    rw [if_neg (by omega), if_neg (by omega), if_neg (by omega), if_neg (by omega), if_neg (by omega),
      if_neg (by omega), if_pos (by omega), hform]
  · omega

/-- The reader with a length fails, or the string starts with a form. -/
theorem getCharExtended_cases (l : UInt8) (s : Bytes) :
    getCharExtended (l :: s) 6 = -1 ∨ getCharExtended (l :: s) 6 = -2 ∨
      ∃ ts t, s = ts ++ t ∧ Form l ts := by
  have hwc : ∀ n : UInt32, l.toUInt32 < n ↔ l.toNat < n.toNat := fun _ => Iff.rfl
  -- the byte is a lead byte for `k` continuation bytes
  have hlead : ∀ k ≤ 5, ∀ wc, leadBase k ≤ l.toNat → l.toNat < leadBase k + leadSize k →
      extend (l :: s) 6 (k + 1) wc = -1 ∨ extend (l :: s) 6 (k + 1) wc = -2 ∨
        ∃ ts t, s = ts ++ t ∧ Form l ts := by
    intro k hk wc hge hlt
    rcases extend_cases (l := l) s hk wc with h | h | ⟨ts, t, hs, hlen, hts⟩
    · exact Or.inl h
    · exact Or.inr (Or.inl h)
    · exact Or.inr (Or.inr ⟨ts, t, hs, ⟨hlen ▸ hk, hlen ▸ hge, hlen ▸ hlt, hts⟩⟩)
  rw [getCharExtended, Bytes.at, List.getD_cons_zero]
  simp only [hwc, UInt32.reduceToNat]
  split
  · next h =>
    refine Or.inr (Or.inr ⟨[], s, rfl, by simp, Nat.zero_le _, ?_, fun _ hb => absurd hb List.not_mem_nil⟩)
    simp only [List.length_nil, leadBase, leadSize]
    omega
  · split
    · exact Or.inl rfl
    · split
      · exact hlead 1 (by decide) _ (by simp only [leadBase]; omega) (by simp only [leadBase, leadSize]; omega)
      · split
        · exact hlead 2 (by decide) _ (by simp only [leadBase]; omega) (by simp only [leadBase, leadSize]; omega)
        · split
          · exact hlead 3 (by decide) _ (by simp only [leadBase]; omega) (by simp only [leadBase, leadSize]; omega)
          · split
            · exact hlead 4 (by decide) _ (by simp only [leadBase]; omega)
                (by simp only [leadBase, leadSize]; omega)
            · split
              · exact hlead 5 (by decide) _ (by simp only [leadBase]; omega)
                  (by simp only [leadBase, leadSize]; omega)
              · exact Or.inl rfl

/-! ### Valid characters -/

theorem lt_of_unicodeValid (h : unicodeValid c = true) : c.toNat < 0x110000 := by
  rw [unicodeValid, Bool.and_eq_true, Bool.and_eq_true, Bool.and_eq_true, decide_eq_true_iff] at h
  exact h.1.1.1

/-- The writer uses the shortest length below `0x4000000`. -/
theorem ucs4CharLen_eq (hc : c.toNat < 0x4000000) : ucs4CharLen c = utf8Length c := by
  rw [ucs4CharLen, utf8Length]
  have h1 : c < 0x4000000 := hc
  have h2 : c < 0x8000000 := Nat.lt_trans hc (by decide)
  rw [if_pos h1, if_pos h2]

theorem written_eq (hc : c.toNat < 0x4000000) : written c = c.toNat := by
  have hlt : c < 0x80000000 := Nat.lt_trans hc (by decide)
  have hnot : ¬ (0x4000000 ≤ c ∧ c < 0x8000000) := fun h => absurd hc (Nat.not_lt.mpr h.1)
  have heq := congrArg UInt32.toNat ((written_eq_iff hlt).mpr hnot)
  have hle : written c ≤ c.toNat := Nat.mod_le ..
  rw [UInt32.toNat_ofNat'] at heq
  have hbound := c.toNat_lt
  omega

/-- A form that is as short as it can be is what is written for its value. -/
theorem ucs4ToUtf8_value (h : Form l ts) (hlen : utf8Length (UInt32.ofNat (value l ts)) = ts.length + 1)
    (hv : value l ts < 0x4000000) : (ucs4ToUtf8 (UInt32.ofNat (value l ts))).2 = l :: ts := by
  have hnat : (UInt32.ofNat (value l ts)).toNat = value l ts := by
    rw [UInt32.toNat_ofNat']
    omega
  have hshort := ucs4CharLen_eq (c := UInt32.ofNat (value l ts)) (by rw [hnat]; exact hv)
  have htrailing : trailing (UInt32.ofNat (value l ts)) = ts.length := by
    rw [trailing, hshort, hlen, Nat.add_sub_cancel]
  obtain ⟨hlead, htrail⟩ := lead_trail_value h
  rw [ucs4ToUtf8_bytes, written_eq (by rw [hnat]; exact hv), htrailing, hnat, hlead, htrail]

theorem getCharValidated_eq (s : Bytes) : getCharValidated s 6 =
    if getCharExtended s 6 &&& 0x80000000 != 0 then getCharExtended s 6
    else if !unicodeValid (getCharExtended s 6) then -1 else getCharExtended s 6 := by
  rw [getCharValidated, if_neg (by decide)]

theorem high_bit (hc : c.toNat < 2 ^ 31) : (c &&& 0x80000000 != 0) = false := by
  rw [bne_eq_false_iff_eq, ← UInt32.toNat_inj, UInt32.toNat_and,
    show (0x80000000 : UInt32).toNat = 2 ^ 31 from rfl, Nat.and_two_pow, Nat.testBit_lt_two_pow hc]
  rfl

/-- A valid character is accepted. -/
theorem getCharValidated_ucs4ToUtf8 (hc : unicodeValid c = true) (t : Bytes) :
    getCharValidated ((ucs4ToUtf8 c).2 ++ t) 6 = c := by
  have hlt := lt_of_unicodeValid hc
  have hextended : getCharExtended ((ucs4ToUtf8 c).2 ++ t) 6 = c := by
    have hform := getCharExtended_form (form_written c) t
    rw [value_lead_trail (written_lt c), length_trail, written_eq (by omega), UInt32.ofNat_toNat,
      ← ucs4CharLen_eq (by omega), if_pos (ucs4ToUtf8_form c).2.1] at hform
    rw [ucs4ToUtf8_bytes, List.cons_append, written_eq (by omega)]
    exact hform
  rw [getCharValidated_eq, hextended, high_bit (by omega), hc, Bool.not_true, if_neg Bool.false_ne_true,
    if_neg Bool.false_ne_true]

/-- What is accepted is what is written for a valid character. -/
theorem getCharValidated_cases (l : UInt8) (s : Bytes) (h₁ : getCharValidated (l :: s) 6 ≠ -1)
    (h₂ : getCharValidated (l :: s) 6 ≠ -2) :
    ∃ c ts t, s = ts ++ t ∧ Form l ts ∧ unicodeValid c = true ∧ (ucs4ToUtf8 c).2 = l :: ts := by
  rw [getCharValidated_eq] at h₁ h₂
  rcases getCharExtended_cases l s with he | he | ⟨ts, t, rfl, hform⟩
  · rw [he] at h₁
    exact absurd rfl h₁
  · rw [he] at h₂
    exact absurd rfl h₂
  · rw [getCharExtended_form hform] at h₁
    by_cases hshort : utf8Length (UInt32.ofNat (value l ts)) = ts.length + 1
    · rw [if_pos hshort] at h₁
      have hv : value l ts < 2 ^ 31 := by
        refine Nat.lt_of_lt_of_le (value_lt hform) ?_
        rcases hk : ts.length with _ | _ | _ | _ | _ | _ | k
        · decide
        · decide
        · decide
        · decide
        · decide
        · decide
        · have hlen := hform.length_le
          omega
      have hnat : (UInt32.ofNat (value l ts)).toNat = value l ts := by
        rw [UInt32.toNat_ofNat']
        omega
      rw [high_bit (by rw [hnat]; exact hv), if_neg Bool.false_ne_true] at h₁
      have hvalid : unicodeValid (UInt32.ofNat (value l ts)) = true := by
        by_contra hnot
        rw [Bool.not_eq_true] at hnot
        rw [hnot] at h₁
        exact h₁ rfl
      have hlt := lt_of_unicodeValid hvalid
      rw [hnat] at hlt
      exact ⟨_, ts, t, rfl, hform, hvalid, ucs4ToUtf8_value hform hshort (by omega)⟩
    · rw [if_neg hshort] at h₁
      exact absurd rfl h₁

/-! ### The whole string -/

/-- What holds no zero ends before the terminator. -/
theorem append_eq_terminated {ts t bytes rest : Bytes} (hts : 0 ∉ ts) (h : bytes ++ 0 :: rest = ts ++ t) :
    ∃ bytes', bytes = ts ++ bytes' ∧ t = bytes' ++ 0 :: rest := by
  rcases List.append_eq_append_iff.mp h with ⟨a, rfl, ha⟩ | ⟨b, rfl, hb⟩
  · cases a with
    | nil => exact ⟨[], by simp, ha.symm⟩
    | cons z a =>
      rw [List.cons_append, List.cons.injEq] at ha
      exact absurd (List.mem_append_right _ (ha.1 ▸ List.mem_cons_self)) hts
  · exact ⟨b, rfl, hb⟩

theorem zero_notMem_form (h : Form l ts) : (0 : UInt8) ∉ ts :=
  fun h0 => absurd (h.continues 0 h0).1 (by decide)

theorem writeChars_cons (c : UInt32) (cs : List UInt32) :
    writeChars (c :: cs) = (ucs4ToUtf8 c).2 ++ writeChars cs := List.flatMap_cons

/-- **The check** accepts what is written for valid characters, and nothing else. -/
theorem checkFrom_iff (rest : Bytes) (fuel : ℕ) : ∀ bytes : Bytes, 0 ∉ bytes → bytes.length ≤ fuel →
    (checkFrom fuel (bytes ++ 0 :: rest) = true ↔
      ∃ cs, (∀ c ∈ cs, c ≠ 0 ∧ unicodeValid c = true) ∧ bytes = writeChars cs) := by
  induction fuel with
  | zero =>
    intro bytes _ hf
    rw [List.length_eq_zero_iff.mp (Nat.le_zero.mp hf)]
    exact ⟨fun _ => ⟨[], fun _ hc => absurd hc List.not_mem_nil, rfl⟩, fun _ => rfl⟩
  | succ fuel ih =>
    intro bytes h0 hf
    cases bytes with
    | nil => exact ⟨fun _ => ⟨[], fun _ hc => absurd hc List.not_mem_nil, rfl⟩, fun _ => rfl⟩
    | cons l bytes =>
      have hl : l ≠ 0 := fun h => h0 (h ▸ List.mem_cons_self)
      have hhead : (Bytes.at (l :: bytes ++ 0 :: rest) 0 == 0) = false := by
        rw [beq_eq_false_iff_ne]
        exact hl
      rw [checkFrom, hhead, if_neg Bool.false_ne_true]
      constructor
      · intro hcheck
        have hvalid : getCharValidated (l :: bytes ++ 0 :: rest) 6 ≠ -1 ∧
            getCharValidated (l :: bytes ++ 0 :: rest) 6 ≠ -2 := by
          constructor
          · intro he
            rw [he] at hcheck
            exact Bool.false_ne_true hcheck
          · intro he
            rw [he] at hcheck
            exact Bool.false_ne_true hcheck
        obtain ⟨c, ts, t, hs, hform, hc, hwrite⟩ :=
          getCharValidated_cases l (bytes ++ 0 :: rest) hvalid.1 hvalid.2
        obtain ⟨bytes', rfl, rfl⟩ := append_eq_terminated (zero_notMem_form hform) hs
        have hget : getChar (l :: (ts ++ bytes') ++ 0 :: rest) =
            (UInt32.ofNat (value l ts), bytes' ++ 0 :: rest) := by
          rw [List.cons_append, List.append_assoc]
          exact getChar_form hform _
        rw [if_neg, hget] at hcheck
        · have h0' : 0 ∉ bytes' := fun h => h0 (List.mem_cons_of_mem l (List.mem_append_right ts h))
          have hlen : bytes'.length ≤ fuel := by
            rw [List.length_cons, List.length_append] at hf
            omega
          obtain ⟨cs, hcs, rfl⟩ := (ih bytes' h0' hlen).mp hcheck
          refine ⟨c :: cs, List.forall_mem_cons.mpr ⟨⟨?_, hc⟩, hcs⟩, ?_⟩
          · -- zero would be written as the terminator
            rintro rfl
            exact hl (List.cons.inj hwrite.symm).1
          · rw [writeChars_cons, hwrite, List.cons_append]
        · rw [Bool.or_eq_true, beq_iff_eq, beq_iff_eq, not_or]
          exact hvalid
      · rintro ⟨cs, hcs, hbytes⟩
        cases cs with
        | nil => cases hbytes
        | cons c cs =>
          obtain ⟨⟨hc0, hc⟩, hcs⟩ := List.forall_mem_cons.mp hcs
          have hsplit : l :: bytes ++ 0 :: rest = (ucs4ToUtf8 c).2 ++ (writeChars cs ++ 0 :: rest) := by
            rw [hbytes, writeChars_cons, List.append_assoc]
          have hlt := lt_of_unicodeValid hc
          have hne : (c == -1 || c == -2) = false := by
            rw [Bool.or_eq_false_iff, beq_eq_false_iff_ne, beq_eq_false_iff_ne]
            constructor
            · rintro rfl
              exact absurd hlt (by decide)
            · rintro rfl
              exact absurd hlt (by decide)
          rw [hsplit, getCharValidated_ucs4ToUtf8 hc, getChar_ucs4ToUtf8,
            if_neg (by rw [hne]; exact Bool.false_ne_true)]
          rw [writeChars_cons] at hbytes
          have hlen := congrArg List.length hbytes
          rw [List.length_append, (ucs4ToUtf8_length c).2, List.length_cons, (ucs4ToUtf8_form c).2.1] at hlen
          refine (ih (writeChars cs) ?_ ?_).mpr ⟨cs, hcs, rfl⟩
          · exact fun h => h0 (hbytes ▸ List.mem_append_right _ h)
          · rw [List.length_cons] at hf
            omega

theorem checkString_writeChars_iff (bytes rest : Bytes) (h0 : 0 ∉ bytes) :
    checkString (bytes ++ 0 :: rest) = true ↔
      ∃ cs, (∀ c ∈ cs, c ≠ 0 ∧ unicodeValid c = true) ∧ bytes = writeChars cs := by
  refine checkFrom_iff rest _ bytes h0 ?_
  rw [List.length_append]
  exact Nat.le_add_right ..

/-! ### What was checked is read -/

/-- The count is that of the characters that are read. -/
theorem strlenFrom_eq : ∀ (fuel : ℕ) (s : Bytes), strlenFrom fuel s = (charsFrom fuel s).1.length
  | 0, _ => rfl
  | fuel + 1, s => by
    rw [strlenFrom, charsFrom]
    split
    · rfl
    · rw [strlenFrom_eq fuel]
      rfl

/-- What a string of valid characters is read as. -/
theorem chars_valid {cs : List UInt32} (hcs : ∀ c ∈ cs, c ≠ 0 ∧ unicodeValid c = true) (rest : Bytes) :
    chars (writeChars cs ++ 0 :: rest) = (cs, 0 :: rest) := by
  have hmap : cs.map (fun c => UInt32.ofNat (written c)) = cs := by
    refine (List.map_congr_left fun c hc => ?_).trans (List.map_id _)
    have hlt := lt_of_unicodeValid (hcs c hc).2
    rw [written_eq (by omega), UInt32.ofNat_toNat]
    rfl
  rw [chars_writeChars (fun c hc => (hcs c hc).1), hmap]

/-- **The check of a string**: it accepts what is written for non-zero valid
characters, and those are what is counted and read, up to the terminator. -/
theorem checkString_iff (bytes rest : Bytes) (h0 : 0 ∉ bytes) :
    (checkString (bytes ++ 0 :: rest) = true ↔
        ∃ cs, (∀ c ∈ cs, c ≠ 0 ∧ unicodeValid c = true) ∧ bytes = writeChars cs) ∧
      ∀ cs, (∀ c ∈ cs, c ≠ 0 ∧ unicodeValid c = true) → bytes = writeChars cs →
        strlen (bytes ++ 0 :: rest) = cs.length ∧ chars (bytes ++ 0 :: rest) = (cs, 0 :: rest) := by
  refine ⟨checkString_writeChars_iff bytes rest h0, ?_⟩
  rintro cs hcs rfl
  have hchars := chars_valid hcs rest
  refine ⟨?_, hchars⟩
  rw [strlen, strlenFrom_eq]
  exact congrArg (fun r => r.1.length) hchars

/-- The euro sign before other bytes. -/
theorem checkString_iff_euro :
    (checkString ([0xE2, 0x82, 0xAC] ++ 0 :: [0xC3]) = true ↔
        ∃ cs, (∀ c ∈ cs, c ≠ 0 ∧ unicodeValid c = true) ∧ [0xE2, 0x82, 0xAC] = writeChars cs) ∧
      ∀ cs, (∀ c ∈ cs, c ≠ 0 ∧ unicodeValid c = true) → [0xE2, 0x82, 0xAC] = writeChars cs →
        strlen ([0xE2, 0x82, 0xAC] ++ 0 :: [0xC3]) = cs.length ∧
          chars ([0xE2, 0x82, 0xAC] ++ 0 :: [0xC3]) = (cs, 0 :: [0xC3]) :=
  checkString_iff [0xE2, 0x82, 0xAC] [0xC3] (by decide)

end Utf8

end Fcitx
