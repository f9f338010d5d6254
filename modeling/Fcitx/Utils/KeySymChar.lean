/-
# Characters and their keysyms

The last resort of `fcitx_keysym_from_string` is a character. Its keysym is the
character itself, one that `gdk_unicode_to_keysym_tab` has for it, or the character
with `0x01000000` added; not each of these has a name, and which ones have is said
here by the tables alone.

Key definitions: `Key.NamedChar`, `Key.Nameless`.
Key theorems: `Key.unicodeSearch_sound`, `Key.unicodeSearch_complete`,
`Key.keysymToString_fromUnicode_iff`, `Key.keysymToString_fromString_eq_none_iff`.
-/
import Fcitx.Utils.KeySymLookup
import Fcitx.Utils.Utf8Check

namespace Fcitx
namespace Key

/-! ### Searching the table of characters -/

/-- A row of `gdk_unicode_to_keysym_tab`. -/
def unicodeRow (i : ℕ) : UInt16 × UInt16 := gdkUnicodeToKeysymTab.getD i (0, 0)

theorem pairwise_of_charsCheck {l : List ℕ} (h : charsCheck l = true) :
    l.Pairwise (· ≤ ·) ∧ ∀ v ∈ l, 0x20 ≤ v ∧ v ≠ 0x7f := by
  induction l with
  | nil => exact ⟨List.Pairwise.nil, fun _ hmem => absurd hmem List.not_mem_nil⟩
  | cons a l ih =>
    cases l with
    | nil =>
      rw [charsCheck, Bool.and_eq_true, Bool.not_eq_true'] at h
      refine ⟨List.pairwise_singleton _ a, fun v hv => ?_⟩
      rw [List.mem_singleton.mp hv]
      exact ⟨Nat.le_of_ble_eq_true h.1, Ne.symm (Nat.ne_of_beq_eq_false h.2)⟩
    | cons b l =>
      rw [charsCheck, Bool.and_eq_true, Bool.and_eq_true, Bool.and_eq_true, Bool.not_eq_true'] at h
      obtain ⟨⟨⟨hle, hlow⟩, hdel⟩, hrest⟩ := h
      obtain ⟨hpairs, hall⟩ := ih hrest
      have hab := Nat.le_of_ble_eq_true hle
      refine ⟨List.pairwise_cons.mpr ⟨fun v hv => ?_, hpairs⟩, List.forall_mem_cons.mpr
        ⟨⟨Nat.le_of_ble_eq_true hlow, Ne.symm (Nat.ne_of_beq_eq_false hdel)⟩, hall⟩⟩
      rcases List.mem_cons.mp hv with rfl | hv
      · exact hab
      · exact hab.trans ((List.pairwise_cons.mp hpairs).1 v hv)

theorem unicodeRow_eq {i : ℕ} (hi : i < 750) :
    ∃ h : i < unicodeChars.length, unicodeChars[i] = (unicodeRow i).2.toNat := by
  have hsize : i < gdkUnicodeToKeysymTab.size := by rw [sizes.unicode]; exact hi
  refine ⟨by rw [unicodeChars, List.length_map, Array.length_toList]; exact hsize, ?_⟩
  unfold unicodeChars
  rw [List.getElem_map, Array.getElem_toList, unicodeRow, Array.getD_eq_getD_getElem?,
    Array.getElem?_eq_getElem hsize, Option.getD_some]

theorem unicodeRow_le {i j : ℕ} (hij : i ≤ j) (hj : j < 750) :
    (unicodeRow i).2.toNat ≤ (unicodeRow j).2.toNat := by
  rcases Nat.lt_or_eq_of_le hij with hlt | rfl
  · obtain ⟨hi', hieq⟩ := unicodeRow_eq (hlt.trans hj)
    obtain ⟨hj', hjeq⟩ := unicodeRow_eq hj
    have hle := List.pairwise_iff_getElem.mp (pairwise_of_charsCheck tablesChecked.chars).1 i j hi' hj' hlt
    rwa [hieq, hjeq] at hle
  · exact Nat.le_refl _

/-- One round of the search. -/
theorem unicodeSearch_succ (wc : UInt32) (rounds : ℕ) (min max : ℤ) :
    unicodeSearch wc (rounds + 1) min max =
      if max < min then none
      else if (unicodeRow ((min + max) / 2).toNat).2.toNat < wc.toNat then
        unicodeSearch wc rounds ((min + max) / 2 + 1) max
      else if wc.toNat < (unicodeRow ((min + max) / 2).toNat).2.toNat then
        unicodeSearch wc rounds min ((min + max) / 2 - 1)
      else some (unicodeRow ((min + max) / 2).toNat).1.toUInt32 := by
  rw [unicodeSearch]
  simp only [gt_iff_lt, UInt32.lt_iff_toNat_lt, UInt16.toNat_toUInt32, unicodeRow]
  rfl

/-- **A keysym that is found** is that of a row of the character. -/
theorem unicodeSearch_sound {wc : UInt32} {keysym : KeySym} {rounds : ℕ} {min max : ℤ} (hmin : 0 ≤ min)
    (hmax : max < 750) (h : unicodeSearch wc rounds min max = some keysym) :
    ∃ i < 750, (unicodeRow i).2.toNat = wc.toNat ∧ (unicodeRow i).1.toUInt32 = keysym := by
  induction rounds generalizing min max with
  | zero => cases h
  | succ rounds ih =>
    rw [unicodeSearch_succ] at h
    split_ifs at h with hempty hlow hhigh
    · exact ih (by omega) hmax h
    · exact ih hmin (by omega) h
    · exact ⟨((min + max) / 2).toNat, by omega, by omega, Option.some.inj h⟩

/-- **A character that is not found** has no row. -/
theorem unicodeSearch_complete {wc : UInt32} {rounds : ℕ} {min max : ℤ} (hmin : 0 ≤ min) (hmax : max < 750)
    (hrounds : max - min < rounds) (h : unicodeSearch wc rounds min max = none) {i : ℕ} (hle : min ≤ i)
    (hge : i ≤ max) : (unicodeRow i).2.toNat ≠ wc.toNat := by
  induction rounds generalizing min max with
  | zero => omega
  | succ rounds ih =>
    rw [unicodeSearch_succ, if_neg (by omega)] at h
    -- on the other side of the middle the rows are too small, or too large
    rcases Int.lt_or_le i ((min + max) / 2) with hbefore | hbehind
    · have hrow := unicodeRow_le (i := i) (j := ((min + max) / 2).toNat) (by omega) (by omega)
      split_ifs at h with hlow hhigh
      · omega
      · exact ih hmin (by omega) (by omega) h hle (by omega)
    · have hrow := unicodeRow_le (i := ((min + max) / 2).toNat) (j := i) (by omega) (by omega)
      split_ifs at h with hlow hhigh
      · rcases Int.lt_or_eq_of_le hbehind with hlt | heq
        · exact ih (by omega) hmax (by omega) h (by omega) hge
        · have hplace : ((min + max) / 2).toNat = i := by omega
          rw [hplace] at hlow
          omega
      · omega

/-! ### Characters with a name -/

/-- A character whose keysym has a name: one of Latin-1 that is no control character, one
of the table but for the old currency signs, and one whose own keysym is among the names. -/
def NamedChar (chr : ℕ) : Prop :=
  (0x20 ≤ chr ∧ chr ≤ 0x7e) ∨ (0xa0 ≤ chr ∧ chr ≤ 0xff) ∨
    (chr ∈ unicodeChars ∧ ¬ (0x20a0 ≤ chr ∧ chr ≤ 0x20ab)) ∨
    (chr ∉ unicodeChars ∧ chr + 0x1000000 ∈ rowKeysyms)

theorem charRowsCheck_spec {packed : ℕ} {rows : List (UInt16 × UInt16)} (h : charRowsCheck packed rows = true) :
    ∀ row ∈ rows, (0x20a0 ≤ row.2.toNat ∧ row.2.toNat ≤ 0x20ab) ∨
      PackedWords.found packed row.1.toNat 13 0 2178 = true := by
  induction rows with
  | nil => exact fun _ hmem => absurd hmem List.not_mem_nil
  | cons row rows ih =>
    rw [charRowsCheck, Bool.and_eq_true, Bool.or_eq_true, Bool.and_eq_true] at h
    obtain ⟨hrow, hrest⟩ := h
    refine List.forall_mem_cons.mpr ⟨?_, ih hrest⟩
    exact hrow.imp (fun h => ⟨Nat.le_of_ble_eq_true h.1, Nat.le_of_ble_eq_true h.2⟩) fun h => h

theorem mem_rowKeysyms_of_found {v : ℕ} (h : PackedWords.found (PackedWords.pack rowKeysyms) v 13 0 2178 = true) :
    v ∈ rowKeysyms := by
  rw [← sizes.rowKeysyms] at h
  exact PackedWords.mem_of_found rowKeysyms_lt h

theorem latin_mem {chr : ℕ} (h : (0x20 ≤ chr ∧ chr ≤ 0x7e) ∨ (0xa0 ≤ chr ∧ chr ≤ 0xff)) : chr ∈ rowKeysyms := by
  refine mem_rowKeysyms_of_found (keysymsCheck_spec tablesChecked.latin chr ?_)
  rw [List.mem_append, List.mem_range'_1, List.mem_range'_1]
  omega

theorem notMem_rowKeysyms {v : ℕ} (h : (1 ≤ v ∧ v ≤ 0x1f) ∨ v = 0x7f ∨ (0x20a0 ≤ v ∧ v ≤ 0x20ab) ∨
      (0x1000001 ≤ v ∧ v ≤ 0x100007f)) : v ∉ rowKeysyms := by
  intro hmem
  exact of_decide_eq_true (List.all_eq_true.mp tablesChecked.gaps v hmem) h

/-- A row of a character that is no old currency sign. -/
theorem unicodeRow_named {i : ℕ} (hi : i < 750)
    (hcurrency : ¬ (0x20a0 ≤ (unicodeRow i).2.toNat ∧ (unicodeRow i).2.toNat ≤ 0x20ab)) :
    (unicodeRow i).1.toUInt32.toNat ∈ rowKeysyms := by
  have hsize : i < gdkUnicodeToKeysymTab.size := by rw [sizes.unicode]; exact hi
  have hmem : unicodeRow i ∈ gdkUnicodeToKeysymTab.toList := by
    rw [unicodeRow, Array.getD_eq_getD_getElem?, Array.getElem?_eq_getElem hsize, Option.getD_some]
    exact Array.getElem_mem_toList hsize
  have hfound := (charRowsCheck_spec tablesChecked.charRows _ hmem).resolve_left hcurrency
  exact mem_rowKeysyms_of_found hfound

/-- **The keysym of a character** has a name exactly when the tables say so. -/
theorem keysymToString_fromUnicode_iff {chr : UInt32} (hchr : chr.toNat < 0x110000) :
    keysymToString (keysymFromUnicode chr) = none ↔ ¬ NamedChar chr.toNat := by
  rw [keysymToString_eq_none_iff, not_iff_not]
  have hiff : ((0x0020 ≤ chr ∧ chr ≤ 0x007e) ∨ (0x00a0 ≤ chr ∧ chr ≤ 0x00ff)) ↔
      ((0x20 ≤ chr.toNat ∧ chr.toNat ≤ 0x7e) ∨ (0xa0 ≤ chr.toNat ∧ chr.toNat ≤ 0xff)) := by
    simp only [UInt32.le_iff_toNat_le]
    rfl
  unfold keysymFromUnicode NamedChar
  rw [sizes.unicode]
  by_cases hlatin : (0x0020 ≤ chr ∧ chr ≤ 0x007e) ∨ (0x00a0 ≤ chr ∧ chr ≤ 0x00ff)
  · rw [if_pos hlatin]
    have hlatin := hiff.mp hlatin
    exact iff_of_true (latin_mem hlatin) (or_assoc.mp (Or.inl hlatin))
  · rw [if_neg hlatin, ← or_assoc, or_iff_right (fun h => hlatin (hiff.mpr h))]
    cases hsearch : unicodeSearch chr (750 + 1) 0 ((750 : ℕ) - 1) with
    | some keysym =>
      obtain ⟨i, hi, hucs, hkeysym⟩ := unicodeSearch_sound (by decide) (by decide) hsearch
      have hmem : chr.toNat ∈ unicodeChars := by
        obtain ⟨hlen, hrow⟩ := unicodeRow_eq hi
        rw [← hucs, ← hrow]
        exact List.getElem_mem hlen
      rw [or_iff_left (fun h => h.1 hmem), and_iff_right hmem, Option.getD_some]
      by_cases hcurrency : 0x20a0 ≤ chr.toNat ∧ chr.toNat ≤ 0x20ab
      · have hvalue := tablesChecked.currency ⟨chr.toNat - 0x20a0, by omega⟩
        have hplace : 0x20a0 + (chr.toNat - 0x20a0) = chr.toNat := by omega
        simp only [hplace, UInt32.ofNat_toNat] at hvalue
        have heq : keysym = chr := Option.some.inj (hsearch.symm.trans hvalue)
        rw [heq]
        exact iff_of_false (notMem_rowKeysyms (by omega)) fun h => h hcurrency
      · rw [← hucs] at hcurrency ⊢
        exact iff_of_true (hkeysym ▸ unicodeRow_named hi hcurrency) hcurrency
    | none =>
      have hnot : chr.toNat ∉ unicodeChars := by
        intro hmem
        obtain ⟨i, hi, heq⟩ := List.mem_iff_getElem.mp hmem
        have hlt : i < 750 := by
          rw [unicodeChars, List.length_map, Array.length_toList, sizes.unicode] at hi
          exact hi
        obtain ⟨hlen, hrow⟩ := unicodeRow_eq hlt
        rw [hrow] at heq
        exact unicodeSearch_complete (by decide) (by decide) (by decide) hsearch (by omega) (by omega) heq
      rw [or_iff_right (fun h => hnot h.1), and_iff_right hnot, Option.getD_none]
      have hor : (chr ||| 0x01000000).toNat = chr.toNat + 0x1000000 := by
        have hadd := Nat.two_pow_add_eq_or_of_lt (i := 24) (b := chr.toNat) (by omega) 1
        rw [UInt32.toNat_or, Nat.or_comm, Nat.add_comm]
        exact hadd.symm
      rw [hor]

/-! ### Strings of one character -/

/-- A byte below `0x80` is its own keysym. -/
theorem keysymFromByte {chr : UInt32} (hchr : chr.toNat < 0x80) (t : Bytes) :
    (((Utf8.ucs4ToUtf8 chr).2 ++ t).at 0).toInt8.toInt32.toUInt32 = chr := by
  have hall : ∀ n : Fin 128, (Utf8.ucs4ToUtf8 (UInt32.ofNat n)).2 = [UInt8.ofNat n] ∧
      (UInt8.ofNat n).toInt8.toInt32.toUInt32 = UInt32.ofNat n := by decide +kernel
  obtain ⟨hbytes, hsym⟩ := hall ⟨chr.toNat, hchr⟩
  rw [UInt32.ofNat_toNat] at hbytes hsym
  rw [hbytes]
  exact hsym

/-- A string that is one character, for `fcitx_keysym_from_string`. -/
def IsChar (str : Bytes) (chr : UInt32) : Prop :=
  Utf8.strlen str = 1 ∧ chr = Utf8.getCharValidated str 6 ∧ 0 < chr.toBitVec.toInt

/-- The keysym of a character. -/
theorem keysymFromChar_of_isChar {str : Bytes} {chr : UInt32} (h : IsChar str chr) :
    chr ≠ 0 ∧ chr.toNat < 0x110000 ∧
      keysymFromChar str = if chr.toNat < 0x80 then chr else keysymFromUnicode chr := by
  obtain ⟨hlen, hchr, hpos⟩ := h
  cases str with
  | nil => cases hlen
  | cons l s =>
    have hvalid : Utf8.getCharValidated (l :: s) 6 ≠ -1 ∧ Utf8.getCharValidated (l :: s) 6 ≠ -2 := by
      rw [← hchr]
      refine ⟨?_, ?_⟩
      · rintro rfl
        exact absurd hpos (by decide)
      · rintro rfl
        exact absurd hpos (by decide)
    obtain ⟨c, ts, t, rfl, -, hc, hbytes⟩ := Utf8.getCharValidated_cases l s hvalid.1 hvalid.2
    have hstr : l :: (ts ++ t) = (Utf8.ucs4ToUtf8 c).2 ++ t := by rw [hbytes, List.cons_append]
    rw [hstr] at hlen hchr ⊢
    rw [Utf8.getCharValidated_ucs4ToUtf8 hc] at hchr
    subst hchr
    have hlt := Utf8.lt_of_unicodeValid hc
    refine ⟨?_, hlt, ?_⟩
    · rintro rfl
      exact absurd hpos (by decide)
    · unfold keysymFromChar
      rw [if_pos hlen, Utf8.getCharValidated_ucs4ToUtf8 hc, Utf8.charLen_ucs4ToUtf8]
      dsimp only
      rw [if_pos hpos]
      have hone : Utf8.ucs4CharLen chr = 1 ↔ chr.toNat < 0x80 := by
        show _ ↔ chr < 0x80
        unfold Utf8.ucs4CharLen
        split_ifs with h <;> simp [h]
      by_cases hbyte : chr.toNat < 0x80
      · rw [if_pos (hone.mpr hbyte), if_pos hbyte, keysymFromByte hbyte]
      · rw [if_neg fun h => hbyte (hone.mp h), if_neg hbyte]

/-- A string that is no character has no keysym. -/
theorem keysymFromChar_of_not {str : Bytes} (h : ∀ chr, ¬ IsChar str chr) : keysymFromChar str = FcitxKey.none := by
  unfold keysymFromChar
  by_cases hlen : Utf8.strlen str = 1
  · rw [if_pos hlen]
    dsimp only
    rw [if_neg fun hpos => h _ ⟨hlen, rfl, hpos⟩]
  · rw [if_neg hlen]

/-- A string that is no name, but a character whose keysym has none. -/
def Nameless (str : Bytes) : Prop :=
  ¬ IsKeyName str ∧ ¬ IsCompatName str ∧ ∃ chr, IsChar str chr ∧ ¬ NamedChar chr.toNat

theorem namedChar_ascii {chr : ℕ} (hpos : chr ≠ 0) (hchr : chr < 0x80) :
    NamedChar chr ↔ 0x20 ≤ chr ∧ chr ≤ 0x7e := by
  refine ⟨fun h => ?_, Or.inl⟩
  rcases h with h | h | ⟨hmem, -⟩ | ⟨-, hmem⟩
  · exact h
  · omega
  · have hchars := (pairwise_of_charsCheck tablesChecked.chars).2 chr hmem
    omega
  · exact absurd hmem (notMem_rowKeysyms (by omega))

/-- **A keysym that is read has a name**, unless it is that of a character without one. -/
theorem keysymToString_fromString_eq_none_iff (str : Bytes) :
    keysymToString (keysymFromString str) = none ↔ Nameless str := by
  by_cases hname : IsKeyName str ∨ IsCompatName str
  · exact iff_of_false (keysymToString_fromName hname) fun h => hname.elim h.1 h.2.1
  · obtain ⟨hkey, hcompat⟩ := not_or.mp hname
    have hstr : keysymFromString str = keysymFromChar str := by
      rcases keysymFromString_cases str with ⟨i, hi, heq, -⟩ | ⟨i, hi, heq, -⟩ | ⟨-, -, heq⟩
      · exact absurd ⟨i, by rw [sizes.names]; exact hi, heq⟩ hkey
      · exact absurd ⟨i, by rw [sizes.compat]; exact hi, heq⟩ hcompat
      · exact heq
    have hchars : ∀ chr, IsChar str chr →
        (keysymToString (keysymFromChar str) = none ↔ ¬ NamedChar chr.toNat) := by
      intro chr hchr
      obtain ⟨hzero, hlt, heq⟩ := keysymFromChar_of_isChar hchr
      have hne : chr.toNat ≠ 0 := fun h => hzero (UInt32.toNat_inj.mp h)
      rw [heq]
      by_cases hbyte : chr.toNat < 0x80
      · rw [if_pos hbyte, keysymToString_eq_none_iff, namedChar_ascii hne hbyte, not_iff_not]
        refine ⟨fun hmem => ?_, fun h => latin_mem (Or.inl h)⟩
        by_contra hnot
        exact notMem_rowKeysyms (by omega) hmem
      · rw [if_neg hbyte, keysymToString_fromUnicode_iff hlt]
    rw [hstr]
    constructor
    · intro hnone
      by_cases hchar : ∃ chr, IsChar str chr
      · obtain ⟨chr, hchr⟩ := hchar
        exact ⟨hkey, hcompat, chr, hchr, (hchars chr hchr).mp hnone⟩
      · rw [keysymFromChar_of_not fun chr hchr => hchar ⟨chr, hchr⟩] at hnone
        exact absurd hnone (keysymToString_fixed (by simp))
    · rintro ⟨-, -, chr, hchr, hnot⟩
      exact (hchars chr hchr).mpr hnot

end Key
end Fcitx
