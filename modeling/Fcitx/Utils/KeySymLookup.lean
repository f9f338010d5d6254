/-
# Names and their keysyms

What the lookups find: a key name gives its keysym, a keysym has a name exactly when it
has a row, and the name that it has gives it back.

Key definitions: `Key.IsKeyName`, `Key.IsCompatName`.
Key theorems: `Key.keysymFromString_keyName`, `Key.keysymFromString_cases`,
`Key.keysymToString_sound`, `Key.keysymToString_eq_none_iff`.
-/
import Fcitx.Utils.KeySymName

namespace Fcitx
namespace Key

/-! ### Comparing strings -/

theorem strcmp_self (s : Bytes) : strcmp s s = 0 := by
  induction s with
  | nil => rfl
  | cons a s ih => rw [strcmp, if_pos rfl, ih]

theorem strcmp_eq_zero {s t : Bytes} (h : strcmp s t = 0) : s = t := by
  induction s generalizing t with
  | nil =>
    cases t with
    | nil => rfl
    | cons b t => cases h
  | cons a s ih =>
    cases t with
    | nil => cases h
    | cons b t =>
      rw [strcmp] at h
      split at h
      · next hab => rw [hab, ih h]
      · next hab => exact absurd (UInt8.toNat_inj.mp (by omega)) hab

theorem strcmp_symm {s t : Bytes} : strcmp s t < 0 ↔ 0 < strcmp t s := by
  induction s generalizing t with
  | nil =>
    cases t with
    | nil => simp [strcmp]
    | cons b t => simp [strcmp]
  | cons a s ih =>
    cases t with
    | nil => simp [strcmp]
    | cons b t =>
      rw [strcmp, strcmp]
      by_cases hab : a = b
      · rw [if_pos hab, if_pos hab.symm]
        exact ih
      · rw [if_neg hab, if_neg fun h => hab h.symm]
        omega

theorem strcmp_trans {s t r : Bytes} (h₁ : strcmp s t < 0) (h₂ : strcmp t r < 0) : strcmp s r < 0 := by
  induction s generalizing t r with
  | nil =>
    cases r with
    | nil =>
      cases t with
      | nil => exact h₁
      | cons b t => exact absurd h₂ (by simp [strcmp])
    | cons c r => simp [strcmp]
  | cons a s ih =>
    cases t with
    | nil => exact absurd h₁ (by simp [strcmp])
    | cons b t =>
      cases r with
      | nil => exact absurd h₂ (by simp [strcmp])
      | cons c r =>
        rw [strcmp] at h₁ h₂ ⊢
        split at h₁
        · next hab =>
          subst hab
          split at h₂
          · next hbc => rw [if_pos hbc]; exact ih h₁ h₂
          · next hbc => rw [if_neg hbc]; exact h₂
        · split at h₂
          · next hab hbc =>
            subst hbc
            rw [if_neg hab]
            exact h₁
          · next hab hbc =>
            have hac : a ≠ c := by
              rintro rfl
              omega
            rw [if_neg hac]
            omega

/-! ### The names -/

theorem pairwise_of_namesCheck {l : List Bytes} (h : namesCheck l = true) :
    l.Pairwise (fun s t => strcmp s t < 0) ∧ ∀ name ∈ l, plainName name = true := by
  induction l with
  | nil => exact ⟨List.Pairwise.nil, fun _ hmem => absurd hmem List.not_mem_nil⟩
  | cons a l ih =>
    cases l with
    | nil =>
      refine ⟨List.pairwise_singleton _ a, fun name hname => ?_⟩
      rw [List.mem_singleton.mp hname]
      exact h
    | cons b l =>
      rw [namesCheck, Bool.and_eq_true, Bool.and_eq_true, decide_eq_true_eq] at h
      obtain ⟨⟨hlt, hplain⟩, hrest⟩ := h
      obtain ⟨hpairs, hall⟩ := ih hrest
      refine ⟨List.pairwise_cons.mpr ⟨fun t ht => ?_, hpairs⟩, List.forall_mem_cons.mpr ⟨hplain, hall⟩⟩
      rcases List.mem_cons.mp ht with rfl | ht
      · exact hlt
      · exact strcmp_trans hlt ((List.pairwise_cons.mp hpairs).1 t ht)

theorem keyName_eq {i : ℕ} (hi : i < 2273) :
    ∃ h : i < (keyNameList.toList.map nameBytes).length, (keyNameList.toList.map nameBytes)[i] = keyName i := by
  have hsize : i < keyNameList.size := by rw [sizes.names]; exact hi
  refine ⟨by rw [List.length_map, Array.length_toList]; exact hsize, ?_⟩
  rw [List.getElem_map, keyName, Array.getElem_toList, Array.getD_eq_getD_getElem?, Array.getElem?_eq_getElem hsize,
    Option.getD_some]

theorem keyName_lt {i j : ℕ} (hij : i < j) (hj : j < 2273) : strcmp (keyName i) (keyName j) < 0 := by
  obtain ⟨hi', hieq⟩ := keyName_eq (hij.trans hj)
  obtain ⟨hj', hjeq⟩ := keyName_eq hj
  have hpairs := List.pairwise_iff_getElem.mp (pairwise_of_namesCheck tablesChecked.names).1 i j hi' hj' hij
  rwa [hieq, hjeq] at hpairs

/-- The names have no white space and no modifiers. -/
theorem plainName_keyName {i : ℕ} (hi : i < 2273) : plainName (keyName i) = true := by
  obtain ⟨hi', hieq⟩ := keyName_eq hi
  rw [← hieq]
  exact (pairwise_of_namesCheck tablesChecked.names).2 _ (List.getElem_mem hi')

theorem compatName_eq {i : ℕ} (hi : i < 342) :
    ∃ h : i < (keyNameListCompat.toList.map fun row => nameBytes row.1).length,
      (keyNameListCompat.toList.map fun row => nameBytes row.1)[i] = compatName i := by
  have hsize : i < keyNameListCompat.size := by rw [sizes.compat]; exact hi
  refine ⟨by rw [List.length_map, Array.length_toList]; exact hsize, ?_⟩
  rw [List.getElem_map, compatName, Array.getElem_toList, Array.getD_eq_getD_getElem?,
    Array.getElem?_eq_getElem hsize, Option.getD_some]

theorem compatName_lt {i j : ℕ} (hij : i < j) (hj : j < 342) : strcmp (compatName i) (compatName j) < 0 := by
  obtain ⟨hi', hieq⟩ := compatName_eq (hij.trans hj)
  obtain ⟨hj', hjeq⟩ := compatName_eq hj
  have hpairs := List.pairwise_iff_getElem.mp (pairwise_of_namesCheck tablesChecked.compat).1 i j hi' hj' hij
  rwa [hieq, hjeq] at hpairs

/-- Comparing with names that ascend is monotone. -/
theorem monotone_strcmp {name : ℕ → Bytes} {n : ℕ} (h : ∀ i j, i < j → j < n → strcmp (name i) (name j) < 0)
    {str : Bytes} {compar : ℕ → ℤ} (hcompar : ∀ i, compar i = strcmp str (name i)) :
    BinarySearch.Monotone compar n := by
  intro i j hij hj
  have hlt := h i j hij hj
  rw [hcompar i, hcompar j]
  refine ⟨fun hzero => ?_, fun hzero => ?_⟩
  · rw [strcmp_eq_zero hzero]
    exact strcmp_symm.mp hlt
  · rw [strcmp_eq_zero hzero]
    exact hlt

theorem monotone_keynameCompare (str : Bytes) : BinarySearch.Monotone (keynameCompare str) 2273 :=
  monotone_strcmp (n := 2273) (fun _ _ hij hj => keyName_lt hij hj) fun _ => rfl

theorem monotone_keynameCompatCompare (str : Bytes) : BinarySearch.Monotone (keynameCompatCompare str) 342 :=
  monotone_strcmp (n := 342) (fun _ _ hij hj => compatName_lt hij hj) fun _ => rfl

theorem keynameCompare_self (i : ℕ) : keynameCompare (keyName i) i = 0 := by
  rw [keynameCompare, strcmp_self]

theorem keynameCompatCompare_self (i : ℕ) : keynameCompatCompare (compatName i) i = 0 := by
  rw [keynameCompatCompare, strcmp_self]

/-- A key name. -/
def IsKeyName (str : Bytes) : Prop := ∃ i < keyNameList.size, str = keyName i

/-- A name of older configuration files. -/
def IsCompatName (str : Bytes) : Prop := ∃ i < keyNameListCompat.size, str = compatName i

/-- **A key name gives its keysym.** -/
theorem keysymFromString_keyName {i : ℕ} (hi : i < 2273) :
    keysymFromString (keyName i) = keyValueByNameOffset.getD i 0 := by
  have hfound : BinarySearch.search (keynameCompare (keyName i)) keyValueByNameOffset.size = some i := by
    rw [sizes.values]
    have hself := keynameCompare_self i
    exact BinarySearch.search_eq_some (monotone_keynameCompare _) hi hself
  rw [keysymFromString, hfound]

/-- **The ways to a keysym**: a name, a name of older files, or a character. -/
theorem keysymFromString_cases (str : Bytes) :
    (∃ i < 2273, str = keyName i ∧ keysymFromString str = keyValueByNameOffset.getD i 0) ∨
      (∃ i < 342, str = compatName i ∧ keysymFromString str = (keyNameListCompat.getD i ("", 0)).2) ∨
      ¬ IsKeyName str ∧ ¬ IsCompatName str ∧ keysymFromString str = keysymFromChar str := by
  have hmono := monotone_keynameCompare str
  have hmono' := monotone_keynameCompatCompare str
  unfold keysymFromString IsKeyName IsCompatName
  rw [sizes.names, sizes.values, sizes.compat]
  cases hname : BinarySearch.search (keynameCompare str) 2273 with
  | some i =>
    obtain ⟨hi, hzero⟩ := BinarySearch.search_sound hname
    exact Or.inl ⟨i, hi, strcmp_eq_zero hzero, rfl⟩
  | none =>
    have hnot := (BinarySearch.search_eq_none_iff hmono).mp hname
    refine Or.inr ?_
    cases hcompat : BinarySearch.search (keynameCompatCompare str) 342 with
    | some i =>
      obtain ⟨hi, hzero⟩ := BinarySearch.search_sound hcompat
      exact Or.inl ⟨i, hi, strcmp_eq_zero hzero, rfl⟩
    | none =>
      have hnot' := (BinarySearch.search_eq_none_iff hmono').mp hcompat
      refine Or.inr ⟨?_, ?_, rfl⟩
      · rintro ⟨i, hi, rfl⟩
        exact hnot i hi (keynameCompare_self i)
      · rintro ⟨i, hi, rfl⟩
        exact hnot' i hi (keynameCompatCompare_self i)

/-! ### The keysyms -/

theorem rowsCheck_spec {packed size : ℕ} {rows : List (UInt32 × UInt16)} (h : rowsCheck packed size rows = true) :
    ∀ row ∈ rows, row.2.toNat < size ∧ PackedWords.word packed row.2.toNat = row.1.toNat := by
  induction rows with
  | nil => exact fun _ hmem => absurd hmem List.not_mem_nil
  | cons row rows ih =>
    rw [rowsCheck, Bool.and_eq_true, Bool.and_eq_true] at h
    obtain ⟨⟨hlt, heq⟩, hrest⟩ := h
    exact List.forall_mem_cons.mpr ⟨⟨Nat.le_of_ble_eq_true hlt, Nat.eq_of_beq_eq_true heq⟩, ih hrest⟩

theorem keysymsCheck_spec {packed size : ℕ} {l : List ℕ} (h : keysymsCheck packed size l = true) :
    ∀ v ∈ l, PackedWords.found packed v 13 0 size = true := by
  induction l with
  | nil => exact fun _ hmem => absurd hmem List.not_mem_nil
  | cons v l ih =>
    rw [keysymsCheck, Bool.and_eq_true] at h
    exact List.forall_mem_cons.mpr ⟨h.1, ih h.2⟩

theorem pairwise_of_ascending {l : List ℕ} (h : ascending l = true) :
    l.Pairwise (· < ·) ∧ ∀ v ∈ l, v < 2147483648 := by
  induction l with
  | nil => exact ⟨List.Pairwise.nil, fun _ hmem => absurd hmem List.not_mem_nil⟩
  | cons a l ih =>
    cases l with
    | nil =>
      refine ⟨List.pairwise_singleton _ a, fun v hv => ?_⟩
      rw [List.mem_singleton.mp hv]
      exact Nat.le_of_ble_eq_true h
    | cons b l =>
      rw [ascending, Bool.and_eq_true] at h
      obtain ⟨hpairs, hall⟩ := ih h.2
      have hlt : a < b := Nat.le_of_ble_eq_true h.1
      refine ⟨List.pairwise_cons.mpr ⟨fun v hv => ?_, hpairs⟩,
        List.forall_mem_cons.mpr ⟨hlt.trans (hall b List.mem_cons_self), hall⟩⟩
      rcases List.mem_cons.mp hv with rfl | hv
      · exact hlt
      · exact hlt.trans ((List.pairwise_cons.mp hpairs).1 v hv)

/-- The keysym of a row. -/
theorem rowKeysyms_eq {i : ℕ} (hi : i < 2178) :
    ∃ h : i < rowKeysyms.length, rowKeysyms[i] = (keyNameOffsetByValue.getD i (0, 0)).1.toNat := by
  have hsize : i < keyNameOffsetByValue.size := by rw [sizes.rows]; exact hi
  refine ⟨by rw [sizes.rowKeysyms]; exact hi, ?_⟩
  unfold rowKeysyms
  rw [List.getElem_map, Array.getElem_toList, Array.getD_eq_getD_getElem?, Array.getElem?_eq_getElem hsize,
    Option.getD_some]

/-- Comparing keysyms below `0x80000000`. -/
theorem keysymCompare_pos {a b : UInt32} (hlt : b.toNat < a.toNat) (ha : a.toNat < 2147483648) :
    0 < (a - b).toBitVec.toInt ∧ (b - a).toBitVec.toInt < 0 := by
  have hsub : (a - b).toBitVec.toNat = a.toNat - b.toNat := by
    have h := UInt32.toNat_sub a b
    have hb := b.toNat_lt
    show (a - b).toNat = _
    omega
  have hsub' : (b - a).toBitVec.toNat = 4294967296 - (a.toNat - b.toNat) := by
    have h := UInt32.toNat_sub b a
    show (b - a).toNat = _
    omega
  rw [BitVec.toInt_eq_toNat_cond, BitVec.toInt_eq_toNat_cond, hsub, hsub']
  constructor
  · rw [if_pos (by omega)]
    omega
  · rw [if_neg (by omega)]
    omega

theorem keysymCompare_eq_zero_iff {keysym : KeySym} {i : ℕ} :
    keysymCompare keysym i = 0 ↔ keysym = (keyNameOffsetByValue.getD i (0, 0)).1 := by
  unfold keysymCompare
  generalize (keyNameOffsetByValue.getD i (0, 0)).1 = row
  constructor
  · intro hzero
    have hsub : keysym - row = 0 := UInt32.toBitVec_inj.mp (BitVec.eq_of_toInt_eq hzero)
    rw [← UInt32.sub_add_cancel keysym row, hsub, UInt32.zero_add]
  · intro heq
    rw [heq, UInt32.sub_self]
    rfl

theorem monotone_keysymCompare (keysym : KeySym) : BinarySearch.Monotone (keysymCompare keysym) 2178 := by
  intro i j hij hj
  obtain ⟨hi', hieq⟩ := rowKeysyms_eq (hij.trans hj)
  obtain ⟨hj', hjeq⟩ := rowKeysyms_eq hj
  obtain ⟨hpairs, hall⟩ := pairwise_of_ascending tablesChecked.ascending
  have hlt := List.pairwise_iff_getElem.mp hpairs i j hi' hj' hij
  have hbound := hall _ (List.getElem_mem hj')
  rw [hieq, hjeq] at hlt
  rw [hjeq] at hbound
  have hcompare := keysymCompare_pos hlt hbound
  refine ⟨fun hzero => ?_, fun hzero => ?_⟩
  · rw [keysymCompare, keysymCompare_eq_zero_iff.mp hzero]
    exact hcompare.1
  · rw [keysymCompare, keysymCompare_eq_zero_iff.mp hzero]
    exact hcompare.2

/-- A row is found by its keysym. -/
theorem keysymToString_ne_none {keysym : KeySym} (h : keysym.toNat ∈ rowKeysyms) : keysymToString keysym ≠ none := by
  obtain ⟨i, hi, heq⟩ := List.mem_iff_getElem.mp h
  rw [sizes.rowKeysyms] at hi
  obtain ⟨hi', hrow⟩ := rowKeysyms_eq hi
  rw [hrow] at heq
  have hfound := BinarySearch.search_eq_some (monotone_keysymCompare keysym) hi
    (keysymCompare_eq_zero_iff.mpr (UInt32.toNat_inj.mp heq.symm))
  rw [keysymToString, sizes.rows, hfound]
  exact Option.some_ne_none _

/-- No key, the letter a and the tabs have names. -/
theorem keysymToString_fixed {keysym : KeySym} (h : keysym ∈ [FcitxKey.none, 0x61, FcitxKey.tab, FcitxKey.isoLeftTab]) :
    keysymToString keysym ≠ none :=
  keysymToString_ne_none (of_decide_eq_true (List.all_eq_true.mp tablesChecked.fixed keysym h))

theorem toNat_lt_of_mem {l : List UInt32} : ∀ v ∈ l.map UInt32.toNat, v < 4294967296 := by
  intro v hv
  obtain ⟨a, -, rfl⟩ := List.mem_map.mp hv
  exact a.toNat_lt

theorem rowKeysyms_lt : ∀ v ∈ rowKeysyms, v < 4294967296 :=
  fun v hv => ((pairwise_of_ascending tablesChecked.ascending).2 v hv).trans (by decide)

/-- **The name of a keysym** is a key name that gives the keysym back. -/
theorem keysymToString_sound {keysym : KeySym} {name : Bytes} (h : keysymToString keysym = some name) :
    plainName name = true ∧ keysymFromString name = keysym := by
  obtain ⟨idx, hsearch, rfl⟩ := Option.map_eq_some_iff.mp h
  obtain ⟨hidx, hzero⟩ := BinarySearch.search_sound hsearch
  have hrow := rowsCheck_spec tablesChecked.rows (keyNameOffsetByValue.getD idx (0, 0))
    (by
      rw [Array.getD_eq_getD_getElem?, Array.getElem?_eq_getElem hidx, Option.getD_some]
      exact Array.getElem_mem_toList hidx)
  obtain ⟨hlt, hword⟩ := hrow
  have hkeysym := keysymCompare_eq_zero_iff.mp hzero
  generalize keyNameOffsetByValue.getD idx (0, 0) = row at hlt hword hkeysym ⊢
  have hsize : row.2.toNat < keyValueByNameOffset.size := by rw [sizes.values]; exact hlt
  have hlen : row.2.toNat < (keyValueByNameOffset.toList.map UInt32.toNat).length := by
    rw [List.length_map, Array.length_toList]
    exact hsize
  rw [PackedWords.word_pack toNat_lt_of_mem hlen, List.getElem_map, Array.getElem_toList] at hword
  refine ⟨plainName_keyName hlt, ?_⟩
  rw [keysymFromString_keyName hlt, Array.getD_eq_getD_getElem?, Array.getElem?_eq_getElem hsize,
    Option.getD_some, hkeysym]
  exact UInt32.toNat_inj.mp hword

/-- The keysyms of the names and of the names of older files have rows. -/
theorem mem_rowKeysyms {v : ℕ} (h : v ∈ keyValueByNameOffset.toList.map UInt32.toNat ++
    keyNameListCompat.toList.map fun row => row.2.toNat) : v ∈ rowKeysyms := by
  have hfound := keysymsCheck_spec tablesChecked.keysyms v h
  rw [← sizes.rowKeysyms] at hfound
  exact PackedWords.mem_of_found rowKeysyms_lt hfound

theorem mem_values {i : ℕ} (hi : i < 2273) :
    (keyValueByNameOffset.getD i 0).toNat ∈ keyValueByNameOffset.toList.map UInt32.toNat := by
  have hsize : i < keyValueByNameOffset.size := by rw [sizes.values]; exact hi
  rw [Array.getD_eq_getD_getElem?, Array.getElem?_eq_getElem hsize, Option.getD_some]
  exact List.mem_map.mpr ⟨_, Array.getElem_mem_toList hsize, rfl⟩

theorem mem_compatValues {i : ℕ} (hi : i < 342) :
    (keyNameListCompat.getD i ("", 0)).2.toNat ∈ keyNameListCompat.toList.map fun row => row.2.toNat := by
  have hsize : i < keyNameListCompat.size := by rw [sizes.compat]; exact hi
  rw [Array.getD_eq_getD_getElem?, Array.getElem?_eq_getElem hsize, Option.getD_some]
  exact List.mem_map.mpr ⟨_, Array.getElem_mem_toList hsize, rfl⟩

/-- **A keysym that is read from a name** has a name, also from a name of older files. -/
theorem keysymToString_fromName {str : Bytes} (h : IsKeyName str ∨ IsCompatName str) :
    keysymToString (keysymFromString str) ≠ none := by
  rcases keysymFromString_cases str with ⟨i, hi, -, heq⟩ | ⟨i, hi, -, heq⟩ | ⟨hnot, hnot', -⟩
  · rw [heq]
    exact keysymToString_ne_none (mem_rowKeysyms (List.mem_append_left _ (mem_values hi)))
  · rw [heq]
    exact keysymToString_ne_none (mem_rowKeysyms (List.mem_append_right _ (mem_compatValues hi)))
  · exact absurd h (not_or.mpr ⟨hnot, hnot'⟩)

/-- A keysym without a row has no name. -/
theorem keysymToString_eq_none_iff {keysym : KeySym} :
    keysymToString keysym = none ↔ keysym.toNat ∉ rowKeysyms := by
  refine ⟨fun hnone hmem => keysymToString_ne_none hmem hnone, fun hnot => ?_⟩
  by_contra hname
  obtain ⟨name, hname⟩ := Option.ne_none_iff_exists'.mp hname
  obtain ⟨idx, hsearch, -⟩ := Option.map_eq_some_iff.mp hname
  obtain ⟨hidx, hzero⟩ := BinarySearch.search_sound hsearch
  rw [sizes.rows] at hidx
  obtain ⟨hlen, hrow⟩ := rowKeysyms_eq hidx
  rw [keysymCompare_eq_zero_iff.mp hzero, ← hrow] at hnot
  exact hnot (List.getElem_mem hlen)

end Key
end Fcitx
