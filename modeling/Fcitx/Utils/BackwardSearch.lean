/-
# Searching backwards

`fcitx_utils_backward_search` goes back from a position and compares a hash of
the window with that of the needle; the bytes are compared only where the
hashes are equal. The hash is a polynomial in two modulo 2^32 (`RollingHash`),
so the window's hash is right at every position and no match is skipped. The
position to search from is the last one that is looked at:
`fcitx_utils_strrstr` and `fcitx_library_find_data` search from 0 and so see
the start only.

Key definitions: `backwardSearch`, `strrstr`, `libraryFindData`, `OccursAt`, `LastOf`.
Key theorems: `searchBack_spec`, `backwardSearch_spec`, `findsLast_iff`.
-/
import Fcitx.Lib.RollingHash
import Fcitx.Utils.Utf8
import Mathlib.Data.BitVec

namespace Fcitx

/-- A `char` that is added to an unsigned number: it is signed. -/
def charToUInt (c : UInt8) : BitVec 32 := c.toBitVec.signExtend 32

/-- The hash that the loop computes of the `ol` bytes up to `last`. -/
def hashBack (s : Bytes) (last ol : ℕ) : BitVec 32 :=
  (List.range ol).foldl (fun hash idx => (hash <<< 1) + charToUInt (s.at (last - idx))) 0

/-- The loop of `fcitx_utils_backward_search`; the argument is one more than the position of `haystack`. -/
def searchBack (haystack needle : Bytes) (olMinus1 : ℕ) (hashNeedle : BitVec 32) : ℕ → BitVec 32 → Option ℕ
  | 0, _ => none
  | pos + 1, hashHaystack =>
    let hashHaystack := hashHaystack + charToUInt (haystack.at pos)
    if hashHaystack = hashNeedle ∧ (haystack.drop pos).take needle.length = needle then some pos
    else
      -- `--haystack`, then `REHASH(*(haystack + ol))`
      let hashHaystack :=
        if olMinus1 < 32 then hashHaystack - charToUInt (haystack.at (pos + needle.length - 1)) <<< olMinus1
        else hashHaystack
      searchBack haystack needle olMinus1 hashNeedle pos (hashHaystack <<< 1)

/-- `fcitx_utils_backward_search`, the position of the match. -/
def backwardSearch (haystack needle : Bytes) («from» : ℕ) : Option ℕ :=
  let l := haystack.length
  let ol := needle.length
  if l < ol then none
  else
    let delta := l - ol
    if l < «from» then none
    else
      let start := if delta < «from» then delta else «from»
      -- a `uint`
      let olMinus1 := (ol + (2 ^ 32 - 1)) % 2 ^ 32
      let hashNeedle := hashBack needle olMinus1 ol
      let hashHaystack := hashBack haystack (start + olMinus1) ol
      searchBack haystack needle olMinus1 hashNeedle (start + 1) (hashHaystack - charToUInt (haystack.at start))

/-- The needle stands at a position. -/
def OccursAt (haystack needle : Bytes) (i : ℕ) : Prop := needle <+: haystack.drop i

instance (haystack needle : Bytes) (i : ℕ) : Decidable (OccursAt haystack needle i) :=
  inferInstanceAs (Decidable (needle <+: haystack.drop i))

/-- The last number below `n` with a property, if there is one. -/
def LastOf (P : ℕ → Prop) (n : ℕ) : Option ℕ → Prop
  | some i => i < n ∧ P i ∧ ∀ j < n, P j → j ≤ i
  | none => ∀ j < n, ¬ P j

variable {haystack needle : Bytes} {P : ℕ → Prop} {n : ℕ}

/-! ### The hash -/

/-- The hash of a window. -/
def windowHash (w : Bytes) : BitVec 32 := RollingHash.hash 2 charToUInt w

theorem shiftLeft_eq (x : BitVec 32) (k : ℕ) : x <<< k = x * 2 ^ k := by
  have htwo : BitVec.twoPow 32 k = 2 ^ k := by
    induction k with
    | zero => rfl
    | succ k ih =>
      have hone : BitVec.twoPow 32 1 = 2 := rfl
      rw [← BitVec.twoPow_mul_twoPow_eq, ih, hone, pow_succ]
  rw [BitVec.shiftLeft_eq_mul_twoPow, htwo]

theorem shiftLeft_one (x : BitVec 32) : x <<< 1 = 2 * x := by
  rw [shiftLeft_eq, pow_one, mul_comm]

/-- A shift by all bits leaves nothing. -/
theorem two_pow_eq_zero {k : ℕ} (hk : 32 ≤ k) : (2 : BitVec 32) ^ k = 0 := by
  obtain ⟨d, rfl⟩ := Nat.exists_eq_add_of_le hk
  have hzero : (2 : BitVec 32) ^ 32 = 0 := rfl
  rw [pow_add, hzero, zero_mul]

theorem at_eq_getElem {s : Bytes} {i : ℕ} (h : i < s.length) : s.at i = s[i] := by
  rw [Bytes.at, List.getD_eq_getElem?_getD, List.getElem?_eq_getElem h, Option.getD_some]

/-- The loop hashes the window. -/
theorem hashBack_eq {s : Bytes} {p k : ℕ} (h : p + k < s.length) :
    hashBack s (p + k) (k + 1) = windowHash ((s.drop p).take (k + 1)) := by
  have hread : (List.range (k + 1)).map (fun idx => s.at (p + k - idx)) = ((s.drop p).take (k + 1)).reverse := by
    apply List.ext_getElem
    · simp only [List.length_map, List.length_range, List.length_reverse, List.length_take, List.length_drop]
      omega
    · intro i hi _
      rw [List.length_map, List.length_range] at hi
      have hlen : (List.take (k + 1) (List.drop p s)).length = k + 1 := by
        rw [List.length_take, List.length_drop]
        omega
      rw [List.getElem_map, List.getElem_range, List.getElem_reverse, List.getElem_take, List.getElem_drop,
        at_eq_getElem (by omega)]
      congr 1
      omega
  unfold hashBack windowHash
  rw [← RollingHash.foldl_reverse_eq_hash, ← hread, List.foldl_map]
  simp only [shiftLeft_one]

/-- The window one position before. -/
theorem take_drop_back {s : Bytes} {p k : ℕ} (h : p + (k + 1) < s.length) :
    (s.drop p).take (k + 1) = s.at p :: (s.drop (p + 1)).take k ∧
      (s.drop (p + 1)).take (k + 1) = (s.drop (p + 1)).take k ++ [s.at (p + 1 + k)] := by
  constructor
  · rw [List.drop_eq_getElem_cons (by omega), List.take_succ_cons, at_eq_getElem (by omega)]
  · rw [List.take_add_one, List.getElem?_drop, at_eq_getElem (by omega), List.getElem?_eq_getElem (by omega)]
    rfl

/-- **The hash of the window moves back.** -/
theorem windowHash_back {s : Bytes} {p k : ℕ} (h : p + (k + 1) < s.length) :
    windowHash ((s.drop p).take (k + 1)) = charToUInt (s.at p) +
      ((if k < 32 then windowHash ((s.drop (p + 1)).take (k + 1)) - charToUInt (s.at (p + 1 + k)) <<< k
        else windowHash ((s.drop (p + 1)).take (k + 1))) <<< 1) := by
  obtain ⟨hfront, hback⟩ := take_drop_back h
  have hlen : ((s.drop (p + 1)).take k).length = k := by
    rw [List.length_take, List.length_drop]
    omega
  have hroll := RollingHash.hash_cons_of_concat 2 charToUInt (s.at p) (s.at (p + 1 + k)) ((s.drop (p + 1)).take k)
  rw [hlen] at hroll
  rw [hfront, hback, shiftLeft_one]
  unfold windowHash
  rw [hroll]
  split_ifs with hk
  · rw [shiftLeft_eq]
  · -- what is taken out has no bits left
    rw [two_pow_eq_zero (Nat.le_of_not_lt hk), mul_zero, sub_zero]

/-! ### The search -/

theorem lastOf_succ_of_pos (h : P n) : LastOf P (n + 1) (some n) :=
  ⟨Nat.lt_succ_self n, h, fun _ hj _ => Nat.le_of_lt_succ hj⟩

theorem LastOf.succ {r : Option ℕ} (h : LastOf P n r) (hn : ¬ P n) : LastOf P (n + 1) r := by
  have hlt : ∀ j < n + 1, P j → j < n := by
    intro j hj hp
    exact Nat.lt_of_le_of_ne (Nat.le_of_lt_succ hj) fun e => hn (e ▸ hp)
  cases r with
  | none => exact fun j hj hp => h j (hlt j hj hp) hp
  | some i => exact ⟨Nat.lt_succ_of_lt h.1, h.2.1, fun j hj hp => h.2.2 j (hlt j hj hp) hp⟩

theorem occursAt_iff (haystack needle : Bytes) (i : ℕ) :
    OccursAt haystack needle i ↔ (haystack.drop i).take needle.length = needle := by
  unfold OccursAt
  rw [List.prefix_iff_eq_take, eq_comm]

/-- **The loop** finds the last match: the hash that it comes with is that of the window without its first byte. -/
theorem searchBack_spec {k : ℕ} (hk : needle.length = k + 1) (pos : ℕ) : ∀ hash, pos + k < haystack.length →
    hash + charToUInt (haystack.at pos) = windowHash ((haystack.drop pos).take (k + 1)) →
    LastOf (OccursAt haystack needle) (pos + 1)
      (searchBack haystack needle k (windowHash needle) (pos + 1) hash) := by
  have hmatch : ∀ pos, OccursAt haystack needle pos ↔
      (windowHash ((haystack.drop pos).take (k + 1)) = windowHash needle ∧
        (haystack.drop pos).take (k + 1) = needle) := by
    intro pos
    rw [occursAt_iff, hk]
    exact ⟨fun h => ⟨congrArg windowHash h, h⟩, fun h => h.2⟩
  induction pos with
  | zero =>
    intro hash _ hhash
    unfold searchBack
    rw [hhash, hk]
    by_cases hoccurs : OccursAt haystack needle 0
    · rw [if_pos ((hmatch 0).mp hoccurs)]
      exact lastOf_succ_of_pos hoccurs
    · rw [if_neg fun h => hoccurs ((hmatch 0).mpr h)]
      exact LastOf.succ (fun j hj _ => absurd hj (Nat.not_lt_zero j)) hoccurs
  | succ pos ih =>
    intro hash hlen hhash
    unfold searchBack
    rw [hhash, hk]
    by_cases hoccurs : OccursAt haystack needle (pos + 1)
    · rw [if_pos ((hmatch (pos + 1)).mp hoccurs)]
      exact lastOf_succ_of_pos hoccurs
    · rw [if_neg fun h => hoccurs ((hmatch (pos + 1)).mpr h)]
      apply LastOf.succ _ hoccurs
      apply ih _ (by omega)
      have hback := windowHash_back (s := haystack) (p := pos) (k := k) (by omega)
      rw [hback, add_comm]
      rfl

/-- A needle that is longer than the haystack, or a position behind it. -/
theorem backwardSearch_none {«from» : ℕ} (h : haystack.length < needle.length ∨ haystack.length < «from») :
    backwardSearch haystack needle «from» = none := by
  unfold backwardSearch
  by_cases hlong : haystack.length < needle.length
  · exact if_pos hlong
  · rw [if_neg hlong]
    exact if_pos (h.resolve_left hlong)

/-- The search inside the haystack. -/
theorem backwardSearch_last {«from» : ℕ} (hone : 1 ≤ needle.length) (hlen : needle.length < 2 ^ 32)
    (hle : needle.length ≤ haystack.length) (hfrom : «from» ≤ haystack.length) :
    LastOf (OccursAt haystack needle) (min «from» (haystack.length - needle.length) + 1)
      (backwardSearch haystack needle «from») := by
  unfold backwardSearch
  dsimp only
  obtain ⟨k, hk⟩ : ∃ k, needle.length = k + 1 := Nat.exists_eq_succ_of_ne_zero (by omega)
  rw [if_neg (Nat.not_lt.mpr hle), if_neg (Nat.not_lt.mpr hfrom)]
  have hstart : (if haystack.length - needle.length < «from» then haystack.length - needle.length else «from») =
      min «from» (haystack.length - needle.length) := by
    split_ifs <;> omega
  have hminus : (needle.length + (2 ^ 32 - 1)) % 2 ^ 32 = k := by omega
  rw [hstart, hminus]
  set start := min «from» (haystack.length - needle.length) with hmin
  have hinside : start + k < haystack.length := by omega
  have hneedle : hashBack needle k needle.length = windowHash needle := by
    have hall := hashBack_eq (s := needle) (p := 0) (k := k) (by omega)
    rw [Nat.zero_add, List.drop_zero, ← hk, List.take_length] at hall
    exact hall
  rw [hneedle, hk, hashBack_eq hinside]
  exact searchBack_spec hk start _ hinside (sub_add_cancel _ _)

/-- **The search backwards.** A needle that is longer than the haystack, or a position behind it, finds nothing;
otherwise the last match is found that is not behind the position. -/
theorem backwardSearch_spec (haystack needle : Bytes) («from» : ℕ) (hone : 1 ≤ needle.length)
    (hlen : needle.length < 2 ^ 32) :
    (haystack.length < needle.length ∨ haystack.length < «from» → backwardSearch haystack needle «from» = none) ∧
    (needle.length ≤ haystack.length → «from» ≤ haystack.length →
      LastOf (OccursAt haystack needle) (min «from» (haystack.length - needle.length) + 1)
        (backwardSearch haystack needle «from»)) :=
  ⟨backwardSearch_none, backwardSearch_last hone hlen⟩

/-- The second `ab` of `abab`. -/
theorem backwardSearch_spec_abab :
    LastOf (OccursAt [97, 98, 97, 98] [97, 98]) 3 (backwardSearch [97, 98, 97, 98] [97, 98] 4) :=
  (backwardSearch_spec [97, 98, 97, 98] [97, 98] 4 (by decide) (by decide)).2 (by decide) (by decide)

/-! ### The last occurrence -/

/-- `strrchr`, the last place of a byte. -/
def strrchr (s : Bytes) (c : UInt8) : Option ℕ := (List.range s.length).reverse.find? fun i => s.at i == c

/-- `fcitx_utils_strrstr`, the position of the match; the lengths are taken as `int`, so they are below 2^31. -/
def strrstr (haystack needle : Bytes) : Option ℕ :=
  if needle.at 0 == 0 then none
  else if needle.at 1 == 0 then strrchr haystack (needle.at 0)
  else backwardSearch haystack needle 0

/-- The search of `fcitx_library_find_data` in the bytes of a file. -/
def libraryFindData (data magic : Bytes) : Option ℕ := backwardSearch data magic 0

/-- **The law of the last occurrence.** -/
def FindsLast (haystack needle : Bytes) (result : Option ℕ) : Prop :=
  LastOf (OccursAt haystack needle) haystack.length result

theorem OccursAt.le {i : ℕ} (h : OccursAt haystack needle i) (hne : needle ≠ []) :
    i + needle.length ≤ haystack.length := by
  have hlen := h.length_le
  have hpos := List.length_pos_of_ne_nil hne
  rw [List.length_drop] at hlen
  omega

/-- **The search from 0** sees the start only. -/
theorem backwardSearch_zero_iff (hne : needle ≠ []) (hlen : needle.length < 2 ^ 31) :
    FindsLast haystack needle (backwardSearch haystack needle 0) ↔ ∀ i, 0 < i → ¬ OccursAt haystack needle i := by
  have hpos := List.length_pos_of_ne_nil hne
  by_cases hle : needle.length ≤ haystack.length
  · have hlast := backwardSearch_last hpos (by omega) hle (Nat.zero_le _)
    rw [Nat.zero_min, Nat.zero_add] at hlast
    constructor
    · intro hfinds i hi hoccurs
      have hbound := hoccurs.le hne
      cases hresult : backwardSearch haystack needle 0 with
      | none =>
        rw [hresult] at hfinds
        exact hfinds i (by omega) hoccurs
      | some j =>
        rw [hresult] at hfinds hlast
        have hj := hlast.1
        have hij := hfinds.2.2 i (by omega) hoccurs
        omega
    · intro hnone
      have hstart : ∀ j, OccursAt haystack needle j → j = 0 := fun j hoccurs =>
        Nat.eq_zero_of_not_pos fun hj => hnone j hj hoccurs
      cases hresult : backwardSearch haystack needle 0 with
      | none =>
        rw [hresult] at hlast
        intro j _ hoccurs
        exact hlast j (by have := hstart j hoccurs; omega) hoccurs
      | some j =>
        rw [hresult] at hlast
        have hbound := hlast.2.1.le hne
        exact ⟨by omega, hlast.2.1, fun j' _ hoccurs => by have := hstart j' hoccurs; omega⟩
  · -- a needle that does not fit
    rw [backwardSearch_none (Or.inl (Nat.lt_of_not_le hle))]
    have hnone : ∀ i, ¬ OccursAt haystack needle i := fun i hoccurs => hle (by have := hoccurs.le hne; omega)
    exact iff_of_true (fun j _ => hnone j) fun i _ => hnone i

theorem LastOf.congr {Q : ℕ → Prop} {r : Option ℕ} (h : LastOf P n r) (hpq : ∀ i < n, P i ↔ Q i) : LastOf Q n r := by
  cases r with
  | none => exact fun j hj hq => h j hj ((hpq j hj).mpr hq)
  | some i => exact ⟨h.1, (hpq i h.1).mp h.2.1, fun j hj hq => h.2.2 j hj ((hpq j hj).mpr hq)⟩

theorem lastOf_find (p : ℕ → Bool) (n : ℕ) : LastOf (fun i => p i = true) n ((List.range n).reverse.find? p) := by
  induction n with
  | zero => exact fun j hj => absurd hj (Nat.not_lt_zero j)
  | succ n ih =>
    rw [List.range_succ, List.reverse_append, List.reverse_singleton, List.singleton_append, List.find?_cons]
    cases hn : p n with
    | true => exact lastOf_succ_of_pos hn
    | false => exact ih.succ (by simp [hn])

theorem strrchr_last (s : Bytes) (c : UInt8) : FindsLast s [c] (strrchr s c) := by
  refine (lastOf_find (fun i => s.at i == c) s.length).congr fun i hi => ?_
  have hdrop : s.drop i = s[i] :: s.drop (i + 1) := List.drop_eq_getElem_cons hi
  rw [occursAt_iff, hdrop, at_eq_getElem hi, List.length_singleton, List.take_succ_cons, List.take_zero]
  simp

/-- **The last occurrence**, for all strings and files: `fcitx_utils_strrstr` finds it exactly if the needle is a
single byte or occurs nowhere behind the start, and `fcitx_library_find_data` exactly in the second case. -/
theorem findsLast_iff (haystack needle : Bytes) (hne : needle ≠ []) (hneedle : needle.length < 2 ^ 31) :
    (0 ∉ needle → (FindsLast haystack needle (strrstr haystack needle) ↔
      needle.length = 1 ∨ ∀ i, 0 < i → ¬ OccursAt haystack needle i)) ∧
    (((∃ i, OccursAt haystack needle i) → FindsLast haystack needle (libraryFindData haystack needle)) ↔
      ∀ i, 0 < i → ¬ OccursAt haystack needle i) := by
  have hzero : FindsLast haystack needle (backwardSearch haystack needle 0) ↔ _ :=
    backwardSearch_zero_iff hne hneedle
  constructor
  · intro h0
    unfold strrstr
    rcases needle with _ | ⟨c, _ | ⟨d, needle⟩⟩
    · exact absurd rfl hne
    · have hc : ¬ (Bytes.at [c] 0 == 0) = true := by
        rw [beq_iff_eq]
        exact fun e => h0 (e ▸ List.mem_cons_self)
      rw [if_neg hc, if_pos (by rfl)]
      exact iff_of_true (strrchr_last haystack c) (Or.inl rfl)
    · have hc : ¬ (Bytes.at (c :: d :: needle) 0 == 0) = true := by
        rw [beq_iff_eq]
        exact fun e => h0 (e ▸ List.mem_cons_self)
      have hd : ¬ (Bytes.at (c :: d :: needle) 1 == 0) = true := by
        rw [beq_iff_eq]
        exact fun e => h0 (e ▸ List.mem_cons_of_mem c List.mem_cons_self)
      rw [if_neg hc, if_neg hd, hzero]
      simp
  · constructor
    · intro h i hi hoccurs
      exact hzero.mp (h ⟨i, hoccurs⟩) i hi hoccurs
    · exact fun h _ => hzero.mpr h

/-- A needle at the start only. -/
theorem findsLast_iff_start :
    FindsLast [97, 98, 99] [97, 98] (strrstr [97, 98, 99] [97, 98]) ↔
      List.length [97, 98] = 1 ∨ ∀ i, 0 < i → ¬ OccursAt [97, 98, 99] [97, 98] i :=
  (findsLast_iff [97, 98, 99] [97, 98] (by decide) (by decide)).1 (by decide)

/-- The last `ab` of `aab` is not found in the string, nor in a file of these bytes. -/
theorem not_findsLast_behind :
    ¬ FindsLast [97, 97, 98] [97, 98] (strrstr [97, 97, 98] [97, 98]) ∧
      ¬ ((∃ i, OccursAt [97, 97, 98] [97, 98] i) →
        FindsLast [97, 97, 98] [97, 98] (libraryFindData [97, 97, 98] [97, 98])) := by
  have hoccurs : OccursAt [97, 97, 98] [97, 98] 1 := by decide
  have hsearch : backwardSearch [97, 97, 98] [97, 98] 0 = none := by decide
  have hnone : ¬ FindsLast [97, 97, 98] [97, 98] none := fun h => h 1 (by decide) hoccurs
  constructor
  · rw [strrstr, if_neg (by decide), if_neg (by decide), hsearch]
    exact hnone
  · rw [libraryFindData, hsearch]
    exact fun h => hnone (h ⟨1, hoccurs⟩)

end Fcitx
