/-
# Joining and parsing sets of strings

`fcitx_string_hashset_join` of `fcitx-utils/stringhashset.c` writes the strings of a set
with a delimiter between them, and `fcitx_string_hashset_parse` reads them back. A set
comes back unless a string has the delimiter or the last one is empty, a text unless a
field is there twice or the delimiter is at the end.

Key definitions: `hashsetJoin`, `hashsetParse`.
Key theorems: `hashsetParse_eq`, `hashsetParse_join_iff`, `hashsetJoin_parse_iff`.
-/
import Fcitx.Lib.Firsts
import Fcitx.Utils.Dict
import Fcitx.Utils.StringList

namespace Fcitx

/-- `fcitx_string_hashset_join`; `none` is a write behind the end of the buffer. -/
def hashsetJoin (uninit : ℕ → UInt8) (sset : List Bytes) (delim : UInt8) : Option Bytes :=
  if sset.length = 0 then some []
  else
    let len := sset.foldl (fun len key => len + (key.length + 1)) 0
    ((writeStrings delim sset (malloc uninit len) 0).bind fun result =>
      Buffer.write result (len - 1) [0]).map cString

variable {delim : UInt8} {sset : List Bytes} {str : Bytes}

theorem foldl_add_length (sset : List Bytes) (len : ℕ) :
    sset.foldl (fun len key => len + (key.length + 1)) len = len + (sset.map fun key => key.length + 1).sum := by
  induction sset generalizing len with
  | nil => rfl
  | cons key sset ih => rw [List.foldl_cons, ih, List.map_cons, List.sum_cons, Nat.add_assoc]

/-- A set is joined as a list is. -/
theorem hashsetJoin_eq (uninit : ℕ → UInt8) (h0 : ∀ key ∈ sset, 0 ∉ key) (hdelim : delim ≠ 0) :
    hashsetJoin uninit sset delim = some ([delim].intercalate sset) := by
  rw [← stringListJoin_eq uninit h0 hdelim, hashsetJoin, stringListJoin, foldl_add_length, Nat.zero_add]
  cases sset with
  | nil => rfl
  | cons key sset => rfl

theorem hashsetInsert_eq (sset : List Bytes) (key : Bytes) : hashsetInsert sset key = Firsts.put sset key := by
  by_cases h : key ∈ sset
  · rw [hashsetInsert, Firsts.put, if_pos h, if_pos h]
  · rw [hashsetInsert, Firsts.put, if_neg h, if_neg h]

/-- The loop, with the bytes since the last delimiter. -/
theorem hashsetParseLoop_eq {src : Bytes} (hsrc : delim ∉ src) (bs : Bytes) (sset : List Bytes) :
    hashsetParseLoop delim bs src sset =
      (Fields.dropEmptyEnd ((src ++ bs).splitOn delim)).foldl Firsts.put sset := by
  induction bs generalizing src sset with
  | nil =>
    rw [hashsetParseLoop, List.append_nil, List.splitOn_eq_singleton hsrc, Fields.dropEmptyEnd]
    split
    · rfl
    · exact hashsetInsert_eq sset src
  | cons b bs ih =>
    rw [hashsetParseLoop]
    by_cases hb : b = delim
    · subst hb
      rw [if_pos rfl, ih List.not_mem_nil, List.nil_append, List.splitOn_append_cons_self,
        List.splitOn_eq_singleton hsrc, List.singleton_append, Fields.dropEmptyEnd_cons _ (List.splitOn_ne_nil _ _),
        List.foldl_cons, hashsetInsert_eq]
    · have hmem : delim ∉ src ++ [b] := fun h => (List.mem_append.mp h).elim hsrc fun h' =>
        hb (List.mem_singleton.mp h').symm
      rw [if_neg hb, ih hmem, List.append_assoc, List.singleton_append]

/-- **Parsing** gives the fields, each once. -/
theorem hashsetParse_eq (str : Bytes) (delim : UInt8) :
    hashsetParse str delim = Firsts.firsts (Fields.dropEmptyEnd (str.splitOn delim)) := by
  rw [hashsetParse, hashsetParseLoop_eq List.not_mem_nil, List.nil_append, Firsts.foldl_put_nil]

theorem mem_hashsetParse {key : Bytes} (h : key ∈ hashsetParse str delim) : key ∈ str.splitOn delim := by
  rw [hashsetParse_eq, Firsts.mem_firsts] at h
  rcases List.eq_nil_or_concat (str.splitOn delim) with hnil | ⟨fields, field, hfields⟩
  · rw [hnil] at h
    cases h
  · rw [List.concat_eq_append] at hfields
    rw [hfields, Fields.dropEmptyEnd_concat] at h
    rw [hfields]
    split at h
    · exact List.mem_append_left _ ((List.append_nil fields) ▸ h)
    · exact h

/-- **A set that is written** is read back exactly if its strings do not have the delimiter and the last one is not
empty. -/
theorem hashsetParse_join_iff (uninit : ℕ → UInt8) (hsset : sset.Nodup) (h0 : ∀ key ∈ sset, 0 ∉ key)
    (hdelim : delim ≠ 0) :
    (hashsetJoin uninit sset delim).map (fun str => hashsetParse str delim) = some sset ↔
      (∀ key ∈ sset, delim ∉ key) ∧ sset.getLast? ≠ some [] := by
  rw [hashsetJoin_eq uninit h0 hdelim, Option.map_some, Option.some_inj]
  constructor
  · intro h
    have hclean : ∀ key ∈ sset, delim ∉ key := fun key hkey =>
      Fields.not_mem_of_mem_splitOn (mem_hashsetParse (h ▸ hkey))
    refine ⟨hclean, fun hlast => ?_⟩
    obtain ⟨front, rfl⟩ := List.getLast?_eq_some_iff.mp hlast
    rw [hashsetParse_eq, List.splitOn_intercalate delim hclean (List.concat_ne_nil _ _), Fields.dropEmptyEnd_concat,
      if_pos List.isEmpty_nil, List.append_nil] at h
    have hlength := Firsts.length_firsts_le front
    rw [h, List.length_append, List.length_singleton] at hlength
    omega
  · rintro ⟨hclean, hlast⟩
    rcases List.eq_nil_or_concat sset with rfl | ⟨front, last, rfl⟩
    · rfl
    · rw [List.concat_eq_append] at hsset hclean hlast ⊢
      rw [List.getLast?_concat] at hlast
      have hne : ¬ last.isEmpty = true := fun h => hlast (congrArg some (List.isEmpty_iff.mp h))
      rw [hashsetParse_eq, List.splitOn_intercalate delim hclean (List.concat_ne_nil _ _), Fields.dropEmptyEnd_concat,
        if_neg hne, Firsts.firsts_of_nodup hsset]

/-- An empty string in front. -/
theorem hashsetParse_join_iff_front : (hashsetJoin (fun _ => 0) [[], [97], [98, 99]] 44).map
    (fun str => hashsetParse str 44) = some [[], [97], [98, 99]] :=
  (hashsetParse_join_iff (fun _ => 0) (by decide) (by decide) (by decide)).mpr (by decide)

/-- **A text that is read** is written back exactly if no field is there twice and the delimiter is not at its end. -/
theorem hashsetJoin_parse_iff (uninit : ℕ → UInt8) (h0 : 0 ∉ str) (hdelim : delim ≠ 0) :
    hashsetJoin uninit (hashsetParse str delim) delim = some str ↔
      (str.splitOn delim).Nodup ∧ str.getLast? ≠ some delim := by
  have hzero : ∀ key ∈ hashsetParse str delim, 0 ∉ key := fun key hkey hmem =>
    h0 (Fields.mem_of_mem_splitOn (mem_hashsetParse hkey) hmem)
  have hclean : ∀ key ∈ hashsetParse str delim, delim ∉ key := fun key hkey =>
    Fields.not_mem_of_mem_splitOn (mem_hashsetParse hkey)
  rw [hashsetJoin_eq uninit hzero hdelim, Option.some_inj]
  by_cases hstr : str = []
  · subst hstr
    exact iff_of_true rfl ⟨List.nodup_singleton _, fun h => by cases h⟩
  constructor
  · intro h
    have hne : hashsetParse str delim ≠ [] := fun hnil => hstr (by rw [← h, hnil]; rfl)
    have hsplit : str.splitOn delim = hashsetParse str delim := by
      rw [← List.splitOn_intercalate delim hclean hne, h]
    refine ⟨?_, fun hend => ?_⟩
    · rw [hsplit, hashsetParse_eq]
      exact Firsts.firsts_nodup _
    · -- the text has one field more than are read
      have hfields := Fields.length_splitOn delim str
      have hread := Firsts.length_firsts_le (Fields.dropEmptyEnd (str.splitOn delim))
      rw [← hashsetParse_eq, ← hsplit, Fields.dropEmptyEnd_of_end hend] at hread
      omega
  · rintro ⟨hnodup, hend⟩
    rw [hashsetParse_eq, Fields.dropEmptyEnd_of_not_end hstr hend, Firsts.firsts_of_nodup hnodup,
      List.intercalate_splitOn]

/-- A delimiter at the end. -/
theorem hashsetJoin_parse_iff_end :
    ¬ hashsetJoin (fun _ => 0) (hashsetParse [97, 44] 44) 44 = some [97, 44] := fun h =>
  absurd ((hashsetJoin_parse_iff (fun _ => 0) (by decide) (by decide)).mp h).2 (by decide)

end Fcitx
