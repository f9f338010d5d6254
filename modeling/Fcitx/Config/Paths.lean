/-
# The segments of paths

The segments of a path have no slash, and are made of its bytes; what is put behind a
path goes to its last segment, or is a segment of its own behind a slash. The keys of a
tree that is made through paths are segments, and stay so.

Key definitions: `Configuration.SegmentKeys`, `Configuration.KeysNamed`,
`Configuration.WellFormed`.
Key theorems: `segments_append_slash`, `segments_append_text`,
`Configuration.WellFormed.setValueByPath`.
-/
import Fcitx.Config.Foreach
import Fcitx.Config.PathMap

namespace Fcitx

open Fcitx.Configuration (subPath)

/-! ### What a segment is -/

/-- A segment has no slash, and only bytes of the path. -/
theorem mem_segments {path segment : Bytes} (h : segment ∈ segments path) :
    slash ∉ segment ∧ ∀ b ∈ segment, b ∈ path := by
  induction path using segments.induct with
  | case1 =>
    rw [segments_nil] at h
    cases h
  | case2 b bs ih =>
    have hskip : skipSlash (b :: bs) <:+ b :: bs := by
      rw [skipSlash]
      split
      · exact List.suffix_cons b bs
      · exact List.suffix_rfl
    rw [segments_cons] at h
    rcases List.mem_cons.mp h with rfl | hrest
    · refine ⟨fun hslash => ?_, fun c hc => hskip.mem ((List.takeWhile_prefix _).mem hc)⟩
      exact absurd (List.mem_takeWhile_imp hslash) (by simp)
    · obtain ⟨hslash, hmem⟩ := ih hrest
      exact ⟨hslash, fun c hc => hskip.mem ((List.dropWhile_suffix _).mem (hmem c hc))⟩

theorem segOf_of_notMem {name : Bytes} (h : slash ∉ name) : segOf name = name ∧ strchrnulSlash name = [] := by
  have hall : ∀ b ∈ name, (b != slash) = true := by
    intro b hb
    rw [bne_iff_ne]
    rintro rfl
    exact h hb
  exact ⟨List.takeWhile_eq_self_iff.mpr hall, List.dropWhile_eq_nil_iff.mpr hall⟩

/-- A name behind a slash is one more segment. -/
theorem segments_append_slash (path : Bytes) {name : Bytes} (h : slash ∉ name) :
    segments (path ++ slash :: name) = segments path ++ [name] := by
  induction path using segments.induct with
  | case1 =>
    obtain ⟨hseg, hrest⟩ := segOf_of_notMem h
    have hskip : skipSlash (slash :: name) = name := by rw [skipSlash, if_pos rfl]
    rw [List.nil_append, segments_cons, hskip, hseg, hrest, segments_nil]
    rfl
  | case2 b bs ih =>
    have hskip : skipSlash (b :: bs ++ slash :: name) = skipSlash (b :: bs) ++ slash :: name := by
      rw [List.cons_append, skipSlash, skipSlash]
      split <;> rfl
    have hstop : (slash != slash) = false := bne_self_eq_false slash
    have hseg : segOf (skipSlash (b :: bs) ++ slash :: name) = segOf (skipSlash (b :: bs)) := by
      unfold segOf
      rw [List.takeWhile_append]
      split
      · next hlen =>
        rw [List.takeWhile_cons, hstop, if_neg Bool.false_ne_true, List.append_nil]
        exact ((List.takeWhile_prefix _).eq_of_length hlen).symm
      · rfl
    have hrest : strchrnulSlash (skipSlash (b :: bs) ++ slash :: name) =
        strchrnulSlash (skipSlash (b :: bs)) ++ slash :: name := by
      unfold strchrnulSlash
      rw [List.dropWhile_append]
      split
      · next hempty =>
        rw [List.isEmpty_iff.mp hempty, List.dropWhile_cons, hstop]
        rfl
      · rfl
    rw [List.cons_append, segments_cons, ← List.cons_append, hskip, hseg, hrest, ih, segments_cons]
    rfl

theorem skipSlash_of_notMem {name : Bytes} (h : slash ∉ name) : skipSlash name = name := by
  cases name with
  | nil => rfl
  | cons b name =>
    rw [skipSlash, if_neg]
    rintro rfl
    exact h List.mem_cons_self

/-- A name without slashes is a path of one segment. -/
theorem segments_of_notMem {name : Bytes} (hne : name ≠ []) (h : slash ∉ name) : segments name = [name] := by
  obtain ⟨hseg, hrest⟩ := segOf_of_notMem h
  obtain ⟨b, bs, rfl⟩ := List.exists_cons_of_ne_nil hne
  rw [segments_cons, skipSlash_of_notMem h, hseg, hrest, segments_nil]

/-- The path of a subitem has its name as the last segment. -/
theorem segments_subPath_of_notMem (path : Bytes) {name : Bytes} (hne : name ≠ []) (h : slash ∉ name) :
    segments (subPath path name) = segments path ++ [name] := by
  unfold subPath
  split
  · next hnil => rw [hnil, segments_nil, segments_of_notMem hne h, List.nil_append]
  · exact segments_append_slash path h

/-- The path of a subitem has the bytes of its name and of the path before it. -/
theorem notMem_subPath {path name : Bytes} {c : UInt8} (hpath : c ∉ path) (hname : c ∉ name) (hc : c ≠ slash) :
    c ∉ subPath path name := by
  unfold subPath
  split
  · exact hname
  · rw [List.mem_append, List.mem_cons, not_or, not_or]
    exact ⟨hpath, hc, hname⟩

theorem subPath_ne_nil {name : Bytes} (path : Bytes) (h : name ≠ []) : subPath path name ≠ [] := by
  unfold subPath
  split
  · exact h
  · exact List.append_ne_nil_of_right_ne_nil _ (List.cons_ne_nil _ _)

/-- **A text behind a path** goes to the last segment. -/
theorem segments_append_text {path : Bytes} (hpath : path ≠ []) : ∃ front last, segments path = front ++ [last] ∧
    ∀ text, slash ∉ text → segments (path ++ text) = front ++ [last ++ text] := by
  induction path using segments.induct with
  | case1 => exact absurd rfl hpath
  | case2 b bs ih =>
    have hskip : ∀ text, skipSlash (b :: bs ++ text) = skipSlash (b :: bs) ++ text := by
      intro text
      rw [List.cons_append, skipSlash, skipSlash]
      split <;> rfl
    rw [segments_cons]
    simp only [List.cons_append, segments_cons]
    simp only [← List.cons_append, hskip]
    set path := skipSlash (b :: bs) with hset
    by_cases hlast : strchrnulSlash path = []
    · -- the last segment is the rest of the path
      have hslash : ∀ c ∈ path, (c != slash) = true := List.dropWhile_eq_nil_iff.mp hlast
      refine ⟨[], segOf path, by rw [hlast, segments_nil]; rfl, fun text htext => ?_⟩
      obtain ⟨hseg, hrest⟩ := segOf_of_notMem htext
      have hseg' : segOf (path ++ text) = segOf path ++ text := by
        unfold segOf at hseg ⊢
        rw [List.takeWhile_append_of_pos hslash, List.takeWhile_eq_self_iff.mpr hslash, hseg]
      have hrest' : strchrnulSlash (path ++ text) = [] := by
        unfold strchrnulSlash at hrest ⊢
        rw [List.dropWhile_append_of_pos hslash, hrest]
      rw [hseg', hrest', segments_nil]
      rfl
    · obtain ⟨front, last, hsegments, happend⟩ := ih hlast
      refine ⟨segOf path :: front, last, by rw [hsegments]; rfl, fun text htext => ?_⟩
      have hne : path.dropWhile (· != slash) ≠ [] := hlast
      have hseg : segOf (path ++ text) = segOf path := by
        unfold segOf
        rw [List.takeWhile_append, if_neg]
        intro hlen
        apply hne
        have hall := (List.takeWhile_prefix (· != slash)).eq_of_length hlen
        exact List.dropWhile_eq_nil_iff.mpr (List.takeWhile_eq_self_iff.mp hall)
      have hrest : strchrnulSlash (path ++ text) = strchrnulSlash path ++ text := by
        unfold strchrnulSlash
        rw [List.dropWhile_append, if_neg (by simpa using hne)]
      rw [hseg, hrest, happend text htext]
      rfl

/-! ### A path of one segment -/

namespace Configuration

theorem find_singleton (config : Configuration) (k : Bytes) : config.find [k] = config.child k := by
  rw [KeyTree.find_cons]
  cases config.child k <;> rfl

/-- Looking for a path of one segment is looking for the child. -/
theorem get_segment {name : Bytes} (hne : name ≠ []) (h : slash ∉ name) (config : Configuration) :
    (config.get name).bind config.find = config.child name := by
  rw [get_eq, segments_of_notMem hne h, find_singleton]
  split
  · rw [Option.bind_some, find_singleton]
  · next hnone =>
    rw [Bool.not_eq_true, Option.isSome_eq_false_iff, Option.isNone_iff_eq_none] at hnone
    rw [hnone]
    rfl

/-- The empty path is the node itself. -/
theorem foreach_nil {σ : Type} (config : Configuration) (path : Bytes) (callback : ForeachCallback σ) (s : σ) :
    Configuration.foreach config [] path callback s = _foreach config path callback s := by
  unfold Configuration.foreach
  rw [get_eq, segments_nil]
  rfl

/-- Making a path of one segment makes the child if it is missing. -/
theorem _get_segment {name : Bytes} (hne : name ≠ []) (h : slash ∉ name) (config : Configuration) :
    let result := config._get name true
    result.config = some [name] ∧
      result.root = if (config.child name).isSome then config
        else KeyTree.insertChild name ⟨some name, none, none⟩ config := by
  obtain ⟨hseg, hrest⟩ := segOf_of_notMem h
  have hskip := skipSlash_of_notMem h
  obtain ⟨b, bs, rfl⟩ := List.exists_cons_of_ne_nil hne
  rw [_get, getLoop, hskip, hseg, hrest, List.nil_append, find_singleton]
  split
  · rw [getLoop]
    exact ⟨rfl, rfl⟩
  · rw [if_pos rfl, getLoop]
    exact ⟨rfl, rfl⟩

/-! ### Trees that are made through paths -/

/-- The keys of the tree are segments of strings. -/
def SegmentKeys (root : Configuration) : Prop := ∀ ks, (root.find ks).isSome → ∀ k ∈ ks, slash ∉ k ∧ 0 ∉ k

theorem segmentKeys_new (name : Option Bytes) : (Configuration.new name).SegmentKeys := by
  intro ks hfind k hk
  cases ks with
  | nil => cases hk
  | cons k' ks => cases hfind

/-- **Setting a value keeps the keys segments.** -/
theorem SegmentKeys.setValueByPath {root : Configuration} (h : root.SegmentKeys) (hd : root.Distinct) {path : Bytes}
    (hpath : 0 ∉ path) (value : Option Bytes) : (root.setValueByPath path value).SegmentKeys := by
  intro ks hfind k hk
  have hdata : ∀ {config : Configuration}, (config.find ks).isSome = (config.dataAt ks).isSome := by
    intro config
    rw [KeyTree.dataAt, Option.isSome_map]
  rw [hdata, (dataAt_setValueByPath hd path value).2 ks, Option.isSome_map, Option.isSome_or, Bool.or_eq_true,
    ← hdata] at hfind
  rcases hfind with hfind | hmade
  · exact h ks hfind k hk
  · split at hmade
    · next hway =>
      obtain ⟨hslash, hmem⟩ := mem_segments (hway.mem hk)
      exact ⟨hslash, fun hzero => hpath (hmem 0 hzero)⟩
    · cases hmade

/-- Removing a path keeps the keys segments. -/
theorem SegmentKeys.remove {root root' : Configuration} (h : root.SegmentKeys) (hd : root.Distinct) {path : Bytes}
    (hpath : path ≠ []) (hremove : root.remove path = some root') : root'.SegmentKeys := by
  rcases root.remove_cases hpath with ⟨-, heq⟩ | ⟨ks, k, u, -, hu, heq⟩
  · rw [hremove] at heq
    rwa [Option.some.inj heq]
  · rw [hremove] at heq
    rw [Option.some.inj heq]
    intro js hfind
    apply h js
    have hdata : (root.modify (KeyTree.eraseChild k) ks).dataAt js =
        if ks ++ [k] <+: js then none else root.dataAt js := KeyTree.dataAt_eraseChild hd hu
    rw [KeyTree.dataAt] at hdata
    rw [← Option.isSome_map (f := KeyTree.data), hdata] at hfind
    split at hfind
    · cases hfind
    · rwa [KeyTree.dataAt, Option.isSome_map] at hfind

/-- Every node below the root is named by its key. -/
def KeysNamed (root : Configuration) : Prop :=
  ∀ ks k strings, root.dataAt (ks ++ [k]) = some strings → strings.name = some k

theorem keysNamed_new (name : Option Bytes) : (Configuration.new name).KeysNamed := by
  intro ks k strings hdata
  have hleaf : (Configuration.new name).find (ks ++ [k]) = none := KeyTree.find_leaf (by simp)
  rw [KeyTree.dataAt, hleaf] at hdata
  cases hdata

/-- **Setting a value keeps the names.** -/
theorem KeysNamed.setValueByPath {root : Configuration} (h : root.KeysNamed) (hd : root.Distinct) (path : Bytes)
    (value : Option Bytes) : (root.setValueByPath path value).KeysNamed := by
  intro ks k strings hdata
  rw [(dataAt_setValueByPath hd path value).2 (ks ++ [k])] at hdata
  obtain ⟨old, hold, rfl⟩ := Option.map_eq_some_iff.mp hdata
  have hname : old.name = some k := by
    rcases Option.or_eq_some_iff.mp hold with hthere | ⟨-, hmade⟩
    · exact h ks k old hthere
    · split at hmade
      · rw [made, List.getLast?_concat] at hmade
        rw [← Option.some.inj hmade]
      · cases hmade
  split
  · exact hname
  · exact hname

theorem KeysNamed.remove {root root' : Configuration} (h : root.KeysNamed) (hd : root.Distinct) {path : Bytes}
    (hpath : path ≠ []) (hremove : root.remove path = some root') : root'.KeysNamed := by
  rcases root.remove_cases hpath with ⟨-, heq⟩ | ⟨ks, k, u, -, hu, heq⟩
  · rw [hremove] at heq
    rwa [Option.some.inj heq]
  · rw [hremove] at heq
    rw [Option.some.inj heq]
    intro js j strings hdata
    rw [KeyTree.dataAt_eraseChild hd hu] at hdata
    split at hdata
    · cases hdata
    · exact h js j strings hdata

/-- What holds of every tree that is made through paths. -/
structure WellFormed (root : Configuration) : Prop where
  distinct : root.Distinct
  segmentKeys : root.SegmentKeys
  keysNamed : root.KeysNamed

theorem wellFormed_new (name : Option Bytes) : (Configuration.new name).WellFormed where
  distinct := KeyTree.distinct_leaf
  segmentKeys := segmentKeys_new name
  keysNamed := keysNamed_new name

theorem WellFormed.setValueByPath {root : Configuration} (h : root.WellFormed) {path : Bytes} (hpath : 0 ∉ path)
    (value : Option Bytes) : (root.setValueByPath path value).WellFormed where
  distinct := (dataAt_setValueByPath h.distinct path value).1
  segmentKeys := h.segmentKeys.setValueByPath h.distinct hpath value
  keysNamed := h.keysNamed.setValueByPath h.distinct path value

theorem WellFormed.remove {root root' : Configuration} (h : root.WellFormed) {path : Bytes} (hpath : path ≠ [])
    (hremove : root.remove path = some root') : root'.WellFormed where
  distinct := by
    obtain ⟨root'', hremove', hd, -⟩ := values_remove h.distinct hpath
    rw [hremove] at hremove'
    rwa [Option.some.inj hremove']
  segmentKeys := h.segmentKeys.remove h.distinct hpath hremove
  keysNamed := h.keysNamed.remove h.distinct hpath hremove

/-- What is below a node is well formed too. -/
theorem WellFormed.find {root config : Configuration} (h : root.WellFormed) {start : NodePtr}
    (hstart : root.find start = some config) : config.WellFormed := by
  have hbelow : ∀ ks, config.find ks = root.find (start ++ ks) := by
    intro ks
    rw [KeyTree.find_append, hstart, Option.bind_some]
  refine ⟨h.distinct.find hstart, fun ks hfind k hk => ?_, fun ks k strings hdata => ?_⟩
  · rw [hbelow] at hfind
    exact h.segmentKeys (start ++ ks) hfind k (List.mem_append_right _ hk)
  · rw [KeyTree.dataAt, hbelow, ← List.append_assoc] at hdata
    exact h.keysNamed (start ++ ks) k strings hdata

end Configuration
end Fcitx
