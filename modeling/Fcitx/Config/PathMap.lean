/-
# A configuration is a map from paths to values

What is seen of a configuration by its paths is a map from lists of segments to
values: setting a value changes one key, removing a path takes out the keys
below it, whatever nodes the tree has in between.

Key definitions: `segments`, `PathMap`, `Configuration.values`, `ConfigOp`.
Key theorems: `getLoop_create`, `getLoop_lookup`, `values_setValueByPath`,
`values_remove`, `run_pathMap`.
-/
import Fcitx.Config.Configuration

namespace Fcitx

/-- The segments of a path: one leading slash is skipped before each. -/
def segments : Bytes → List Bytes
  | [] => []
  | b :: bs => segOf (skipSlash (b :: bs)) :: segments (strchrnulSlash (skipSlash (b :: bs)))
termination_by path => path.length
decreasing_by exact strchrnulSlash_skipSlash b bs

theorem segments_nil : segments [] = [] := by rw [segments]

theorem segments_cons (b : UInt8) (bs : Bytes) : segments (b :: bs) =
    segOf (skipSlash (b :: bs)) :: segments (strchrnulSlash (skipSlash (b :: bs))) := by
  rw [segments]

/-! ### The map -/

/-- The values at lists of segments. -/
abbrev PathMap := List Bytes → Option Bytes

namespace PathMap

/-- One key gets the value. -/
def setValue (m : PathMap) (ks : List Bytes) (value : Option Bytes) : PathMap :=
  Function.update m ks value

/-- The keys with a prefix are deleted. -/
def remove (m : PathMap) (ks : List Bytes) : PathMap := fun js => if ks <+: js then none else m js

end PathMap

namespace Configuration

open KeyTree

/-- The value at every list of segments. -/
def values (root : Configuration) : PathMap := fun ks => (root.dataAt ks).bind (·.value)

theorem values_eq {root : Configuration} {ks : List Bytes} :
    root.values ks = (root.find ks).bind getValue := by
  rw [values, dataAt, Option.bind_map]
  rfl

/-! ### The walk along a path -/

theorem find_append_of_none {root : Configuration} {ks js : List Bytes} (h : root.find ks = none) :
    root.find (ks ++ js) = none := by
  rw [find_append, h]
  rfl

/-- **The walk that makes nothing** finds the node of the segments, and the
parent and the name below it. -/
theorem getLoop_lookup (root : Configuration) (pos : NodePtr) (parent : Option NodePtr)
    (lastPath path : Bytes) (hpos : (root.find pos).isSome) :
    let result := getLoop false root pos parent lastPath path
    result.root = root ∧
      result.config = (if (root.find (pos ++ segments path)).isSome then some (pos ++ segments path)
        else none) ∧
      (result.config.isSome → path ≠ [] → ∃ ks, segments path = ks ++ [result.lastPath] ∧
        result.parent = some (pos ++ ks)) := by
  induction path using segments.induct generalizing pos parent lastPath with
  | case1 =>
    rw [getLoop, segments_nil, List.append_nil, if_pos hpos]
    exact ⟨rfl, rfl, fun _ h => absurd rfl h⟩
  | case2 b bs ih =>
    rw [getLoop, segments_cons]
    set path := skipSlash (b :: bs) with hpath
    have hstep : pos ++ segOf path :: segments (strchrnulSlash path) =
        (pos ++ [segOf path]) ++ segments (strchrnulSlash path) := by simp
    split
    · next hfind =>
      obtain ⟨hroot, hconfig, hparent⟩ := ih (pos ++ [segOf path]) (some pos) path hfind
      refine ⟨hroot, ?_, fun hsome _ => ?_⟩
      · rw [hstep]
        exact hconfig
      · by_cases hrest : strchrnulSlash path = []
        · -- the last round: the rest of the path is the segment
          rw [hrest, segments_nil, getLoop]
          refine ⟨[], ?_, by simp⟩
          have hseg : segOf path = path := by
            have h := List.takeWhile_append_dropWhile (p := (· != slash)) (l := path)
            rw [show path.dropWhile (· != slash) = [] from hrest, List.append_nil] at h
            exact h
          rw [hseg]
          rfl
        · obtain ⟨ks, hks, hpar⟩ := hparent hsome hrest
          refine ⟨segOf path :: ks, ?_, ?_⟩
          · rw [hks]
            rfl
          · rw [hpar, List.append_assoc]
            rfl
    · next hfind =>
      rw [Bool.not_eq_true, Option.isSome_eq_false_iff, Option.isNone_iff_eq_none] at hfind
      rw [if_neg Bool.false_ne_true, hstep, find_append_of_none hfind]
      exact ⟨rfl, rfl, fun h _ => by cases h⟩

/-- The strings of a node made on the way. -/
def made (ks : List Bytes) : Option ConfigurationStrings :=
  ks.getLast?.map fun k => ⟨some k, none, none⟩

/-- A node that was made on the way has no value and no comment. -/
theorem made_strings {ks : List Bytes} {path : List Bytes} {strings : ConfigurationStrings}
    (h : (if ks <+: path then made ks else none) = some strings) : strings.value = none ∧ strings.comment = none := by
  split at h
  · obtain ⟨k, -, rfl⟩ := Option.map_eq_some_iff.mp h
    exact ⟨rfl, rfl⟩
  · cases h

/-- **The walk that makes the path** ends at the segments, and adds the missing
nodes on the way there. -/
theorem getLoop_create (root : Configuration) (pos : NodePtr) (parent : Option NodePtr)
    (lastPath path : Bytes) (hpos : (root.find pos).isSome) (hroot : root.Distinct) :
    let result := getLoop true root pos parent lastPath path
    result.config = some (pos ++ segments path) ∧ (result.root.find (pos ++ segments path)).isSome ∧
      result.root.Distinct ∧
      ∀ js, result.root.dataAt js =
        (root.dataAt js).or (if js <+: pos ++ segments path then made js else none) := by
  induction path using segments.induct generalizing root pos parent lastPath with
  | case1 =>
    rw [getLoop, segments_nil, List.append_nil]
    refine ⟨rfl, hpos, hroot, fun js => ?_⟩
    -- a node above one that is there is there
    split
    · next hp =>
      obtain ⟨ks, rfl⟩ := hp
      cases hjs : root.find js with
      | none =>
        rw [find_append_of_none hjs] at hpos
        cases hpos
      | some u => rw [dataAt, hjs]; rfl
    · exact Option.or_none.symm
  | case2 b bs ih =>
    rw [getLoop, segments_cons]
    set path := skipSlash (b :: bs) with hpath
    have hstep : pos ++ segOf path :: segments (strchrnulSlash path) =
        (pos ++ [segOf path]) ++ segments (strchrnulSlash path) := by simp
    rw [hstep]
    split
    · next hfind => exact ih root (pos ++ [segOf path]) (some pos) path hfind hroot
    · next hfind =>
      rw [Bool.not_eq_true, Option.isSome_eq_false_iff, Option.isNone_iff_eq_none] at hfind
      rw [if_pos rfl]
      obtain ⟨u, hu⟩ := Option.isSome_iff_exists.mp hpos
      have hchild : u.child (segOf path) = none := by
        rw [find_append, hu, Option.bind_some, find_cons] at hfind
        cases hc : u.child (segOf path) with
        | none => rfl
        | some c =>
          rw [hc] at hfind
          cases hfind
      set root₁ := root.modify (insertChild (segOf path) ⟨some (segOf path), none, none⟩) pos
        with hroot₁
      have hdata : ∀ js, root₁.dataAt js = if js = pos ++ [segOf path] then
          some ⟨some (segOf path), none, none⟩ else root.dataAt js :=
        fun js => dataAt_insertChild hu hchild
      have hdistinct : root₁.Distinct := hroot.modify fun v hv hd => by
        rw [hu] at hv
        rw [← Option.some.inj hv] at hd ⊢
        exact hd.insertChild hchild
      have hpos₁ : (root₁.find (pos ++ [segOf path])).isSome := by
        have h := hdata (pos ++ [segOf path])
        rw [if_pos rfl, dataAt] at h
        exact Option.isSome_map.symm.trans (congrArg Option.isSome h)
      obtain ⟨hconfig, hfound, hd, hall⟩ := ih root₁ (pos ++ [segOf path]) (some pos) path hpos₁ hdistinct
      refine ⟨hconfig, hfound, hd, fun js => ?_⟩
      rw [hall js, hdata js]
      by_cases hjs : js = pos ++ [segOf path]
      · rw [if_pos hjs, hjs, dataAt, hfind, if_pos (List.prefix_append _ _)]
        simp [made]
      · rw [if_neg hjs]

/-! ### What the operations do to the map -/

theorem get_eq (root : Configuration) (path : Bytes) :
    root.get path = if (root.find (segments path)).isSome then some (segments path) else none :=
  (getLoop_lookup root [] none [] path rfl).2.1

theorem getValueByPath_eq (root : Configuration) (path : Bytes) :
    root.getValueByPath path = root.values (segments path) := by
  rw [getValueByPath, get_eq, values_eq]
  split
  · rfl
  · next h =>
    rw [Bool.not_eq_true, Option.isSome_eq_false_iff, Option.isNone_iff_eq_none] at h
    rw [h]
    rfl

/-- The strings at every address after setting a value: the nodes on the way are made where they are missing. -/
theorem dataAt_setValueByPath {root : Configuration} (h : root.Distinct) (path : Bytes) (value : Option Bytes) :
    (root.setValueByPath path value).Distinct ∧
      ∀ js, (root.setValueByPath path value).dataAt js =
        ((root.dataAt js).or (if js <+: segments path then made js else none)).map fun strings =>
          if js = segments path then { strings with value := value } else strings := by
  obtain ⟨hconfig, hfound, hd, hall⟩ := getLoop_create root [] none [] path rfl h
  rw [setValueByPath, _get]
  set result := getLoop true root [] none [] path with hresult
  rw [List.nil_append] at hconfig hfound hall
  rw [hconfig]
  obtain ⟨u, hu⟩ := Option.isSome_iff_exists.mp hfound
  dsimp only
  refine ⟨hd.modify fun v _ hv => hv.setData, fun js => ?_⟩
  have hset : setValue value u = u.setData { u.data with value := value } := by
    rw [setValue, stringSwap_eq]
  rw [dataAt_setData hu hset, ← hall js]
  by_cases hjs : js = segments path
  · rw [if_pos hjs, hjs, dataAt, hu]
    simp
  · simp [hjs]

/-- **Setting a value** changes the key of the path. -/
theorem values_setValueByPath {root : Configuration} (h : root.Distinct) (path : Bytes)
    (value : Option Bytes) :
    (root.setValueByPath path value).Distinct ∧
      (root.setValueByPath path value).values = root.values.setValue (segments path) value := by
  obtain ⟨hd, hdata⟩ := dataAt_setValueByPath h path value
  refine ⟨hd, funext fun js => ?_⟩
  rw [values, hdata js, PathMap.setValue, Function.update_apply]
  by_cases hjs : js = segments path
  · -- the node is there, or it was made
    rw [if_pos hjs, if_pos (hjs ▸ List.prefix_rfl)]
    have hsome : ((root.dataAt js).or (made js)).isSome := by
      rw [Option.isSome_or]
      rcases List.eq_nil_or_concat js with rfl | ⟨front, k, rfl⟩
      · rfl
      · simp [made]
    obtain ⟨strings, hstrings⟩ := Option.isSome_iff_exists.mp hsome
    rw [hstrings, Option.map_some, if_pos hjs]
    rfl
  · rw [if_neg hjs]
    simp only [hjs, if_false, Option.map_id']
    cases hroot : root.dataAt js with
    | some d => rw [Option.some_or, values, hroot]
    | none =>
      rw [Option.none_or, values, hroot]
      cases hmade : (if js <+: segments path then made js else none) with
      | none => rfl
      | some strings => exact (made_strings hmade).1

/-- What removing a path does: nothing where there is no node, else the child is taken out. -/
theorem remove_cases (root : Configuration) {path : Bytes} (hpath : path ≠ []) :
    (root.find (segments path) = none ∧ root.remove path = some root) ∨
      ∃ ks k u, segments path = ks ++ [k] ∧ root.find ks = some u ∧
        root.remove path = some (root.modify (eraseChild k) ks) := by
  obtain ⟨-, hconfig, hparent⟩ := getLoop_lookup root [] none [] path rfl
  rw [remove, _get]
  set result := getLoop false root [] none [] path with hresult
  rw [List.nil_append] at hconfig
  by_cases hfind : (root.find (segments path)).isSome
  · rw [if_pos hfind] at hconfig
    obtain ⟨ks, hks, hpar⟩ := hparent (by rw [hconfig]; rfl) hpath
    rw [List.nil_append] at hpar
    obtain ⟨c, hc⟩ := Option.isSome_iff_exists.mp hfind
    have hu : ∃ u, root.find ks = some u := by
      cases hu : root.find ks with
      | some u => exact ⟨u, rfl⟩
      | none =>
        rw [hks, find_append_of_none hu] at hc
        cases hc
    obtain ⟨u, hu⟩ := hu
    refine Or.inr ⟨ks, result.lastPath, u, hks, hu, ?_⟩
    rw [hconfig, hpar]
    rfl
  · rw [if_neg hfind] at hconfig
    rw [Bool.not_eq_true, Option.isSome_eq_false_iff, Option.isNone_iff_eq_none] at hfind
    refine Or.inl ⟨hfind, ?_⟩
    rw [hconfig]
    rfl

/-- **Removing a path** takes out the keys below its segments. -/
theorem values_remove {root : Configuration} (h : root.Distinct) {path : Bytes} (hpath : path ≠ []) :
    ∃ root', root.remove path = some root' ∧ root'.Distinct ∧
      root'.values = root.values.remove (segments path) := by
  rcases root.remove_cases hpath with ⟨hfind, hremove⟩ | ⟨ks, k, u, hks, hu, hremove⟩
  · refine ⟨root, hremove, h, funext fun js => ?_⟩
    rw [PathMap.remove]
    split
    · next hp =>
      obtain ⟨is, rfl⟩ := hp
      rw [values_eq, find_append_of_none hfind]
      rfl
    · rfl
  · refine ⟨_, hremove, h.modify fun v _ hv => hv.eraseChild, funext fun js => ?_⟩
    rw [values, dataAt_eraseChild h hu, PathMap.remove, hks]
    split
    · rfl
    · rfl

end Configuration

/-! ### Whole runs -/

/-- The operations by path. -/
inductive ConfigOp where
  | setValueByPath (path : Bytes) (value : Option Bytes)
  | remove (path : Bytes)
  | getValueByPath (path : Bytes)
deriving DecidableEq

/-- Only a path that is not empty is removed. -/
def ConfigOp.Ok (op : ConfigOp) : Prop := op ≠ .remove []

instance configOpOkDecidable (op : ConfigOp) : Decidable op.Ok := inferInstanceAs (Decidable (op ≠ .remove []))

/-- A step on the tree: the tree afterwards and the lookups so far. -/
def Configuration.step (s : Configuration × List (Option Bytes)) :
    ConfigOp → Option (Configuration × List (Option Bytes))
  | .setValueByPath path value => some (s.1.setValueByPath path value, s.2)
  | .remove path => (s.1.remove path).map fun root => (root, s.2)
  | .getValueByPath path => some (s.1, s.2 ++ [s.1.getValueByPath path])

/-- A step on the map. -/
def PathMap.step (s : PathMap × List (Option Bytes)) : ConfigOp → PathMap × List (Option Bytes)
  | .setValueByPath path value => (s.1.setValue (segments path) value, s.2)
  | .remove path => (s.1.remove (segments path), s.2)
  | .getValueByPath path => (s.1, s.2 ++ [s.1 (segments path)])

/-- One step of the tree is one step of its map. -/
theorem Configuration.step_pathMap {s : Configuration × List (Option Bytes)} (h : s.1.Distinct)
    {op : ConfigOp} (hop : op.Ok) :
    ∃ s', Configuration.step s op = some s' ∧ s'.1.Distinct ∧
      (s'.1.values, s'.2) = PathMap.step (s.1.values, s.2) op := by
  cases op with
  | setValueByPath path value =>
    obtain ⟨hd, hvalues⟩ := values_setValueByPath h path value
    exact ⟨_, rfl, hd, Prod.ext hvalues rfl⟩
  | remove path =>
    obtain ⟨root, hroot, hd, hvalues⟩ := values_remove h fun e => hop (e ▸ rfl)
    refine ⟨(root, s.2), ?_, hd, Prod.ext hvalues rfl⟩
    rw [step, hroot]
    rfl
  | getValueByPath path =>
    refine ⟨_, rfl, h, Prod.ext rfl ?_⟩
    show s.2 ++ [s.1.getValueByPath path] = s.2 ++ [s.1.values (segments path)]
    rw [getValueByPath_eq]

/-- The run from any lookups on. -/
theorem Configuration.steps_pathMap (ops : List ConfigOp) {s : Configuration × List (Option Bytes)}
    (h : s.1.Distinct) (hops : ∀ op ∈ ops, op.Ok) :
    ∃ s', ops.foldlM Configuration.step s = some s' ∧
      (s'.1.values, s'.2) = ops.foldl PathMap.step (s.1.values, s.2) := by
  induction ops generalizing s with
  | nil => exact ⟨s, rfl, rfl⟩
  | cons op ops ih =>
    obtain ⟨s₁, hs₁, hd, hmap⟩ := step_pathMap h (hops op List.mem_cons_self)
    obtain ⟨s', hs', hmap'⟩ := ih hd fun op' hop => hops op' (List.mem_cons_of_mem _ hop)
    refine ⟨s', ?_, ?_⟩
    · rw [List.foldlM_cons, hs₁]
      exact hs'
    · rw [List.foldl_cons, ← hmap]
      exact hmap'

/-- **A configuration is a map from paths to values.** A run of the operations
by path on a tree with different keys in each dictionary shows the lookups of
the run on the map of its values. -/
theorem run_pathMap (root : Configuration) (ops : List ConfigOp) (h : root.Distinct)
    (hops : ∀ op ∈ ops, op.Ok) :
    ∃ s, ops.foldlM Configuration.step (root, []) = some s ∧
      (s.1.values, s.2) = ops.foldl PathMap.step (root.values, []) :=
  Configuration.steps_pathMap ops h hops

/-- Doubled slashes make a node with an empty name. -/
theorem run_pathMap_slashes :
    let ops : List ConfigOp :=
      [.setValueByPath "a//b".toUTF8.toList (some [49]), .getValueByPath "/a//b".toUTF8.toList,
        .getValueByPath "a/b".toUTF8.toList, .remove "a/".toUTF8.toList,
        .getValueByPath "a//b".toUTF8.toList]
    ∃ s, ops.foldlM Configuration.step (Configuration.new none, []) = some s ∧
      s.2 = [some [49], none, none] := by
  intro ops
  obtain ⟨s, hs, hmap⟩ := run_pathMap (Configuration.new none) ops KeyTree.distinct_leaf (by decide +kernel)
  refine ⟨s, hs, (congrArg Prod.snd hmap).trans ?_⟩
  decide +kernel

end Fcitx
