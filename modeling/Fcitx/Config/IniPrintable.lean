/-
# What can be written again

The writer gives the subitems of every node it visits to the helper of
`fcitx_configuration_foreach` with nothing before their names, so it is safe
exactly if no node has a first subitem without a name. The first subitem of a
node is what the first option below it goes on with.

Key definitions: `Configuration.firstKey`, `Configuration.FirstNamed`, `nextSegment`, `NamesFirst`.
Key theorems: `Configuration.firstKey_setValueByPath`, `iniForeachCallback_isSome`,
`iniPrint_iniParse_iff`.
-/
import Fcitx.Config.Ini
import Fcitx.Config.Paths

namespace Fcitx

/-! ### The first subitems -/

/-- The segment that a path goes on with behind `q`. -/
def nextSegment (q segments : List Bytes) : Option Bytes := if q <+: segments then segments[q.length]? else none

namespace Configuration

open KeyTree

variable {root : Configuration} {pos q : List Bytes}

/-- The name of the first subitem of a node. -/
def firstKey (root : Configuration) (q : List Bytes) : Option Bytes := (root.viewAt q).bind fun v => v.2.head?

theorem firstKey_eq (root : Configuration) (q : List Bytes) :
    root.firstKey q = (root.find q).bind fun config => (Assoc.keys config.entries).head? := by
  rw [firstKey, viewAt, Option.bind_map]
  rfl

/-- A node with a node below has a first subitem. -/
theorem firstKey_isSome {k : Bytes} {ks : List Bytes} (h : (root.find (q ++ k :: ks)).isSome) :
    (root.firstKey q).isSome := by
  rw [find_append] at h
  rw [firstKey_eq]
  cases hu : root.find q with
  | none =>
    rw [hu] at h
    cases h
  | some u =>
    rw [hu, Option.bind_some, find_cons] at h
    rw [Option.bind_some, Option.isSome_iff_ne_none]
    intro hnone
    have hempty : u.entries = [] := List.map_eq_nil_iff.mp (List.head?_eq_none_iff.mp hnone)
    rw [child, hempty] at h
    cases h

/-- Setting a value makes no subitem. -/
theorem firstKey_setValue (root : Configuration) (pos q : List Bytes) (value : Option Bytes) :
    firstKey (root.modify (setValue value) pos) q = root.firstKey q := by
  by_cases hp : pos <+: q
  · obtain ⟨js, rfl⟩ := hp
    rw [firstKey_eq, firstKey_eq, find_modify_append, find_append, Option.bind_assoc, Option.bind_assoc]
    refine congrArg _ (funext fun u => ?_)
    cases js with
    | nil => rfl
    | cons j js => rfl
  · rw [firstKey, firstKey, viewAt_modify hp]

/-- A new subitem is the first one where there was none. -/
theorem firstKey_insertChild {u : Configuration} (hu : root.find pos = some u) {k : Bytes}
    (hk : u.child k = none) (data : ConfigurationStrings) (q : List Bytes) :
    firstKey (root.modify (insertChild k data) pos) q =
      if q = pos then (root.firstKey pos).or (some k) else root.firstKey q := by
  by_cases hp : pos <+: q
  · obtain ⟨js, rfl⟩ := hp
    have hview : (root.modify (insertChild k data) pos).viewAt (pos ++ js) = (insertChild k data u).viewAt js := by
      rw [viewAt, find_modify_append, hu]
      rfl
    have hold : root.viewAt (pos ++ js) = u.viewAt js := by
      rw [viewAt, find_append, hu]
      rfl
    rw [firstKey, hview]
    by_cases hjs : js = []
    · subst hjs
      rw [List.append_nil, if_pos rfl, firstKey_eq, hu]
      show (Assoc.keys (u.entries ++ [(k, _)])).head? = (Assoc.keys u.entries).head?.or (some k)
      rw [Assoc.keys_concat, List.head?_append]
      rfl
    · rw [viewAt_insertChild hk hjs, if_neg fun h => hjs (List.append_right_eq_self.mp h), firstKey, hold]
      split
      · next hkey =>
        rw [hkey, viewAt, find_cons, hk]
        rfl
      · rfl
  · have hne : q ≠ pos := by
      rintro rfl
      exact hp List.prefix_rfl
    rw [firstKey, viewAt_modify hp, if_neg hne]
    rfl

/-- **The walk that makes a path** makes the segment that follows a node its first subitem, where it has
none. -/
theorem firstKey_getLoop (root : Configuration) (pos : NodePtr) (parent : Option NodePtr)
    (lastPath path : Bytes) (hpos : (root.find pos).isSome) (q : List Bytes) :
    (getLoop true root pos parent lastPath path).root.firstKey q =
      (root.firstKey q).or (nextSegment q (pos ++ segments path)) := by
  induction path using segments.induct generalizing root pos parent lastPath with
  | case1 =>
    rw [getLoop, segments_nil, List.append_nil]
    dsimp only
    unfold nextSegment
    split
    · next hp =>
      obtain ⟨js, rfl⟩ := hp
      cases js with
      | nil => simp
      | cons j js =>
        obtain ⟨k, hk⟩ := Option.isSome_iff_exists.mp (firstKey_isSome hpos)
        rw [hk]
        rfl
    · exact Option.or_none.symm
  | case2 b bs ih =>
    rw [getLoop, segments_cons]
    set path := skipSlash (b :: bs) with hpath
    have hstep : pos ++ segOf path :: segments (strchrnulSlash path) =
        (pos ++ [segOf path]) ++ segments (strchrnulSlash path) := by simp
    rw [hstep]
    split
    · next hfind => exact ih root (pos ++ [segOf path]) (some pos) path hfind
    · next hfind =>
      rw [Bool.not_eq_true, Option.isSome_eq_false_iff, Option.isNone_iff_eq_none] at hfind
      rw [if_pos rfl]
      obtain ⟨u, hu⟩ := Option.isSome_iff_exists.mp hpos
      have hchild : u.child (segOf path) = none := by
        rw [find_append, hu, Option.bind_some, find_cons] at hfind
        cases hc : u.child (segOf path) with
        | none => rfl
        | some c =>
          rw [hc] at hfind
          cases hfind
      set root₁ := root.modify (insertChild (segOf path) ⟨some (segOf path), none, none⟩) pos with hroot₁
      have hpos₁ : (root₁.find (pos ++ [segOf path])).isSome := by
        rw [hroot₁, find_modify_append, hu, Option.bind_some, find_cons, child_insertChild hchild, if_pos rfl]
        rfl
      rw [ih root₁ (pos ++ [segOf path]) (some pos) path hpos₁, hroot₁, firstKey_insertChild hu hchild]
      by_cases hq : q = pos
      · have hnext : nextSegment q ((pos ++ [segOf path]) ++ segments (strchrnulSlash path)) =
            some (segOf path) := by
          rw [nextSegment, List.append_assoc, hq, if_pos (List.prefix_append _ _)]
          simp
        rw [if_pos hq, hnext, hq, Option.or_assoc]
        rfl
      · rw [if_neg hq]

/-- **Setting a value** gives the nodes on the way a first subitem. -/
theorem firstKey_setValueByPath (root : Configuration) (path : Bytes) (value : Option Bytes) (q : List Bytes) :
    (root.setValueByPath path value).firstKey q = (root.firstKey q).or (nextSegment q (segments path)) := by
  have hwalk := firstKey_getLoop root [] none [] path rfl q
  rw [List.nil_append] at hwalk
  rw [← hwalk]
  unfold setValueByPath _get
  dsimp only
  split
  · exact firstKey_setValue _ _ q value
  · rfl

/-- No node has a first subitem without a name. -/
def FirstNamed (config : Configuration) : Prop := ∀ q, config.firstKey q ≠ some []

/-- It is so for a node and for its subitems. -/
theorem firstNamed_iff {config : Configuration} (h : config.Distinct) :
    config.FirstNamed ↔ (Assoc.keys config.entries).head? ≠ some [] ∧ ∀ e ∈ config.entries, FirstNamed e.2 := by
  have hbelow : ∀ e ∈ config.entries, ∀ q, config.firstKey (e.1 :: q) = firstKey e.2 q := by
    intro e he q
    rw [firstKey_eq, h.find_of_mem he, firstKey_eq]
  constructor
  · intro hnamed
    exact ⟨hnamed [], fun e he q => hbelow e he q ▸ hnamed (e.1 :: q)⟩
  · intro hall q
    obtain ⟨hhead, hnamed⟩ := hall
    cases q with
    | nil => exact hhead
    | cons k q =>
      rw [firstKey_eq, find_cons]
      cases hchild : config.child k with
      | none => exact Option.some_ne_none _ ∘ Eq.symm
      | some c =>
        have he : (k, c) ∈ config.entries := (child_eq_some_iff h.nodup).mp hchild
        have hc := hnamed (k, c) he q
        rw [firstKey_eq] at hc
        exact hc

end Configuration

open Fcitx.Configuration

/-! ### The writer -/

theorem iniForeachOptionCallback_isSome (beyond : Bytes → ℕ → UInt8) (config : Configuration) (path fp : Bytes) :
    (iniForeachOptionCallback beyond config path fp).isSome = true := by
  unfold iniForeachOptionCallback
  split <;> rfl

/-- **The writer is safe on the trees whose first subitems have names**; the depth is no matter. -/
theorem iniForeachCallback_isSome (beyond : Bytes → ℕ → UInt8) (depth : ℕ) (config : Configuration)
    (path fp : Bytes) (hdistinct : config.Distinct) (hdepth : config.height < depth) :
    (iniForeachCallback beyond depth config path fp).isSome = true ↔ config.FirstNamed := by
  induction depth generalizing config path fp with
  | zero => exact absurd hdepth (Nat.not_lt_zero _)
  | succ depth ih =>
    have hsub := _foreach_isSome config iniHasSubValueCallback false fun _ _ _ => rfl
    have hoption := fun fp => _foreach_isSome config (iniForeachOptionCallback beyond) fp
      (iniForeachOptionCallback_isSome beyond)
    have hbelow : ∀ e ∈ config.entries, ∀ s : Bytes,
        (iniForeachCallback beyond depth e.2 (cString (subPath path e.1)) s).isSome = true ↔ FirstNamed e.2 := by
      intro e he s
      apply ih e.2 _ s (hdistinct.of_mem he)
      have hlt := KeyTree.height_lt he
      omega
    rw [iniForeachCallback, foreach_nil, firstNamed_iff hdistinct]
    cases hrun : _foreach config [] iniHasSubValueCallback false with
    | none =>
      rw [hrun] at hsub
      exact iff_of_false Bool.false_ne_true fun hnamed => Bool.false_ne_true (hsub.mpr hnamed.1)
    | some hasSubValue =>
      rw [hrun] at hsub
      have hhead := hsub.mp rfl
      have hnull : ¬ config.NullBuffer path := fun hnull => hhead hnull.2
      have hlast : ∀ fp, (_foreach config path (iniForeachCallback beyond depth) fp).isSome = true ↔
          ∀ e ∈ config.entries, FirstNamed e.2 := by
        intro fp
        rw [_foreach_eq, if_neg hnull]
        exact foldlM_isSome hbelow fp
      rw [Option.bind_some, foreach_nil]
      simp only [foreach_nil]
      have hwritten : ∃ fp', (if hasSubValue = true then
          _foreach config [] (iniForeachOptionCallback beyond) (fp ++ writeGroup path) else some fp) = some fp' := by
        split
        · exact Option.isSome_iff_exists.mp ((hoption _).mpr hhead)
        · exact ⟨fp, rfl⟩
      obtain ⟨fp', hfp'⟩ := hwritten
      rw [hfp', Option.bind_some, hlast]
      exact ⟨fun hall => ⟨hhead, hall⟩, fun hall => hall.2⟩

/-! ### The trees of the reader -/

theorem foldl_setValueByPath (options : List (Bytes × Bytes)) {config : Configuration} (h : config.Distinct) :
    let result := options.foldl (fun config o => config.setValueByPath o.1 (some o.2)) config
    result.Distinct ∧ ∀ q, firstKey result q =
      (config.firstKey q).or (options.filterMap fun o => nextSegment q (segments o.1)).head? := by
  induction options generalizing config with
  | nil => exact ⟨h, fun q => Option.or_none.symm⟩
  | cons o options ih =>
    obtain ⟨hdistinct, hkeys⟩ := ih (values_setValueByPath h o.1 (some o.2)).1
    refine ⟨hdistinct, fun q => (hkeys q).trans ?_⟩
    rw [firstKey_setValueByPath, Option.or_assoc, List.filterMap_cons]
    cases nextSegment q (segments o.1) with
    | none => rfl
    | some k => rfl

/-- For every node, the first option below it goes on with a name: `options` are the paths and values that
a text sets. -/
def NamesFirst (options : List (Bytes × Bytes)) : Prop :=
  ∀ q : List Bytes, (options.filterMap fun o => nextSegment q (segments o.1)).head? ≠ some []

theorem iniParse_firstKey (text : Bytes) :
    (iniParse text freshConfiguration).Distinct ∧ ∀ q, firstKey (iniParse text freshConfiguration) q =
      ((iniOptions none (getlines text)).filterMap fun o => nextSegment q (segments o.1)).head? := by
  have hfresh : freshConfiguration.Distinct := KeyTree.distinct_leaf
  obtain ⟨hdistinct, hkeys⟩ := foldl_setValueByPath (iniOptions none (getlines text)) hfresh
  rw [iniParse_eq]
  refine ⟨hdistinct, fun q => (hkeys q).trans ?_⟩
  have hnone : freshConfiguration.firstKey q = none := by
    rw [firstKey_eq]
    cases q with
    | nil => rfl
    | cons k q => rfl
  rw [hnone, Option.none_or]

/-- **What was read can be written** exactly if, for every node, the first option below it goes on with a
name. -/
theorem iniPrint_iniParse_iff (beyond : Bytes → ℕ → UInt8) (text : Bytes) :
    (iniPrint beyond (iniParse text freshConfiguration)).isSome = true ↔
      NamesFirst (iniOptions none (getlines text)) := by
  obtain ⟨hdistinct, hkeys⟩ := iniParse_firstKey text
  rw [iniPrint, iniForeachCallback_isSome beyond _ _ _ _ hdistinct (Nat.lt_succ_self _)]
  unfold FirstNamed NamesFirst
  exact forall_congr' fun q => by rw [hkeys q]

/-- An option whose name is a slash makes a subitem without a name. -/
theorem not_iniPrint_slash :
    ¬ ∀ (beyond : Bytes → ℕ → UInt8) (text : Bytes),
      (iniPrint beyond (iniParse text freshConfiguration)).isSome = true := by
  intro h
  have hsome := h (fun _ _ => 0) "/=value".toUTF8.toList
  obtain ⟨hdistinct, hkeys⟩ := iniParse_firstKey "/=value".toUTF8.toList
  rw [iniPrint, iniForeachCallback_isSome _ _ _ _ _ hdistinct (Nat.lt_succ_self _)] at hsome
  have hoptions : iniOptions none (getlines "/=value".toUTF8.toList) = [([slash], "value".toUTF8.toList)] := by
    decide +kernel
  refine hsome [] ?_
  rw [hkeys, hoptions, List.filterMap_cons, segments_cons]
  rfl

end Fcitx
