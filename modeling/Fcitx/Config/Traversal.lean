/-
# Walking over all nodes of a tree

`fcitx_configuration_foreach` of `fcitx-config/configuration.c` with `recursive`
set: the helper calls itself with the path in its buffer, so that every node has
a buffer of its own, which starts with the path of the node.

Key definitions: `Configuration.foreachAll`, `Configuration.foreachRecursive`,
`Configuration.Visit`, `Configuration.Traversal`, `Configuration.Walkable`.
Key theorems: `Configuration.foreachAll_walkable`, `Configuration.foreachAll_eq`,
`Configuration.foreachRecursive_visits`.
-/
import Fcitx.Config.Paths
import Fcitx.Lib.TreeWalk

namespace Fcitx
namespace Configuration

open KeyTree

/-! ### The recursion -/

section recursion

variable {σ : Type}

/-- `FcitxConfigurationForeachCallback`, with the pointer to the node. -/
abbrev NodeCallback (σ : Type) := NodePtr → ForeachCallback σ

mutual

/-- `_fcitx_configuration_foreach` with `recursive` true, at the node of `ptr`. -/
def foreachAll (callback : NodeCallback σ) : NodePtr → Configuration → Bytes → σ → Option σ
  | _, .node _ none, _, s => some s
  | ptr, .node _ (some subitems), path, s =>
    (subitemsForeachAll callback ptr subitems (⟨path, none, 0⟩, s)).map Prod.snd

/-- `_fcitx_configuration_subitems_foreach` with `recursive` true, for the subitems in order: after
the callback, the helper goes on below the subitem with what is in the buffer. -/
def subitemsForeachAll (callback : NodeCallback σ) :
    NodePtr → List (Bytes × Configuration) → ForeachContext × σ → Option (ForeachContext × σ)
  | _, [], s => some s
  | ptr, (key, config) :: subitems, s =>
    (subitemsForeach (fun _ pathBuf s =>
      (callback (ptr ++ [key]) config pathBuf s).bind (foreachAll callback (ptr ++ [key]) config pathBuf)) s
        (key, config)).bind (subitemsForeachAll callback ptr subitems)

end

/-- `fcitx_configuration_foreach` with `recursive` true; the pointers are from the start node. -/
def foreachRecursive (root : Configuration) (path : Bytes) (pathPrefix : Option Bytes) (callback : NodeCallback σ)
    (s : σ) : Option σ :=
  match (root.get path).bind root.find with
  | none => some s
  | some config => foreachAll callback [] config (pathPrefix.getD []) s

/-- The callback of the helper: the callback for the node, and then for the nodes below it. -/
def nodeAndBelow (callback : NodeCallback σ) (ptr : NodePtr) (item : Bytes × Configuration) : ForeachCallback σ :=
  fun _ pathBuf s =>
    (callback (ptr ++ [item.1]) item.2 pathBuf s).bind (foreachAll callback (ptr ++ [item.1]) item.2 pathBuf)

theorem subitemsForeachAll_eq (callback : NodeCallback σ) (ptr : NodePtr) (subitems : List (Bytes × Configuration))
    (s : ForeachContext × σ) : subitemsForeachAll callback ptr subitems s =
      subitems.foldlM (fun s item => subitemsForeach (nodeAndBelow callback ptr item) s item) s := by
  induction subitems generalizing s with
  | nil => rfl
  | cons item subitems ih =>
    rw [subitemsForeachAll, List.foldlM_cons]
    exact congrArg (Option.bind _) (funext ih)

end recursion

/-! ### What a walk visits -/

/-- The names of the nodes on the way to a node. -/
def namesTo : Configuration → NodePtr → List Bytes
  | _, [] => []
  | config, k :: ptr =>
    match config.child k with
    | none => []
    | some item => item.data.name.getD [] :: namesTo item ptr

/-- What the callback is called with. -/
structure Visit where
  ptr : NodePtr
  config : Configuration
  path : Bytes

/-- The calls of a walk below the node `config`. -/
structure Traversal (config : Configuration) (pathPrefix : Bytes) (visits : List Visit) : Prop where
  /-- the nodes are those below the node -/
  nodes : ∀ ptr u, (∃ v ∈ visits, v.ptr = ptr ∧ v.config = u) ↔ ptr ≠ [] ∧ config.find ptr = some u
  once : (visits.map Visit.ptr).Nodup
  parentsFirst : visits.Pairwise fun v w => ¬ w.ptr <+: v.ptr
  siblings : ∀ ptr u, config.find ptr = some u →
    (visits.filter fun v => v.ptr.dropLast = ptr).map Visit.ptr = u.entries.map fun e => ptr ++ [e.1]
  paths : ∀ v ∈ visits, v.path =
    (if pathPrefix = [] then [] else pathPrefix ++ [slash]) ++ [slash].intercalate (config.namesTo v.ptr)
  found : pathPrefix = [] → ∀ v ∈ visits, config.get v.path = some v.ptr

/-- The calls, from the walk over the tree. -/
def visitsFrom (config : Configuration) (pathPrefix : Bytes) : List Visit :=
  config.descendants.map fun d => ⟨d.1, d.2, d.1.foldl subPath pathPrefix⟩

/-- The names of the nodes below the root are not empty. -/
def NamesNonempty (root : Configuration) : Prop :=
  ∀ ptr strings, ptr ≠ [] → root.dataAt ptr = some strings → strings.name ≠ some []

theorem namesNonempty_new (name : Option Bytes) : (Configuration.new name).NamesNonempty := by
  intro ptr strings hptr hdata
  have hleaf : (Configuration.new name).find ptr = none := find_leaf hptr
  rw [dataAt, hleaf] at hdata
  cases hdata

/-- Paths without empty segments keep it so. -/
theorem NamesNonempty.setValueByPath {root : Configuration} (h : root.NamesNonempty) (hd : root.Distinct)
    {path : Bytes} (hpath : [] ∉ segments path) (value : Option Bytes) :
    (root.setValueByPath path value).NamesNonempty := by
  intro ptr strings hptr hdata
  rw [(dataAt_setValueByPath hd path value).2 ptr] at hdata
  obtain ⟨old, hold, rfl⟩ := Option.map_eq_some_iff.mp hdata
  have hname : old.name ≠ some [] := by
    rcases Option.or_eq_some_iff.mp hold with hthere | ⟨-, hmade⟩
    · exact h ptr old hptr hthere
    · split at hmade
      · next hway =>
        obtain ⟨k, hlast, rfl⟩ := Option.map_eq_some_iff.mp hmade
        intro hnil
        have hk : k = [] := Option.some.inj hnil
        exact hpath (hk ▸ hway.mem (List.mem_of_getLast? hlast))
      · cases hmade
  split
  · exact hname
  · exact hname

/-- The addresses of a tree with such names. -/
def NonemptyKeys (config : Configuration) : Prop :=
  ∀ ks, (config.find ks).isSome → ∀ k ∈ ks, k ≠ [] ∧ slash ∉ k ∧ 0 ∉ k

theorem WellFormed.nonemptyKeys {root config : Configuration} (h : root.WellFormed) (hnames : root.NamesNonempty)
    {start : NodePtr} (hstart : root.find start = some config) : config.NonemptyKeys := by
  have hconfig := h.find hstart
  intro ks hfind k hk
  refine ⟨?_, hconfig.segmentKeys ks hfind k hk⟩
  -- the node of the key is on the way
  obtain ⟨front, back, rfl⟩ := List.mem_iff_append.mp hk
  have hway : front ++ k :: back = front ++ [k] ++ back := by simp
  rw [hway, find_append] at hfind
  obtain ⟨v, hv⟩ := Option.isSome_iff_exists.mp hfind
  obtain ⟨u, hu, -⟩ := Option.bind_eq_some_iff.mp hv
  have hname : u.data.name = some k := hconfig.keysNamed front k u.data (by rw [dataAt, hu]; rfl)
  have hroot : root.dataAt (start ++ (front ++ [k])) = some u.data := by
    rw [dataAt, find_append, hstart, Option.bind_some, hu]
    rfl
  have hne := hnames (start ++ (front ++ [k])) u.data (by simp) hroot
  intro hnil
  exact hne (hname.trans (congrArg some hnil))

theorem NonemptyKeys.entry {config : Configuration} (h : config.NonemptyKeys) (hd : config.Distinct)
    {e : Bytes × Configuration} (he : e ∈ config.entries) :
    (e.1 ≠ [] ∧ slash ∉ e.1 ∧ 0 ∉ e.1) ∧ NonemptyKeys e.2 := by
  constructor
  · apply h [e.1]
    · rw [hd.find_of_mem he]
      rfl
    · exact List.mem_singleton_self e.1
  · intro ks hks k hk
    apply h (e.1 :: ks)
    · rw [hd.find_of_mem he]
      exact hks
    · exact List.mem_cons_of_mem _ hk

theorem foldlM_congr_mem {ι S : Type} {l : List ι} {f g : S → ι → Option S} (h : ∀ e ∈ l, ∀ s, f s e = g s e) (s : S) :
    l.foldlM f s = l.foldlM g s := by
  induction l generalizing s with
  | nil => rfl
  | cons e l ih =>
    rw [List.foldlM_cons, List.foldlM_cons, h e List.mem_cons_self]
    exact congrArg _ (funext fun s => ih (fun e he => h e (List.mem_cons_of_mem _ he)) s)

/-- No node that is reached through empty names only has an empty name first. -/
def Walkable (config : Configuration) : Prop :=
  ∀ n u, config.find (List.replicate n []) = some u → (Assoc.keys u.entries).head? ≠ some []

theorem walkable_iff (config : Configuration) :
    config.Walkable ↔ (Assoc.keys config.entries).head? ≠ some [] ∧
      ∀ c : Configuration, config.child [] = some c → c.Walkable := by
  constructor
  · intro h
    refine ⟨h 0 config rfl, ?_⟩
    intro c hc n u hu
    apply h (n + 1) u
    rw [List.replicate_succ, find_cons, hc]
    exact hu
  · intro ⟨hfirst, hbelow⟩ n u hu
    cases n with
    | zero =>
      obtain rfl := Option.some.inj hu
      exact hfirst
    | succ n =>
      rw [List.replicate_succ, find_cons] at hu
      obtain ⟨c, hc, hu⟩ := Option.bind_eq_some_iff.mp hu
      exact hbelow c hc n u hu

/-- The walk needs no more than names at the top. -/
theorem walkable_of_names {config : Configuration} (h : ∀ e ∈ config.entries, e.1 ≠ []) : config.Walkable := by
  have hchild : config.child [] = none := by
    apply KeyTree.child_eq_none_iff.mpr
    intro hmem
    obtain ⟨e, he, hkey⟩ := List.mem_map.mp hmem
    exact h e he hkey
  refine (walkable_iff config).mpr ⟨?_, ?_⟩
  · intro hhead
    obtain ⟨e, he, hkey⟩ := List.mem_map.mp (List.mem_of_head? hhead)
    exact h e he hkey
  · intro c hc
    rw [hchild] at hc
    cases hc

theorem SegmentKeys.entry {config : Configuration} (h : config.SegmentKeys) (hd : config.Distinct)
    {e : Bytes × Configuration} (he : e ∈ config.entries) :
    (slash ∉ e.1 ∧ 0 ∉ e.1) ∧ SegmentKeys e.2 := by
  constructor
  · apply h [e.1]
    · rw [hd.find_of_mem he]
      rfl
    · exact List.mem_singleton_self e.1
  · intro ks hks k hk
    apply h (e.1 :: ks)
    · rw [hd.find_of_mem he]
      exact hks
    · exact List.mem_cons_of_mem _ hk

theorem foreachAll_eq_foldlM {σ : Type} (callback : NodeCallback σ) (ptr : NodePtr) {config : Configuration}
    {path : Bytes} (hnull : ¬ config.NullBuffer path) (s : σ) :
    foreachAll callback ptr config path s = config.entries.foldlM (fun s item =>
      nodeAndBelow callback ptr item item.2 (cString (subPath path item.1)) s) s := by
  obtain ⟨data, _ | subitems⟩ := config
  · rfl
  · rw [foreachAll, subitemsForeachAll_eq]
    exact foldlM_subitemsForeach_new _ subitems hnull s

/-- **The recursion**, where the helper does not write to NULL, is the walk over the tree. -/
theorem foreachAll_walkable {σ : Type} (callback : NodeCallback σ) {config : Configuration} (hd : config.Distinct)
    (hkeys : config.SegmentKeys) (ptr : NodePtr) {path : Bytes} (hpath : 0 ∉ path)
    (hwalk : path = [] → config.Walkable) (s : σ) :
    foreachAll callback ptr config path s = config.descendants.foldlM (fun s d =>
      callback (ptr ++ d.1) d.2 (d.1.foldl subPath path) s) s := by
  induction config using induction_children generalizing ptr path s with
  | h config ih =>
    have hnull : ¬ NullBuffer config path := fun h => (hwalk h.1 0 config rfl) h.2
    rw [foreachAll_eq_foldlM callback ptr hnull, foldlM_descendants]
    refine foldlM_congr_mem (fun item hitem s => ?_) s
    obtain ⟨⟨-, hzero⟩, hbelow⟩ := hkeys.entry hd hitem
    have hsub : 0 ∉ subPath path item.1 := notMem_subPath hpath hzero (by decide)
    have hitemWalk : subPath path item.1 = [] → Walkable item.2 := by
      unfold subPath
      split
      · next hempty =>
        intro hkey
        apply ((walkable_iff config).mp (hwalk hempty)).2 item.2
        rw [← hkey]
        exact hd.child_of_mem hitem
      · exact fun h => absurd h (List.append_ne_nil_of_right_ne_nil _ (List.cons_ne_nil _ _))
    rw [nodeAndBelow, cString_of_noZero hsub]
    refine congrArg (Option.bind _) (funext fun s => ?_)
    rw [ih item hitem (hd.of_mem hitem) hbelow (ptr ++ [item.1]) hsub hitemWalk s]
    simp [lower]

/-- Names that are not empty need nothing more. -/
theorem NonemptyKeys.walkable {config : Configuration} (h : config.NonemptyKeys) (hd : config.Distinct) :
    config.Walkable := walkable_of_names fun _ he => (h.entry hd he).1.1

/-- **The recursion is the walk over the tree**: no buffer is written past its end, and the path of a
node is the path of its parent with the name behind it. -/
theorem foreachAll_eq {σ : Type} (callback : NodeCallback σ) {config : Configuration} (hd : config.Distinct)
    (hkeys : config.NonemptyKeys) (ptr : NodePtr) {path : Bytes} (hpath : 0 ∉ path) (s : σ) :
    foreachAll callback ptr config path s = config.descendants.foldlM (fun s d =>
      callback (ptr ++ d.1) d.2 (d.1.foldl subPath path) s) s :=
  foreachAll_walkable callback hd (fun ks hks k hk => (hkeys ks hks k hk).2) ptr hpath
    (fun _ => hkeys.walkable hd) s

/-! ### The paths -/

/-- The paths of the levels, one behind the other. -/
theorem foldl_subPath {ks : List Bytes} (hks : ks ≠ []) (hne : ∀ k ∈ ks, k ≠ []) (path : Bytes) :
    ks.foldl subPath path = (if path = [] then [] else path ++ [slash]) ++ [slash].intercalate ks := by
  induction ks generalizing path with
  | nil => exact absurd rfl hks
  | cons k ks ih =>
    rw [List.foldl_cons]
    by_cases hlast : ks = []
    · rw [hlast, List.intercalate_singleton, List.foldl_nil, ForeachContext.start_eq]
    · have hsub : subPath path k ≠ [] := subPath_ne_nil path (hne k List.mem_cons_self)
      calc ks.foldl subPath (subPath path k)
          = subPath path k ++ [slash] ++ [slash].intercalate ks := by
            rw [ih hlast (fun k hk => hne k (List.mem_cons_of_mem _ hk)), if_neg hsub]
        _ = (if path = [] then [] else path ++ [slash]) ++ (k ++ [slash] ++ [slash].intercalate ks) := by
            rw [ForeachContext.start_eq]
            simp only [List.append_assoc]
        _ = (if path = [] then [] else path ++ [slash]) ++ [slash].intercalate (k :: ks) := by
            rw [List.intercalate_cons_of_ne_nil hlast]

/-- A path is looked up name by name. -/
theorem segments_foldl_subPath {ks : List Bytes} (hks : ∀ k ∈ ks, k ≠ [] ∧ slash ∉ k) (path : Bytes) :
    segments (ks.foldl subPath path) = segments path ++ ks := by
  induction ks generalizing path with
  | nil => rw [List.foldl_nil, List.append_nil]
  | cons k ks ih =>
    obtain ⟨hne, hslash⟩ := hks k List.mem_cons_self
    rw [List.foldl_cons, ih (fun k hk => hks k (List.mem_cons_of_mem _ hk)),
      segments_subPath_of_notMem path hne hslash, List.append_assoc, List.singleton_append]

/-- The names on the way are the keys. -/
theorem namesTo_eq {config : Configuration} (h : config.WellFormed) {ptr : NodePtr} (hptr : (config.find ptr).isSome) :
    config.namesTo ptr = ptr := by
  induction ptr generalizing config with
  | nil => rfl
  | cons k ptr ih =>
    obtain ⟨u, hu⟩ := Option.isSome_iff_exists.mp hptr
    rw [find_cons] at hu
    obtain ⟨item, hitem, hu⟩ := Option.bind_eq_some_iff.mp hu
    have hfind : config.find [k] = some item := by rw [find_singleton, hitem]
    have hname : item.data.name = some k := h.keysNamed [] k item.data (by rw [List.nil_append, dataAt, hfind]; rfl)
    have hrest := ih (h.find hfind) (Option.isSome_iff_exists.mpr ⟨u, hu⟩)
    rw [namesTo, hitem]
    dsimp only
    rw [hname, hrest, Option.getD_some]

/-! ### The walk -/

/-- The calls of the walk are those of a traversal. -/
theorem traversal_visitsFrom {config : Configuration} (h : config.WellFormed) (hkeys : config.NonemptyKeys)
    (pathPrefix : Bytes) : Traversal config pathPrefix (config.visitsFrom pathPrefix) := by
  have hd := h.distinct
  have hordered := descendants_parents_first hd
  have hmem : ∀ v ∈ config.visitsFrom pathPrefix, v.ptr ≠ [] ∧ config.find v.ptr = some v.config ∧
      v.path = v.ptr.foldl subPath pathPrefix := by
    intro v hv
    obtain ⟨d, hdmem, rfl⟩ := List.mem_map.mp hv
    obtain ⟨hne, hfind⟩ := (mem_descendants hd).mp hdmem
    exact ⟨hne, hfind, rfl⟩
  refine ⟨fun ptr u => ?nodes, ?once, ?parentsFirst, fun ptr u hu => ?siblings, fun v hv => ?paths,
    fun hempty v hv => ?found⟩
  case nodes =>
    rw [← mem_descendants hd]
    constructor
    · intro ⟨v, hv, hptr, hconfig⟩
      obtain ⟨d, hdmem, rfl⟩ := List.mem_map.mp hv
      rw [← hptr, ← hconfig]
      exact hdmem
    · intro hdmem
      exact ⟨_, List.mem_map_of_mem hdmem, rfl, rfl⟩
  case once =>
    rw [visitsFrom, List.map_map]
    refine List.pairwise_map.mpr (hordered.imp fun {a b} hnot heq => ?_)
    have hptr : b.1 = a.1 := heq.symm
    exact hnot (hptr ▸ List.prefix_rfl)
  case parentsFirst => exact List.pairwise_map.mpr hordered
  case siblings =>
    rw [visitsFrom, List.filter_map, List.map_map]
    have hsiblings := congrArg (List.map Prod.fst) (descendants_siblings hd hu)
    rw [List.map_map] at hsiblings
    exact hsiblings
  case paths =>
    obtain ⟨hne, hfind, hpath⟩ := hmem v hv
    have hsome : (config.find v.ptr).isSome := Option.isSome_iff_exists.mpr ⟨_, hfind⟩
    rw [hpath, namesTo_eq h hsome]
    exact foldl_subPath hne (fun k hk => (hkeys _ hsome k hk).1) pathPrefix
  case found =>
    obtain ⟨-, hfind, hpath⟩ := hmem v hv
    have hsome : (config.find v.ptr).isSome := Option.isSome_iff_exists.mpr ⟨_, hfind⟩
    have hsegments : segments v.path = v.ptr := by
      rw [hpath, segments_foldl_subPath fun k hk => ⟨(hkeys _ hsome k hk).1, (hkeys _ hsome k hk).2.1⟩, hempty,
        segments_nil, List.nil_append]
    rw [get_eq, hsegments, if_pos hsome]

/-- **A recursive walk calls the callback for every node below the start once**, parents before children
and siblings in their order, with its path; no buffer is written past its end. -/
theorem foreachRecursive_visits (root : Configuration) (h : root.WellFormed) (hnames : root.NamesNonempty)
    (path : Bytes) (pathPrefix : Option Bytes) (hzero : 0 ∉ pathPrefix.getD []) {start : NodePtr}
    {config : Configuration} (hget : root.get path = some start) (hstart : root.find start = some config) :
    ∃ visits, Traversal config (pathPrefix.getD []) visits ∧ ∀ {σ : Type} (callback : NodeCallback σ) (s : σ),
      root.foreachRecursive path pathPrefix callback s =
        visits.foldlM (fun s v => callback v.ptr v.config v.path s) s := by
  have hkeys := h.nonemptyKeys hnames hstart
  have hconfig := h.find hstart
  refine ⟨config.visitsFrom (pathPrefix.getD []), traversal_visitsFrom hconfig hkeys _, fun callback s => ?_⟩
  unfold foreachRecursive visitsFrom
  rw [hget, Option.bind_some, hstart, List.foldlM_map]
  exact foreachAll_eq callback hconfig.distinct hkeys [] hzero s

/-- The walk over the tree of `a/b` and `c`. -/
theorem foreachRecursive_visits_three :
    let root := ((Configuration.new none).setValueByPath [97, 47, 98] (some [49])).setValueByPath [99] (some [50])
    ∃ visits, Traversal root [112] visits ∧ ∀ {σ : Type} (callback : NodeCallback σ) (s : σ),
      root.foreachRecursive [] (some [112]) callback s =
        visits.foldlM (fun s v => callback v.ptr v.config v.path s) s := by
  intro root
  have hab : segments [97, 47, 98] = [[97], [98]] := by
    simp [segments, skipSlash, segOf, strchrnulSlash, slash]
  have hc : segments [99] = [[99]] := by
    simp [segments, skipSlash, segOf, strchrnulSlash, slash]
  have hd : (Configuration.new none).Distinct := (wellFormed_new none).distinct
  have hfirst : ((Configuration.new none).setValueByPath [97, 47, 98] (some [49])).WellFormed :=
    (wellFormed_new none).setValueByPath (by decide) _
  have hroot : root.WellFormed := hfirst.setValueByPath (by decide) _
  have hnames : root.NamesNonempty :=
    ((namesNonempty_new none).setValueByPath hd (by rw [hab]; decide) _).setValueByPath hfirst.distinct
      (by rw [hc]; decide) _
  have hget : root.get [] = some [] := by
    rw [get_eq, segments_nil]
    rfl
  exact foreachRecursive_visits root hroot hnames [] (some [112]) (by decide) hget rfl

example : foreachAll (fun _ _ path s => some (s ++ [path])) [] (.node ⟨none, none, none⟩ (some
    [([97], .node ⟨some [97], none, none⟩ (some [([98], .node ⟨some [98], none, none⟩ none)])),
      ([99], .node ⟨some [99], none, none⟩ none)])) [] [] = some [[97], [97, 47, 98], [99]] := by
  decide +kernel

end Configuration
end Fcitx
