/-
# What a load loads, and in which order

The load ends, and calls a resolver at most once for each addon. Addons are
resolved after what they depend on and destroyed before it. All that can be
loaded is loaded only when the dictionary has the addons in a fitting order: the
loop makes a second pass only when an enabled addon misses a dependency.

Key definitions: `AddonManager.LoadLaw`, `AddonManager.LoadOrder`,
`AddonManager.LifeLaw`.
Key theorems: `AddonManager.load_ends`, `AddonManager.load_lifeLaw`,
`AddonManager.load_loadLaw_iff`.
-/
import Fcitx.Addon.Load

namespace Fcitx

namespace AddonManager

variable {resolution : AddonConfig → Resolution} {m m' m₁ : AddonManager} {p q : AddonPtr}

/-! ### The loop ends -/

theorem loadLoop_mono {fuel : ℕ} {r : AddonManager × ℕ} (h : loadLoop resolution fuel m = some r) {fuel' : ℕ}
    (hf : fuel ≤ fuel') : loadLoop resolution fuel' m = some r := by
  induction fuel generalizing m r fuel' with
  | zero => cases h
  | succ fuel ih =>
    obtain ⟨fuel', rfl⟩ : ∃ n, fuel' = n + 1 := ⟨fuel' - 1, by omega⟩
    rw [loadLoop_succ] at h ⊢
    split
    · next hflag =>
      rw [if_pos hflag] at h
      obtain ⟨r', hr', rfl⟩ := Option.map_eq_some_iff.mp h
      rw [ih hr' (by omega)]
      rfl
    · next hflag =>
      rw [if_neg hflag] at h
      exact h

/-- **The loop of a load ends** after at most one more pass than there are enabled
addons, and calls the resolvers at most once for each addon. -/
theorem load_ends (manager : AddonManager) (files : List AddonConfig)
    (resolution : AddonConfig → Resolution) (hm : manager.prepare files = some m) :
    ∃ m' n new, (∀ fuel, m.enabledCount < fuel → loadLoop resolution fuel m = some (m', n)) ∧
      n ≤ m.enabledCount + 1 ∧
      manager.load files resolution = some { m' with loaded := true } ∧
      m'.resolves = m.resolves ++ new ∧ (new.map Prod.fst).Nodup := by
  obtain ⟨m', n, hloop, hn, new, hprogress⟩ :=
    loadLoop_some resolution (m.enabledCount + 1) m (Nat.lt_succ_self _)
  refine ⟨m', n, new, fun fuel hf => loadLoop_mono hloop hf, hn, ?_, hprogress.resolves, hprogress.nodup⟩
  rw [load, hm]
  show (loadLoop resolution (m.enabledCount + 1) m).bind _ = _
  rw [hloop]
  rfl

/-- The addon `a` misses its dependency, and `b` is loaded in the first of two passes. -/
theorem load_ends_missing :
    ∃ m' n new, (∀ fuel, 2 < fuel → loadLoop (fun _ => ⟨some ⟨0, true, true⟩, some 0⟩) fuel
        ([⟨[97], [83], .module, [99], true⟩, ⟨[98], [83], .module, [], true⟩].foldl loadMetadata
          (AddonManager.new [[83]])) = some (m', n)) ∧
      n ≤ 2 + 1 ∧
      (AddonManager.new [[83]]).load [⟨[97], [83], .module, [99], true⟩, ⟨[98], [83], .module, [], true⟩]
        (fun _ => ⟨some ⟨0, true, true⟩, some 0⟩) = some { m' with loaded := true } ∧
      m'.resolves = [] ++ new ∧ (new.map Prod.fst).Nodup :=
  load_ends (AddonManager.new [[83]]) [⟨[97], [83], .module, [99], true⟩, ⟨[98], [83], .module, [], true⟩]
    (fun _ => ⟨some ⟨0, true, true⟩, some 0⟩) rfl

/-! ### From a fresh manager -/

theorem load_of_loop {manager : AddonManager} {files : List AddonConfig} {resolution : AddonConfig → Resolution}
    {m' : AddonManager} {n : ℕ} (hm : manager.prepare files = some m)
    (hloop : loadLoop resolution (m.enabledCount + 1) m = some (m', n)) :
    manager.load files resolution = some { m' with loaded := true } := by
  rw [load, hm]
  show (loadLoop resolution (m.enabledCount + 1) m).bind _ = _
  rw [hloop]
  rfl

/-- A load of a fresh manager, told in the passes of the library. -/
theorem load_fresh (resolvers : List Bytes) (enabled disabled : Option Bytes) (files : List AddonConfig)
    (resolution : AddonConfig → Resolution) :
    ∃ m₁ m', ((new resolvers).setOverride enabled disabled).prepare files = some m₁ ∧
      ((new resolvers).setOverride enabled disabled).load files resolution = some m' ∧ Fresh m₁ ∧
      m'.loaded = true ∧
      Sim resolution m₁ m' (Passes.run (graph resolution m₁) m₁.order m₁.passes) m₁.order := by
  obtain ⟨m₁, hprep, hfresh⟩ := prepare_fresh resolvers enabled disabled files
  obtain ⟨m', n, hloop, hn, -⟩ := loadLoop_some resolution (m₁.enabledCount + 1) m₁ (Nat.lt_succ_self _)
  obtain ⟨m'', hloop', hsim⟩ := loadLoop_eq resolution hfresh.nodup hfresh.loaded
    hfresh.loadedAddons (show m₁.passes ≤ m₁.enabledCount + 2 by rw [passes]; split <;> omega)
  have hm : m'' = m' := by
    have h := hloop'.symm.trans (loadLoop_mono hloop (Nat.le_succ _))
    exact congrArg Prod.fst (Option.some.inj h)
  refine ⟨m₁, { m' with loaded := true }, hprep, load_of_loop hprep hloop, hfresh, rfl, ?_⟩
  rw [← hm]
  exact ⟨⟨hsim.same.addons, hsim.same.resolvers, hsim.same.dependencies, hsim.same.config,
      hsim.same.destroys⟩, hsim.loaded,
    hsim.loadedAddons, hsim.enabled, hsim.resolves, hsim.good⟩

/-! ### Everything is loaded that can be -/

/-- The dependencies of an addon are there and loaded. -/
def DependenciesLoaded (m : AddonManager) (p : AddonPtr) : Prop :=
  ∀ name ∈ (m.addon p).dependencies, ∃ q, m.dependency name = some q ∧ (m.addon q).loaded = true

/-- No addon is left that is enabled, not loaded, and has its dependencies; so
what is loaded is what can be loaded in some order. -/
structure LoadLaw (resolution : AddonConfig → Resolution) (m m' : AddonManager) : Prop where
  fixpoint : ∀ p ∈ m'.order,
    ¬ ((m'.addon p).config.enabled = true ∧ (m'.addon p).loaded = false ∧ m'.DependenciesLoaded p)
  loaded : ∀ p ∈ m'.order, (m'.addon p).loaded = true ↔ Passes.Loadable (graph resolution m) m.order p

/-- The order in which a load can load everything: with one pass, what should be
tried is listed after its dependencies; with two, everything is in order below a
dependency that is listed later. -/
def LoadOrder (resolution : AddonConfig → Resolution) (m : AddonManager) : Prop :=
  ∀ p, Passes.Ready (graph resolution m) m.order p → ∀ d ∈ (graph resolution m).deps p,
    Passes.Before m.order d p ∨ m.someMissing = true ∧ Passes.AllBefore (graph resolution m) m.order d

variable {tried visited : List AddonPtr}

theorem Sim.dependency (h : Sim resolution m₁ m tried visited) : m.dependency = m₁.dependency := by
  funext name
  rw [AddonManager.dependency, AddonManager.dependency, h.same.addons]

/-- None of the dependencies of a good addon is missing. -/
theorem exists_dependency (hgood : (graph resolution m₁).good p = true) {name : Bytes}
    (hname : name ∈ (m₁.addon p).dependencies) : ∃ q, m₁.dependency name = some q := by
  have hm := (graph_good_iff.mp hgood).2
  rw [missing, List.any_eq_false] at hm
  have hsome := hm name hname
  rw [Bool.not_eq_true, Option.isNone_eq_false_iff, Option.isSome_iff_exists] at hsome
  exact hsome

theorem Sim.dependenciesLoaded (h : Sim resolution m₁ m tried visited)
    (hgood : (graph resolution m₁).good p = true) : m.DependenciesLoaded p ↔
      ∀ d ∈ (graph resolution m₁).deps p, d ∈ tried ∧ (graph resolution m₁).ok d = true := by
  rw [DependenciesLoaded, h.same.dependencies, h.dependency]
  constructor
  · intro hall d hd
    obtain ⟨name, hname, hd⟩ := List.mem_filterMap.mp hd
    obtain ⟨q, hq, hl⟩ := hall name hname
    have hqd : q = d := Option.some.inj (hq.symm.trans hd)
    exact (h.loaded d (mem_order_of_dependency hd)).mp (hqd ▸ hl)
  · intro hall name hname
    obtain ⟨q, hq⟩ := exists_dependency hgood hname
    exact ⟨q, hq, (h.loaded q (mem_order_of_dependency hq)).mpr
      (hall q (List.mem_filterMap.mpr ⟨name, hname, hq⟩))⟩

/-- Without a missing dependency an addon that is enabled is a good one. -/
theorem Sim.good_of_dependenciesLoaded (h : Sim resolution m₁ m tried visited) (hp : p ∈ m₁.order)
    (he : (m.addon p).config.enabled = true) (hd : m.DependenciesLoaded p) :
    (graph resolution m₁).good p = true := by
  refine graph_good_iff.mpr ⟨((h.enabled p hp).mp he).1, ?_⟩
  rw [missing, List.any_eq_false]
  intro name hname
  rw [← h.same.dependencies] at hname
  obtain ⟨q, hq, -⟩ := hd name hname
  rw [← h.dependency, hq]
  exact Bool.false_ne_true

/-- The fixpoint, told in the addons that were tried. -/
theorem Sim.fixpoint_iff (h : Sim resolution m₁ m tried visited) :
    (∀ p ∈ m.order,
        ¬ ((m.addon p).config.enabled = true ∧ (m.addon p).loaded = false ∧ m.DependenciesLoaded p)) ↔
      ∀ p ∈ m₁.order, (graph resolution m₁).good p = true →
        (∀ d ∈ (graph resolution m₁).deps p, d ∈ tried ∧ (graph resolution m₁).ok d = true) → p ∈ tried := by
  rw [h.same.order]
  constructor
  · intro hfix p hp hgood hdeps
    by_contra hnew
    obtain ⟨he₁, hm₁⟩ := graph_good_iff.mp hgood
    refine hfix p hp ⟨(h.enabled p hp).mpr ⟨he₁, fun ht => absurd ht hnew, fun hm => ?_⟩, ?_,
      (h.dependenciesLoaded hgood).mpr hdeps⟩
    · exact absurd (hm₁.symm.trans hm) Bool.false_ne_true
    · rw [← Bool.not_eq_true]
      exact fun hl => hnew ((h.loaded p hp).mp hl).1
  · rintro hall p hp ⟨he, hl, hdeps⟩
    have hgood := h.good_of_dependenciesLoaded hp he hdeps
    have ht := hall p hp hgood ((h.dependenciesLoaded hgood).mp hdeps)
    have hl' := (h.loaded p hp).mpr ⟨ht, ((h.enabled p hp).mp he).2.1 ht⟩
    exact Bool.false_ne_true (hl.symm.trans hl')

/-- With a fixpoint, what is loaded is what can be loaded. -/
theorem Sim.loaded_iff {k : ℕ} (hnd : m₁.order.Nodup)
    (h : Sim resolution m₁ m (Passes.run (graph resolution m₁) m₁.order k) visited)
    (hready : ∀ p, Passes.Ready (graph resolution m₁) m₁.order p →
      Passes.ReadyIn (graph resolution m₁) m₁.order k p) (hp : p ∈ m₁.order) :
    (m.addon p).loaded = true ↔ Passes.Loadable (graph resolution m₁) m₁.order p := by
  rw [h.loaded p hp]
  constructor
  · exact fun ht => Passes.loadable_of_mem_run hnd ht.1 ht.2
  · exact fun hload => ⟨(Passes.mem_run hnd k p).mpr (hready p hload.ready), hload.ok⟩

theorem loadOrder_iff (hnd : m.order.Nodup) :
    LoadOrder resolution m ↔ ∀ p, Passes.Ready (graph resolution m) m.order p →
      Passes.ReadyIn (graph resolution m) m.order m.passes p := by
  rw [passes]
  by_cases hmissing : m.someMissing = true
  · rw [if_pos hmissing, Passes.readyIn_two_iff hnd]
    simp only [LoadOrder, hmissing, true_and]
  · rw [if_neg hmissing, Passes.readyIn_one_iff hnd]
    simp only [LoadOrder, hmissing, Bool.false_eq_true, false_and, or_false]

/-- **A load of a fresh manager reaches its fixpoint** exactly when the dictionary
has the addons in a fitting order. -/
theorem load_loadLaw_iff (resolvers : List Bytes) (enabled disabled : Option Bytes)
    (files : List AddonConfig) (resolution : AddonConfig → Resolution) :
    ∃ m m', ((new resolvers).setOverride enabled disabled).prepare files = some m ∧
      ((new resolvers).setOverride enabled disabled).load files resolution = some m' ∧
      (LoadLaw resolution m m' ↔ LoadOrder resolution m) := by
  obtain ⟨m, m', hprep, hload, hfresh, -, hsim⟩ :=
    load_fresh resolvers enabled disabled files resolution
  refine ⟨m, m', hprep, hload, ?_⟩
  rw [loadOrder_iff hfresh.nodup]
  constructor
  · intro hlaw
    exact (Passes.settled_iff hfresh.nodup m.passes).mp (hsim.fixpoint_iff.mp hlaw.fixpoint)
  · intro hready
    refine ⟨hsim.fixpoint_iff.mpr ((Passes.settled_iff hfresh.nodup m.passes).mpr hready), fun p hp => ?_⟩
    exact hsim.loaded_iff hfresh.nodup hready (hsim.same.order ▸ hp)

/-- The addon `a` needs `b`, which is listed behind it: one pass leaves `a` out. -/
theorem not_loadLaw_alphabetical :
    ∃ m m', (new [[83]]).prepare [⟨[97], [83], .module, [98], true⟩, ⟨[98], [83], .module, [], true⟩] = some m ∧
      (new [[83]]).load [⟨[97], [83], .module, [98], true⟩, ⟨[98], [83], .module, [], true⟩]
        (fun _ => ⟨some ⟨0, true, true⟩, some 0⟩) = some m' ∧
      ¬ LoadLaw (fun _ => ⟨some ⟨0, true, true⟩, some 0⟩) m m' := by
  refine ⟨_, _, rfl, rfl, fun h => h.fixpoint 0 (by decide) ⟨by decide, by decide, ?_⟩⟩
  intro name hname
  have hmem : name ∈ [[(98 : UInt8)]] := hname
  rw [List.mem_singleton.mp hmem]
  exact ⟨1, by decide, by decide⟩

/-! ### The order of the life of an addon -/

/-- `q` is a dependency of `p`. -/
def DependsOn (m : AddonManager) (p q : AddonPtr) : Prop :=
  ∃ name ∈ (m.addon p).dependencies, m.dependency name = some q

/-- Addons are resolved after their dependencies were, with success; they are
listed in that order, and destroyed in the reverse one. -/
structure LifeLaw (m : AddonManager) : Prop where
  resolved : ∀ pre p result post, m.resolves = pre ++ (p, result) :: post →
    ∀ name ∈ (m.addon p).dependencies, ∃ q, m.dependency name = some q ∧ (q, true) ∈ pre
  loaded_iff : ∀ p, p ∈ m.loadedAddons ↔ (p, true) ∈ m.resolves
  loaded_nodup : m.loadedAddons.Nodup
  loaded_order : ∀ pre p post, m.loadedAddons = pre ++ p :: post → ∀ q, m.DependsOn p q → q ∈ pre
  destroyed_nodup : m.unload.destroys.Nodup
  destroyed_iff : ∀ p, p ∈ m.unload.destroys ↔ p ∈ m.loadedAddons
  destroyed_order : ∀ pre q post, m.unload.destroys = pre ++ q :: post →
    ∀ p ∈ m.loadedAddons, m.DependsOn p q → p ∈ pre

/-- Unloading destroys what is loaded, the last one first. -/
theorem destroys_unload (hloaded : m.loaded = true) (hnone : m.destroys = []) :
    m.unload.destroys = m.loadedAddons.reverse := by
  have hfold : ∀ (l : List AddonPtr) (m : AddonManager),
      (l.foldl unloadAddon m).destroys = m.destroys ++ l := by
    intro l
    induction l with
    | nil => exact fun m => (List.append_nil _).symm
    | cons p l ih =>
      intro m
      have hstep : (m.unloadAddon p).destroys = m.destroys ++ [p] := by
        show (m.calls ++ [AddonCall.destroy p] ++ [AddonCall.unload p]).filterMap _ = _
        rw [List.filterMap_append, List.filterMap_append]
        exact List.append_nil _
      rw [List.foldl_cons, ih, hstep, List.append_assoc, List.singleton_append]
  have hres : m.unload = { m.loadedAddons.reverse.foldl unloadAddon m with loadedAddons := [] } := by
    rw [unload, hloaded]
    rfl
  rw [hres]
  show (m.loadedAddons.reverse.foldl unloadAddon m).destroys = _
  rw [hfold, hnone, List.nil_append]

/-- In the reverse of a list that has what is needed first, it comes last. -/
theorem mem_of_reverse_eq {l pre post : List AddonPtr} {needs : AddonPtr → AddonPtr → Prop} (hnd : l.Nodup)
    (hneeds : ∀ pre p post, l = pre ++ p :: post → ∀ q, needs p q → q ∈ pre)
    (hsplit : l.reverse = pre ++ q :: post) (hp : p ∈ l) (hpq : needs p q) : p ∈ pre := by
  have hl : l = post.reverse ++ q :: pre.reverse := by
    rw [← List.reverse_reverse l, hsplit, List.reverse_append, List.reverse_cons, List.append_assoc,
      List.singleton_append]
  have hq : q ∉ post.reverse := by
    intro hq
    rw [hl] at hnd
    exact (List.nodup_append.mp hnd).2.2 q hq q List.mem_cons_self rfl
  rw [hl, List.mem_append, List.mem_cons] at hp
  rcases hp with hp | rfl | hp
  · obtain ⟨xs, ys, hxy⟩ := List.append_of_mem hp
    have hqxs := hneeds xs p (ys ++ q :: pre.reverse) (by rw [hl, hxy, List.append_assoc]; rfl) q hpq
    exact absurd (by rw [hxy]; exact List.mem_append_left _ hqxs) hq
  · exact absurd (hneeds post.reverse p pre.reverse hl p hpq) hq
  · exact List.mem_reverse.mp hp

/-- What a load made of the manager, in the order of the tries. -/
theorem Sim.lifeLaw {k : ℕ} (hfresh : Fresh m₁)
    (h : Sim resolution m₁ m (Passes.run (graph resolution m₁) m₁.order k) visited)
    (hloaded : m.loaded = true) (hnone : m.destroys = []) : LifeLaw m := by
  set G := graph resolution m₁ with hG
  set tried := Passes.run G m₁.order k with htried
  have hord : Passes.Ordered G tried := Passes.run_ordered k
  have hresolves : m.resolves = (tried.filter fun p => (m₁.addon p).config.type ∈ m₁.resolvers).map
      fun p => (p, G.ok p) := by
    have hstart : m₁.resolves = [] := by
      show m₁.calls.filterMap _ = []
      rw [hfresh.calls]
      rfl
    rw [h.resolves, hstart, List.nil_append]
  have hdepends : ∀ {p q}, m.DependsOn p q → q ∈ G.deps p := by
    rintro p q ⟨name, hname, hq⟩
    rw [h.same.dependencies] at hname
    rw [h.dependency] at hq
    exact List.mem_filterMap.mpr ⟨name, hname, hq⟩
  have htype : ∀ {p}, G.ok p = true → (m₁.addon p).config.type ∈ m₁.resolvers := by
    intro p hok
    have hok : succeeds resolution m₁ (m₁.addon p).config = true := hok
    rw [succeeds, Bool.and_eq_true, Bool.and_eq_true, decide_eq_true_iff] at hok
    exact hok.1.1
  have hnodup : m.loadedAddons.Nodup := by
    rw [h.loadedAddons]
    exact hord.nodup.filter _
  have hlist : ∀ pre p post, m.loadedAddons = pre ++ p :: post → ∀ q, m.DependsOn p q → q ∈ pre := by
    intro pre p post hsplit q hpq
    rw [h.loadedAddons, List.filter_eq_append_iff] at hsplit
    obtain ⟨xs, ys, hxy, hpre, hpost⟩ := hsplit
    obtain ⟨zs, ws, rfl, hzs, -, -⟩ := List.filter_eq_cons_iff.mp hpost
    obtain ⟨hq, hok⟩ := (hord.deps (xs ++ zs) p ws (by rw [hxy]; simp)).2 q (hdepends hpq)
    have hqf : q ∈ (xs ++ zs).filter G.ok := List.mem_filter.mpr ⟨hq, hok⟩
    rw [List.filter_append, hpre, List.filter_eq_nil_iff.mpr hzs, List.append_nil] at hqf
    exact hqf
  have hdestroys := destroys_unload hloaded hnone
  refine ⟨?_, fun p => ?_, hnodup, hlist, ?_, fun p => ?_, ?_⟩
  · intro pre p result post hsplit name hname
    rw [hresolves] at hsplit
    obtain ⟨xs, ys, hxy, hpre, hpost⟩ := List.map_eq_append_iff.mp hsplit
    obtain ⟨p', ys', rfl, hp', hpost'⟩ := List.map_eq_cons_iff.mp hpost
    obtain rfl : p' = p := congrArg Prod.fst hp'
    obtain ⟨as, bs, habs, has, hbs⟩ := List.filter_eq_append_iff.mp hxy
    obtain ⟨zs, ws, rfl, hzs, -, -⟩ := List.filter_eq_cons_iff.mp hbs
    obtain ⟨hgood, hdeps⟩ := hord.deps (as ++ zs) p' ws (by rw [habs]; simp)
    rw [h.same.dependencies] at hname
    obtain ⟨q, hq⟩ := exists_dependency hgood hname
    obtain ⟨hqmem, hok⟩ := hdeps q (List.mem_filterMap.mpr ⟨name, hname, hq⟩)
    refine ⟨q, by rw [h.dependency]; exact hq, ?_⟩
    have hqf : q ∈ (as ++ zs).filter fun p => (m₁.addon p).config.type ∈ m₁.resolvers :=
      List.mem_filter.mpr ⟨hqmem, decide_eq_true (htype hok)⟩
    rw [List.filter_append, has, List.filter_eq_nil_iff.mpr hzs, List.append_nil] at hqf
    rw [← hpre]
    exact List.mem_map.mpr ⟨q, hqf, Prod.ext rfl hok⟩
  · rw [h.loadedAddons, hresolves, List.mem_filter, List.mem_map]
    constructor
    · rintro ⟨hp, hok⟩
      exact ⟨p, List.mem_filter.mpr ⟨hp, decide_eq_true (htype hok)⟩, Prod.ext rfl hok⟩
    · rintro ⟨p', hp', he⟩
      obtain rfl : p' = p := congrArg Prod.fst he
      exact ⟨(List.mem_filter.mp hp').1, congrArg Prod.snd he⟩
  · rw [hdestroys]
    exact List.nodup_reverse.mpr hnodup
  · rw [hdestroys, List.mem_reverse]
  · intro pre q post hsplit p hp hpq
    rw [hdestroys] at hsplit
    exact mem_of_reverse_eq hnodup hlist hsplit hp hpq

/-- **The life of the addons**: a load of a fresh manager resolves each addon after
its dependencies were loaded, and the unload destroys what was loaded, each once
and before its dependencies. -/
theorem load_lifeLaw (resolvers : List Bytes) (enabled disabled : Option Bytes)
    (files : List AddonConfig) (resolution : AddonConfig → Resolution) :
    ∃ m', ((new resolvers).setOverride enabled disabled).load files resolution = some m' ∧ LifeLaw m' := by
  obtain ⟨m, m', -, hload, hfresh, hloaded, hsim⟩ :=
    load_fresh resolvers enabled disabled files resolution
  have hnone : m'.destroys = [] := by
    rw [hsim.same.destroys]
    show m.calls.filterMap _ = []
    rw [hfresh.calls]
    rfl
  exact ⟨m', hload, hsim.lifeLaw hfresh hloaded hnone⟩

end AddonManager

end Fcitx
