/-
# A load follows the passes

From a fresh manager, the passes of `fcitx_addon_manager_load` try the addons as
the passes of the library do: an addon takes part when it is enabled and none of
its dependencies is missing, and it succeeds when a resolver finds it and its
`init` returns data. The flag that asks for another pass is only set when an
addon is disabled for a missing dependency, so that there are one or two passes.

Key definitions: `AddonManager.graph`, `AddonManager.Sim`.
Key theorems: `AddonManager.sim_visit`, `AddonManager.loadAddon_spec`,
`AddonManager.loadLoop_eq`, `AddonManager.loadLoop_some`.
-/
import Fcitx.Addon.Manager
import Fcitx.Lib.Passes

namespace Fcitx

namespace AddonManager

variable {resolution : AddonConfig → Resolution} {manager m m' : AddonManager} {p q : AddonPtr}
  {ok : Bool}

@[simp] theorem addon_setAddon (addon : Addon) (q : AddonPtr) :
    (manager.setAddon p addon).addon q = if q = p then addon else manager.addon q :=
  Function.update_apply ..

/-- Whether resolving gives an addon. -/
def succeeds (resolution : AddonConfig → Resolution) (manager : AddonManager) (config : AddonConfig) : Bool :=
  config.type ∈ manager.resolvers &&
    (resolution config).api.any (fun api => api.init && api.destroy) && (resolution config).data.isSome

/-! ### What a turn leaves alone -/

/-- The calls of resolvers, with what they returned. -/
def resolves (manager : AddonManager) : List (AddonPtr × Bool) :=
  manager.calls.filterMap fun
    | .resolve p result => some (p, result)
    | _ => none

/-- The addons that were destroyed. -/
def destroys (manager : AddonManager) : List AddonPtr :=
  manager.calls.filterMap fun
    | .destroy p => some p
    | _ => none

/-- The dictionary, the resolvers, the metadata of the addons but for `enabled`,
and what was destroyed. -/
structure SameMetadata (m m' : AddonManager) : Prop where
  addons : m'.addons = m.addons
  resolvers : m'.resolvers = m.resolvers
  dependencies : ∀ p, (m'.addon p).dependencies = (m.addon p).dependencies
  config : ∀ p, ∃ enabled, (m'.addon p).config = { (m.addon p).config with enabled := enabled }
  destroys : m'.destroys = m.destroys

theorem SameMetadata.refl : SameMetadata m m := ⟨rfl, rfl, fun _ => rfl, fun _ => ⟨_, rfl⟩, rfl⟩

theorem SameMetadata.trans {m'' : AddonManager} (h : SameMetadata m m') (h' : SameMetadata m' m'') :
    SameMetadata m m'' where
  addons := h'.addons.trans h.addons
  resolvers := h'.resolvers.trans h.resolvers
  dependencies p := (h'.dependencies p).trans (h.dependencies p)
  config p := by
    obtain ⟨e, he⟩ := h.config p
    obtain ⟨e', he'⟩ := h'.config p
    exact ⟨e', by rw [he', he]⟩
  destroys := h'.destroys.trans h.destroys

theorem SameMetadata.order (h : SameMetadata m m') : m'.order = m.order := by
  rw [AddonManager.order, h.addons]
  rfl

theorem SameMetadata.missing (h : SameMetadata m m') (p : AddonPtr) :
    m'.missing (m'.addon p) = m.missing (m.addon p) := by
  rw [AddonManager.missing, h.dependencies]
  unfold AddonManager.missing dependency
  rw [h.addons]

/-- Resolving changes the `api` and `data` of an addon and the lists of the frontends. -/
structure Resolved (m m' : AddonManager) : Prop where
  addons : m'.addons = m.addons
  resolvers : m'.resolvers = m.resolvers
  loadedAddons : m'.loadedAddons = m.loadedAddons
  config : ∀ q, (m'.addon q).config = (m.addon q).config
  loaded : ∀ q, (m'.addon q).loaded = (m.addon q).loaded
  dependencies : ∀ q, (m'.addon q).dependencies = (m.addon q).dependencies
  resolves : m'.resolves = m.resolves
  destroys : m'.destroys = m.destroys

theorem Resolved.refl : Resolved m m :=
  ⟨rfl, rfl, rfl, fun _ => rfl, fun _ => rfl, fun _ => rfl, rfl, rfl⟩

theorem Resolved.trans {m'' : AddonManager} (h : Resolved m m') (h' : Resolved m' m'') : Resolved m m'' where
  addons := h'.addons.trans h.addons
  resolvers := h'.resolvers.trans h.resolvers
  loadedAddons := h'.loadedAddons.trans h.loadedAddons
  config q := (h'.config q).trans (h.config q)
  loaded q := (h'.loaded q).trans (h.loaded q)
  dependencies q := (h'.dependencies q).trans (h.dependencies q)
  resolves := h'.resolves.trans h.resolves
  destroys := h'.destroys.trans h.destroys

theorem resolved_setAddon (addon : Addon) (hc : addon.config = (m.addon p).config)
    (hl : addon.loaded = (m.addon p).loaded) (hd : addon.dependencies = (m.addon p).dependencies) :
    Resolved m (m.setAddon p addon) := by
  refine ⟨rfl, rfl, rfl, fun q => ?_, fun q => ?_, fun q => ?_, rfl, rfl⟩
  · rw [addon_setAddon]
    split
    · next h => rw [h, hc]
    · rfl
  · rw [addon_setAddon]
    split
    · next h => rw [h, hl]
    · rfl
  · rw [addon_setAddon]
    split
    · next h => rw [h, hd]
    · rfl

theorem resolved_call_init : Resolved m (m.call (.init p)) := by
  refine ⟨rfl, rfl, rfl, fun _ => rfl, fun _ => rfl, fun _ => rfl, ?_, ?_⟩
  · rw [AddonManager.resolves, call, List.filterMap_append]
    exact List.append_nil _
  · rw [AddonManager.destroys, call, List.filterMap_append]
    exact List.append_nil _

/-- The lists and ids of the frontends and input methods. -/
theorem resolved_lists (frontends ims : List AddonPtr) (frontendId : ApiPtr → ℕ) :
    Resolved m { m with frontends := frontends, ims := ims, frontendId := frontendId } :=
  ⟨rfl, rfl, rfl, fun _ => rfl, fun _ => rfl, fun _ => rfl, rfl, rfl⟩

theorem resolved_setFrontendId (m : AddonManager) (p : AddonPtr) (api : ApiPtr) :
    Resolved m (m.setFrontendId p api) := by
  rw [setFrontendId]
  split
  · exact resolved_lists m.frontends m.ims _
  · exact .refl

theorem resolved_register (m : AddonManager) (p : AddonPtr) : Resolved m (m.register p) := by
  rw [register]
  split
  · exact resolved_lists _ m.ims m.frontendId
  · exact resolved_lists m.frontends _ m.frontendId
  · exact .refl

theorem initGeneral_spec (m : AddonManager) (p : AddonPtr) (api : AddonApi) (data : Option ℕ) :
    Resolved m (m.initGeneral p api data).2 ∧
      (m.initGeneral p api data).1 = (api.init && api.destroy && data.isSome) := by
  rw [initGeneral]
  by_cases hapi : ¬ api.init = true ∨ ¬ api.destroy = true
  · rw [if_pos hapi]
    refine ⟨.refl, ?_⟩
    rcases hapi with h | h <;> simp [h]
  · rw [if_neg hapi]
    have hboth : (api.init && api.destroy) = true := by simpa using hapi
    have hcalled : Resolved m ((m.setFrontendId p api.ptr).call (.init p)) :=
      (resolved_setFrontendId m p api.ptr).trans resolved_call_init
    have hset := hcalled.trans (resolved_setAddon (p := p)
      { ((m.setFrontendId p api.ptr).call (.init p)).addon p with data := data } rfl rfl rfl)
    rw [hboth, Bool.true_and]
    cases data with
    | none => exact ⟨hset, rfl⟩
    | some d => exact ⟨hset.trans (resolved_register _ p), rfl⟩

theorem resolve_spec (m : AddonManager) (p : AddonPtr) (res : Resolution) :
    Resolved m (m.resolve p res).2 ∧ (m.resolve p res).1 =
      (res.api.any (fun api => api.init && api.destroy) && res.data.isSome) := by
  rw [resolve]
  cases hapi : res.api with
  | none => exact ⟨.refl, rfl⟩
  | some api =>
    have hset : Resolved m (m.setAddon p { m.addon p with api := some api.ptr }) :=
      resolved_setAddon _ rfl rfl rfl
    obtain ⟨hinit, hresult⟩ := initGeneral_spec (m.setAddon p { m.addon p with api := some api.ptr }) p
      api res.data
    exact ⟨hset.trans hinit, hresult⟩

/-- What trying an addon does; `ok` is whether it succeeds. -/
structure Turn (m m' : AddonManager) (p : AddonPtr) (ok : Bool) : Prop where
  same : SameMetadata m m'
  loaded : ∀ q, (m'.addon q).loaded = ((m.addon q).loaded || (ok && q = p))
  loadedAddons : m'.loadedAddons = m.loadedAddons ++ if ok then [p] else []
  enabled : ∀ q, (m'.addon q).config.enabled = ((m.addon q).config.enabled && (ok || q ≠ p))

theorem disable_turn (m : AddonManager) (p : AddonPtr) : Turn m (m.disable p) p false := by
  refine ⟨⟨rfl, rfl, fun q => ?_, fun q => ?_, rfl⟩, fun q => ?_, (List.append_nil _).symm, fun q => ?_⟩
  · rw [disable, addon_setAddon]
    split
    · next h => rw [h]
    · rfl
  · rw [disable, addon_setAddon]
    split
    · next h => exact ⟨false, by rw [h]⟩
    · exact ⟨_, rfl⟩
  · rw [disable, addon_setAddon]
    split
    · next h => rw [h]; simp
    · simp
  · rw [disable, addon_setAddon]
    split
    · next h => simp [h]
    · next h => simp [h]

/-- The addon that was resolved is loaded. -/
theorem setLoaded_turn (m : AddonManager) (p : AddonPtr) :
    Turn m { m.setAddon p { m.addon p with loaded := true } with
      loadedAddons := m.loadedAddons ++ [p] } p true := by
  refine ⟨⟨rfl, rfl, fun q => ?_, fun q => ?_, rfl⟩, fun q => ?_, rfl, fun q => ?_⟩
  · show ((m.setAddon p _).addon q).dependencies = _
    rw [addon_setAddon]
    split
    · next h => rw [h]
    · rfl
  · refine ⟨(m.addon q).config.enabled, ?_⟩
    show ((m.setAddon p _).addon q).config = _
    rw [addon_setAddon]
    split
    · next h => rw [h]
    · rfl
  · show ((m.setAddon p _).addon q).loaded = _
    rw [addon_setAddon]
    split
    · next h => rw [h]; simp
    · next h => simp [h]
  · show ((m.setAddon p _).addon q).config.enabled = _
    rw [addon_setAddon]
    split
    · next h => rw [h]; simp
    · simp

theorem Resolved.turn (h : Resolved m m') {m'' : AddonManager} {ok : Bool} (ht : Turn m' m'' p ok) :
    Turn m m'' p ok where
  same := SameMetadata.trans
    ⟨h.addons, h.resolvers, h.dependencies, fun q => ⟨_, h.config q⟩, h.destroys⟩ ht.same
  loaded q := by rw [ht.loaded, h.loaded]
  loadedAddons := by rw [ht.loadedAddons, h.loadedAddons]
  enabled q := by rw [ht.enabled, h.config]

/-- The end of a turn, with the call that was made. -/
theorem call_turn {result : Bool} (ht : Turn (m.call (.resolve p result)) m' p ok) : Turn m m' p ok := by
  refine ⟨⟨ht.same.addons, ht.same.resolvers, ht.same.dependencies, ht.same.config, ?_⟩, ht.loaded,
    ht.loadedAddons, ht.enabled⟩
  rw [ht.same.destroys, destroys, call, List.filterMap_append]
  exact List.append_nil _

/-- **Trying an addon** that is not loaded. -/
theorem loadAddon_spec (resolution : AddonConfig → Resolution) (hp : (m.addon p).loaded = false) :
    Turn m (m.loadAddon resolution p) p (succeeds resolution m (m.addon p).config) ∧
      (m.loadAddon resolution p).resolves = m.resolves ++
        if (m.addon p).config.type ∈ m.resolvers then [(p, succeeds resolution m (m.addon p).config)] else [] := by
  by_cases htype : (m.addon p).config.type ∈ m.resolvers
  · obtain ⟨hresolved, hresult⟩ := resolve_spec m p (resolution (m.addon p).config)
    have hok : succeeds resolution m (m.addon p).config =
        (m.resolve p (resolution (m.addon p).config)).1 := by
      rw [hresult, succeeds, decide_eq_true htype, Bool.true_and]
    set r := m.resolve p (resolution (m.addon p).config) with hr
    have hres : m.loadAddon resolution p = if r.1 then
        { (r.2.call (.resolve p r.1)).setAddon p { (r.2.call (.resolve p r.1)).addon p with loaded := true } with
          loadedAddons := (r.2.call (.resolve p r.1)).loadedAddons ++ [p] }
        else (r.2.call (.resolve p r.1)).disable p := by
      rw [loadAddon, hp, if_neg Bool.false_ne_true, if_pos htype]
    have hcalls : (r.2.call (.resolve p r.1)).resolves = m.resolves ++ [(p, r.1)] := by
      rw [← hresolved.resolves, resolves, call, List.filterMap_append]
      rfl
    rw [hres, hok, if_pos htype]
    split
    · next hr1 =>
      rw [hr1] at hcalls ⊢
      exact ⟨hresolved.turn (call_turn (setLoaded_turn _ p)), hcalls⟩
    · next hr1 =>
      rw [Bool.not_eq_true] at hr1
      rw [hr1] at hcalls ⊢
      exact ⟨hresolved.turn (call_turn (disable_turn _ p)), hcalls⟩
  · have hok : succeeds resolution m (m.addon p).config = false := by
      rw [succeeds, decide_eq_false htype]
      rfl
    have hres : m.loadAddon resolution p = m.disable p := by
      rw [loadAddon, hp, if_neg Bool.false_ne_true, if_neg htype]
    rw [hres, hok, if_neg htype, List.append_nil]
    exact ⟨disable_turn m p, rfl⟩

/-! ### The turns of a pass -/

/-- What the turn of an addon can do. -/
theorem visit_cases (resolution : AddonConfig → Resolution) (m : AddonManager) (update : Bool) (p : AddonPtr) :
    (visit resolution (m, update) p = (m, update) ∧ ((m.addon p).config.enabled = false ∨
        m.missing (m.addon p) = false ∧
          (m.allDependenciesLoaded (m.addon p) = false ∨ (m.addon p).loaded = true))) ∨
      (visit resolution (m, update) p = (m.disable p, true) ∧ (m.addon p).config.enabled = true ∧
        m.missing (m.addon p) = true) ∨
      (visit resolution (m, update) p = (m.loadAddon resolution p, update) ∧
        (m.addon p).config.enabled = true ∧ m.missing (m.addon p) = false ∧
        m.allDependenciesLoaded (m.addon p) = true ∧ (m.addon p).loaded = false) := by
  rw [visit]
  by_cases he : (m.addon p).config.enabled = true
  · rw [if_neg (by simpa using he)]
    by_cases hm : m.missing (m.addon p) = true
    · rw [if_pos hm]
      exact Or.inr (Or.inl ⟨rfl, he, hm⟩)
    · rw [if_neg hm]
      rw [Bool.not_eq_true] at hm
      by_cases ha : m.allDependenciesLoaded (m.addon p) = true
      · rw [if_pos ha]
        by_cases hl : (m.addon p).loaded = true
        · have hres : m.loadAddon resolution p = m := by rw [loadAddon, if_pos hl]
          exact Or.inl ⟨by rw [hres], Or.inr ⟨hm, Or.inr hl⟩⟩
        · exact Or.inr (Or.inr ⟨rfl, he, hm, ha, Bool.not_eq_true _ ▸ hl⟩)
      · rw [if_neg ha]
        exact Or.inl ⟨rfl, Or.inr ⟨hm, Or.inl (Bool.not_eq_true _ ▸ ha)⟩⟩
  · rw [if_pos (by simpa using he)]
    exact Or.inl ⟨rfl, Or.inl (Bool.not_eq_true _ ▸ he)⟩

/-- The addons as the items of the library. -/
def graph (resolution : AddonConfig → Resolution) (m : AddonManager) : Passes.Graph AddonPtr where
  good p := (m.addon p).config.enabled && !m.missing (m.addon p)
  ok p := succeeds resolution m (m.addon p).config
  deps p := (m.addon p).dependencies.filterMap m.dependency

theorem graph_good_iff : (graph resolution m).good p = true ↔
    (m.addon p).config.enabled = true ∧ m.missing (m.addon p) = false := by
  show ((m.addon p).config.enabled && !m.missing (m.addon p)) = true ↔ _
  rw [Bool.and_eq_true, Bool.not_eq_true']

/-- `m` is what `m₁` became after the addons `tried` were tried and the addons
`visited` had their turn. -/
structure Sim (resolution : AddonConfig → Resolution) (m₁ m : AddonManager)
    (tried visited : List AddonPtr) : Prop where
  same : SameMetadata m₁ m
  loaded : ∀ p ∈ m₁.order, (m.addon p).loaded = true ↔ p ∈ tried ∧ (graph resolution m₁).ok p = true
  loadedAddons : m.loadedAddons = tried.filter (graph resolution m₁).ok
  enabled : ∀ p ∈ m₁.order, (m.addon p).config.enabled = true ↔ (m₁.addon p).config.enabled = true ∧
    (p ∈ tried → (graph resolution m₁).ok p = true) ∧ (m₁.missing (m₁.addon p) = true → p ∉ visited)
  resolves : m.resolves = m₁.resolves ++
    (tried.filter fun p => (m₁.addon p).config.type ∈ m₁.resolvers).map
      fun p => (p, (graph resolution m₁).ok p)
  good : ∀ p ∈ tried, p ∈ m₁.order ∧ (graph resolution m₁).good p = true

variable {m₁ : AddonManager} {tried visited : List AddonPtr}

/-- A dependency that is there is one of the addons. -/
theorem mem_order_of_dependency {name : Bytes} (h : m.dependency name = some p) : p ∈ m.order := by
  rw [dependency, Dict.lookup, List.lookup_eq_some_iff] at h
  obtain ⟨l₁, l₂, hl, -⟩ := h
  rw [order, hl]
  simp

theorem allDependenciesLoaded_iff (h : Sim resolution m₁ m tried visited) :
    m.allDependenciesLoaded (m.addon p) = true ↔
      ∀ d ∈ (graph resolution m₁).deps p, d ∈ tried ∧ (graph resolution m₁).ok d = true := by
  have hdep : m.dependency = m₁.dependency := by
    funext name
    rw [dependency, dependency, h.same.addons]
  rw [allDependenciesLoaded, List.all_eq_true, h.same.dependencies]
  constructor
  · intro hall d hd
    obtain ⟨name, hname, hd⟩ := List.mem_filterMap.mp hd
    have hl := hall name hname
    rw [hdep, hd] at hl
    exact (h.loaded d (mem_order_of_dependency hd)).mp hl
  · intro hall name hname
    rw [hdep]
    cases hd : m₁.dependency name with
    | none => rfl
    | some d =>
      have hmem : d ∈ (graph resolution m₁).deps p := List.mem_filterMap.mpr ⟨name, hname, hd⟩
      exact (h.loaded d (mem_order_of_dependency hd)).mpr (hall d hmem)

/-- **The turn of an addon** is its turn in the library. -/
theorem sim_visit (h : Sim resolution m₁ m tried visited) (hp : p ∈ m₁.order) (update : Bool) :
    Sim resolution m₁ (visit resolution (m, update) p).1 (Passes.visit (graph resolution m₁) tried p)
        (visited ++ [p]) ∧
      (visit resolution (m, update) p).2 =
        (update || ((m₁.addon p).config.enabled && m₁.missing (m₁.addon p) && p ∉ visited)) := by
  have henabled := h.enabled p hp
  have hloaded := h.loaded p hp
  have hmissing := h.same.missing p
  have hdeps := allDependenciesLoaded_iff (p := p) h
  have hvisited : ∀ q, q ∉ visited ++ [p] ↔ q ∉ visited ∧ q ≠ p := by
    intro q
    rw [List.mem_append, List.mem_singleton, not_or]
  have hmissing_good : m₁.missing (m₁.addon p) = true → p ∉ tried := fun hm₁ ht =>
    Bool.false_ne_true ((graph_good_iff.mp (h.good p ht).2).2.symm.trans hm₁)
  rcases visit_cases resolution m update p with ⟨hres, hcase⟩ | ⟨hres, he, hm⟩ | ⟨hres, he, hm, ha, hl⟩
  · -- nothing happens
    have hskip : Passes.visit (graph resolution m₁) tried p = tried := by
      rw [Passes.visit, if_neg]
      rintro ⟨hgood, hnew, hall⟩
      obtain ⟨he₁, hm₁⟩ := graph_good_iff.mp hgood
      have he : (m.addon p).config.enabled = true := henabled.mpr
        ⟨he₁, fun ht => absurd ht hnew, fun hm => absurd (hm₁.symm.trans hm) Bool.false_ne_true⟩
      rcases hcase with he' | ⟨-, ha | hl⟩
      · exact Bool.false_ne_true (he'.symm.trans he)
      · exact Bool.false_ne_true (ha.symm.trans (hdeps.mpr hall))
      · exact hnew (hloaded.mp hl).1
    have hflag : ¬ ((m₁.addon p).config.enabled = true ∧ m₁.missing (m₁.addon p) = true ∧ p ∉ visited) := by
      rintro ⟨he₁, hm₁, hv⟩
      have he : (m.addon p).config.enabled = true := henabled.mpr
        ⟨he₁, fun ht => absurd ht (hmissing_good hm₁), fun _ => hv⟩
      rcases hcase with he' | ⟨hm, -⟩
      · exact Bool.false_ne_true (he'.symm.trans he)
      · exact Bool.false_ne_true (hm.symm.trans (hmissing.trans hm₁))
    have hbool : ((m₁.addon p).config.enabled && m₁.missing (m₁.addon p) && p ∉ visited) = false := by
      simpa [and_assoc] using hflag
    rw [hres, hskip, hbool, Bool.or_false]
    refine ⟨⟨h.same, h.loaded, h.loadedAddons, fun q hq => ?_, h.resolves, h.good⟩, rfl⟩
    rw [h.enabled q hq, hvisited]
    by_cases hqp : q = p
    · subst hqp
      constructor
      · intro hall
        exact ⟨hall.1, hall.2.1, fun hm => absurd ⟨hall.1, hm, hall.2.2 hm⟩ hflag⟩
      · intro hall
        exact ⟨hall.1, hall.2.1, fun hm => (hall.2.2 hm).1⟩
    · simp [hqp]
  · -- a dependency is missing
    have ht := disable_turn m p
    obtain ⟨he₁, -, hv⟩ := henabled.mp he
    have hm₁ : m₁.missing (m₁.addon p) = true := hmissing.symm.trans hm
    have hskip : Passes.visit (graph resolution m₁) tried p = tried := by
      rw [Passes.visit, if_neg]
      exact fun hc => Bool.false_ne_true ((graph_good_iff.mp hc.1).2.symm.trans hm₁)
    rw [hres, hskip]
    refine ⟨⟨h.same.trans ht.same, fun q hq => ?_, ?_, fun q hq => ?_, h.resolves, h.good⟩, ?_⟩
    · rw [ht.loaded, Bool.false_and, Bool.or_false]
      exact h.loaded q hq
    · rw [ht.loadedAddons]
      exact (List.append_nil _).trans h.loadedAddons
    · rw [ht.enabled, Bool.false_or, Bool.and_eq_true, h.enabled q hq, hvisited, decide_eq_true_iff]
      by_cases hqp : q = p
      · subst hqp
        simp [hm₁]
      · simp [hqp]
    · rw [he₁, hm₁, decide_eq_true (hv hm₁)]
      simp
  · -- the addon is tried
    have hm₁ : m₁.missing (m₁.addon p) = false := hmissing.symm.trans hm
    obtain ⟨he₁, hok, -⟩ := henabled.mp he
    have hgood : (graph resolution m₁).good p = true := graph_good_iff.mpr ⟨he₁, hm₁⟩
    have hnew : p ∉ tried := fun ht => Bool.false_ne_true (hl.symm.trans (hloaded.mpr ⟨ht, hok ht⟩))
    have hvisit : Passes.visit (graph resolution m₁) tried p = tried ++ [p] := by
      rw [Passes.visit, if_pos ⟨hgood, hnew, hdeps.mp ha⟩]
    have hconfig : (m.addon p).config = (m₁.addon p).config := by
      obtain ⟨e, hc⟩ := h.same.config p
      rw [hc] at he
      rw [hc, show e = (m₁.addon p).config.enabled from he.trans he₁.symm]
    have hsucc : succeeds resolution m (m.addon p).config = (graph resolution m₁).ok p := by
      rw [hconfig, succeeds, h.same.resolvers]
      rfl
    obtain ⟨ht, hcalls⟩ := loadAddon_spec resolution hl
    rw [hsucc] at ht hcalls
    rw [hconfig, h.same.resolvers] at hcalls
    rw [hres, hvisit]
    refine ⟨⟨h.same.trans ht.same, fun q hq => ?_, ?_, fun q hq => ?_, ?_, fun q hq => ?_⟩, ?_⟩
    · rw [ht.loaded, Bool.or_eq_true, h.loaded q hq, List.mem_append, List.mem_singleton, Bool.and_eq_true,
        decide_eq_true_iff]
      constructor
      · rintro (⟨hq, hs⟩ | ⟨hs, hqp⟩)
        · exact ⟨Or.inl hq, hs⟩
        · exact ⟨Or.inr hqp, hqp.symm ▸ hs⟩
      · rintro ⟨hq | hqp, hs⟩
        · exact Or.inl ⟨hq, hs⟩
        · exact Or.inr ⟨hqp ▸ hs, hqp⟩
    · rw [ht.loadedAddons, h.loadedAddons, List.filter_append, List.filter_singleton]
      congr 1
      split <;> simp_all
    · rw [ht.enabled, Bool.and_eq_true, h.enabled q hq, hvisited, Bool.or_eq_true, decide_eq_true_iff,
        List.mem_append, List.mem_singleton]
      by_cases hqp : q = p
      · subst hqp
        simp [hnew, hm₁]
      · simp [hqp]
    · rw [hcalls, h.resolves, List.filter_append, List.map_append, List.append_assoc]
      congr 2
      split
      · next htype => simp [htype]
      · next htype => simp [htype]
    · rcases List.mem_append.mp hq with hq | hq
      · exact h.good q hq
      · rw [List.mem_singleton.mp hq]
        exact ⟨hp, hgood⟩
    · rw [hm₁, Bool.and_false, Bool.false_and, Bool.or_false]

/-! ### Passes -/

/-- A pass is a pass of the library. -/
theorem sim_foldl (h : Sim resolution m₁ m tried visited) {l : List AddonPtr} (hl : ∀ p ∈ l, p ∈ m₁.order)
    (hnd : l.Nodup) (update : Bool) :
    Sim resolution m₁ (l.foldl (visit resolution) (m, update)).1
        (l.foldl (Passes.visit (graph resolution m₁)) tried) (visited ++ l) ∧
      (l.foldl (visit resolution) (m, update)).2 = (update || l.any fun p =>
        (m₁.addon p).config.enabled && m₁.missing (m₁.addon p) && p ∉ visited) := by
  induction l generalizing m tried visited update with
  | nil => simpa using h
  | cons p l ih =>
    obtain ⟨hpl, hnd'⟩ := List.nodup_cons.mp hnd
    obtain ⟨hsim, hflag⟩ := sim_visit h (hl p List.mem_cons_self) update
    obtain ⟨hsim', hflag'⟩ := ih hsim (fun q hq => hl q (List.mem_cons_of_mem p hq)) hnd'
      (visit resolution (m, update) p).2
    rw [List.append_assoc, List.singleton_append] at hsim'
    refine ⟨hsim', ?_⟩
    have hany : (l.any fun q => (m₁.addon q).config.enabled && m₁.missing (m₁.addon q) &&
        q ∉ visited ++ [p]) = l.any fun q =>
          (m₁.addon q).config.enabled && m₁.missing (m₁.addon q) && q ∉ visited := by
      rw [Bool.eq_iff_iff, List.any_eq_true, List.any_eq_true]
      refine exists_congr fun q => and_congr_right fun hq => ?_
      have hqp : q ≠ p := fun e => hpl (e ▸ hq)
      simp [hqp]
    rw [List.foldl_cons, List.any_cons, ← Bool.or_assoc, ← hflag, ← hany]
    exact hflag'

/-- Whether an enabled addon misses a dependency. -/
def someMissing (m : AddonManager) : Bool :=
  m.order.any fun p => (m.addon p).config.enabled && m.missing (m.addon p)

/-- The number of passes. -/
def passes (m : AddonManager) : ℕ := if m.someMissing then 2 else 1

theorem loadLoop_succ (resolution : AddonConfig → Resolution) (fuel : ℕ) (m : AddonManager) :
    loadLoop resolution (fuel + 1) m = if (m.pass resolution).2
      then (loadLoop resolution fuel (m.pass resolution).1).map fun r => (r.1, r.2 + 1)
      else some ((m.pass resolution).1, 1) := rfl

/-- Nothing has been tried. -/
theorem sim_start (resolution : AddonConfig → Resolution) (hloaded : ∀ p, (m₁.addon p).loaded = false)
    (hnone : m₁.loadedAddons = []) : Sim resolution m₁ m₁ [] [] := by
  refine ⟨.refl, fun p _ => ?_, hnone, fun p _ => ?_, by simp, fun p hp => ?_⟩
  · rw [hloaded]
    simp
  · simp
  · exact absurd hp List.not_mem_nil

/-- **The loop makes one or two passes**, which are those of the library. -/
theorem loadLoop_eq (resolution : AddonConfig → Resolution) (hnd : m₁.order.Nodup)
    (hloaded : ∀ p, (m₁.addon p).loaded = false) (hnone : m₁.loadedAddons = []) {fuel : ℕ} (hf : m₁.passes ≤ fuel) :
    ∃ m', loadLoop resolution fuel m₁ = some (m', m₁.passes) ∧
      Sim resolution m₁ m' (Passes.run (graph resolution m₁) m₁.order m₁.passes) m₁.order := by
  obtain ⟨hsim, hflag⟩ := sim_foldl (sim_start resolution hloaded hnone)
    (fun _ hp => hp) hnd false
  have hflag : (m₁.pass resolution).2 = m₁.someMissing := by
    rw [pass, hflag, Bool.false_or]
    simp [someMissing]
  rw [List.nil_append] at hsim
  rw [passes] at hf ⊢
  by_cases hmissing : m₁.someMissing = true
  · rw [if_pos hmissing] at hf ⊢
    obtain ⟨fuel, rfl⟩ : ∃ n, fuel = n + 2 := ⟨fuel - 2, by omega⟩
    obtain ⟨hsim', hflag'⟩ := sim_foldl hsim (fun _ hp => hp) hnd false
    have horder : (m₁.pass resolution).1.order = m₁.order := hsim.same.order
    have hflag' : ((m₁.pass resolution).1.pass resolution).2 = false := by
      rw [pass, horder]
      refine hflag'.trans ?_
      rw [Bool.false_or, List.any_eq_false]
      intro p hp
      simp [hp]
    refine ⟨((m₁.pass resolution).1.pass resolution).1, ?_, ?_⟩
    · rw [loadLoop_succ, hflag, hmissing, if_pos rfl, loadLoop_succ, hflag', if_neg Bool.false_ne_true]
      rfl
    · rw [pass, horder]
      refine { hsim' with enabled := fun p hp => ?_ }
      have hmem : p ∉ m₁.order ++ m₁.order ↔ p ∉ m₁.order := by rw [List.mem_append, or_self]
      exact (hsim'.enabled p hp).trans (by rw [hmem]; exact Iff.rfl)
  · rw [if_neg hmissing] at hf ⊢
    obtain ⟨fuel, rfl⟩ : ∃ n, fuel = n + 1 := ⟨fuel - 1, by omega⟩
    refine ⟨(m₁.pass resolution).1, ?_, hsim⟩
    rw [loadLoop_succ, hflag, if_neg hmissing]

/-! ### A fresh manager -/

/-- The addons of the dictionary are different, and none is loaded. -/
structure Fresh (m : AddonManager) : Prop where
  keys_nodup : (Assoc.keys m.addons.items).Nodup
  nodup : m.order.Nodup
  lt : ∀ p ∈ m.order, p < m.nextAddon
  loaded : ∀ p, (m.addon p).loaded = false
  loadedAddons : m.loadedAddons = []
  calls : m.calls = []

theorem fresh_new (resolvers : List Bytes) (enabled disabled : Option Bytes) :
    Fresh ((new resolvers).setOverride enabled disabled) :=
  ⟨List.nodup_nil, List.nodup_nil, fun _ hp => absurd hp List.not_mem_nil, fun _ => rfl, rfl, rfl⟩

theorem Fresh.setAddon (h : Fresh m) {addon : Addon} (hl : addon.loaded = false) :
    Fresh (m.setAddon p addon) := by
  refine ⟨h.keys_nodup, h.nodup, h.lt, fun q => ?_, h.loadedAddons, h.calls⟩
  rw [addon_setAddon]
  split
  · exact hl
  · exact h.loaded q

theorem Fresh.setMetadata (h : Fresh m) {addon : Addon} (hl : addon.loaded = false)
    (config : AddonConfig) : Fresh (m.setMetadata p addon config) :=
  h.setAddon hl

theorem Fresh.loadMetadata (h : Fresh m) (config : AddonConfig) : Fresh (m.loadMetadata config) := by
  rw [AddonManager.loadMetadata]
  split
  · exact h
  · cases hkey : m.addons.lookup config.name with
    | some p =>
      dsimp only
      rw [h.loaded p, if_neg Bool.false_ne_true]
      exact h.setMetadata (h.loaded p) config
    | none =>
      have hitems : (m.addons.insert config.name m.nextAddon).items =
          m.addons.items ++ [(config.name, m.nextAddon)] := by
        rw [Dict.insert, hkey]
      have hout : m.nextAddon ∉ m.order := fun hmem => Nat.lt_irrefl _ (h.lt _ hmem)
      have hnew : Fresh { m with
          nextAddon := m.nextAddon + 1, addons := m.addons.insert config.name m.nextAddon } := by
        refine ⟨?_, ?_, fun p hp => ?_, h.loaded, h.loadedAddons, h.calls⟩
        · dsimp only
          rw [hitems]
          exact Assoc.keys_concat_nodup h.keys_nodup hkey
        · rw [order, hitems, List.map_append, List.map_singleton, ← List.concat_eq_append]
          exact h.nodup.concat hout
        · rw [order, hitems, List.map_append, List.map_singleton, List.mem_append, List.mem_singleton] at hp
          rcases hp with hp | hp
          · exact Nat.lt_succ_of_lt (h.lt p hp)
          · exact Nat.lt_succ_of_le (Nat.le_of_eq hp)
      exact hnew.setMetadata rfl config

/-- **The metadata of a fresh manager.** -/
theorem prepare_fresh (resolvers : List Bytes) (enabled disabled : Option Bytes) (files : List AddonConfig) :
    ∃ m, ((new resolvers).setOverride enabled disabled).prepare files = some m ∧ Fresh m := by
  have hfold : ∀ (files : List AddonConfig) (m : AddonManager), Fresh m →
      Fresh (files.foldl AddonManager.loadMetadata m) := by
    intro files
    induction files with
    | nil => exact fun m h => h
    | cons config files ih => exact fun m h => ih _ (h.loadMetadata config)
  exact ⟨_, rfl, hfold files _ (fresh_new resolvers enabled disabled)⟩

/-! ### The loop ends -/

/-- A turn does not enable addons, and one that asks for another pass disables one. -/
theorem visit_count (resolution : AddonConfig → Resolution) (m : AddonManager) (update : Bool) (p : AddonPtr)
    (l : List AddonPtr) :
    let r := visit resolution (m, update) p
    r.1.order = m.order ∧ (l.countP fun q => (r.1.addon q).config.enabled) ≤
        (l.countP fun q => (m.addon q).config.enabled) ∧
      (r.2 = true → update = true ∨ (p ∈ l → (l.countP fun q => (r.1.addon q).config.enabled) <
        l.countP fun q => (m.addon q).config.enabled)) := by
  intro r
  have hle : ∀ {m' : AddonManager} {ok : Bool}, Turn m m' p ok → ∀ l : List AddonPtr,
      (l.countP fun q => (m'.addon q).config.enabled) ≤ l.countP fun q => (m.addon q).config.enabled := by
    intro m' ok ht l
    refine List.countP_mono_left fun q _ hq => ?_
    rw [ht.enabled, Bool.and_eq_true] at hq
    exact hq.1
  rcases visit_cases resolution m update p with ⟨hres, -⟩ | ⟨hres, he, -⟩ | ⟨hres, -, -, -, hl⟩
  · have hr : r = (m, update) := hres
    rw [hr]
    exact ⟨rfl, Nat.le_refl _, fun h => Or.inl h⟩
  · have hr : r = (m.disable p, true) := hres
    have ht := disable_turn m p
    rw [hr]
    refine ⟨rfl, hle ht l, fun _ => Or.inr fun hp => ?_⟩
    obtain ⟨xs, ys, rfl⟩ := List.append_of_mem hp
    have hp' : ((m.disable p).addon p).config.enabled = false := by
      rw [ht.enabled]
      simp
    have hxs := hle ht xs
    have hys := hle ht ys
    have hneg : ¬ ((m.disable p).addon p).config.enabled = true := by
      rw [hp']
      exact Bool.false_ne_true
    have hlt : List.countP (fun q => ((m.disable p).addon q).config.enabled) (xs ++ p :: ys) <
        List.countP (fun q => (m.addon q).config.enabled) (xs ++ p :: ys) := by
      rw [List.countP_append, List.countP_append,
        List.countP_cons_of_pos (p := fun q => (m.addon q).config.enabled) he,
        List.countP_cons_of_neg (p := fun q => ((m.disable p).addon q).config.enabled) hneg]
      omega
    exact hlt
  · have hr : r = (m.loadAddon resolution p, update) := hres
    have ht := (loadAddon_spec resolution hl).1
    rw [hr]
    exact ⟨ht.same.order, hle ht l, fun h => Or.inl h⟩

/-- A pass does not enable addons, and one that asks for another disables one. -/
theorem pass_count (resolution : AddonConfig → Resolution) (m : AddonManager) :
    (m.pass resolution).1.order = m.order ∧ (m.pass resolution).1.enabledCount ≤ m.enabledCount ∧
      ((m.pass resolution).2 = true → (m.pass resolution).1.enabledCount < m.enabledCount) := by
  have hfold : ∀ (l : List AddonPtr) (m' : AddonManager) (update : Bool), (∀ p ∈ l, p ∈ m.order) →
      m'.order = m.order → m'.enabledCount ≤ m.enabledCount →
      (update = true → m'.enabledCount < m.enabledCount) →
      (l.foldl (visit resolution) (m', update)).1.order = m.order ∧
        (l.foldl (visit resolution) (m', update)).1.enabledCount ≤ m.enabledCount ∧
        ((l.foldl (visit resolution) (m', update)).2 = true →
          (l.foldl (visit resolution) (m', update)).1.enabledCount < m.enabledCount) := by
    intro l
    induction l with
    | nil => exact fun m' update _ h₁ h₂ h₃ => ⟨h₁, h₂, h₃⟩
    | cons p l ih =>
      intro m' update hl h₁ h₂ h₃
      obtain ⟨horder, hle, hlt⟩ := visit_count resolution m' update p m'.order
      refine ih (visit resolution (m', update) p).1 (visit resolution (m', update) p).2
        (fun q hq => hl q (List.mem_cons_of_mem p hq)) (horder.trans h₁) ?_ fun hflag => ?_
      · rw [enabledCount, horder]
        exact Nat.le_trans hle h₂
      · rw [enabledCount, horder]
        rcases hlt hflag with hupdate | hlt
        · exact Nat.lt_of_le_of_lt hle (h₃ hupdate)
        · exact Nat.lt_of_lt_of_le (hlt (h₁ ▸ hl p List.mem_cons_self)) h₂
  exact hfold m.order m false (fun _ hp => hp) rfl (Nat.le_refl _) fun h => absurd h Bool.false_ne_true

/-- What turns do to the resolver calls: `new` are those of addons that were
enabled and not loaded, and are loaded or disabled now. -/
structure Progress (m m' : AddonManager) (new : List (AddonPtr × Bool)) : Prop where
  resolves : m'.resolves = m.resolves ++ new
  nodup : (new.map Prod.fst).Nodup
  before : ∀ e ∈ new, (m.addon e.1).loaded = false ∧ (m.addon e.1).config.enabled = true
  after : ∀ e ∈ new, (m'.addon e.1).loaded = true ∨ (m'.addon e.1).config.enabled = false
  loaded : ∀ p, (m.addon p).loaded = true → (m'.addon p).loaded = true
  disabled : ∀ p, (m.addon p).config.enabled = false → (m'.addon p).config.enabled = false

theorem Progress.refl : Progress m m [] :=
  ⟨(List.append_nil _).symm, List.nodup_nil, fun _ he => absurd he List.not_mem_nil,
    fun _ he => absurd he List.not_mem_nil, fun _ h => h, fun _ h => h⟩

theorem Progress.trans {m'' : AddonManager} {new new' : List (AddonPtr × Bool)} (h : Progress m m' new)
    (h' : Progress m' m'' new') : Progress m m'' (new ++ new') where
  resolves := by rw [h'.resolves, h.resolves, List.append_assoc]
  nodup := by
    rw [List.map_append, List.nodup_append]
    refine ⟨h.nodup, h'.nodup, fun p hp q hq hpq => ?_⟩
    obtain ⟨e, he, rfl⟩ := List.mem_map.mp hp
    obtain ⟨e', he', rfl⟩ := List.mem_map.mp hq
    have hbefore := h'.before e' he'
    rw [← hpq] at hbefore
    rcases h.after e he with hl | hd
    · exact Bool.false_ne_true (hbefore.1.symm.trans hl)
    · exact Bool.false_ne_true (hd.symm.trans hbefore.2)
  before e he := by
    rcases List.mem_append.mp he with he | he
    · exact h.before e he
    · obtain ⟨hl, hd⟩ := h'.before e he
      refine ⟨?_, ?_⟩
      · by_contra hne
        exact Bool.false_ne_true (hl.symm.trans (h.loaded _ (Bool.not_eq_false _ ▸ hne)))
      · by_contra hne
        exact Bool.false_ne_true ((h.disabled _ (Bool.not_eq_true _ ▸ hne)).symm.trans hd)
  after e he := by
    rcases List.mem_append.mp he with he | he
    · rcases h.after e he with hl | hd
      · exact Or.inl (h'.loaded _ hl)
      · exact Or.inr (h'.disabled _ hd)
    · exact h'.after e he
  loaded p hp := h'.loaded p (h.loaded p hp)
  disabled p hp := h'.disabled p (h.disabled p hp)

theorem Turn.progress {new : List (AddonPtr × Bool)} (ht : Turn m m' p ok)
    (hresolves : m'.resolves = m.resolves ++ new) (hnew : new = [] ∨ ∃ result, new = [(p, result)])
    (hl : new ≠ [] → (m.addon p).loaded = false ∧ (m.addon p).config.enabled = true) :
    Progress m m' new := by
  have hmem : ∀ e ∈ new, e.1 = p ∧ new ≠ [] := by
    intro e he
    rcases hnew with rfl | ⟨result, rfl⟩
    · exact absurd he List.not_mem_nil
    · rw [List.mem_singleton.mp he]
      exact ⟨rfl, List.cons_ne_nil _ _⟩
  refine ⟨hresolves, ?_, fun e he => ?_, fun e he => ?_, fun q hq => ?_, fun q hq => ?_⟩
  · rcases hnew with rfl | ⟨result, rfl⟩
    · exact List.nodup_nil
    · exact List.nodup_singleton p
  · rw [(hmem e he).1]
    exact hl (hmem e he).2
  · rw [(hmem e he).1, ht.loaded, ht.enabled]
    cases ok
    · exact Or.inr (by simp)
    · exact Or.inl (by simp)
  · rw [ht.loaded, hq, Bool.true_or]
  · rw [ht.enabled, hq, Bool.false_and]

theorem visit_progress (resolution : AddonConfig → Resolution) (m : AddonManager) (update : Bool)
    (p : AddonPtr) : ∃ new, Progress m (visit resolution (m, update) p).1 new := by
  rcases visit_cases resolution m update p with ⟨hres, -⟩ | ⟨hres, -, -⟩ | ⟨hres, he, -, -, hl⟩
  · rw [hres]
    exact ⟨[], .refl⟩
  · rw [hres]
    exact ⟨[], (disable_turn m p).progress (List.append_nil _).symm (Or.inl rfl) fun h => absurd rfl h⟩
  · rw [hres]
    obtain ⟨ht, hcalls⟩ := loadAddon_spec resolution hl
    refine ⟨_, ht.progress hcalls ?_ fun _ => ⟨hl, he⟩⟩
    split
    · exact Or.inr ⟨_, rfl⟩
    · exact Or.inl rfl

theorem pass_progress (resolution : AddonConfig → Resolution) (m : AddonManager) :
    ∃ new, Progress m (m.pass resolution).1 new := by
  have hfold : ∀ (l : List AddonPtr) (m' : AddonManager) (update : Bool),
      ∃ new, Progress m' (l.foldl (visit resolution) (m', update)).1 new := by
    intro l
    induction l with
    | nil => exact fun m' _ => ⟨[], .refl⟩
    | cons p l ih =>
      intro m' update
      obtain ⟨new, h⟩ := visit_progress resolution m' update p
      obtain ⟨new', h'⟩ := ih (visit resolution (m', update) p).1 (visit resolution (m', update) p).2
      exact ⟨new ++ new', h.trans h'⟩
  exact hfold m.order m false

/-- **The loop ends** after at most one more pass than there are enabled addons,
and calls the resolvers at most once for each addon. -/
theorem loadLoop_some (resolution : AddonConfig → Resolution) (fuel : ℕ) (m : AddonManager)
    (hf : m.enabledCount < fuel) :
    ∃ m' n, loadLoop resolution fuel m = some (m', n) ∧ n ≤ m.enabledCount + 1 ∧
      ∃ new, Progress m m' new := by
  induction fuel generalizing m with
  | zero => exact absurd hf (Nat.not_lt_zero _)
  | succ fuel ih =>
    obtain ⟨-, hle, hlt⟩ := pass_count resolution m
    obtain ⟨new, hprogress⟩ := pass_progress resolution m
    rw [loadLoop_succ]
    split
    · next hflag =>
      have hless := hlt hflag
      obtain ⟨m', n, hloop, hn, new', hprogress'⟩ := ih (m.pass resolution).1 (by omega)
      rw [hloop]
      exact ⟨m', n + 1, rfl, by omega, new ++ new', hprogress.trans hprogress'⟩
    · exact ⟨(m.pass resolution).1, 1, rfl, by omega, new, hprogress⟩

end AddonManager

end Fcitx
