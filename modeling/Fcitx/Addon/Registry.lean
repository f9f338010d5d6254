/-
# The frontends and the input methods of the manager

A frontend gets its id, the length of the list of frontends, before its `init`,
and is listed after it. While nothing that is listed is unloaded, and no frontend
is resolved to the API structure of another one, the lists hold what is loaded,
and the id of a frontend is its place. Unloading clears neither list.

Key definitions: `AddonManager.RegistryLaw`, `AddonManager.SeparateApis`,
`AddonManager.step`.
Key theorems: `AddonManager.loadAddon_outcome`, `AddonManager.RegistryInv.visit`,
`AddonManager.run_registryLaw`.
-/
import Fcitx.Addon.Load
import Fcitx.Lib.Run

namespace Fcitx

/-- An operation on the manager: `files` and `resolution` are what the load finds. -/
inductive AddonOp where
  | load (files : List AddonConfig) (resolution : AddonConfig → Resolution)
  | unload

namespace AddonManager

variable {resolution : AddonConfig → Resolution} {m m' m₁ : AddonManager} {p q : AddonPtr} {a : ApiPtr}

/-- `none` is a fault. -/
def step (s : Option AddonManager) : AddonOp → Option AddonManager
  | .load files resolution => s.bind fun manager => manager.load files resolution
  | .unload => s.map unload

/-- The lists hold loaded addons, each once, and a loaded frontend is at its id. -/
structure RegistryLaw (m : AddonManager) : Prop where
  frontends : ∀ p ∈ m.frontends, (m.addon p).loaded = true
  frontends_nodup : m.frontends.Nodup
  ims : ∀ p ∈ m.ims, (m.addon p).loaded = true
  ims_nodup : m.ims.Nodup
  frontendId : ∀ p, (m.addon p).loaded = true → (m.addon p).config.category = .frontend →
    ∃ a, (m.addon p).api = some a ∧ m.frontends[m.frontendId a]? = some p

/-- The API structure whose `frontendId` an enabled frontend would set. -/
def frontendApi (resolution : AddonConfig → Resolution) (config : AddonConfig) : Option ApiPtr :=
  if config.category = .frontend then
    ((resolution { config with enabled := true }).api.filter fun api => api.init && api.destroy).map AddonApi.ptr
  else none

/-- The enabled frontends of the files have API structures of their own. -/
def SeparateApis (m : AddonManager) (files : List AddonConfig) (resolution : AddonConfig → Resolution) : Prop :=
  ∀ config ∈ files, m.enable config = true → ∀ a ∈ frontendApi resolution config,
    (∀ config' ∈ files, m.enable config' = true → config'.name ≠ config.name →
      frontendApi resolution config' ≠ some a) ∧
    ∀ q ∈ m.frontends, (m.addon q).config.name ≠ config.name → (m.addon q).api ≠ some a

/-- A load keeps API structures apart; an unload has no frontend and no input
method to unload. -/
def Ok : Option AddonManager → AddonOp → Prop
  | none, _ => True
  | some m, .load files resolution => m.SeparateApis files resolution
  | some m, .unload => m.loaded = true → m.frontends = [] ∧ m.ims = []

instance okDecidable : ∀ (s : Option AddonManager) (op : AddonOp), Decidable (Ok s op)
  | none, _ => .isTrue trivial
  | some m, .load files resolution =>
    inferInstanceAs (Decidable (∀ config ∈ files, m.enable config = true →
      ∀ a ∈ frontendApi resolution config,
        (∀ config' ∈ files, m.enable config' = true → config'.name ≠ config.name →
          frontendApi resolution config' ≠ some a) ∧
        ∀ q ∈ m.frontends, (m.addon q).config.name ≠ config.name → (m.addon q).api ≠ some a))
  | some m, .unload => inferInstanceAs (Decidable (m.loaded = true → m.frontends = [] ∧ m.ims = []))

/-! ### Trying an addon -/

/-- Only the addon `p` changes, and not in its name and category. -/
structure OnlyAddon (m m' : AddonManager) (p : AddonPtr) : Prop where
  addons : m'.addons = m.addons
  nextAddon : m'.nextAddon = m.nextAddon
  others : ∀ q, q ≠ p → m'.addon q = m.addon q
  name : (m'.addon p).config.name = (m.addon p).config.name
  category : (m'.addon p).config.category = (m.addon p).config.category

/-- What the `init` of an addon leaves behind when it fails: a frontend had its id set. -/
def IdSet (resolution : AddonConfig → Resolution) (m m' : AddonManager) (p : AddonPtr) : Prop :=
  (m.addon p).config.category = .frontend ∧ ∃ api, (resolution (m.addon p).config).api = some api ∧
    (api.init && api.destroy) = true ∧
    m'.frontendId = Function.update m.frontendId api.ptr m.frontends.length

/-- The addon was resolved, is loaded and listed. -/
structure Loaded (resolution : AddonConfig → Resolution) (m m' : AddonManager) (p : AddonPtr) : Prop where
  loaded : (m'.addon p).loaded = true
  enabled : (m'.addon p).config.enabled = (m.addon p).config.enabled
  loadedAddons : m'.loadedAddons = m.loadedAddons ++ [p]
  api : ∃ api, (resolution (m.addon p).config).api = some api ∧ (api.init && api.destroy) = true ∧
    (m'.addon p).api = some api.ptr ∧
    m'.frontendId = if (m.addon p).config.category = .frontend
      then Function.update m.frontendId api.ptr m.frontends.length else m.frontendId
  frontends : m'.frontends = m.frontends ++ if (m.addon p).config.category = .frontend then [p] else []
  ims : m'.ims = m.ims ++ if (m.addon p).config.category = .inputMethod then [p] else []

/-- The addon is not loaded, and disabled. -/
structure Failed (resolution : AddonConfig → Resolution) (m m' : AddonManager) (p : AddonPtr) : Prop where
  loaded : (m'.addon p).loaded = (m.addon p).loaded
  api : (m.addon p).loaded = true → (m'.addon p).api = (m.addon p).api
  enabled : (m'.addon p).config.enabled = false
  loadedAddons : m'.loadedAddons = m.loadedAddons
  frontends : m'.frontends = m.frontends
  ims : m'.ims = m.ims
  frontendId : m'.frontendId = m.frontendId ∨ (m.addon p).loaded = false ∧ IdSet resolution m m' p

theorem disable_onlyAddon (m : AddonManager) (p : AddonPtr) : OnlyAddon m (m.disable p) p := by
  refine ⟨rfl, rfl, fun q hq => ?_, ?_, ?_⟩
  · rw [disable, addon_setAddon, if_neg hq]
  · rw [disable, addon_setAddon, if_pos rfl]
  · rw [disable, addon_setAddon, if_pos rfl]

theorem disable_failed (resolution : AddonConfig → Resolution) (m : AddonManager) (p : AddonPtr) :
    Failed resolution m (m.disable p) p := by
  refine ⟨?_, fun _ => ?_, ?_, rfl, rfl, rfl, Or.inl rfl⟩ <;> rw [disable, addon_setAddon, if_pos rfl]

/-- What `fcitx_addon_init_general` does to an addon that has both functions. -/
structure Inited (m m' : AddonManager) (p : AddonPtr) (api : AddonApi) (data : Option ℕ) : Prop where
  addons : m'.addons = m.addons
  nextAddon : m'.nextAddon = m.nextAddon
  loadedAddons : m'.loadedAddons = m.loadedAddons
  addon : m'.addon = Function.update m.addon p { m.addon p with data := data }
  frontendId : m'.frontendId = if (m.addon p).config.category = .frontend
    then Function.update m.frontendId api.ptr m.frontends.length else m.frontendId
  frontends : m'.frontends = m.frontends ++
    if data.isSome = true ∧ (m.addon p).config.category = .frontend then [p] else []
  ims : m'.ims = m.ims ++
    if data.isSome = true ∧ (m.addon p).config.category = .inputMethod then [p] else []

theorem initGeneral_inited (m : AddonManager) (p : AddonPtr) {api : AddonApi} (data : Option ℕ)
    (hapi : (api.init && api.destroy) = true) :
    Inited m (m.initGeneral p api data).2 p api data ∧ (m.initGeneral p api data).1 = data.isSome := by
  have hboth : ¬ (¬ api.init = true ∨ ¬ api.destroy = true) := by simpa using hapi
  rw [initGeneral, if_neg hboth]
  cases hcat : (m.addon p).config.category <;> cases data <;>
    refine ⟨⟨?_, ?_, ?_, ?_, ?_, ?_, ?_⟩, ?_⟩ <;>
    simp [setFrontendId, register, call, setAddon, hcat]

/-- What resolving does to the lists and the ids. -/
structure ResolvedLists (res : Resolution) (m n : AddonManager) (p : AddonPtr) (result : Bool) : Prop where
  nextAddon : n.nextAddon = m.nextAddon
  others : ∀ q, q ≠ p → n.addon q = m.addon q
  frontends : n.frontends = m.frontends ++
    if result = true ∧ (m.addon p).config.category = .frontend then [p] else []
  ims : n.ims = m.ims ++ if result = true ∧ (m.addon p).config.category = .inputMethod then [p] else []
  frontendId : (result = false ∧ n.frontendId = m.frontendId) ∨
    ∃ api, res.api = some api ∧ (api.init && api.destroy) = true ∧ (n.addon p).api = some api.ptr ∧
      n.frontendId = if (m.addon p).config.category = .frontend
        then Function.update m.frontendId api.ptr m.frontends.length else m.frontendId

theorem resolve_lists (m : AddonManager) (p : AddonPtr) (res : Resolution) :
    ResolvedLists res m (m.resolve p res).2 p (m.resolve p res).1 := by
  rw [resolve]
  cases hapi : res.api with
  | none => exact ⟨rfl, fun _ _ => rfl, by simp, by simp, Or.inl ⟨rfl, rfl⟩⟩
  | some api =>
    dsimp only
    have hp : ((m.setAddon p { m.addon p with api := some api.ptr }).addon p) =
        { m.addon p with api := some api.ptr } := by rw [addon_setAddon, if_pos rfl]
    have hothers : ∀ q, q ≠ p → (m.setAddon p { m.addon p with api := some api.ptr }).addon q = m.addon q := by
      intro q hq
      rw [addon_setAddon, if_neg hq]
    by_cases hboth : (api.init && api.destroy) = true
    · obtain ⟨hinit, hresult⟩ := initGeneral_inited (m.setAddon p { m.addon p with api := some api.ptr }) p
        res.data hboth
      rw [hresult]
      refine ⟨hinit.nextAddon, fun q hq => ?_, ?_, ?_, Or.inr ⟨api, hapi, hboth, ?_, ?_⟩⟩
      · rw [hinit.addon, Function.update_of_ne hq, hothers q hq]
      · rw [hinit.frontends, hp]
        rfl
      · rw [hinit.ims, hp]
        rfl
      · rw [hinit.addon, Function.update_self, hp]
      · rw [hinit.frontendId, hp]
        rfl
    · have hneither : ¬ api.init = true ∨ ¬ api.destroy = true := by
        rw [Bool.and_eq_true] at hboth
        exact Decidable.not_and_iff_or_not.mp hboth
      rw [initGeneral, if_pos hneither]
      exact ⟨rfl, hothers, by simp [setAddon], by simp [setAddon], Or.inl ⟨rfl, rfl⟩⟩

/-- **What trying an addon does** to the lists and the ids. -/
theorem loadAddon_outcome (resolution : AddonConfig → Resolution) (hp : (m.addon p).loaded = false) :
    OnlyAddon m (m.loadAddon resolution p) p ∧
      (Failed resolution m (m.loadAddon resolution p) p ∨ Loaded resolution m (m.loadAddon resolution p) p) := by
  by_cases htype : (m.addon p).config.type ∈ m.resolvers
  · have hresolved := (resolve_spec m p (resolution (m.addon p).config)).1
    have hlists := resolve_lists m p (resolution (m.addon p).config)
    have hres : m.loadAddon resolution p = if (m.resolve p (resolution (m.addon p).config)).1 then
        { ((m.resolve p (resolution (m.addon p).config)).2.call (.resolve p true)).setAddon p
            { (m.resolve p (resolution (m.addon p).config)).2.addon p with loaded := true } with
          loadedAddons := (m.resolve p (resolution (m.addon p).config)).2.loadedAddons ++ [p] }
        else ((m.resolve p (resolution (m.addon p).config)).2.call (.resolve p false)).disable p := by
      rw [loadAddon, hp, if_neg Bool.false_ne_true, if_pos htype]
      cases h : (m.resolve p (resolution (m.addon p).config)).1 <;> simp only [h] <;> rfl
    revert hres hlists hresolved
    generalize m.resolve p (resolution (m.addon p).config) = r
    rcases r with ⟨_ | _, n⟩
    · intro hresolved hlists hres
      rw [if_neg Bool.false_ne_true] at hres
      have honly := disable_onlyAddon (n.call (.resolve p false)) p
      have hfailed := disable_failed resolution (n.call (.resolve p false)) p
      rw [hres]
      refine ⟨⟨hresolved.addons, hlists.nextAddon, fun q hq => ?_, ?_, ?_⟩,
        Or.inl ⟨?_, fun hl => ?_, hfailed.enabled, hresolved.loadedAddons, ?_, ?_, ?_⟩⟩
      · exact (honly.others q hq).trans (hlists.others q hq)
      · exact honly.name.trans (congrArg AddonConfig.name (hresolved.config p))
      · exact honly.category.trans (congrArg AddonConfig.category (hresolved.config p))
      · exact hfailed.loaded.trans (hresolved.loaded p)
      · exact absurd (hp.symm.trans hl) Bool.false_ne_true
      · exact hlists.frontends.trans (by simp)
      · exact hlists.ims.trans (by simp)
      · rcases hlists.frontendId with ⟨-, hid⟩ | ⟨api, hapi, hboth, -, hid⟩
        · exact Or.inl hid
        · by_cases hcat : (m.addon p).config.category = .frontend
          · rw [if_pos hcat] at hid
            exact Or.inr ⟨hp, hcat, api, hapi, hboth, hid⟩
          · rw [if_neg hcat] at hid
            exact Or.inl hid
    · intro hresolved hlists hres
      rw [if_pos rfl] at hres
      have hnp : (m.loadAddon resolution p).addon p = { n.addon p with loaded := true } := by
        rw [hres]
        exact Function.update_self ..
      rcases hlists.frontendId with ⟨hf, -⟩ | ⟨api, hapi, hboth, hapip, hid⟩
      · exact absurd hf.symm Bool.false_ne_true
      · refine ⟨⟨?_, ?_, fun q hq => ?_, ?_, ?_⟩, Or.inr ⟨?_, ?_, ?_, ⟨api, hapi, hboth, ?_, ?_⟩, ?_, ?_⟩⟩
        · rw [hres]
          exact hresolved.addons
        · rw [hres]
          exact hlists.nextAddon
        · rw [hres]
          exact (Function.update_of_ne hq ..).trans (hlists.others q hq)
        · rw [hnp]
          exact congrArg AddonConfig.name (hresolved.config p)
        · rw [hnp]
          exact congrArg AddonConfig.category (hresolved.config p)
        · rw [hnp]
        · rw [hnp]
          exact congrArg AddonConfig.enabled (hresolved.config p)
        · rw [hres]
          exact congrArg (· ++ [p]) hresolved.loadedAddons
        · rw [hnp]
          exact hapip
        · rw [hres]
          exact hid
        · rw [hres]
          exact hlists.frontends.trans (by simp)
        · rw [hres]
          exact hlists.ims.trans (by simp)
  · have hres : m.loadAddon resolution p = m.disable p := by
      rw [loadAddon, hp, if_neg Bool.false_ne_true, if_neg htype]
    rw [hres]
    exact ⟨disable_onlyAddon m p, Or.inl (disable_failed resolution m p)⟩

/-! ### The invariant of a run -/

/-- The lists are right, and the dictionary has the loaded addons under their names. -/
structure RegistryInv (m : AddonManager) : Prop where
  law : RegistryLaw m
  order_nodup : m.order.Nodup
  keys_nodup : (Assoc.keys m.addons.items).Nodup
  key : ∀ e ∈ m.addons.items, e.1 = (m.addon e.2).config.name
  lt : ∀ p ∈ m.order, p < m.nextAddon
  loaded_mem : ∀ p, (m.addon p).loaded = true → p ∈ m.order ∧ p ∈ m.loadedAddons
  category : ∀ p ∈ m.frontends, (m.addon p).config.category = .frontend

/-- An addon has the API structure `a`, or would get it when it is tried. -/
def Takes (resolution : AddonConfig → Resolution) (m : AddonManager) (p : AddonPtr) (a : ApiPtr) : Prop :=
  ((m.addon p).loaded = true ∧ (m.addon p).api = some a) ∨
    ((m.addon p).loaded = false ∧ (m.addon p).config.enabled = true ∧
      ∃ api, (resolution (m.addon p).config).api = some api ∧ (api.init && api.destroy) = true ∧ api.ptr = a)

/-- Different frontends take different API structures. -/
def Separate (resolution : AddonConfig → Resolution) (m : AddonManager) : Prop :=
  ∀ p ∈ m.order, ∀ q ∈ m.order, p ≠ q → (m.addon p).config.category = .frontend →
    (m.addon q).config.category = .frontend → ∀ a, Takes resolution m p a → ¬ Takes resolution m q a

theorem OnlyAddon.order (h : OnlyAddon m m' p) : m'.order = m.order := by
  rw [AddonManager.order, h.addons]
  rfl

theorem OnlyAddon.category_eq (h : OnlyAddon m m' p) (q : AddonPtr) :
    (m'.addon q).config.category = (m.addon q).config.category := by
  by_cases hq : q = p
  · rw [hq, h.category]
  · rw [h.others q hq]

theorem OnlyAddon.name_eq (h : OnlyAddon m m' p) (q : AddonPtr) :
    (m'.addon q).config.name = (m.addon q).config.name := by
  by_cases hq : q = p
  · rw [hq, h.name]
  · rw [h.others q hq]

theorem OnlyAddon.loaded_of_eq (h : OnlyAddon m m' p) (hp : (m'.addon p).loaded = (m.addon p).loaded)
    (q : AddonPtr) : (m'.addon q).loaded = (m.addon q).loaded := by
  by_cases hq : q = p
  · rw [hq, hp]
  · rw [h.others q hq]

/-- What is taken after a change of one addon was taken before. -/
theorem OnlyAddon.separate (h : OnlyAddon m m' p)
    (htakes : ∀ a, Takes resolution m' p a → Takes resolution m p a) (hs : Separate resolution m) :
    Separate resolution m' := by
  have hall : ∀ q a, Takes resolution m' q a → Takes resolution m q a := by
    intro q a hq
    by_cases hqp : q = p
    · rw [hqp] at hq ⊢
      exact htakes a hq
    · rw [Takes, h.others q hqp] at hq
      exact hq
  intro q hq q' hq' hne hc hc' a ha ha'
  rw [h.order] at hq hq'
  rw [h.category_eq] at hc hc'
  exact hs q hq q' hq' hne hc hc' a (hall q a ha) (hall q' a ha')

/-- An addon that is disabled leaves the lists as they are. -/
theorem RegistryInv.failed (h : RegistryInv m) (hs : Separate resolution m) (hp : p ∈ m.order)
    (he : (m.addon p).config.enabled = true) (honly : OnlyAddon m m' p)
    (hfailed : Failed resolution m m' p) : RegistryInv m' ∧ Separate resolution m' := by
  have hloaded := honly.loaded_of_eq hfailed.loaded
  have hapi : ∀ q, (m.addon q).loaded = true → (m'.addon q).api = (m.addon q).api := by
    intro q hq
    by_cases hqp : q = p
    · rw [hqp] at hq ⊢
      exact hfailed.api hq
    · rw [honly.others q hqp]
  refine ⟨⟨⟨?_, ?_, ?_, ?_, fun q hq hc => ?_⟩, ?_, ?_, fun e he => ?_, ?_, fun q hq => ?_, ?_⟩,
    honly.separate (fun a ha => ?_) hs⟩
  · rw [hfailed.frontends]
    exact fun q hq => (hloaded q).trans (h.law.frontends q hq)
  · rw [hfailed.frontends]
    exact h.law.frontends_nodup
  · rw [hfailed.ims]
    exact fun q hq => (hloaded q).trans (h.law.ims q hq)
  · rw [hfailed.ims]
    exact h.law.ims_nodup
  · rw [hloaded] at hq
    rw [honly.category_eq] at hc
    obtain ⟨a, ha, hid⟩ := h.law.frontendId q hq hc
    refine ⟨a, (hapi q hq).trans ha, ?_⟩
    rw [hfailed.frontends]
    rcases hfailed.frontendId with hsame | ⟨hl, hcp, api, hres, hboth, hset⟩
    · rw [hsame]
      exact hid
    · -- the id that was set belongs to another structure
      have hqp : q ≠ p := by
        rintro rfl
        exact Bool.false_ne_true (hl.symm.trans hq)
      have hne : a ≠ api.ptr := by
        rintro rfl
        exact hs q (h.loaded_mem q hq).1 p hp hqp hc hcp _ (Or.inl ⟨hq, ha⟩)
          (Or.inr ⟨hl, he, api, hres, hboth, rfl⟩)
      rw [hset, Function.update_of_ne hne]
      exact hid
  · rw [honly.order]
    exact h.order_nodup
  · rw [honly.addons]
    exact h.keys_nodup
  · rw [honly.addons] at he
    rw [honly.name_eq]
    exact h.key e he
  · rw [honly.order, honly.nextAddon]
    exact h.lt
  · rw [hloaded] at hq
    rw [honly.order, hfailed.loadedAddons]
    exact h.loaded_mem q hq
  · rw [hfailed.frontends]
    exact fun q hq => (honly.category_eq q).trans (h.category q hq)
  · rcases ha with ⟨hl, ha⟩ | ⟨-, he', -⟩
    · rw [hfailed.loaded] at hl
      exact Or.inl ⟨hl, (hfailed.api hl) ▸ ha⟩
    · exact absurd (hfailed.enabled.symm.trans he') Bool.false_ne_true

/-- An addon that was loaded is listed at its id. -/
theorem RegistryInv.loaded (h : RegistryInv m) (hs : Separate resolution m) (hp : p ∈ m.order)
    (hpl : (m.addon p).loaded = false) (he : (m.addon p).config.enabled = true) (honly : OnlyAddon m m' p)
    (hloaded : Loaded resolution m m' p) : RegistryInv m' ∧ Separate resolution m' := by
  obtain ⟨api, hres, hboth, hapi, hset⟩ := hloaded.api
  have htakes : Takes resolution m p api.ptr := Or.inr ⟨hpl, he, api, hres, hboth, rfl⟩
  have hkeep : ∀ q, (m.addon q).loaded = true → (m'.addon q).loaded = true := by
    intro q hq
    by_cases hqp : q = p
    · rw [hqp, hloaded.loaded]
    · rw [honly.others q hqp, hq]
  have hlist : ∀ (l : List AddonPtr) (c : Prop) [Decidable c], (∀ q ∈ l, (m.addon q).loaded = true) → l.Nodup →
      (∀ q ∈ l ++ (if c then [p] else []), (m'.addon q).loaded = true) ∧ (l ++ if c then [p] else []).Nodup := by
    intro l c _ hl hnd
    by_cases hc : c
    · rw [if_pos hc]
      refine ⟨fun q hq => ?_, ?_⟩
      · rcases List.mem_append.mp hq with hq | hq
        · exact hkeep q (hl q hq)
        · rw [List.mem_singleton.mp hq, hloaded.loaded]
      · rw [← List.concat_eq_append]
        exact hnd.concat fun hmem => Bool.false_ne_true (hpl.symm.trans (hl p hmem))
    · rw [if_neg hc, List.append_nil]
      exact ⟨fun q hq => hkeep q (hl q hq), hnd⟩
  have hfrontends := hlist m.frontends ((m.addon p).config.category = .frontend) h.law.frontends
    h.law.frontends_nodup
  have hims := hlist m.ims ((m.addon p).config.category = .inputMethod) h.law.ims h.law.ims_nodup
  refine ⟨⟨⟨?_, ?_, ?_, ?_, fun q hq hc => ?_⟩, ?_, ?_, fun e he => ?_, ?_, fun q hq => ?_, fun q hq => ?_⟩,
    honly.separate (fun a ha => ?_) hs⟩
  · rw [hloaded.frontends]
    exact hfrontends.1
  · rw [hloaded.frontends]
    exact hfrontends.2
  · rw [hloaded.ims]
    exact hims.1
  · rw [hloaded.ims]
    exact hims.2
  · rw [honly.category_eq] at hc
    by_cases hqp : q = p
    · rw [hqp] at hc ⊢
      refine ⟨api.ptr, hapi, ?_⟩
      rw [hset, if_pos hc, Function.update_self, hloaded.frontends, if_pos hc, List.getElem?_concat_length]
    · rw [honly.others q hqp] at hq ⊢
      obtain ⟨a, ha, hid⟩ := h.law.frontendId q hq hc
      refine ⟨a, ha, ?_⟩
      have hlt := (List.getElem?_eq_some_iff.mp hid).1
      rw [hset, hloaded.frontends]
      by_cases hcp : (m.addon p).config.category = .frontend
      · have hne : a ≠ api.ptr := by
          rintro rfl
          exact hs q (h.loaded_mem q hq).1 p hp hqp hc hcp _ (Or.inl ⟨hq, ha⟩) htakes
        rw [if_pos hcp, if_pos hcp, Function.update_of_ne hne, List.getElem?_append_left hlt, hid]
      · rw [if_neg hcp, if_neg hcp, List.append_nil, hid]
  · rw [honly.order]
    exact h.order_nodup
  · rw [honly.addons]
    exact h.keys_nodup
  · rw [honly.addons] at he
    rw [honly.name_eq]
    exact h.key e he
  · rw [honly.order, honly.nextAddon]
    exact h.lt
  · rw [honly.order, hloaded.loadedAddons, List.mem_append, List.mem_singleton]
    by_cases hqp : q = p
    · rw [hqp]
      exact ⟨hp, Or.inr rfl⟩
    · rw [honly.others q hqp] at hq
      exact ⟨(h.loaded_mem q hq).1, Or.inl (h.loaded_mem q hq).2⟩
  · rw [honly.category_eq]
    rw [hloaded.frontends, List.mem_append] at hq
    rcases hq with hq | hq
    · exact h.category q hq
    · split at hq
      · next hc => rw [List.mem_singleton.mp hq, hc]
      · exact absurd hq List.not_mem_nil
  · rcases ha with ⟨-, ha⟩ | ⟨hl, -⟩
    · rw [← Option.some.inj (hapi.symm.trans ha)]
      exact htakes
    · exact absurd (hl.symm.trans hloaded.loaded) Bool.false_ne_true

/-- **A turn keeps the registries right.** -/
theorem RegistryInv.visit (h : RegistryInv m) (hs : Separate resolution m) (hp : p ∈ m.order) (update : Bool) :
    RegistryInv (AddonManager.visit resolution (m, update) p).1 ∧
      Separate resolution (AddonManager.visit resolution (m, update) p).1 ∧
      (AddonManager.visit resolution (m, update) p).1.order = m.order := by
  rcases visit_cases resolution m update p with ⟨hres, -⟩ | ⟨hres, he, -⟩ | ⟨hres, he, -, -, hl⟩
  · rw [hres]
    exact ⟨h, hs, rfl⟩
  · rw [hres]
    obtain ⟨hinv, hsep⟩ := h.failed hs hp he (disable_onlyAddon m p) (disable_failed resolution m p)
    exact ⟨hinv, hsep, rfl⟩
  · rw [hres]
    obtain ⟨honly, houtcome⟩ := loadAddon_outcome resolution hl
    rcases houtcome with hfailed | hloaded
    · obtain ⟨hinv, hsep⟩ := h.failed hs hp he honly hfailed
      exact ⟨hinv, hsep, honly.order⟩
    · obtain ⟨hinv, hsep⟩ := h.loaded hs hp hl he honly hloaded
      exact ⟨hinv, hsep, honly.order⟩

theorem RegistryInv.pass (h : RegistryInv m) (hs : Separate resolution m) :
    RegistryInv (m.pass resolution).1 ∧ Separate resolution (m.pass resolution).1 := by
  have hfold : ∀ (l : List AddonPtr) (m' : AddonManager) (update : Bool), (∀ p ∈ l, p ∈ m'.order) →
      RegistryInv m' → Separate resolution m' →
      RegistryInv (l.foldl (AddonManager.visit resolution) (m', update)).1 ∧
        Separate resolution (l.foldl (AddonManager.visit resolution) (m', update)).1 := by
    intro l
    induction l with
    | nil => exact fun m' _ _ h hs => ⟨h, hs⟩
    | cons p l ih =>
      intro m' update hl h hs
      obtain ⟨hinv, hsep, horder⟩ := h.visit hs (hl p List.mem_cons_self) update
      exact ih _ (AddonManager.visit resolution (m', update) p).2
        (fun q hq => horder ▸ hl q (List.mem_cons_of_mem p hq)) hinv hsep
  exact hfold m.order m false (fun _ hp => hp) h hs

theorem RegistryInv.loadLoop (h : RegistryInv m) (hs : Separate resolution m) {fuel : ℕ}
    {r : AddonManager × ℕ} (hr : AddonManager.loadLoop resolution fuel m = some r) : RegistryInv r.1 := by
  induction fuel generalizing m r with
  | zero => cases hr
  | succ fuel ih =>
    obtain ⟨hinv, hsep⟩ := h.pass hs
    rw [loadLoop_succ] at hr
    split at hr
    · obtain ⟨r', hr', rfl⟩ := Option.map_eq_some_iff.mp hr
      have hinv' : RegistryInv r'.1 := ih hinv hsep hr'
      exact hinv'
    · rw [← Option.some.inj hr]
      exact hinv

/-! ### The start of a load -/

/-- The loop removes the addons that are not loaded. -/
theorem removeUnloaded_spec {items : List (Bytes × AddonPtr)} (hr : removeUnloaded items m = some m')
    (hnd : (Assoc.keys m.addons.items).Nodup) :
    m' = { m with addons := m'.addons } ∧ m'.addons.items.Sublist m.addons.items ∧
      (∀ e ∈ m'.addons.items, ∀ e' ∈ items, e'.1 = e.1 → (m.addon e'.2).loaded = true) ∧
      ∀ e ∈ m.addons.items, (∀ e' ∈ items, e'.1 = e.1 → (m.addon e'.2).loaded = true) → e ∈ m'.addons.items := by
  induction items generalizing m with
  | nil =>
    rw [← Option.some.inj hr]
    exact ⟨rfl, List.Sublist.refl _, fun _ _ e' he' => absurd he' List.not_mem_nil, fun e he _ => he⟩
  | cons e₀ items ih =>
    rw [removeUnloaded] at hr
    split at hr
    · next hl =>
      obtain ⟨heq, hsub, hmem, hstay⟩ := ih hr hnd
      refine ⟨heq, hsub, fun e he e' he' hk => ?_, fun e he hall => ?_⟩
      · rcases List.mem_cons.mp he' with rfl | he'
        · exact hl
        · exact hmem e he e' he' hk
      · exact hstay e he fun e' he' => hall e' (List.mem_cons_of_mem e₀ he')
    · next hl =>
      obtain ⟨addons, hremove, hr⟩ := Option.bind_eq_some_iff.mp hr
      have hitems : addons.items = m.addons.items.filter fun e => e.1 ≠ e₀.1 := by
        rw [Dict.removeData] at hremove
        split at hremove
        · cases hremove
        · rw [← Option.some.inj hremove, ← Assoc.erase_eq_filter hnd]
          rfl
      have hsub₀ : addons.items.Sublist m.addons.items := hitems ▸ List.filter_sublist
      obtain ⟨heq, hsub, hmem, hstay⟩ := ih (m := { m with addons := addons }) hr (hnd.sublist (hsub₀.map _))
      refine ⟨heq, hsub.trans hsub₀, fun e he e' he' hk => ?_, fun e he hall => ?_⟩
      · rcases List.mem_cons.mp he' with rfl | he'
        · have hin := hsub.subset he
          rw [show ({ m with addons := addons } : AddonManager).addons = addons from rfl, hitems,
            List.mem_filter, decide_eq_true_iff] at hin
          exact absurd hk.symm hin.2
        · exact hmem e he e' he' hk
      · refine hstay e ?_ fun e' he' => hall e' (List.mem_cons_of_mem e₀ he')
        show e ∈ addons.items
        rw [hitems, List.mem_filter, decide_eq_true_iff]
        exact ⟨he, fun hk => hl (hall e₀ List.mem_cons_self hk.symm)⟩

/-- Two entries of one key are one. -/
theorem RegistryInv.entry_eq (h : RegistryInv m) {e e' : Bytes × AddonPtr} (he : e ∈ m.addons.items)
    (he' : e' ∈ m.addons.items) (hk : e.1 = e'.1) : e = e' :=
  List.inj_on_of_nodup_map h.keys_nodup he he' hk

/-- The addons of the dictionary have different names. -/
theorem RegistryInv.name_inj (h : RegistryInv m) (hp : p ∈ m.order) (hq : q ∈ m.order)
    (hname : (m.addon p).config.name = (m.addon q).config.name) : p = q := by
  obtain ⟨e, he, rfl⟩ := List.mem_map.mp hp
  obtain ⟨e', he', rfl⟩ := List.mem_map.mp hq
  rw [h.entry_eq he he' (by rw [h.key e he, h.key e' he', hname])]

/-- `m` is what the files made of `m₀`, without its addons that were not loaded. -/
structure Prepared (m₀ : AddonManager) (files : List AddonConfig) (m : AddonManager) : Prop where
  inv : RegistryInv m
  frontends : m.frontends = m₀.frontends
  enable : ∀ config, m.enable config = m₀.enable config
  origin : ∀ p ∈ m.order, (m.addon p).loaded = true ∧ m.addon p = m₀.addon p ∨
    (m.addon p).loaded = false ∧ ∃ config ∈ files,
      (m.addon p).config = { config with enabled := m₀.enable config }

theorem RegistryInv.removeUnloaded (h : RegistryInv m)
    (hr : AddonManager.removeUnloaded m.addons.items m = some m') : Prepared m [] m' := by
  obtain ⟨heq, hsub, hmem, hstay⟩ := removeUnloaded_spec hr h.keys_nodup
  have hitems : ∀ e, e ∈ m'.addons.items ↔ e ∈ m.addons.items ∧ (m.addon e.2).loaded = true := by
    intro e
    constructor
    · exact fun he => ⟨hsub.subset he, hmem e he e (hsub.subset he) rfl⟩
    · rintro ⟨he, hl⟩
      refine hstay e he fun e' he' hk => ?_
      rw [h.entry_eq he' he hk]
      exact hl
  rw [heq]
  generalize m'.addons = addons at hsub hitems
  refine ⟨⟨⟨h.law.frontends, h.law.frontends_nodup, h.law.ims, h.law.ims_nodup, h.law.frontendId⟩, ?_, ?_,
    fun e he => ?_, fun p hp => ?_, fun p hp => ?_, h.category⟩, rfl, fun _ => rfl, fun p hp => Or.inl ?_⟩
  · exact h.order_nodup.sublist (hsub.map _)
  · exact h.keys_nodup.sublist (hsub.map _)
  · exact h.key e (hsub.subset he)
  · exact h.lt p ((hsub.map Prod.snd).subset hp)
  · obtain ⟨hp', hl⟩ := h.loaded_mem p hp
    obtain ⟨e, he, rfl⟩ := List.mem_map.mp hp'
    exact ⟨List.mem_map.mpr ⟨e, (hitems e).mpr ⟨he, hp⟩, rfl⟩, hl⟩
  · obtain ⟨e, he, rfl⟩ := List.mem_map.mp hp
    exact ⟨((hitems e).mp he).2, rfl⟩

/-- An addon that is not loaded may change, with its entry in the dictionary. -/
theorem RegistryInv.setUnloaded (h : RegistryInv m) (hp : (m.addon p).loaded = false) {addon : Addon}
    (hl : addon.loaded = false) {addons : Dict AddonPtr} {nextAddon : AddonPtr}
    (hnd : (addons.items.map Prod.snd).Nodup) (hkeys : (Assoc.keys addons.items).Nodup)
    (hkey : ∀ e ∈ addons.items, e.1 = if e.2 = p then addon.config.name else (m.addon e.2).config.name)
    (hlt : ∀ q ∈ addons.items.map Prod.snd, q < nextAddon)
    (hmem : ∀ q ∈ m.order, q ∈ addons.items.map Prod.snd) :
    RegistryInv ({ m with nextAddon := nextAddon, addons := addons }.setAddon p addon) := by
  have hother : ∀ q, (m.addon q).loaded = true →
      ({ m with nextAddon := nextAddon, addons := addons }.setAddon p addon).addon q = m.addon q := by
    intro q hq
    rw [addon_setAddon, if_neg]
    rintro rfl
    exact Bool.false_ne_true (hp.symm.trans hq)
  have hloaded : ∀ q, (({ m with nextAddon := nextAddon, addons := addons }.setAddon p addon).addon q).loaded =
      true → (m.addon q).loaded = true := by
    intro q hq
    rw [addon_setAddon] at hq
    split at hq
    · exact absurd (hl.symm.trans hq) Bool.false_ne_true
    · exact hq
  refine ⟨⟨fun q hq => ?_, h.law.frontends_nodup, fun q hq => ?_, h.law.ims_nodup, fun q hq hc => ?_⟩, hnd,
    hkeys, fun e he => ?_, hlt, fun q hq => ?_, fun q hq => ?_⟩
  · rw [hother q (h.law.frontends q hq)]
    exact h.law.frontends q hq
  · rw [hother q (h.law.ims q hq)]
    exact h.law.ims q hq
  · have hq' := hloaded q hq
    rw [hother q hq'] at hc ⊢
    exact h.law.frontendId q hq' hc
  · rw [hkey e he, addon_setAddon]
    split <;> rfl
  · obtain ⟨horder, hlist⟩ := h.loaded_mem q (hloaded q hq)
    exact ⟨hmem q horder, hlist⟩
  · rw [hother q (h.law.frontends q hq)]
    exact h.category q hq

theorem Prepared.loadMetadata {m₀ : AddonManager} {files : List AddonConfig} (h : Prepared m₀ files m)
    (config : AddonConfig) : Prepared m₀ (files ++ [config]) (m.loadMetadata config) := by
  have hold : ∀ p ∈ m.order, (m.addon p).loaded = true ∧ m.addon p = m₀.addon p ∨
      (m.addon p).loaded = false ∧ ∃ c ∈ files ++ [config],
        (m.addon p).config = { c with enabled := m₀.enable c } := by
    intro p hp
    rcases h.origin p hp with hl | ⟨hl, c, hc, he⟩
    · exact Or.inl hl
    · exact Or.inr ⟨hl, c, List.mem_append_left _ hc, he⟩
  have hsame : Prepared m₀ (files ++ [config]) m := ⟨h.inv, h.frontends, h.enable, hold⟩
  rw [AddonManager.loadMetadata]
  split
  · exact hsame
  · cases hlookup : m.addons.lookup config.name with
    | some p =>
      dsimp only
      split
      · exact hsame
      · next hp =>
        rw [Bool.not_eq_true] at hp
        have hentry : (config.name, p) ∈ m.addons.items :=
          (Assoc.lookup_eq_some_iff h.inv.keys_nodup).mp hlookup
        refine ⟨h.inv.setUnloaded hp ?_ h.inv.order_nodup h.inv.keys_nodup (fun e he => ?_) h.inv.lt
          fun q hq => hq, h.frontends, h.enable, fun q hq => ?_⟩
        · exact hp
        · split
          · next hep =>
            have hname : (m.addon p).config.name = config.name := (h.inv.key _ hentry).symm
            rw [h.inv.key e he, hep, hname]
          · exact h.inv.key e he
        · rw [setMetadata, addon_setAddon]
          split
          · refine Or.inr ⟨hp, config, List.mem_append_right _ (List.mem_singleton_self config), ?_⟩
            rw [h.enable]
          · exact hold q hq
    | none =>
      have hitems : (m.addons.insert config.name m.nextAddon).items =
          m.addons.items ++ [(config.name, m.nextAddon)] := by
        rw [Dict.insert, hlookup]
      have hout : m.nextAddon ∉ m.order := fun hmem => Nat.lt_irrefl _ (h.inv.lt _ hmem)
      have hp : (m.addon m.nextAddon).loaded = false := by
        rw [← Bool.not_eq_true]
        exact fun hl => hout (h.inv.loaded_mem _ hl).1
      have horder : (m.addons.items ++ [(config.name, m.nextAddon)]).map Prod.snd =
          m.order ++ [m.nextAddon] := by
        rw [List.map_append]
        rfl
      refine ⟨h.inv.setUnloaded hp rfl ?_ ?_ (fun e he => ?_) (fun q hq => ?_) (fun q hq => ?_),
        h.frontends, h.enable, fun q hq => ?_⟩
      · rw [hitems, horder, ← List.concat_eq_append]
        exact h.inv.order_nodup.concat hout
      · rw [hitems]
        exact Assoc.keys_concat_nodup h.inv.keys_nodup hlookup
      · rw [hitems, List.mem_append, List.mem_singleton] at he
        rcases he with he | rfl
        · have hne : e.2 ≠ m.nextAddon := fun hk => hout (hk ▸ List.mem_map_of_mem he)
          rw [if_neg hne]
          exact h.inv.key e he
        · rw [if_pos rfl]
      · rw [hitems, horder, List.mem_append, List.mem_singleton] at hq
        rcases hq with hq | rfl
        · exact Nat.lt_succ_of_lt (h.inv.lt q hq)
        · exact Nat.lt_succ_self _
      · rw [hitems, horder]
        exact List.mem_append_left _ hq
      · rw [setMetadata, addon_setAddon]
        split
        · refine Or.inr ⟨rfl, config, List.mem_append_right _ (List.mem_singleton_self config), ?_⟩
          exact congrArg (fun e => { config with enabled := e }) (h.enable config)
        · next hne =>
          refine hold q ?_
          have hq' : q ∈ (m.addons.insert config.name m.nextAddon).items.map Prod.snd := hq
          rw [hitems, horder, List.mem_append, List.mem_singleton] at hq'
          exact hq'.resolve_right hne

/-- **The start of a load** keeps what is loaded, and has the rest from the files. -/
theorem RegistryInv.prepare (h : RegistryInv m) {files : List AddonConfig}
    (hm : m.prepare files = some m') : Prepared m files m' := by
  obtain ⟨m₁, hr, rfl⟩ := Option.map_eq_some_iff.mp hm
  have hfold : ∀ (files done : List AddonConfig) (m₁ : AddonManager), Prepared m done m₁ →
      Prepared m (done ++ files) (files.foldl AddonManager.loadMetadata m₁) := by
    intro files
    induction files with
    | nil =>
      intro done m₁ h
      rw [List.append_nil]
      exact h
    | cons config files ih =>
      intro done m₁ h
      rw [List.append_cons]
      exact ih _ _ (h.loadMetadata config)
  exact hfold files [] m₁ (h.removeUnloaded hr)

/-- Different frontends that a load tries have API structures of their own. -/
theorem Prepared.separate {m₀ : AddonManager} {files : List AddonConfig} (h : Prepared m₀ files m)
    (hapis : m₀.SeparateApis files resolution) : Separate resolution m := by
  -- what is tried has the API structure of its file
  have hfile : ∀ p ∈ m.order, (m.addon p).loaded = false → (m.addon p).config.category = .frontend →
      ∀ a, Takes resolution m p a → ∃ config ∈ files, m₀.enable config = true ∧
        config.name = (m.addon p).config.name ∧ frontendApi resolution config = some a := by
    intro p hp hl hc a ha
    rcases h.origin p hp with ⟨hl', -⟩ | ⟨-, config, hconfig, heq⟩
    · exact absurd (hl.symm.trans hl') Bool.false_ne_true
    · rcases ha with ⟨hl', -⟩ | ⟨-, he, api, hres, hboth, hptr⟩
      · exact absurd (hl.symm.trans hl') Bool.false_ne_true
      · rw [heq] at he hc hres
        have henable : m₀.enable config = true := he
        refine ⟨config, hconfig, henable, by rw [heq], ?_⟩
        rw [henable] at hres
        rw [frontendApi, if_pos hc, hres, Option.filter_some, if_pos hboth, Option.map_some, hptr]
  have hloadedFrontend : ∀ p ∈ m.order, (m.addon p).loaded = true → (m.addon p).config.category = .frontend →
      ∀ a, Takes resolution m p a → p ∈ m₀.frontends ∧ (m₀.addon p) = m.addon p ∧ (m.addon p).api = some a := by
    intro p hp hl hc a ha
    obtain ⟨a', -, hid⟩ := h.inv.law.frontendId p hl hc
    refine ⟨h.frontends ▸ List.mem_of_getElem? hid, ?_, ?_⟩
    · rcases h.origin p hp with ⟨-, heq⟩ | ⟨hl', -⟩
      · exact heq.symm
      · exact absurd (hl'.symm.trans hl) Bool.false_ne_true
    · rcases ha with ⟨-, ha⟩ | ⟨hl', -⟩
      · exact ha
      · exact absurd (hl'.symm.trans hl) Bool.false_ne_true
  have hmixed : ∀ p ∈ m.order, ∀ q ∈ m.order, p ≠ q → (m.addon p).config.category = .frontend →
      (m.addon q).config.category = .frontend → (m.addon p).loaded = false → (m.addon q).loaded = true →
      ∀ a, Takes resolution m p a → ¬ Takes resolution m q a := by
    intro p hp q hq hne hcp hcq hlp hlq a hap haq
    obtain ⟨config, hconfig, henable, hname, hapi⟩ := hfile p hp hlp hcp a hap
    obtain ⟨hmem, heq, hapi'⟩ := hloadedFrontend q hq hlq hcq a haq
    refine (hapis config hconfig henable a hapi).2 q hmem ?_ (heq ▸ hapi')
    rw [heq, hname]
    exact fun hn => hne (h.inv.name_inj hp hq hn.symm)
  intro p hp q hq hne hcp hcq a hap haq
  cases hlp : (m.addon p).loaded with
  | false =>
    cases hlq : (m.addon q).loaded with
    | false =>
      obtain ⟨config, hconfig, henable, hname, hapi⟩ := hfile p hp hlp hcp a hap
      obtain ⟨config', hconfig', henable', hname', hapi'⟩ := hfile q hq hlq hcq a haq
      refine (hapis config hconfig henable a hapi).1 config' hconfig' henable' ?_ hapi'
      rw [hname, hname']
      exact fun hn => hne (h.inv.name_inj hp hq hn.symm)
    | true => exact hmixed p hp q hq hne hcp hcq hlp hlq a hap haq
  | true =>
    cases hlq : (m.addon q).loaded with
    | false => exact hmixed q hq p hp hne.symm hcq hcp hlq hlp a haq hap
    | true =>
      -- two loaded frontends would have one id
      obtain ⟨a₁, ha₁, hid₁⟩ := h.inv.law.frontendId p hlp hcp
      obtain ⟨a₂, ha₂, hid₂⟩ := h.inv.law.frontendId q hlq hcq
      obtain ⟨-, -, hpa⟩ := hloadedFrontend p hp hlp hcp a hap
      obtain ⟨-, -, hqa⟩ := hloadedFrontend q hq hlq hcq a haq
      rw [Option.some.inj (ha₁.symm.trans hpa)] at hid₁
      rw [Option.some.inj (ha₂.symm.trans hqa)] at hid₂
      exact hne (Option.some.inj (hid₁.symm.trans hid₂))

/-! ### Runs -/

theorem RegistryInv.load (h : RegistryInv m) {files : List AddonConfig}
    (hapis : m.SeparateApis files resolution) (hm : m.load files resolution = some m') : RegistryInv m' := by
  obtain ⟨m₁, hprep, hm⟩ := Option.bind_eq_some_iff.mp hm
  obtain ⟨r, hloop, hm⟩ := Option.bind_eq_some_iff.mp hm
  have hprepared := h.prepare hprep
  have hinv := hprepared.inv.loadLoop (hprepared.separate hapis) hloop
  rw [← Option.some.inj hm]
  exact ⟨⟨hinv.law.frontends, hinv.law.frontends_nodup, hinv.law.ims, hinv.law.ims_nodup, hinv.law.frontendId⟩,
    hinv.order_nodup, hinv.keys_nodup, hinv.key, hinv.lt, hinv.loaded_mem, hinv.category⟩

theorem addon_foldl_unloadAddon (l : List AddonPtr) (m : AddonManager) :
    l.foldl unloadAddon m = { m with
      addon := fun q => if q ∈ l then { m.addon q with loaded := false } else m.addon q
      calls := (l.foldl unloadAddon m).calls } := by
  induction l generalizing m with
  | nil => rfl
  | cons p l ih =>
    rw [List.foldl_cons, ih]
    have haddon : ∀ q, (m.unloadAddon p).addon q =
        if q = p then { m.addon q with loaded := false } else m.addon q := by
      intro q
      rw [unloadAddon, addon_setAddon]
      split
      · next hq => rw [hq]
      · rfl
    have hfun : (fun q => if q ∈ l then { (m.unloadAddon p).addon q with loaded := false }
          else (m.unloadAddon p).addon q) =
        fun q => if q ∈ p :: l then { m.addon q with loaded := false } else m.addon q := by
      funext q
      rw [haddon]
      by_cases hq : q = p <;> by_cases hl : q ∈ l <;> simp [hq, hl]
    rw [hfun]
    rfl

theorem unload_eq (hl : m.loaded = true) : m.unload = { m with
    addon := fun q => if q ∈ m.loadedAddons then { m.addon q with loaded := false } else m.addon q
    calls := m.unload.calls
    loadedAddons := [] } := by
  have hres : m.unload = { m.loadedAddons.reverse.foldl unloadAddon m with loadedAddons := [] } := by
    rw [unload, hl]
    rfl
  have hmem : (fun q => if q ∈ m.loadedAddons.reverse then { m.addon q with loaded := false } else m.addon q) =
      fun q => if q ∈ m.loadedAddons then { m.addon q with loaded := false } else m.addon q := by
    simp only [List.mem_reverse]
  rw [hres, addon_foldl_unloadAddon, hmem]

/-- Unloading leaves no addon loaded. -/
theorem RegistryInv.loaded_unload (h : RegistryInv m) (hl : m.loaded = true) (q : AddonPtr) :
    (m.unload.addon q).loaded = false := by
  rw [unload_eq hl]
  dsimp only
  split
  · rfl
  · next hq =>
    rw [← Bool.not_eq_true]
    exact fun hq' => hq (h.loaded_mem q hq').2

/-- An unload keeps the lists right only when they are empty. -/
theorem RegistryInv.unload_iff (h : RegistryInv m) : RegistryLaw m.unload ↔ Ok (some m) .unload := by
  cases hl : m.loaded with
  | false =>
    have hsame : m.unload = m := by
      rw [unload, hl]
      rfl
    rw [hsame]
    exact ⟨fun _ hl' => absurd (hl.symm.trans hl') Bool.false_ne_true, fun _ => h.law⟩
  | true =>
    have hnone := h.loaded_unload hl
    have hfrontends : m.unload.frontends = m.frontends := by rw [unload_eq hl]
    have hims : m.unload.ims = m.ims := by rw [unload_eq hl]
    constructor
    · intro hlaw _
      constructor
      · refine List.eq_nil_iff_forall_not_mem.mpr fun p hp => ?_
        exact Bool.false_ne_true ((hnone p).symm.trans (hlaw.frontends p (hfrontends ▸ hp)))
      · refine List.eq_nil_iff_forall_not_mem.mpr fun p hp => ?_
        exact Bool.false_ne_true ((hnone p).symm.trans (hlaw.ims p (hims ▸ hp)))
    · intro hok
      obtain ⟨hf, hi⟩ := hok hl
      rw [hf] at hfrontends
      rw [hi] at hims
      refine ⟨?_, ?_, ?_, ?_, fun p hp => absurd ((hnone p).symm.trans hp) Bool.false_ne_true⟩
      · rw [hfrontends]
        exact fun p hp => absurd hp List.not_mem_nil
      · rw [hfrontends]
        exact List.nodup_nil
      · rw [hims]
        exact fun p hp => absurd hp List.not_mem_nil
      · rw [hims]
        exact List.nodup_nil

theorem RegistryInv.unload (h : RegistryInv m) (hok : Ok (some m) .unload) : RegistryInv m.unload := by
  have hlaw := h.unload_iff.mpr hok
  cases hl : m.loaded with
  | false =>
    have hsame : m.unload = m := by
      rw [AddonManager.unload, hl]
      rfl
    rw [hsame]
    exact h
  | true =>
    have hnone := h.loaded_unload hl
    refine ⟨hlaw, ?_, ?_, fun e he => ?_, ?_, fun p hp => absurd ((hnone p).symm.trans hp) Bool.false_ne_true, ?_⟩
    · rw [unload_eq hl]
      exact h.order_nodup
    · rw [unload_eq hl]
      exact h.keys_nodup
    · rw [unload_eq hl] at he ⊢
      rw [h.key e he]
      dsimp only
      split <;> rfl
    · rw [unload_eq hl]
      exact h.lt
    · rw [unload_eq hl]
      dsimp only
      rw [(hok hl).1]
      exact fun p hp => absurd hp List.not_mem_nil

theorem registryInv_new (resolvers : List Bytes) (enabled disabled : Option Bytes) :
    RegistryInv ((new resolvers).setOverride enabled disabled) := by
  have hnone : ∀ p, ¬ (((new resolvers).setOverride enabled disabled).addon p).loaded = true :=
    fun _ => Bool.false_ne_true
  exact ⟨⟨fun _ hp => absurd hp List.not_mem_nil, List.nodup_nil, fun _ hp => absurd hp List.not_mem_nil,
      List.nodup_nil, fun p hp => absurd hp (hnone p)⟩, List.nodup_nil, List.nodup_nil,
    fun _ he => absurd he List.not_mem_nil, fun _ hp => absurd hp List.not_mem_nil,
    fun p hp => absurd hp (hnone p), fun _ hp => absurd hp List.not_mem_nil⟩

/-- **The registries hold loaded addons** in every state that is reached by a run that
unloads nothing that is listed and keeps the API structures of the frontends
apart; an unload keeps them right only then. A load that faults reaches no state.
An addon that a load does not come to resolve needs no resolution, so that only
the API structures of those that are resolved have to be apart. -/
theorem run_registryLaw (resolvers : List Bytes) (enabled disabled : Option Bytes) (ops : List AddonOp)
    (ha : Run.Admissible step Ok (some ((new resolvers).setOverride enabled disabled)) ops) :
    ∀ m, Run.exec step (some ((new resolvers).setOverride enabled disabled)) ops = some m →
      RegistryLaw m ∧ (RegistryLaw m.unload ↔ Ok (some m) .unload) := by
  have hstep : ∀ s op, (∀ m, s = some m → RegistryInv m) → Ok s op →
      ∀ m, step s op = some m → RegistryInv m := by
    intro s op hs hok m hm
    cases op with
    | load files resolution =>
      obtain ⟨m₀, rfl, hload⟩ := Option.bind_eq_some_iff.mp hm
      exact (hs m₀ rfl).load hok hload
    | unload =>
      obtain ⟨m₀, rfl, rfl⟩ := Option.map_eq_some_iff.mp hm
      exact (hs m₀ rfl).unload hok
  have hnew : ∀ m, some ((new resolvers).setOverride enabled disabled) = some m → RegistryInv m := by
    intro m hm
    rw [← Option.some.inj hm]
    exact registryInv_new resolvers enabled disabled
  intro m hm
  have hinv := Run.invariant (P := fun s => ∀ m, s = some m → RegistryInv m) hstep hnew ha m hm
  exact ⟨hinv.law, hinv.unload_iff⟩

/-- Two frontends, an input method that fails, and a second load that tries it again. -/
def loadTwice : List AddonOp :=
  [.load [⟨[102], [83], .frontend, [], true⟩, ⟨[103], [83], .frontend, [102], true⟩,
      ⟨[105], [83], .inputMethod, [], true⟩]
    (fun config => ⟨some ⟨config.name.length + config.dependency.length, true, true⟩,
      if config.category = .frontend then some 0 else none⟩),
    .load [⟨[105], [83], .inputMethod, [], true⟩] fun _ => ⟨some ⟨5, true, true⟩, some 0⟩]

theorem run_registryLaw_twice :
    ∃ m, Run.exec step (some ((new [[83]]).setOverride none none)) loadTwice = some m ∧
      RegistryLaw m ∧ (RegistryLaw m.unload ↔ Ok (some m) .unload) :=
  ⟨_, rfl, run_registryLaw [[83]] none none loadTwice (by decide) _ rfl⟩

/-- A frontend that is loaded and unloaded stays in the list. -/
theorem not_registryLaw_unload :
    ∃ m, Run.exec step (some (new [[83]])) [.load [⟨[102], [83], .frontend, [], true⟩]
        (fun _ => ⟨some ⟨0, true, true⟩, some 0⟩), .unload] = some m ∧ ¬ RegistryLaw m :=
  ⟨_, rfl, fun h => Bool.false_ne_true (h.frontends 0 (by decide))⟩

end AddonManager

end Fcitx
