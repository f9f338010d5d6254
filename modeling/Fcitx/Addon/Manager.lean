/-
# The addon manager

`fcitx/addon.c`: addons are made from metadata, loaded in passes until no addon
is found to miss a dependency, and unloaded in reverse. An addon is known by the
address of its structure. What the metadata files say, what the resolvers find
and what the `init` of an addon returns are inputs.

Key definitions: `AddonConfig`, `AddonManager`, `AddonManager.initGeneral`,
`AddonManager.loadMetadata`, `AddonManager.loadAddon`, `AddonManager.load`,
`AddonManager.unload`.
-/
import Fcitx.Utils.Dict
import Mathlib.Logic.Function.Basic

namespace Fcitx

abbrev AddonPtr := ℕ

abbrev ApiPtr := ℕ

/-- `FcitxAddonCategory` -/
inductive AddonCategory where
  | inputMethod
  | frontend
  | module
  | ui
  | addonResolver
  | last
deriving DecidableEq

/-- `FcitxAddonConfig`: the options that the manager reads. -/
structure AddonConfig where
  name : Bytes
  type : Bytes
  category : AddonCategory
  dependency : Bytes
  enabled : Bool
deriving DecidableEq

/-- `FcitxAddon`, with the `api` and `data` of its `FcitxAddonInstance`. -/
structure Addon where
  config : AddonConfig
  loaded : Bool
  dependencies : List Bytes
  api : Option ApiPtr
  data : Option ℕ
deriving DecidableEq

/-- The API structure a resolver found: where it is, and whether it has the two
functions that are needed. -/
structure AddonApi where
  ptr : ApiPtr
  init : Bool
  destroy : Bool

/-- What a resolver finds for an addon, and the data its `init` returns. -/
structure Resolution where
  api : Option AddonApi
  data : Option ℕ

/-- A call of a resolver, or of a function of an addon. -/
inductive AddonCall where
  | resolve (addon : AddonPtr) (result : Bool)
  | init (addon : AddonPtr)
  | destroy (addon : AddonPtr)
  | unload (addon : AddonPtr)
deriving DecidableEq

/-- `FcitxAddonManager`, with the memory of its addons and of the `frontendId`s
in the API structures, and the calls it made. -/
structure AddonManager where
  resolvers : List Bytes
  addon : AddonPtr → Addon
  /-- the next address of an addon -/
  nextAddon : AddonPtr
  addons : Dict AddonPtr
  enabledAddons : Option (List Bytes)
  disabledAddons : Option (List Bytes)
  disabledAllAddons : Bool
  loadedAddons : List AddonPtr
  loaded : Bool
  frontends : List AddonPtr
  ims : List AddonPtr
  frontendId : ApiPtr → ℕ
  calls : List AddonCall

namespace AddonManager

/-- `fcitx_addon_manager_new`, with `resolvers` registered. -/
def new (resolvers : List Bytes) : AddonManager :=
  { resolvers, addon := fun _ => ⟨⟨[], [], .module, [], false⟩, false, [], none, none⟩,
    nextAddon := 0, addons := .new, enabledAddons := none, disabledAddons := none,
    disabledAllAddons := false, loadedAddons := [], loaded := false, frontends := [], ims := [],
    frontendId := fun _ => 0, calls := [] }

/-- `fcitx_addon_manager_set_override` -/
def setOverride (manager : AddonManager) (enabled disabled : Option Bytes) : AddonManager :=
  let enabledAddons := enabled.map fun str => hashsetParse str 44
  let disabledAddons := disabled.map fun str => hashsetParse str 44
  { manager with
    enabledAddons
    disabledAddons
    disabledAllAddons := disabledAddons.any fun sset => [97, 108, 108] ∈ sset }

def setAddon (manager : AddonManager) (p : AddonPtr) (addon : Addon) : AddonManager :=
  { manager with addon := Function.update manager.addon p addon }

def call (manager : AddonManager) (c : AddonCall) : AddonManager :=
  { manager with calls := manager.calls ++ [c] }

/-! ### Metadata -/

/-- The overrides of `enabled`. -/
def enable (manager : AddonManager) (config : AddonConfig) : Bool :=
  let enabled :=
    if manager.disabledAllAddons ∨ manager.disabledAddons.any (config.name ∈ ·) then false
    else config.enabled
  if manager.enabledAddons.any (config.name ∈ ·) then true else enabled

/-- The end of `_fcitx_addon_load_metadata`: the dependencies and `enabled` of an addon. -/
def setMetadata (manager : AddonManager) (p : AddonPtr) (addon : Addon) (config : AddonConfig) :
    AddonManager :=
  manager.setAddon p { addon with
    config := { config with enabled := manager.enable config }
    dependencies := hashsetParse config.dependency 44 }

/-- `_fcitx_addon_load_metadata` -/
def loadMetadata (manager : AddonManager) (config : AddonConfig) : AddonManager :=
  if config.name.isEmpty ∨ config.type.isEmpty ∨ config.category = .last then manager
  else match manager.addons.lookup config.name with
    | some p =>
      -- don't touch the running addon
      if (manager.addon p).loaded then manager
      else manager.setMetadata p (manager.addon p) config
    | none =>
      let p := manager.nextAddon
      { manager with
        nextAddon := p + 1
        addons := manager.addons.insert config.name p }.setMetadata p
          ⟨config, false, [], none, none⟩ config

/-! ### Loading an addon -/

/-- The id of a frontend is handed out before its `init`. -/
def setFrontendId (manager : AddonManager) (p : AddonPtr) (api : ApiPtr) : AddonManager :=
  if (manager.addon p).config.category = .frontend then
    { manager with frontendId := Function.update manager.frontendId api manager.frontends.length }
  else manager

/-- Frontends and input methods are listed after their `init`. -/
def register (manager : AddonManager) (p : AddonPtr) : AddonManager :=
  match (manager.addon p).config.category with
  | .frontend => { manager with frontends := manager.frontends ++ [p] }
  | .inputMethod => { manager with ims := manager.ims ++ [p] }
  | _ => manager

/-- `fcitx_addon_init_general`; `data` is what `init` returns. -/
def initGeneral (manager : AddonManager) (p : AddonPtr) (api : AddonApi) (data : Option ℕ) :
    Bool × AddonManager :=
  if ¬ api.init ∨ ¬ api.destroy then (false, manager)
  else
    let manager := (manager.setFrontendId p api.ptr).call (.init p)
    let manager := manager.setAddon p { manager.addon p with data := data }
    if data.isNone then (false, manager) else (true, manager.register p)

/-- `resolve` of the resolvers: `fcitx_addon_init_general` when the API is found. -/
def resolve (manager : AddonManager) (p : AddonPtr) (res : Resolution) : Bool × AddonManager :=
  match res.api with
  | none => (false, manager)
  | some api => (manager.setAddon p { manager.addon p with api := some api.ptr }).initGeneral p api res.data

def disable (manager : AddonManager) (p : AddonPtr) : AddonManager :=
  let addon := manager.addon p
  manager.setAddon p { addon with config := { addon.config with enabled := false } }

/-- `_fcitx_addon_manager_load_addon`; `resolution` is what the resolver finds. -/
def loadAddon (resolution : AddonConfig → Resolution) (manager : AddonManager) (p : AddonPtr) :
    AddonManager :=
  let addon := manager.addon p
  if addon.loaded then manager
  else if addon.config.type ∈ manager.resolvers then
    let (result, manager) := manager.resolve p (resolution addon.config)
    let manager := manager.call (.resolve p result)
    if result then
      { manager.setAddon p { manager.addon p with loaded := true } with
        loadedAddons := manager.loadedAddons ++ [p] }
    else manager.disable p
  else manager.disable p

/-! ### Loading all -/

/-- The loop that takes the addons that are not loaded out of the dictionary. -/
def removeUnloaded : List (Bytes × AddonPtr) → AddonManager → Option AddonManager
  | [], manager => some manager
  | (key, p) :: items, manager =>
    if (manager.addon p).loaded then removeUnloaded items manager
    else do
      let addons ← manager.addons.removeData key
      removeUnloaded items { manager with addons }

/-- The addon of a dependency. -/
def dependency (manager : AddonManager) (name : Bytes) : Option AddonPtr := manager.addons.lookup name

/-- The loop stops at a dependency that is not there. -/
def missing (manager : AddonManager) (addon : Addon) : Bool :=
  addon.dependencies.any fun name => (manager.dependency name).isNone

/-- `allDependenciesLoaded`, when none is missing. -/
def allDependenciesLoaded (manager : AddonManager) (addon : Addon) : Bool :=
  addon.dependencies.all fun name => (manager.dependency name).all fun p => (manager.addon p).loaded

/-- The turn of an addon in a pass, with `update`. -/
def visit (resolution : AddonConfig → Resolution) (s : AddonManager × Bool) (p : AddonPtr) :
    AddonManager × Bool :=
  let (manager, update) := s
  let addon := manager.addon p
  if ¬ addon.config.enabled then (manager, update)
  else if manager.missing addon then (manager.disable p, true)
  else if manager.allDependenciesLoaded addon then (manager.loadAddon resolution p, update)
  else (manager, update)

/-- The addresses of the addons, in the order of the dictionary. -/
def order (manager : AddonManager) : List AddonPtr := manager.addons.items.map Prod.snd

/-- One pass of the loop, with `update`. -/
def pass (resolution : AddonConfig → Resolution) (manager : AddonManager) : AddonManager × Bool :=
  manager.order.foldl (visit resolution) (manager, false)

/-- The `do`/`while` loop, for `fuel` passes at most, with the number of its passes. -/
def loadLoop (resolution : AddonConfig → Resolution) : ℕ → AddonManager → Option (AddonManager × ℕ)
  | 0, _ => none
  | fuel + 1, manager =>
    let (manager, update) := manager.pass resolution
    if update then (loadLoop resolution fuel manager).map fun r => (r.1, r.2 + 1)
    else some (manager, 1)

/-- The addons that are enabled. -/
def enabledCount (manager : AddonManager) : ℕ :=
  manager.order.countP fun p => (manager.addon p).config.enabled

/-- The manager at the start of the loop: `files` are the metadata files in their order. -/
def prepare (manager : AddonManager) (files : List AddonConfig) : Option AddonManager :=
  (removeUnloaded manager.addons.items manager).map fun manager => files.foldl loadMetadata manager

/-- `fcitx_addon_manager_load`; `none` is a fault. -/
def load (manager : AddonManager) (files : List AddonConfig) (resolution : AddonConfig → Resolution) :
    Option AddonManager := do
  let manager ← manager.prepare files
  let (manager, _) ← loadLoop resolution (manager.enabledCount + 1) manager
  some { manager with loaded := true }

/-- `_fcitx_addon_manager_unload_addon`, and clearing `loaded`. -/
def unloadAddon (manager : AddonManager) (p : AddonPtr) : AddonManager :=
  ((manager.call (.destroy p)).call (.unload p)).setAddon p { manager.addon p with loaded := false }

/-- `fcitx_addon_manager_unload` -/
def unload (manager : AddonManager) : AddonManager :=
  if ¬ manager.loaded then manager
  else { manager.loadedAddons.reverse.foldl unloadAddon manager with loadedAddons := [] }

end AddonManager

end Fcitx
