/-
# The instance

`fcitx/instance.c`: the instance has the managers, the global array of input
methods with one entry for each group, and the current group, and is the
dispatcher of their events. What the instance keeps for a context is a property
of it: the context's own array of input methods, and the state of the hotkeys.
The properties are set through callbacks that read the instance; what they read
travels here with the value that is set.

Key definitions: `InstanceProperty`, `Instance`, `Instance.setInputMethodForInputContext`,
`Instance.inputMethodGroupReset`, `Instance.newInputMethodGroup`.
-/
import Fcitx.Addon.Manager
import Fcitx.InputContext.Manager
import Fcitx.Utils.Key

namespace Fcitx

/-- The address of a `FcitxInputMethodItem`. -/
abbrev ItemPtr := ℕ

/-- `fcitx_ptr_array_set` on an array with no destroy functions; the index is a `size_t`, so that a
negative one is past the end. -/
def ptrArraySet (array : List (Option ItemPtr)) (index : ℤ) (data : Option ItemPtr) :
    List (Option ItemPtr) :=
  if index < 0 then array else array.set index.toNat data

/-- `FcitxLastReleasedKey` -/
inductive LastReleasedKey where
  | none
  | trigger
  | triggerAlt
  | scrollForward
  | scrollBackward
  | activate
  | deactivate
  deriving DecidableEq

/-- `FcitxInputMethodPrivateState` -/
structure InputMethodPrivateState where
  lastKeyPressedTime : UInt64
  releasedKey : LastReleasedKey
  deriving DecidableEq

/-- `FcitxInputMethodState` -/
structure InputMethodState where
  localInputMethod : Option (List (Option ItemPtr))
  deriving DecidableEq

/-- `FcitxInputMethodStateUpdate` of type `UpdateType_SetInputMethod`, with the group and the
number of groups of the instance. -/
structure InputMethodStateUpdate where
  isLocal : Bool
  imItem : Option ItemPtr
  group : ℤ
  groups : ℕ
  deriving DecidableEq

/-- The data of the properties the instance registers, and of the one the manager has from the start. -/
inductive InstanceProperty where
  | state (state : InputMethodState)
  | update (update : InputMethodStateUpdate)
  | privateState (state : InputMethodPrivateState)
  | appName (name : Bytes)
  /-- the sender that a frontend keeps with a context -/
  | frontendData (sender : Bytes)
  deriving DecidableEq

/-! ### The callbacks of the properties -/

/-- The state behind a pointer, after `fcitx_utils_new` for NULL. -/
def InstanceProperty.toState : Option InstanceProperty → InputMethodState
  | some (.state ims) => ims
  | _ => ⟨none⟩

/-- The part of `fcitx_input_context_input_method_state_set` about the context's own array. -/
def InputMethodState.setLocal (state : InputMethodState) (update : InputMethodStateUpdate) :
    InputMethodState :=
  let array := state.localInputMethod.getD (List.replicate update.groups none)
  ⟨some (ptrArraySet array update.group update.imItem)⟩

/-- `fcitx_input_context_input_method_state_set` -/
def inputMethodStateSet (data value : Option InstanceProperty) : Option InstanceProperty :=
  let state := InstanceProperty.toState data
  match value with
  | some (.update update) => some (.state (if update.isLocal then state.setLocal update else state))
  | _ => some (.state state)

/-- `fcitx_input_context_input_method_state_copy` -/
def inputMethodStateCopy (dst src : Option InstanceProperty) : Option InstanceProperty :=
  match src with
  | none => none
  | some _ =>
    match (InstanceProperty.toState src).localInputMethod with
    | some array => some (.state ⟨(InstanceProperty.toState dst).localInputMethod.or (some array)⟩)
    | none => some (.state ⟨none⟩)

/-- `fcitx_input_context_input_method_private_state_set` -/
def inputMethodPrivateStateSet (data _value : Option InstanceProperty) : Option InstanceProperty :=
  match data with
  | none => some (.privateState ⟨0, .none⟩)
  | some state => some state

/-- `fcitx_input_context_app_name_set` -/
def appNameSet (_data value : Option InstanceProperty) : Option InstanceProperty := value

/-- `fcitx_app_name_property_key` -/
def appNamePropertyKey : Option InstanceProperty → Bytes
  | some (.appName name) => name
  | _ => []

/-! ### The instance -/

/-- `FcitxInstance`, with the calls of the `handleEvent` of the frontends. -/
structure Instance where
  icManager : IcSystem InstanceProperty
  addonManager : AddonManager
  /-- the items of each group of `imManager` -/
  imGroups : List (List ItemPtr)
  globalInputMethod : List (Option ItemPtr)
  group : ℤ
  /-- `globalConfig->hotkey.triggerKey` -/
  triggerKey : List Key
  inputMethodStateId : ℤ
  inputMethodPrivateStateId : ℤ
  appNameId : ℤ
  handled : List (AddonPtr × Event)

namespace Instance

/-- `fcitx_instance_new`; `addonManager` is a new manager and `triggerKey` the default hotkeys. -/
def new (addonManager : AddonManager) (triggerKey : List Key) : Instance :=
  { icManager := .initial, addonManager, imGroups := [], globalInputMethod := [], group := 0
    triggerKey, inputMethodStateId := 0, inputMethodPrivateStateId := 0, appNameId := 0, handled := [] }

/-- `fcitx_input_context_manager_register_property`, with the id it returns. -/
def register (inst : Instance) (name : Bytes)
    (setProperty copyProperty : Option (SetPropertyCallback InstanceProperty)) : ℤ × Instance :=
  (inst.icManager.propertySlots.length,
    { inst with icManager := inst.icManager.registerProperty name setProperty copyProperty })

/-- The properties that `fcitx_instance_run` registers. -/
def registerProperties (inst : Instance) : Instance :=
  let (id, inst) := inst.register "inputMethodState".toUTF8.toList inputMethodStateSet inputMethodStateCopy
  let inst := { inst with inputMethodStateId := id }
  let (id, inst) := inst.register "inputMethodPrivateState".toUTF8.toList inputMethodPrivateStateSet none
  let inst := { inst with inputMethodPrivateStateId := id }
  let (id, inst) := inst.register "applicationName".toUTF8.toList appNameSet none
  let inst := { inst with appNameId := id }
  { inst with icManager := inst.icManager.sharedStatePolicyNew id appNamePropertyKey }

/-- Write to the data of a property of `c`, in place. -/
def writeData (inst : Instance) (c : ContextPtr) (propertyId : ℤ) (data : InstanceProperty) :
    Instance :=
  { inst with
    icManager := inst.icManager.modifyProperty c propertyId.toNat fun pr => { pr with data := some data } }

/-! ### Groups -/

/-- `fcitx_instance_set_input_method_group` -/
def setInputMethodGroup (inst : Instance) (group : ℤ) : Instance :=
  if 0 ≤ group ∧ (inst.globalInputMethod.length : ℤ) ≤ group then inst
  else if inst.group ≠ group then { inst with group := group }
  else inst

/-- `fcitx_instance_input_method_group_reset_foreach` -/
def inputMethodGroupResetForeach (inst : Instance) (c : ContextPtr) : Instance :=
  match inst.icManager.getProperty c inst.inputMethodStateId with
  | some (.state ⟨some _⟩) => inst.writeData c inst.inputMethodStateId (.state ⟨some []⟩)
  | _ => inst

/-- What the dispatcher does for `ET_InputMethodGroupReset`. -/
def inputMethodGroupReset (inst : Instance) : Instance :=
  let inst := { inst with globalInputMethod := [] }
  let inst := inst.icManager.ics.foldl inputMethodGroupResetForeach inst
  inst.setInputMethodGroup (-1)

/-- What the dispatcher does for `ET_NewInputMethodGroup`. -/
def newInputMethodGroup (inst : Instance) : Instance :=
  let inst := { inst with globalInputMethod := inst.globalInputMethod ++ [none] }
  if inst.group < 0 then inst.setInputMethodGroup 0 else inst

/-- `fcitx_instance_set_input_method_for_input_context`. The global array is written by the
callback of the property. -/
def setInputMethodForInputContext (inst : Instance) (c : ContextPtr) (item : Option ItemPtr)
    (isLocal : Bool) : Instance :=
  let update : InputMethodStateUpdate :=
    ⟨isLocal, item, inst.group, inst.globalInputMethod.length⟩
  let globalInputMethod :=
    if ¬ isLocal ∧ inst.globalInputMethod.length ≠ 0 then
      ptrArraySet inst.globalInputMethod inst.group item
    else inst.globalInputMethod
  { inst with
    icManager := inst.icManager.setProperty c inst.inputMethodStateId (some (.update update))
    globalInputMethod }

end Instance
end Fcitx
