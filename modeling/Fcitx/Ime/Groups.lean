/-
# Input method groups

`fcitx/ime.c`: the manager has an array of groups, and each group an array of
items that `fcitx_input_method_manager_set_input_method_list` makes from strings.
The functions that get the number of a group let the number of groups itself
pass their check; `fcitx_ptr_array_index` then gives NULL, and the array of its
items is read through it.

Key definitions: `InputMethodManager`, `InputMethodManager.createGroup`, `InputMethodManager.setInputMethodList`,
`InputMethodManager.getGroupSize`, `InputMethodManager.getGroupItem`, `InputMethodManager.GroupChecks`.
Key theorems: `InputMethodManager.groupChecks_iff`, `groupChecks_run_iff`.
-/
import Fcitx.Instance.Dispatch
import Fcitx.Utils.StringUtils

namespace Fcitx

/-- The address of a `FcitxInputMethodGroup`. -/
abbrev ImGroupPtr := ℕ

/-- `FcitxKeyboardLayoutInfo` of a group -/
structure KeyboardLayoutInfo where
  layout : Bytes
  variant : Option Bytes
  deriving DecidableEq

/-- `FcitxInputMethodItem`: its strings are places in `key`. -/
structure InputMethodItem where
  layout : Option ℕ
  variant : Option ℕ
  name : Option ℕ
  index : ℕ
  group : ImGroupPtr
  key : Bytes
  deriving DecidableEq

/-- `FcitxInputMethodGroup` -/
structure InputMethodGroup where
  ptr : ImGroupPtr
  layoutInfo : KeyboardLayoutInfo
  items : List InputMethodItem
  deriving DecidableEq

/-- `FcitxInputMethodManager`: its groups, and the address of the next one. -/
structure InputMethodManager where
  groups : List InputMethodGroup
  nextGroup : ImGroupPtr
  deriving DecidableEq

/-! ### Parsing a description -/

/-- `fcitx_utils_string_split`, with empty parts: one delimiter, and the part since the last one. The last part is
dropped if it is empty. -/
def stringSplit (delim : UInt8) : Bytes → Bytes → List Bytes
  | part, [] => if part = [] then [] else [part]
  | part, c :: str => if c = delim then part :: stringSplit delim [] str else stringSplit delim (part ++ [c]) str

def comma : UInt8 := 44

def colon : UInt8 := 58

/-- `"name"` -/
def nameField : Bytes := [110, 97, 109, 101]

/-- `"layout"` -/
def layoutField : Bytes := [108, 97, 121, 111, 117, 116]

/-- `"variant"` -/
def variantField : Bytes := [118, 97, 114, 105, 97, 110, 116]

/-- A pointer into the split list of a description, which is freed with the round that made it. -/
structure SplitString where
  round : ℕ
  str : Bytes
  deriving DecidableEq

/-- The scratch `item` of `fcitx_input_method_manager_set_input_method_list`. -/
structure ScratchItem where
  name : Option SplitString
  layout : Option SplitString
  variant : Option SplitString
  deriving DecidableEq

/-- One part of a description. -/
def ScratchItem.setField (round : ℕ) (item : ScratchItem) (itemString : Bytes) : ScratchItem :=
  if colon ∈ itemString then
    let field := itemString.takeWhile (· ≠ colon)
    let value := (itemString.dropWhile (· ≠ colon)).drop 1
    if field = nameField then { item with name := some ⟨round, value⟩ }
    else if field = layoutField then { item with layout := some ⟨round, value⟩ }
    else if field = variantField then { item with variant := some ⟨round, value⟩ }
    else item
  else item

/-- The parts of a description. -/
def ScratchItem.scan (round : ℕ) (item : ScratchItem) (im : Bytes) : ScratchItem :=
  (stringSplit comma [] im).foldl (setField round) item

/-- A string that is read in a round: `none` is a read of freed memory. -/
def readSplit (round : ℕ) : Option SplitString → Option (Option Bytes)
  | none => some none
  | some s => if s.round = round then some (some s.str) else none

/-- The part of `key` for a string. -/
def keyPart (str : Option Bytes) : Bytes := str.getD [] ++ [0]

/-- The new item: its strings one after the other in `key`. -/
def InputMethodItem.pack (name layout variant : Option Bytes) (index : ℕ) (group : ImGroupPtr) : InputMethodItem where
  name := name.map fun _ => 0
  layout := layout.map fun _ => (keyPart name).length
  variant := variant.map fun _ => (keyPart name ++ keyPart layout).length
  index := index
  group := group
  key := keyPart name ++ keyPart layout ++ keyPart variant

/-- The string at a pointer of an item. -/
def InputMethodItem.string (item : InputMethodItem) (ptr : Option ℕ) : Option Bytes :=
  ptr.map fun offset => cString (item.key.drop offset)

namespace InputMethodManager

/-- `fcitx_input_method_manager_new` -/
def new : InputMethodManager := ⟨[], 0⟩

/-- `fcitx_input_method_manager_create_group`, and what it returns. -/
def createGroup (manager : InputMethodManager) (layout variant : Option Bytes) : InputMethodManager × ℤ :=
  match layout with
  | none => (manager, -1)
  | some layout =>
    (⟨manager.groups ++ [⟨manager.nextGroup, ⟨layout, variant⟩, []⟩], manager.nextGroup + 1⟩,
      (manager.groups.length + 1 : ℕ) - 1)

/-- `fcitx_input_method_manager_reset_group` -/
def resetGroup (manager : InputMethodManager) : InputMethodManager := { manager with groups := [] }

/-- The check of the functions that get the number of a group. -/
def rejected (manager : InputMethodManager) (groupId : ℤ) : Prop :=
  groupId < 0 ∨ (manager.groups.length : ℤ) < groupId

instance rejectedDecidable (manager : InputMethodManager) (groupId : ℤ) : Decidable (manager.rejected groupId) :=
  inferInstanceAs (Decidable (_ ∨ _))

/-- `fcitx_ptr_array_index` of a number that is not negative; `none` is NULL. -/
def groupAt (manager : InputMethodManager) (groupId : ℤ) : Option InputMethodGroup := manager.groups[groupId.toNat]?

/-- `fcitx_input_method_manager_get_group_size`; `none` is a read through NULL. -/
def getGroupSize (manager : InputMethodManager) (groupId : ℤ) : Option ℕ :=
  if manager.rejected groupId then some 0 else (manager.groupAt groupId).map fun group => group.items.length

/-- `fcitx_input_method_manager_get_group_item` -/
def getGroupItem (manager : InputMethodManager) (groupId : ℤ) (index : ℕ) : Option (Option InputMethodItem) :=
  if manager.rejected groupId then some none else (manager.groupAt groupId).map fun group => group.items[index]?

/-- The loop of `fcitx_input_method_manager_set_input_method_list` from a round on: `group` is NULL or the group with
its items so far. -/
def setListLoop (group : Option InputMethodGroup) (item : ScratchItem) (round : ℕ) :
    List Bytes → Option (Option InputMethodGroup)
  | [] => some group
  | im :: ims =>
    let item := item.scan round im
    if item.name.isSome then do
      let name ← readSplit round item.name
      let layout ← readSplit round item.layout
      let variant ← readSplit round item.variant
      let group ← group
      let newItem := InputMethodItem.pack name layout variant group.items.length group.ptr
      setListLoop (some { group with items := group.items ++ [newItem] }) item (round + 1) ims
    else setListLoop group item (round + 1) ims

/-- `fcitx_input_method_manager_set_input_method_list`; `none` is a read of freed memory or through NULL. -/
def setInputMethodList (manager : InputMethodManager) (groupId : ℤ) (ims : List Bytes) : Option InputMethodManager :=
  if manager.rejected groupId then some manager
  else
    (setListLoop (manager.groupAt groupId) ⟨none, none, none⟩ 0 ims).map fun group =>
      match group with
      | none => manager
      | some group => { manager with groups := manager.groups.set groupId.toNat group }

/-! ### The checks -/

/-- There is no group with this number. -/
def NoGroup (manager : InputMethodManager) (groupId : ℤ) : Prop :=
  ¬ (0 ≤ groupId ∧ groupId < manager.groups.length)

/-- What the functions do with a number that is not the number of a group. -/
structure GroupChecks (manager : InputMethodManager) (groupId : ℤ) : Prop where
  size : manager.getGroupSize groupId = some 0
  item : ∀ index, manager.getGroupItem groupId index = some none
  set : ∀ ims, manager.setInputMethodList groupId ims = some manager

theorem groupAt_length (manager : InputMethodManager) : manager.groupAt manager.groups.length = none := by
  rw [groupAt, Int.toNat_natCast]
  exact List.getElem?_eq_none (Nat.le_refl _)

/-- The number of groups is not rejected. -/
theorem not_rejected_length (manager : InputMethodManager) : ¬ manager.rejected manager.groups.length := by
  unfold rejected
  omega

/-- **The checks hold** for all numbers that are not the number of a group, but one. -/
theorem groupChecks_iff {manager : InputMethodManager} {groupId : ℤ} (h : manager.NoGroup groupId) :
    manager.GroupChecks groupId ↔ groupId ≠ manager.groups.length := by
  constructor
  · intro hchecks heq
    have hsize := hchecks.size
    rw [heq, getGroupSize, if_neg manager.not_rejected_length, groupAt_length] at hsize
    cases hsize
  · intro hne
    have hrejected : manager.rejected groupId := by
      unfold NoGroup at h
      unfold rejected
      omega
    exact ⟨if_pos hrejected, fun _ => if_pos hrejected, fun _ => if_pos hrejected⟩

/-- The operations on the groups. -/
inductive GroupOp where
  | createGroup (layout variant : Option Bytes)
  | resetGroup
  deriving DecidableEq

def step (manager : InputMethodManager) : GroupOp → InputMethodManager
  | .createGroup layout variant => (manager.createGroup layout variant).1
  | .resetGroup => manager.resetGroup

/-- A run from a new manager on. -/
def run (ops : List GroupOp) : InputMethodManager := ops.foldl step new

/-- What is read of a group is what the instance knows of it. -/
theorem getGroupSize_instance {manager : InputMethodManager} {inst : Instance}
    (h : inst.imGroups.map List.length = manager.groups.map fun group => group.items.length) (groupId : ℤ) :
    inst.getGroupSize groupId = manager.getGroupSize groupId := by
  have hlen : inst.imGroups.length = manager.groups.length := by
    have hmap := congrArg List.length h
    rwa [List.length_map, List.length_map] at hmap
  have hget := congrArg (fun sizes => sizes[groupId.toNat]?) h
  rw [List.getElem?_map, List.getElem?_map] at hget
  by_cases hr : manager.rejected groupId
  · rw [getGroupSize, if_pos hr, Instance.getGroupSize, hlen]
    exact if_pos hr
  · rw [getGroupSize, if_neg hr, Instance.getGroupSize, hlen, hget]
    exact if_neg hr

end InputMethodManager

open InputMethodManager in
/-- **The checks in a run**: they let the number of groups pass. The key branch of the dispatcher faults before
there is a group; no event gets there. -/
theorem groupChecks_run_iff {ops : List GroupOp} {groupId : ℤ} (h : (run ops).NoGroup groupId) {inst : Instance}
    (hgroup : inst.group = 0) (hgroups : inst.imGroups = []) (c : ContextPtr) (detail : KeyEvent)
    (result : AddonPtr → Event → Bool) (inst' : Instance) (event : Event) :
    ((run ops).GroupChecks groupId ↔ groupId ≠ (run ops).groups.length) ∧
      inst.handleKeyEvent c detail = none ∧ inst'.dispatch result event = some (false, inst') := by
  refine ⟨groupChecks_iff h, ?_, Instance.dispatch_eq result inst' event⟩
  have hsize : inst.getGroupSize inst.group = none := by
    rw [Instance.getGroupSize, hgroup, hgroups]
    rfl
  rw [Instance.handleKeyEvent, hsize]
  rfl

/-- Two groups and the number 7, and the key branch of a new instance. -/
theorem groupChecks_run_seven :
    (InputMethodManager.run [.createGroup (some [106]) none, .createGroup none none,
        .createGroup (some [107]) none]).GroupChecks 7 ∧
      (Instance.new (AddonManager.new []) []).handleKeyEvent 0 ⟨⟨0, 0⟩, ⟨0, 0⟩, 0, false, 0⟩ = none := by
  have hseven : (InputMethodManager.run [.createGroup (some [106]) none, .createGroup none none,
      .createGroup (some [107]) none]).NoGroup 7 := by
    unfold InputMethodManager.NoGroup
    decide
  have hinst : (Instance.new (AddonManager.new []) []).group = 0 := rfl
  obtain ⟨hchecks, hkey, -⟩ := groupChecks_run_iff hseven hinst rfl 0 ⟨⟨0, 0⟩, ⟨0, 0⟩, 0, false, 0⟩ (fun _ _ => true)
    (Instance.new (AddonManager.new []) []) ⟨.inputContextKeyEvent, 0, 0, .none⟩
  exact ⟨hchecks.mpr (by decide), hkey⟩

/-- At the start there is no group, and the number 0 is let through. -/
theorem not_groupChecks_new : ¬ (InputMethodManager.run []).GroupChecks 0 := by
  intro h
  exact absurd h.size (by decide)

end Fcitx
