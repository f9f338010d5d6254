/-
# The dispatcher

`fcitx_instance_event_dispatch` takes the class of an event out of its type
with `ET_EventTypeFlag` and compares it with the flags of the classes. The mask
is the upper half of the word and the flags are in the lower half: no event has
the class of its own flag, and every one falls through.

Key definitions: `Instance.branch`, `Instance.dispatch`, `Request.Served`.
Key theorems: `Instance.dispatch_eq`, `Request.served_iff`.
-/
import Fcitx.Instance.State

namespace Fcitx

/-- The branches of `fcitx_instance_event_dispatch` that do something. -/
inductive Branch where
  | keyEvent
  | frontend
  | inputMethodGroupReset
  | newInputMethodGroup
  | none
  deriving DecidableEq

namespace Instance

/-- `fcitx_input_method_manager_get_group_size`. The check lets the number of groups itself pass:
that reads past the end, and there is no result. -/
def getGroupSize (inst : Instance) (groupId : ℤ) : Option ℕ :=
  if groupId < 0 ∨ (inst.imGroups.length : ℤ) < groupId then some 0
  else (inst.imGroups[groupId.toNat]?).map List.length

/-! ### Keys -/

/-- A row of the table `keyHandle`; the callback of every row is NULL. -/
structure KeyHandle where
  releasedKey : LastReleasedKey
  keyList : List Key
  valid : Bool

/-- `keyHandle` -/
def keyHandle (inst : Instance) (hasMoreThanOneIM : Bool) : List KeyHandle :=
  [.trigger, .triggerAlt, .scrollForward, .scrollBackward, .activate, .deactivate].map
    fun releasedKey => ⟨releasedKey, inst.triggerKey, hasMoreThanOneIM⟩

/-- The first row for the state and the key. -/
def findHandle (inst : Instance) (hasMoreThanOneIM : Bool) (state : InputMethodPrivateState)
    (key : Key) : Option KeyHandle :=
  (inst.keyHandle hasMoreThanOneIM).find? fun handle =>
    state.releasedKey = handle.releasedKey ∧ handle.valid ∧ Key.listCheck handle.keyList key

/-- `_fcitx_instance_input_context_get_private_state` -/
def getPrivateState (inst : Instance) (c : ContextPtr) : InputMethodPrivateState × Instance :=
  let inst := { inst with
    icManager := inst.icManager.setProperty c inst.inputMethodPrivateStateId none }
  match inst.icManager.getProperty c inst.inputMethodPrivateStateId with
  | some (.privateState state) => (state, inst)
  | _ => (⟨0, .none⟩, inst)

/-- The end of the key branch: what a trigger key returns. -/
def triggerResult (inst : Instance) (key : Key) : Option Bool :=
  if Key.listCheck inst.triggerKey key then (inst.getGroupSize inst.group).map fun _ => false
  else some false

/-- The branch for `ET_InputContextKeyEvent`. A call of a NULL callback and a read past the
end of the groups have no result. -/
def handleKeyEvent (inst : Instance) (c : ContextPtr) (detail : KeyEvent) : Option (Bool × Instance) := do
  let size ← inst.getGroupSize inst.group
  let isModifier := Key.isModifier detail.key
  let (state, inst) := inst.getPrivateState c
  let save (state : InputMethodPrivateState) :=
    inst.writeData c inst.inputMethodPrivateStateId (.privateState state)
  if ¬ detail.isRelease then
    let state := { state with lastKeyPressedTime := detail.time }
    match inst.findHandle (0 < size) state detail.key with
    | some handle =>
      if isModifier then some (true, save { state with releasedKey := handle.releasedKey }) else none
    | none => (inst.triggerResult detail.key).map fun r => (r, save { state with releasedKey := .none })
  else if isModifier ∧ detail.time < state.lastKeyPressedTime + 500 ∧
      (inst.findHandle (0 < size) state detail.key).isSome then none
  else (inst.triggerResult detail.key).map fun r => (r, save { state with releasedKey := .none })

/-! ### Events -/

/-- The branch that `fcitx_instance_event_dispatch` takes for an event type. -/
def branch (type : EventType) : Branch :=
  if type.code &&& eventTypeFlag = inputContextEventFlag then
    if type = .inputContextKeyEvent then .keyEvent else .none
  else if type.code &&& eventTypeFlag = inputMethodEventFlag then .frontend
  else if type.code &&& eventTypeFlag = inputMethodManagerEventFlag then
    match type with
    | .inputMethodGroupReset => .inputMethodGroupReset
    | .newInputMethodGroup => .newInputMethodGroup
    | _ => .none
  else .none

/-- The frontend at the index in the record of a context. -/
def frontendOf (inst : Instance) (c : ContextPtr) : Option AddonPtr :=
  inst.addonManager.frontends[(inst.icManager.ctx c).frontend.toNat]?

/-- `fcitx_instance_event_dispatch`; `result` is what the `handleEvent` of a frontend returns. -/
def dispatch (result : AddonPtr → Event → Bool) (inst : Instance) (event : Event) :
    Option (Bool × Instance) :=
  match branch event.type with
  | .keyEvent =>
    match event.detail with
    | .key detail => inst.handleKeyEvent event.inputContext detail
    | _ => none
  | .frontend =>
    match inst.frontendOf event.inputContext with
    | some addon => some (result addon event, { inst with handled := inst.handled ++ [(addon, event)] })
    | none => some (false, inst)
  | .inputMethodGroupReset => some (false, inst.inputMethodGroupReset)
  | .newInputMethodGroup => some (false, inst.newInputMethodGroup)
  | .none => some (false, inst)

/-- A call of the input context manager: an event goes to the dispatcher. -/
def answer (result : AddonPtr → Event → Bool) (inst : Instance) : Call → Option Instance
  | .event event => (inst.dispatch result event).map fun r => r.2
  | .destroyNotify _ => some inst

/-- An operation of the input context manager that dispatches at its end, if at all. -/
def fire (result : AddonPtr → Event → Bool) (inst : Instance)
    (op : IcSystem InstanceProperty → IcSystem InstanceProperty) : Option Instance :=
  let icManager := op inst.icManager
  let calls := (icManager.trace.drop inst.icManager.trace.length).map Emitted.call
  calls.foldlM (answer result) { inst with icManager }

/-! ### What is dispatched -/

/-- The mask and the flags of the classes have no bit in common. -/
theorem code_and_eventTypeFlag (type : EventType) : type.code &&& eventTypeFlag = 0 := by
  cases type <;> decide

theorem branch_eq (type : EventType) : branch type = .none := by
  unfold branch
  rw [code_and_eventTypeFlag, if_neg (by decide), if_neg (by decide), if_neg (by decide)]

variable (result : AddonPtr → Event → Bool)

/-- **No event is handled.** -/
theorem dispatch_eq (inst : Instance) (event : Event) : inst.dispatch result event = some (false, inst) := by
  unfold dispatch
  rw [branch_eq]

theorem answer_eq (inst : Instance) (call : Call) : inst.answer result call = some inst := by
  cases call with
  | event event =>
    rw [answer, dispatch_eq]
    rfl
  | destroyNotify c => rfl

theorem foldlM_answer (calls : List Call) (inst : Instance) :
    calls.foldlM (answer result) inst = some inst := by
  induction calls with
  | nil => rfl
  | cons call calls ih =>
    rw [List.foldlM_cons, answer_eq]
    exact ih

/-- An operation of the manager calls no frontend and fails nowhere. -/
theorem fire_eq (inst : Instance) (op : IcSystem InstanceProperty → IcSystem InstanceProperty) :
    inst.fire result op = some { inst with icManager := op inst.icManager } := by
  unfold fire
  exact foldlM_answer result _ _

/-- The call of a frontend that the dispatcher owes an event of `c`. -/
def Delivers (inst : Instance) (c : ContextPtr) (type : EventType) (detail : EventDetail)
    (op : IcSystem InstanceProperty → IcSystem InstanceProperty) : Prop :=
  ∃ addon, inst.frontendOf c = some addon ∧ ∃ inst', inst.fire result op = some inst' ∧
    inst'.handled = inst.handled ++ [(addon, ⟨type, (inst.icManager.ctx c).id, c, detail⟩)]

theorem not_delivers (inst : Instance) (c : ContextPtr) (type : EventType) (detail : EventDetail)
    (op : IcSystem InstanceProperty → IcSystem InstanceProperty) :
    ¬ inst.Delivers result c type detail op := by
  rintro ⟨addon, -, inst', hfire, hhandled⟩
  rw [fire_eq] at hfire
  obtain rfl := Option.some.inj hfire
  have hlen := congrArg List.length hhandled
  rw [List.length_append] at hlen
  simp at hlen

end Instance

/-- What the dispatcher is there for: the operations that tell a frontend, and the events it
handles itself. -/
inductive Request where
  | commitString (c : ContextPtr) (str : Bytes)
  | forwardKey (c : ContextPtr) (key : KeyEvent)
  | deleteSurroundingText (c : ContextPtr) (offset : Int32) (length : UInt32)
  | updatePreedit (c : ContextPtr)
  | keyEvent
  | inputMethodGroupReset (id : UInt32) (c : ContextPtr) (detail : EventDetail)
  | newInputMethodGroup (id : UInt32) (c : ContextPtr) (detail : EventDetail)

namespace Request

open Instance

variable (result : AddonPtr → Event → Bool)

/-- **Event routing.** The four operations call the frontend of the context, once, with the event,
and no other; a key event reaches its branch; the two group events change the global array. -/
def Served (inst : Instance) : Request → Prop
  | .commitString c str =>
    inst.Delivers result c .inputContextCommitString (.commitString str) (·.commitString c str)
  | .forwardKey c key => inst.Delivers result c .inputContextForwardKey (.key key) (·.forwardKey c key)
  | .deleteSurroundingText c offset length =>
    inst.Delivers result c .inputContextDeleteSurroundingText (.deleteSurrounding offset length)
      (·.deleteSurroundingText c offset length)
  | .updatePreedit c => inst.Delivers result c .inputContextUpdatePreedit .none (·.updatePreedit c)
  | .keyEvent => branch .inputContextKeyEvent = .keyEvent
  | .inputMethodGroupReset id c detail =>
    ∃ r, inst.dispatch result ⟨.inputMethodGroupReset, id, c, detail⟩ = some r ∧
      r.2.globalInputMethod = []
  | .newInputMethodGroup id c detail =>
    ∃ r, inst.dispatch result ⟨.newInputMethodGroup, id, c, detail⟩ = some r ∧
      ∃ entry, r.2.globalInputMethod = inst.globalInputMethod ++ [entry]

/-- **Event routing** fails for everything but a reset that has nothing to empty. -/
theorem served_iff (inst : Instance) (request : Request) :
    request.Served result inst ↔
      (∃ id c detail, request = .inputMethodGroupReset id c detail) ∧ inst.globalInputMethod = [] := by
  cases request with
  | commitString c str => simp [Served, not_delivers]
  | forwardKey c key => simp [Served, not_delivers]
  | deleteSurroundingText c offset length => simp [Served, not_delivers]
  | updatePreedit c => simp [Served, not_delivers]
  | keyEvent => simp [Served, branch_eq]
  | inputMethodGroupReset id c detail => simp [Served, dispatch_eq]
  | newInputMethodGroup id c detail => simp [Served, dispatch_eq]

end Request

namespace Instance

/-- An addon manager whose only addon, a frontend at 0 with its API structure at 7, is loaded. -/
def oneFrontend : AddonManager :=
  let manager := (AddonManager.new []).loadMetadata
    ⟨"ipc".toUTF8.toList, "static".toUTF8.toList, .frontend, [], true⟩
  (manager.initGeneral 0 ⟨7, true, true⟩ (some 1)).2

/-- An instance with that frontend and a context of it. -/
def oneContext : Instance :=
  let inst := (new oneFrontend []).registerProperties
  { inst with icManager := (inst.icManager.new 0 (oneFrontend.frontendId 7).toUInt32 false).2 }

/-- A string committed to a context of the frontend does not reach it. -/
theorem not_served_commitString :
    (0 ∈ oneContext.icManager.ics ∧ oneContext.icManager.callback = true ∧
      oneContext.frontendOf 0 = some 0) ∧
      ¬ (Request.commitString 0 [97]).Served (fun _ _ => true) oneContext := by
  refine ⟨by decide +kernel, ?_⟩
  rintro ⟨addon, -, inst', hfire, hhandled⟩
  rw [fire_eq] at hfire
  obtain rfl := Option.some.inj hfire
  cases hhandled

end Instance
end Fcitx
