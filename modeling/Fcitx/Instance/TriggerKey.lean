/-
# Trigger keys

The key branch of `fcitx_instance_event_dispatch` remembers for a context which
key was pressed last, `releasedKey`. A row of `keyHandle` is for a key only if
`releasedKey` is already the row's own: nothing ever makes it other than
`LRK_None`, and there is no row for `LRK_None`. So no key is handled, whatever
is pressed and released, and no callback is called.

Key definitions: `Instance.keyStep`, `Instance.handleKeyEvents`, `Instance.TriggerLaw`.
Key theorems: `Instance.handleKeyEvent_spec`, `Instance.handleKeyEvents_eq`, `Instance.triggerLaw_iff`.
-/
import Fcitx.Instance.Dispatch
import Fcitx.InputContext.StoredValue

namespace Fcitx

namespace Instance

/-! ### The branch as an automaton -/

/-- What the branch does with a key: whether it is handled, the row whose callback is called, and what is
remembered. -/
structure KeyResult where
  handled : Bool
  callback : Option KeyHandle
  state : InputMethodPrivateState

/-- The key branch, with the callback as an effect. -/
def keyStep (inst : Instance) (hasMoreThanOneIM : Bool) (state : InputMethodPrivateState) (detail : KeyEvent) :
    KeyResult :=
  if ¬ detail.isRelease then
    let state := { state with lastKeyPressedTime := detail.time }
    match inst.findHandle hasMoreThanOneIM state detail.key with
    | some handle =>
      if Key.isModifier detail.key then ⟨true, none, { state with releasedKey := handle.releasedKey }⟩
      else ⟨true, some handle, state⟩
    | none => ⟨false, none, { state with releasedKey := .none }⟩
  else
    let handle :=
      if Key.isModifier detail.key ∧ detail.time < state.lastKeyPressedTime + 500 then
        inst.findHandle hasMoreThanOneIM state detail.key
      else none
    ⟨handle.isSome, handle, { state with releasedKey := .none }⟩

theorem findHandle_none (inst : Instance) (hasMoreThanOneIM : Bool) {state : InputMethodPrivateState}
    (h : state.releasedKey = .none) (key : Key) : inst.findHandle hasMoreThanOneIM state key = none := by
  rw [findHandle, List.find?_eq_none]
  intro handle hmem
  obtain ⟨releasedKey, hkey, rfl⟩ := List.mem_map.mp hmem
  have hne : releasedKey ≠ .none := by
    rintro rfl
    revert hkey
    decide
  simp [h, hne.symm]

/-- **No key is handled** in a context that remembers nothing, and it goes on remembering nothing. -/
theorem keyStep_eq (inst : Instance) (hasMoreThanOneIM : Bool) {state : InputMethodPrivateState}
    (h : state.releasedKey = .none) (detail : KeyEvent) :
    (inst.keyStep hasMoreThanOneIM state detail).handled = false ∧
      (inst.keyStep hasMoreThanOneIM state detail).callback = none ∧
      (inst.keyStep hasMoreThanOneIM state detail).state.releasedKey = .none := by
  unfold keyStep
  split
  case isTrue =>
    dsimp only
    have hstate : ({ state with lastKeyPressedTime := detail.time } : InputMethodPrivateState).releasedKey = .none := h
    have hnone := findHandle_none inst hasMoreThanOneIM hstate detail.key
    rw [hnone]
    exact ⟨rfl, rfl, rfl⟩
  case isFalse =>
    have hhandle : (if Key.isModifier detail.key ∧ detail.time < state.lastKeyPressedTime + 500 then
        inst.findHandle hasMoreThanOneIM state detail.key else none) = none := by
      rw [findHandle_none inst hasMoreThanOneIM h]
      exact ite_self _
    dsimp only
    rw [hhandle]
    exact ⟨rfl, rfl, rfl⟩

/-! ### The branch of an instance -/

/-- The private state of a context; a new one where there is none. -/
def privateStateOf (inst : Instance) (c : ContextPtr) : InputMethodPrivateState :=
  match inst.icManager.value c inst.inputMethodPrivateStateId.toNat with
  | some (.privateState state) => state
  | _ => ⟨0, .none⟩

/-- The slot of the private state is registered, and the current group has `size` items. -/
structure KeysReady (inst : Instance) (size : ℕ) : Prop where
  registered : ∃ (i : ℕ) (policy : Option PolicyPtr), inst.inputMethodPrivateStateId = i ∧
    inst.icManager.propertySlots[i]? = some ⟨some inputMethodPrivateStateSet, none, policy⟩
  group : inst.getGroupSize inst.group = some size

/-- The key branch for one event after the other: what it returns for each of them. -/
def handleKeyEvents (inst : Instance) (c : ContextPtr) : List KeyEvent → Option (List Bool × Instance)
  | [] => some ([], inst)
  | detail :: events => do
    let (handled, inst) ← inst.handleKeyEvent c detail
    let (rest, inst) ← handleKeyEvents inst c events
    some (handled :: rest, inst)

variable {inst : Instance} {size : ℕ}

/-- Getting the private state sets the property, which makes the state if there is none. -/
theorem getPrivateState_snd (inst : Instance) (c : ContextPtr) :
    (inst.getPrivateState c).2 =
      { inst with icManager := inst.icManager.setProperty c inst.inputMethodPrivateStateId none } := by
  unfold getPrivateState
  dsimp only
  split <;> rfl

theorem getPrivateState_spec (h : inst.KeysReady size) (c : ContextPtr) :
    (inst.getPrivateState c).1 = inst.privateStateOf c ∧ (inst.getPrivateState c).2.KeysReady size ∧
      ((inst.getPrivateState c).2.icManager.property c inst.inputMethodPrivateStateId.toNat).isSome = true := by
  obtain ⟨i, policy, hid, hslot⟩ := h.registered
  have hlen : i < inst.icManager.propertySlots.length := (List.getElem?_eq_some_iff.mp hslot).1
  have hslots := inst.icManager.setProperty_slots c i none
  have hvalue : (inst.icManager.setProperty c i none).value c i =
      inputMethodPrivateStateSet (inst.icManager.value c i) none := inst.icManager.setProperty_value c hslot none
  have hget : (inst.icManager.setProperty c i none).getProperty c i =
      inputMethodPrivateStateSet (inst.icManager.value c i) none := by
    rw [InputContextManager.getProperty, hslots, if_neg (by omega), Int.toNat_natCast, hvalue]
  have hfst : (inst.getPrivateState c).1 = inst.privateStateOf c := by
    rw [getPrivateState, privateStateOf, hid, Int.toNat_natCast]
    dsimp only
    rw [hget]
    cases inst.icManager.value c i with
    | none => rfl
    | some data => cases data <;> rfl
  have hsome : ((inst.icManager.setProperty c i none).property c i).isSome = true := by
    have hdata : ((inst.icManager.setProperty c i none).value c i).isSome = true := by
      rw [hvalue]
      cases inst.icManager.value c i <;> rfl
    rw [InputContextManager.value] at hdata
    cases hprop : (inst.icManager.setProperty c i none).property c i with
    | none =>
      rw [hprop] at hdata
      cases hdata
    | some pr => rfl
  rw [getPrivateState_snd]
  refine ⟨hfst, ⟨⟨i, policy, hid, ?_⟩, h.group⟩, ?_⟩
  · dsimp only
    rw [hid, hslots]
    exact hslot
  · dsimp only
    rw [hid, Int.toNat_natCast]
    exact hsome

/-- A private state that is written is there. -/
theorem writeData_spec (h : inst.KeysReady size) (c : ContextPtr)
    (hsome : (inst.icManager.property c inst.inputMethodPrivateStateId.toNat).isSome = true)
    (state : InputMethodPrivateState) :
    (inst.writeData c inst.inputMethodPrivateStateId (.privateState state)).KeysReady size ∧
      (inst.writeData c inst.inputMethodPrivateStateId (.privateState state)).privateStateOf c = state := by
  obtain ⟨i, policy, hid, hslot⟩ := h.registered
  refine ⟨⟨⟨i, policy, hid, hslot⟩, h.group⟩, ?_⟩
  have hvalue := inst.icManager.modifyProperty_value_self hsome fun _ => some (.privateState state)
  rw [privateStateOf]
  show (match (inst.icManager.modifyProperty c inst.inputMethodPrivateStateId.toNat fun pr =>
      { pr with data := some (.privateState state) }).value c inst.inputMethodPrivateStateId.toNat with
    | some (.privateState state) => state
    | _ => ⟨0, .none⟩) = state
  rw [hvalue]

theorem triggerResult_eq (h : inst.KeysReady size) (key : Key) : inst.triggerResult key = some false := by
  unfold triggerResult
  rw [h.group]
  exact ite_self _

/-- The rows are made of the trigger list alone. -/
theorem findHandle_congr {inst' : Instance} (h : inst'.triggerKey = inst.triggerKey) :
    inst'.findHandle = inst.findHandle := by
  funext hasMoreThanOneIM state key
  rw [findHandle, findHandle, keyHandle, keyHandle, h]

/-- **One event**: the branch does what the automaton does; a callback, which is NULL, has no result. -/
theorem handleKeyEvent_spec (h : inst.KeysReady size) (c : ContextPtr) (detail : KeyEvent) :
    if (inst.keyStep (0 < size) (inst.privateStateOf c) detail).callback.isSome then
      inst.handleKeyEvent c detail = none
    else
      ∃ inst', inst.handleKeyEvent c detail =
          some ((inst.keyStep (0 < size) (inst.privateStateOf c) detail).handled, inst') ∧
        inst'.KeysReady size ∧ inst'.triggerKey = inst.triggerKey ∧
        inst'.privateStateOf c = (inst.keyStep (0 < size) (inst.privateStateOf c) detail).state := by
  obtain ⟨hstate, hready, hsome⟩ := getPrivateState_spec h c
  have hinst : (inst.getPrivateState c).2.triggerKey = inst.triggerKey ∧
      (inst.getPrivateState c).2.inputMethodPrivateStateId = inst.inputMethodPrivateStateId := by
    rw [getPrivateState_snd]
    exact ⟨rfl, rfl⟩
  obtain ⟨htrigger, hid⟩ := hinst
  have hpair : inst.getPrivateState c = (inst.privateStateOf c, (inst.getPrivateState c).2) :=
    Prod.ext hstate rfl
  generalize (inst.getPrivateState c).2 = inst₁ at hready hsome htrigger hid hpair
  rw [← hid] at hsome
  have hsave : ∀ (r : Bool) (state : InputMethodPrivateState),
      ∃ inst', some (r, inst₁.writeData c inst₁.inputMethodPrivateStateId (.privateState state)) = some (r, inst') ∧
        inst'.KeysReady size ∧ inst'.triggerKey = inst.triggerKey ∧ inst'.privateStateOf c = state := by
    intro r state
    obtain ⟨hwritten, hvalue⟩ := writeData_spec hready c hsome state
    exact ⟨_, rfl, hwritten, htrigger, hvalue⟩
  unfold handleKeyEvent keyStep
  simp only [h.group, hpair, findHandle_congr htrigger, triggerResult_eq hready, Option.bind_eq_bind, Option.bind_some,
    Option.map_some]
  by_cases hrelease : detail.isRelease = true
  case neg =>
    simp only [hrelease, Bool.false_eq_true, not_false_eq_true, if_true]
    cases hfind : inst.findHandle (0 < size)
        { inst.privateStateOf c with lastKeyPressedTime := detail.time } detail.key with
    | none => exact hsave false _
    | some handle =>
      by_cases hmod : Key.isModifier detail.key = true
      · simp only [hmod, if_true]
        exact hsave true _
      · simp only [hmod]
        rfl
  case pos =>
    simp only [hrelease, not_true_eq_false, if_false]
    by_cases hquick : Key.isModifier detail.key = true ∧ detail.time < (inst.privateStateOf c).lastKeyPressedTime + 500
    · simp only [hquick, and_self, true_and, if_true]
      by_cases hfind : (inst.findHandle (0 < size) (inst.privateStateOf c) detail.key).isSome = true
      · rw [if_pos hfind, if_pos hfind]
      · rw [if_neg hfind, if_neg hfind]
        rw [Bool.eq_false_iff.mpr hfind]
        exact hsave false _
    · have hcallback : ¬ (Key.isModifier detail.key = true ∧
          detail.time < (inst.privateStateOf c).lastKeyPressedTime + 500 ∧
            (inst.findHandle (0 < size) (inst.privateStateOf c) detail.key).isSome = true) :=
        fun hall => hquick ⟨hall.1, hall.2.1⟩
      rw [if_neg hquick, if_neg hcallback]
      exact hsave false _

/-- **No stream is handled**, from any state in which the context remembers nothing. -/
theorem handleKeyEvents_eq (events : List KeyEvent) (c : ContextPtr) :
    ∀ {inst : Instance}, inst.KeysReady size → (inst.privateStateOf c).releasedKey = .none →
      ∃ inst', inst.handleKeyEvents c events = some (List.replicate events.length false, inst') ∧
        inst'.KeysReady size ∧ (inst'.privateStateOf c).releasedKey = .none := by
  induction events with
  | nil =>
    intro inst hready hnone
    exact ⟨inst, rfl, hready, hnone⟩
  | cons detail events ih =>
    intro inst hready hnone
    obtain ⟨hhandled, hcallback, hstate⟩ := inst.keyStep_eq (0 < size) hnone detail
    have hstep := handleKeyEvent_spec hready c detail
    rw [hcallback, if_neg (by decide), hhandled] at hstep
    obtain ⟨inst₁, heq, hready₁, -, hprivate⟩ := hstep
    rw [← hprivate] at hstate
    obtain ⟨inst₂, hrest, hready₂, hnone₂⟩ := ih hready₁ hstate
    refine ⟨inst₂, ?_, hready₂, hnone₂⟩
    rw [handleKeyEvents, heq, Option.bind_eq_bind, Option.bind_some]
    dsimp only
    rw [hrest]
    rfl

/-! ### What the branch is for -/

/-- A key that is no modifier and matches the trigger list is pressed at `n`. -/
def TriggerPress (inst : Instance) (events : List KeyEvent) (n : ℕ) : Prop :=
  ∃ press, events[n]? = some press ∧ press.isRelease = false ∧ Key.isModifier press.key = false ∧
    Key.listCheck inst.triggerKey press.key = true

/-- A modifier that matches the trigger list is pressed at `n`, and released for the first time at `m`. -/
def ModifierTap (inst : Instance) (events : List KeyEvent) (n m : ℕ) (press release : KeyEvent) : Prop :=
  n < m ∧ events[n]? = some press ∧ events[m]? = some release ∧
    press.isRelease = false ∧ release.isRelease = true ∧
    press.key.sym = release.key.sym ∧ Key.isModifier press.key = true ∧
    Key.listCheck inst.triggerKey press.key = true ∧ Key.listCheck inst.triggerKey release.key = true ∧
    ∀ k detail, n < k → k < m → events[k]? = some detail → detail.isRelease = true →
      detail.key.sym ≠ release.key.sym

/-- A key is pressed between `n` and `m`. -/
def PressedBetween (events : List KeyEvent) (n m : ℕ) : Prop :=
  ∃ k detail, n < k ∧ k < m ∧ events[k]? = some detail ∧ detail.isRelease = false

/-- The release comes less than 500 ms after the press, with no other press in between. -/
def QuickRelease (inst : Instance) (events : List KeyEvent) (n m : ℕ) : Prop :=
  ∃ press release, ModifierTap inst events n m press release ∧ ¬ PressedBetween events n m ∧
    release.time.toNat < press.time.toNat + 500

/-- The release comes after another press, or 500 ms or more after its own. -/
def LateRelease (inst : Instance) (events : List KeyEvent) (n m : ℕ) : Prop :=
  ∃ press release, ModifierTap inst events n m press release ∧
    (PressedBetween events n m ∨ press.time.toNat + 500 ≤ release.time.toNat)

/-- **Trigger keys**, for the answers to a stream of events. -/
structure TriggerLaw (inst : Instance) (events : List KeyEvent) (handled : List Bool) : Prop where
  press : ∀ n, TriggerPress inst events n → handled[n]? = some true
  quick : ∀ n m, QuickRelease inst events n m → handled[m]? = some true
  late : ∀ n m, LateRelease inst events n m → handled[m]? = some false

/-- **Trigger keys** work for exactly the streams in which no trigger key is used. -/
theorem triggerLaw_iff (h : inst.KeysReady size) (c : ContextPtr)
    (hnone : (inst.privateStateOf c).releasedKey = .none) (events : List KeyEvent) :
    (∃ handled inst', inst.handleKeyEvents c events = some (handled, inst') ∧ TriggerLaw inst events handled) ↔
      (∀ n, ¬ TriggerPress inst events n) ∧ ∀ n m, ¬ QuickRelease inst events n m := by
  obtain ⟨inst₁, heq, -, -⟩ := handleKeyEvents_eq events c h hnone
  have hfalse : ∀ n : ℕ, (List.replicate events.length false)[n]? ≠ some true := by
    intro n heq
    have hmem := List.mem_of_getElem? heq
    rw [List.mem_replicate] at hmem
    cases hmem.2
  constructor
  case mp =>
    intro hlaw
    obtain ⟨handled, inst', hrun, hlaw⟩ := hlaw
    rw [heq] at hrun
    obtain ⟨rfl, rfl⟩ := Prod.mk.inj (Option.some.inj hrun)
    exact ⟨fun n hpress => hfalse n (hlaw.press n hpress), fun n m hquick => hfalse m (hlaw.quick n m hquick)⟩
  case mpr =>
    intro hunused
    refine ⟨_, _, heq, fun n hpress => absurd hpress (hunused.1 n),
      fun n m hquick => absurd hquick (hunused.2 n m), ?_⟩
    intro n m hlate
    obtain ⟨press, release, htap, -⟩ := hlate
    obtain ⟨hm, -⟩ := List.getElem?_eq_some_iff.mp htap.2.2.1
    rw [List.getElem?_replicate, if_pos hm]

/-- An instance that runs, with a group of one item, a context and Shift+space as its trigger key. -/
def shiftSpace : Instance :=
  let inst := (new (.new []) [⟨0x20, FcitxKeyState.shift⟩]).registerProperties
  { inst with icManager := (inst.icManager.new 0 0 false).2, imGroups := [[7]] }

theorem shiftSpace_ready : shiftSpace.KeysReady 1 :=
  ⟨⟨_, _, rfl, rfl⟩, rfl⟩

/-- Shift and then space are typed, half a second apart. -/
def typedTrigger : List KeyEvent :=
  [⟨⟨0xffe1, 0⟩, ⟨0xffe1, 0⟩, 50, false, 0⟩,
    ⟨⟨0x20, FcitxKeyState.shift⟩, ⟨0x20, FcitxKeyState.shift⟩, 65, false, 500⟩]

/-- With space typed without Shift every key is answered as it should. -/
theorem triggerLaw_space :
    ∃ handled inst', shiftSpace.handleKeyEvents 0 [⟨⟨0x20, 0⟩, ⟨0x20, 0⟩, 65, false, 0⟩] = some (handled, inst') ∧
      TriggerLaw shiftSpace [⟨⟨0x20, 0⟩, ⟨0x20, 0⟩, 65, false, 0⟩] handled := by
  refine (triggerLaw_iff shiftSpace_ready 0 (by decide +kernel) _).mpr ⟨?_, ?_⟩
  · intro n hpress
    obtain ⟨press, hget, -, -, hcheck⟩ := hpress
    obtain rfl := List.mem_singleton.mp (List.mem_of_getElem? hget)
    revert hcheck
    decide
  · intro n m hquick
    obtain ⟨press, release, ⟨-, -, hget, -, hrelease, -⟩, -⟩ := hquick
    obtain rfl := List.mem_singleton.mp (List.mem_of_getElem? hget)
    cases hrelease

/-- The trigger key of the instance is not handled. -/
theorem not_triggerLaw_shiftSpace :
    ¬ ∃ handled inst', shiftSpace.handleKeyEvents 0 typedTrigger = some (handled, inst') ∧
      TriggerLaw shiftSpace typedTrigger handled := by
  intro hlaw
  obtain ⟨handled, inst', heq, hlaw⟩ := hlaw
  have hfalse : (shiftSpace.handleKeyEvents 0 typedTrigger).map Prod.fst = some [false, false] := by decide +kernel
  rw [heq] at hfalse
  obtain rfl := Option.some.inj hfalse
  have htrue := hlaw.press 1 ⟨_, rfl, rfl, by decide, by decide⟩
  cases htrue

end Instance

end Fcitx
