/-
# The input methods of a context

A context has an array of its own with an input method for each group. It is
made with the length of the global array when the context first sets an input
method of its own, and a reset of the groups empties it; nothing makes it
longer when the global array grows, and a write past its end is dropped. So an
update is kept exactly where the array is not there yet or is as long as the
global one.

Key definitions: `Instance.localInputMethod`, `LocalUpdate`, `MethodOp`, `Instance.step`.
Key theorems: `Instance.setLocal_localInputMethod`, `Instance.localUpdate_iff`,
`Instance.run_localUpdates_iff`.
-/
import Fcitx.InputContext.StoredValue
import Fcitx.Instance.State

namespace Fcitx

/-! ### The array -/

theorem length_ptrArraySet (array : List (Option ItemPtr)) (index : ℤ) (data : Option ItemPtr) :
    (ptrArraySet array index data).length = array.length := by
  unfold ptrArraySet
  split
  · rfl
  · exact List.length_set

/-- An index in the array is written, and the others stay. -/
theorem ptrArraySet_getElem? {array : List (Option ItemPtr)} {index : ℤ} (hindex : 0 ≤ index)
    (data : Option ItemPtr) (i : ℕ) :
    (ptrArraySet array index data)[i]? =
      if i = index.toNat ∧ i < array.length then some data else array[i]? := by
  unfold ptrArraySet
  rw [if_neg (by omega), List.getElem?_set]
  by_cases hi : i = index.toNat
  · subst hi
    rw [if_pos rfl]
    by_cases hlt : index.toNat < array.length
    · rw [if_pos hlt, if_pos ⟨rfl, hlt⟩]
    · rw [if_neg hlt, if_neg fun h => hlt h.2, List.getElem?_eq_none (by omega)]
  · rw [if_neg (Ne.symm hi), if_neg fun h => hi h.1]

namespace Instance

/-- The slot of the state of the input methods is registered. -/
def Registered (inst : Instance) : Prop :=
  ∃ (i : ℕ) (policy : Option PolicyPtr), inst.inputMethodStateId = i ∧
    inst.icManager.propertySlots[i]? = some ⟨some inputMethodStateSet, some inputMethodStateCopy, policy⟩

/-- `localInputMethod` of a context; `none` is NULL. -/
def localInputMethod (inst : Instance) (c : ContextPtr) : Option (List (Option ItemPtr)) :=
  (InstanceProperty.toState (inst.icManager.getProperty c inst.inputMethodStateId)).localInputMethod

/-- An entry of the context's array; NULL where there is none. -/
def localEntry (inst : Instance) (c : ContextPtr) (i : ℕ) : Option ItemPtr :=
  (((inst.localInputMethod c).getD [])[i]?).join

end Instance

open Instance

/-- **The update is not lost**: the entry of the group is the item, the others are what they were,
and there is an entry for every group. -/
structure LocalUpdate (inst inst' : Instance) (c : ContextPtr) (item : Option ItemPtr) : Prop where
  entry : ((inst'.localInputMethod c).getD [])[inst.group.toNat]? = some item
  others : ∀ i, i ≠ inst.group.toNat → inst'.localEntry c i = inst.localEntry c i
  length : inst.globalInputMethod.length ≤ ((inst'.localInputMethod c).getD []).length

/-- What changes the groups and the input methods. -/
inductive MethodOp where
  | inputMethodGroupReset
  | newInputMethodGroup
  | setInputMethodGroup (group : ℤ)
  | setInputMethod (c : ContextPtr) (item : Option ItemPtr) (isLocal : Bool)

namespace Instance

/-- One operation. -/
def step (inst : Instance) : MethodOp → Instance
  | .inputMethodGroupReset => inst.inputMethodGroupReset
  | .newInputMethodGroup => inst.newInputMethodGroup
  | .setInputMethodGroup group => inst.setInputMethodGroup group
  | .setInputMethod c item isLocal => inst.setInputMethodForInputContext c item isLocal

/-- A local update in a group that exists is not lost. -/
def KeepsUpdate (inst : Instance) : MethodOp → Prop
  | .setInputMethod c item true =>
    0 ≤ inst.group → inst.group < inst.globalInputMethod.length →
      LocalUpdate inst (inst.step (.setInputMethod c item true)) c item
  | _ => True

/-- A local update in a group that exists finds no array, or one with an entry for every group. -/
def CoversGroups (inst : Instance) : MethodOp → Prop
  | .setInputMethod c _ true =>
    0 ≤ inst.group → inst.group < inst.globalInputMethod.length →
      ∀ array ∈ inst.localInputMethod c, inst.globalInputMethod.length ≤ array.length
  | _ => True

instance coversGroupsDecidable (inst : Instance) : ∀ op : MethodOp, Decidable (inst.CoversGroups op)
  | .setInputMethod c _ true =>
    inferInstanceAs (Decidable (0 ≤ inst.group → inst.group < inst.globalInputMethod.length →
      ∀ array ∈ inst.localInputMethod c, inst.globalInputMethod.length ≤ array.length))
  | .setInputMethod _ _ false => .isTrue trivial
  | .inputMethodGroupReset | .newInputMethodGroup | .setInputMethodGroup _ => .isTrue trivial

/-! ### One update -/

variable {inst : Instance}

theorem setInputMethodGroup_registered (h : inst.Registered) (group : ℤ) :
    (inst.setInputMethodGroup group).Registered := by
  unfold setInputMethodGroup
  split
  · exact h
  · split <;> exact h

theorem inputMethodGroupResetForeach_registered (h : inst.Registered) (c : ContextPtr) :
    (inst.inputMethodGroupResetForeach c).Registered := by
  unfold inputMethodGroupResetForeach
  split <;> exact h

/-- Every operation leaves the slot as it is. -/
theorem step_registered (h : inst.Registered) (op : MethodOp) : (inst.step op).Registered := by
  cases op with
  | inputMethodGroupReset =>
    refine setInputMethodGroup_registered ?_ (-1)
    refine List.foldlRecOn (motive := Registered) _ _ h fun inst hinst c _ => ?_
    exact inputMethodGroupResetForeach_registered hinst c
  | newInputMethodGroup =>
    simp only [step, newInputMethodGroup]
    split
    · refine setInputMethodGroup_registered ?_ 0
      exact h
    · exact h
  | setInputMethodGroup group => exact setInputMethodGroup_registered h group
  | setInputMethod c item isLocal =>
    obtain ⟨i, policy, hid, hslot⟩ := h
    refine ⟨i, policy, hid, ?_⟩
    simp only [step, setInputMethodForInputContext]
    rw [IcSystem.setProperty_slots]
    exact hslot

/-- The array after a local update. -/
theorem setLocal_localInputMethod (h : inst.Registered) (c : ContextPtr) (item : Option ItemPtr) :
    (inst.step (.setInputMethod c item true)).localInputMethod c =
      some (ptrArraySet
        ((inst.localInputMethod c).getD (List.replicate inst.globalInputMethod.length none))
        inst.group item) := by
  obtain ⟨i, policy, hid, hslot⟩ := h
  have hlt : i < inst.icManager.propertySlots.length := (List.getElem?_eq_some_iff.mp hslot).1
  set update : InputMethodStateUpdate := ⟨true, item, inst.group, inst.globalInputMethod.length⟩ with hupdate
  have hvalue := inst.icManager.setProperty_value c hslot (some (.update update))
  have hlen : i < (inst.icManager.setProperty c i (some (.update update))).propertySlots.length := by
    rw [IcSystem.setProperty_slots]
    exact hlt
  simp only [localInputMethod, step, setInputMethodForInputContext, hid, ← hupdate,
    InputContextManager.getProperty]
  rw [if_neg (by omega), if_neg (by omega), Int.toNat_natCast, hvalue]
  rfl

/-- **A local update is kept exactly if the array is not there yet or covers the groups.** -/
theorem localUpdate_iff (h : inst.Registered) (op : MethodOp) :
    inst.KeepsUpdate op ↔ inst.CoversGroups op := by
  cases op with
  | setInputMethod c item isLocal =>
    cases isLocal with
    | false => rfl
    | true =>
      refine forall_congr' fun hgroup => forall_congr' fun hlt => ?_
      have harray := setLocal_localInputMethod h c item
      set array := (inst.localInputMethod c).getD (List.replicate inst.globalInputMethod.length none)
      constructor
      · intro hkept old hold
        have hlen := hkept.length
        rw [harray, Option.getD_some, length_ptrArraySet] at hlen
        rwa [show array = old by simp only [array, Option.mem_def.mp hold, Option.getD_some]] at hlen
      · intro hcovers
        have hlen : inst.globalInputMethod.length ≤ array.length := by
          cases hold : inst.localInputMethod c with
          | none => simp [array, hold]
          | some old =>
            simp only [array, hold, Option.getD_some]
            exact hcovers old hold
        refine ⟨?_, fun i hi => ?_, ?_⟩
        · rw [harray, Option.getD_some, ptrArraySet_getElem? hgroup, if_pos ⟨rfl, by omega⟩]
        · rw [localEntry, localEntry, harray, Option.getD_some, ptrArraySet_getElem? hgroup,
            if_neg fun h => hi h.1]
          cases hold : inst.localInputMethod c with
          | none =>
            -- a new array is empty everywhere
            simp only [array, hold, Option.getD_none, List.getElem?_replicate]
            split <;> rfl
          | some old => simp only [array, hold, Option.getD_some]
        · rw [harray, Option.getD_some, length_ptrArraySet]
          exact hlen
  | _ => rfl

/-! ### Whole runs -/

/-- **Local input method updates are never lost** in a run exactly when each one is made where the
array of the context is not there yet or covers the groups. -/
theorem run_localUpdates_iff (inst : Instance) (h : inst.Registered) (ops : List MethodOp) :
    Run.Admissible step KeepsUpdate inst ops ↔ Run.Admissible step CoversGroups inst ops := by
  induction ops generalizing inst with
  | nil => rfl
  | cons op ops ih =>
    exact and_congr (localUpdate_iff h op) (ih (inst.step op) (step_registered h op))

/-- An instance with one context. -/
def oneIc : Instance :=
  let inst := (new (AddonManager.new []) []).registerProperties
  { inst with icManager := (inst.icManager.new 0 0 false).2 }

theorem oneIc_registered : oneIc.Registered := ⟨1, none, by decide +kernel, rfl⟩

/-- Two groups, updates in both, and a reset. -/
theorem run_localUpdates_iff_two :
    Run.Admissible step KeepsUpdate oneIc
      [.newInputMethodGroup, .newInputMethodGroup, .setInputMethod 0 (some 5) true,
        .setInputMethodGroup 1, .setInputMethod 0 (some 6) true, .inputMethodGroupReset] :=
  (run_localUpdates_iff oneIc oneIc_registered _).mpr (by decide +kernel)

/-- An update in a group that is newer than the array of the context is lost. -/
theorem not_localUpdates_newGroup :
    ¬ Run.Admissible step KeepsUpdate oneIc
      [.newInputMethodGroup, .setInputMethod 0 (some 5) true, .newInputMethodGroup,
        .setInputMethodGroup 1, .setInputMethod 0 (some 6) true] := by
  intro h
  have hkept := h.2.2.2.2.1 (by decide +kernel) (by decide +kernel)
  exact absurd hkept.length (by decide +kernel)

end Instance
end Fcitx
