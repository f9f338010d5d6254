/-
# Copying the state of the input methods

`fcitx_input_context_input_method_state_copy` makes the array of the destination
only where there is none, and leaves an array that is there as it is. So a copy
is one exactly if the destination has no array, or the source has none, or both
are the same; and after a set the members of a group have the same arrays
exactly if this is so for the context that was set and each of the others.

Key definitions: `Copies`, `ActiveGroup`, `StateOp`, `Instance.ReadyToCopy`.
Key theorems: `copies_iff`, `Instance.keepsSame_iff`, `stateCopy_iff`.
-/
import Fcitx.Instance.LocalMethod
import Fcitx.InputContext.SharedRun

namespace Fcitx

open InputContextManager IcSystem

/-! ### One copy -/

/-- The array of a state; none for NULL. -/
def arrayOf (data : Option InstanceProperty) : Option (List (Option ItemPtr)) :=
  (InstanceProperty.toState data).localInputMethod

/-- The copy has the array of the source. -/
def Copies (dst src : Option InstanceProperty) : Prop := arrayOf (inputMethodStateCopy dst src) = arrayOf src

/-- An array can be copied to another one. -/
def Copyable (dst src : Option (List (Option ItemPtr))) : Prop := src = none ∨ dst = none ∨ dst = src

instance copyableDecidable (dst src : Option (List (Option ItemPtr))) : Decidable (Copyable dst src) :=
  inferInstanceAs (Decidable (_ ∨ _ ∨ _))

theorem arrayOf_copy (dst src : Option InstanceProperty) : arrayOf (inputMethodStateCopy dst src) =
    (arrayOf src).bind fun array => (arrayOf dst).or (some array) := by
  cases src with
  | none => rfl
  | some src =>
    unfold inputMethodStateCopy arrayOf
    cases (InstanceProperty.toState (some src)).localInputMethod <;> rfl

/-- **A copy is one** exactly if there is no array to keep. -/
theorem copies_iff (dst src : Option InstanceProperty) : Copies dst src ↔ Copyable (arrayOf dst) (arrayOf src) := by
  rw [Copies, arrayOf_copy, Copyable]
  cases arrayOf src with
  | none => exact ⟨fun _ => Or.inl rfl, fun _ => rfl⟩
  | some array =>
    cases arrayOf dst with
    | none => exact ⟨fun _ => Or.inr (Or.inl rfl), fun _ => rfl⟩
    | some old =>
      constructor
      · exact fun h => Or.inr (Or.inr h)
      · rintro (h | h | h)
        · cases h
        · cases h
        · exact h

/-! ### Groups -/

section groups

variable {V : Type} {s s' : IcSystem V} {c d : ContextPtr}

/-- Two contexts are in one group of the active policy. -/
def ActiveGroup (m : InputContextManager V) (c d : ContextPtr) : Prop :=
  ∃ p ∈ m.policy, ∃ policy ∈ m.policies[p]?, ∃ k,
    m.classOf (c, policy.id) = some k ∧ m.classOf (d, policy.id) = some k

theorem ActiveGroup.mem {m : InputContextManager V} (h : ActiveGroup m c d) : d ∈ m.ics := by
  obtain ⟨-, -, policy, -, k, -, hd⟩ := h
  by_contra hnot
  rw [classOf, if_neg hnot] at hd
  cases hd

/-- The groups are known from the policies and the classes of their slots. -/
theorem activeGroup_iff {m m' : InputContextManager V} (hsame : SamePolicies m m')
    (hclass : ∀ (p : PolicyPtr) (policy : SharedStatePolicy V), m.policies[p]? = some policy →
      ∀ e, m'.classOf (e, policy.id) = m.classOf (e, policy.id)) :
    ActiveGroup m' c d ↔ ActiveGroup m c d := by
  constructor
  · rintro ⟨p, hp, policy', hpolicy', k, hc, hd⟩
    obtain ⟨policy, hpolicy, -, hid⟩ := hsame.symm.policies hpolicy'
    rw [← hid, hclass p policy hpolicy] at hc hd
    exact ⟨p, hsame.policy ▸ hp, policy, hpolicy, k, hc, hd⟩
  · rintro ⟨p, hp, policy, hpolicy, k, hc, hd⟩
    obtain ⟨policy', hpolicy', -, hid⟩ := hsame.policies hpolicy
    rw [← hclass p policy hpolicy, ← hid] at hc hd
    exact ⟨p, hsame.policy.symm ▸ hp, policy', hpolicy', k, hc, hd⟩

/-- Copies of slots that have no policy change no class. -/
theorem Copied.classOf_eq {tgt : PropertyPtr → Prop} (h : IcSystem.Copied s s' c tgt)
    (hno : NoCopy s.toInputContextManager) : s'.classOf = s.classOf := by
  have hsame := h.only.samePolicies
  have hcopied : ∀ {x : PropertyPtr} {f}, s.copyFn x.2 = some f → s'.classOf x = s.classOf x := by
    intro x f hf
    have hslot : s.slotPolicy x.2 = none := hno.slotPolicy_none hf
    have hslot' : s'.slotPolicy x.2 = none := by rw [hsame.slotPolicy, hslot]
    rw [show x = (x.1, x.2) from rfl, classOf_of_slotPolicy_none hslot, classOf_of_slotPolicy_none hslot']
  funext x
  rcases h.cases x with ⟨f, hf, -⟩ | ⟨f, -, hf, -⟩ | hx
  · exact hcopied hf
  · exact hcopied hf
  · exact hsame.classOf hx

theorem Copied.shared {tgt : PropertyPtr → Prop} {G : HeadPtr → List PropertyPtr} (h : IcSystem.Copied s s' c tgt)
    (hno : NoCopy s.toInputContextManager) (hs : Shared s.toInputContextManager G) :
    Shared s'.toInputContextManager G := by
  have hclass := Copied.classOf_eq h hno
  refine ⟨?_, fun x hx => ?_⟩
  · rw [hclass]
    exact h.only.sharedInv hs.inv
  · rw [h.headOf, hclass, h.only.dict]
    exact hs.headed x (h.only.samePolicies.ics ▸ hx)

/-- The slot of a policy is not copied. -/
theorem policy_id_ne {G : HeadPtr → List PropertyPtr} (h : Shared s.toInputContextManager G)
    (hno : NoCopy s.toInputContextManager) {i : ℕ} {f : SetPropertyCallback V} (hf : s.copyFn i = some f)
    {p : PolicyPtr} {policy : SharedStatePolicy V} (hpolicy : s.policies[p]? = some policy) : policy.id ≠ i := by
  intro heq
  have hslot := (h.inv.slots policy.id p).mpr ⟨policy, hpolicy, rfl⟩
  rw [heq, hno.slotPolicy_none hf] at hslot
  cases hslot

/-- **Setting a copied slot** gives the other members of the group a copy. -/
theorem setProperty_value_member {G : HeadPtr → List PropertyPtr} (h : Shared s.toInputContextManager G)
    (hno : NoCopy s.toInputContextManager) (hlt : ∀ e ∈ s.ics, e < s.ctxTop) (hc : c ∈ s.ics) {i : ℕ}
    {slot : PropertySlot V} (hslot : s.propertySlots[i]? = some slot) {f : SetPropertyCallback V}
    (hf : slot.copyProperty = some f) (data : Option V) (hgroup : ActiveGroup s.toInputContextManager c d)
    (hne : d ≠ c) :
    (s.setProperty c i data).value d i = f (s.value d i) (slot.newData (s.value c i) data) := by
  have hlen : i < s.propertySlots.length := (List.getElem?_eq_some_iff.mp hslot).1
  have hfn : s.copyFn i = some f := by rw [copyFn, hslot]; exact hf
  obtain ⟨⟨G₁, h₁⟩, hsame, hprop⟩ := store_spec h hc hslot data
  rw [IcSystem.setProperty, if_neg (by omega), Int.toNat_natCast, hslot]
  dsimp only at hprop hsame ⊢
  have hvalue := s.store_value (c := c) (i := i) slot data
  set s₁ := s.store c i slot data with hs₁
  have htop : s₁.ctxTop = s.ctxTop := rest_ctxTop (store_rest s c i slot data)
  have hcop := propagate_copied h₁ (hsame.ics ▸ hc) (fun e he => htop ▸ hlt e (hsame.ics ▸ he)) i
  have hfn₁ : s₁.copyFn i = some f := by rw [copyFn, hsame.propertySlots, hslot]; exact hf
  -- the groups are those before the value was stored
  have hpushed : Pushed s₁.toInputContextManager c i (d, i) := by
    have hgroup₁ : ActiveGroup s₁.toInputContextManager c d := by
      refine (activeGroup_iff hsame fun p policy hpolicy e => hsame.classOf ?_).mpr hgroup
      rw [hprop (e, policy.id), if_neg fun heq => policy_id_ne h hno hfn hpolicy (Prod.mk.inj heq).2]
    obtain ⟨p, hp, policy, hpolicy, k, hck, hdk⟩ := hgroup₁
    exact ⟨p, hp, policy, hpolicy, hne, ⟨k, hck, hdk⟩, Or.inr rfl⟩
  have hcopied := hcop.copied (d, i) f hpushed hfn₁
  have hold : s₁.value d i = s.value d i := by
    rw [value, hprop (d, i), if_neg fun heq => hne (Prod.mk.inj heq).1]
    rfl
  rw [value, hcopied, hold, hvalue]
  rfl

end groups

/-! ### Steps -/

/-- What sets and copies the state of the input methods. -/
inductive StateOp where
  | set (c : ContextPtr) (item : Option ItemPtr) (isLocal : Bool)
  /-- `fcitx_input_context_copy_state`, of the one slot or of all of them -/
  | copy (c source : ContextPtr) (all : Bool)

namespace Instance

/-- The slot that a copy is about. -/
def copyId (inst : Instance) (all : Bool) : ℤ := if all then -1 else inst.inputMethodStateId

/-- One operation. -/
def stepState (inst : Instance) : StateOp → Instance
  | .set c item isLocal => inst.setInputMethodForInputContext c item isLocal
  | .copy c source all => { inst with icManager := inst.icManager.copyState c source (inst.copyId all) }

/-- The contexts are there, and a copy is between two of one group. -/
def StateOp.Ok (inst : Instance) : StateOp → Prop
  | .set c _ _ => c ∈ inst.icManager.ics
  | .copy c source _ => c ≠ source ∧ ActiveGroup inst.icManager.toInputContextManager c source

/-- **The members of a group have the same arrays** after a set, and a copy has that of its source. -/
def KeepsSame (inst : Instance) : StateOp → Prop
  | .set c item isLocal => ∀ d, ActiveGroup inst.icManager.toInputContextManager c d →
      (inst.stepState (.set c item isLocal)).localInputMethod d =
        (inst.stepState (.set c item isLocal)).localInputMethod c
  | .copy c source all =>
    (inst.stepState (.copy c source all)).localInputMethod c = inst.localInputMethod source ∧
      (inst.stepState (.copy c source all)).localInputMethod source = inst.localInputMethod source

/-- The array of a context that is set. -/
def newArray (inst : Instance) (c : ContextPtr) (item : Option ItemPtr) (isLocal : Bool) :
    Option (List (Option ItemPtr)) :=
  if isLocal then
    some (ptrArraySet ((inst.localInputMethod c).getD (List.replicate inst.globalInputMethod.length none))
      inst.group item)
  else inst.localInputMethod c

/-- The array can be copied, to every other member of the group after a set. -/
def Copyables (inst : Instance) : StateOp → Prop
  | .set c item isLocal => ∀ d, ActiveGroup inst.icManager.toInputContextManager c d → d ≠ c →
      Copyable (inst.localInputMethod d) (inst.newArray c item isLocal)
  | .copy c source _ => Copyable (inst.localInputMethod c) (inst.localInputMethod source)

/-- The slot of the state is registered, and the groups are those of the values. -/
structure ReadyToCopy (inst : Instance) : Prop where
  registered : inst.Registered
  noCopy : NoCopy inst.icManager.toInputContextManager
  shared : ∃ G, Shared inst.icManager.toInputContextManager G
  lt : ∀ c ∈ inst.icManager.ics, c < inst.icManager.ctxTop

variable {inst : Instance}

namespace ReadyToCopy

theorem slot (h : inst.ReadyToCopy) : ∃ i : ℕ, inst.inputMethodStateId = i ∧
    inst.icManager.propertySlots[i]? = some ⟨some inputMethodStateSet, some inputMethodStateCopy, none⟩ := by
  obtain ⟨i, policy, hid, hslot⟩ := h.registered
  cases policy with
  | none => exact ⟨i, hid, hslot⟩
  | some p =>
    have hcopy := h.noCopy _ (List.mem_of_getElem? hslot) (Option.some_ne_none p)
    cases hcopy

theorem localInputMethod_eq {i : ℕ} (hid : inst.inputMethodStateId = i)
    (hlt : i < inst.icManager.propertySlots.length) (c : ContextPtr) :
    inst.localInputMethod c = arrayOf (inst.icManager.value c i) := by
  rw [localInputMethod, hid, InputContextManager.getProperty, if_neg (by omega), Int.toNat_natCast]
  rfl

/-- **Setting** gives the context its new array and the others of its group a copy of it. -/
theorem set_spec (h : inst.ReadyToCopy) {c : ContextPtr} (hc : c ∈ inst.icManager.ics) (item : Option ItemPtr)
    (isLocal : Bool) :
    (inst.stepState (.set c item isLocal)).ReadyToCopy ∧
      (inst.stepState (.set c item isLocal)).localInputMethod c = inst.newArray c item isLocal ∧
      ∀ d, ActiveGroup inst.icManager.toInputContextManager c d → d ≠ c →
        (inst.stepState (.set c item isLocal)).localInputMethod d =
          (inst.newArray c item isLocal).bind fun array => (inst.localInputMethod d).or (some array) := by
  obtain ⟨i, hid, hslot⟩ := h.slot
  obtain ⟨G, hs⟩ := h.shared
  have hlen : i < inst.icManager.propertySlots.length := (List.getElem?_eq_some_iff.mp hslot).1
  set update : InputMethodStateUpdate := ⟨isLocal, item, inst.group, inst.globalInputMethod.length⟩ with hupdate
  set data : Option InstanceProperty := some (.update update) with hdata
  have hstep : (inst.stepState (.set c item isLocal)).icManager = inst.icManager.setProperty c i data := by
    rw [← hid]
    rfl
  have hslots := inst.icManager.setProperty_slots c i data
  have hsame := setProperty_samePolicies hs h.lt hc i data
  have harray : arrayOf (inputMethodStateSet (inst.icManager.value c i) data) = inst.newArray c item isLocal := by
    rw [newArray, localInputMethod_eq hid hlen c]
    cases isLocal <;> rfl
  have hlocal : ∀ e, (inst.stepState (.set c item isLocal)).localInputMethod e =
      arrayOf ((inst.icManager.setProperty c i data).value e i) := by
    intro e
    have hid' : (inst.stepState (.set c item isLocal)).inputMethodStateId = i := hid
    have hlen' : i < (inst.stepState (.set c item isLocal)).icManager.propertySlots.length := by
      rw [hstep, hslots]
      exact hlen
    rw [localInputMethod_eq hid' hlen' e, hstep]
  refine ⟨⟨⟨i, none, hid, ?_⟩, ?_, ?_, ?_⟩, ?_, fun d hgroup hne => ?_⟩
  · rw [hstep, hslots]
    exact hslot
  · intro slot hmem
    rw [hstep, hslots] at hmem
    exact h.noCopy slot hmem
  · rw [hstep]
    exact (setProperty_groups hs h.lt hc i data).shared
      (h.noCopy.keepsKeys (show (IcOp.setProperty c i data).Early inst.icManager from trivial))
  · intro e he
    rw [hstep] at he ⊢
    have htop : (inst.icManager.setProperty c i data).ctxTop = inst.icManager.ctxTop :=
      rest_ctxTop (setProperty_rest inst.icManager c i data)
    rw [htop]
    exact h.lt e (hsame.ics ▸ he)
  · rw [hlocal c, inst.icManager.setProperty_value c hslot data]
    exact harray
  · rw [hlocal d, setProperty_value_member hs h.noCopy h.lt hc hslot rfl data hgroup hne,
      localInputMethod_eq hid hlen d]
    exact (arrayOf_copy _ _).trans (by rw [← harray]; rfl)

/-- **Copying** gives the context a copy, and leaves the source. -/
theorem copy_spec (h : inst.ReadyToCopy) {c source : ContextPtr} (hne : c ≠ source) (all : Bool) :
    (inst.stepState (.copy c source all)).ReadyToCopy ∧
      (inst.stepState (.copy c source all)).localInputMethod c =
        (inst.localInputMethod source).bind (fun array => (inst.localInputMethod c).or (some array)) ∧
      (inst.stepState (.copy c source all)).localInputMethod source = inst.localInputMethod source := by
  obtain ⟨i, hid, hslot⟩ := h.slot
  obtain ⟨G, hs⟩ := h.shared
  have hlen : i < inst.icManager.propertySlots.length := (List.getElem?_eq_some_iff.mp hslot).1
  have hfn : inst.icManager.copyFn i = some inputMethodStateCopy := by rw [copyFn, hslot]; rfl
  have hcop := inst.icManager.copyState_copied hne (inst.copyId all)
  have hsame := hcop.only.samePolicies
  have hstep : (inst.stepState (.copy c source all)).icManager =
      inst.icManager.copyState c source (inst.copyId all) := rfl
  have hlocal : ∀ e, (inst.stepState (.copy c source all)).localInputMethod e =
      arrayOf ((inst.icManager.copyState c source (inst.copyId all)).value e i) := by
    intro e
    have hid' : (inst.stepState (.copy c source all)).inputMethodStateId = i := hid
    have hlen' : i < (inst.stepState (.copy c source all)).icManager.propertySlots.length := by
      rw [hstep, hsame.propertySlots]
      exact hlen
    rw [localInputMethod_eq hid' hlen' e, hstep]
  have htarget : inst.copyId all < 0 ∨ ((i : ℕ) : ℤ) = inst.copyId all := by
    rw [copyId, hid]
    cases all
    · exact Or.inr rfl
    · exact Or.inl (show (-1 : ℤ) < 0 by omega)
  refine ⟨⟨⟨i, none, hid, ?_⟩, ?_, ⟨G, ?_⟩, ?_⟩, ?_, ?_⟩
  · rw [hstep, hsame.propertySlots]
    exact hslot
  · intro slot hmem
    rw [hstep, hsame.propertySlots] at hmem
    exact h.noCopy slot hmem
  · exact Copied.shared hcop h.noCopy hs
  · intro e he
    obtain ⟨properties, hprops⟩ := hcop.only
    rw [hstep, hprops] at he ⊢
    exact h.lt e he
  · rw [hlocal c, value, hcop.copied (c, i) _ ⟨rfl, htarget⟩ hfn, localInputMethod_eq hid hlen,
      localInputMethod_eq hid hlen]
    exact arrayOf_copy _ _
  · rw [hlocal source, localInputMethod_eq hid hlen]
    exact congrArg arrayOf (hcop.value (x := (source, i)) fun htgt => hne htgt.1.symm)

end ReadyToCopy

/-- A copy has the array of its source exactly if it can be copied. -/
theorem bind_or_eq_iff (dst src : Option (List (Option ItemPtr))) :
    (src.bind fun array => dst.or (some array)) = src ↔ Copyable dst src := by
  have h := copies_iff (dst.map fun array => .state ⟨some array⟩) (src.map fun array => .state ⟨some array⟩)
  have harray : ∀ a : Option (List (Option ItemPtr)), arrayOf (a.map fun array => .state ⟨some array⟩) = a := by
    intro a
    cases a <;> rfl
  rw [Copies, arrayOf_copy, harray, harray] at h
  exact h

/-- **One step**: the arrays are the same exactly if they can be copied. -/
theorem keepsSame_iff (h : inst.ReadyToCopy) {op : StateOp} (hok : StateOp.Ok inst op) :
    inst.KeepsSame op ↔ inst.Copyables op := by
  cases op with
  | set c item isLocal =>
    obtain ⟨-, hc, hothers⟩ := h.set_spec hok item isLocal
    constructor
    · intro hsame d hgroup hne
      have hd := hsame d hgroup
      rw [hc, hothers d hgroup hne] at hd
      exact (bind_or_eq_iff _ _).mp hd
    · intro hcopyable d hgroup
      by_cases hne : d = c
      · rw [hne]
      · rw [hc, hothers d hgroup hne]
        exact (bind_or_eq_iff _ _).mpr (hcopyable d hgroup hne)
  | copy c source all =>
    obtain ⟨-, hc, hsource⟩ := h.copy_spec hok.1 all
    rw [KeepsSame, hc, hsource, bind_or_eq_iff]
    exact and_iff_left rfl

theorem stepState_ready (h : inst.ReadyToCopy) {op : StateOp} (hok : StateOp.Ok inst op) :
    (inst.stepState op).ReadyToCopy := by
  cases op with
  | set c item isLocal => exact (h.set_spec hok item isLocal).1
  | copy c source all => exact (h.copy_spec hok.1 all).1

end Instance

open Instance in
/-- **Copying the state**: a copy has the array of its source exactly if there is no other one to keep, and in
a run the members of a group stay the same exactly if this is so at every step. -/
theorem stateCopy_iff (dst src : Option InstanceProperty) {inst : Instance} {ops : List StateOp} (h : inst.ReadyToCopy)
    (hok : Run.Admissible stepState StateOp.Ok inst ops) :
    (Copies dst src ↔ Copyable (arrayOf dst) (arrayOf src)) ∧
      (Run.Admissible stepState KeepsSame inst ops ↔ Run.Admissible stepState Copyables inst ops) := by
  refine ⟨copies_iff dst src, ?_⟩
  induction ops generalizing inst with
  | nil => rfl
  | cons op ops ih =>
    exact and_congr (keepsSame_iff h hok.1) (ih (stepState_ready h hok.1) hok.2)

/-! ### Two contexts -/

/-- The slots of the state and of the name of the program, the policy on the name, and two contexts of one program. -/
def twoIcOps : List (IcOp InstanceProperty) :=
  [.registerProperty [115] (some inputMethodStateSet) (some inputMethodStateCopy),
    .registerProperty [110] (some appNameSet) none, .sharedStatePolicyNew 2 appNamePropertyKey,
    .setSharedStatePolicy 0, .new 0 0 false, .new 1 0 false, .setProperty 0 2 (some (.appName [97])),
    .setProperty 1 2 (some (.appName [97]))]

/-- An instance with these contexts and one group of input methods. -/
def twoIcs : Instance :=
  { Instance.new (AddonManager.new []) [] with
    icManager := IcSystem.run twoIcOps, inputMethodStateId := 1, globalInputMethod := [none] }

theorem twoIcs_ready : twoIcs.ReadyToCopy := by
  have hops : Run.Admissible IcSystem.step (fun s op => op.Ok s ∧ op.Early s) IcSystem.initial twoIcOps := by
    decide +kernel
  have h := run_early hops
  exact ⟨⟨1, none, rfl, rfl⟩, h.2, h.1.shared, fun c hc => h.1.registry.ics_lt hc⟩

open Instance

/-- The first array of a group and a copy of it. -/
theorem stateCopy_twoIcs : Run.Admissible stepState KeepsSame twoIcs [.set 0 (some 5) true, .copy 1 0 false] := by
  have hgroup : ActiveGroup (twoIcs.stepState (.set 0 (some 5) true)).icManager.toInputContextManager 1 0 := by
    refine ⟨0, rfl, ⟨appNamePropertyKey, _, 2⟩, rfl, (0, [97]), ?_, ?_⟩ <;> decide +kernel
  refine (stateCopy_iff none none twoIcs_ready ?_).2.mpr ?_
  · exact ⟨show 0 ∈ twoIcs.icManager.ics by decide +kernel, ⟨by decide, hgroup⟩, trivial⟩
  · refine ⟨fun d hd hne => ?_, ?_, trivial⟩
    · have hall : ∀ d ∈ twoIcs.icManager.ics, d ≠ 0 →
          Copyable (twoIcs.localInputMethod d) (twoIcs.newArray 0 (some 5) true) := by decide +kernel
      exact hall d hd.mem hne
    · show Copyable ((twoIcs.stepState (.set 0 (some 5) true)).localInputMethod 1)
        ((twoIcs.stepState (.set 0 (some 5) true)).localInputMethod 0)
      decide +kernel

/-- After a second input method is set, the other context of the group keeps the first one. -/
theorem not_stateCopy_second :
    ¬ Copies (some (.state ⟨some [some 5]⟩)) (some (.state ⟨some [some 6]⟩)) ∧
      ¬ Run.Admissible stepState KeepsSame twoIcs [.set 0 (some 5) true, .set 0 (some 6) true] := by
  refine ⟨fun h => (by cases h), fun h => ?_⟩
  have hgroup : ActiveGroup (twoIcs.stepState (.set 0 (some 5) true)).icManager.toInputContextManager 0 1 := by
    refine ⟨0, rfl, ⟨appNamePropertyKey, _, 2⟩, rfl, (0, [97]), ?_, ?_⟩ <;> decide +kernel
  have hsame := h.2.1 1 hgroup
  revert hsame
  decide +kernel

end Fcitx
