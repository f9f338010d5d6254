/-
# Shared-state groups over whole runs

Every operation keeps the groups of the policies right but two. A policy that
is made for a slot with values does not look at them, and
`fcitx_input_context_copy_state` writes values without moving them to the group
of their new key, which `fcitx_input_context_set_property` does.
`IcOp.KeepsKeys` excludes both, and the groups are right all along a run
exactly if every step obeys it (`run_groups_iff`). If no policy is on a slot
that is copied, every step does (`run_policyGroups`).

Key definitions: `IcOp.KeepsKeys`, `IcOp.Early`.
Key theorems: `step_groups`, `run_groups_iff`, `run_policyGroups`.
-/
import Fcitx.InputContext.FocusRun
import Fcitx.InputContext.PolicyGroups

namespace Fcitx

open InputContextManager IcSystem

variable {V : Type}

/-! ### The condition on a step -/

namespace InputContextManager

variable (m : InputContextManager V) (c : ContextPtr) (i : ℕ) (slot : PropertySlot V) (data : Option V)

/-- The value of `c` for slot `j` once `data` is set for slot `i`. -/
def valueAfter (j : ℕ) : Option V := if j = i then slot.newData (m.value c i) data else m.value c j

/-- The class of that value. -/
def classAfter (j : ℕ) : Option ClassKey :=
  if j = i then m.classAt i (slot.newData (m.value c i) data) else m.classOf (c, j)

/-- The entry `x` gets a copy when `data` is set for slot `i` of `c`. -/
def Receives (x : PropertyPtr) : Prop :=
  ∃ p ∈ m.policy, ∃ policy ∈ m.policies[p]?, x.1 ≠ c ∧
    (∃ k, m.classAfter c i slot data policy.id = some k ∧ m.classOf (x.1, policy.id) = some k) ∧
    (i = policy.id ∨ x.2 = i)

/-- Every copy has the key of the value it replaces, and no source gets a key by
being asked for. -/
def CopiesKeepKeys : Prop :=
  ∀ x f, m.Receives c i slot data x → m.copyFn x.2 = some f →
    m.classAt x.2 (f (m.value x.1 x.2) (m.valueAfter c i slot data x.2)) = m.classOf x ∧
      (x.2 ≠ i → m.classAt x.2 (m.value c x.2) = m.classOf (c, x.2))

end InputContextManager

/-- A step keeps the values and the groups together: a set property is copied
only to values of the same key, and a new policy finds no values with a key. -/
def IcOp.KeepsKeys (s : IcSystem V) : IcOp V → Prop
  | .setProperty c propertyId data =>
    0 ≤ propertyId → ∀ slot ∈ s.propertySlots[propertyId.toNat]?,
      s.CopiesKeepKeys c propertyId.toNat slot data
  | .sharedStatePolicyNew propertyId propertyKey =>
    0 ≤ propertyId → ∀ slot ∈ s.propertySlots[propertyId.toNat]?, slot.policy = none →
      ∀ c ∈ s.ics, ∀ pr ∈ s.property c propertyId.toNat, propertyKey pr.data = []
  | _ => True

/-- The condition on the state before is the condition on the state in which the
copies are made. -/
theorem copiesKeepKeys_iff {s s' : IcSystem V} {c : ContextPtr} {i : ℕ} {slot : PropertySlot V}
    {data : Option V} (hc : c ∈ s.ics)
    (hsame : SamePolicies s.toInputContextManager s'.toInputContextManager)
    (hprop : ∀ x : PropertyPtr, s'.property x.1 x.2 =
      if x = (c, i) then some ⟨slot.newData (s.value c i) data, s'.headOf (c, i)⟩
      else s.property x.1 x.2) :
    KeysKept s'.toInputContextManager c i ↔ s.CopiesKeepKeys c i slot data := by
  have hclassAt : s'.classAt = s.classAt := funext fun j => hsame.classAt j
  have hfn : s'.copyFn = s.copyFn := by
    unfold copyFn
    rw [hsame.propertySlots]
  have hself : ∀ j, s'.classOf (c, j) = s.classAfter c i slot data j := by
    intro j
    unfold classAfter
    split
    · next hj =>
      subst hj
      have := hprop (c, j)
      rw [if_pos rfl] at this
      rw [classOf_of_property (hsame.ics ▸ hc) this, hclassAt]
    · next hj =>
      refine hsame.classOf ?_
      rw [hprop (c, j), if_neg fun e => hj (Prod.mk.inj e).2]
  have hother : ∀ d j, d ≠ c → s'.classOf (d, j) = s.classOf (d, j) := by
    intro d j hd
    refine hsame.classOf ?_
    rw [hprop (d, j), if_neg fun e => hd (Prod.mk.inj e).1]
  have hvalue : ∀ j, s'.value c j = s.valueAfter c i slot data j := by
    intro j
    rw [value, hprop (c, j), valueAfter]
    by_cases hj : j = i
    · rw [if_pos (by rw [hj]), if_pos hj]
      rfl
    · rw [if_neg fun e => hj (Prod.mk.inj e).2, if_neg hj]
      rfl
  have hvalue' : ∀ d j, d ≠ c → s'.value d j = s.value d j := by
    intro d j hd
    rw [value, hprop (d, j), if_neg fun e => hd (Prod.mk.inj e).1]
    rfl
  have hpushed : ∀ x, Pushed s'.toInputContextManager c i x ↔ s.Receives c i slot data x := by
    intro x
    unfold Pushed Receives
    constructor
    · rintro ⟨p, hp, policy', hpolicy', hne, ⟨k, hk, hk'⟩, hj⟩
      obtain ⟨policy, hpolicy, -, hid⟩ := hsame.symm.policies hpolicy'
      rw [hself, ← hid] at hk
      rw [hother _ _ hne, ← hid] at hk'
      exact ⟨p, hsame.policy ▸ hp, policy, hpolicy, hne, ⟨k, hk, hk'⟩, hid ▸ hj⟩
    · rintro ⟨p, hp, policy, hpolicy, hne, ⟨k, hk, hk'⟩, hj⟩
      obtain ⟨policy', hpolicy', -, hid⟩ := hsame.policies hpolicy
      refine ⟨p, hsame.policy.symm ▸ hp, policy', hpolicy', hne, ⟨k, ?_, ?_⟩, hid.symm ▸ hj⟩
      · rw [hself, hid]
        exact hk
      · rw [hother _ _ hne, hid]
        exact hk'
  unfold KeysKept CopiesKeepKeys
  refine forall_congr' fun x => forall_congr' fun f => ?_
  rw [hpushed, hfn]
  refine forall_congr' fun hx => forall_congr' fun _ => ?_
  have hne : x.1 ≠ c := by
    obtain ⟨-, -, -, -, hne, -⟩ := hx
    exact hne
  rw [hclassAt, hvalue, hvalue' _ _ hne, show s'.classOf x = s.classOf x from hother x.1 x.2 hne, hself]
  refine and_congr_right fun _ => ?_
  by_cases hj : x.2 = i
  · simp [hj, valueAfter, classAfter]
  · simp [hj, valueAfter, classAfter]

/-- Operations on slots, policies and properties. -/
def IcOp.writesProperties : IcOp V → Bool
  | .registerProperty .. | .sharedStatePolicyNew .. | .setSharedStatePolicy .. | .setProperty .. => true
  | _ => false

/-! ### One step -/

section step

variable {s : IcSystem V} {G : HeadPtr → List PropertyPtr}

/-- What is known of the groups after any step: they are right for the values
that the step keeps together with them. -/
structure StepGroups (s' : IcSystem V) (kept : Prop) : Prop where
  groups : ∃ cls G', SharedInv s'.toInputContextManager cls G' ∧
    (∀ x, x.1 ∈ s'.ics → s'.headOf x = (cls x).bind s'.dict) ∧ (s'.classOf = cls ↔ kept)

theorem StepGroups.of_shared {s' : IcSystem V} (h : ∃ G', Shared s'.toInputContextManager G') :
    StepGroups s' True := by
  obtain ⟨G', h⟩ := h
  exact ⟨_, G', h.inv, h.headed, by simp⟩

theorem StepGroups.shared {s' : IcSystem V} {kept : Prop} (h : StepGroups s' kept) (hkept : kept) :
    ∃ G', Shared s'.toInputContextManager G' := by
  obtain ⟨cls, G', hinv, hhead, hiff⟩ := h.groups
  obtain rfl := hiff.mpr hkept
  exact ⟨G', hinv, hhead⟩

theorem StepGroups.kept {s' : IcSystem V} {kept : Prop} (h : StepGroups s' kept)
    (hlaw : GroupsLaw s'.toInputContextManager) (hlt : ∀ c ∈ s'.ics, c < s'.ctxTop) : kept := by
  obtain ⟨cls, G', hinv, -, hiff⟩ := h.groups
  exact hiff.mp (hlaw.classOf_eq hinv hlt)

/-- **Setting a property.** -/
theorem setProperty_groups (h : Shared s.toInputContextManager G) (hlt : ∀ c ∈ s.ics, c < s.ctxTop)
    {c : ContextPtr} (hc : c ∈ s.ics) (propertyId : ℤ) (data : Option V) :
    StepGroups (s.setProperty c propertyId data)
      (IcOp.KeepsKeys s (.setProperty c propertyId data)) := by
  unfold setProperty
  split
  · next hout =>
    -- no such slot: nothing happens
    obtain ⟨cls, G', hinv, hhead, hiff⟩ := (StepGroups.of_shared ⟨G, h⟩).groups
    refine ⟨cls, G', hinv, hhead, hiff.trans (iff_of_true trivial fun hpos slot hslot => ?_)⟩
    have := (List.getElem?_eq_some_iff.mp hslot).1
    omega
  · next hin =>
    have hpos : 0 ≤ propertyId := by omega
    split
    · next hnone =>
      obtain ⟨cls, G', hinv, hhead, hiff⟩ := (StepGroups.of_shared ⟨G, h⟩).groups
      refine ⟨cls, G', hinv, hhead, hiff.trans (iff_of_true trivial fun _ slot hslot => ?_)⟩
      rw [Option.mem_def, hnone] at hslot
      cases hslot
    · next slot hslot =>
      obtain ⟨⟨G₁, h₁⟩, hsame, hprop⟩ := store_spec h hc hslot data
      set s₁ := s.store c propertyId.toNat slot data with hs₁
      have hc₁ : c ∈ s₁.ics := hsame.ics ▸ hc
      have htop : s₁.ctxTop = s.ctxTop := rest_ctxTop (store_rest s c propertyId.toNat slot data)
      have hlt₁ : ∀ d ∈ s₁.ics, d < s₁.ctxTop := fun d hd => htop ▸ hlt d (hsame.ics ▸ hd)
      have hcop := propagate_copied h₁ hc₁ hlt₁ propertyId.toNat
      refine ⟨s₁.classOf, G₁, hcop.only.sharedInv h₁.inv, fun x hx => ?_, ?_⟩
      · rw [hcop.headOf, hcop.only.dict]
        exact h₁.headed x (hcop.only.samePolicies.ics ▸ hx)
      · rw [propagate_classOf_iff h₁ hc₁ hlt₁, copiesKeepKeys_iff hc hsame hprop]
        simp only [IcOp.KeepsKeys, hslot, Option.mem_some_iff, forall_eq', hpos, true_imp_iff]

/-- A new slot has no policy. -/
theorem registerProperty_shared (h : Shared s.toInputContextManager G) (name : Bytes)
    (setProperty copyProperty : Option (SetPropertyCallback V)) :
    Shared (s.registerProperty name setProperty copyProperty).toInputContextManager G := by
  set s' := s.registerProperty name setProperty copyProperty with hs'
  have hslot : ∀ i, s'.slotPolicy i = s.slotPolicy i := by
    intro i
    simp only [hs', registerProperty, slotPolicy, List.getElem?_append]
    split
    · rfl
    · next hi =>
      rw [List.getElem?_eq_none (Nat.le_of_not_lt hi), List.getElem?_singleton]
      split <;> rfl
  have hclass : s'.classOf = s.classOf := by
    funext x
    have hat : s'.classAt = s.classAt := by
      funext i data
      rw [classAt, hslot]
      rfl
    rw [classOf, hat]
    rfl
  refine ⟨?_, fun x hx => ?_⟩
  · rw [hclass]
    refine ⟨h.inv.classes, h.inv.heads_iff, h.inv.heads_lt, h.inv.heads_nodup, h.inv.keys_nodup,
      fun i p => ?_, fun x k hk => ?_⟩
    · rw [hslot]
      exact h.inv.slots i p
    · rw [hslot]
      exact h.inv.live x k hk
  · rw [hclass]
    exact h.headed x hx

section addPolicy

variable {i : ℕ} {slot : PropertySlot V} (propertyKey : Option V → Bytes)

theorem addPolicy_slotPolicy (hslot : s.propertySlots[i]? = some slot) (j : ℕ) :
    (s.addPolicy i slot propertyKey).slotPolicy j =
      if j = i then some s.policies.length else s.slotPolicy j := by
  have hlen : i < s.propertySlots.length := (List.getElem?_eq_some_iff.mp hslot).1
  simp only [addPolicy, slotPolicy, List.getElem?_set]
  by_cases hj : j = i
  · simp [hj, hlen]
  · simp [hj, Ne.symm hj]

theorem addPolicy_policies (p : PolicyPtr) :
    (s.addPolicy i slot propertyKey).policies[p]? =
      if p = s.policies.length then some ⟨propertyKey, [], i⟩ else s.policies[p]? := by
  simp only [addPolicy, List.getElem?_append]
  by_cases hp : p = s.policies.length
  · simp [hp]
  · by_cases hlt : p < s.policies.length
    · simp [hp, hlt]
    · have hgt : s.policies.length < p := lt_of_le_of_ne (Nat.le_of_not_lt hlt) (Ne.symm hp)
      rw [if_neg hlt, if_neg hp, List.getElem?_eq_none hgt.le, List.getElem?_eq_none]
      exact Nat.sub_pos_of_lt hgt

/-- The address of the new policy was not in use. -/
theorem policies_length_none (s : IcSystem V) : s.policies[s.policies.length]? = none :=
  List.getElem?_eq_none le_rfl

/-- The dictionary of a new policy is empty. -/
theorem addPolicy_dict : (s.addPolicy i slot propertyKey).dict = s.dict := by
  funext k
  simp only [dict, dictOf, addPolicy_policies]
  split
  · next hk =>
    rw [hk, policies_length_none]
    rfl
  · rfl

/-- The lists stay as they were. -/
theorem addPolicy_sharedInv (h : Shared s.toInputContextManager G)
    (hslot : s.propertySlots[i]? = some slot) (hpolicy : slot.policy = none) :
    SharedInv (s.addPolicy i slot propertyKey).toInputContextManager s.classOf G := by
  have hslot₀ : s.slotPolicy i = none := by rw [slotPolicy, hslot]; exact hpolicy
  have hid : ∀ {p : ℕ} {policy : SharedStatePolicy V}, s.policies[p]? = some policy →
      policy.id ≠ i := by
    intro p policy hp e
    have := (h.inv.slots policy.id p).mpr ⟨policy, hp, rfl⟩
    rw [e, hslot₀] at this
    cases this
  refine ⟨?_, ?_, h.inv.heads_lt, h.inv.heads_nodup, fun policy hp => ?_, fun j p => ?_,
    fun x k hk => ⟨(h.inv.live x k hk).1, ?_⟩⟩
  · rw [addPolicy_dict]
    exact h.inv.classes
  · rw [addPolicy_dict]
    exact h.inv.heads_iff
  · rcases List.mem_append.mp hp with hp | hp
    · exact h.inv.keys_nodup policy hp
    · rw [List.mem_singleton.mp hp]
      exact List.nodup_nil
  · rw [addPolicy_slotPolicy propertyKey hslot]
    simp only [addPolicy_policies]
    by_cases hj : j = i
    · rw [if_pos hj, Option.some.injEq]
      constructor
      · rintro rfl
        exact ⟨_, if_pos rfl, hj.symm⟩
      · rintro ⟨policy, hp, hpid⟩
        split at hp
        · next e => exact e.symm
        · exact absurd (hpid.trans hj) (hid hp)
    · rw [if_neg hj, h.inv.slots]
      constructor
      · rintro ⟨policy, hp, hpid⟩
        refine ⟨policy, ?_, hpid⟩
        rw [if_neg fun e => by rw [e, policies_length_none] at hp; cases hp]
        exact hp
      · rintro ⟨policy, hp, hpid⟩
        split at hp
        · rw [← Option.some.inj hp] at hpid
          exact absurd hpid.symm hj
        · exact ⟨policy, hp, hpid⟩
  · rw [addPolicy_slotPolicy propertyKey hslot, if_neg fun e => by
      have := (h.inv.live x k hk).2
      rw [e, hslot₀] at this
      cases this]
    exact (h.inv.live x k hk).2

/-- The classes are those of before, and those of the values of the new policy's slot. -/
theorem addPolicy_classOf (h : Shared s.toInputContextManager G)
    (hslot : s.propertySlots[i]? = some slot) (x : PropertyPtr) :
    (s.addPolicy i slot propertyKey).classOf x =
      if x.2 = i ∧ x.1 ∈ s.ics then
        (s.property x.1 i).bind fun pr =>
          if propertyKey pr.data = [] then none else some (s.policies.length, propertyKey pr.data)
      else if x.2 = i then none
      else s.classOf x := by
  obtain ⟨c, j⟩ := x
  have hat : (s.addPolicy i slot propertyKey).classOf (c, j) =
      if c ∈ s.ics then
        (s.property c j).bind fun pr => (s.addPolicy i slot propertyKey).classAt j pr.data
      else none := rfl
  rw [hat]
  by_cases hj : j = i
  · subst hj
    have hclass : ∀ data, (s.addPolicy j slot propertyKey).classAt j data =
        if propertyKey data = [] then none else some (s.policies.length, propertyKey data) := by
      intro data
      rw [classAt, addPolicy_slotPolicy propertyKey hslot, if_pos rfl]
      simp only [keyOf, addPolicy_policies, if_true]
    simp only [hclass, true_and, if_true]
  · have hclass : (s.addPolicy i slot propertyKey).classAt j = s.classAt j := by
      funext data
      rw [classAt, addPolicy_slotPolicy propertyKey hslot, if_neg hj, classAt]
      cases hsp : s.slotPolicy j with
      | none => rfl
      | some p =>
        have hp : p ≠ s.policies.length := by
          rintro rfl
          obtain ⟨policy, hp, -⟩ := (h.inv.slots _ _).mp hsp
          rw [policies_length_none] at hp
          cases hp
        have hkey : (s.addPolicy i slot propertyKey).keyOf p data = s.keyOf p data := by
          simp only [keyOf, addPolicy_policies, if_neg hp]
        simp only [hkey]
    simp only [hj, false_and, if_false, hclass]
    rfl

/-- **A new policy** has no groups, so there should be no keys. -/
theorem addPolicy_groups (h : Shared s.toInputContextManager G)
    (hslot : s.propertySlots[i]? = some slot) (hpolicy : slot.policy = none) :
    StepGroups (s.addPolicy i slot propertyKey)
      (∀ c ∈ s.ics, ∀ pr ∈ s.property c i, propertyKey pr.data = []) := by
  have hslot₀ : s.slotPolicy i = none := by rw [slotPolicy, hslot]; exact hpolicy
  refine ⟨s.classOf, G, addPolicy_sharedInv propertyKey h hslot hpolicy, fun x hx => ?_, ?_⟩
  · rw [addPolicy_dict]
    exact h.headed x hx
  · constructor
    · intro heq c hc pr hpr
      have hci := addPolicy_classOf propertyKey h hslot (c, i)
      rw [heq, classOf_of_slotPolicy_none hslot₀, if_pos ⟨rfl, hc⟩,
        show s.property c i = some pr from hpr, Option.bind_some] at hci
      by_contra hkey
      rw [if_neg hkey] at hci
      cases hci
    · intro hkept
      funext x
      rw [addPolicy_classOf propertyKey h hslot]
      obtain ⟨c, j⟩ := x
      by_cases hj : j = i
      · subst hj
        rw [classOf_of_slotPolicy_none hslot₀]
        split
        · next hc =>
          cases hpr : s.property c j with
          | none => simp
          | some pr => simp [hkept c hc.2 pr hpr]
        · simp
      · simp [hj]

end addPolicy

theorem sharedStatePolicyNew_groups (h : Shared s.toInputContextManager G) (propertyId : ℤ)
    (propertyKey : Option V → Bytes) :
    StepGroups (s.sharedStatePolicyNew propertyId propertyKey)
      (IcOp.KeepsKeys s (.sharedStatePolicyNew propertyId propertyKey)) := by
  have hstay : IcOp.KeepsKeys s (.sharedStatePolicyNew propertyId propertyKey) →
      StepGroups s (IcOp.KeepsKeys s (.sharedStatePolicyNew propertyId propertyKey)) := by
    intro hkept
    obtain ⟨cls, G', hinv, hhead, hiff⟩ := (StepGroups.of_shared ⟨G, h⟩).groups
    exact ⟨cls, G', hinv, hhead, hiff.trans (iff_of_true trivial hkept)⟩
  unfold sharedStatePolicyNew
  split
  · refine hstay fun hpos slot hslot => ?_
    have := (List.getElem?_eq_some_iff.mp hslot).1
    omega
  · split
    · next hnone =>
      refine hstay fun _ slot hslot => ?_
      rw [Option.mem_def, hnone] at hslot
      cases hslot
    · next hin _ slot hslot =>
      have hpos : 0 ≤ propertyId := by omega
      split
      · next hsome =>
        refine hstay fun _ slot' hslot' hno => ?_
        rw [Option.mem_def, hslot] at hslot'
        rw [Option.some.inj hslot', hno] at hsome
        cases hsome
      · next hno =>
        have hpolicy : slot.policy = none := by simpa using hno
        obtain ⟨cls, G', hinv, hhead, hiff⟩ :=
          (addPolicy_groups propertyKey h hslot hpolicy).groups
        refine ⟨cls, G', hinv, hhead, hiff.trans ?_⟩
        simp only [IcOp.KeepsKeys, hslot, Option.mem_some_iff, forall_eq', hpos, true_imp_iff, hpolicy]

/-- Setting a property changes no slot, no policy and no context. -/
theorem setProperty_samePolicies (h : Shared s.toInputContextManager G)
    (hlt : ∀ c ∈ s.ics, c < s.ctxTop) {c : ContextPtr} (hc : c ∈ s.ics) (propertyId : ℤ)
    (data : Option V) :
    SamePolicies s.toInputContextManager (s.setProperty c propertyId data).toInputContextManager := by
  unfold setProperty
  split
  · exact .refl _
  · split
    · exact .refl _
    · next slot hslot =>
      obtain ⟨⟨G₁, h₁⟩, hsame, -⟩ := store_spec h hc hslot data
      have htop := rest_ctxTop (store_rest s c propertyId.toNat slot data)
      exact hsame.trans (propagate_copied h₁ (hsame.ics ▸ hc)
        (fun d hd => htop ▸ hlt d (hsame.ics ▸ hd)) propertyId.toNat).only.samePolicies

/-- The other operations keep the groups and what is in them. -/
theorem step_quiet (h : Shared s.toInputContextManager G) (hreg : Registry s.toInputContextManager)
    {op : IcOp V} (hop : op.writesProperties = false) :
    (∃ G', Shared (s.step op).toInputContextManager G') ∧
      Kept s.toInputContextManager (s.step op).toInputContextManager := by
  have hsame : ∀ {s' : IcSystem V}, SameShared s.toInputContextManager s'.toInputContextManager →
      (∃ G', Shared s'.toInputContextManager G') ∧
        Kept s.toInputContextManager s'.toInputContextManager :=
    fun hs => ⟨⟨G, hs.shared h⟩, hs.kept⟩
  cases op with
  | new uuid frontend notify =>
    have htop : s.ctxTop ∉ s.ics := fun hm => absurd (hreg.ics_lt hm) (Nat.lt_irrefl _)
    obtain ⟨h₁, hk₁⟩ := new_shared h (fun c hc => hreg.free_notMem hc) htop uuid frontend notify
    exact ⟨⟨G, h₁⟩, hk₁⟩
  | destroy c => exact destroy_shared h hreg.ics_nodup c
  | focusGroupNew => exact hsame ⟨rfl, rfl, rfl, rfl, rfl, rfl, rfl, rfl⟩
  | focusGroupFree g => exact hsame (s.focusGroupFree_sameShared g)
  | setFocusGroup c type group =>
    refine hsame ?_
    simp only [step, setFocusGroup]
    split
    · exact .refl _
    · exact s._setFocusGroup_sameShared c _
  | focusIn c => exact hsame (s.focusIn_sameShared c)
  | focusOut c => exact hsame (s.focusOut_sameShared c)
  | setCapabilityFlags c flags =>
    refine hsame ?_
    simp only [step, setCapabilityFlags]
    split
    · exact s.modify_emit_sameShared _ _ _ _
    · exact .refl _
  | setCursorRect c rect =>
    refine hsame ?_
    simp only [step, setCursorRect]
    split
    · exact s.modify_emit_sameShared _ _ _ _
    · exact .refl _
  | setSurroundingText c str cursor anchor =>
    refine hsame ?_
    simp only [step, setSurroundingText]
    split
    · exact .refl _
    · split
      · exact s.modify_emit_sameShared _ _ _ _
      · exact .refl _
  | deleteSurroundingText c offset length => exact hsame (s.modify_emit_sameShared _ _ _ _)
  | reset c => exact hsame (s.emit_sameShared _ _ _)
  | commitString c str => exact hsame (s.emit_sameShared _ _ _)
  | updatePreedit c => exact hsame (s.emit_sameShared _ _ _)
  | forwardKey c key => exact hsame (s.emit_sameShared _ _ _)
  | _ => cases hop

/-- **Every step**, on a manager whose tables are in order. -/
theorem step_groups (h : Shared s.toInputContextManager G) (hreg : Registry s.toInputContextManager)
    {op : IcOp V} (hok : op.Ok s) : StepGroups (s.step op) (op.KeepsKeys s) := by
  cases op with
  | registerProperty name setProperty copyProperty =>
    exact .of_shared ⟨G, registerProperty_shared h name setProperty copyProperty⟩
  | sharedStatePolicyNew propertyId propertyKey =>
    exact sharedStatePolicyNew_groups h propertyId propertyKey
  | setSharedStatePolicy p =>
    exact .of_shared ⟨G, ⟨h.inv.classes, h.inv.heads_iff, h.inv.heads_lt, h.inv.heads_nodup,
      h.inv.keys_nodup, h.inv.slots, h.inv.live⟩, h.headed⟩
  | setProperty c propertyId data =>
    exact setProperty_groups h (fun c hc => hreg.ics_lt hc) hok propertyId data
  | _ => exact .of_shared (step_quiet h hreg rfl).1

end step

/-! ### Whole runs -/

/-- The tables are in order and the groups are right. -/
structure SharedRun (s : IcSystem V) : Prop where
  tables : ∃ gs L, IcInv (fun _ => True) s gs L
  shared : ∃ G, Shared s.toInputContextManager G

theorem anything_traceProperty : TraceProperty (fun _ : IcSystem V => True) :=
  ⟨fun _ _ _ _ => trivial, fun _ _ _ _ _ => trivial, fun _ _ _ _ _ => trivial,
    fun _ _ _ _ _ => trivial, fun _ _ _ _ => trivial, fun _ _ _ _ _ _ _ _ _ => trivial⟩

namespace SharedRun

variable {s : IcSystem V}

theorem registry (h : SharedRun s) : Registry s.toInputContextManager := by
  obtain ⟨gs, L, hinv⟩ := h.tables
  exact hinv.registry

theorem groupsLaw (h : SharedRun s) : GroupsLaw s.toInputContextManager := by
  obtain ⟨G, hs⟩ := h.shared
  exact hs.groupsLaw fun c hc => h.registry.ics_lt hc

theorem initial : SharedRun (IcSystem.initial : IcSystem V) := by
  refine ⟨⟨_, _, IcInv.initial trivial⟩, fun _ => [], ⟨⟨⟨?_, ?_⟩, ?_, ?_, ?_, ?_⟩, ?_, ?_, ?_, ?_,
    fun i p => ?_, ?_⟩, ?_⟩
  · rintro h ⟨k, hk⟩
    cases hk
  · rintro h h' e ⟨k, hk⟩
    cases hk
  · intro k k' h hk
    cases hk
  · intro k h hk
    cases hk
  · intro e k hk
    cases hk
  · intro k h hk
    cases hk
  · intro h
    constructor
    · intro hm
      cases hm
    · rintro ⟨k, hk⟩
      cases hk
  · intro h hm
    cases hm
  · exact List.nodup_nil
  · intro policy hm
    cases hm
  · constructor
    · intro hi
      simp only [slotPolicy, IcSystem.initial, managerNew, registerProperty, setEventDispatcher,
        _focusGroupNew, List.nil_append, List.getElem?_singleton] at hi
      split at hi <;> cases hi
    · rintro ⟨policy, hp, -⟩
      cases hp
  · intro x k hk
    cases hk
  · intro x hx
    cases hx

theorem tables_step (h : SharedRun s) {op : IcOp V} (hok : op.Ok s) :
    ∃ gs L, IcInv (fun _ => True) (s.step op) gs L := by
  obtain ⟨gs, L, hinv⟩ := h.tables
  exact hinv.step anything_traceProperty hok fun _ _ _ _ _ => trivial

theorem step (h : SharedRun s) {op : IcOp V} (hok : op.Ok s) (hkeeps : op.KeepsKeys s) :
    SharedRun (s.step op) := by
  obtain ⟨G, hs⟩ := h.shared
  exact ⟨h.tables_step hok, (step_groups hs h.registry hok).shared hkeeps⟩

theorem run {ops : List (IcOp V)}
    (h : Run.Admissible IcSystem.step (fun s op => op.Ok s ∧ op.KeepsKeys s) IcSystem.initial ops) :
    SharedRun (IcSystem.run ops) :=
  Run.invariant (fun _ _ hs hop => hs.step hop.1 hop.2) initial h

end SharedRun

/-- **The groups are right all along a run if and only if every step keeps keys
and values together.** -/
theorem run_groups_iff (ops : List (IcOp V)) (h : IcOp.AllOk ops) :
    (∀ before, before <+: ops → GroupsLaw (run before).toInputContextManager) ↔
      Run.Admissible IcSystem.step (fun s op => op.KeepsKeys s) IcSystem.initial ops := by
  constructor
  · intro hlaw
    induction ops using List.reverseRecOn with
    | nil => trivial
    | append_singleton ops op ih =>
      obtain ⟨hops, hop, -⟩ := Run.admissible_append.mp h
      have hkeeps := ih hops fun before hb => hlaw before (hb.trans (List.prefix_append _ _))
      have hrun : SharedRun (run ops) := .run (hops.and hkeeps)
      obtain ⟨G, hs⟩ := hrun.shared
      obtain ⟨gs, L, htables⟩ := hrun.tables_step hop
      have hafter := hlaw (ops ++ [op]) (List.prefix_refl _)
      rw [run, Run.exec_append] at hafter
      exact Run.admissible_append.mpr ⟨hkeeps, (step_groups hs hrun.registry hop).kept hafter
        fun c hc => htables.registry.ics_lt hc, trivial⟩
  · rintro hkeeps before ⟨after, rfl⟩
    exact (SharedRun.run ((Run.admissible_append.mp h).1.and
      (Run.admissible_append.mp hkeeps).1)).groupsLaw

/-! ### Policies on slots that are not copied -/

/-- A policy is made before its property is first set, on a slot without `copyProperty`. -/
def IcOp.Early (s : IcSystem V) : IcOp V → Prop
  | .sharedStatePolicyNew propertyId _ =>
    0 ≤ propertyId → ∀ slot ∈ s.propertySlots[propertyId.toNat]?, slot.policy = none →
      slot.copyProperty = none ∧ ∀ c ∈ s.ics, s.property c propertyId.toNat = none
  | _ => True

instance (s : IcSystem V) : ∀ op : IcOp V, Decidable (op.Early s)
  | .sharedStatePolicyNew propertyId _ =>
    inferInstanceAs (Decidable (0 ≤ propertyId → ∀ slot ∈ s.propertySlots[propertyId.toNat]?,
      slot.policy = none →
        slot.copyProperty = none ∧ ∀ c ∈ s.ics, s.property c propertyId.toNat = none))
  | .new .. | .destroy .. | .focusGroupNew | .focusGroupFree .. | .setFocusGroup .. | .focusIn ..
  | .focusOut .. | .setCapabilityFlags .. | .setCursorRect .. | .setSurroundingText ..
  | .deleteSurroundingText .. | .reset .. | .commitString .. | .updatePreedit .. | .forwardKey ..
  | .registerProperty .. | .setSharedStatePolicy .. | .setProperty .. => .isTrue trivial

/-- No slot has both a policy and a `copyProperty`. -/
def NoCopy (m : InputContextManager V) : Prop :=
  ∀ slot ∈ m.propertySlots, slot.policy ≠ none → slot.copyProperty = none

theorem NoCopy.slotPolicy_none {m : InputContextManager V} (h : NoCopy m) {i : ℕ}
    {f : SetPropertyCallback V} (hf : m.copyFn i = some f) : m.slotPolicy i = none := by
  obtain ⟨slot, hslot, hcopy⟩ := Option.bind_eq_some_iff.mp hf
  rw [slotPolicy, hslot, Option.bind_some]
  by_contra hne
  rw [h slot (List.mem_of_getElem? hslot) hne] at hcopy
  cases hcopy

/-- Without such slots no copy has a key. -/
theorem NoCopy.keepsKeys {s : IcSystem V} (h : NoCopy s.toInputContextManager) {op : IcOp V}
    (hearly : op.Early s) : op.KeepsKeys s := by
  cases op with
  | setProperty c propertyId data =>
    intro _ slot _ x f _ hf
    have hno := h.slotPolicy_none hf
    have hat : ∀ data, s.classAt x.2 data = none := fun data => by rw [classAt, hno]
    rw [hat, hat]
    exact ⟨(classOf_of_slotPolicy_none hno).symm, fun _ => (classOf_of_slotPolicy_none hno).symm⟩
  | sharedStatePolicyNew propertyId propertyKey =>
    intro hpos slot hslot hpolicy c hc pr hpr
    rw [(hearly hpos slot hslot hpolicy).2 c hc] at hpr
    cases hpr
  | _ => trivial

theorem NoCopy.step {s : IcSystem V} (h : NoCopy s.toInputContextManager) (hrun : SharedRun s)
    {op : IcOp V} (hok : op.Ok s) (hearly : op.Early s) : NoCopy (s.step op).toInputContextManager := by
  obtain ⟨G, hs⟩ := hrun.shared
  have hquiet : op.writesProperties = false → NoCopy (s.step op).toInputContextManager := by
    intro hop slot hslot
    rw [(step_quiet hs hrun.registry hop).2.propertySlots] at hslot
    exact h slot hslot
  cases op with
  | registerProperty name setProperty copyProperty =>
    intro slot hslot hpolicy
    rcases List.mem_append.mp hslot with hslot | hslot
    · exact h slot hslot hpolicy
    · rw [List.mem_singleton.mp hslot] at hpolicy
      exact absurd rfl hpolicy
  | sharedStatePolicyNew propertyId propertyKey =>
    simp only [IcSystem.step, sharedStatePolicyNew]
    split
    · exact h
    · split
      · exact h
      · next slot hslot =>
        split
        · exact h
        · next hno =>
          intro slot' hslot' hpolicy'
          rcases List.mem_or_eq_of_mem_set hslot' with hslot' | rfl
          · exact h slot' hslot' hpolicy'
          · exact (hearly (by omega) slot hslot (by simpa using hno)).1
  | setSharedStatePolicy p => exact h
  | setProperty c propertyId data =>
    intro slot hslot
    have hsame := setProperty_samePolicies hs (fun c hc => hrun.registry.ics_lt hc) hok propertyId data
    rw [show (s.step (.setProperty c propertyId data)).propertySlots = s.propertySlots from
      hsame.propertySlots] at hslot
    exact h slot hslot
  | _ => exact hquiet rfl

/-- The invariant of a run whose policies are made early. -/
theorem run_early {ops : List (IcOp V)}
    (h : Run.Admissible IcSystem.step (fun s op => op.Ok s ∧ op.Early s) IcSystem.initial ops) :
    SharedRun (run ops) ∧ NoCopy (run ops).toInputContextManager := by
  refine Run.invariant (P := fun s => SharedRun s ∧ NoCopy s.toInputContextManager)
    (fun s op hs hop => ?_) ⟨.initial, fun slot hslot => ?_⟩ h
  · exact ⟨hs.1.step hop.1 (hs.2.keepsKeys hop.2), hs.2.step hs.1 hop.1 hop.2⟩
  · rw [List.mem_singleton.mp hslot]
    exact fun hne => absurd rfl hne

/-- Such a run obeys the condition of `run_groups_iff`. -/
theorem keepsKeys_of_early {ops : List (IcOp V)}
    (h : Run.Admissible IcSystem.step (fun s op => op.Ok s ∧ op.Early s) IcSystem.initial ops) :
    Run.Admissible IcSystem.step (fun s op => op.KeepsKeys s) IcSystem.initial ops := by
  rw [Run.admissible_iff]
  rintro before op after rfl
  obtain ⟨hbefore, ⟨-, hearly⟩, -⟩ := Run.admissible_append.mp h
  exact (run_early hbefore).2.keepsKeys hearly

/-- **The groups of a policy are the classes of its key**, after every run in
which policies are made early and on slots that are not copied. -/
theorem run_policyGroups (ops : List (IcOp V))
    (h : Run.Admissible IcSystem.step (fun s op => op.Ok s ∧ op.Early s) IcSystem.initial ops) :
    ∀ policy ∈ (run ops).policies, PolicyGroups (run ops).toInputContextManager policy :=
  (run_early h).1.groupsLaw

/-! ### Two runs -/

/-- A key of one byte; NULL has none. -/
def byteKey : Option ℕ → Bytes
  | some n => [n.toUInt8]
  | none => []

/-- Two contexts of one group, a value that is copied, and the first one leaves. -/
def sharedOps : List (IcOp ℕ) :=
  [.registerProperty "im".toUTF8.toList none none,
    .registerProperty "mode".toUTF8.toList none (some fun _ source => source),
    .sharedStatePolicyNew 1 byteKey, .setSharedStatePolicy 0, .new 0 0 false, .new 1 0 false,
    .setProperty 0 1 (some 1), .setProperty 1 1 (some 1), .setProperty 0 2 (some 5), .destroy 0]

/-- The same with a second policy, on the slot that is copied. -/
def copiedOps : List (IcOp ℕ) :=
  [.registerProperty "im".toUTF8.toList none none,
    .registerProperty "mode".toUTF8.toList none (some fun _ source => source),
    .sharedStatePolicyNew 1 byteKey, .sharedStatePolicyNew 2 byteKey, .setSharedStatePolicy 0,
    .new 0 0 false, .new 1 0 false, .setProperty 0 1 (some 1), .setProperty 1 1 (some 1),
    .setProperty 0 2 (some 5)]

theorem run_policyGroups_shared :
    Run.Admissible IcSystem.step (fun s op => op.Ok s ∧ op.Early s) IcSystem.initial sharedOps ∧
      ∀ policy ∈ (run sharedOps).policies, PolicyGroups (run sharedOps).toInputContextManager policy := by
  have h : Run.Admissible IcSystem.step (fun s op => op.Ok s ∧ op.Early s) IcSystem.initial sharedOps := by
    decide
  exact ⟨h, run_policyGroups sharedOps h⟩

theorem run_groups_iff_shared :
    IcOp.AllOk sharedOps ∧
      ∀ before, before <+: sharedOps → GroupsLaw (run before).toInputContextManager := by
  have h : Run.Admissible IcSystem.step (fun s op => op.Ok s ∧ op.Early s) IcSystem.initial sharedOps := by
    decide
  have hok : IcOp.AllOk sharedOps := h.mono fun _ _ hop => hop.1
  exact ⟨hok, (run_groups_iff sharedOps hok).mpr (keepsKeys_of_early h)⟩

/-- The copy has the key of the value, and no head. -/
theorem not_groupsLaw_copied :
    IcOp.AllOk copiedOps ∧ ¬ GroupsLaw (run copiedOps).toInputContextManager := by
  refine ⟨by decide, fun h => ?_⟩
  have hmem : ∃ policy ∈ (run copiedOps).policies, policy.id = 2 ∧
      (run copiedOps).headOf (1, policy.id) ≠
        if (run copiedOps).keyIn policy 1 = [] then none
        else policy.propertyDict.lookup ((run copiedOps).keyIn policy 1) := by
    decide
  obtain ⟨policy, hpolicy, -, hne⟩ := hmem
  exact hne ((h policy hpolicy).pointer 1 (by decide))

end Fcitx
