/-
# Coherence of shared state

With one policy, on a slot that is not copied and active before any property is
set, the members of a group agree on every slot that is copied: a context that
joins a group pushes all its state there, and a value that is set later is
pushed to the whole group. Nobody outside the group is written to. Copying is
assumed to copy: `copyProperty` returns its source.

Key definitions: `SameGroup`, `Coherent`, `IcOp.OnePolicy`, `CoherentRun`.
Key theorems: `setProperty_frame`, `CoherentRun.step`, `run_coherent`.
-/
import Fcitx.InputContext.SharedRun

namespace Fcitx

open InputContextManager IcSystem

variable {V : Type}

/-- Two contexts are in one group list. -/
def SameGroup (m : InputContextManager V) (c d : ContextPtr) : Prop :=
  ∃ policy ∈ m.policies, ∃ head ∈ m.heads,
    (c, policy.id) ∈ m.headEntries head ∧ (d, policy.id) ∈ m.headEntries head

/-- The contexts of one group have equal values for every slot with a `copyProperty`. -/
def Coherent (m : InputContextManager V) : Prop :=
  ∀ c d, SameGroup m c d → ∀ j, (m.copyFn j).isSome → m.value c j = m.value d j

/-- The step keeps to one policy, on a slot that is not copied and active before
any property is set, and to slots whose `copyProperty` returns its source. -/
def IcOp.OnePolicy (s : IcSystem V) : IcOp V → Prop
  | .registerProperty _ _ copyProperty => ∀ f ∈ copyProperty, ∀ old source, f old source = source
  | .sharedStatePolicyNew propertyId _ =>
    s.policies = [] ∧ ∀ slot ∈ s.propertySlots[propertyId.toNat]?, slot.copyProperty = none
  | .setProperty .. => s.policy ≠ none
  | _ => True

theorem sameGroup_iff {m : InputContextManager V} {G : HeadPtr → List PropertyPtr}
    (h : Shared m G) (hlt : ∀ c ∈ m.ics, c < m.ctxTop) {c d : ContextPtr} :
    SameGroup m c d ↔ ∃ policy ∈ m.policies, ∃ k,
      m.classOf (c, policy.id) = some k ∧ m.classOf (d, policy.id) = some k := by
  refine exists_congr fun policy => and_congr_right fun _ => ?_
  constructor
  · rintro ⟨head, hhead, hc, hd⟩
    obtain ⟨k, hk⟩ := (h.inv.heads_iff head).mp hhead
    rw [headEntries_eq h.inv hlt hk, h.inv.classes.mem_iff k head hk] at hc hd
    exact ⟨k, hc, hd⟩
  · rintro ⟨k, hc, hd⟩
    obtain ⟨head, hk⟩ := h.inv.classes.entry _ k hc
    refine ⟨head, (h.inv.heads_iff head).mpr ⟨k, hk⟩, ?_, ?_⟩
    · rw [headEntries_eq h.inv hlt hk, h.inv.classes.mem_iff k head hk]
      exact hc
    · rw [headEntries_eq h.inv hlt hk, h.inv.classes.mem_iff k head hk]
      exact hd

/-! ### Setting a property -/

section setProperty

variable {s : IcSystem V} {G : HeadPtr → List PropertyPtr} {c : ContextPtr}

/-- Where no policy is on a copied slot, pushing changes no class. -/
theorem NoCopy.propagate_classOf (hno : NoCopy s.toInputContextManager)
    (h : Shared s.toInputContextManager G) (hc : c ∈ s.ics) (hlt : ∀ d ∈ s.ics, d < s.ctxTop) (i : ℕ) :
    (s.propagate c i).classOf = s.classOf := by
  refine (propagate_classOf_iff h hc hlt).mpr fun x f _ hf => ?_
  have hslot : s.slotPolicy x.2 = none := hno.slotPolicy_none hf
  have hat : ∀ v, s.classAt x.2 v = none := fun v => by
    rw [classAt, hslot]
  rw [hat, hat]
  exact ⟨(classOf_of_slotPolicy_none hslot).symm, (classOf_of_slotPolicy_none hslot).symm⟩

/-- **Setting a property touches the group of its context only.** -/
theorem setProperty_frame (h : Shared s.toInputContextManager G) (hno : NoCopy s.toInputContextManager)
    (hlt : ∀ c ∈ s.ics, c < s.ctxTop) (hc : c ∈ s.ics) (propertyId : ℤ) (data : Option V)
    {d : ContextPtr} (hd : d ≠ c)
    (hout : ¬ SameGroup (s.setProperty c propertyId data).toInputContextManager c d) (j : ℕ) :
    (s.setProperty c propertyId data).property d j = s.property d j := by
  have hrun := setProperty_groups h hlt hc propertyId data
  obtain ⟨G', h'⟩ := hrun.shared
    (hno.keepsKeys (show (IcOp.setProperty c propertyId data).Early s from trivial))
  have hsame := setProperty_samePolicies h hlt hc propertyId data
  have htop : (s.setProperty c propertyId data).ctxTop = s.ctxTop :=
    rest_ctxTop (setProperty_rest s c propertyId data)
  rw [sameGroup_iff h' fun e he => htop ▸ hlt e (hsame.ics ▸ he)] at hout
  revert hout
  clear hrun h' hsame htop
  unfold setProperty
  split
  · exact fun _ => rfl
  · split
    · exact fun _ => rfl
    · next slot hslot =>
      intro hout
      obtain ⟨⟨G₁, h₁⟩, hsame, hprop⟩ := store_spec h hc hslot data
      set s₁ := s.store c propertyId.toNat slot data with hs₁
      have hc₁ : c ∈ s₁.ics := hsame.ics ▸ hc
      have htop : s₁.ctxTop = s.ctxTop := rest_ctxTop (store_rest s c propertyId.toNat slot data)
      have hlt₁ : ∀ e ∈ s₁.ics, e < s₁.ctxTop := fun e he => htop ▸ hlt e (hsame.ics ▸ he)
      have hno₁ : NoCopy s₁.toInputContextManager := by
        intro slot' hslot'
        rw [hsame.propertySlots] at hslot'
        exact hno slot' hslot'
      have hcop := propagate_copied h₁ hc₁ hlt₁ propertyId.toNat
      -- no copy changes a class, so the group is that of the copies
      have hclass : (s₁.propagate c propertyId.toNat).classOf = s₁.classOf :=
        hno₁.propagate_classOf h₁ hc₁ hlt₁ propertyId.toNat
      have hpolicies : (s₁.propagate c propertyId.toNat).policies = s₁.policies := by
        obtain ⟨a, ha⟩ := hcop.only
        rw [ha]
      have hnot : ∀ j, ¬ Pushed s₁.toInputContextManager c propertyId.toNat (d, j) := by
        rintro j ⟨p, -, policy, hpolicy, -, ⟨k, hk, hk'⟩, -⟩
        refine hout ⟨policy, ?_, k, ?_, ?_⟩
        · rw [hpolicies]
          exact List.mem_of_getElem? hpolicy
        · rw [hclass]
          exact hk
        · rw [hclass]
          exact hk'
      rw [hcop.other (d, j) (fun hp => absurd hp (hnot j)) fun e => absurd e hd, hprop (d, j),
        if_neg fun e => hd (Prod.mk.inj e).1]

/-- Two members of one class agree after a property of `c` is stored and pushed,
if they agreed before. -/
theorem coherent_propagate {i : ℕ} {slot : PropertySlot V} {data : Option V} {policy : SharedStatePolicy V}
    {p : PolicyPtr} (h₁ : Shared (s.store c i slot data).toInputContextManager G)
    (hsame : SamePolicies s.toInputContextManager (s.store c i slot data).toInputContextManager)
    (hprop : ∀ x : PropertyPtr, (s.store c i slot data).property x.1 x.2 =
      if x = (c, i) then
        some ⟨slot.newData (s.value c i) data, (s.store c i slot data).headOf (c, i)⟩
      else s.property x.1 x.2)
    (hcop : Copied (s.store c i slot data) ((s.store c i slot data).propagate c i) c
      (Pushed (s.store c i slot data).toInputContextManager c i))
    (hactive : s.policy = some p) (hpolicy : (s.store c i slot data).policies[p]? = some policy)
    (hcopy : ∀ j f, s.copyFn j = some f → ∀ old source, f old source = source)
    (hold : ∀ a b k, s.classOf (a, policy.id) = some k → s.classOf (b, policy.id) = some k →
      ∀ j, (s.copyFn j).isSome → s.value a j = s.value b j)
    {a b : ContextPtr} {k : ClassKey} (ha : (s.store c i slot data).classOf (a, policy.id) = some k)
    (hb : (s.store c i slot data).classOf (b, policy.id) = some k) {j : ℕ} (hj : (s.copyFn j).isSome) :
    ((s.store c i slot data).propagate c i).value a j =
      ((s.store c i slot data).propagate c i).value b j := by
  set s₁ := s.store c i slot data with hs₁
  set s' := s₁.propagate c i with hs'
  have hfn : s₁.copyFn = s.copyFn := by
    unfold copyFn
    rw [hsame.propertySlots]
  obtain ⟨f, hf⟩ := Option.isSome_iff_exists.mp hj
  have hpolicyOf : ∀ p' ∈ s₁.policy, ∀ policy' ∈ s₁.policies[p']?, policy' = policy := by
    intro p' hp' policy' hpolicy'
    rw [Option.mem_def, hsame.policy, hactive] at hp'
    rw [← Option.some.inj hp', Option.mem_def, hpolicy] at hpolicy'
    exact (Option.some.inj hpolicy').symm
  have hself : ∀ e, ¬ Pushed s₁.toInputContextManager c i (c, e) := fun e hp => hp.ne rfl
  by_cases hpush : s₁.classOf (c, policy.id) = some k ∧ (i = policy.id ∨ j = i)
  · -- both have the value of `c` now
    have hmember : ∀ e, s₁.classOf (e, policy.id) = some k → s'.value e j = s₁.value c j := by
      intro e he
      by_cases hec : e = c
      · rw [hec]
        exact hcop.value (x := (c, j)) (hself j)
      · have hp : Pushed s₁.toInputContextManager c i (e, j) :=
          ⟨p, hsame.policy.trans hactive, policy, hpolicy, hec, ⟨k, hpush.1, he⟩, hpush.2⟩
        rw [value, hcop.copied (e, j) f hp (hfn ▸ hf)]
        exact hcopy j f hf _ _
    rw [hmember a ha, hmember b hb]
  · -- neither is written to
    have hstay : ∀ e, s₁.classOf (e, policy.id) = some k →
        s'.value e j = s.value e j ∧ s.classOf (e, policy.id) = some k := by
      intro e he
      have hnot : ¬ Pushed s₁.toInputContextManager c i (e, j) := by
        rintro ⟨p', hp', policy', hpolicy', -, ⟨k', hk', hek⟩, hij⟩
        obtain rfl := hpolicyOf p' hp' policy' hpolicy'
        obtain rfl : k = k' := Option.some.inj (he.symm.trans hek)
        exact hpush ⟨hk', hij⟩
      have hne : ∀ l, l = j ∨ l = policy.id → ((e, l) : PropertyPtr) ≠ (c, i) := by
        rintro l hl heq
        obtain ⟨rfl, rfl⟩ := Prod.mk.inj heq
        refine hpush ⟨he, ?_⟩
        rcases hl with rfl | rfl
        · exact Or.inr rfl
        · exact Or.inl rfl
      refine ⟨?_, ?_⟩
      · rw [hcop.value (x := (e, j)) hnot, value, hprop (e, j), if_neg (hne j (Or.inl rfl))]
        rfl
      · rw [← he]
        refine (hsame.classOf ?_).symm
        rw [hprop (e, policy.id), if_neg (hne policy.id (Or.inr rfl))]
    obtain ⟨hav, hak⟩ := hstay a ha
    obtain ⟨hbv, hbk⟩ := hstay b hb
    rw [hav, hbv]
    exact hold a b k hak hbk j hj

end setProperty

/-! ### Whole runs -/

/-- The invariant of a run with one active policy. -/
structure CoherentRun (s : IcSystem V) : Prop where
  run : SharedRun s
  noCopy : NoCopy s.toInputContextManager
  /-- there is one policy at most -/
  one : s.policies.length ≤ 1
  /-- the active policy is there -/
  active : ∀ p, s.policy = some p → p < s.policies.length
  /-- nothing is set before the policy is active -/
  unset : s.policy = none → ∀ c ∈ s.ics, ∀ j, s.property c j = none
  /-- there are no entries for slots that do not exist -/
  bounded : ∀ c ∈ s.ics, ∀ j, s.propertySlots.length ≤ j → s.property c j = none
  copy : ∀ j f, s.copyFn j = some f → ∀ old source, f old source = source
  coherent : ∀ policy ∈ s.policies, ∀ c d k, s.classOf (c, policy.id) = some k →
    s.classOf (d, policy.id) = some k → ∀ j, (s.copyFn j).isSome → s.value c j = s.value d j

namespace CoherentRun

variable {s s' : IcSystem V}

theorem lt (h : CoherentRun s) : ∀ c ∈ s.ics, c < s.ctxTop := fun _ hc => h.run.registry.ics_lt hc

theorem early (h : CoherentRun s) {op : IcOp V} (hop : op.OnePolicy s) : op.Early s := by
  cases op with
  | sharedStatePolicyNew propertyId propertyKey =>
    intro _ slot hslot _
    refine ⟨hop.2 slot hslot, fun c hc => h.unset ?_ c hc _⟩
    by_contra hne
    obtain ⟨p, hp⟩ := Option.ne_none_iff_exists'.mp hne
    have := h.active p hp
    rw [hop.1] at this
    exact absurd this (Nat.not_lt_zero p)
  | _ => trivial

theorem mem_of_classOf {m : InputContextManager V} {x : PropertyPtr} {k : ClassKey}
    (h : m.classOf x = some k) : x.1 ∈ m.ics := by
  by_contra hm
  rw [classOf, if_neg hm] at h
  cases h

/-- What a context is in a class for is what it has. -/
theorem classOf_kept {m m' : InputContextManager V} (hk : Kept m m') {c : ContextPtr} {i : ℕ}
    {k : ClassKey} (hc : m'.classOf (c, i) = some k) :
    m.classOf (c, i) = some k ∧ ∀ j, m'.property c j = m.property c j := by
  have hmem : c ∈ m'.ics := mem_of_classOf hc
  rcases hk.live c hmem with ⟨hmem', hprop⟩ | hnone
  · refine ⟨?_, hprop⟩
    -- the contexts may differ, the slots and the policies do not
    have hsame : SamePolicies { m with ics := m'.ics } m' :=
      ⟨rfl, hk.propertySlots, hk.policy, hk.signature⟩
    have hat : m'.classAt = m.classAt := funext fun j => hsame.classAt j
    rw [classOf, if_pos hmem] at hc
    rw [classOf, if_pos hmem', ← hprop i, ← hat]
    exact hc
  · rw [classOf, if_pos hmem, hnone i] at hc
    cases hc

theorem kept (h : CoherentRun s) (hrun : SharedRun s') (hno : NoCopy s'.toInputContextManager)
    (hk : Kept s.toInputContextManager s'.toInputContextManager) : CoherentRun s' := by
  have hlen : s'.policies.length = s.policies.length := by
    simpa using congrArg List.length hk.signature
  have hfn : s'.copyFn = s.copyFn := by
    unfold copyFn
    rw [hk.propertySlots]
  have hnone : ∀ c ∈ s'.ics, ∀ j, (c ∈ s.ics → s.property c j = none) → s'.property c j = none := by
    intro c hc j hj
    rcases hk.live c hc with ⟨hc', hprop⟩ | hno'
    · rw [hprop j, hj hc']
    · exact hno' j
  refine ⟨hrun, hno, hlen ▸ h.one, fun p hp => hlen ▸ h.active p (hk.policy ▸ hp),
    fun hp c hc j => hnone c hc j fun hc' => h.unset (hk.policy ▸ hp) c hc' j,
    fun c hc j hj => hnone c hc j fun hc' => h.bounded c hc' j (hk.propertySlots ▸ hj),
    fun j f hf => h.copy j f (hfn ▸ hf), fun policy hpolicy c d k hc hd j hj => ?_⟩
  obtain ⟨p, hp⟩ := List.getElem?_of_mem hpolicy
  have hsame : SamePolicies s'.toInputContextManager
      { s'.toInputContextManager with policies := s.policies } :=
    ⟨rfl, rfl, rfl, hk.signature.symm⟩
  obtain ⟨policy₀, hp₀, -, hid⟩ := hsame.policies hp
  rw [← hid] at hc hd
  obtain ⟨hc₀, hcp⟩ := classOf_kept hk hc
  obtain ⟨hd₀, hdp⟩ := classOf_kept hk hd
  rw [value, hcp j, value, hdp j]
  exact h.coherent policy₀ (List.mem_of_getElem? hp₀) c d k hc₀ hd₀ j (hfn ▸ hj)

/-- **Setting a property keeps the groups coherent.** -/
theorem setProperty (h : CoherentRun s) {c : ContextPtr} (hc : c ∈ s.ics) {propertyId : ℤ}
    {data : Option V} (hactive : s.policy ≠ none)
    (hrun : SharedRun (s.setProperty c propertyId data))
    (hno : NoCopy (s.setProperty c propertyId data).toInputContextManager) :
    CoherentRun (s.setProperty c propertyId data) := by
  obtain ⟨G, hs⟩ := h.run.shared
  have hsame := setProperty_samePolicies hs h.lt hc propertyId data
  have hlen : (s.setProperty c propertyId data).policies.length = s.policies.length := by
    simpa using congrArg List.length hsame.signature
  have hfn : (s.setProperty c propertyId data).copyFn = s.copyFn := by
    unfold copyFn
    rw [hsame.propertySlots]
  suffices hrest : (∀ d ∈ s.ics, ∀ j, s.propertySlots.length ≤ j →
        (s.setProperty c propertyId data).property d j = none) ∧
      ∀ policy ∈ (s.setProperty c propertyId data).policies, ∀ a b k,
        (s.setProperty c propertyId data).classOf (a, policy.id) = some k →
        (s.setProperty c propertyId data).classOf (b, policy.id) = some k → ∀ j, (s.copyFn j).isSome →
        (s.setProperty c propertyId data).value a j = (s.setProperty c propertyId data).value b j by
    refine ⟨hrun, hno, hlen ▸ h.one, fun p hp => hlen ▸ h.active p (hsame.policy ▸ hp),
      fun hp => absurd (hsame.policy ▸ hp) hactive, fun d hd j hj => ?_,
      fun j f hf => h.copy j f (hfn ▸ hf), fun policy hpolicy a b k ha hb j hj => ?_⟩
    · exact hrest.1 d (hsame.ics ▸ hd) j (hsame.propertySlots ▸ hj)
    · exact hrest.2 policy hpolicy a b k ha hb j (hfn ▸ hj)
  clear hrun hno hsame hlen hfn
  unfold IcSystem.setProperty
  split
  · exact ⟨h.bounded, h.coherent⟩
  · next hin =>
    split
    · exact ⟨h.bounded, h.coherent⟩
    · next slot hslot =>
      set i := propertyId.toNat with hi
      obtain ⟨⟨G₁, h₁⟩, hsame, hprop⟩ := store_spec hs hc hslot data
      have htop : (s.store c i slot data).ctxTop = s.ctxTop := rest_ctxTop (store_rest s c i slot data)
      have hc₁ : c ∈ (s.store c i slot data).ics := hsame.ics ▸ hc
      have hlt₁ : ∀ e ∈ (s.store c i slot data).ics, e < (s.store c i slot data).ctxTop :=
        fun e he => htop ▸ h.lt e (hsame.ics ▸ he)
      have hcop := propagate_copied h₁ hc₁ hlt₁ i
      have hlt : i < s.propertySlots.length := (List.getElem?_eq_some_iff.mp hslot).1
      refine ⟨fun d hd j hj => ?_, fun policy hpolicy a b k ha hb j hj => ?_⟩
      · -- beyond the slots nothing is copied and nothing was stored
        have hnone : (s.store c i slot data).copyFn j = none := by
          rw [copyFn, hsame.propertySlots, List.getElem?_eq_none hj]
          rfl
        have hji : ((d, j) : PropertyPtr) ≠ (c, i) := fun e => by
          have := (Prod.mk.inj e).2
          omega
        rw [hcop.other (d, j) (fun _ => hnone) fun _ _ _ => hnone, hprop (d, j), if_neg hji]
        exact h.bounded d hd j hj
      · have hno₁ : NoCopy (s.store c i slot data).toInputContextManager := by
          intro slot' hslot'
          rw [hsame.propertySlots] at hslot'
          exact h.noCopy slot' hslot'
        have hclass := hno₁.propagate_classOf h₁ hc₁ hlt₁ i
        obtain ⟨p, hp⟩ := Option.ne_none_iff_exists'.mp hactive
        have hpolicies : ((s.store c i slot data).propagate c i).policies =
            (s.store c i slot data).policies := by
          obtain ⟨a, ha⟩ := hcop.only
          rw [ha]
        rw [hpolicies] at hpolicy
        -- the only policy is the active one
        have hlen₁ : (s.store c i slot data).policies.length = s.policies.length := by
          simpa using congrArg List.length hsame.signature
        obtain ⟨q, hq⟩ := List.getElem?_of_mem hpolicy
        have hqp : q = (p : ℕ) := by
          have hqlt : q < (s.store c i slot data).policies.length :=
            (List.getElem?_eq_some_iff.mp hq).1
          rw [hlen₁] at hqlt
          have hplt := Nat.succ_le_of_lt (h.active p hp)
          have hone := h.one
          omega
        subst hqp
        obtain ⟨policy₀, hpolicy₀, -, hid⟩ := hsame.symm.policies hq
        rw [hclass] at ha hb
        refine coherent_propagate h₁ hsame hprop hcop hp hq h.copy (fun a b k ha hb => ?_) ha hb hj
        rw [← hid] at ha hb
        exact h.coherent policy₀ (List.mem_of_getElem? hpolicy₀) a b k ha hb

/-- A new slot has no values yet. -/
theorem registerProperty (h : CoherentRun s) {name : Bytes}
    {setProperty copyProperty : Option (SetPropertyCallback V)}
    (hcopy : ∀ f ∈ copyProperty, ∀ old source, f old source = source)
    (hrun : SharedRun (s.registerProperty name setProperty copyProperty))
    (hno : NoCopy (s.registerProperty name setProperty copyProperty).toInputContextManager) :
    CoherentRun (s.registerProperty name setProperty copyProperty) := by
  set s' := s.registerProperty name setProperty copyProperty with hs'
  obtain ⟨G, hs⟩ := h.run.shared
  have hslots : s'.propertySlots = s.propertySlots ++ [⟨setProperty, copyProperty, none⟩] := rfl
  have hfn : ∀ j, s'.copyFn j = if j = s.propertySlots.length then copyProperty else s.copyFn j := by
    intro j
    unfold copyFn
    rw [hslots, List.getElem?_append]
    by_cases hj : j < s.propertySlots.length
    · rw [if_pos hj, if_neg (Nat.ne_of_lt hj)]
    · rw [if_neg hj, List.getElem?_eq_none (Nat.le_of_not_lt hj), List.getElem?_singleton]
      by_cases he : j = s.propertySlots.length
      · simp [he]
      · have : j - s.propertySlots.length ≠ 0 := by omega
        simp [he, this]
  have hclass : ∀ x k, s'.classOf x = some k → s.classOf x = some k := by
    intro x k hk
    have hat : s'.classAt x.2 = s.classAt x.2 := by
      funext data
      have hsp : s'.slotPolicy x.2 = s.slotPolicy x.2 := by
        unfold slotPolicy
        rw [hslots, List.getElem?_append]
        split
        · rfl
        · next hj =>
          rw [List.getElem?_eq_none (Nat.le_of_not_lt hj), List.getElem?_singleton]
          split <;> rfl
      rw [classAt, hsp]
      rfl
    rw [classOf, hat] at hk
    exact hk
  refine ⟨hrun, hno, h.one, h.active, h.unset, fun c hc j hj => ?_, fun j f hf => ?_,
    fun policy hpolicy c d k hc hd j hj => ?_⟩
  · refine h.bounded c hc j ?_
    rw [hslots, List.length_append] at hj
    exact (Nat.le_add_right _ _).trans hj
  · rw [hfn] at hf
    split at hf
    · exact hcopy f hf
    · exact h.copy j f hf
  · rw [hfn] at hj
    have hc₀ := hclass _ k hc
    have hd₀ := hclass _ k hd
    split at hj
    · next hjl =>
      have hnone : ∀ e l, s.classOf (e, l) = some k → s.property e j = none := fun e l he =>
        h.bounded e (hs.inv.live _ k he).1 j hjl.ge
      show s.value c j = s.value d j
      rw [value, value, hnone c _ hc₀, hnone d _ hd₀]
    · exact h.coherent policy hpolicy c d k hc₀ hd₀ j hj

/-- The policy is made while nothing is set. -/
theorem sharedStatePolicyNew (h : CoherentRun s) {propertyId : ℤ} {propertyKey : Option V → Bytes}
    (hop : (IcOp.sharedStatePolicyNew propertyId propertyKey).OnePolicy s)
    (hrun : SharedRun (s.sharedStatePolicyNew propertyId propertyKey))
    (hno : NoCopy (s.sharedStatePolicyNew propertyId propertyKey).toInputContextManager) :
    CoherentRun (s.sharedStatePolicyNew propertyId propertyKey) := by
  obtain ⟨hempty, hcopy⟩ := hop
  have hinactive : s.policy = none := by
    by_contra hne
    obtain ⟨p, hp⟩ := Option.ne_none_iff_exists'.mp hne
    have := h.active p hp
    rw [hempty] at this
    exact absurd this (Nat.not_lt_zero p)
  revert hrun hno
  unfold IcSystem.sharedStatePolicyNew
  split
  · exact fun _ _ => h
  · split
    · exact fun _ _ => h
    · next slot hslot =>
      split
      · exact fun _ _ => h
      · intro hrun hno
        have hlt := (List.getElem?_eq_some_iff.mp hslot).1
        refine ⟨hrun, hno, ?_, fun p hp => ?_, fun _ => h.unset hinactive,
          fun c hc j _ => h.unset hinactive c hc j, fun j f hf => ?_,
          fun policy _ c d k hc _ => ?_⟩
        · simp [addPolicy, hempty]
        · rw [show (s.addPolicy propertyId.toNat slot propertyKey).policy = s.policy from rfl,
            hinactive] at hp
          cases hp
        · refine h.copy j f ?_
          rw [← hf]
          simp only [copyFn, addPolicy, List.getElem?_set]
          by_cases hj : propertyId.toNat = j
          · subst hj
            simp [hlt, ← (List.getElem?_eq_some_iff.mp hslot).2]
          · simp [hj]
        · -- nobody has a value, so nobody has a class
          have hnone : (s.addPolicy propertyId.toNat slot propertyKey).property c policy.id = none :=
            h.unset hinactive c (mem_of_classOf hc) policy.id
          rw [classOf, if_pos (mem_of_classOf hc), hnone] at hc
          cases hc

/-- **Every step keeps the groups coherent.** -/
theorem step (h : CoherentRun s) {op : IcOp V} (hok : op.Ok s) (hop : op.OnePolicy s) :
    CoherentRun (s.step op) := by
  have hrun := h.run.step hok (h.noCopy.keepsKeys (h.early hop))
  have hno := h.noCopy.step h.run hok (h.early hop)
  obtain ⟨G, hs⟩ := h.run.shared
  cases op with
  | registerProperty name setProperty copyProperty => exact h.registerProperty hop hrun hno
  | sharedStatePolicyNew propertyId propertyKey => exact h.sharedStatePolicyNew hop hrun hno
  | setSharedStatePolicy p =>
    refine ⟨hrun, hno, h.one, fun q hq => ?_, fun hp => ?_, h.bounded, h.copy, h.coherent⟩
    · exact Option.some.inj hq ▸ hok
    · cases hp
  | setProperty c propertyId data => exact h.setProperty hok hop hrun hno
  | _ => exact h.kept hrun hno (step_quiet hs h.run.registry rfl).2

theorem initial : CoherentRun (IcSystem.initial : IcSystem V) := by
  refine ⟨.initial, fun slot hslot => ?_, Nat.zero_le 1, fun p hp => ?_, fun _ c hc => ?_,
    fun c hc => ?_, fun j f hf => ?_, fun policy hp => ?_⟩
  · rw [List.mem_singleton.mp hslot]
    exact fun hne => absurd rfl hne
  · cases hp
  · cases hc
  · cases hc
  · obtain ⟨slot, hslot, hcopy⟩ := Option.bind_eq_some_iff.mp hf
    rw [List.mem_singleton.mp (List.mem_of_getElem? hslot)] at hcopy
    cases hcopy
  · cases hp

end CoherentRun

/-- **Coherence of shared state.** After every run with one policy the members
of a group agree on what is copied, and setting a property of a context changes
no property of a context outside its group. -/
theorem run_coherent (ops : List (IcOp V))
    (h : Run.Admissible IcSystem.step (fun s op => op.Ok s ∧ op.OnePolicy s) IcSystem.initial ops) :
    Coherent (run ops).toInputContextManager ∧
      ∀ c ∈ (run ops).ics, ∀ propertyId data d, d ≠ c →
        ¬ SameGroup ((run ops).setProperty c propertyId data).toInputContextManager c d →
        ∀ j, ((run ops).setProperty c propertyId data).property d j = (run ops).property d j := by
  have hrun : CoherentRun (run ops) :=
    Run.invariant (fun _ _ hs hop => hs.step hop.1 hop.2) .initial h
  obtain ⟨G, hs⟩ := hrun.run.shared
  refine ⟨fun c d hcd j hj => ?_, fun c hc propertyId data d hd hout j => ?_⟩
  · obtain ⟨policy, hpolicy, k, hck, hdk⟩ := (sameGroup_iff hs hrun.lt).mp hcd
    exact hrun.coherent policy hpolicy c d k hck hdk j hj
  · exact setProperty_frame hs hrun.noCopy hrun.lt hc propertyId data hd hout j

/-- The run of the two contexts that share a mode. -/
theorem run_coherent_shared :
    let ops : List (IcOp ℕ) :=
      [.registerProperty "im".toUTF8.toList none none, .sharedStatePolicyNew 1 byteKey,
        .setSharedStatePolicy 0, .new 0 0 false, .new 1 0 false, .setProperty 0 1 (some 1),
        .registerProperty "mode".toUTF8.toList none (some fun _ source => source),
        .setProperty 1 1 (some 1), .setProperty 0 2 (some 5)]
    SameGroup (run ops).toInputContextManager 0 1 ∧ (run ops).value 1 2 = some 5 ∧
      Coherent (run ops).toInputContextManager := by
  intro ops
  have hcopy : ∀ f ∈ some (fun _ source : Option ℕ => source), ∀ old source, f old source = source := by
    rintro f hf old source
    rw [← Option.some.inj hf]
  have hnone : ∀ f ∈ (none : Option (SetPropertyCallback ℕ)), ∀ old source, f old source = source := by
    rintro f hf
    cases hf
  have hok : IcOp.AllOk ops := by decide
  have hone : Run.Admissible IcSystem.step (fun s op => op.OnePolicy s) IcSystem.initial ops :=
    ⟨hnone, ⟨rfl, by decide⟩, trivial, trivial, trivial, show _ ≠ none by decide, hcopy,
      show _ ≠ none by decide, show _ ≠ none by decide, trivial⟩
  refine ⟨?_, by decide, (run_coherent ops (hok.and hone)).1⟩
  show ∃ policy ∈ (run ops).policies, ∃ head ∈ (run ops).heads, _ ∧ _
  decide

end Fcitx
