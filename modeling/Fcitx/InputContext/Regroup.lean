/-
# Moving between shared-state groups

What `fcitx_input_context_set_property` does about its own context, and what
making and destroying contexts does, keeps `Shared`: the property leaves the
group of its old key and joins that of the new one, and a context that is
destroyed takes all its properties out. The functions that deal with the focus
touch none of this (`SameShared`).

Key definitions: `SameShared`.
Key theorems: `leaveGroup_spec`, `joinGroup_spec`, `store_spec`,
`propertiesFree_spec`, `new_shared`, `destroy_shared`.
-/
import Fcitx.InputContext.SharedState
import Fcitx.InputContext.PropertyFrame
import Fcitx.InputContext.FocusInvariant

namespace Fcitx

open InputContextManager

variable {V : Type}

namespace IcSystem

variable {s : IcSystem V} {cls : PropertyPtr → Option ClassKey} {G : HeadPtr → List PropertyPtr}
  {c : ContextPtr} {i : ℕ} {p : PolicyPtr}

/-! ### Setting a property -/

/-- Leaving the old group, if the property is in one. -/
theorem leaveGroup_spec (h : SharedInv s.toInputContextManager cls G) {pr : Property V}
    (hpr : s.property c i = some pr) (hslot : s.slotPolicy i = some p)
    (hhead : pr.head = (cls (c, i)).bind s.dict)
    (hkey : ∀ k, cls (c, i) = some k → s.keyOf k.1 pr.data = k.2) :
    let s' := s.leaveGroup c i p
    (∃ G', SharedInv s'.toInputContextManager (Function.update cls (c, i) none) G') ∧
      SamePolicies s.toInputContextManager s'.toInputContextManager ∧
      (∀ x : PropertyPtr, s'.property x.1 x.2 =
        if x = (c, i) then some { pr with head := none } else s.property x.1 x.2) ∧
      ∀ k h, s'.dict k = some h → s.dict k = some h := by
  have hbind : (s.property c i).bind (·.head) = pr.head := by rw [hpr]; rfl
  unfold leaveGroup
  rw [hbind]
  cases hcls : cls (c, i) with
  | none =>
    have hnone : pr.head = none := by rw [hhead, hcls]; rfl
    rw [hnone]
    refine ⟨⟨G, ?_⟩, .refl _, fun x => ?_, fun _ _ => id⟩
    · rwa [← hcls, Function.update_eq_self]
    · by_cases hx : x = (c, i)
      · rw [if_pos hx, hx, hpr, ← hnone]
      · rw [if_neg hx]
  | some k =>
    obtain ⟨head, hk⟩ := h.classes.entry _ _ hcls
    have hp : k.1 = p := Option.some.inj (((h.live _ _ hcls).2).symm.trans hslot)
    have hsome : pr.head = some head := by
      rw [hhead, hcls]
      exact hk
    rw [hsome]
    obtain ⟨q, key⟩ := k
    obtain rfl : q = p := hp
    have hvalue : s.value c i = pr.data := by
      rw [value, hpr]
      rfl
    obtain ⟨⟨G', hinv⟩, hsame, hprops, hdict⟩ :=
      leaveHead_spec h hcls hk (by rw [hvalue]; exact hkey _ hcls)
    have honly := modifyProperty_only (s.leaveHead c i q head) c i fun pr => { pr with head := none }
    have hproperty : ∀ x : PropertyPtr,
        (s.leaveHead c i q head).property x.1 x.2 = s.property x.1 x.2 := fun x => by
      rw [property, hprops]
      rfl
    refine ⟨⟨G', honly.sharedInv hinv⟩, hsame.trans honly.samePolicies, fun x => ?_, fun k h' hk' => ?_⟩
    · rw [modifyProperty_property, hproperty (c, i), hproperty x, hpr]
      rfl
    · rw [honly.dict] at hk'
      exact hdict k h' hk'

/-- Joining the group of the new key, if it is a key. -/
theorem joinGroup_spec (h : SharedInv s.toInputContextManager cls G) {pr : Property V}
    (hpr : s.property c i = some pr) (hhead : pr.head = none) (hslot : s.slotPolicy i = some p)
    (hcls : cls (c, i) = none) (hc : c ∈ s.ics) :
    let s' := s.joinGroup c i p
    let k := s.classAt i pr.data
    (∃ G', SharedInv s'.toInputContextManager (Function.update cls (c, i) k) G') ∧
      SamePolicies s.toInputContextManager s'.toInputContextManager ∧
      (∀ x : PropertyPtr, s'.property x.1 x.2 =
        if x = (c, i) then some { pr with head := k.bind s'.dict } else s.property x.1 x.2) ∧
      ∀ k h, s.dict k = some h → s'.dict k = some h := by
  obtain ⟨policy, hp, hid⟩ := (h.slots i p).mp hslot
  have hvalue : s.value c i = pr.data := by
    rw [value, hpr]
    rfl
  have hkey : s.keyOf p pr.data = policy.propertyKey pr.data := by
    rw [keyOf, hp]
  have hclass : s.classAt i pr.data =
      if policy.propertyKey pr.data = [] then none else some (p, policy.propertyKey pr.data) := by
    rw [classAt, hslot]
    simp only [hkey]
  unfold joinGroup
  simp only [hp, hvalue, hclass]
  by_cases hempty : policy.propertyKey pr.data = []
  · simp only [hempty, if_true]
    refine ⟨⟨G, ?_⟩, .refl _, fun x => ?_, fun _ _ => id⟩
    · rwa [← hcls, Function.update_eq_self]
    · by_cases hx : x = (c, i)
      · rw [if_pos hx, hx, hpr, Option.bind_none, ← hhead]
      · rw [if_neg hx]
  · simp only [hempty, if_false]
    obtain ⟨⟨G', hinv⟩, hsame, hprops, hdict, hmono⟩ :=
      headFor_spec (policy.propertyKey pr.data) h hcls hc hslot hp
    set head := (s.headFor p policy (policy.propertyKey pr.data)).1 with hheaddef
    set s₁ := (s.headFor p policy (policy.propertyKey pr.data)).2.linkProperty c i head with hs₁
    have honly := modifyProperty_only s₁ c i fun pr => { pr with head := some head }
    have hproperty : ∀ x : PropertyPtr, s₁.property x.1 x.2 = s.property x.1 x.2 := fun x => by
      rw [property, hprops]
      rfl
    refine ⟨⟨G', honly.sharedInv hinv⟩, hsame.trans honly.samePolicies, fun x => ?_, fun k h' hk' => ?_⟩
    · rw [modifyProperty_property, hproperty (c, i), hproperty x, hpr, Option.bind_some, honly.dict,
        hdict]
      rfl
    · rw [honly.dict]
      exact hmono k h' hk'

/-- An assignment that agrees with the dictionaries of two states gives the
same heads. -/
theorem bind_dict_eq {d d' : ClassKey → Option HeadPtr} {o : Option ClassKey}
    (hsome : ∀ k, o = some k → ∃ h, d k = some h ∧ d' k = some h) : o.bind d' = o.bind d := by
  cases o with
  | none => rfl
  | some k =>
    obtain ⟨h, hd, hd'⟩ := hsome k rfl
    rw [Option.bind_some, Option.bind_some, hd, hd']

/-- Entries of a slot without a policy are in no class. -/
theorem classOf_of_slotPolicy_none {m : InputContextManager V} (hslot : m.slotPolicy i = none) :
    m.classOf (c, i) = none := by
  rw [classOf]
  split
  · cases m.property c i with
    | none => rfl
    | some pr => simp [classAt, hslot]
  · rfl

theorem classOf_of_property {m : InputContextManager V} (hc : c ∈ m.ics) {pr : Property V}
    (hpr : m.property c i = some pr) : m.classOf (c, i) = m.classAt i pr.data := by
  rw [classOf, if_pos hc, hpr]
  rfl

/-- The key a property is linked under is the key of its data. -/
theorem keyOf_of_classOf {m : InputContextManager V} {pr : Property V}
    (hpr : m.property c i = some pr) {k : ClassKey} (hk : m.classOf (c, i) = some k) :
    m.keyOf k.1 pr.data = k.2 := by
  have hc : c ∈ m.ics := by
    by_contra hc
    rw [classOf, if_neg hc] at hk
    cases hk
  rw [classOf_of_property hc hpr, classAt] at hk
  cases hslot : m.slotPolicy i with
  | none =>
    rw [hslot] at hk
    cases hk
  | some p =>
    rw [hslot] at hk
    simp only at hk
    split at hk
    · cases hk
    · rw [← Option.some.inj hk]

/-- The data of an entry once it is there. -/
theorem getD_data (m : InputContextManager V) (c : ContextPtr) (i : ℕ) :
    ((m.property c i).getD ⟨none, none⟩).data = m.value c i ∧
      ((m.property c i).getD ⟨none, none⟩).head = m.headOf (c, i) := by
  unfold value headOf
  cases m.property c i <;> exact ⟨rfl, rfl⟩

/-- **Storing a value** puts the property into the group of its new key and
leaves every other property alone. -/
theorem store_spec (h : Shared s.toInputContextManager G) (hc : c ∈ s.ics) {slot : PropertySlot V}
    (hslot : s.propertySlots[i]? = some slot) (data : Option V) :
    let s' := s.store c i slot data
    (∃ G', Shared s'.toInputContextManager G') ∧
      SamePolicies s.toInputContextManager s'.toInputContextManager ∧
      ∀ x : PropertyPtr, s'.property x.1 x.2 =
        if x = (c, i) then some ⟨slot.newData (s.value c i) data, s'.headOf (c, i)⟩
        else s.property x.1 x.2 := by
  have hpolicy : s.slotPolicy i = slot.policy := by rw [slotPolicy, hslot]; rfl
  obtain ⟨hdata, hhead⟩ := getD_data s.toInputContextManager c i
  set pr := (s.property c i).getD ⟨none, none⟩ with hpr
  -- the entry is there
  set s₁ := s.getPropertyEntry c i with hs₁
  have honly₁ := s.getPropertyEntry_only c i
  have hprop₁ := s.getPropertyEntry_property c i
  rw [← hpr] at hprop₁
  unfold store
  cases hp : slot.policy with
  | none =>
    dsimp only
    rw [hp] at hpolicy
    have honly := honly₁.trans (modifyProperty_only s₁ c i fun pr =>
      { pr with data := slot.newData pr.data data })
    set s' := s₁.modifyProperty c i (fun pr => { pr with data := slot.newData pr.data data }) with hs'
    have hprop : ∀ x : PropertyPtr, s'.property x.1 x.2 =
        if x = (c, i) then some ⟨slot.newData (s.value c i) data, pr.head⟩
        else s.property x.1 x.2 := by
      intro x
      rw [hs', modifyProperty_property, hprop₁ (c, i), hprop₁ x, if_pos rfl, ← hdata]
      split <;> rfl
    have hheadOf : ∀ x, s'.headOf x = s.headOf x := by
      intro x
      rw [InputContextManager.headOf, hprop x]
      by_cases hx : x = (c, i)
      · rw [if_pos hx, hx, ← hhead]
        rfl
      · rw [if_neg hx]
        rfl
    have hclass : s'.classOf = s.classOf := by
      funext x
      by_cases hx : x = (c, i)
      · rw [hx, classOf_of_slotPolicy_none hpolicy, classOf_of_slotPolicy_none]
        rw [honly.samePolicies.slotPolicy, hpolicy]
      · refine honly.samePolicies.classOf ?_
        rw [hprop x, if_neg hx]
    refine ⟨⟨G, ?_, fun x hx => ?_⟩, honly.samePolicies, fun x => ?_⟩
    · rw [hclass]
      exact honly.sharedInv h.inv
    · rw [hheadOf, hclass, honly.dict]
      exact h.headed x (honly.samePolicies.ics ▸ hx)
    · rw [hheadOf, ← hhead]
      exact hprop x
  | some p =>
    dsimp only
    rw [hp] at hpolicy
    have hslot₁ : s₁.slotPolicy i = some p := by rw [honly₁.samePolicies.slotPolicy, hpolicy]
    -- out of the old group
    have hpr₁ : s₁.property c i = some pr := by rw [hprop₁ (c, i), if_pos rfl]
    obtain ⟨⟨G₂, hinv₂⟩, hsame₂, hprop₂, hdict₂⟩ := leaveGroup_spec
      (honly₁.sharedInv h.inv) hpr₁ hslot₁ (by
        rw [hhead, h.headed (c, i) hc, honly₁.dict]) fun k hk => by
        rw [honly₁.samePolicies.keyOf, hdata]
        obtain ⟨head₀, hk₀⟩ := h.inv.classes.entry _ _ hk
        have hentry : ∃ pr₀, s.property c i = some pr₀ := by
          rw [classOf, if_pos hc] at hk
          obtain ⟨pr₀, hpr₀, -⟩ := Option.bind_eq_some_iff.mp hk
          exact ⟨pr₀, hpr₀⟩
        obtain ⟨pr₀, hpr₀⟩ := hentry
        rw [show s.value c i = pr₀.data by rw [value, hpr₀]; rfl]
        exact keyOf_of_classOf hpr₀ hk
    set s₂ := s₁.leaveGroup c i p with hs₂
    -- the data
    have honly₃ := modifyProperty_only s₂ c i fun pr => { pr with data := slot.newData pr.data data }
    set s₃ := s₂.modifyProperty c i (fun pr => { pr with data := slot.newData pr.data data }) with hs₃
    have hprop₃ : ∀ x : PropertyPtr, s₃.property x.1 x.2 =
        if x = (c, i) then some ⟨slot.newData (s.value c i) data, none⟩ else s.property x.1 x.2 := by
      intro x
      rw [hs₃, modifyProperty_property, hprop₂ (c, i), hprop₂ x, hprop₁ x, if_pos rfl, ← hdata]
      split <;> rfl
    have hsame₃ : SamePolicies s.toInputContextManager s₃.toInputContextManager :=
      (honly₁.samePolicies.trans hsame₂).trans honly₃.samePolicies
    -- into the new group
    have hpr₃ : s₃.property c i = some ⟨slot.newData (s.value c i) data, none⟩ := by
      rw [hprop₃ (c, i), if_pos rfl]
    obtain ⟨⟨G₄, hinv₄⟩, hsame₄, hprop₄, hdict₄⟩ := joinGroup_spec (p := p)
      (honly₃.sharedInv hinv₂) hpr₃ rfl (by rw [hsame₃.slotPolicy, hpolicy])
      (Function.update_self ..) (hsame₃.ics ▸ hc)
    set s₄ := s₃.joinGroup c i p with hs₄
    have hsame := hsame₃.trans hsame₄
    have hc₄ : c ∈ s₄.ics := hsame.ics ▸ hc
    have hprop : ∀ x : PropertyPtr, x ≠ (c, i) → s₄.property x.1 x.2 = s.property x.1 x.2 := by
      intro x hx
      rw [hprop₄ x, if_neg hx, hprop₃ x, if_neg hx]
    have hself := hprop₄ (c, i)
    rw [if_pos rfl] at hself
    have hclass : s₄.classOf = Function.update (Function.update s.classOf (c, i) none) (c, i)
        (s₃.classAt i (slot.newData (s.value c i) data)) := by
      funext x
      by_cases hx : x = (c, i)
      · rw [hx, Function.update_self, classOf_of_property hc₄ hself, hsame₄.classAt]
      · rw [Function.update_of_ne hx, Function.update_of_ne hx]
        exact hsame.classOf (hprop x hx)
    refine ⟨⟨G₄, ?_, fun x hx => ?_⟩, hsame, fun x => ?_⟩
    · rw [hclass]
      exact hinv₄
    · by_cases hxc : x = (c, i)
      · rw [hxc, hclass, Function.update_self, headOf, hself]
        rfl
      · have hheadOf : s₄.headOf x = s.headOf x := by
          rw [headOf, hprop x hxc]
          rfl
        have hclassx : s₄.classOf x = s.classOf x := hsame.classOf (hprop x hxc)
        rw [hheadOf, hclassx, h.headed x (hsame.ics ▸ hx)]
        refine (bind_dict_eq fun k hk => ?_).symm
        have hk₂ : Function.update s.classOf (c, i) none x = some k := by
          rw [Function.update_of_ne hxc]
          exact hk
        obtain ⟨head, hhead₂⟩ := hinv₂.classes.entry x k hk₂
        refine ⟨head, ?_, hdict₄ k head ?_⟩
        · have := hdict₂ k head hhead₂
          rwa [honly₁.dict] at this
        · rw [honly₃.dict]
          exact hhead₂
    · by_cases hx : x = (c, i)
      · rw [if_pos hx, hx, hself, headOf, hself]
        rfl
      · rw [if_neg hx]
        exact hprop x hx

/-! ### Freeing the properties of a context -/

/-- Freeing one entry. -/
theorem propertyFree_spec (h : SharedInv s.toInputContextManager cls G)
    (hhead : s.headOf (c, i) = (cls (c, i)).bind s.dict)
    (hkey : ∀ k, cls (c, i) = some k → s.keyOf k.1 (s.value c i) = k.2) :
    let s' := s.propertyFree c i
    (∃ G', SharedInv s'.toInputContextManager (Function.update cls (c, i) none) G') ∧
      SamePolicies s.toInputContextManager s'.toInputContextManager ∧
      s'.properties = s.properties ∧ ∀ k h, s'.dict k = some h → s.dict k = some h := by
  have hstay : cls (c, i) = none → (∃ G', SharedInv s.toInputContextManager
      (Function.update cls (c, i) none) G') ∧
      SamePolicies s.toInputContextManager s.toInputContextManager ∧
      s.properties = s.properties ∧ ∀ k h, s.dict k = some h → s.dict k = some h := by
    intro hcls
    refine ⟨⟨G, ?_⟩, .refl _, rfl, fun _ _ => id⟩
    rwa [← hcls, Function.update_eq_self]
  -- without a head there is no class
  have hnone : s.headOf (c, i) = none → cls (c, i) = none := by
    intro hno
    cases hcls : cls (c, i) with
    | none => rfl
    | some k =>
      obtain ⟨head, hk⟩ := h.classes.entry _ _ hcls
      rw [hhead, hcls, Option.bind_some, hk] at hno
      cases hno
  unfold propertyFree
  cases hpr : s.property c i with
  | none => exact hstay (hnone (by rw [headOf, hpr]; rfl))
  | some pr =>
    have hprhead : s.headOf (c, i) = pr.head := by rw [headOf, hpr]; rfl
    rcases hcls : cls (c, i) with _ | ⟨q, key⟩
    · have hno : pr.head = none := by rw [← hprhead, hhead, hcls]; rfl
      dsimp only
      rw [hno]
      exact hstay hcls
    · obtain ⟨head, hk⟩ := h.classes.entry _ _ hcls
      have hsome : pr.head = some head := by rw [← hprhead, hhead, hcls]; exact hk
      have hslot : (s.propertySlots[i]?).bind (·.policy) = some q := (h.live _ _ hcls).2
      simp only [hsome, hslot]
      exact leaveHead_spec h hcls hk (hkey _ hcls)

/-- **Freeing all the entries** takes the context out of every group. -/
theorem propertiesFree_spec (c : ContextPtr) :
    ∀ (n : ℕ) (s : IcSystem V) (cls : PropertyPtr → Option ClassKey) (G : HeadPtr → List PropertyPtr),
      SharedInv s.toInputContextManager cls G →
      (∀ j < n, s.headOf (c, j) = (cls (c, j)).bind s.dict) →
      (∀ j < n, ∀ k, cls (c, j) = some k → s.keyOf k.1 (s.value c j) = k.2) →
      let s' := s.propertiesFree c n
      (∃ G', SharedInv s'.toInputContextManager
          (fun x => if x.1 = c ∧ x.2 < n then none else cls x) G') ∧
        SamePolicies s.toInputContextManager s'.toInputContextManager ∧
        s'.properties = Function.update s.properties c [] ∧
        ∀ k h, s'.dict k = some h → s.dict k = some h
  | 0, s, cls, G, h, _, _ => by
    have honly : OnlyProperties s (s.propertiesFree c 0) := ⟨_, rfl⟩
    refine ⟨⟨G, ?_⟩, honly.samePolicies, rfl, fun _ _ => id⟩
    have hcls : (fun x : PropertyPtr => if x.1 = c ∧ x.2 < 0 then none else cls x) = cls := by
      funext x
      simp
    rw [hcls]
    exact honly.sharedInv h
  | n + 1, s, cls, G, h, hhead, hkey => by
    obtain ⟨⟨G₁, h₁⟩, hsame₁, hprops₁, hdict₁⟩ := propertyFree_spec (c := c) (i := n) h
      (hhead n (Nat.lt_succ_self n)) (hkey n (Nat.lt_succ_self n))
    rw [propertiesFree]
    set s₁ := s.propertyFree c n with hs₁
    have hproperty : ∀ x : PropertyPtr, s₁.property x.1 x.2 = s.property x.1 x.2 := fun x => by
      rw [property, hprops₁]
      rfl
    have hne : ∀ j < n, ((c, j) : PropertyPtr) ≠ (c, n) := fun j hj e =>
      absurd (Prod.mk.inj e).2 (Nat.ne_of_lt hj)
    obtain ⟨⟨G₂, h₂⟩, hsame₂, hprops₂, hdict₂⟩ := propertiesFree_spec c n s₁ _ G₁ h₁ (fun j hj => by
        rw [Function.update_of_ne (hne j hj), headOf, hproperty (c, j)]
        refine (hhead j (Nat.lt_succ_of_lt hj)).trans (bind_dict_eq fun k hk => ?_).symm
        obtain ⟨head, hhead₁⟩ := h₁.classes.entry (c, j) k (by
          rw [Function.update_of_ne (hne j hj)]
          exact hk)
        exact ⟨head, hdict₁ k head hhead₁, hhead₁⟩) (fun j hj k hk => by
        rw [Function.update_of_ne (hne j hj)] at hk
        rw [hsame₁.keyOf, value, hproperty (c, j)]
        exact hkey j (Nat.lt_succ_of_lt hj) k hk)
    refine ⟨⟨G₂, ?_⟩, hsame₁.trans hsame₂, ?_, fun k head hk => hdict₁ k head (hdict₂ k head hk)⟩
    · have hcls : (fun x : PropertyPtr => if x.1 = c ∧ x.2 < n then none
          else Function.update cls (c, n) none x) =
          fun x : PropertyPtr => if x.1 = c ∧ x.2 < n + 1 then none else cls x := by
        funext x
        obtain ⟨d, j⟩ := x
        simp only [Function.update_apply, Prod.mk.injEq]
        by_cases hd : d = c
        · by_cases hj : j = n
          · simp [hd, hj]
          · have hlt : j < n ↔ j < n + 1 := by omega
            simp [hd, hj, hlt]
        · simp [hd]
      rwa [hcls] at h₂
    · rw [hprops₂, hprops₁]

end IcSystem

/-! ### The rest of the manager -/

/-- `m'` has the properties, the policies and the contexts of `m`. -/
structure SameShared (m m' : InputContextManager V) : Prop where
  ics : m'.ics = m.ics
  propertySlots : m'.propertySlots = m.propertySlots
  policy : m'.policy = m.policy
  policies : m'.policies = m.policies
  properties : m'.properties = m.properties
  propertyLinks : m'.propertyLinks = m.propertyLinks
  heads : m'.heads = m.heads
  headTop : m'.headTop = m.headTop

namespace SameShared

variable {m m' m'' : InputContextManager V} {G : HeadPtr → List PropertyPtr}

theorem refl (m : InputContextManager V) : SameShared m m := ⟨rfl, rfl, rfl, rfl, rfl, rfl, rfl, rfl⟩

theorem trans (h : SameShared m m') (h' : SameShared m' m'') : SameShared m m'' :=
  ⟨h'.ics.trans h.ics, h'.propertySlots.trans h.propertySlots, h'.policy.trans h.policy,
    h'.policies.trans h.policies, h'.properties.trans h.properties,
    h'.propertyLinks.trans h.propertyLinks, h'.heads.trans h.heads, h'.headTop.trans h.headTop⟩

theorem samePolicies (h : SameShared m m') : SamePolicies m m' :=
  ⟨h.ics, h.propertySlots, h.policy, by rw [h.policies]⟩

theorem property (h : SameShared m m') : m'.property = m.property := by
  funext c i
  rw [InputContextManager.property, h.properties]
  rfl

theorem dict (h : SameShared m m') : m'.dict = m.dict := by
  rw [InputContextManager.dict, h.policies]
  rfl

theorem classOf (h : SameShared m m') : m'.classOf = m.classOf := by
  funext x
  exact h.samePolicies.classOf (by rw [h.property])

/-- The groups are untouched. -/
theorem sharedInv (h : SameShared m m') {cls : PropertyPtr → Option ClassKey}
    (hinv : SharedInv m cls G) : SharedInv m' cls G := by
  refine ⟨?_, ?_, ?_, ?_, ?_, h.samePolicies.slots hinv.slots, fun x k hx => ?_⟩
  · rw [h.propertyLinks, h.dict]
    exact hinv.classes
  · rw [h.heads, h.dict]
    exact hinv.heads_iff
  · rw [h.heads, h.headTop]
    exact hinv.heads_lt
  · rw [h.heads]
    exact hinv.heads_nodup
  · rw [h.policies]
    exact hinv.keys_nodup
  · rw [h.ics, h.samePolicies.slotPolicy]
    exact hinv.live x k hx

theorem shared (h : SameShared m m') (hs : Shared m G) : Shared m' G := by
  refine ⟨?_, fun x hx => ?_⟩
  · rw [h.classOf]
    exact h.sharedInv hs.inv
  · rw [headOf, h.property, h.classOf, h.dict]
    exact hs.headed x (h.ics ▸ hx)

end SameShared

/-- `m'` has the slots and policies of `m`, and each of its contexts has the
properties that it had in `m`, or none. -/
structure Kept (m m' : InputContextManager V) : Prop where
  propertySlots : m'.propertySlots = m.propertySlots
  policy : m'.policy = m.policy
  signature : m'.policies.map (fun q => (q.propertyKey, q.id)) =
    m.policies.map fun q => (q.propertyKey, q.id)
  live : ∀ c ∈ m'.ics, (c ∈ m.ics ∧ ∀ j, m'.property c j = m.property c j) ∨ ∀ j, m'.property c j = none

theorem SameShared.kept {m m' : InputContextManager V} (h : SameShared m m') : Kept m m' :=
  ⟨h.propertySlots, h.policy, h.samePolicies.signature, fun c hc =>
    Or.inl ⟨h.ics ▸ hc, fun j => by rw [h.property]⟩⟩

theorem Kept.trans {m m' m'' : InputContextManager V} (h : Kept m m') (h' : Kept m' m'') :
    Kept m m'' := by
  refine ⟨h'.propertySlots.trans h.propertySlots, h'.policy.trans h.policy,
    h'.signature.trans h.signature, fun c hc => ?_⟩
  rcases h'.live c hc with ⟨hc', hprop'⟩ | hnone
  · rcases h.live c hc' with ⟨hc'', hprop⟩ | hnone
    · exact Or.inl ⟨hc'', fun j => (hprop' j).trans (hprop j)⟩
    · exact Or.inr fun j => (hprop' j).trans (hnone j)
  · exact Or.inr hnone

namespace IcSystem

theorem modify_sameShared (s : IcSystem V) (c : ContextPtr) (f : InputContext → InputContext) :
    SameShared s.toInputContextManager (s.modify c f).toInputContextManager :=
  ⟨rfl, rfl, rfl, rfl, rfl, rfl, rfl, rfl⟩

theorem emit_sameShared (s : IcSystem V) (type : EventType) (c : ContextPtr) (detail : EventDetail) :
    SameShared s.toInputContextManager (s.emit type c detail).toInputContextManager := by
  rw [emit_manager]
  exact .refl _

/-- Writing to a context and reporting it. -/
theorem modify_emit_sameShared (s : IcSystem V) (c : ContextPtr) (f : InputContext → InputContext)
    (type : EventType) (detail : EventDetail) :
    SameShared s.toInputContextManager ((s.modify c f).emit type c detail).toInputContextManager :=
  (s.modify_sameShared c f).trans (emit_sameShared _ type c detail)

theorem _focusIn_sameShared (s : IcSystem V) (c : ContextPtr) :
    SameShared s.toInputContextManager (s._focusIn c).toInputContextManager :=
  s.modify_emit_sameShared c _ _ _

theorem _focusOut_sameShared (s : IcSystem V) (c : ContextPtr) :
    SameShared s.toInputContextManager (s._focusOut c).toInputContextManager :=
  s.modify_emit_sameShared c _ _ _

theorem _groupSetFocus_sameShared (s : IcSystem V) (g : GroupPtr) (x : Option ContextPtr) :
    SameShared s.toInputContextManager (s._groupSetFocus g x).toInputContextManager := by
  have h₀ : SameShared s.toInputContextManager (s.setGroupFocus g x).toInputContextManager :=
    ⟨rfl, rfl, rfl, rfl, rfl, rfl, rfl, rfl⟩
  unfold _groupSetFocus
  cases (s.group g).focus with
  | none =>
    cases x with
    | none => exact h₀
    | some c => exact h₀.trans (_focusIn_sameShared _ c)
  | some old =>
    have h₁ := h₀.trans (_focusOut_sameShared _ old)
    cases x with
    | none => exact h₁
    | some c => exact h₁.trans (_focusIn_sameShared _ c)

theorem focusIn_sameShared (s : IcSystem V) (c : ContextPtr) :
    SameShared s.toInputContextManager (s.focusIn c).toInputContextManager := by
  unfold focusIn
  split
  · have hloop : SameShared s.toInputContextManager
        (Links.forEachEntry (fun s : IcSystem V => s.groupLinks) ()
          (fun g s => s._groupSetFocus g none) (s.groupTop + 1) s).toInputContextManager :=
      Links.forEachEntry_invariant
        (P := fun t : IcSystem V => SameShared s.toInputContextManager t.toInputContextManager)
        (fun g t ht => ht.trans (t._groupSetFocus_sameShared g none)) (.refl _)
    exact hloop.trans (_groupSetFocus_sameShared _ _ _)
  · split
    · exact (s._groupSetFocus_sameShared _ _).trans (_groupSetFocus_sameShared _ _ _)
    · split
      · exact .refl _
      · exact s._focusIn_sameShared c

theorem focusOut_sameShared (s : IcSystem V) (c : ContextPtr) :
    SameShared s.toInputContextManager (s.focusOut c).toInputContextManager := by
  unfold focusOut
  split
  · split
    · exact s._groupSetFocus_sameShared _ _
    · exact .refl _
  · split
    · exact s._focusOut_sameShared c
    · exact .refl _

theorem relink_sameShared (s : IcSystem V) (c : ContextPtr) (group : Option GroupPtr) :
    SameShared s.toInputContextManager (s.relink c group).toInputContextManager := by
  unfold relink
  cases (s.ctx c).group <;> cases group <;> exact ⟨rfl, rfl, rfl, rfl, rfl, rfl, rfl, rfl⟩

theorem _setFocusGroup_sameShared (s : IcSystem V) (c : ContextPtr) (group : Option GroupPtr) :
    SameShared s.toInputContextManager (s._setFocusGroup c group).toInputContextManager := by
  unfold _setFocusGroup
  split
  · exact .refl _
  · cases (s.ctx c).focused with
    | false => exact s.relink_sameShared c group
    | true =>
      exact ((s.focusOut_sameShared c).trans (relink_sameShared _ c group)).trans
        (focusIn_sameShared _ c)

theorem focusGroupFree_sameShared (s : IcSystem V) (g : GroupPtr) :
    SameShared s.toInputContextManager (s.focusGroupFree g).toInputContextManager := by
  unfold focusGroupFree
  refine Links.forEachEntrySafe_invariant
    (P := fun t : IcSystem V => SameShared s.toInputContextManager t.toInputContextManager)
    (fun c t ht => ht.trans (t._setFocusGroup_sameShared c none)) ?_
  split <;> exact ⟨rfl, rfl, rfl, rfl, rfl, rfl, rfl, rfl⟩

/-! ### Contexts come and go -/

variable {s : IcSystem V} {G : HeadPtr → List PropertyPtr} {c : ContextPtr}

/-- A new context has no properties. -/
theorem enroll_shared (h : Shared s.toInputContextManager G) (hc : c ∉ s.ics) (id : UInt32)
    (uuid : Uuid) (frontend : UInt32) (notify : Bool) :
    Shared (s.enroll c id uuid frontend notify).toInputContextManager G ∧
      Kept s.toInputContextManager (s.enroll c id uuid frontend notify).toInputContextManager := by
  set t := s.enroll c id uuid frontend notify with ht
  have hprop : ∀ x : PropertyPtr, t.property x.1 x.2 =
      if x.1 = c then none else s.property x.1 x.2 := by
    intro x
    simp only [ht, enroll, property, Function.update_apply]
    split <;> rfl
  have hclass : t.classOf = s.classOf := by
    funext x
    by_cases hx : x.1 = c
    · rw [classOf, hprop x, if_pos hx, classOf, if_neg (fun hm => hc (hx ▸ hm))]
      split <;> rfl
    · have hmem : x.1 ∈ t.ics ↔ x.1 ∈ s.ics := by simp [ht, enroll, hx]
      unfold classOf
      rw [hprop x, if_neg hx]
      simp only [hmem]
      rfl
  refine ⟨⟨?_, fun x hx => ?_⟩, rfl, rfl, rfl, fun d hd => ?_⟩
  · rw [hclass]
    exact ⟨h.inv.classes, h.inv.heads_iff, h.inv.heads_lt, h.inv.heads_nodup, h.inv.keys_nodup,
      h.inv.slots, fun x k hk => ⟨List.mem_append_left _ (h.inv.live x k hk).1, (h.inv.live x k hk).2⟩⟩
  · rw [headOf, hprop x, hclass]
    by_cases hxc : x.1 = c
    · rw [if_pos hxc, classOf, if_neg (fun hm => hc (hxc ▸ hm))]
      rfl
    · have hmem : x.1 ∈ s.ics := by simpa [ht, enroll, hxc] using hx
      rw [if_neg hxc]
      exact h.headed x hmem
  · by_cases hdc : d = c
    · refine Or.inr fun j => ?_
      have := hprop (d, j)
      rwa [if_pos hdc] at this
    · refine Or.inl ⟨by simpa [ht, enroll, hdc] using hd, fun j => ?_⟩
      have := hprop (d, j)
      rwa [if_neg hdc] at this

theorem new_shared (h : Shared s.toInputContextManager G) (hfree : ∀ c ∈ s.freeList, c ∉ s.ics)
    (htop : s.ctxTop ∉ s.ics) (uuid : Uuid) (frontend : UInt32) (notify : Bool) :
    Shared (s.new uuid frontend notify).2.toInputContextManager G ∧
      Kept s.toInputContextManager (s.new uuid frontend notify).2.toInputContextManager := by
  unfold new
  split
  · next c rest hf =>
    have h₀ : SameShared s.toInputContextManager
        ({ s with freeList := rest } : IcSystem V).toInputContextManager :=
      ⟨rfl, rfl, rfl, rfl, rfl, rfl, rfl, rfl⟩
    obtain ⟨h₁, hk₁⟩ := enroll_shared (h₀.shared h) (hfree c (hf ▸ List.mem_cons_self)) (s.ctx c).id
      uuid frontend notify
    have h₂ := emit_sameShared (IcSystem.enroll { s with freeList := rest } c (s.ctx c).id uuid
      frontend notify) .inputContextCreated c .none
    exact ⟨h₂.shared h₁, (h₀.kept.trans hk₁).trans h₂.kept⟩
  · dsimp only
    have h₀ : ∀ top, SameShared s.toInputContextManager
        ({ s with icid := nextId s.icid, ctxTop := top } : IcSystem V).toInputContextManager :=
      fun _ => ⟨rfl, rfl, rfl, rfl, rfl, rfl, rfl, rfl⟩
    split
    · exact ⟨(h₀ s.ctxTop).shared h, (h₀ s.ctxTop).kept⟩
    · obtain ⟨h₁, hk₁⟩ := enroll_shared ((h₀ (s.ctxTop + 1)).shared h) htop (nextId s.icid)
        uuid frontend notify
      have h₂ := emit_sameShared (IcSystem.enroll
        { s with icid := nextId s.icid, ctxTop := s.ctxTop + 1 } s.ctxTop (nextId s.icid) uuid
        frontend notify) .inputContextCreated s.ctxTop .none
      exact ⟨h₂.shared h₁, ((h₀ (s.ctxTop + 1)).kept.trans hk₁).trans h₂.kept⟩

/-- The entries of a context are freed and its record goes out of the tables. -/
theorem freed_shared (h : Shared s.toInputContextManager G) (hc : c ∈ s.ics) (hnd : s.ics.Nodup)
    (f : InputContext → InputContext) :
    let s' := ((s.propertiesFree c (s.properties c).length).modify c f).unenroll c
    (∃ G', Shared s'.toInputContextManager G') ∧
      Kept s.toInputContextManager s'.toInputContextManager := by
  intro s'
  obtain ⟨⟨G', hinv⟩, hsame, hprops, hdict⟩ := propertiesFree_spec c (s.properties c).length s
    s.classOf G h.inv (fun j _ => h.headed (c, j) hc) fun j _ k hk => by
      have hk' := hk
      rw [classOf, if_pos hc] at hk'
      obtain ⟨pr, hpr, -⟩ := Option.bind_eq_some_iff.mp hk'
      rw [show s.value c j = pr.data by rw [value, hpr]; rfl]
      exact keyOf_of_classOf hpr hk
  set t := s.propertiesFree c (s.properties c).length with ht
  set u := (t.modify c f).unenroll c with hu
  have hics : u.ics = s.ics.erase c := congrArg (fun l => List.erase l c) hsame.ics
  have hmem : ∀ d, d ∈ u.ics ↔ d ≠ c ∧ d ∈ s.ics := fun d => by
    rw [hics, hnd.mem_erase_iff]
  have hprop : ∀ x : PropertyPtr, u.property x.1 x.2 =
      if x.1 = c then none else s.property x.1 x.2 := by
    intro x
    show (t.properties x.1)[x.2]?.join = _
    rw [hprops, Function.update_apply]
    split <;> rfl
  have hclassAt : u.classAt = s.classAt := funext fun j => hsame.classAt j
  have hclass : u.classOf = fun x => if x.1 = c ∧ x.2 < (s.properties c).length then none
      else s.classOf x := by
    funext x
    by_cases hx : x.1 = c
    · rw [classOf, if_neg fun hm => ((hmem x.1).mp hm).1 hx]
      split
      · rfl
      · next hlt =>
        -- past the end of the array there is no entry
        have hnone : s.property x.1 x.2 = none := by
          rw [property, hx, List.getElem?_eq_none (Nat.le_of_not_lt fun hl => hlt ⟨hx, hl⟩)]
          rfl
        rw [classOf, hnone]
        split <;> rfl
    · rw [if_neg fun e => hx e.1, classOf, classOf, hprop x, if_neg hx, hclassAt]
      simp [hmem, hx]
  have hclassx : ∀ x : PropertyPtr, x.1 ≠ c → u.classOf x = s.classOf x := by
    intro x hxc
    rw [hclass]
    exact if_neg fun e => hxc e.1
  refine ⟨⟨G', ?_, fun x hx => ?_⟩, hsame.propertySlots, hsame.policy, hsame.signature,
    fun d hd => ?_⟩
  · show SharedInv u.toInputContextManager u.classOf G'
    rw [hclass]
    refine ⟨hinv.classes, hinv.heads_iff, hinv.heads_lt, hinv.heads_nodup, hinv.keys_nodup,
      hinv.slots, fun x k hk => ⟨?_, (hinv.live x k hk).2⟩⟩
    have hcx : u.classOf x = some k := by rw [hclass]; exact hk
    by_contra hm
    rw [classOf, if_neg hm] at hcx
    cases hcx
  · obtain ⟨hxc, hxs⟩ := (hmem x.1).mp hx
    show u.headOf x = (u.classOf x).bind u.dict
    rw [headOf, hprop x, if_neg hxc, hclassx x hxc]
    refine (h.headed x hxs).trans (bind_dict_eq fun k hk => ?_).symm
    obtain ⟨head, hhead⟩ := hinv.classes.entry x k (by rw [if_neg fun e => hxc e.1]; exact hk)
    exact ⟨head, hdict k head hhead, hhead⟩
  · obtain ⟨hdc, hds⟩ := (hmem d).mp hd
    refine Or.inl ⟨hds, fun j => ?_⟩
    have := hprop (d, j)
    rwa [if_neg hdc] at this

/-- **A context that is destroyed leaves all its groups.** -/
theorem destroy_shared (h : Shared s.toInputContextManager G) (hnd : s.ics.Nodup) (c : ContextPtr) :
    (∃ G', Shared (s.destroy c).toInputContextManager G') ∧
      Kept s.toInputContextManager (s.destroy c).toInputContextManager := by
  unfold destroy
  split
  · exact ⟨⟨G, h⟩, (SameShared.refl _).kept⟩
  · next hfound =>
    rw [not_not] at hfound
    have hout := (s.focusOut_sameShared c).trans (_setFocusGroup_sameShared _ c none)
    set t := (s.focusOut c)._setFocusGroup c none with ht
    have hnotify : SameShared s.toInputContextManager
        ((t.emit .inputContextDestroyed c .none).notifyDestroy c).toInputContextManager := by
      refine (hout.trans (t.emit_sameShared .inputContextDestroyed c .none)).trans ?_
      unfold notifyDestroy
      split <;> exact ⟨rfl, rfl, rfl, rfl, rfl, rfl, rfl, rfl⟩
    obtain ⟨h₁, hk₁⟩ := freed_shared (hnotify.shared h)
      (hnotify.ics ▸ List.mem_of_find?_eq_some hfound) (hnotify.ics ▸ hnd)
      fun ic => { ic with surroundingText := none }
    exact ⟨h₁, hnotify.kept.trans hk₁⟩

end IcSystem
end Fcitx
