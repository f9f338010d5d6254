/-
# Shared-state groups

The value of a property has a class: the policy of its slot and the key that
the policy gives it; an empty key is no class (`classAt`). `SharedInv` says
that the lists the policies keep are the classes of some assignment `cls` of
properties to classes, and that the dictionaries and the allocated heads fit;
`Shared` says that the assignment is the one that the present values give.
Leaving and joining a group act on the assignment as one would expect
(`leaveHead_spec`, `headFor_spec`).

Key definitions: `classOf`, `SharedInv`, `Shared`.
Key theorems: `leaveHead_spec`, `headFor_spec`.
-/
import Fcitx.InputContext.Manager
import Fcitx.Lib.Classes

namespace Fcitx

variable {V : Type}

/-- A policy and a key of it. -/
abbrev ClassKey := PolicyPtr × Bytes

/-- The head for a key in the dictionary of a policy. -/
def dictOf (policies : List (SharedStatePolicy V)) (k : ClassKey) : Option HeadPtr :=
  (policies[k.1]?).bind fun policy => policy.propertyDict.lookup k.2

namespace InputContextManager

def dict (m : InputContextManager V) : ClassKey → Option HeadPtr := dictOf m.policies

/-- The policy of a slot. -/
def slotPolicy (m : InputContextManager V) (i : ℕ) : Option PolicyPtr :=
  (m.propertySlots[i]?).bind (·.policy)

/-- The key a policy gives to a value. -/
def keyOf (m : InputContextManager V) (p : PolicyPtr) (data : Option V) : Bytes :=
  match m.policies[p]? with
  | some policy => policy.propertyKey data
  | none => []

/-- The head a property is linked to, by its own record. -/
def headOf (m : InputContextManager V) (x : PropertyPtr) : Option HeadPtr :=
  (m.property x.1 x.2).bind (·.head)

/-- The class of a value of slot `i`. -/
def classAt (m : InputContextManager V) (i : ℕ) (data : Option V) : Option ClassKey :=
  match m.slotPolicy i with
  | none => none
  | some p => if m.keyOf p data = [] then none else some (p, m.keyOf p data)

/-- The class of a property of a live context; a property without an entry has none. -/
def classOf (m : InputContextManager V) (x : PropertyPtr) : Option ClassKey :=
  if x.1 ∈ m.ics then (m.property x.1 x.2).bind fun pr => m.classAt x.2 pr.data else none

/-- `m'` has the contexts, slots and policies of `m`; the dictionaries may differ. -/
structure SamePolicies (m m' : InputContextManager V) : Prop where
  ics : m'.ics = m.ics
  propertySlots : m'.propertySlots = m.propertySlots
  policy : m'.policy = m.policy
  signature : m'.policies.map (fun q => (q.propertyKey, q.id)) =
    m.policies.map fun q => (q.propertyKey, q.id)

namespace SamePolicies

variable {m m' m'' : InputContextManager V}

theorem refl (m : InputContextManager V) : SamePolicies m m := ⟨rfl, rfl, rfl, rfl⟩

theorem trans (h : SamePolicies m m') (h' : SamePolicies m' m'') : SamePolicies m m'' :=
  ⟨h'.ics.trans h.ics, h'.propertySlots.trans h.propertySlots, h'.policy.trans h.policy,
    h'.signature.trans h.signature⟩

/-- A policy has the same key function and slot in both. -/
theorem policies (h : SamePolicies m m') {p : PolicyPtr} {q : SharedStatePolicy V}
    (hq : m.policies[p]? = some q) :
    ∃ q', m'.policies[p]? = some q' ∧ q'.propertyKey = q.propertyKey ∧ q'.id = q.id := by
  have hsig := congrArg (fun l => l[p]?) h.signature
  simp only [List.getElem?_map, hq, Option.map_some] at hsig
  obtain ⟨q', hq', he⟩ := Option.map_eq_some_iff.mp hsig
  exact ⟨q', hq', (Prod.mk.inj he).1, (Prod.mk.inj he).2⟩

theorem symm (h : SamePolicies m m') : SamePolicies m' m :=
  ⟨h.ics.symm, h.propertySlots.symm, h.policy.symm, h.signature.symm⟩

theorem keyOf (h : SamePolicies m m') (p : PolicyPtr) : m'.keyOf p = m.keyOf p := by
  funext data
  unfold InputContextManager.keyOf
  cases hq : m.policies[p]? with
  | some q =>
    obtain ⟨q', hq', hkey, -⟩ := h.policies hq
    rw [hq']
    exact congrFun hkey data
  | none =>
    cases hq' : m'.policies[p]? with
    | none => rfl
    | some q' =>
      obtain ⟨q, hq₁, -⟩ := h.symm.policies hq'
      rw [hq] at hq₁
      cases hq₁

theorem slotPolicy (h : SamePolicies m m') (i : ℕ) : m'.slotPolicy i = m.slotPolicy i := by
  rw [InputContextManager.slotPolicy, h.propertySlots]
  rfl

theorem classAt (h : SamePolicies m m') (i : ℕ) : m'.classAt i = m.classAt i := by
  funext data
  simp only [InputContextManager.classAt, h.slotPolicy, h.keyOf]

theorem classOf (h : SamePolicies m m') {x : PropertyPtr}
    (hx : m'.property x.1 x.2 = m.property x.1 x.2) : m'.classOf x = m.classOf x := by
  rw [InputContextManager.classOf, InputContextManager.classOf, h.ics, hx, h.classAt]

theorem slots (h : SamePolicies m m')
    (hslots : ∀ i p, m.slotPolicy i = some p ↔ ∃ q, m.policies[p]? = some q ∧ q.id = i) :
    ∀ i p, m'.slotPolicy i = some p ↔ ∃ q, m'.policies[p]? = some q ∧ q.id = i := by
  intro i p
  rw [h.slotPolicy, hslots]
  constructor
  · rintro ⟨q, hq, rfl⟩
    obtain ⟨q', hq', -, hid⟩ := h.policies hq
    exact ⟨q', hq', hid⟩
  · rintro ⟨q', hq', rfl⟩
    obtain ⟨q, hq, -, hid⟩ := h.symm.policies hq'
    exact ⟨q, hq, hid⟩

end SamePolicies

end InputContextManager

open InputContextManager

/-- The lists of the policies are the classes of `cls`; `G` are the members of
each head. -/
structure SharedInv (m : InputContextManager V) (cls : PropertyPtr → Option ClassKey)
    (G : HeadPtr → List PropertyPtr) : Prop where
  classes : Classes m.propertyLinks m.dict cls G
  heads_iff : ∀ h, h ∈ m.heads ↔ ∃ k, m.dict k = some h
  heads_lt : ∀ h ∈ m.heads, h < m.headTop
  heads_nodup : m.heads.Nodup
  keys_nodup : ∀ policy ∈ m.policies, (Assoc.keys policy.propertyDict).Nodup
  slots : ∀ i p, m.slotPolicy i = some p ↔ ∃ policy, m.policies[p]? = some policy ∧ policy.id = i
  live : ∀ x k, cls x = some k → x.1 ∈ m.ics ∧ m.slotPolicy x.2 = some k.1

/-- The groups are the classes of the present values, and each property points
at the head of its class. -/
structure Shared (m : InputContextManager V) (G : HeadPtr → List PropertyPtr) : Prop where
  inv : SharedInv m m.classOf G
  headed : ∀ x, x.1 ∈ m.ics → m.headOf x = (m.classOf x).bind m.dict

namespace SharedInv

variable {m : InputContextManager V} {cls : PropertyPtr → Option ClassKey}
  {G : HeadPtr → List PropertyPtr}

/-- What leads to a head: a policy and an entry of its dictionary. -/
theorem dict_eq_some {p : PolicyPtr} {key : Bytes} {head : HeadPtr}
    (hk : m.dict (p, key) = some head) :
    ∃ policy, m.policies[p]? = some policy ∧ policy.propertyDict.lookup key = some head :=
  Option.bind_eq_some_iff.mp hk

theorem slot_unique (h : SharedInv m cls G) {i j : ℕ} {p : PolicyPtr}
    (hi : m.slotPolicy i = some p) (hj : m.slotPolicy j = some p) : i = j := by
  obtain ⟨q, hq, rfl⟩ := (h.slots i p).mp hi
  obtain ⟨q', hq', rfl⟩ := (h.slots j p).mp hj
  rw [hq] at hq'
  rw [Option.some.inj hq']

end SharedInv

/-- A dictionary written anew. -/
theorem dictOf_set {policies : List (SharedStatePolicy V)} {p : PolicyPtr}
    {policy : SharedStatePolicy V} (hp : policies[p]? = some policy) (d : List (Bytes × HeadPtr))
    (k : ClassKey) :
    dictOf (policies.set p { policy with propertyDict := d }) k =
      if k.1 = p then d.lookup k.2 else dictOf policies k := by
  have hlt : p < policies.length := (List.getElem?_eq_some_iff.mp hp).1
  unfold dictOf
  rw [List.getElem?_set]
  by_cases hk : k.1 = p
  · simp [hk, hlt]
  · simp [hk, Ne.symm hk]

/-- Writing a dictionary changes no key function and no slot. -/
theorem signature_set {policies : List (SharedStatePolicy V)} {p : PolicyPtr}
    {policy : SharedStatePolicy V} (hp : policies[p]? = some policy) (d : List (Bytes × HeadPtr)) :
    (policies.set p { policy with propertyDict := d }).map (fun q => (q.propertyKey, q.id)) =
      policies.map fun q => (q.propertyKey, q.id) := by
  obtain ⟨hlt, hget⟩ := List.getElem?_eq_some_iff.mp hp
  rw [List.map_set]
  refine List.ext_getElem? fun j => ?_
  rw [List.getElem?_set, List.length_map]
  by_cases hj : p = j
  · subst hj
    simp [hlt, hget]
  · simp [hj]

theorem keys_nodup_set {policies : List (SharedStatePolicy V)} {p : PolicyPtr}
    {policy : SharedStatePolicy V} {d : List (Bytes × HeadPtr)}
    (hold : ∀ q ∈ policies, (Assoc.keys q.propertyDict).Nodup) (hd : (Assoc.keys d).Nodup) :
    ∀ q ∈ policies.set p { policy with propertyDict := d }, (Assoc.keys q.propertyDict).Nodup := by
  intro q hq
  rcases List.mem_or_eq_of_mem_set hq with hq | rfl
  · exact hold q hq
  · exact hd

namespace IcSystem

/-! ### The entries of a context -/

theorem modifyProperty_property (s : IcSystem V) (c : ContextPtr) (i : ℕ)
    (f : Property V → Property V) (x : PropertyPtr) :
    (s.modifyProperty c i f).property x.1 x.2 =
      if x = (c, i) then (s.property c i).map f else s.property x.1 x.2 := by
  obtain ⟨d, j⟩ := x
  simp only [property, modifyProperty, Function.update_apply, Prod.mk.injEq]
  by_cases hd : d = c
  · subst hd
    rw [if_pos rfl, List.getElem?_modify]
    by_cases hj : j = i
    · subst hj
      cases h : (s.properties d)[j]? with
      | none => simp
      | some o => simp
    · simp [hj, Ne.symm hj]
  · simp [hd]

theorem getPropertyEntry_property (s : IcSystem V) (c : ContextPtr) (i : ℕ) (x : PropertyPtr) :
    (s.getPropertyEntry c i).property x.1 x.2 =
      if x = (c, i) then some ((s.property c i).getD ⟨none, none⟩) else s.property x.1 x.2 := by
  obtain ⟨d, j⟩ := x
  simp only [Prod.mk.injEq]
  set array := s.properties c ++ List.replicate (i + 1 - (s.properties c).length) none with harray
  have hlt : i < array.length := by
    simp only [harray, List.length_append, List.length_replicate]
    omega
  have hold : ∀ k : ℕ, (array[k]?).join = ((s.properties c)[k]?).join := by
    intro k
    rw [harray, List.getElem?_append]
    split
    · rfl
    · next hk =>
      rw [List.getElem?_eq_none (by omega : (s.properties c).length ≤ k), List.getElem?_replicate]
      split <;> rfl
  unfold getPropertyEntry
  simp only [← harray]
  have hentry : (array[i]?).join = s.property c i := hold i
  split
  · next pr hpr =>
    rw [hpr] at hentry
    by_cases hd : d = c
    · subst hd
      by_cases hj : j = i
      · subst hj
        rw [if_pos ⟨rfl, rfl⟩, ← hentry]
        simp [property, hpr]
      · rw [if_neg fun e => hj e.2]
        simp [property, hold j]
    · rw [if_neg fun e => hd e.1]
      simp [property, hd]
  · next hno =>
    have hnone : s.property c i = none := by
      rw [← hentry]
      cases h : array[i]? with
      | none => rfl
      | some o =>
        cases o with
        | none => rfl
        | some pr => exact absurd h (hno pr)
    by_cases hd : d = c
    · subst hd
      by_cases hj : j = i
      · subst hj
        rw [if_pos ⟨rfl, rfl⟩, hnone]
        simp [property, hlt]
      · rw [if_neg fun e => hj e.2]
        simp [property, Ne.symm hj, hold j]
    · rw [if_neg fun e => hd e.1]
      simp [property, hd]

/-- Only the entries differ. -/
def OnlyProperties (s s' : IcSystem V) : Prop := ∃ properties, s' = { s with properties := properties }

theorem OnlyProperties.refl (s : IcSystem V) : OnlyProperties s s := ⟨s.properties, rfl⟩

theorem OnlyProperties.trans {s s' s'' : IcSystem V} (h : OnlyProperties s s')
    (h' : OnlyProperties s' s'') : OnlyProperties s s'' := by
  obtain ⟨a, rfl⟩ := h
  obtain ⟨b, rfl⟩ := h'
  exact ⟨b, rfl⟩

theorem OnlyProperties.samePolicies {s s' : IcSystem V} (h : OnlyProperties s s') :
    SamePolicies s.toInputContextManager s'.toInputContextManager := by
  obtain ⟨a, rfl⟩ := h
  exact ⟨rfl, rfl, rfl, rfl⟩

theorem OnlyProperties.dict {s s' : IcSystem V} (h : OnlyProperties s s') : s'.dict = s.dict := by
  obtain ⟨a, rfl⟩ := h
  rfl

/-- The groups do not depend on the entries, only on the assignment. -/
theorem OnlyProperties.sharedInv {s s' : IcSystem V} (h : OnlyProperties s s')
    {cls : PropertyPtr → Option ClassKey} {G : HeadPtr → List PropertyPtr}
    (hinv : SharedInv s.toInputContextManager cls G) :
    SharedInv s'.toInputContextManager cls G := by
  obtain ⟨a, rfl⟩ := h
  exact ⟨hinv.classes, hinv.heads_iff, hinv.heads_lt, hinv.heads_nodup, hinv.keys_nodup, hinv.slots,
    hinv.live⟩

theorem getPropertyEntry_only (s : IcSystem V) (c : ContextPtr) (i : ℕ) :
    OnlyProperties s (s.getPropertyEntry c i) := by
  unfold getPropertyEntry
  dsimp only
  split <;> exact ⟨_, rfl⟩

theorem modifyProperty_only (s : IcSystem V) (c : ContextPtr) (i : ℕ)
    (f : Property V → Property V) : OnlyProperties s (s.modifyProperty c i f) := ⟨_, rfl⟩

/-! ### Leaving and joining -/

variable {s : IcSystem V} {cls : PropertyPtr → Option ClassKey} {G : HeadPtr → List PropertyPtr}
  {c : ContextPtr} {i : ℕ} {p : PolicyPtr} {key : Bytes} {head : HeadPtr}

/-- Taking an entry out of the dictionary of a policy. -/
theorem propertyDictRemove_spec (hnd : ∀ policy ∈ s.policies, (Assoc.keys policy.propertyDict).Nodup)
    (hk : s.dict (p, key) = some head) :
    let s' := s.propertyDictRemove p key
    s'.dict = Function.update s.dict (p, key) none ∧ s'.heads = s.heads.erase head ∧
      (∀ policy ∈ s'.policies, (Assoc.keys policy.propertyDict).Nodup) ∧
      SamePolicies s.toInputContextManager s'.toInputContextManager ∧
      s'.properties = s.properties ∧ s'.propertyLinks = s.propertyLinks ∧ s'.headTop = s.headTop := by
  obtain ⟨policy, hp, hl⟩ := SharedInv.dict_eq_some hk
  have hpnd := hnd policy (List.mem_of_getElem? hp)
  simp only [propertyDictRemove, hp, hl]
  refine ⟨?_, trivial, keys_nodup_set hnd (Assoc.keys_erase_nodup hpnd),
    ⟨rfl, rfl, rfl, signature_set hp _⟩, trivial, trivial, trivial⟩
  funext k
  show dictOf _ k = _
  rw [dictOf_set hp]
  by_cases hkp : k.1 = p
  · have hkk : k = (p, key) ↔ k.2 = key := by
      rw [Prod.ext_iff]
      exact ⟨And.right, fun e => ⟨hkp, e⟩⟩
    rw [if_pos hkp, Assoc.lookup_erase hpnd, Function.update_apply]
    simp only [hkk]
    split
    · rfl
    · simp [dict, dictOf, hkp, hp]
  · rw [if_neg hkp, Function.update_of_ne fun e => hkp (by rw [e])]
    rfl

/-- **Leaving a group.** The key of the data that the property has now must be
the key it is linked under, for the dictionary is written under the former. -/
theorem leaveHead_spec (h : SharedInv s.toInputContextManager cls G) (hcls : cls (c, i) = some (p, key))
    (hk : s.dict (p, key) = some head) (hkey : s.keyOf p (s.value c i) = key) :
    let s' := s.leaveHead c i p head
    (∃ G', SharedInv s'.toInputContextManager (Function.update cls (c, i) none) G') ∧
      SamePolicies s.toInputContextManager s'.toInputContextManager ∧
      s'.properties = s.properties ∧ ∀ k h, s'.dict k = some h → s.dict k = some h := by
  obtain ⟨G', hleave⟩ : ∃ G', Classes (s.unlinkProperty c i).propertyLinks
      (if (s.unlinkProperty c i).propertyLinks.isEmpty (.inl head) then
        Function.update s.dict (p, key) none else s.dict) (Function.update cls (c, i) none) G' :=
    ⟨_, h.classes.leave hk hcls⟩
  have hlive : ∀ x k, Function.update cls (c, i) none x = some k →
      x.1 ∈ s.ics ∧ s.slotPolicy x.2 = some k.1 := by
    intro x k hx
    by_cases hxc : x = (c, i)
    · rw [hxc, Function.update_self] at hx
      cases hx
    · rw [Function.update_of_ne hxc] at hx
      exact h.live x k hx
  unfold leaveHead
  simp only
  by_cases hempty : (s.unlinkProperty c i).propertyLinks.isEmpty (.inl head) = true
  · -- the last member: the head goes, and its entry
    obtain ⟨policy, hp, -⟩ := SharedInv.dict_eq_some hk
    have hkey' : policy.propertyKey ((s.unlinkProperty c i).value c i) = key := by
      rw [← hkey, keyOf, hp]
      rfl
    have hp' : (s.unlinkProperty c i).policies[p]? = some policy := hp
    rw [if_pos hempty, hp']
    simp only [hkey']
    rw [if_pos hempty] at hleave
    obtain ⟨hdict, hheads, hnd, hsame, hprops, hlinks, htop⟩ :=
      propertyDictRemove_spec (s := s.unlinkProperty c i) h.keys_nodup hk
    set s' := (s.unlinkProperty c i).propertyDictRemove p key with hs'
    have hsame' : SamePolicies s.toInputContextManager s'.toInputContextManager :=
      ⟨hsame.ics, hsame.propertySlots, hsame.policy, hsame.signature⟩
    have hdict' : s'.dict = Function.update s.dict (p, key) none := hdict
    have hheads' : s'.heads = s.heads.erase head := hheads
    refine ⟨⟨G', ?_, fun h' => ?_, fun h' hh => ?_, ?_, hnd, hsame'.slots h.slots, fun x k hx => ?_⟩,
      hsame', hprops, fun k h' hk' => ?_⟩
    · rw [hdict', hlinks]
      exact hleave
    · rw [hheads', hdict', h.heads_nodup.mem_erase_iff, h.heads_iff]
      constructor
      · rintro ⟨hne, k, hk'⟩
        refine ⟨k, ?_⟩
        rw [Function.update_of_ne fun e => by
          rw [e, hk] at hk'
          exact hne (Option.some.inj hk').symm]
        exact hk'
      · rintro ⟨k, hk'⟩
        by_cases hkk : k = (p, key)
        · rw [hkk, Function.update_self] at hk'
          cases hk'
        · rw [Function.update_of_ne hkk] at hk'
          exact ⟨fun e => hkk (h.classes.inj k (p, key) head (e ▸ hk') hk), k, hk'⟩
    · rw [htop]
      rw [hheads'] at hh
      exact h.heads_lt h' (List.mem_of_mem_erase hh)
    · rw [hheads']
      exact h.heads_nodup.erase head
    · rw [hsame'.ics, hsame'.slotPolicy]
      exact hlive x k hx
    · rw [hdict'] at hk'
      by_cases hkk : k = (p, key)
      · rw [hkk, Function.update_self] at hk'
        cases hk'
      · rwa [Function.update_of_ne hkk] at hk'
  · rw [if_neg hempty]
    rw [if_neg hempty] at hleave
    exact ⟨⟨G', hleave, h.heads_iff, h.heads_lt, h.heads_nodup, h.keys_nodup, h.slots, hlive⟩,
      ⟨rfl, rfl, rfl, rfl⟩, rfl, fun _ _ => id⟩

/-- Making the head of a new class. -/
theorem headFor_new (h : SharedInv s.toInputContextManager cls G) {policy : SharedStatePolicy V}
    (hp : s.policies[p]? = some policy) (hl : policy.propertyDict.lookup key = none) :
    let s' := (s.headFor p policy key).2
    (s.headFor p policy key).1 = s.headTop ∧
      s'.dict = Function.update s.dict (p, key) (some s.headTop) ∧
      s'.heads = s.heads ++ [s.headTop] ∧ s'.headTop = s.headTop + 1 ∧
      (∀ policy ∈ s'.policies, (Assoc.keys policy.propertyDict).Nodup) ∧
      SamePolicies s.toInputContextManager s'.toInputContextManager ∧
      s'.properties = s.properties ∧ s'.propertyLinks = s.propertyLinks.init (.inl s.headTop) := by
  have hpnd := h.keys_nodup policy (List.mem_of_getElem? hp)
  simp only [headFor, hl]
  refine ⟨trivial, ?_, trivial, trivial, keys_nodup_set h.keys_nodup (Assoc.keys_concat_nodup hpnd hl),
    ⟨rfl, rfl, rfl, signature_set hp _⟩, trivial, trivial⟩
  funext k
  show dictOf _ k = _
  rw [dictOf_set hp]
  by_cases hkp : k.1 = p
  · have hkk : k = (p, key) ↔ k.2 = key := by
      rw [Prod.ext_iff]
      exact ⟨And.right, fun e => ⟨hkp, e⟩⟩
    rw [if_pos hkp, Assoc.lookup_concat hl, Function.update_apply]
    simp only [hkk]
    split
    · rfl
    · simp [dict, dictOf, hkp, hp]
  · rw [if_neg hkp, Function.update_of_ne fun e => hkp (by rw [e])]
    rfl

/-- **Joining a group**: the head is found or made, and the property linked to it. -/
theorem headFor_spec (key : Bytes) (h : SharedInv s.toInputContextManager cls G) (hcls : cls (c, i) = none)
    (hc : c ∈ s.ics) (hslot : s.slotPolicy i = some p) {policy : SharedStatePolicy V}
    (hp : s.policies[p]? = some policy) :
    let head := (s.headFor p policy key).1
    let s' := (s.headFor p policy key).2.linkProperty c i head
    (∃ G', SharedInv s'.toInputContextManager (Function.update cls (c, i) (some (p, key))) G') ∧
      SamePolicies s.toInputContextManager s'.toInputContextManager ∧
      s'.properties = s.properties ∧ s'.dict (p, key) = some head ∧
      ∀ k h, s.dict k = some h → s'.dict k = some h := by
  have hlive : ∀ x k, Function.update cls (c, i) (some (p, key)) x = some k →
      x.1 ∈ s.ics ∧ s.slotPolicy x.2 = some k.1 := by
    intro x k hx
    by_cases hxc : x = (c, i)
    · rw [hxc, Function.update_self, Option.some.injEq] at hx
      rw [hxc, ← hx]
      exact ⟨hc, hslot⟩
    · rw [Function.update_of_ne hxc] at hx
      exact h.live x k hx
  cases hl : policy.propertyDict.lookup key with
  | some head =>
    have hk : s.dict (p, key) = some head := by
      simp [dict, dictOf, hp, hl]
    have hfound : s.headFor p policy key = (head, s) := by
      simp only [headFor, hl]
    rw [hfound]
    exact ⟨⟨_, h.classes.join hk hcls, h.heads_iff, h.heads_lt, h.heads_nodup, h.keys_nodup, h.slots,
      hlive⟩, ⟨rfl, rfl, rfl, rfl⟩, rfl, hk, fun _ _ => id⟩
  | none =>
    have hk : s.dict (p, key) = none := by
      simp [dict, dictOf, hp, hl]
    have hfresh : ∀ k, s.dict k ≠ some s.headTop := fun k hk' =>
      absurd (h.heads_lt _ ((h.heads_iff _).mpr ⟨k, hk'⟩)) (Nat.lt_irrefl _)
    have hold : ∀ {k h'}, s.dict k = some h' →
        Function.update s.dict (p, key) (some s.headTop) k = some h' := by
      intro k h' hk'
      rw [Function.update_of_ne fun e => by rw [e, hk] at hk'; cases hk']
      exact hk'
    have hjoin := h.classes.joinNew hk hfresh hcls
    obtain ⟨hhead, hdict, hheads, htop, hnd, hsame, hprops, hlinks⟩ := headFor_new h hp hl
    rw [hhead]
    set s₁ := (s.headFor p policy key).2 with hs₁
    have hdict' : (s₁.linkProperty c i s.headTop).dict = _ := hdict
    have hheads' : (s₁.linkProperty c i s.headTop).heads = _ := hheads
    have hsame' : SamePolicies s.toInputContextManager
        (s₁.linkProperty c i s.headTop).toInputContextManager :=
      ⟨hsame.ics, hsame.propertySlots, hsame.policy, hsame.signature⟩
    have htop' : (s₁.linkProperty c i s.headTop).headTop = s.headTop + 1 := htop
    have hnotin : s.headTop ∉ s.heads := fun hm => absurd (h.heads_lt _ hm) (Nat.lt_irrefl _)
    refine ⟨⟨Function.update G s.headTop [(c, i)], ?_, fun h' => ?_, fun h' hh => ?_, ?_, hnd,
      hsame'.slots h.slots, fun x k hx => ?_⟩, hsame', hprops, ?_, fun k h' hk' => ?_⟩
    · show Classes (s₁.propertyLinks.append (.inr (c, i)) (.inl s.headTop)) _ _ _
      rw [hdict', hlinks]
      exact hjoin
    · rw [hheads', hdict', List.mem_append, List.mem_singleton, h.heads_iff]
      constructor
      · rintro (⟨k, hk'⟩ | rfl)
        · exact ⟨k, hold hk'⟩
        · exact ⟨(p, key), Function.update_self ..⟩
      · rintro ⟨k, hk'⟩
        by_cases hkk : k = (p, key)
        · rw [hkk, Function.update_self] at hk'
          exact Or.inr (Option.some.inj hk').symm
        · rw [Function.update_of_ne hkk] at hk'
          exact Or.inl ⟨k, hk'⟩
    · rw [hheads'] at hh
      rw [htop']
      rcases List.mem_append.mp hh with hh | hh
      · exact Nat.lt_succ_of_lt (h.heads_lt h' hh)
      · rw [List.mem_singleton.mp hh]
        exact Nat.lt_succ_self _
    · rw [hheads', ← List.concat_eq_append]
      exact List.Nodup.concat hnotin h.heads_nodup
    · rw [hsame'.ics, hsame'.slotPolicy]
      exact hlive x k hx
    · rw [hdict', Function.update_self]
    · rw [hdict']
      exact hold hk'

end IcSystem
end Fcitx
