/-
# What the shared-state groups are for

`PolicyGroups` says of a policy what its user relies on: the lists that its
dictionary leads to are the classes of the key of the present values. It
follows from `Shared` (`Shared.groupsLaw`), and conversely lists that are the
classes of some assignment are right only if the assignment is that of the
present values (`GroupsLaw.classOf_eq`).

Key definitions: `PolicyGroups`, `GroupsLaw`.
Key theorems: `Shared.groupsLaw`, `GroupsLaw.classOf_eq`.
-/
import Fcitx.InputContext.Propagation

namespace Fcitx

open InputContextManager IcSystem

variable {V : Type}

/-! ### What the groups are for -/

/-- The key of the value of `c` for a policy; a context that never had a value has none. -/
def InputContextManager.keyIn (m : InputContextManager V) (policy : SharedStatePolicy V)
    (c : ContextPtr) : Bytes :=
  match m.property c policy.id with
  | some pr => policy.propertyKey pr.data
  | none => []

/-- The groups of a policy are the classes of its key. -/
structure PolicyGroups (m : InputContextManager V) (policy : SharedStatePolicy V) : Prop where
  /-- a context with a key is in exactly one list, once -/
  one_list : ∀ c ∈ m.ics, m.keyIn policy c ≠ [] → ∃ head ∈ m.heads,
    (m.headEntries head).count (c, policy.id) = 1 ∧
      ∀ head' ∈ m.heads, (c, policy.id) ∈ m.headEntries head' → head' = head
  /-- two contexts are in one list if and only if they have one key -/
  together : ∀ c ∈ m.ics, ∀ d ∈ m.ics,
    (∃ head ∈ m.heads, (c, policy.id) ∈ m.headEntries head ∧ (d, policy.id) ∈ m.headEntries head) ↔
      m.keyIn policy c = m.keyIn policy d ∧ m.keyIn policy c ≠ []
  /-- a context without a key is in none -/
  no_list : ∀ c ∈ m.ics, m.keyIn policy c = [] → ∀ head ∈ m.heads,
    (c, policy.id) ∉ m.headEntries head
  /-- the dictionary knows the keys of the groups that are not empty, and leads to their heads -/
  dict_iff : ∀ key head, policy.propertyDict.lookup key = some head ↔
    key ≠ [] ∧ head ∈ m.heads ∧
      ∃ c ∈ m.ics, m.keyIn policy c = key ∧ (c, policy.id) ∈ m.headEntries head
  /-- nothing else is in the lists, and they are well linked -/
  members : ∀ key head, policy.propertyDict.lookup key = some head →
    LinkRing m.propertyLinks (.inl head) ((m.headEntries head).map .inr) ∧
      ∀ x ∈ m.headEntries head, ∃ c ∈ m.ics, x = (c, policy.id) ∧ m.keyIn policy c = key
  /-- the head a property points at is that of its group -/
  pointer : ∀ c ∈ m.ics, m.headOf (c, policy.id) =
    if m.keyIn policy c = [] then none else policy.propertyDict.lookup (m.keyIn policy c)

/-- The groups of all policies. -/
def GroupsLaw (m : InputContextManager V) : Prop := ∀ policy ∈ m.policies, PolicyGroups m policy

section law

variable {m : InputContextManager V} {cls : PropertyPtr → Option ClassKey}
  {G : HeadPtr → List PropertyPtr} {p : PolicyPtr} {policy : SharedStatePolicy V} {c : ContextPtr}

theorem headEntries_eq (h : SharedInv m cls G) (hlt : ∀ c ∈ m.ics, c < m.ctxTop) {k : ClassKey}
    {head : HeadPtr} (hk : m.dict k = some head) : m.headEntries head = G head :=
  h.classes.rings.entries_eq ⟨k, hk⟩ (members_length h hlt hk)

/-- The class of a context for a policy, by its key. -/
theorem classOf_policy (h : SharedInv m cls G) (hp : m.policies[p]? = some policy) (hc : c ∈ m.ics) :
    m.classOf (c, policy.id) =
      if m.keyIn policy c = [] then none else some (p, m.keyIn policy c) := by
  have hslot : m.slotPolicy policy.id = some p := (h.slots _ _).mpr ⟨policy, hp, rfl⟩
  rw [classOf, if_pos hc, keyIn]
  dsimp only
  cases m.property c policy.id with
  | none => rfl
  | some pr =>
    rw [Option.bind_some, classAt, hslot]
    simp only [keyOf, hp]

theorem dict_policy (hp : m.policies[p]? = some policy) (key : Bytes) :
    m.dict (p, key) = policy.propertyDict.lookup key := by
  simp [dict, dictOf, hp]

/-- **Right lists give right groups.** -/
theorem Shared.policyGroups (h : Shared m G) (hlt : ∀ c ∈ m.ics, c < m.ctxTop)
    (hp : m.policies[p]? = some policy) : PolicyGroups m policy := by
  have hclass := fun {c : ContextPtr} (hc : c ∈ m.ics) => classOf_policy h.inv hp hc
  have hslot : m.slotPolicy policy.id = some p := (h.inv.slots _ _).mpr ⟨policy, hp, rfl⟩
  -- who is in the list of a head
  have hmem : ∀ {c head}, c ∈ m.ics → head ∈ m.heads → ((c, policy.id) ∈ m.headEntries head ↔
      m.keyIn policy c ≠ [] ∧ policy.propertyDict.lookup (m.keyIn policy c) = some head) := by
    intro c head hc hhead
    obtain ⟨k, hk⟩ := (h.inv.heads_iff head).mp hhead
    rw [headEntries_eq h.inv hlt hk, h.inv.classes.mem_iff k head hk, hclass hc, ← dict_policy hp]
    by_cases hkey : m.keyIn policy c = []
    · simp [hkey]
    · simp only [hkey, if_false, ne_eq, not_false_eq_true, true_and, Option.some.injEq]
      constructor
      · rintro rfl
        exact hk
      · intro hk'
        exact h.inv.classes.inj _ _ head hk' hk
  have hfound : ∀ {c}, c ∈ m.ics → m.keyIn policy c ≠ [] →
      ∃ head ∈ m.heads, policy.propertyDict.lookup (m.keyIn policy c) = some head := by
    intro c hc hkey
    have hcls := hclass hc
    rw [if_neg hkey] at hcls
    obtain ⟨head, hk⟩ := h.inv.classes.entry _ _ hcls
    exact ⟨head, (h.inv.heads_iff head).mpr ⟨_, hk⟩, by rw [← dict_policy hp]; exact hk⟩
  refine ⟨fun c hc hkey => ?_, fun c hc d hd => ?_, fun c hc hkey head hhead hm => ?_,
    fun key head => ?_, fun key head hl => ?_, fun c hc => ?_⟩
  · obtain ⟨head, hhead, hl⟩ := hfound hc hkey
    refine ⟨head, hhead, ?_, fun head' hhead' hm => ?_⟩
    · refine List.count_eq_one_of_mem ?_ ((hmem hc hhead).mpr ⟨hkey, hl⟩)
      obtain ⟨k, hk⟩ := (h.inv.heads_iff head).mp hhead
      rw [headEntries_eq h.inv hlt hk]
      exact h.inv.classes.nodup hk
    · exact Option.some.inj (((hmem hc hhead').mp hm).2.symm.trans hl)
  · constructor
    · rintro ⟨head, hhead, hcm, hdm⟩
      obtain ⟨hkey, hcl⟩ := (hmem hc hhead).mp hcm
      obtain ⟨-, hdl⟩ := (hmem hd hhead).mp hdm
      rw [← dict_policy hp] at hcl hdl
      exact ⟨(Prod.mk.inj (h.inv.classes.inj _ _ head hcl hdl)).2, hkey⟩
    · rintro ⟨heq, hkey⟩
      obtain ⟨head, hhead, hl⟩ := hfound hc hkey
      exact ⟨head, hhead, (hmem hc hhead).mpr ⟨hkey, hl⟩, (hmem hd hhead).mpr ⟨heq ▸ hkey, heq ▸ hl⟩⟩
  · exact ((hmem hc hhead).mp hm).1 hkey
  · constructor
    · intro hl
      have hk : m.dict (p, key) = some head := by rw [dict_policy hp, hl]
      have hhead := (h.inv.heads_iff head).mpr ⟨_, hk⟩
      obtain ⟨x, hx⟩ := List.exists_mem_of_ne_nil _ (h.inv.classes.nonempty _ head hk)
      have hxk := (h.inv.classes.mem_iff _ head hk x).mp hx
      obtain ⟨hxc, hxs⟩ := h.inv.live x _ hxk
      obtain ⟨c, i⟩ := x
      obtain rfl : i = policy.id := h.inv.slot_unique hxs hslot
      have hcls := hclass hxc
      rw [hxk] at hcls
      split at hcls
      · cases hcls
      · next hkey =>
        have hkk : key = m.keyIn policy c := (Prod.mk.inj (Option.some.inj hcls)).2
        refine ⟨hkk ▸ hkey, hhead, c, hxc, hkk.symm, ?_⟩
        rw [headEntries_eq h.inv hlt hk]
        exact hx
    · rintro ⟨hkey, hhead, c, hc, rfl, hm⟩
      exact ((hmem hc hhead).mp hm).2
  · have hk : m.dict (p, key) = some head := by rw [dict_policy hp, hl]
    rw [headEntries_eq h.inv hlt hk]
    refine ⟨h.inv.classes.rings.ring head ⟨_, hk⟩, fun x hx => ?_⟩
    have hxk := (h.inv.classes.mem_iff _ head hk x).mp hx
    obtain ⟨hxc, hxs⟩ := h.inv.live x _ hxk
    obtain ⟨c, i⟩ := x
    obtain rfl : i = policy.id := h.inv.slot_unique hxs hslot
    have hcls := hclass hxc
    rw [hxk] at hcls
    split at hcls
    · cases hcls
    · exact ⟨c, hxc, rfl, ((Prod.mk.inj (Option.some.inj hcls)).2).symm⟩
  · rw [h.headed (c, policy.id) hc, hclass hc]
    split
    · rfl
    · rw [Option.bind_some, dict_policy hp]

theorem Shared.groupsLaw (h : Shared m G) (hlt : ∀ c ∈ m.ics, c < m.ctxTop) : GroupsLaw m := by
  intro policy hpolicy
  obtain ⟨p, hp⟩ := List.getElem?_of_mem hpolicy
  exact h.policyGroups hlt hp

/-- Right groups are those of the present values. -/
theorem GroupsLaw.classOf_eq (hlaw : GroupsLaw m) (h : SharedInv m cls G)
    (hlt : ∀ c ∈ m.ics, c < m.ctxTop) : m.classOf = cls := by
  funext x
  obtain ⟨c, i⟩ := x
  have hhead : ∀ {k head}, m.dict k = some head → head ∈ m.heads := fun hk =>
    (h.heads_iff _).mpr ⟨_, hk⟩
  cases hx : m.classOf (c, i) with
  | some k =>
    have hc : c ∈ m.ics := by
      by_contra hm
      rw [classOf, if_neg hm] at hx
      cases hx
    -- the slot has a policy, and the context is in the list of its key
    cases hslot : m.slotPolicy i with
    | none =>
      rw [classOf_of_slotPolicy_none hslot] at hx
      cases hx
    | some p =>
      obtain ⟨policy, hp, rfl⟩ := (h.slots _ _).mp hslot
      rw [classOf_policy h hp hc] at hx
      split at hx
      · cases hx
      · next hkey =>
        have hg := hlaw policy (List.mem_of_getElem? hp)
        obtain ⟨head, hheads, hcount, -⟩ := hg.one_list c hc hkey
        have hm : (c, policy.id) ∈ m.headEntries head := by
          rw [← List.count_pos_iff, hcount]
          exact Nat.one_pos
        have hl := (hg.dict_iff _ head).mpr ⟨hkey, hheads, c, hc, rfl, hm⟩
        rw [← dict_policy hp] at hl
        rw [headEntries_eq h hlt hl, h.classes.mem_iff _ head hl] at hm
        rw [hm, ← hx]
  | none =>
    cases hcls : cls (c, i) with
    | none => rfl
    | some k =>
      obtain ⟨hc, hslot⟩ := h.live _ k hcls
      obtain ⟨policy, hp, rfl⟩ := (h.slots _ _).mp hslot
      obtain ⟨head, hk⟩ := h.classes.entry _ k hcls
      have hkey : m.keyIn policy c = [] := by
        by_contra hkey
        rw [classOf_policy h hp hc, if_neg hkey] at hx
        cases hx
      have hout := (hlaw policy (List.mem_of_getElem? hp)).no_list c hc hkey head (hhead hk)
      rw [headEntries_eq h hlt hk, h.classes.mem_iff k head hk] at hout
      exact absurd hcls hout

end law

end Fcitx
