/-
# Copying to the other members

After `fcitx_input_context_set_property` has stored a value, it copies the
state of the context to the other members of its group in the active policy.
`Copied` says what a number of such copies does to the entries: each target
gets the copied value, the source gets the entries it was asked for, everything
else stays, and no property changes its head. The groups therefore stay as they
were, and the values may no longer be those the groups are for: they are
exactly if no copy changes a key (`propagate_classOf_iff`).

Key definitions: `Copied`, `Pushed`, `KeysKept`.
Key theorems: `Copied.comp`, `propagate_copied`, `propagate_classOf_iff`.
-/
import Fcitx.InputContext.Regroup

namespace Fcitx

open InputContextManager

variable {V : Type}

/-- `copyProperty` of slot `i`. -/
def InputContextManager.copyFn (m : InputContextManager V) (i : ℕ) : Option (SetPropertyCallback V) :=
  (m.propertySlots[i]?).bind (·.copyProperty)

namespace IcSystem

/-- `s'` is `s` after the state of `c` was copied to the entries `tgt`. -/
structure Copied (s s' : IcSystem V) (c : ContextPtr) (tgt : PropertyPtr → Prop) : Prop where
  only : OnlyProperties s s'
  copied : ∀ x f, tgt x → s.copyFn x.2 = some f →
    s'.property x.1 x.2 = some ⟨f (s.value x.1 x.2) (s.value c x.2), s.headOf x⟩
  source : ∀ d j f, tgt (d, j) → s.copyFn j = some f →
    s'.property c j = some ⟨s.value c j, s.headOf (c, j)⟩
  other : ∀ x : PropertyPtr, (tgt x → s.copyFn x.2 = none) →
    (x.1 = c → ∀ d, tgt (d, x.2) → s.copyFn x.2 = none) →
    s'.property x.1 x.2 = s.property x.1 x.2

theorem OnlyProperties.copyFn {s s' : IcSystem V} (h : OnlyProperties s s') : s'.copyFn = s.copyFn := by
  obtain ⟨a, rfl⟩ := h
  rfl

namespace Copied

variable {s s' s'' : IcSystem V} {c : ContextPtr} {tgt tgt' : PropertyPtr → Prop}

theorem refl (s : IcSystem V) (c : ContextPtr) : Copied s s c fun _ => False :=
  ⟨.refl s, fun _ _ h => h.elim, fun _ _ _ h => h.elim, fun _ _ _ => rfl⟩

/-- Only the slots with a `copyProperty` matter. -/
theorem congr (h : Copied s s' c tgt) (hto : ∀ x f, s.copyFn x.2 = some f → (tgt x ↔ tgt' x)) :
    Copied s s' c tgt' := by
  have hno : ∀ {x : PropertyPtr}, (tgt' x → s.copyFn x.2 = none) → tgt x → s.copyFn x.2 = none := by
    intro x hx ht
    cases hf : s.copyFn x.2 with
    | none => rfl
    | some f => rw [← hf]; exact hx ((hto x f hf).mp ht)
  exact ⟨h.only, fun x f hx hf => h.copied x f ((hto x f hf).mpr hx) hf,
    fun d j f hx hf => h.source d j f ((hto (d, j) f hf).mpr hx) hf,
    fun x hx hsrc => h.other x (hno hx) fun hc d => hno (x := (d, x.2)) (hsrc hc d)⟩

/-- What an entry is afterwards, where it was touched. -/
theorem cases (h : Copied s s' c tgt) (x : PropertyPtr) :
    (∃ f, s.copyFn x.2 = some f ∧ tgt x) ∨ (∃ f d, s.copyFn x.2 = some f ∧ x.1 = c ∧ tgt (d, x.2)) ∨
      s'.property x.1 x.2 = s.property x.1 x.2 := by
  cases hf : s.copyFn x.2 with
  | none => exact Or.inr (Or.inr (h.other x (fun _ => hf) fun _ _ _ => hf))
  | some f =>
    by_cases hx : tgt x
    · exact Or.inl ⟨f, rfl, hx⟩
    · by_cases hsrc : x.1 = c ∧ ∃ d, tgt (d, x.2)
      · obtain ⟨hc, d, hd⟩ := hsrc
        exact Or.inr (Or.inl ⟨f, d, rfl, hc, hd⟩)
      · exact Or.inr (Or.inr (h.other x (fun hx' => absurd hx' hx) fun hc d hd =>
          absurd ⟨hc, d, hd⟩ hsrc))

theorem headOf (h : Copied s s' c tgt) (x : PropertyPtr) : s'.headOf x = s.headOf x := by
  rcases h.cases x with ⟨f, hf, hx⟩ | ⟨f, d, hf, hc, hd⟩ | hsame
  · rw [InputContextManager.headOf, h.copied x f hx hf]
    rfl
  · have := h.source d x.2 f hd hf
    obtain ⟨e, j⟩ := x
    obtain rfl : e = c := hc
    rw [InputContextManager.headOf, this]
    rfl
  · rw [InputContextManager.headOf, hsame]
    rfl

theorem value (h : Copied s s' c tgt) {x : PropertyPtr} (hx : ¬ tgt x) :
    s'.value x.1 x.2 = s.value x.1 x.2 := by
  rcases h.cases x with ⟨f, hf, hx'⟩ | ⟨f, d, hf, hc, hd⟩ | hsame
  · exact absurd hx' hx
  · have := h.source d x.2 f hd hf
    obtain ⟨e, j⟩ := x
    obtain rfl : e = c := hc
    rw [InputContextManager.value, this]
    rfl
  · rw [InputContextManager.value, hsame]
    rfl

/-- **Copies to different targets add up.** -/
theorem comp (h : Copied s s' c tgt) (h' : Copied s' s'' c tgt') (hdisj : ∀ x, tgt x → ¬ tgt' x)
    (hc : ∀ x, tgt x ∨ tgt' x → x.1 ≠ c) : Copied s s'' c fun x => tgt x ∨ tgt' x := by
  have hfn := h.only.copyFn
  have hsrc : ∀ j, s'.value c j = s.value c j := fun j =>
    h.value (x := (c, j)) fun hx => hc _ (Or.inl hx) rfl
  refine ⟨h.only.trans h'.only, fun x f hx hf => ?_, fun d j f hx hf => ?_, fun x hx hx' => ?_⟩
  · rcases hx with hx | hx
    · rw [h'.other x (fun hx' => absurd hx' (hdisj x hx)) fun e => absurd e (hc x (Or.inl hx)),
        h.copied x f hx hf]
    · rw [h'.copied x f hx (hfn ▸ hf), h.headOf, hsrc,
        h.value fun hx' => hdisj x hx' hx]
  · by_cases hj : ∃ e, tgt' (e, j)
    · obtain ⟨e, he⟩ := hj
      rw [h'.source e j f he (hfn ▸ hf), hsrc, h.headOf]
    · have hd : tgt (d, j) := hx.resolve_right fun hx' => hj ⟨d, hx'⟩
      have hcj : ¬ tgt' (c, j) := fun hx' => hj ⟨c, hx'⟩
      rw [h'.other (c, j) (fun hx' => absurd hx' hcj) fun _ e he => absurd ⟨e, he⟩ hj]
      exact h.source d j f hd hf
  · rw [h'.other x (fun hx'' => by rw [hfn]; exact hx (Or.inr hx'')) fun e d hd => by
      rw [hfn]; exact hx' e d (Or.inr hd)]
    exact h.other x (fun hx'' => hx (Or.inl hx'')) fun e d hd => hx' e d (Or.inl hd)

end Copied

/-! ### The loops -/

variable {s : IcSystem V} {c d : ContextPtr} {i : ℕ}

theorem copySlot_copied (s : IcSystem V) (hd : d ≠ c) (j : ℕ) :
    Copied s (s.copySlot d c j) c fun x => x = (d, j) := by
  unfold copySlot
  cases hf : (s.propertySlots[j]?).bind (·.copyProperty) with
  | none =>
    have hno : ∀ {x : PropertyPtr}, x = (d, j) → s.copyFn x.2 = none := by
      rintro x rfl
      exact hf
    refine ⟨.refl s, fun x f hx hf' => ?_, fun e k f hx hf' => ?_, fun _ _ _ => rfl⟩
    · rw [hno hx] at hf'
      cases hf'
    · have := hno hx
      rw [hf'] at this
      cases this
  | some f =>
    dsimp only
    set s₁ := s.getPropertyEntry c j with hs₁
    set s₂ := s₁.getPropertyEntry d j with hs₂
    have hfn : s.copyFn j = some f := hf
    have hdc : ((d, j) : PropertyPtr) ≠ (c, j) := fun e => hd (Prod.mk.inj e).1
    have h₁ : ∀ x : PropertyPtr, s₁.property x.1 x.2 =
        if x = (c, j) then some ((s.property c j).getD ⟨none, none⟩) else s.property x.1 x.2 :=
      s.getPropertyEntry_property c j
    have h₂ : ∀ x : PropertyPtr, s₂.property x.1 x.2 =
        if x = (d, j) then some ((s.property d j).getD ⟨none, none⟩) else s₁.property x.1 x.2 := by
      intro x
      have := s₁.getPropertyEntry_property d j x
      rwa [h₁ (d, j), if_neg hdc] at this
    obtain ⟨hcdata, hchead⟩ := getD_data s.toInputContextManager c j
    obtain ⟨hddata, hdhead⟩ := getD_data s.toInputContextManager d j
    have hsrc : s₂.property c j = some ((s.property c j).getD ⟨none, none⟩) := by
      rw [h₂ (c, j), if_neg (Ne.symm hdc), h₁ (c, j), if_pos rfl]
    have hvalue : s₂.value c j = s.value c j := by
      rw [InputContextManager.value, hsrc, ← hcdata]
      rfl
    have hget : ∀ x : PropertyPtr,
        (s₂.modifyProperty d j fun pr => { pr with data := f pr.data (s₂.value c j) }).property x.1 x.2 =
          if x = (d, j) then some ⟨f (s.value d j) (s.value c j), s.headOf (d, j)⟩
          else s₁.property x.1 x.2 := by
      intro x
      rw [modifyProperty_property, h₂ (d, j), if_pos rfl, h₂ x, hvalue, ← hddata, ← hdhead]
      split <;> rfl
    refine ⟨((s.getPropertyEntry_only c j).trans (s₁.getPropertyEntry_only d j)).trans
      (s₂.modifyProperty_only d j _), ?_, ?_, fun x hx hx' => ?_⟩
    · rintro x f' rfl hf'
      rw [hget (d, j), if_pos rfl, Option.some.inj (hfn.symm.trans hf')]
    · rintro e k f' he hf'
      obtain ⟨rfl, rfl⟩ := Prod.mk.inj he
      rw [hget (c, k), if_neg (Ne.symm hdc), h₁ (c, k), if_pos rfl, ← hcdata, ← hchead]
    · have hne : x ≠ (d, j) := by
        rintro rfl
        have := hx rfl
        rw [hfn] at this
        cases this
      have hnc : x ≠ (c, j) := by
        rintro rfl
        have := hx' rfl d rfl
        rw [hfn] at this
        cases this
      rw [hget x, if_neg hne, h₁ x, if_neg hnc]

theorem copySlots_copied (hd : d ≠ c) :
    ∀ (js : List ℕ) (s : IcSystem V), js.Nodup →
      Copied s (js.foldl (fun s j => s.copySlot d c j) s) c fun x => x.1 = d ∧ x.2 ∈ js
  | [], s, _ => (Copied.refl s c).congr fun x f _ => by simp
  | j :: js, s, hnd => by
    obtain ⟨hj, hnd'⟩ := List.nodup_cons.mp hnd
    have hcomp := (s.copySlot_copied hd j).comp (copySlots_copied hd js (s.copySlot d c j) hnd')
      (by
        rintro x rfl ⟨-, hx⟩
        exact hj hx) (by
        rintro x (rfl | ⟨hx, -⟩)
        · exact hd
        · exact hx ▸ hd)
    refine hcomp.congr fun x f _ => ?_
    rw [List.mem_cons, Prod.ext_iff]
    constructor
    · rintro (⟨h₁, h₂⟩ | ⟨h₁, h₂⟩)
      · exact ⟨h₁, Or.inl h₂⟩
      · exact ⟨h₁, Or.inr h₂⟩
    · rintro ⟨h₁, h₂ | h₂⟩
      · exact Or.inl ⟨h₁, h₂⟩
      · exact Or.inr ⟨h₁, h₂⟩

/-- The slots `copyState` goes through. -/
theorem copyState_copied (s : IcSystem V) (hd : d ≠ c) (propertyId : ℤ) :
    Copied s (s.copyState d c propertyId) c
      fun x => x.1 = d ∧ (propertyId < 0 ∨ (x.2 : ℤ) = propertyId) := by
  unfold copyState
  have hlt : ∀ {x : PropertyPtr} {f}, s.copyFn x.2 = some f → x.2 < s.propertySlots.length := by
    intro x f hf
    obtain ⟨slot, hslot, -⟩ := Option.bind_eq_some_iff.mp hf
    exact (List.getElem?_eq_some_iff.mp hslot).1
  by_cases hneg : propertyId < 0
  · simp only [hneg, if_true]
    refine (copySlots_copied hd _ s List.nodup_range).congr fun x f hf => ?_
    simp [hlt hf]
  · simp only [hneg, if_false, false_or]
    refine (copySlots_copied hd _ s (List.nodup_singleton _)).congr fun x f _ => ?_
    rw [List.mem_singleton]
    refine and_congr_right fun _ => ?_
    omega

theorem copyMembers_copied (c : ContextPtr) (propertyId : ℤ) :
    ∀ (xs : List PropertyPtr) (s : IcSystem V), (xs.map Prod.fst).Nodup →
      Copied s
        (xs.foldl (fun s key => if key.1 ≠ c then s.copyState key.1 c propertyId else s) s) c
        fun x => x.1 ≠ c ∧ x.1 ∈ xs.map Prod.fst ∧ (propertyId < 0 ∨ (x.2 : ℤ) = propertyId)
  | [], s, _ => (Copied.refl s c).congr fun x f _ => by simp
  | y :: xs, s, hnd => by
    obtain ⟨hy, hnd'⟩ := List.nodup_cons.mp hnd
    by_cases hyc : y.1 = c
    · have h := copyMembers_copied c propertyId xs s hnd'
      simp only [List.foldl_cons, hyc, ne_eq, not_true_eq_false, if_false]
      refine h.congr fun x f _ => ?_
      rw [List.map_cons, List.mem_cons]
      refine and_congr_right fun hxc => ?_
      rw [hyc, or_iff_right hxc]
    · simp only [List.foldl_cons, hyc, ne_eq, not_false_eq_true, if_true]
      have hcomp := (s.copyState_copied hyc propertyId).comp
        (copyMembers_copied c propertyId xs (s.copyState y.1 c propertyId) hnd')
        (by
          rintro x ⟨hx, -⟩ ⟨-, hm, -⟩
          exact hy (hx ▸ hm)) (by
          rintro x (⟨hx, -⟩ | ⟨hx, -⟩)
          · exact hx ▸ hyc
          · exact hx)
      refine hcomp.congr fun x f _ => ?_
      rw [List.map_cons, List.mem_cons]
      constructor
      · rintro (⟨hx, hj⟩ | ⟨hx, hm, hj⟩)
        · exact ⟨hx ▸ hyc, Or.inl hx, hj⟩
        · exact ⟨hx, Or.inr hm, hj⟩
      · rintro ⟨hx, hm | hm, hj⟩
        · exact Or.inl ⟨hm, hj⟩
        · exact Or.inr ⟨hx, hm, hj⟩

/-! ### What is copied where -/

/-- The entries that get a copy when slot `i` of `c` was set: those of the other
members of the group of `c` in the active policy, for slot `i`, or for all
slots if `i` is the slot of the policy. -/
def Pushed (m : InputContextManager V) (c : ContextPtr) (i : ℕ) (x : PropertyPtr) : Prop :=
  ∃ p ∈ m.policy, ∃ policy ∈ m.policies[p]?, x.1 ≠ c ∧
    (∃ k, m.classOf (c, policy.id) = some k ∧ m.classOf (x.1, policy.id) = some k) ∧
    (i = policy.id ∨ x.2 = i)

theorem Pushed.ne {m : InputContextManager V} {x : PropertyPtr} (h : Pushed m c i x) : x.1 ≠ c := by
  obtain ⟨-, -, -, -, hne, -⟩ := h
  exact hne

theorem Pushed.mem {m : InputContextManager V} {x : PropertyPtr} (h : Pushed m c i x) :
    x.1 ∈ m.ics ∧ c ∈ m.ics := by
  obtain ⟨-, -, policy, -, -, ⟨k, hk, hk'⟩, -⟩ := h
  constructor
  · by_contra hm
    rw [classOf, if_neg hm] at hk'
    cases hk'
  · by_contra hm
    rw [classOf, if_neg hm] at hk
    cases hk

theorem members_nodup {m : InputContextManager V} {cls : PropertyPtr → Option ClassKey}
    {G : HeadPtr → List PropertyPtr} (h : SharedInv m cls G) {k : ClassKey} {head : HeadPtr}
    (hk : m.dict k = some head) : ((G head).map Prod.fst).Nodup := by
  refine List.Nodup.map_on (fun x hx y hy hxy => ?_) (h.classes.nodup hk)
  have hxs := (h.live x k ((h.classes.mem_iff k head hk x).mp hx)).2
  have hys := (h.live y k ((h.classes.mem_iff k head hk y).mp hy)).2
  exact Prod.ext hxy (h.slot_unique hxs hys)

/-- A class has no more members than there are contexts. -/
theorem members_length {m : InputContextManager V} {cls : PropertyPtr → Option ClassKey}
    {G : HeadPtr → List PropertyPtr} (h : SharedInv m cls G) (hlt : ∀ c ∈ m.ics, c < m.ctxTop)
    {k : ClassKey} {head : HeadPtr} (hk : m.dict k = some head) :
    (G head).length < m.ctxTop + 1 := by
  rw [← List.length_map Prod.fst]
  refine Nat.lt_succ_of_le (length_le_of_nodup_lt (members_nodup h hk) fun d hd => ?_)
  obtain ⟨x, hx, rfl⟩ := List.mem_map.mp hd
  exact hlt _ (h.live x k ((h.classes.mem_iff k head hk x).mp hx)).1

/-- **Propagation is a copy to the pushed entries.** -/
theorem propagate_copied {G : HeadPtr → List PropertyPtr} (h : Shared s.toInputContextManager G)
    (hc : c ∈ s.ics) (hlt : ∀ c ∈ s.ics, c < s.ctxTop) (i : ℕ) :
    Copied s (s.propagate c i) c (Pushed s.toInputContextManager c i) := by
  have hnone : (∀ p ∈ s.policy, ∀ policy ∈ s.policies[p]?, s.classOf (c, policy.id) = none) →
      Copied s s c (Pushed s.toInputContextManager c i) := by
    intro hno
    refine (Copied.refl s c).congr fun x f _ => ⟨False.elim, ?_⟩
    rintro ⟨p, hp, policy, hpolicy, -, ⟨k, hk, -⟩, -⟩
    rw [hno p hp policy hpolicy] at hk
    cases hk
  unfold propagate
  cases hpol : (s.policy).bind fun p => s.policies[p]? with
  | none =>
    refine hnone fun p hp policy hpolicy => ?_
    rw [show s.policy = some p from hp, Option.bind_some] at hpol
    rw [show s.policies[p]? = some policy from hpolicy] at hpol
    cases hpol
  | some policy =>
    obtain ⟨p, hp, hpolicy⟩ := Option.bind_eq_some_iff.mp hpol
    have hunique : ∀ p' ∈ s.policy, ∀ policy' ∈ s.policies[p']?, policy' = policy := by
      intro p' hp' policy' hpolicy'
      obtain rfl : p = p' := Option.some.inj (hp.symm.trans hp')
      exact Option.some.inj (Eq.trans (Eq.symm hpolicy') hpolicy)
    have hhead := h.headed (c, policy.id) hc
    rw [headOf] at hhead
    dsimp only at hhead ⊢
    rw [hhead]
    cases hcls : s.classOf (c, policy.id) with
    | none =>
      refine hnone fun p' hp' policy' hpolicy' => ?_
      rw [hunique p' hp' policy' hpolicy', hcls]
    | some k =>
      obtain ⟨head, hk⟩ := h.inv.classes.entry _ _ hcls
      rw [Option.bind_some, hk]
      dsimp only
      rw [Rings.forEachEntry_eq_foldl (fun s : IcSystem V => s.propertyLinks)
        h.inv.classes.rings ⟨k, hk⟩ (fun y _ t => ?_) (members_length h.inv hlt hk)]
      · refine (copyMembers_copied c _ (G head) s (members_nodup h.inv hk)).congr fun x f hf => ?_
        have hmem : x.1 ∈ (G head).map Prod.fst ↔ s.classOf (x.1, policy.id) = some k := by
          rw [List.mem_map]
          constructor
          · rintro ⟨y, hy, hyx⟩
            have hyk := (h.inv.classes.mem_iff k head hk y).mp hy
            have hys := (h.inv.live y k hyk).2
            have hcs := (h.inv.live _ k hcls).2
            obtain ⟨e, j⟩ := y
            obtain rfl : e = x.1 := hyx
            obtain rfl : j = policy.id := h.inv.slot_unique hys hcs
            exact hyk
          · intro hx
            exact ⟨_, (h.inv.classes.mem_iff k head hk _).mpr hx, rfl⟩
        rw [hmem]
        constructor
        · rintro ⟨hxc, hxk, hj⟩
          refine ⟨p, hp, policy, hpolicy, hxc, ⟨k, hcls, hxk⟩, ?_⟩
          split at hj
          · next hi => exact Or.inl hi
          · omega
        · rintro ⟨p', hp', policy', hpolicy', hxc, ⟨k', hk', hxk⟩, hj⟩
          obtain rfl := hunique p' hp' policy' hpolicy'
          obtain rfl : k = k' := Option.some.inj (hcls.symm.trans hk')
          refine ⟨hxc, hxk, ?_⟩
          split
          · exact Or.inl (by omega)
          · next hi =>
            right
            rw [hj.resolve_left hi]
      · -- a copy writes no links
        split
        · obtain ⟨a, ha⟩ := (t.copyState_copied (c := c) (d := y.1) ‹_›
            (if i = policy.id then -1 else (i : ℤ))).only
          rw [ha]
        · rfl

/-- No copy changes the key of the entry it writes. -/
def KeysKept (m : InputContextManager V) (c : ContextPtr) (i : ℕ) : Prop :=
  ∀ x f, Pushed m c i x → m.copyFn x.2 = some f →
    m.classAt x.2 (f (m.value x.1 x.2) (m.value c x.2)) = m.classOf x ∧
      m.classAt x.2 (m.value c x.2) = m.classOf (c, x.2)

/-- **The groups are still those of the values if and only if the keys are kept.** -/
theorem propagate_classOf_iff {G : HeadPtr → List PropertyPtr}
    (h : Shared s.toInputContextManager G) (hc : c ∈ s.ics) (hlt : ∀ c ∈ s.ics, c < s.ctxTop) :
    (s.propagate c i).classOf = s.classOf ↔ KeysKept s.toInputContextManager c i := by
  have hcop := propagate_copied h hc hlt i
  set s' := s.propagate c i with hs'
  have hsame := hcop.only.samePolicies
  have hclass : ∀ {x : PropertyPtr} {pr : Property V}, x.1 ∈ s.ics →
      s'.property x.1 x.2 = some pr → s'.classOf x = s.classAt x.2 pr.data := by
    intro x pr hx hpr
    rw [classOf, if_pos (hsame.ics ▸ hx), hpr, ← hsame.classAt]
    rfl
  constructor
  · intro heq x f hx hf
    refine ⟨?_, ?_⟩
    · rw [← heq, hclass hx.mem.1 (hcop.copied x f hx hf)]
    · rw [← heq, hclass (x := (c, x.2)) hc (hcop.source x.1 x.2 f hx hf)]
  · intro hkept
    funext x
    rcases hcop.cases x with ⟨f, hf, hx⟩ | ⟨f, d, hf, hxc, hd⟩ | hsame'
    · rw [hclass hx.mem.1 (hcop.copied x f hx hf)]
      exact (hkept x f hx hf).1
    · obtain ⟨e, j⟩ := x
      obtain rfl : e = c := hxc
      rw [hclass (x := (e, j)) hc (hcop.source d j f hd hf)]
      exact (hkept (d, j) f hd hf).2
    · exact hsame.classOf hsame'

end IcSystem
end Fcitx
