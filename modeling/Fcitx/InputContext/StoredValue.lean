/-
# The value a context has after it is set

`fcitx_input_context_set_property` stores what the slot's `setProperty` makes
of the old value and the new one, and neither the upkeep of the groups nor the
copying to the other members touches the value again. The entries of the slots
that are not copied stay. Nothing is assumed of the lists: they may be in any
state.

Key theorems: `IcSystem.setProperty_value`, `IcSystem.setProperty_property_of_ne`,
`IcSystem.setProperty_slots`.
-/
import Fcitx.InputContext.Propagation

namespace Fcitx
namespace IcSystem

open InputContextManager

variable {V : Type} {s : IcSystem V} {c : ContextPtr} {i : ℕ}

/-! ### The upkeep of the groups -/

@[simp] theorem propertyDictRemove_properties (s : IcSystem V) (p : PolicyPtr) (key : Bytes) :
    (s.propertyDictRemove p key).properties = s.properties := by
  unfold propertyDictRemove
  split
  · rfl
  · split <;> rfl

@[simp] theorem propertyDictRemove_slots (s : IcSystem V) (p : PolicyPtr) (key : Bytes) :
    (s.propertyDictRemove p key).propertySlots = s.propertySlots := by
  unfold propertyDictRemove
  split
  · rfl
  · split <;> rfl

@[simp] theorem leaveHead_properties (s : IcSystem V) (c : ContextPtr) (i : ℕ) (p : PolicyPtr)
    (head : HeadPtr) : (s.leaveHead c i p head).properties = s.properties := by
  unfold leaveHead
  dsimp only
  split
  · split
    · rw [propertyDictRemove_properties]
      rfl
    · rfl
  · rfl

@[simp] theorem leaveHead_slots (s : IcSystem V) (c : ContextPtr) (i : ℕ) (p : PolicyPtr)
    (head : HeadPtr) : (s.leaveHead c i p head).propertySlots = s.propertySlots := by
  unfold leaveHead
  dsimp only
  split
  · split
    · rw [propertyDictRemove_slots]
      rfl
    · rfl
  · rfl

theorem headFor_properties (s : IcSystem V) (p : PolicyPtr) (policy : SharedStatePolicy V) (key : Bytes) :
    (s.headFor p policy key).2.properties = s.properties ∧
      (s.headFor p policy key).2.propertySlots = s.propertySlots := by
  unfold headFor
  split <;> exact ⟨rfl, rfl⟩

/-- Writing the head of an entry leaves the values. -/
theorem setHead_value (s : IcSystem V) (head : Option HeadPtr) (j : ℕ) :
    (s.modifyProperty c i fun pr => { pr with head := head }).value c j = s.value c j := by
  have hprop := s.modifyProperty_property c i (fun pr => { pr with head := head }) (c, j)
  rw [value, value, hprop]
  by_cases hj : ((c, j) : PropertyPtr) = (c, i)
  · obtain rfl : j = i := (Prod.mk.inj hj).2
    rw [if_pos rfl, Option.bind_map]
    rfl
  · rw [if_neg hj]

theorem leaveGroup_value (s : IcSystem V) (p : PolicyPtr) (j : ℕ) :
    (s.leaveGroup c i p).value c j = s.value c j := by
  unfold leaveGroup
  split
  · rfl
  · rw [setHead_value, value, property, leaveHead_properties]
    rfl

theorem leaveGroup_slots (s : IcSystem V) (p : PolicyPtr) :
    (s.leaveGroup c i p).propertySlots = s.propertySlots := by
  unfold leaveGroup
  split
  · rfl
  · exact leaveHead_slots s c i p _

theorem joinGroup_value (s : IcSystem V) (p : PolicyPtr) (j : ℕ) :
    (s.joinGroup c i p).value c j = s.value c j := by
  unfold joinGroup
  split
  · rfl
  · next policy _ =>
    dsimp only
    split
    · rfl
    · rw [setHead_value]
      obtain ⟨hprop, -⟩ := s.headFor_properties p policy (policy.propertyKey (s.value c i))
      generalize s.headFor p policy (policy.propertyKey (s.value c i)) = made at hprop
      show (((made.2.properties c)[j]?).join).bind _ = _
      rw [hprop]
      rfl

theorem joinGroup_slots (s : IcSystem V) (p : PolicyPtr) :
    (s.joinGroup c i p).propertySlots = s.propertySlots := by
  unfold joinGroup
  split
  · rfl
  · next policy _ =>
    dsimp only
    split
    · rfl
    · exact (s.headFor_properties p policy _).2

/-- The entry is there once it was asked for, and has the value it had. -/
theorem getPropertyEntry_value (s : IcSystem V) (c : ContextPtr) (i : ℕ) :
    ((s.getPropertyEntry c i).property c i).isSome = true ∧
      (s.getPropertyEntry c i).value c i = s.value c i := by
  have hprop := s.getPropertyEntry_property c i (c, i)
  rw [if_pos rfl] at hprop
  rw [value, value, hprop]
  refine ⟨rfl, ?_⟩
  cases s.property c i <;> rfl

theorem getPropertyEntry_slots (s : IcSystem V) (c : ContextPtr) (i : ℕ) :
    (s.getPropertyEntry c i).propertySlots = s.propertySlots := by
  obtain ⟨properties, h⟩ := s.getPropertyEntry_only c i
  rw [h]

theorem leaveGroup_isSome (s : IcSystem V) (p : PolicyPtr) (h : (s.property c i).isSome = true) :
    ((s.leaveGroup c i p).property c i).isSome = true := by
  unfold leaveGroup
  split
  · exact h
  · next head _ =>
    have hprop := (s.leaveHead c i p head).modifyProperty_property c i
      (fun pr => { pr with head := none }) (c, i)
    rw [if_pos rfl] at hprop
    rw [hprop, Option.isSome_map, property, leaveHead_properties]
    exact h

/-! ### Storing and copying -/

/-- A written entry has the written value. -/
theorem modifyProperty_value_self (s : IcSystem V) (h : (s.property c i).isSome = true)
    (f : Option V → Option V) :
    (s.modifyProperty c i fun pr => { pr with data := f pr.data }).value c i = f (s.value c i) := by
  have hprop := s.modifyProperty_property c i (fun pr => { pr with data := f pr.data }) (c, i)
  obtain ⟨pr, hpr⟩ := Option.isSome_iff_exists.mp h
  rw [value, hprop, if_pos rfl, value, hpr]
  rfl

theorem store_value (s : IcSystem V) (slot : PropertySlot V) (data : Option V) :
    (s.store c i slot data).value c i = slot.newData (s.value c i) data := by
  obtain ⟨hsome, hvalue⟩ := s.getPropertyEntry_value c i
  unfold store
  cases slot.policy with
  | none =>
    have hself := modifyProperty_value_self _ hsome fun old => slot.newData old data
    rw [hvalue] at hself
    exact hself
  | some p =>
    have hsome' := (s.getPropertyEntry c i).leaveGroup_isSome p hsome
    have hself := modifyProperty_value_self _ hsome' fun old => slot.newData old data
    rw [leaveGroup_value, hvalue] at hself
    exact (joinGroup_value _ p i).trans hself

theorem store_slots (s : IcSystem V) (slot : PropertySlot V) (data : Option V) :
    (s.store c i slot data).propertySlots = s.propertySlots := by
  unfold store
  cases slot.policy with
  | none => exact s.getPropertyEntry_slots c i
  | some p =>
    have hleave := leaveGroup_slots (s.getPropertyEntry c i) (c := c) (i := i) p
    rw [getPropertyEntry_slots] at hleave
    exact (joinGroup_slots _ p).trans hleave

/-- Copying to the others leaves the values of the source. -/
theorem propagate_value (s : IcSystem V) (c : ContextPtr) (i : ℕ) :
    (∀ j, (s.propagate c i).value c j = s.value c j) ∧
      (s.propagate c i).propertySlots = s.propertySlots := by
  unfold propagate
  split
  · exact ⟨fun _ => rfl, rfl⟩
  · next policy _ =>
    split
    · exact ⟨fun _ => rfl, rfl⟩
    · refine Links.forEachEntry_invariant
        (P := fun t : IcSystem V => (∀ j, t.value c j = s.value c j) ∧ t.propertySlots = s.propertySlots)
        (fun key t ht => ?_) ⟨fun _ => rfl, rfl⟩
      split
      · next hne =>
        have hcopied := t.copyState_copied hne (if i = policy.id then -1 else (i : ℤ))
        refine ⟨fun j => (hcopied.value (x := (c, j)) fun h => hne h.1.symm).trans (ht.1 j), ?_⟩
        obtain ⟨properties, he⟩ := hcopied.only
        rw [he]
        exact ht.2
      · exact ht

/-- **The value of the context is what the slot makes of the old value and the new data.** -/
theorem setProperty_value (s : IcSystem V) (c : ContextPtr) {i : ℕ} {slot : PropertySlot V}
    (hslot : s.propertySlots[i]? = some slot) (data : Option V) :
    (s.setProperty c i data).value c i = slot.newData (s.value c i) data := by
  have hlt : i < s.propertySlots.length := (List.getElem?_eq_some_iff.mp hslot).1
  unfold setProperty
  rw [if_neg (by omega), Int.toNat_natCast, hslot]
  exact ((propagate_value _ c i).1 i).trans (s.store_value slot data)

/-! ### The other entries -/

variable {x : PropertyPtr}

theorem modifyProperty_property_of_ne (s : IcSystem V) (hx : x ≠ (c, i)) (f : Property V → Property V) :
    (s.modifyProperty c i f).property x.1 x.2 = s.property x.1 x.2 := by
  have hprop := s.modifyProperty_property c i f x
  rwa [if_neg hx] at hprop

theorem leaveGroup_property_of_ne (s : IcSystem V) (p : PolicyPtr) (hx : x ≠ (c, i)) :
    (s.leaveGroup c i p).property x.1 x.2 = s.property x.1 x.2 := by
  unfold leaveGroup
  split
  · rfl
  · rw [modifyProperty_property_of_ne _ hx, property, leaveHead_properties]
    rfl

theorem joinGroup_property_of_ne (s : IcSystem V) (p : PolicyPtr) (hx : x ≠ (c, i)) :
    (s.joinGroup c i p).property x.1 x.2 = s.property x.1 x.2 := by
  unfold joinGroup
  split
  · rfl
  · next policy _ =>
    dsimp only
    split
    · rfl
    · rw [modifyProperty_property_of_ne _ hx]
      obtain ⟨hprop, -⟩ := s.headFor_properties p policy (policy.propertyKey (s.value c i))
      generalize s.headFor p policy (policy.propertyKey (s.value c i)) = made at hprop
      show ((made.2.properties x.1)[x.2]?).join = _
      rw [hprop]
      rfl

theorem store_property_of_ne (s : IcSystem V) (slot : PropertySlot V) (data : Option V) (hx : x ≠ (c, i)) :
    (s.store c i slot data).property x.1 x.2 = s.property x.1 x.2 := by
  have hentry := s.getPropertyEntry_property c i x
  rw [if_neg hx] at hentry
  unfold store
  cases slot.policy with
  | none =>
    dsimp only
    rw [modifyProperty_property_of_ne _ hx, hentry]
  | some p =>
    dsimp only
    rw [joinGroup_property_of_ne _ p hx, modifyProperty_property_of_ne _ hx,
      leaveGroup_property_of_ne _ p hx, hentry]

/-- An entry of a slot that is not copied stays. -/
theorem propagate_property (s : IcSystem V) (c : ContextPtr) (i : ℕ) (hcopy : s.copyFn x.2 = none) :
    (s.propagate c i).property x.1 x.2 = s.property x.1 x.2 := by
  unfold propagate
  split
  · rfl
  · next policy _ =>
    split
    · rfl
    · refine (Links.forEachEntry_invariant
        (P := fun t : IcSystem V => t.property x.1 x.2 = s.property x.1 x.2 ∧ t.copyFn = s.copyFn)
        (fun key t ht => ?_) ⟨rfl, rfl⟩).1
      split
      · next hne =>
        have hcopied := t.copyState_copied hne (if i = policy.id then -1 else (i : ℤ))
        have hnone : t.copyFn x.2 = none := by rw [ht.2, hcopy]
        exact ⟨(hcopied.other x (fun _ => hnone) fun _ _ _ => hnone).trans ht.1,
          hcopied.only.copyFn.trans ht.2⟩
      · exact ht

/-- **Setting a property leaves the entries of the slots that are not copied.** -/
theorem setProperty_property_of_ne (s : IcSystem V) (c : ContextPtr) (propertyId : ℤ) (data : Option V)
    (hx : x ≠ (c, propertyId.toNat)) (hcopy : s.copyFn x.2 = none) :
    (s.setProperty c propertyId data).property x.1 x.2 = s.property x.1 x.2 := by
  unfold setProperty
  split
  · rfl
  · split
    · rfl
    · next slot _ =>
      have hcopy' : (s.store c propertyId.toNat slot data).copyFn x.2 = none := by
        rw [copyFn, store_slots]
        exact hcopy
      rw [propagate_property _ c _ hcopy', store_property_of_ne s slot data hx]

theorem setProperty_slots (s : IcSystem V) (c : ContextPtr) (propertyId : ℤ) (data : Option V) :
    (s.setProperty c propertyId data).propertySlots = s.propertySlots := by
  unfold setProperty
  split
  · rfl
  · split
    · rfl
    · next slot _ => exact (propagate_value _ c _).2.trans (s.store_slots slot data)

end IcSystem
end Fcitx
