/-
# What the property functions leave alone

The property functions write the properties, their links, the policies and the
slots and nothing else: `s.withoutProperties` is the rest, and each of them
keeps it.

Key definitions: `IcSystem.withoutProperties`.
Key theorems: `IcSystem.setProperty_rest`, `IcSystem.propertiesFree_rest`.
-/
import Fcitx.InputContext.Property

namespace Fcitx
namespace IcSystem

variable {V : Type}

/-- A system with everything about properties forgotten. -/
def withoutProperties (s : IcSystem V) : IcSystem V :=
  { s with
    properties := fun _ => []
    propertyLinks := .null
    heads := []
    headTop := 0
    policies := []
    propertySlots := []
    propertyNames := []
    policy := none }

section fields

variable {s s' : IcSystem V} (h : s'.withoutProperties = s.withoutProperties)

include h

theorem rest_ctx : s'.ctx = s.ctx := by
  have := congrArg (fun t : IcSystem V => t.ctx) h
  exact this

theorem rest_ics : s'.ics = s.ics := by
  have := congrArg (fun t : IcSystem V => t.ics) h
  exact this

theorem rest_freeList : s'.freeList = s.freeList := by
  have := congrArg (fun t : IcSystem V => t.freeList) h
  exact this

theorem rest_ctxTop : s'.ctxTop = s.ctxTop := by
  have := congrArg (fun t : IcSystem V => t.ctxTop) h
  exact this

theorem rest_group : s'.group = s.group := by
  have := congrArg (fun t : IcSystem V => t.group) h
  exact this

theorem rest_groupTop : s'.groupTop = s.groupTop := by
  have := congrArg (fun t : IcSystem V => t.groupTop) h
  exact this

theorem rest_globalGroup : s'.globalGroup = s.globalGroup := by
  have := congrArg (fun t : IcSystem V => t.globalGroup) h
  exact this

theorem rest_contextLinks : s'.contextLinks = s.contextLinks := by
  have := congrArg (fun t : IcSystem V => t.contextLinks) h
  exact this

theorem rest_groupLinks : s'.groupLinks = s.groupLinks := by
  have := congrArg (fun t : IcSystem V => t.groupLinks) h
  exact this

theorem rest_callback : s'.callback = s.callback := by
  have := congrArg (fun t : IcSystem V => t.callback) h
  exact this

theorem rest_trace : s'.trace = s.trace := by
  have := congrArg (fun t : IcSystem V => t.trace) h
  exact this

end fields

@[simp] theorem getPropertyEntry_rest (s : IcSystem V) (c : ContextPtr) (i : ℕ) :
    (s.getPropertyEntry c i).withoutProperties = s.withoutProperties := by
  unfold getPropertyEntry
  dsimp only
  split <;> rfl

@[simp] theorem modifyProperty_rest (s : IcSystem V) (c : ContextPtr) (i : ℕ)
    (f : Property V → Property V) :
    (s.modifyProperty c i f).withoutProperties = s.withoutProperties := rfl

@[simp] theorem propertyDictRemove_rest (s : IcSystem V) (p : PolicyPtr) (key : Bytes) :
    (s.propertyDictRemove p key).withoutProperties = s.withoutProperties := by
  unfold propertyDictRemove
  split
  · rfl
  · split <;> rfl

@[simp] theorem leaveHead_rest (s : IcSystem V) (c : ContextPtr) (i : ℕ) (p : PolicyPtr)
    (head : HeadPtr) : (s.leaveHead c i p head).withoutProperties = s.withoutProperties := by
  unfold leaveHead
  dsimp only
  split
  · split
    · rw [propertyDictRemove_rest]; rfl
    · rfl
  · rfl

@[simp] theorem leaveGroup_rest (s : IcSystem V) (c : ContextPtr) (i : ℕ) (p : PolicyPtr) :
    (s.leaveGroup c i p).withoutProperties = s.withoutProperties := by
  unfold leaveGroup
  split
  · rfl
  · simp

theorem headFor_rest (s : IcSystem V) (p : PolicyPtr) (policy : SharedStatePolicy V) (key : Bytes) :
    (s.headFor p policy key).2.withoutProperties = s.withoutProperties := by
  unfold headFor
  split <;> rfl

@[simp] theorem joinGroup_rest (s : IcSystem V) (c : ContextPtr) (i : ℕ) (p : PolicyPtr) :
    (s.joinGroup c i p).withoutProperties = s.withoutProperties := by
  unfold joinGroup
  split
  · rfl
  · next policy _ =>
    dsimp only
    split
    · rfl
    · rw [modifyProperty_rest]
      exact s.headFor_rest p policy _

@[simp] theorem store_rest (s : IcSystem V) (c : ContextPtr) (i : ℕ) (slot : PropertySlot V)
    (data : Option V) : (s.store c i slot data).withoutProperties = s.withoutProperties := by
  unfold store
  cases slot.policy with
  | none => simp
  | some p => simp

@[simp] theorem copySlot_rest (s : IcSystem V) (c source : ContextPtr) (i : ℕ) :
    (s.copySlot c source i).withoutProperties = s.withoutProperties := by
  unfold copySlot
  split
  · rfl
  · simp

@[simp] theorem copyState_rest (s : IcSystem V) (c source : ContextPtr) (propertyId : ℤ) :
    (s.copyState c source propertyId).withoutProperties = s.withoutProperties := by
  unfold copyState
  generalize (if propertyId < 0 then List.range s.propertySlots.length else [propertyId.toNat]) = is
  induction is generalizing s with
  | nil => rfl
  | cons i is ih =>
    have h := ih (s.copySlot c source i)
    simpa using h

@[simp] theorem propagate_rest (s : IcSystem V) (c : ContextPtr) (i : ℕ) :
    (s.propagate c i).withoutProperties = s.withoutProperties := by
  unfold propagate
  split
  · rfl
  · split
    · rfl
    · refine Links.forEachEntry_invariant
        (P := fun t : IcSystem V => t.withoutProperties = s.withoutProperties) ?_ rfl
      intro e t ht
      split
      · rw [copyState_rest, ht]
      · exact ht

/-- `fcitx_input_context_set_property` writes only about properties. -/
@[simp] theorem setProperty_rest (s : IcSystem V) (c : ContextPtr) (propertyId : ℤ)
    (data : Option V) :
    (s.setProperty c propertyId data).withoutProperties = s.withoutProperties := by
  unfold setProperty
  split
  · rfl
  · split
    · rfl
    · rw [propagate_rest, store_rest]

theorem propertyFree_rest (s : IcSystem V) (c : ContextPtr) (i : ℕ) :
    (s.propertyFree c i).withoutProperties = s.withoutProperties := by
  unfold propertyFree
  split
  · rfl
  · split
    · exact s.leaveHead_rest c i _ _
    · rfl

/-- So does freeing the properties of a context. -/
theorem propertiesFree_rest (c : ContextPtr) :
    ∀ (n : ℕ) (s : IcSystem V), (s.propertiesFree c n).withoutProperties = s.withoutProperties
  | 0, _ => rfl
  | n + 1, s => by
    rw [propertiesFree, propertiesFree_rest c n, propertyFree_rest]

theorem sharedStatePolicyNew_rest (s : IcSystem V) (propertyId : ℤ)
    (propertyKey : Option V → Bytes) :
    (s.sharedStatePolicyNew propertyId propertyKey).withoutProperties = s.withoutProperties := by
  unfold sharedStatePolicyNew
  split
  · rfl
  · split
    · rfl
    · split <;> rfl

theorem registerProperty_rest (s : IcSystem V) (name : Bytes)
    (setProperty copyProperty : Option (SetPropertyCallback V)) :
    (s.registerProperty name setProperty copyProperty).withoutProperties = s.withoutProperties :=
  rfl

end IcSystem
end Fcitx
