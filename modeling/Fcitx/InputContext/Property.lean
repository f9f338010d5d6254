/-
# Properties and shared state

The property functions of `fcitx/inputcontext.c`. A slot may have a policy;
the policy groups the contexts by the key of their value for the slot. A group
is a list whose head is a heap cell; the policy's dictionary leads from the key
to the head, and the head is freed when its last member leaves. If the manager
has an active policy, `fcitx_input_context_set_property` copies the values of
the slots that have a `copyProperty` to the other members of the context's
group.

Key definitions: `IcSystem.setProperty`, `IcSystem.copyState`,
`IcSystem.propertyFree`, `IcSystem.sharedStatePolicyNew`.
-/
import Fcitx.InputContext.State

namespace Fcitx
namespace IcSystem

variable {V : Type}

/-- `fcitx_input_context_manager_register_property`; the new slot's id is the
old number of slots. -/
def registerProperty (s : IcSystem V) (name : Bytes) (setProperty : Option (SetPropertyCallback V))
    (copyProperty : Option (SetPropertyCallback V)) : IcSystem V :=
  { s with
    propertySlots := s.propertySlots ++ [⟨setProperty, copyProperty, none⟩]
    propertyNames :=
      if (s.propertyNames.lookup name).isSome then s.propertyNames
      else s.propertyNames ++ [(name, s.propertySlots.length)] }

/-- `fcitx_input_context_manager_lookup_property`. -/
def lookupProperty (s : IcSystem V) (name : Bytes) : ℤ :=
  match s.propertyNames.lookup name with
  | some id => id
  | none => -1

/-- Make a policy for slot `i`. -/
def addPolicy (s : IcSystem V) (i : ℕ) (slot : PropertySlot V) (propertyKey : Option V → Bytes) :
    IcSystem V :=
  { s with
    policies := s.policies ++ [⟨propertyKey, [], i⟩]
    propertySlots := s.propertySlots.set i { slot with policy := some s.policies.length } }

/-- `fcitx_input_context_shared_state_policy_new`. -/
def sharedStatePolicyNew (s : IcSystem V) (propertyId : ℤ) (propertyKey : Option V → Bytes) :
    IcSystem V :=
  if propertyId < 0 ∨ (s.propertySlots.length : ℤ) ≤ propertyId then s
  else
    match s.propertySlots[propertyId.toNat]? with
    | none => s
    | some slot =>
      if slot.policy.isSome then s else s.addPolicy propertyId.toNat slot propertyKey

/-- `fcitx_input_context_manager_set_shared_state_policy`, for a policy of this manager. -/
def setSharedStatePolicy (s : IcSystem V) (p : PolicyPtr) : IcSystem V :=
  { s with policy := some p }

/-- `fcitx_input_context_get_property_entry`: the entry exists afterwards. -/
def getPropertyEntry (s : IcSystem V) (c : ContextPtr) (i : ℕ) : IcSystem V :=
  let array := s.properties c
  let array := array ++ List.replicate (i + 1 - array.length) none
  match array[i]? with
  | some (some _) => { s with properties := Function.update s.properties c array }
  | _ =>
    { s with properties := Function.update s.properties c (array.set i (some ⟨none, none⟩)) }

/-- Write to an existing property. -/
def modifyProperty (s : IcSystem V) (c : ContextPtr) (i : ℕ) (f : Property V → Property V) :
    IcSystem V :=
  { s with properties := Function.update s.properties c ((s.properties c).modify i (Option.map f)) }

/-- `fcitx_dict_remove` on the dictionary of a policy: the head is freed with the entry. -/
def propertyDictRemove (s : IcSystem V) (p : PolicyPtr) (key : Bytes) : IcSystem V :=
  match s.policies[p]? with
  | none => s
  | some policy =>
    match policy.propertyDict.lookup key with
    | none => s
    | some head =>
      { s with
        policies := s.policies.set p
          { policy with propertyDict := Assoc.erase policy.propertyDict key }
        heads := s.heads.erase head }

/-- Unlink a property from the list of its head. -/
def unlinkProperty (s : IcSystem V) (c : ContextPtr) (i : ℕ) : IcSystem V :=
  { s with propertyLinks := s.propertyLinks.remove (.inr (c, i)) }

/-- Link a property at the end of the list of `head`. -/
def linkProperty (s : IcSystem V) (c : ContextPtr) (i : ℕ) (head : HeadPtr) : IcSystem V :=
  { s with propertyLinks := s.propertyLinks.append (.inr (c, i)) (.inl head) }

/-- Take a property out of the list of `head`; the last one to leave removes
the dictionary entry, under the key of the data it has now. -/
def leaveHead (s : IcSystem V) (c : ContextPtr) (i : ℕ) (p : PolicyPtr) (head : HeadPtr) :
    IcSystem V :=
  let s := s.unlinkProperty c i
  if s.propertyLinks.isEmpty (.inl head) then
    match s.policies[p]? with
    | some policy => s.propertyDictRemove p (policy.propertyKey (s.value c i))
    | none => s
  else s

/-- `fcitx_input_context_property_free` on entry `i`; the property's memory is
gone with the array. -/
def propertyFree (s : IcSystem V) (c : ContextPtr) (i : ℕ) : IcSystem V :=
  match s.property c i with
  | none => s
  | some property =>
    match property.head, (s.propertySlots[i]?).bind (·.policy) with
    | some head, some p => s.leaveHead c i p head
    | _, _ => s

/-- `fcitx_ptr_array_free` on the properties of a context: the entries are
popped from the end, `n` of them left. -/
def propertiesFree (s : IcSystem V) (c : ContextPtr) : ℕ → IcSystem V
  | 0 => { s with properties := Function.update s.properties c [] }
  | n + 1 => propertiesFree (s.propertyFree c n) c n

/-- The first half of the policy upkeep: leave the old group. -/
def leaveGroup (s : IcSystem V) (c : ContextPtr) (i : ℕ) (p : PolicyPtr) : IcSystem V :=
  match (s.property c i).bind (·.head) with
  | none => s
  | some head => (s.leaveHead c i p head).modifyProperty c i fun pr => { pr with head := none }

/-- The head for `key`, made if there is none. -/
def headFor (s : IcSystem V) (p : PolicyPtr) (policy : SharedStatePolicy V) (key : Bytes) :
    HeadPtr × IcSystem V :=
  match policy.propertyDict.lookup key with
  | some head => (head, s)
  | none =>
    (s.headTop,
      { s with
        propertyLinks := s.propertyLinks.init (.inl s.headTop)
        heads := s.heads ++ [s.headTop]
        headTop := s.headTop + 1
        policies := s.policies.set p
          { policy with propertyDict := policy.propertyDict ++ [(key, s.headTop)] } })

/-- The second half of the policy upkeep: join the group of the new key. -/
def joinGroup (s : IcSystem V) (c : ContextPtr) (i : ℕ) (p : PolicyPtr) : IcSystem V :=
  match s.policies[p]? with
  | none => s
  | some policy =>
    let key := policy.propertyKey (s.value c i)
    if key = [] then s
    else
      let (head, s) := s.headFor p policy key
      let s := s.linkProperty c i head
      s.modifyProperty c i fun pr => { pr with head := some head }

/-- One round of the loop of `fcitx_input_context_copy_state`. -/
def copySlot (s : IcSystem V) (c source : ContextPtr) (i : ℕ) : IcSystem V :=
  match (s.propertySlots[i]?).bind (·.copyProperty) with
  | none => s
  | some copyProperty =>
    let s := s.getPropertyEntry source i
    let s := s.getPropertyEntry c i
    s.modifyProperty c i fun pr => { pr with data := copyProperty pr.data (s.value source i) }

/-- `fcitx_input_context_copy_state`: one slot, or all of them for a negative id. -/
def copyState (s : IcSystem V) (c source : ContextPtr) (propertyId : ℤ) : IcSystem V :=
  let slots :=
    if propertyId < 0 then List.range s.propertySlots.length else [propertyId.toNat]
  slots.foldl (fun s i => s.copySlot c source i) s

/-- The last part of `fcitx_input_context_set_property`: with an active policy,
copy the state of `c` to the other members of its group. -/
def propagate (s : IcSystem V) (c : ContextPtr) (i : ℕ) : IcSystem V :=
  match (s.policy).bind fun p => s.policies[p]? with
  | none => s
  | some policy =>
    match (s.property c policy.id).bind (·.head) with
    | none => s
    | some head =>
      Links.forEachEntry (fun s : IcSystem V => s.propertyLinks) head
        (fun key s =>
          if key.1 ≠ c then s.copyState key.1 c (if i = policy.id then -1 else i) else s)
        (s.ctxTop + 1) s

/-- The part of `fcitx_input_context_set_property` about `c` itself: store the
data and move to the group of the new key. -/
def store (s : IcSystem V) (c : ContextPtr) (i : ℕ) (slot : PropertySlot V) (data : Option V) :
    IcSystem V :=
  let s := s.getPropertyEntry c i
  let s := match slot.policy with
    | some p => s.leaveGroup c i p
    | none => s
  let s := s.modifyProperty c i fun pr => { pr with data := slot.newData pr.data data }
  match slot.policy with
  | some p => s.joinGroup c i p
  | none => s

/-- `fcitx_input_context_set_property`. It returns what `getProperty` gives afterwards. -/
def setProperty (s : IcSystem V) (c : ContextPtr) (propertyId : ℤ) (data : Option V) :
    IcSystem V :=
  if propertyId < 0 ∨ (s.propertySlots.length : ℤ) ≤ propertyId then s
  else
    match s.propertySlots[propertyId.toNat]? with
    | none => s
    | some slot => (s.store c propertyId.toNat slot data).propagate c propertyId.toNat

end IcSystem
end Fcitx
