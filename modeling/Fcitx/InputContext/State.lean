/-
# The input context manager

The data of `fcitx/inputcontext.c`: the contexts, the focus groups, the
properties with their slots and shared-state policies, and the manager that
owns them. Pointers are numbers; the memory they lead to is a map, and
`..Top` is the next address that was never given out. The lists the code
threads through its records (`FcitxListHead`) are kept as links: the contexts
of a group, the local groups of the manager, and the properties of a policy
group.

A system is a manager together with what it has told the outside so far: the
events it dispatched and the destroy notifications, each with the manager as
the callee finds it. The callees do not call back.

Key definitions: `InputContext`, `InputContextManager`, `IcSystem`.
-/
import Fcitx.Event
import Fcitx.Lib.Assoc
import Fcitx.Lib.RingHeap

namespace Fcitx

/-- The address of a `FcitxInputContextFocusGroup`. -/
abbrev GroupPtr := ℕ

/-- The address of a `FcitxListHead` that a policy allocated. -/
abbrev HeadPtr := ℕ

/-- The place of a `FcitxInputContextSharedStatePolicy` in `manager->policies`. -/
abbrev PolicyPtr := ℕ

/-- A `FcitxInputContextProperty` is known by its context and its slot. -/
abbrev PropertyPtr := ContextPtr × ℕ

/-- `uuid_t`. -/
abbrev Uuid := BitVec 128

/-- `FcitxRect`. -/
structure Rect where
  x1 : Int32
  y1 : Int32
  x2 : Int32
  y2 : Int32
  deriving DecidableEq

/-- `CAPABILITY_SURROUNDING_TEXT`. -/
def capabilitySurroundingText : UInt32 := (1 : UInt32) <<< 6

/-- `FcitxInputContextFocusGroupType`. -/
inductive FocusGroupType where
  | global
  | local
  | independent
  deriving DecidableEq, Repr

/-- `FcitxInputContext`, less its list node, hash handles and arrays. -/
structure InputContext where
  id : UInt32
  flags : UInt32
  uuid : Uuid
  group : Option GroupPtr
  focused : Bool
  rect : Rect
  surroundingText : Option Bytes
  cursor : UInt32
  anchor : UInt32
  frontend : UInt32
  /-- whether a destroy notification is wanted -/
  destroyNotify : Bool
  deriving DecidableEq

/-- A context after `memset`. -/
def InputContext.zero : InputContext :=
  ⟨0, 0, 0, none, false, ⟨0, 0, 0, 0⟩, none, 0, 0, 0, false⟩

/-- `FcitxInputContextFocusGroup`, less its list nodes. -/
structure FocusGroup where
  focus : Option ContextPtr
  deriving DecidableEq

/-- `FcitxInputContextProperty`: its data (`none` is NULL) and the head of the
policy group it is linked in. -/
structure Property (V : Type) where
  data : Option V
  head : Option HeadPtr

/-- `FcitxSetPropertyCallback` with its user data: old value, new value. -/
abbrev SetPropertyCallback (V : Type) := Option V → Option V → Option V

/-- `FcitxInputContextPropertySlot`. -/
structure PropertySlot (V : Type) where
  setProperty : Option (SetPropertyCallback V)
  copyProperty : Option (SetPropertyCallback V)
  policy : Option PolicyPtr

/-- What a slot stores when a property is set. -/
def PropertySlot.newData {V : Type} (slot : PropertySlot V) (old data : Option V) : Option V :=
  match slot.setProperty with
  | some setProperty => setProperty old data
  | none => data

/-- `FcitxInputContextSharedStatePolicy`; `propertyDict` is in insertion order. -/
structure SharedStatePolicy (V : Type) where
  propertyKey : Option V → Bytes
  propertyDict : List (Bytes × HeadPtr)
  id : ℕ

/-- `FcitxInputContextManager` and the memory its pointers lead to. -/
structure InputContextManager (V : Type) where
  icid : UInt32
  /-- linked through `hh.next` -/
  freeList : List ContextPtr
  /-- the table by `id`, in insertion order -/
  ics : List ContextPtr
  /-- the table by `uuid`, in insertion order -/
  icsByUuid : List ContextPtr
  globalGroup : GroupPtr
  /-- whether an event dispatcher is set -/
  callback : Bool
  policy : Option PolicyPtr
  policies : List (SharedStatePolicy V)
  propertyNames : List (Bytes × ℕ)
  propertySlots : List (PropertySlot V)
  ctx : ContextPtr → InputContext
  ctxTop : ContextPtr
  /-- the array `properties` of each context -/
  properties : ContextPtr → List (Option (Property V))
  group : GroupPtr → FocusGroup
  groupTop : GroupPtr
  /-- `ic->list` in `group->inputContexts` -/
  contextLinks : Links (GroupPtr ⊕ ContextPtr)
  /-- `group->list` in `manager->groups` -/
  groupLinks : Links (Unit ⊕ GroupPtr)
  /-- `property->list` in the heads of the policies -/
  propertyLinks : Links (HeadPtr ⊕ PropertyPtr)
  /-- the heads allocated and not freed -/
  heads : List HeadPtr
  headTop : HeadPtr

/-- What the manager calls. -/
inductive Call where
  | event (event : Event)
  | destroyNotify (inputContext : ContextPtr)
  deriving DecidableEq

/-- A call and the manager as the callee finds it. -/
structure Emitted (V : Type) where
  call : Call
  manager : InputContextManager V

/-- A manager and the calls it made so far. -/
structure IcSystem (V : Type) extends InputContextManager V where
  trace : List (Emitted V)

variable {V : Type}

namespace InputContextManager

/-- `fcitx_input_context_manager_get_input_context`. -/
def getInputContext (m : InputContextManager V) (id : UInt32) : Option ContextPtr :=
  m.ics.find? fun c => (m.ctx c).id = id

/-- `fcitx_input_context_manager_get_input_context_by_uuid`. -/
def getInputContextByUuid (m : InputContextManager V) (uuid : Uuid) : Option ContextPtr :=
  m.icsByUuid.find? fun c => (m.ctx c).uuid = uuid

/-- The contexts linked in a group, in order. -/
def inputContexts (m : InputContextManager V) (g : GroupPtr) : List ContextPtr :=
  m.contextLinks.entries g (m.ctxTop + 1)

/-- The local groups. -/
def groups (m : InputContextManager V) : List GroupPtr := m.groupLinks.entries () (m.groupTop + 1)

/-- The entry `i` of a context's `properties`; an index past the end gives NULL. -/
def property (m : InputContextManager V) (c : ContextPtr) (i : ℕ) : Option (Property V) :=
  ((m.properties c)[i]?).join

/-- The data of a property; NULL where there is no entry. -/
def value (m : InputContextManager V) (c : ContextPtr) (i : ℕ) : Option V :=
  (m.property c i).bind (·.data)

/-- `fcitx_input_context_get_property`. -/
def getProperty (m : InputContextManager V) (c : ContextPtr) (propertyId : ℤ) : Option V :=
  if propertyId < 0 ∨ (m.propertySlots.length : ℤ) ≤ propertyId then none
  else m.value c propertyId.toNat

/-- The properties linked to a head, in order. -/
def headEntries (m : InputContextManager V) (h : HeadPtr) : List PropertyPtr :=
  m.propertyLinks.entries h (m.ctxTop + 1)

end InputContextManager

namespace IcSystem

/-- Dispatch an event about `c`, if a dispatcher is set. -/
def emit (s : IcSystem V) (type : EventType) (c : ContextPtr) (detail : EventDetail) : IcSystem V :=
  if s.callback then
    { s with
      trace := s.trace ++
        [⟨.event ⟨type, (s.ctx c).id, c, detail⟩, s.toInputContextManager⟩] }
  else s

/-- Write to the record of a context. -/
def modify (s : IcSystem V) (c : ContextPtr) (f : InputContext → InputContext) : IcSystem V :=
  { s with ctx := Function.update s.ctx c (f (s.ctx c)) }

def setGroupFocus (s : IcSystem V) (g : GroupPtr) (focus : Option ContextPtr) : IcSystem V :=
  { s with group := Function.update s.group g ⟨focus⟩ }

end IcSystem

end Fcitx
