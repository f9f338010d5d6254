/-
# The operations of the input context manager

The rest of `fcitx/inputcontext.c`: making and destroying contexts, the
functions that only report, and the surrounding text. `IcOp` lists the public
operations, `step` runs one, and `IcOp.Ok` says that the contexts and groups it
is given are live.

Key definitions: `IcSystem.new`, `IcSystem.destroy`, `IcOp`, `IcSystem.step`,
`IcSystem.initial`.
-/
import Fcitx.InputContext.Focus
import Fcitx.InputContext.Property
import Fcitx.Lib.Run

namespace Fcitx
namespace IcSystem

variable {V : Type}

/-- The next value of the counter: `while ((newid = ++manager->icid) == 0);`. -/
def nextId (icid : UInt32) : UInt32 := if icid + 1 = 0 then icid + 2 else icid + 1

/-- Fill in the record of a context and enter it in the tables. -/
def enroll (s : IcSystem V) (c : ContextPtr) (id : UInt32) (uuid : Uuid) (frontend : UInt32)
    (destroyNotify : Bool) : IcSystem V :=
  { s with
    ctx := Function.update s.ctx c
      { InputContext.zero with
        id := id, uuid := uuid, frontend := frontend, destroyNotify := destroyNotify }
    properties := Function.update s.properties c []
    ics := s.ics ++ [c]
    icsByUuid := s.icsByUuid ++ [c] }

/-- `fcitx_input_context_new`; `uuid` is what `uuid_generate` gives. -/
def new (s : IcSystem V) (uuid : Uuid) (frontend : UInt32) (destroyNotify : Bool) :
    Option ContextPtr × IcSystem V :=
  match s.freeList with
  | c :: rest =>
    let s := { s with freeList := rest }
    let s := s.enroll c (s.ctx c).id uuid frontend destroyNotify
    (some c, s.emit .inputContextCreated c .none)
  | [] =>
    let newid := nextId s.icid
    let s := { s with icid := newid }
    if (s.getInputContext newid).isSome then (none, s)
    else
      let c := s.ctxTop
      let s := { s with ctxTop := c + 1 }
      let s := s.enroll c newid uuid frontend destroyNotify
      (some c, s.emit .inputContextCreated c .none)

/-- Tell the owner of `c` that it is gone. -/
def notifyDestroy (s : IcSystem V) (c : ContextPtr) : IcSystem V :=
  if (s.ctx c).destroyNotify then
    { s with trace := s.trace ++ [⟨.destroyNotify c, s.toInputContextManager⟩] }
  else s

/-- `_fcitx_input_context_destroy`. -/
def _destroy (s : IcSystem V) (c : ContextPtr) : IcSystem V :=
  let s := s.emit .inputContextDestroyed c .none
  let s := s.notifyDestroy c
  let s := s.propertiesFree c (s.properties c).length
  s.modify c fun ic => { ic with surroundingText := none }

/-- Take `c` out of the tables; its cell goes to the free list. -/
def unenroll (s : IcSystem V) (c : ContextPtr) : IcSystem V :=
  { s with
    ics := s.ics.erase c
    icsByUuid := s.icsByUuid.erase c
    freeList := c :: s.freeList }

/-- `fcitx_input_context_destroy`. -/
def destroy (s : IcSystem V) (c : ContextPtr) : IcSystem V :=
  if s.getInputContext (s.ctx c).id ≠ some c then s
  else
    let s := s.focusOut c
    let s := s._setFocusGroup c none
    let s := s._destroy c
    s.unenroll c

/-- `fcitx_input_context_set_capability_flags`. -/
def setCapabilityFlags (s : IcSystem V) (c : ContextPtr) (flags : UInt32) : IcSystem V :=
  if (s.ctx c).flags ≠ flags then
    (s.modify c fun ic => { ic with flags := flags }).emit .inputContextCapabilityChanged c .none
  else s

/-- `fcitx_input_context_set_cursor_rect`. -/
def setCursorRect (s : IcSystem V) (c : ContextPtr) (rect : Rect) : IcSystem V :=
  if (s.ctx c).rect ≠ rect then
    (s.modify c fun ic => { ic with rect := rect }).emit .inputContextCursorRectChanged c .none
  else s

/-- `fcitx_input_context_reset`. -/
def reset (s : IcSystem V) (c : ContextPtr) : IcSystem V := s.emit .inputContextReset c .none

/-- `fcitx_input_context_commit_string`. -/
def commitString (s : IcSystem V) (c : ContextPtr) (str : Bytes) : IcSystem V :=
  s.emit .inputContextCommitString c (.commitString str)

/-- Whether `fcitx_input_context_set_surrounding_text` has something to store. -/
def surroundingTextChanges (ic : InputContext) (str : Option Bytes) (cursor anchor : UInt32) : Bool :=
  ic.surroundingText.isNone || (str.isSome && ic.surroundingText ≠ str) || cursor ≠ ic.cursor ||
    anchor ≠ ic.anchor

/-- `fcitx_input_context_set_surrounding_text`. -/
def setSurroundingText (s : IcSystem V) (c : ContextPtr) (str : Option Bytes)
    (cursor anchor : UInt32) : IcSystem V :=
  if (s.ctx c).flags &&& capabilitySurroundingText = 0 then s
  else if surroundingTextChanges (s.ctx c) str cursor anchor then
    (s.modify c fun ic =>
      { ic with
        surroundingText := str.or ic.surroundingText
        cursor := cursor
        anchor := anchor }).emit .inputContextFocusIn c .none
  else s

/-- What `fcitx_input_context_delete_surrounding_text` does to the record. The
sum of cursor and offset is unsigned and stored in an `int`; the number of
characters left is a `size_t`. -/
def deleteSurrounding (ic : InputContext) (offset : Int32) (length : UInt32) : InputContext :=
  match ic.surroundingText with
  | none => ic
  | some text =>
    let cursorPos : UInt32 := ic.cursor + offset.toUInt32
    let len := (Utf8.strlen text).toUInt64
    if 0 ≤ cursorPos.toInt32 ∧ length.toUInt64 ≤ len - cursorPos.toUInt64 then
      let start := Utf8.getNthChar text cursorPos.toNat
      let «end» := Utf8.getNthChar start length.toNat
      { ic with
        surroundingText := some (text.take (text.length - start.length) ++ «end»)
        cursor := cursorPos
        anchor := cursorPos }
    else { ic with surroundingText := some [], cursor := 0, anchor := 0 }

/-- `fcitx_input_context_delete_surrounding_text`. -/
def deleteSurroundingText (s : IcSystem V) (c : ContextPtr) (offset : Int32) (length : UInt32) :
    IcSystem V :=
  (s.modify c fun ic => deleteSurrounding ic offset length).emit
    .inputContextDeleteSurroundingText c (.deleteSurrounding offset length)

/-- `fcitx_input_context_update_preedit`. -/
def updatePreedit (s : IcSystem V) (c : ContextPtr) : IcSystem V :=
  s.emit .inputContextUpdatePreedit c .none

/-- `fcitx_input_context_forward_key`. -/
def forwardKey (s : IcSystem V) (c : ContextPtr) (key : KeyEvent) : IcSystem V :=
  s.emit .inputContextForwardKey c (.key key)

/-- `fcitx_input_context_manager_new`: the global group is at address 0 and the
slot of the frontend data is registered. -/
def managerNew : IcSystem V :=
  let s : IcSystem V :=
    { icid := 0, freeList := [], ics := [], icsByUuid := [], globalGroup := 0, callback := false
      policy := none, policies := [], propertyNames := [], propertySlots := []
      ctx := fun _ => .zero, ctxTop := 0, properties := fun _ => [], group := fun _ => ⟨none⟩
      groupTop := 0, contextLinks := .null, groupLinks := .null, propertyLinks := .null
      heads := [], headTop := 0, trace := [] }
  let s := s._focusGroupNew
  let s := { s with groupLinks := s.groupLinks.init (.inl ()) }
  s.registerProperty "frontend-data".toUTF8.toList none none

/-- `fcitx_input_context_manager_set_event_dispatcher`, with a callback. -/
def setEventDispatcher (s : IcSystem V) : IcSystem V := { s with callback := true }

/-- A new manager with an event dispatcher. -/
def initial : IcSystem V := managerNew.setEventDispatcher

end IcSystem

/-- The public operations of the manager, its contexts and groups. -/
inductive IcOp (V : Type) where
  | new (uuid : Uuid) (frontend : UInt32) (destroyNotify : Bool)
  | destroy (c : ContextPtr)
  | focusGroupNew
  | focusGroupFree (g : GroupPtr)
  | setFocusGroup (c : ContextPtr) (type : FocusGroupType) (group : Option GroupPtr)
  | focusIn (c : ContextPtr)
  | focusOut (c : ContextPtr)
  | setCapabilityFlags (c : ContextPtr) (flags : UInt32)
  | setCursorRect (c : ContextPtr) (rect : Rect)
  | setSurroundingText (c : ContextPtr) (str : Option Bytes) (cursor anchor : UInt32)
  | deleteSurroundingText (c : ContextPtr) (offset : Int32) (length : UInt32)
  | reset (c : ContextPtr)
  | commitString (c : ContextPtr) (str : Bytes)
  | updatePreedit (c : ContextPtr)
  | forwardKey (c : ContextPtr) (key : KeyEvent)
  | registerProperty (name : Bytes) (setProperty copyProperty : Option (SetPropertyCallback V))
  | sharedStatePolicyNew (propertyId : ℤ) (propertyKey : Option V → Bytes)
  | setSharedStatePolicy (p : PolicyPtr)
  | setProperty (c : ContextPtr) (propertyId : ℤ) (data : Option V)

variable {V : Type}

/-- Run one operation. -/
def IcSystem.step (s : IcSystem V) : IcOp V → IcSystem V
  | .new uuid frontend destroyNotify => (s.new uuid frontend destroyNotify).2
  | .destroy c => s.destroy c
  | .focusGroupNew => s.focusGroupNew
  | .focusGroupFree g => s.focusGroupFree g
  | .setFocusGroup c type group => s.setFocusGroup c type group
  | .focusIn c => s.focusIn c
  | .focusOut c => s.focusOut c
  | .setCapabilityFlags c flags => s.setCapabilityFlags c flags
  | .setCursorRect c rect => s.setCursorRect c rect
  | .setSurroundingText c str cursor anchor => s.setSurroundingText c str cursor anchor
  | .deleteSurroundingText c offset length => s.deleteSurroundingText c offset length
  | .reset c => s.reset c
  | .commitString c str => s.commitString c str
  | .updatePreedit c => s.updatePreedit c
  | .forwardKey c key => s.forwardKey c key
  | .registerProperty name setProperty copyProperty =>
    s.registerProperty name setProperty copyProperty
  | .sharedStatePolicyNew propertyId propertyKey => s.sharedStatePolicyNew propertyId propertyKey
  | .setSharedStatePolicy p => s.setSharedStatePolicy p
  | .setProperty c propertyId data => s.setProperty c propertyId data

/-- The contexts, groups and policies an operation is given are live. -/
def IcOp.Ok (s : IcSystem V) : IcOp V → Prop
  | .destroy c | .focusIn c | .focusOut c | .setCapabilityFlags c _ | .setCursorRect c _
  | .setSurroundingText c _ _ _ | .deleteSurroundingText c _ _ | .reset c | .commitString c _
  | .updatePreedit c | .forwardKey c _ | .setProperty c _ _ => c ∈ s.ics
  | .focusGroupFree g => g ∈ s.groups
  | .setFocusGroup c _ group => c ∈ s.ics ∧ ∀ g ∈ group, g ∈ s.groups
  | .setSharedStatePolicy p => p < s.policies.length
  | .new .. | .focusGroupNew | .registerProperty .. | .sharedStatePolicyNew .. => True

instance (s : IcSystem V) : ∀ op : IcOp V, Decidable (op.Ok s)
  | .destroy c | .focusIn c | .focusOut c | .setCapabilityFlags c _ | .setCursorRect c _
  | .setSurroundingText c _ _ _ | .deleteSurroundingText c _ _ | .reset c | .commitString c _
  | .updatePreedit c | .forwardKey c _ | .setProperty c _ _ => inferInstanceAs (Decidable (c ∈ s.ics))
  | .focusGroupFree g => inferInstanceAs (Decidable (g ∈ s.groups))
  | .setFocusGroup c _ group =>
    inferInstanceAs (Decidable (c ∈ s.ics ∧ ∀ g ∈ group, g ∈ s.groups))
  | .setSharedStatePolicy p => inferInstanceAs (Decidable (p < s.policies.length))
  | .new .. | .focusGroupNew | .registerProperty .. | .sharedStatePolicyNew .. => .isTrue trivial

/-- The system after the operations `ops` on a new manager. -/
def IcSystem.run (ops : List (IcOp V)) : IcSystem V := Run.exec IcSystem.step IcSystem.initial ops

/-- Every operation of the run is given live contexts, groups and policies. -/
abbrev IcOp.AllOk (ops : List (IcOp V)) : Prop :=
  Run.Admissible IcSystem.step IcOp.Ok IcSystem.initial ops

end Fcitx
