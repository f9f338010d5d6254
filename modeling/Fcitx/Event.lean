/-
# Events

`fcitx/event.h` and the event records of `fcitx/inputcontext.h`. An event type
is the flag of its class or-ed with a small number; a dispatcher takes the
class out again with `ET_EventTypeFlag`.

Key definitions: `EventType`, `EventType.code`, `Event`.
-/
import Fcitx.Utils.Utf8

namespace Fcitx

/-- The address of a `FcitxInputContext`. -/
abbrev ContextPtr := ℕ

/-- `ET_EventTypeFlag`. -/
def eventTypeFlag : UInt32 := 0xffff0000

/-- `ET_InputContextEventFlag`. -/
def inputContextEventFlag : UInt32 := 0x0001000

/-- `ET_InputMethodEventFlag`. -/
def inputMethodEventFlag : UInt32 := 0x0002000

/-- `ET_InstanceEventFlag`. -/
def instanceEventFlag : UInt32 := 0x0003000

/-- `ET_InputMethodManagerEventFlag`. -/
def inputMethodManagerEventFlag : UInt32 := 0x0004000

/-- The event types of `FcitxEventType`. -/
inductive EventType where
  -- sent by a frontend, captured by the core, an input method or a module
  | inputContextCreated
  | inputContextDestroyed
  | inputContextFocusIn
  | inputContextFocusOut
  | inputContextKeyEvent
  | inputContextReset
  | inputContextSurroundingTextUpdated
  | inputContextCapabilityChanged
  | inputContextCursorRectChanged
  | inputContextSwitchInputMethod
  | inputContextInactivate
  -- sent by an input method, captured by a frontend or a module
  | inputContextForwardKey
  | inputContextCommitString
  | inputContextDeleteSurroundingText
  | inputContextUpdatePreedit
  -- captured by everything
  | inputMethodGroupChanged
  | inputMethodGroupAboutToReset
  | inputMethodGroupReset
  | newInputMethodGroup
  | inputMethodInitFailed
  deriving DecidableEq, Repr

namespace EventType

/-- The number of an event type. -/
def code : EventType → UInt32
  | inputContextCreated => inputContextEventFlag ||| 0x1
  | inputContextDestroyed => inputContextEventFlag ||| 0x2
  | inputContextFocusIn => inputContextEventFlag ||| 0x3
  | inputContextFocusOut => inputContextEventFlag ||| 0x4
  | inputContextKeyEvent => inputContextEventFlag ||| 0x5
  | inputContextReset => inputContextEventFlag ||| 0x6
  | inputContextSurroundingTextUpdated => inputContextEventFlag ||| 0x7
  | inputContextCapabilityChanged => inputContextEventFlag ||| 0x8
  | inputContextCursorRectChanged => inputContextEventFlag ||| 0x9
  | inputContextSwitchInputMethod => inputContextEventFlag ||| 0xA
  | inputContextInactivate => inputContextEventFlag ||| 0xB
  | inputContextForwardKey => inputMethodEventFlag ||| 0x1
  | inputContextCommitString => inputMethodEventFlag ||| 0x2
  | inputContextDeleteSurroundingText => inputMethodEventFlag ||| 0x3
  | inputContextUpdatePreedit => inputMethodEventFlag ||| 0x4
  | inputMethodGroupChanged => instanceEventFlag ||| 0x1
  | inputMethodGroupAboutToReset => inputMethodManagerEventFlag ||| 0x1
  | inputMethodGroupReset => inputMethodManagerEventFlag ||| 0x2
  | newInputMethodGroup => inputMethodManagerEventFlag ||| 0x3
  | inputMethodInitFailed => inputMethodManagerEventFlag ||| 0x4

end EventType

/-- `FcitxKey`: a keysym and its modifier states. -/
structure Key where
  sym : UInt32
  state : UInt32
  deriving DecidableEq, Repr

/-- `FcitxKeyEvent`. -/
structure KeyEvent where
  key : Key
  rawKey : Key
  keyCode : Int32
  isRelease : Bool
  time : UInt64
  deriving DecidableEq

/-- What an event carries beside its type and its context. -/
inductive EventDetail where
  | none
  | deleteSurrounding (offset : Int32) (length : UInt32)
  | commitString (commitString : Bytes)
  | key (detail : KeyEvent)
  deriving DecidableEq

/-- An event. The events of the input method manager have no context; their
last three fields are not read. -/
structure Event where
  type : EventType
  id : UInt32
  inputContext : ContextPtr
  detail : EventDetail
  deriving DecidableEq

end Fcitx
