/-
# Calls on the path of a context

`fcitx_ipc_inputcontext_handler` of `frontend/ipc/ipc.c`. Every context has an object path
with its id in it. The D-Bus library finds the handler by the path, the handler finds the
context by the id, and what the call asks for is done to that context.

Key definitions: `icPath`, `idOfPath`, `DBusCall.method`, `Ipc.inputcontextHandler`, `Ipc.request`, `IpcBus.step`.
Key theorems: `strtoul_digits`, `idOfPath_icPath`, `icPath_injective`.
-/
import Fcitx.Config.Options
import Fcitx.Ipc.Frontend
import Mathlib.Algebra.Ring.Nat

namespace Fcitx

open Decimal (digits value isDigit)

/-! ### Object paths -/

/-- `strtoul` to the base 10: the number, and what stands behind it. -/
def strtoul (nptr : Bytes) : ℕ × Bytes :=
  let (negative, s) := readSign (nptr.dropWhile isspace)
  let n := value (s.takeWhile isDigit)
  if s.takeWhile isDigit = [] then (0, nptr)
  else (if 2 ^ 64 ≤ n then 2 ^ 64 - 1 else if negative then (2 ^ 64 - n) % 2 ^ 64 else n, s.dropWhile isDigit)

/-- `"/inputcontext/"` -/
def inputContextPath : Bytes := "/inputcontext/".toUTF8.toList

/-- The object path of a context. -/
def icPath (id : UInt32) : Bytes := inputContextPath ++ digits id.toNat

/-- The id that a path asks for: a number and nothing else behind `inputContextPath`. -/
def idOfPath (path : Bytes) : Option UInt32 :=
  if startsWith path inputContextPath then
    let idString := path.drop inputContextPath.length
    let (id, «end») := strtoul idString
    if idString ≠ [] ∧ «end» ≠ idString ∧ «end» = [] then some (UInt32.ofNat id) else none
  else none

theorem strtoul_digits {n : ℕ} (hn : n < 2 ^ 64) : strtoul (digits n) = (n, []) := by
  have hdigits : ∀ b ∈ digits n, isDigit b = true := fun b hb => Decimal.isDigit_of_mem hb
  have htake : (digits n).takeWhile isDigit = digits n := List.takeWhile_eq_self_iff.mpr hdigits
  have hdrop : (digits n).dropWhile isDigit = [] := List.dropWhile_eq_nil_iff.mpr hdigits
  unfold strtoul
  rw [dropWhile_isspace_digits, readSign_digits]
  dsimp only
  rw [htake, hdrop, if_neg (Decimal.digits_ne_nil n), Decimal.value_digits, if_neg (Nat.not_le.mpr hn),
    if_neg Bool.false_ne_true]

/-- **The path of a context is read back.** -/
theorem idOfPath_icPath (id : UInt32) : idOfPath (icPath id) = some id := by
  have hstart : startsWith (icPath id) inputContextPath = true :=
    List.isPrefixOf_iff_prefix.mpr (List.prefix_append _ _)
  have hdrop : (icPath id).drop inputContextPath.length = digits id.toNat := List.drop_left
  have hid : id.toNat < 2 ^ 64 := id.toNat_lt.trans (by decide)
  have hne := Decimal.digits_ne_nil id.toNat
  unfold idOfPath
  rw [if_pos hstart, hdrop]
  dsimp only
  rw [strtoul_digits hid]
  dsimp only
  rw [if_pos ⟨hne, hne.symm, rfl⟩, UInt32.ofNat_toNat]

theorem icPath_injective : Function.Injective icPath := by
  intro id id' h
  have hread := congrArg idOfPath h
  rw [idOfPath_icPath, idOfPath_icPath] at hread
  exact Option.some.inj hread

/-! ### Messages -/

/-- An argument of a message. -/
inductive DBusArg where
  | int32 (i : Int32)
  | uint32 (u : UInt32)
  | uint64 (t : UInt64)
  | string (str : Bytes)
  | other
  deriving DecidableEq

/-- A method call. -/
structure DBusCall where
  interface : Option Bytes
  member : Bytes
  args : List DBusArg
  deriving DecidableEq

/-- `DBUS_INTERFACE_INTROSPECTABLE` -/
def introspectableInterface : Bytes := "org.freedesktop.DBus.Introspectable".toUTF8.toList

/-- `FCITX_INPUTCONTEXT_DBUS_INTERFACE` -/
def inputContextInterface : Bytes := "org.fcitx.Fcitx.InputContext2".toUTF8.toList

/-- What a call asks a context for; `none` where the arguments are not those of the method. Those of a key event
overrun the variable that they are read into. -/
inductive IcMethod where
  | introspect
  | focusIn
  | focusOut
  | reset
  | setCursorRect (rect : Option Rect)
  | setCapability (flag : Option UInt32)
  | setSurroundingText (text : Option (Option Bytes × UInt32 × UInt32))
  | destroyIC
  | processKeyEvent (overruns : Bool)
  deriving DecidableEq

/-- What is sent back: one of the introspection texts, nothing, `DBUS_ERROR_INVALID_ARGS`, the path and the uuid of a
context, or `DBUS_ERROR_NO_MEMORY` with `"register failed"`. -/
inductive IpcReply where
  | inputmethodIntrospection
  | inputcontextIntrospection
  | methodReturn
  | invalidArgs
  | created (path : Bytes) (uuid : Uuid)
  | registerFailed
  deriving DecidableEq

namespace DBusCall

/-- `dbus_message_is_method_call`; a call without an interface is one of any interface. -/
def isMethodCall (msg : DBusCall) (iface member : Bytes) : Bool :=
  msg.member = member && (msg.interface = none || msg.interface = some iface)

/-- A method of the interface of the contexts. -/
def isMethod (msg : DBusCall) (member : String) : Bool :=
  msg.isMethodCall inputContextInterface member.toUTF8.toList

/-- The arguments of `SetCursorRect`; what stands behind the arguments is not read. -/
def cursorRect (msg : DBusCall) : Option Rect :=
  match msg.args with
  | .int32 x :: .int32 y :: .int32 w :: .int32 h :: _ => some ⟨x, y, x + w, y + h⟩
  | _ => none

/-- The argument of `SetCapability` -/
def capability (msg : DBusCall) : Option UInt32 :=
  match msg.args with
  | .uint32 flag :: _ => some flag
  | _ => none

/-- The arguments of `SetSurroundingText` -/
def surroundingText (msg : DBusCall) : Option (Option Bytes × UInt32 × UInt32) :=
  match msg.args with
  | .string text :: .uint32 cursor :: .uint32 anchor :: _ => some (some text, cursor, anchor)
  | _ => none

/-- The arguments of `SetSurroundingTextPosition` -/
def surroundingTextPosition (msg : DBusCall) : Option (Option Bytes × UInt32 × UInt32) :=
  match msg.args with
  | .uint32 cursor :: .uint32 anchor :: _ => some (none, cursor, anchor)
  | _ => none

/-- Whether `dbus_message_get_args` comes to the last argument of `ProcessKeyEvent`: it stores the 64 bits of the time
in `uint32_t time`, and overwrites what lies behind it. -/
def keyEventOverruns (msg : DBusCall) : Bool :=
  match msg.args with
  | .uint32 _ :: .uint32 _ :: .uint32 _ :: .int32 _ :: .uint64 _ :: _ => true
  | _ => false

/-- The tests of `fcitx_ipc_inputcontext_handler`, in their order. -/
def method (msg : DBusCall) : Option IcMethod :=
  if msg.isMethodCall introspectableInterface "Introspect".toUTF8.toList then some .introspect
  else if msg.isMethod "FocusIn" then some .focusIn
  else if msg.isMethod "FocusOut" then some .focusOut
  else if msg.isMethod "Reset" then some .reset
  else if msg.isMethod "SetCursorRect" then some (.setCursorRect msg.cursorRect)
  else if msg.isMethod "SetCapability" then some (.setCapability msg.capability)
  else if msg.isMethod "SetSurroundingText" then some (.setSurroundingText msg.surroundingText)
  else if msg.isMethod "SetSurroundingTextPosition" then some (.setSurroundingText msg.surroundingTextPosition)
  else if msg.isMethod "DestroyIC" then some .destroyIC
  else if msg.isMethod "ProcessKeyEvent" then some (.processKeyEvent msg.keyEventOverruns)
  else none

end DBusCall

/-- What reaches the frontend from the bus: `Introspect` and `CreateIC` on `/inputmethod`, a call on another path, and
a name that changes its owner. -/
inductive BusRequest where
  | introspect
  | createIC (create : CreateIC)
  | call (path : Bytes) (msg : DBusCall)
  | nameOwnerChanged (serviceName oldName newName : Bytes)

/-! ### The handler -/

namespace Ipc

/-- A call of the manager. -/
def onManager (s : Ipc) (f : IcSystem InstanceProperty → IcSystem InstanceProperty) : Ipc :=
  { s with icManager := f s.icManager }

/-- The branches of `fcitx_ipc_inputcontext_handler` -/
def doMethod (s : Ipc) (ic : ContextPtr) : IcMethod → Option (IpcReply × Ipc)
  | .introspect => some (.inputcontextIntrospection, s)
  | .focusIn => some (.methodReturn, s.onManager (·.focusIn ic))
  | .focusOut => some (.methodReturn, s.onManager (·.focusOut ic))
  | .reset => some (.methodReturn, s.onManager (·.reset ic))
  | .setCursorRect none => some (.methodReturn, s)
  | .setCursorRect (some rect) => some (.methodReturn, s.onManager (·.setCursorRect ic rect))
  | .setCapability none => some (.methodReturn, s)
  | .setCapability (some flag) => some (.methodReturn, s.onManager (·.setCapabilityFlags ic flag))
  | .setSurroundingText none => some (.methodReturn, s)
  | .setSurroundingText (some (text, cursor, anchor)) =>
    some (.methodReturn, s.onManager (·.setSurroundingText ic text cursor anchor))
  | .destroyIC => (s.destroyContext ic).map fun s => (.methodReturn, s)
  | .processKeyEvent false => some (.invalidArgs, s)
  -- the store behind `time`
  | .processKeyEvent true => none

/-- `fcitx_ipc_inputcontext_handler`; without a reply the message is not handled. -/
def inputcontextHandler (s : Ipc) (path : Bytes) (msg : DBusCall) : Option (Option IpcReply × Ipc) :=
  match idOfPath path with
  | none => some (none, s)
  | some id =>
    match s.icManager.getInputContext id with
    | none => some (none, s)
    | some ic =>
      match msg.method with
      | none => some (none, s)
      | some method => (s.doMethod ic method).map fun r => (some r.1, r.2)

/-- The handler on a context that it finds. -/
theorem inputcontextHandler_of_found {s : Ipc} {path : Bytes} {id : UInt32} {ic : ContextPtr} (msg : DBusCall)
    (hid : idOfPath path = some id) (hic : s.icManager.getInputContext id = some ic) :
    s.inputcontextHandler path msg = msg.method.elim (some (none, s)) fun method =>
      (s.doMethod ic method).map fun r => (some r.1, r.2) := by
  unfold inputcontextHandler
  rewrite [hid]
  dsimp only
  rewrite [hic]
  dsimp only
  cases msg.method with
  | none => rfl
  | some method => rfl

/-- `CreateIC` in `fcitx_ipc_inputmethod_handler`, with its reply. -/
def inputmethodHandler (s : Ipc) (create : CreateIC) : Option (Option IpcReply × Ipc) :=
  match create.argument with
  | none => some (some .registerFailed, s)
  | some entries =>
    match s.newInputContext create with
    | none => none
    | some (none, s) => some (some .registerFailed, s)
    | some (some ic, s) =>
      let s := s.configure ic (CreateArgs.ofArgument entries)
      some (some (.created (icPath (s.icManager.ctx ic).id) (s.icManager.ctx ic).uuid), s)

/-- What the frontend does for a request. The library knows the handler of a path that is registered. -/
def request (s : Ipc) : BusRequest → Option (Option IpcReply × Ipc)
  | .introspect => some (some .inputmethodIntrospection, s)
  | .createIC create => s.inputmethodHandler create
  | .call path msg =>
    if path ∈ s.objectPaths.map icPath then s.inputcontextHandler path msg else some (none, s)
  | .nameOwnerChanged serviceName oldName newName =>
    (s.nameOwnerChanged serviceName oldName newName).map fun s => (none, s)

end Ipc

/-- `"/inputmethod"` -/
def inputMethodPath : Bytes := "/inputmethod".toUTF8.toList

/-- The environment keeps the promises that it makes for a message, and a call on a path is not one of the other
requests. -/
def BusRequest.Ok (s : Ipc) : BusRequest → Prop
  | .createIC create =>
    create.registered = true ∧ (s.icManager.new create.uuid s.frontendId true).1.isSome = true ∧
      create.watchId ∉ s.watches.map Prod.fst
  | .call path _ => path ≠ inputMethodPath
  | .introspect | .nameOwnerChanged .. => True

instance busRequestOkDecidable (s : Ipc) : ∀ request : BusRequest, Decidable (request.Ok s)
  | .createIC create =>
    inferInstanceAs (Decidable (create.registered = true ∧
      (s.icManager.new create.uuid s.frontendId true).1.isSome = true ∧
        create.watchId ∉ s.watches.map Prod.fst))
  | .call path _ => inferInstanceAs (Decidable (path ≠ inputMethodPath))
  | .introspect | .nameOwnerChanged .. => .isTrue trivial

/-- A key event for a context. -/
def BusRequest.Overruns (s : Ipc) : BusRequest → Prop
  | .call path msg => path ∈ s.objectPaths.map icPath ∧ msg.method = some (.processKeyEvent true)
  | .introspect | .createIC _ | .nameOwnerChanged .. => False

instance busRequestOverrunsDecidable (s : Ipc) : ∀ request : BusRequest, Decidable (request.Overruns s)
  | .call path msg =>
    inferInstanceAs (Decidable (path ∈ s.objectPaths.map icPath ∧ msg.method = some (.processKeyEvent true)))
  | .introspect | .createIC _ | .nameOwnerChanged .. => .isFalse id

/-- The frontend on the bus, and what it sent back; `none` after a read of a pointer to nothing, a store behind a
variable, or in a loop without end. -/
structure IpcBus where
  ipc : Option Ipc
  replies : List (Option IpcReply)

namespace IpcBus

def step (bus : IpcBus) (request : BusRequest) : IpcBus :=
  match bus.ipc with
  | none => bus
  | some s =>
    match s.request request with
    | none => { bus with ipc := none }
    | some (reply, s) => ⟨some s, bus.replies ++ [reply]⟩

/-- The frontend after a step is what its request left. -/
theorem mem_step {bus : IpcBus} {request : BusRequest} {s' : Ipc} (h : s' ∈ (bus.step request).ipc) :
    ∃ s ∈ bus.ipc, ∃ reply, s.request request = some (reply, s') := by
  obtain ⟨ipc, replies⟩ := bus
  cases ipc with
  | none => cases h
  | some s =>
    rw [step] at h
    dsimp only at h
    cases hrequest : s.request request with
    | none =>
      rw [hrequest] at h
      cases h
    | some result =>
      rw [hrequest] at h
      obtain rfl := Option.some.inj h
      exact ⟨s, rfl, result.1, hrequest⟩

/-- A request as it should be, but for key events. -/
def Ok (bus : IpcBus) (request : BusRequest) : Prop := ∀ s ∈ bus.ipc, request.Ok s ∧ ¬ request.Overruns s

instance okDecidable (bus : IpcBus) (request : BusRequest) : Decidable (bus.Ok request) :=
  inferInstanceAs (Decidable (∀ s ∈ bus.ipc, request.Ok s ∧ ¬ request.Overruns s))

/-- The frontend of a running instance, before the first message. -/
def start (addonManager : AddonManager) (triggerKey : List Key) (frontendId : UInt32) : IpcBus :=
  ⟨some (.init (Instance.new addonManager triggerKey).registerProperties frontendId), []⟩

end IpcBus
end Fcitx
