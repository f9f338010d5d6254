/-
# The IPC frontend

The part of `frontend/ipc/ipc.c` that makes and destroys contexts. A client asks for a
context with `CreateIC`; the frontend keeps with every client the dictionary of
its contexts and a watch on its bus name, and keeps with every context the name
of its client. A context goes away on request, or because its client left the
bus. Either way the manager notifies the frontend in the middle of
`fcitx_input_context_destroy`, and the notification edits the dictionary, which
it frees with its last context.

A function gives `none` where the code reads a pointer to nothing, or does not
come to an end. An object path of a context is known by the id in it, a watch
by the number that `watch_name` returned; the environment chooses that number
and the uuid, and whether an object path can be registered.

Key definitions: `Ipc`, `Ipc.newInputContext`, `Ipc.destroyInputContext`, `Ipc.watchName`,
`IpcMessage`, `Ipc.handle`.
-/
import Fcitx.Instance.State
import Fcitx.Lib.Assoc

namespace Fcitx

/-- The address of a `FcitxIPCSender`. -/
abbrev SenderPtr := ℕ

/-- `FcitxIPCSender`; `ics` is a dictionary in insertion order. -/
structure IpcSender where
  watchId : ℤ
  ics : List ContextPtr
  deriving DecidableEq

/-- `FcitxIPC`, with the memory of its senders and what it has registered with the bus. -/
structure Ipc where
  icManager : IcSystem InstanceProperty
  senderToIC : List (Bytes × SenderPtr)
  /-- `none` is freed, or was never there -/
  senders : SenderPtr → Option IpcSender
  senderTop : SenderPtr
  objectPaths : List UInt32
  watches : List (ℤ × Bytes)
  frontendId : UInt32
  frontendDataId : ℤ
  appNameId : ℤ

/-- A value in a variant of the argument of `CreateIC`. -/
inductive DBusValue where
  | boolean (b : Bool)
  | string (str : Bytes)
  | other
  deriving DecidableEq

/-- An entry of the argument of `CreateIC`; a key that is no string, and a value that is no
variant, are `none`. -/
abbrev DBusEntry := Option Bytes × Option DBusValue

/-- What `CreateIC` reads of its argument. -/
structure CreateArgs where
  independent : Bool
  appName : Option Bytes
  deriving DecidableEq

/-- A `CreateIC` call, and what the environment does for it. -/
structure CreateIC where
  sender : Option Bytes
  /-- `none` where there is no argument or it is no array -/
  argument : Option (List DBusEntry)
  /-- what `uuid_generate` gives -/
  uuid : Uuid
  /-- whether `dbus_connection_register_object_path` succeeds -/
  registered : Bool
  /-- what `watch_name` returns -/
  watchId : ℤ

/-- What reaches the frontend from the bus. -/
inductive IpcMessage where
  | createIC (create : CreateIC)
  /-- `DestroyIC` on the object path with this id -/
  | destroyIC (id : UInt32)
  | nameOwnerChanged (serviceName oldName newName : Bytes)

/-- One round of the loop over the argument of `CreateIC`. -/
def CreateArgs.read (args : CreateArgs) : DBusEntry → CreateArgs
  | (some name, some (.boolean b)) =>
    if name = "independent".toUTF8.toList then { args with independent := b } else args
  | (some name, some (.string str)) =>
    if name = "appName".toUTF8.toList then { args with appName := some str } else args
  | _ => args

/-- What the loop over the argument of `CreateIC` finds. -/
def CreateArgs.ofArgument (entries : List DBusEntry) : CreateArgs := entries.foldl read ⟨false, none⟩

namespace Ipc

/-- `fcitx_ipc_init`, with the manager of a running instance. -/
def init (inst : Instance) (frontendId : UInt32) : Ipc :=
  { icManager := inst.icManager, senderToIC := [], senders := fun _ => none, senderTop := 0
    objectPaths := [], watches := [], frontendId
    frontendDataId := inst.icManager.lookupProperty "frontend-data".toUTF8.toList
    appNameId := inst.icManager.lookupProperty "applicationName".toUTF8.toList }

/-! ### Destroying -/

/-- The end of `fcitx_ipc_destroy_input_context`: a client with no context left is forgotten. -/
def forgetSender (s : Ipc) (sender : Bytes) (ptr : SenderPtr) (senderData : IpcSender) : Ipc :=
  if senderData.ics = [] then
    { s with
      watches := s.watches.filter fun watch => watch.1 ≠ senderData.watchId
      senderToIC := Assoc.erase s.senderToIC sender
      senders := Function.update s.senders ptr none }
  else s

/-- `fcitx_ipc_destroy_input_context`, which finds the manager `m`. -/
def destroyInputContext (s : Ipc) (m : InputContextManager InstanceProperty) (ic : ContextPtr) : Option Ipc :=
  let s := { s with objectPaths := s.objectPaths.erase (m.ctx ic).id }
  match m.getProperty ic s.frontendDataId with
  | some (.frontendData sender) =>
    match s.senderToIC.lookup sender with
    | none => none
    | some ptr =>
      match s.senders ptr with
      | none => none
      | some senderData =>
        let senderData := { senderData with ics := senderData.ics.erase ic }
        some ({ s with senders := Function.update s.senders ptr (some senderData) }.forgetSender
          sender ptr senderData)
  | _ => none

/-- What the frontend does when the manager calls. -/
def called (s : Ipc) (e : Emitted InstanceProperty) : Option Ipc :=
  match e.call with
  | .destroyNotify ic => s.destroyInputContext e.manager ic
  | .event _ => some s

/-- `fcitx_input_context_destroy` as the frontend sees it. Its notification leaves the manager
alone, so the manager may finish first. -/
def destroyContext (s : Ipc) (ic : ContextPtr) : Option Ipc :=
  let icManager := s.icManager.destroy ic
  (icManager.trace.drop s.icManager.trace.length).foldlM called { s with icManager }

/-- `DestroyIC`: the bus finds the handler by the object path, and the handler the context. -/
def destroyIC (s : Ipc) (id : UInt32) : Option Ipc :=
  if id ∈ s.objectPaths then
    match s.icManager.getInputContext id with
    | some ic => s.destroyContext ic
    | none => some s
  else some s

/-- The loop of `fcitx_ipc_watch_name`, given more rounds than it may take. -/
def destroyAll (ptr : SenderPtr) : ℕ → Ipc → Option Ipc
  | 0, _ => none
  | rounds + 1, s =>
    match s.senders ptr with
    | none => none
    | some senderData =>
      match senderData.ics with
      | [] => some s
      | ic :: rest =>
        match s.destroyContext ic with
        | none => none
        | some s => if rest = [] then some s else destroyAll ptr rounds s

/-- `fcitx_ipc_watch_name` -/
def watchName (s : Ipc) (serviceName oldName newName : Bytes) : Option Ipc :=
  if ¬ (0 < oldName.length ∧ newName.length = 0) then some s
  else
    match s.senderToIC.lookup serviceName with
    | none => some s
    | some ptr =>
      match s.senders ptr with
      | none => none
      | some senderData => destroyAll ptr (senderData.ics.length + 1) s

/-- The callback of a watch is called if it is still there. -/
def callWatch (serviceName oldName newName : Bytes) (s : Ipc) (watch : ℤ × Bytes) : Option Ipc :=
  if watch ∈ s.watches then s.watchName serviceName oldName newName else some s

/-- `NameOwnerChanged`: the callbacks of the watches on the name are called. -/
def nameOwnerChanged (s : Ipc) (serviceName oldName newName : Bytes) : Option Ipc :=
  (s.watches.filter fun watch => watch.2 = serviceName).foldlM (callWatch serviceName oldName newName) s

/-! ### Making -/

/-- The entry of a client, made with its watch if there is none. -/
def senderFor (s : Ipc) (sender : Bytes) (watchId : ℤ) : SenderPtr × Ipc :=
  match s.senderToIC.lookup sender with
  | some ptr => (ptr, s)
  | none =>
    (s.senderTop,
      { s with
        watches := s.watches ++ [(watchId, sender)]
        senderToIC := s.senderToIC ++ [(sender, s.senderTop)]
        senders := Function.update s.senders s.senderTop (some ⟨watchId, []⟩)
        senderTop := s.senderTop + 1 })

/-- The end of `fcitx_ipc_new_input_context`: the context and its client get to know each other. -/
def own (s : Ipc) (sender : Bytes) (watchId : ℤ) (ic : ContextPtr) : Option Ipc :=
  let (ptr, s) := s.senderFor sender watchId
  match s.senders ptr with
  | none => none
  | some senderData =>
    let ics := if ic ∈ senderData.ics then senderData.ics else senderData.ics ++ [ic]
    some { s with
      senders := Function.update s.senders ptr (some { senderData with ics })
      icManager := s.icManager.setProperty ic s.frontendDataId (some (.frontendData sender)) }

/-- `fcitx_ipc_new_input_context`; the context is NULL where there is no sender, or no path. -/
def newInputContext (s : Ipc) (create : CreateIC) : Option (Option ContextPtr × Ipc) :=
  match create.sender with
  | none => some (none, s)
  | some sender =>
    match s.icManager.new create.uuid s.frontendId true with
    | (none, _) => none
    | (some ic, icManager) =>
      let s := { s with icManager }
      if create.registered then
        let s := { s with objectPaths := s.objectPaths ++ [(icManager.ctx ic).id] }
        (s.own sender create.watchId ic).map fun s => (some ic, s)
      else (s.destroyContext ic).map fun s => (none, s)

/-- What `CreateIC` does to a context it made. -/
def configure (s : Ipc) (ic : ContextPtr) (args : CreateArgs) : Ipc :=
  let icManager := s.icManager.setFocusGroup ic (if args.independent then .independent else .global) none
  { s with icManager := icManager.setProperty ic s.appNameId (args.appName.map .appName) }

/-- `CreateIC` in `fcitx_ipc_inputmethod_handler`; without an array nothing is made. -/
def createIC (s : Ipc) (create : CreateIC) : Option Ipc :=
  match create.argument with
  | none => some s
  | some entries =>
    match s.newInputContext create with
    | none => none
    | some (none, s) => some s
    | some (some ic, s) => some (s.configure ic (CreateArgs.ofArgument entries))

/-- What the frontend does with a message. -/
def handle (s : Ipc) : IpcMessage → Option Ipc
  | .createIC create => s.createIC create
  | .destroyIC id => s.destroyIC id
  | .nameOwnerChanged serviceName oldName newName => s.nameOwnerChanged serviceName oldName newName

end Ipc
end Fcitx
