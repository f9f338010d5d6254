/-
# The contexts as objects of the bus

To its client a context is an object: the path that `CreateIC` sent back. `BusModel` has the
objects and the manager and nothing else, no senders and watches, no notification and no
number in a path; a call on a path is done to the context of that object. The frontend
answers every run of requests as the model does, and leaves the same manager. So what is
known of the manager holds of the bus, whatever the clients do and in which order.

Key definitions: `BusModel`, `BusModel.calls`, `BusModel.step`, `BusServed`.
Key theorems: `BusServed.createIC`, `BusServed.call`, `BusServed.request`, `IpcBus.run_objects`, `IpcBus.run_laws`.
-/
import Fcitx.Ipc.ManagerCalls

namespace Fcitx

open InputContextManager IcSystem

/-- An object of the bus, with its context and the client that it was made for. -/
structure BusObject where
  path : Bytes
  ic : ContextPtr
  client : Bytes
  deriving DecidableEq

/-- The objects, the manager of their contexts, and what was sent back. -/
structure BusModel where
  manager : IcSystem InstanceProperty
  objects : List BusObject
  replies : List (Option IpcReply)
  frontendId : UInt32
  frontendDataId : ℤ
  appNameId : ℤ

namespace BusModel

/-- Before the first message. -/
def start (addonManager : AddonManager) (triggerKey : List Key) (frontendId : UInt32) : BusModel :=
  let manager := (Instance.new addonManager triggerKey).registerProperties.icManager
  { manager, objects := [], replies := [], frontendId
    frontendDataId := manager.lookupProperty "frontend-data".toUTF8.toList
    appNameId := manager.lookupProperty "applicationName".toUTF8.toList }

/-- The object of a path. -/
def find (b : BusModel) (path : Bytes) : Option BusObject := b.objects.find? fun o => o.path = path

/-- The context that a `CreateIC` call makes, with the sender and the argument of the call. -/
def made (b : BusModel) (create : CreateIC) : Option (ContextPtr × Bytes × List DBusEntry) :=
  match create.argument, create.sender, (b.manager.new create.uuid b.frontendId true).1 with
  | some entries, some sender, some ic => some (ic, sender, entries)
  | _, _, _ => none

/-- What a request asks of the manager. -/
def calls (b : BusModel) : BusRequest → List (IcOp InstanceProperty)
  | .introspect => []
  | .createIC create =>
    match b.made create with
    | none => []
    | some (ic, sender, entries) =>
      let args := CreateArgs.ofArgument entries
      [.new create.uuid b.frontendId true, .setProperty ic b.frontendDataId (some (.frontendData sender)),
        .setFocusGroup ic (if args.independent then .independent else .global) none,
        .setProperty ic b.appNameId (args.appName.map .appName)]
  | .call path msg =>
    match b.find path, msg.method with
    | some o, some method => method.calls o.ic
    | _, _ => []
  | .nameOwnerChanged serviceName oldName newName =>
    if oldName ≠ [] ∧ newName = [] then
      ((b.objects.filter fun o => o.client = serviceName).map BusObject.ic).map fun c => .destroy c
    else []

/-- The manager after a request. -/
def managerAfter (b : BusModel) (request : BusRequest) : IcSystem InstanceProperty :=
  Run.exec IcSystem.step b.manager (b.calls request)

/-- The objects after a request. -/
def objectsAfter (b : BusModel) : BusRequest → List BusObject
  | .introspect => b.objects
  | .createIC create =>
    match b.made create with
    | none => b.objects
    | some (ic, sender, _) => b.objects ++ [⟨icPath ((b.managerAfter (.createIC create)).ctx ic).id, ic, sender⟩]
  | .call path msg => if msg.method = some .destroyIC then b.objects.filter fun o => o.path ≠ path else b.objects
  | .nameOwnerChanged serviceName oldName newName =>
    if oldName ≠ [] ∧ newName = [] then b.objects.filter fun o => o.client ≠ serviceName else b.objects

/-- What is sent back. -/
def reply (b : BusModel) : BusRequest → Option IpcReply
  | .introspect => some .inputmethodIntrospection
  | .createIC create =>
    match b.made create with
    | none => some .registerFailed
    | some (ic, _, _) =>
      let manager := b.managerAfter (.createIC create)
      some (.created (icPath (manager.ctx ic).id) (manager.ctx ic).uuid)
  | .call path msg =>
    match b.find path, msg.method with
    | some _, some method => some method.reply
    | _, _ => none
  | .nameOwnerChanged .. => none

def step (b : BusModel) (request : BusRequest) : BusModel :=
  { b with
    manager := b.managerAfter request
    objects := b.objectsAfter request
    replies := b.replies ++ [b.reply request] }

/-- The contexts with their clients. -/
def owners (b : BusModel) : List (ContextPtr × Bytes) := b.objects.map fun o => (o.ic, o.client)

theorem find_some {b : BusModel} {path : Bytes} {o : BusObject} (h : b.find path = some o) :
    o ∈ b.objects ∧ o.path = path := by
  unfold BusModel.find at h
  have hpath := List.find?_some h
  exact ⟨List.mem_of_find?_eq_some h, of_decide_eq_true hpath⟩

theorem owned_owners (b : BusModel) (sender : Bytes) :
    Ipc.owned b.owners sender = (b.objects.filter fun o => o.client = sender).map BusObject.ic := by
  rw [Ipc.owned, owners, List.filter_map, List.map_map]
  rfl

end BusModel

/-- **The frontend and the objects that its clients know.** -/
structure BusServed (s : Ipc) (b : BusModel) : Prop where
  served : s.Served b.owners
  path : ∀ o ∈ b.objects, o.path = icPath (s.icManager.ctx o.ic).id
  manager : b.manager = s.icManager
  frontendId : b.frontendId = s.frontendId
  frontendDataId : b.frontendDataId = s.frontendDataId
  appNameId : b.appNameId = s.appNameId

/-- The frontend answers a request as the model does, with the same calls of the manager. -/
def Answers (s : Ipc) (b : BusModel) (request : BusRequest) : Prop :=
  ∃ s', s.request request = some (b.reply request, s') ∧ BusServed s' (b.step request) ∧
    s.Called s' (b.calls request)

namespace Ipc

variable {s s' : Ipc} {sender : Bytes} {c : ContextPtr} {create : CreateIC}

theorem newInputContext_called (hsender : create.sender = some sender) (hregistered : create.registered = true)
    (hnew : (s.icManager.new create.uuid s.frontendId true).1 = some c)
    (hc : c ∈ (s.icManager.new create.uuid s.frontendId true).2.ics)
    (h : s.newInputContext create = some (some c, s')) :
    s.Called s' [.new create.uuid s.frontendId true,
      .setProperty c s.frontendDataId (some (.frontendData sender))] := by
  unfold Ipc.newInputContext at h
  rw [hsender] at h
  dsimp only at h
  generalize hmade : s.icManager.new create.uuid s.frontendId true = made at h hnew hc
  obtain ⟨ic, manager⟩ := made
  obtain rfl : ic = some c := hnew
  dsimp only at h
  rw [if_pos hregistered] at h
  obtain ⟨t, hown, heq⟩ := Option.map_eq_some_iff.mp h
  obtain rfl : t = s' := (Prod.mk.inj heq).2
  have hcalled := own_called hc hown
  have hmanager : manager = s.icManager.step (.new create.uuid s.frontendId true) :=
    (congrArg Prod.snd hmade).symm
  refine ⟨?_, ⟨trivial, ?_, trivial⟩, hcalled.frontendId, hcalled.frontendDataId, hcalled.appNameId⟩
  · rw [hcalled.icManager, hmanager]
    rfl
  · rw [← hmanager]
    exact hc

theorem configure_called (hc : c ∈ s.icManager.ics) (args : CreateArgs) :
    s.Called (s.configure c args) [.setFocusGroup c (if args.independent then .independent else .global) none,
      .setProperty c s.appNameId (args.appName.map .appName)] := by
  have hkeep := setFocusGroup_keepsValues (i := 0) s.icManager c (if args.independent then .independent else .global)
    none
  refine ⟨rfl, ⟨⟨hc, fun g hg => absurd hg (Option.not_mem_none g)⟩, ?_, trivial⟩, rfl, rfl, rfl⟩
  show c ∈ (s.icManager.setFocusGroup c _ none).ics
  rw [hkeep.ics]
  exact hc

end Ipc

namespace BusServed

variable {s : Ipc} {b : BusModel} {o o' : BusObject} {c : ContextPtr}

theorem mem_owners (ho : o ∈ b.objects) : (o.ic, o.client) ∈ b.owners := List.mem_map.mpr ⟨o, ho, rfl⟩

theorem mem_ics (h : BusServed s b) (ho : o ∈ b.objects) : o.ic ∈ s.icManager.ics := h.served.mem_ics (mem_owners ho)

theorem ics_eq (h : BusServed s b) : s.icManager.ics = b.objects.map BusObject.ic := by
  rw [h.served.live, BusModel.owners, List.map_map]
  rfl

/-- The paths that are registered are those of the objects. -/
theorem paths_eq (h : BusServed s b) : s.objectPaths.map icPath = b.objects.map BusObject.path := by
  rw [h.served.paths, h.ics_eq, List.map_map, List.map_map]
  exact List.map_congr_left fun o ho => (h.path o ho).symm

/-- Objects with one path have one context. -/
theorem path_inj (h : BusServed s b) (ho : o ∈ b.objects) (ho' : o' ∈ b.objects) :
    o.path = o'.path ↔ o.ic = o'.ic := by
  rw [h.path o ho, h.path o' ho']
  constructor
  · intro hpath
    have hid := icPath_injective hpath
    exact h.served.registry.id_inj _ (List.mem_append_left _ (h.mem_ics ho)) _
      (List.mem_append_left _ (h.mem_ics ho')) hid
  · intro hic
    rw [hic]

theorem paths_nodup (h : BusServed s b) : (b.objects.map BusObject.path).Nodup := by
  have hics : (b.objects.map BusObject.ic).Nodup := h.ics_eq ▸ h.served.registry.ics_nodup
  refine List.Nodup.map_on (fun o ho o' ho' hpath => ?_) (List.Nodup.of_map _ hics)
  exact List.inj_on_of_nodup_map hics ho ho' ((h.path_inj ho ho').mp hpath)

/-- A request that changes nothing. -/
theorem idle (h : BusServed s b) {request : BusRequest} (hcalls : b.calls request = [])
    (hobjects : b.objectsAfter request = b.objects) : BusServed s (b.step request) := by
  have howners : (b.step request).owners = b.owners := congrArg (List.map _) hobjects
  refine ⟨howners ▸ h.served, fun o ho => h.path o ?_, ?_, h.frontendId, h.frontendDataId, h.appNameId⟩
  · rw [← hobjects]
    exact ho
  · show b.managerAfter request = s.icManager
    rw [BusModel.managerAfter, hcalls]
    exact h.manager

/-- **A context is made**, and its path is told to the client. -/
theorem createIC (h : BusServed s b) {create : CreateIC} (hok : (BusRequest.createIC create).Ok s) :
    Answers s b (.createIC create) := by
  obtain ⟨hregistered, hsome, hwatch⟩ := hok
  obtain ⟨c, hc⟩ := Option.isSome_iff_exists.mp hsome
  have hnone : b.made create = none → s.request (.createIC create) = some (some .registerFailed, s) →
      Answers s b (.createIC create) := by
    intro hmade hrequest
    have hcalls : b.calls (.createIC create) = [] := by rw [BusModel.calls, hmade]
    refine ⟨s, ?_, h.idle hcalls (by rw [BusModel.objectsAfter, hmade]), ?_⟩
    · rw [hrequest, BusModel.reply, hmade]
    · rw [hcalls]
      exact .refl s
  cases harg : create.argument with
  | none =>
    apply hnone
    · rw [BusModel.made, harg]
    · rw [Ipc.request, Ipc.inputmethodHandler, harg]
  | some entries =>
    cases hsender : create.sender with
    | none =>
      apply hnone
      · rw [BusModel.made, harg, hsender]
      · rw [Ipc.request, Ipc.inputmethodHandler, harg, Ipc.newInputContext, hsender]
    | some sender =>
      obtain ⟨s₁, hmade, hserved₁⟩ := h.served.newInputContext hsender hregistered hwatch hc
      obtain ⟨gs, L, hinv⟩ := h.served.manager
      have hframe := hinv.new_frame hc
      have hin : c ∈ (s.icManager.new create.uuid s.frontendId true).2.ics := by
        rw [hframe.ics]
        exact List.mem_append_right _ List.mem_cons_self
      have hin₁ : c ∈ s₁.icManager.ics := hserved₁.mem_ics (List.mem_append_right _ List.mem_cons_self)
      have hcalled₁ := Ipc.newInputContext_called hsender hregistered hc hin hmade
      set args := CreateArgs.ofArgument entries with hargs
      set s₂ := s₁.configure c args with hs₂
      have hmodel : b.made create = some (c, sender, entries) := by
        rw [BusModel.made, harg, hsender, h.manager, h.frontendId, hc]
      have hcalled : s.Called s₂ (b.calls (.createIC create)) := by
        have hboth := hcalled₁.trans (Ipc.configure_called hin₁ args)
        rw [hcalled₁.appNameId] at hboth
        rw [BusModel.calls, hmodel, h.frontendId, h.frontendDataId, h.appNameId]
        exact hboth
      have hafter : b.managerAfter (.createIC create) = s₂.icManager := by
        rw [BusModel.managerAfter, h.manager, hcalled.icManager]
      have hobjects : b.objectsAfter (.createIC create) =
          b.objects ++ [⟨icPath (s₂.icManager.ctx c).id, c, sender⟩] := by
        rw [BusModel.objectsAfter, hmodel, ← hafter]
      have howners : (b.step (.createIC create)).owners = b.owners ++ [(c, sender)] := by
        show (b.objectsAfter (.createIC create)).map _ = _
        rw [hobjects, List.map_append]
        rfl
      have hids : ∀ d, d ≠ c → (s₂.icManager.ctx d).id = (s.icManager.ctx d).id := by
        intro d hd
        have hgroup := setFocusGroup_keepsValues (i := 0) s₁.icManager c
          (if args.independent then .independent else .global) none
        have hset := setProperty_rest (s₁.icManager.setFocusGroup c
          (if args.independent then .independent else .global) none) c s₁.appNameId (args.appName.map .appName)
        have hset₁ := setProperty_rest (s.icManager.new create.uuid s.frontendId true).2 c s.frontendDataId
          (some (.frontendData sender))
        calc
          (s₂.icManager.ctx d).id = ((s₁.icManager.setFocusGroup c _ none).ctx d).id := by
            rw [← rest_ctx hset]
            rfl
          _ = (s₁.icManager.ctx d).id := hgroup.id d
          _ = ((s.icManager.new create.uuid s.frontendId true).2.ctx d).id := by
            rw [hcalled₁.icManager, ← rest_ctx hset₁]
            rfl
          _ = (s.icManager.ctx d).id := hframe.id d hd
      refine ⟨s₂, ?_, ⟨?_, ?_, hafter, ?_, ?_, ?_⟩, hcalled⟩
      · rw [Ipc.request, Ipc.inputmethodHandler, harg]
        dsimp only
        rw [hmade, BusModel.reply, hmodel]
        dsimp only
        rw [hafter]
      · rw [howners]
        exact hserved₁.configure hin₁ args
      · intro o ho
        have hmem : o ∈ b.objects ++ [⟨icPath (s₂.icManager.ctx c).id, c, sender⟩] := hobjects ▸ ho
        rcases List.mem_append.mp hmem with ho | ho
        · have hne : o.ic ≠ c := fun heq => hframe.fresh (heq ▸ h.mem_ics ho)
          rw [h.path o ho, hids o.ic hne]
        · rw [List.mem_singleton.mp ho]
      · exact h.frontendId.trans hcalled.frontendId.symm
      · exact h.frontendDataId.trans hcalled.frontendDataId.symm
      · exact h.appNameId.trans hcalled.appNameId.symm

/-- A method but for `DestroyIC` on a context that the frontend found. -/
theorem doMethod_eq (s : Ipc) (c : ContextPtr) {method : IcMethod} (hne : method ≠ .destroyIC)
    (hkey : method ≠ .processKeyEvent true) :
    s.doMethod c method = some (method.reply,
      { s with icManager := Run.exec IcSystem.step s.icManager (method.calls c) }) := by
  cases method with
  | setCursorRect rect => cases rect <;> rfl
  | setCapability flag => cases flag <;> rfl
  | setSurroundingText text => cases text <;> rfl
  | processKeyEvent overruns =>
    cases overruns with
    | false => rfl
    | true => exact absurd rfl hkey
  | destroyIC => exact absurd rfl hne
  | _ => rfl

/-- The frontend finds the context of an object by its path. -/
theorem request_call (h : BusServed s b) (ho : o ∈ b.objects) (msg : DBusCall) :
    s.request (.call o.path msg) = msg.method.elim (some (none, s)) fun method =>
      (s.doMethod o.ic method).map fun r => (some r.1, r.2) := by
  have hpath : o.path ∈ s.objectPaths.map icPath := by
    rw [h.paths_eq]
    exact List.mem_map_of_mem ho
  have hid : idOfPath o.path = some (s.icManager.ctx o.ic).id := by rw [h.path o ho, idOfPath_icPath]
  have hfound : s.icManager.getInputContext (s.icManager.ctx o.ic).id = some o.ic :=
    h.served.registry.getInputContext_eq.mpr ⟨h.mem_ics ho, rfl⟩
  rw [Ipc.request, if_pos hpath, Ipc.inputcontextHandler_of_found msg hid hfound]

/-- **A call on a path** is done to the context of the object. -/
theorem call (h : BusServed s b) (path : Bytes) (msg : DBusCall)
    (hkeys : ¬ BusRequest.Overruns s (.call path msg)) : Answers s b (.call path msg) := by
  have hidle : b.calls (.call path msg) = [] → b.objectsAfter (.call path msg) = b.objects →
      s.request (.call path msg) = some (b.reply (.call path msg), s) →
      Answers s b (.call path msg) := by
    intro hcalls hobjects hrequest
    refine ⟨s, hrequest, h.idle hcalls hobjects, ?_⟩
    rw [hcalls]
    exact .refl s
  cases hfind : b.find path with
  | none =>
    have hno : ∀ o ∈ b.objects, o.path ≠ path := fun o ho heq =>
      List.find?_eq_none.mp hfind o ho (decide_eq_true heq)
    have hpath : path ∉ s.objectPaths.map icPath := by
      rw [h.paths_eq]
      intro hmem
      obtain ⟨o, ho, heq⟩ := List.mem_map.mp hmem
      exact hno o ho heq
    apply hidle
    · rw [BusModel.calls, hfind]
    · rw [BusModel.objectsAfter]
      split
      · exact List.filter_eq_self.mpr fun o ho => decide_eq_true (hno o ho)
      · rfl
    · rw [Ipc.request, if_neg hpath, BusModel.reply, hfind]
  | some o =>
    obtain ⟨ho, rfl⟩ := BusModel.find_some hfind
    have hmem := h.mem_ics ho
    have hrequest := h.request_call ho msg
    cases hmethod : msg.method with
    | none =>
      apply hidle
      · rw [BusModel.calls, hfind, hmethod]
      · rw [BusModel.objectsAfter, hmethod, if_neg (Option.some_ne_none _).symm]
      · rw [hrequest, hmethod, Option.elim_none, BusModel.reply, hfind, hmethod]
    | some method =>
      have hcalls : b.calls (.call o.path msg) = method.calls o.ic := by rw [BusModel.calls, hfind, hmethod]
      have hreply : b.reply (.call o.path msg) = some (method.reply) := by
        rw [BusModel.reply, hfind, hmethod]
      have hok := IcMethod.calls_ok hmem method
      rw [hmethod, Option.elim_some] at hrequest
      by_cases hdestroy : method = .destroyIC
      · subst hdestroy
        obtain ⟨s', heq, hserved, -⟩ := h.served.destroyContext (mem_owners ho)
        have hcalled := Ipc.destroyContext_called hmem heq
        have hobjects : b.objectsAfter (.call o.path msg) = b.objects.filter fun o' => o'.path ≠ o.path := by
          rw [BusModel.objectsAfter, if_pos hmethod]
        have howners : (b.step (.call o.path msg)).owners = b.owners.filter fun e => e.1 ≠ o.ic := by
          show (b.objectsAfter (.call o.path msg)).map _ = _
          rw [hobjects, BusModel.owners, List.filter_map]
          refine congrArg (List.map _) (List.filter_congr fun o' ho' => ?_)
          exact decide_eq_decide.mpr (not_congr (h.path_inj ho' ho))
        refine ⟨s', ?_, ⟨howners ▸ hserved, fun o' ho' => ?_, ?_, ?_, ?_, ?_⟩, hcalls ▸ hcalled⟩
        · rw [hrequest, hreply, Ipc.doMethod, heq]
          rfl
        · have hleft : o' ∈ b.objectsAfter (.call o.path msg) := ho'
          rw [hobjects] at hleft
          rw [h.path o' (List.mem_filter.mp hleft).1, hcalled.icManager]
          exact congrArg icPath (destroy_id s.icManager o.ic o'.ic).symm
        · show b.managerAfter _ = _
          rw [BusModel.managerAfter, hcalls, h.manager, hcalled.icManager]
          rfl
        · exact h.frontendId.trans hcalled.frontendId.symm
        · exact h.frontendDataId.trans hcalled.frontendDataId.symm
        · exact h.appNameId.trans hcalled.appNameId.symm
      · have hkey : method ≠ .processKeyEvent true := by
          rintro rfl
          exact hkeys ⟨h.paths_eq ▸ List.mem_map_of_mem ho, hmethod⟩
        have hkeep := IcMethod.keepsValues s.frontendDataId.toNat s.icManager o.ic hdestroy
        have hinv : ∃ gs L, IcInv (fun _ => True)
            (Run.exec IcSystem.step s.icManager (method.calls o.ic)) gs L :=
          IcInv.calls anything_traceProperty (fun _ _ => True)
            (fun _ _ _ _ _ _ _ _ _ _ => trivial) h.served.manager (hok.mono fun _ _ hop => ⟨hop, trivial⟩)
        have hobjects : b.objectsAfter (.call o.path msg) = b.objects := by
          rw [BusModel.objectsAfter, hmethod, if_neg fun heq => hdestroy (Option.some.inj heq)]
        have howners : (b.step (.call o.path msg)).owners = b.owners := congrArg (List.map _) hobjects
        refine ⟨{ s with icManager := Run.exec IcSystem.step s.icManager (method.calls o.ic) }, ?_,
          ⟨howners ▸ h.served.frame hkeep hinv, fun o' ho' => ?_, ?_, h.frontendId, h.frontendDataId, h.appNameId⟩,
          ⟨by rw [hcalls], hcalls ▸ hok, rfl, rfl, rfl⟩⟩
        · rw [hrequest, hreply, doMethod_eq s o.ic hdestroy hkey]
          rfl
        · have hstay : o' ∈ b.objectsAfter (.call o.path msg) := ho'
          rw [hobjects] at hstay
          rw [h.path o' hstay]
          exact congrArg icPath (hkeep.id o'.ic).symm
        · show b.managerAfter _ = _
          rw [BusModel.managerAfter, hcalls, h.manager]

/-- **A client that leaves the bus** takes its objects along. -/
theorem nameOwnerChanged (h : BusServed s b) (serviceName oldName newName : Bytes) :
    Answers s b (.nameOwnerChanged serviceName oldName newName) := by
  obtain ⟨s', heq, hcalled⟩ := h.served.nameOwnerChanged_called serviceName oldName newName
  obtain ⟨s'', heq', hserved⟩ := h.served.nameOwnerChanged serviceName oldName newName
  obtain rfl : s' = s'' := Option.some.inj (heq.symm.trans heq')
  have hcalls : b.calls (.nameOwnerChanged serviceName oldName newName) =
      if oldName ≠ [] ∧ newName = [] then (Ipc.owned b.owners serviceName).map fun c => .destroy c else [] := by
    rw [BusModel.calls, BusModel.owned_owners]
  have howners : (b.step (.nameOwnerChanged serviceName oldName newName)).owners =
      if oldName ≠ [] ∧ newName = [] then b.owners.filter fun o => o.2 ≠ serviceName else b.owners := by
    show (b.objectsAfter (.nameOwnerChanged serviceName oldName newName)).map (fun o => (o.ic, o.client)) = _
    rw [BusModel.objectsAfter]
    split
    · rw [BusModel.owners, List.filter_map]
      rfl
    · rfl
  have hids : ∀ d, (s'.icManager.ctx d).id = (s.icManager.ctx d).id := by
    intro d
    rw [hcalled.icManager]
    split
    · exact destroys_id _ s.icManager d
    · rfl
  refine ⟨s', ?_, ⟨howners ▸ hserved, fun o ho => ?_, ?_, ?_, ?_, ?_⟩, hcalls ▸ hcalled⟩
  · rw [Ipc.request, heq]
    rfl
  · have ho' : o ∈ b.objects := by
      have hmem : o ∈ b.objectsAfter (.nameOwnerChanged serviceName oldName newName) := ho
      rw [BusModel.objectsAfter] at hmem
      split at hmem
      · exact (List.mem_filter.mp hmem).1
      · exact hmem
    rw [h.path o ho', hids]
  · show b.managerAfter _ = _
    rw [BusModel.managerAfter, hcalls, h.manager, hcalled.icManager]
  · exact h.frontendId.trans hcalled.frontendId.symm
  · exact h.frontendDataId.trans hcalled.frontendDataId.symm
  · exact h.appNameId.trans hcalled.appNameId.symm

/-- **Every request** but a key event is answered as the model says. -/
theorem request (h : BusServed s b) {request : BusRequest} (hok : request.Ok s) (hkeys : ¬ request.Overruns s) :
    Answers s b request := by
  cases request with
  | introspect => exact ⟨s, rfl, h.idle rfl rfl, .refl s⟩
  | createIC create => exact h.createIC hok
  | call path msg => exact h.call path msg hkeys
  | nameOwnerChanged serviceName oldName newName => exact h.nameOwnerChanged serviceName oldName newName

/-- **A key event for a context** is what the frontend does not get over. -/
theorem request_eq_none_iff (h : BusServed s b) {request : BusRequest} (hok : request.Ok s) :
    s.request request = none ↔ request.Overruns s := by
  constructor
  · intro hnone
    by_contra hkeys
    obtain ⟨s', heq, -⟩ := h.request hok hkeys
    exact Option.some_ne_none _ (heq.symm.trans hnone)
  · intro hover
    cases request with
    | introspect => exact hover.elim
    | createIC create => exact hover.elim
    | nameOwnerChanged serviceName oldName newName => exact hover.elim
    | call path msg =>
      obtain ⟨hpath, hmethod⟩ := hover
      rw [h.paths_eq] at hpath
      obtain ⟨o, ho, rfl⟩ := List.mem_map.mp hpath
      rw [h.request_call ho, hmethod]
      rfl

theorem start (addonManager : AddonManager) (triggerKey : List Key) (frontendId : UInt32) :
    BusServed (.init (Instance.new addonManager triggerKey).registerProperties frontendId)
      (.start addonManager triggerKey frontendId) :=
  ⟨Ipc.Served.start addonManager triggerKey frontendId, fun _ ho => absurd ho List.not_mem_nil, rfl, rfl, rfl, rfl⟩

end BusServed

/-! ### Runs -/

/-- A surrounding text is sent that the manager stores and reports as a focus. -/
def BusRequest.Misreports (s : Ipc) : BusRequest → Prop
  | .call path msg =>
    ∃ c ∈ s.icManager.ics, path = icPath (s.icManager.ctx c).id ∧ ∃ text cursor anchor,
      msg.method = some (.setSurroundingText (some (text, cursor, anchor))) ∧
        IcOp.Misreports s.icManager (.setSurroundingText c text cursor anchor)
  | .introspect | .createIC _ | .nameOwnerChanged .. => False

theorem destroys_quiet (cs : List ContextPtr) (m : IcSystem InstanceProperty) :
    Run.Admissible IcSystem.step (fun m op => ¬ op.Misreports m) m (cs.map fun c => .destroy c) := by
  induction cs generalizing m with
  | nil => exact trivial
  | cons c cs ih => exact ⟨id, ih _⟩

namespace BusServed

variable {s s' : Ipc} {b : BusModel} {request : BusRequest}

/-- The calls of a request misreport nothing unless the request does. -/
theorem calls_quiet (h : BusServed s b) (hquiet : ¬ request.Misreports s) :
    Run.Admissible IcSystem.step (fun m op => ¬ op.Misreports m) s.icManager (b.calls request) := by
  cases request with
  | introspect => exact trivial
  | createIC create =>
    rw [BusModel.calls]
    split
    · exact trivial
    · exact ⟨id, id, id, id, trivial⟩
  | call path msg =>
    rw [BusModel.calls]
    split
    · next o method hfind hmethod =>
      obtain ⟨ho, hpath⟩ := BusModel.find_some hfind
      cases method with
      | setSurroundingText text =>
        cases text with
        | none => exact trivial
        | some text =>
          refine ⟨fun hmis => hquiet ⟨o.ic, h.mem_ics ho, ?_, _, _, _, hmethod, hmis⟩, trivial⟩
          rw [← hpath, h.path o ho]
      | setCursorRect rect => cases rect <;> first | exact trivial | exact ⟨id, trivial⟩
      | setCapability flag => cases flag <;> first | exact trivial | exact ⟨id, trivial⟩
      | introspect | processKeyEvent overruns => exact trivial
      | _ => exact ⟨id, trivial⟩
    · exact trivial
  | nameOwnerChanged serviceName oldName newName =>
    rw [BusModel.calls]
    split
    · exact destroys_quiet _ s.icManager
    · exact trivial

/-- A request that misreports is one call of the manager that does. -/
theorem not_follows (h : BusServed s b) (hcb : s.icManager.callback = true) (hmis : request.Misreports s)
    (hcalled : s.Called s' (b.calls request)) (hs : s.icManager.Follows) : ¬ s'.icManager.Follows := by
  cases request with
  | introspect => exact hmis.elim
  | createIC create => exact hmis.elim
  | nameOwnerChanged serviceName oldName newName => exact hmis.elim
  | call path msg =>
    obtain ⟨c, hc, rfl, text, cursor, anchor, hmethod, hreport⟩ := hmis
    have hmem := hc
    rw [h.ics_eq] at hmem
    obtain ⟨o, ho, rfl⟩ := List.mem_map.mp hmem
    have hcalls : b.calls (.call (icPath (s.icManager.ctx o.ic).id) msg) =
        [.setSurroundingText o.ic text cursor anchor] := by
      rw [← h.path o ho, BusModel.calls]
      cases hfind : b.find o.path with
      | none => exact absurd (decide_eq_true rfl) (List.find?_eq_none.mp hfind o ho)
      | some o' =>
        obtain ⟨ho', hpath⟩ := BusModel.find_some hfind
        have hic : o'.ic = o.ic := (h.path_inj ho' ho).mp hpath
        rw [hmethod, ← hic]
        rfl
    rw [hcalled.icManager, hcalls]
    have hok : IcOp.Ok s.icManager (.setSurroundingText o.ic text cursor anchor) := hc
    exact not_follows_step hcb hok hreport hs

end BusServed

namespace IpcBus

variable {bus : IpcBus} {s : Ipc} {b : BusModel} {request : BusRequest}
  {Φ : IcSystem InstanceProperty → Prop}

theorem step_spec (hs : bus.ipc = some s) (h : BusServed s b) (hok : request.Ok s ∧ ¬ request.Overruns s) :
    ∃ s', bus.step request = ⟨some s', bus.replies ++ [b.reply request]⟩ ∧
      BusServed s' (b.step request) ∧ s.Called s' (b.calls request) := by
  obtain ⟨s', heq, hserved, hcalled⟩ := h.request hok.1 hok.2
  refine ⟨s', ?_, hserved, hcalled⟩
  unfold IpcBus.step
  rw [hs]
  dsimp only
  rw [heq]

/-- **The frontend follows the model** along a run. -/
theorem exec_spec (requests : List BusRequest) (hbus : bus = ⟨some s, b.replies⟩) (h : BusServed s b)
    (ha : Run.Admissible step Ok bus requests) :
    ∃ s', Run.exec step bus requests = ⟨some s', (Run.exec (BusModel.step) b requests).replies⟩ ∧
      BusServed s' (Run.exec (BusModel.step) b requests) := by
  induction requests generalizing bus s b with
  | nil => exact ⟨s, hbus, h⟩
  | cons request requests ih =>
    subst hbus
    obtain ⟨hok, hrest⟩ := ha
    obtain ⟨s', hstep, hserved, -⟩ := step_spec (rfl : IpcBus.ipc ⟨some s, b.replies⟩ = some s) h (hok s rfl)
    rw [hstep] at hrest
    rw [Run.exec_cons, hstep]
    exact ih rfl hserved hrest

/-- **Objects of the bus.** Along every run of requests the frontend sends back what the model does and has its
manager: every object that a client was told of leads to its own context, by a path of its own, until it is destroyed
or its client is gone, and no other path leads anywhere. -/
theorem run_objects (addonManager : AddonManager) (triggerKey : List Key)
    (frontendId : UInt32) (requests : List BusRequest)
    (h : Run.Admissible step Ok (start addonManager triggerKey frontendId) requests) :
    let b := Run.exec (BusModel.step) (BusModel.start addonManager triggerKey frontendId) requests
    ∃ s, Run.exec step (start addonManager triggerKey frontendId) requests = ⟨some s, b.replies⟩ ∧
      s.icManager = b.manager ∧ s.icManager.ics = b.objects.map BusObject.ic ∧
      s.objectPaths.map icPath = b.objects.map BusObject.path ∧ (b.objects.map BusObject.path).Nodup := by
  intro b
  obtain ⟨s, hexec, hserved⟩ := exec_spec requests rfl (BusServed.start addonManager triggerKey frontendId) h
  exact ⟨s, hexec, hserved.manager.symm, hserved.ics_eq, hserved.paths_eq, hserved.paths_nodup⟩

/-- Two clients: calls on the contexts of both, on a path that nobody has, and on one that is gone. -/
def sampleRequests : List BusRequest :=
  let create (sender : Bytes) (watchId : ℤ) : BusRequest := .createIC ⟨some sender, some [], 0, true, watchId⟩
  let call (id : UInt32) (member : String) (args : List DBusArg) : BusRequest :=
    .call (icPath id) ⟨none, member.toUTF8.toList, args⟩
  [create [97] 1, create [98] 2, call 1 "FocusIn" [], call 2 "ProcessKeyEvent" [.uint32 97], call 3 "Reset" [],
    call 1 "DestroyIC" [], call 1 "FocusOut" [], .nameOwnerChanged [98] [98] []]

theorem sampleRequests_ok :
    Run.Admissible step Ok (start (AddonManager.new []) [] 1) sampleRequests := by
  decide +kernel

theorem run_objects_sample :
    let b := Run.exec BusModel.step (BusModel.start (AddonManager.new []) [] 1) sampleRequests
    ∃ s, Run.exec step (start (AddonManager.new []) [] 1) sampleRequests = ⟨some s, b.replies⟩ ∧
      s.icManager = b.manager ∧ s.icManager.ics = b.objects.map BusObject.ic ∧
      s.objectPaths.map icPath = b.objects.map BusObject.path ∧ (b.objects.map BusObject.path).Nodup :=
  run_objects (AddonManager.new []) [] 1 sampleRequests sampleRequests_ok

/-! ### The laws of the manager on the bus -/

/-- The frontend is in step with a model, and its manager keeps the invariant. -/
def Lawful (Φ : IcSystem InstanceProperty → Prop) (bus : IpcBus) : Prop :=
  ∃ s ∈ bus.ipc, (∃ b, BusServed s b) ∧ ∃ gs L, IcInv Φ s.icManager gs L

theorem Lawful.start (hΦ : TraceProperty Φ) (h0 : Φ IcSystem.initial) (addonManager : AddonManager)
    (triggerKey : List Key) (frontendId : UInt32) : Lawful Φ (start addonManager triggerKey frontendId) := by
  have hrest : (Instance.new addonManager triggerKey).registerProperties.icManager.withoutProperties =
      (IcSystem.initial : IcSystem InstanceProperty).withoutProperties := rfl
  exact ⟨_, rfl, ⟨_, BusServed.start addonManager triggerKey frontendId⟩, _, _, (IcInv.initial h0).rest hΦ hrest⟩

theorem Lawful.step (hΦ : TraceProperty Φ)
    (cond : IcSystem InstanceProperty → IcOp InstanceProperty → Prop)
    (hsur : ∀ (m : IcSystem InstanceProperty) gs L c str cursor anchor, IcInv Φ m gs L → c ∈ m.ics →
      cond m (.setSurroundingText c str cursor anchor) → Φ (m.setSurroundingText c str cursor anchor))
    (hcond : ∀ s b, s ∈ bus.ipc → BusServed s b → Run.Admissible IcSystem.step cond s.icManager (b.calls request))
    (h : Lawful Φ bus) (hok : bus.Ok request) : Lawful Φ (bus.step request) := by
  obtain ⟨s, hs, ⟨b, hserved⟩, hinv⟩ := h
  obtain ⟨s', hstep, hserved', hcalled⟩ := step_spec hs hserved (hok s hs)
  refine ⟨s', congrArg IpcBus.ipc hstep, ⟨_, hserved'⟩, ?_⟩
  rw [hcalled.icManager]
  exact IcInv.calls hΦ cond hsur hinv (hcalled.ok.and (hcond s b hs hserved))

/-- **The laws of the manager hold on the bus**, in every interleaving of the clients: the two records of the focus
agree and nobody is called while two contexts that exclude each other are focused. The events of every context are
lives of it all along a run exactly if no surrounding text is sent that is reported as a focus. -/
theorem run_laws (addonManager : AddonManager) (triggerKey : List Key)
    (frontendId : UInt32) (requests : List BusRequest)
    (h : Run.Admissible step Ok (start addonManager triggerKey frontendId) requests) :
    (∃ s ∈ (Run.exec step (start addonManager triggerKey frontendId) requests).ipc,
      FocusLaws s.icManager.toInputContextManager ∧ ∀ e ∈ s.icManager.trace, e.manager.Exclusive) ∧
    ((∀ before after, requests = before ++ after →
        ∃ s ∈ (Run.exec step (start addonManager triggerKey frontendId) before).ipc, s.icManager.TraceLaw) ↔
      Run.Admissible step (fun bus request => ∀ s ∈ bus.ipc, ¬ request.Misreports s)
        (start addonManager triggerKey frontendId) requests) := by
  constructor
  · have hstart : Lawful CalledExclusive (start addonManager triggerKey frontendId) :=
      .start calledExclusive_traceProperty (fun e he => by cases he) addonManager triggerKey frontendId
    have hlawful := Run.invariant (P := Lawful CalledExclusive) (fun bus request hbus hok =>
      Lawful.step calledExclusive_traceProperty (fun _ _ => True)
        (fun m gs L c str cursor anchor hinv _ _ =>
          hinv.trace.setSurroundingText hinv.focus.exclusive_focused c str cursor anchor)
        (fun s b _ _ => Run.admissible_iff.mpr fun _ _ _ _ => trivial) hbus hok) hstart h
    obtain ⟨s, hs, -, gs, L, hinv⟩ := hlawful
    exact ⟨s, hs, hinv.focusLaws, hinv.trace⟩
  · refine Run.always_iff (I := Lawful IcSystem.Follows) (P := fun bus => ∃ s ∈ bus.ipc, s.icManager.TraceLaw) ?_ ?_ ?_
      (.start follows_traceProperty (fun _ => rfl) addonManager triggerKey frontendId) h
    · rintro bus ⟨s, hs, -, gs, L, hinv⟩
      exact ⟨s, hs, (traceLaw_iff _).mpr hinv.trace⟩
    · intro bus request hbus hok hquiet
      refine Lawful.step follows_traceProperty (fun m op => ¬ op.Misreports m) ?_ ?_ hbus hok
      · intro m gs L c str cursor anchor hinv _ hcond
        rw [setSurroundingText_quiet hcond]
        exact hinv.trace
      · exact fun s b hs hserved => hserved.calls_quiet (hquiet s hs)
    · rintro bus request ⟨s, hs, ⟨b, hserved⟩, gs, L, hinv⟩ hok ⟨s', hs', hlaw⟩ t ht hmis
      obtain rfl : s = t := Option.some.inj (hs.symm.trans ht)
      obtain ⟨u, hstep, -, hcalled⟩ := step_spec hs hserved (hok s hs)
      rw [hstep] at hs'
      obtain rfl : u = s' := Option.some.inj hs'
      exact hserved.not_follows hinv.callback hmis hcalled hinv.trace ((traceLaw_iff _).mp hlaw)

theorem run_laws_sample :
    (∃ s ∈ (Run.exec step (start (AddonManager.new []) [] 1) sampleRequests).ipc,
      FocusLaws s.icManager.toInputContextManager ∧ ∀ e ∈ s.icManager.trace, e.manager.Exclusive) ∧
    ((∀ before after, sampleRequests = before ++ after →
        ∃ s ∈ (Run.exec step (start (AddonManager.new []) [] 1) before).ipc, s.icManager.TraceLaw) ↔
      Run.Admissible step (fun bus request => ∀ s ∈ bus.ipc, ¬ request.Misreports s)
        (start (AddonManager.new []) [] 1) sampleRequests) :=
  run_laws (AddonManager.new []) [] 1 sampleRequests sampleRequests_ok

end IpcBus
end Fcitx
