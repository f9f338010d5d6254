/-
# A context without an object path

`fcitx_ipc_new_input_context` destroys the context it just made when the object
path cannot be registered. The manager tells the frontend, as it does of every
context; but the client of a context is written behind the registration, so
that `fcitx_ipc_destroy_input_context` finds no name of a client and no entry,
and looks up NULL. The function never comes back, whatever happened before, also where the
calls on the paths of the contexts are part of the run.

Key definitions: `Ipc.NoTrace`, `Ipc.FailsCleanly`, `IpcHistory.Promised`, `IpcBus.Promised`.
Key theorems: `Ipc.Served.newInputContext_unregistered`, `IpcHistory.run_served`,
`IpcHistory.not_failsCleanly`, `IpcBus.run_unregistered`.
-/
import Fcitx.Ipc.ObjectBus

namespace Fcitx

open InputContextManager IcSystem

/-! ### The new context -/

theorem new_value {V : Type} {s : IcSystem V} {c : ContextPtr} {uuid : Uuid} {frontend : UInt32} {notify : Bool}
    (hnew : (s.new uuid frontend notify).1 = some c) (i : ℕ) : (s.new uuid frontend notify).2.value c i = none := by
  unfold IcSystem.new at hnew ⊢
  split at hnew
  · obtain rfl := Option.some.inj hnew
    simp [emit_manager, enroll, InputContextManager.value, InputContextManager.property]
  · dsimp only at hnew ⊢
    split at hnew
    · cases hnew
    · next hid =>
      rw [if_neg hid]
      obtain rfl := Option.some.inj hnew
      simp [emit_manager, enroll, InputContextManager.value, InputContextManager.property]

namespace Ipc

variable {s : Ipc} {owners : List (ContextPtr × Bytes)} {sender : Bytes} {create : CreateIC}

/-- `s'` has the contexts, the entries of the clients and the watches of `s`. -/
structure NoTrace (s s' : Ipc) : Prop where
  ics : s'.icManager.ics = s.icManager.ics
  senderToIC : s'.senderToIC = s.senderToIC
  senders : s'.senders = s.senders
  watches : s'.watches = s.watches

/-- The function returns NULL, and nothing is left of the context. -/
def FailsCleanly (s : Ipc) (create : CreateIC) : Prop :=
  ∃ s', s.newInputContext create = some (none, s') ∧ NoTrace s s'

theorem destroyInputContext_none {m : InputContextManager InstanceProperty} {c : ContextPtr}
    (h : m.getProperty c s.frontendDataId = none) : s.destroyInputContext m c = none := by
  unfold Ipc.destroyInputContext
  dsimp only
  rw [h]

/-- **Without an object path** the frontend is told of a context that it does not know. -/
theorem Served.newInputContext_unregistered (h : Served s owners) (hsender : create.sender = some sender)
    (hregistered : create.registered = false) : s.newInputContext create = none := by
  obtain ⟨gs, L, hinv⟩ := h.manager
  unfold Ipc.newInputContext
  rw [hsender]
  dsimp only
  cases hmade : s.icManager.new create.uuid s.frontendId true with
  | mk ic made =>
    cases ic with
    | none => rfl
    | some c =>
      have hnew : (s.icManager.new create.uuid s.frontendId true).1 = some c := by rw [hmade]
      have hframe := hinv.new_frame hnew
      have hvalue := new_value hnew s.frontendDataId.toNat
      have hinv' := hinv.new anything_traceProperty create.uuid s.frontendId true
      rw [hmade] at hframe hvalue hinv'
      dsimp only at hframe hvalue hinv' ⊢
      rw [hregistered, if_neg (by decide), Option.map_eq_none_iff]
      have hmem : c ∈ made.ics := by
        rw [hframe.ics]
        exact List.mem_append_right _ List.mem_cons_self
      have hnotify : (made.ctx c).destroyNotify = true := by rw [hframe.destroyNotify, if_pos rfl]
      obtain ⟨m, hnotice⟩ := hinv'.destroy_notice hmem hnotify
      obtain ⟨emitted, htrace, hevents⟩ := hnotice.trace
      -- nothing but events happened since the context was made
      have hproperty : m.getProperty c s.frontendDataId = none := by
        rw [h.dataSlot.getProperty_eq (hnotice.shared.propertySlots.trans hframe.others.slots),
          InputContextManager.value, hnotice.shared.property]
        exact hvalue
      unfold Ipc.destroyContext
      dsimp only
      rw [htrace, List.append_assoc, List.drop_left, List.foldlM_append, Served.foldlM_called hevents]
      show ([(⟨.destroyNotify c, m⟩ : Emitted InstanceProperty)].foldlM Ipc.called _) = none
      set t : Ipc := { s with icManager := made.destroy c } with ht
      have hnone : t.destroyInputContext m c = none := destroyInputContext_none hproperty
      rw [List.foldlM_cons, Ipc.called]
      dsimp only
      rw [hnone]
      rfl

end Ipc

/-! ### Runs in which the path may fail -/

def IpcMessage.Promised (s : Ipc) : IpcMessage → Prop
  | .createIC create =>
    (s.icManager.new create.uuid s.frontendId true).1.isSome = true ∧ create.watchId ∉ s.watches.map Prod.fst
  | .destroyIC _ | .nameOwnerChanged .. => True

instance ipcMessagePromisedDecidable (s : Ipc) : ∀ message : IpcMessage, Decidable (message.Promised s)
  | .createIC create =>
    inferInstanceAs (Decidable ((s.icManager.new create.uuid s.frontendId true).1.isSome = true ∧
      create.watchId ∉ s.watches.map Prod.fst))
  | .destroyIC _ | .nameOwnerChanged .. => .isTrue trivial

namespace IpcHistory

open Ipc

/-- The environment keeps its promises, and any object path may fail. -/
def Promised (h : IpcHistory) (message : IpcMessage) : Prop := ∀ s ∈ h.ipc, message.Promised s

instance promisedDecidable (h : IpcHistory) (message : IpcMessage) : Decidable (h.Promised message) :=
  inferInstanceAs (Decidable (∀ s ∈ h.ipc, message.Promised s))

theorem served_step {s : Ipc} {owners : List (ContextPtr × Bytes)} (h : Served s owners) {message : IpcMessage}
    (hpromised : message.Promised s) {s' : Ipc} (hs' : s.handle message = some s') :
    Served s' (record s owners message) := by
  by_cases hok : message.Ok s
  · obtain ⟨s'', heq, hserved⟩ := h.handle hok
    obtain rfl : s'' = s' := Option.some.inj (heq.symm.trans hs')
    exact hserved
  · cases message with
    | destroyIC id => exact absurd trivial hok
    | nameOwnerChanged serviceName oldName newName => exact absurd trivial hok
    | createIC create =>
      -- the path fails: without a client nothing is made, and with one the call does not come back
      have hregistered : create.registered = false := by
        by_contra htrue
        exact hok ⟨Bool.not_eq_false _ ▸ htrue, hpromised⟩
      simp only [Ipc.handle, Ipc.createIC, record] at hs' ⊢
      cases hargument : create.argument with
      | none =>
        rw [hargument] at hs'
        obtain rfl := Option.some.inj hs'
        exact h
      | some entries =>
        rw [hargument] at hs'
        cases hsender : create.sender with
        | none =>
          rw [Ipc.newInputContext, hsender] at hs'
          obtain rfl := Option.some.inj hs'
          exact h
        | some sender =>
          rw [h.newInputContext_unregistered hsender hregistered] at hs'
          cases hs'

theorem run_served (addonManager : AddonManager) (triggerKey : List Key) (frontendId : UInt32)
    {messages : List IpcMessage}
    (h : Run.Admissible step Promised (start addonManager triggerKey frontendId) messages) :
    ∀ s ∈ (Run.exec step (start addonManager triggerKey frontendId) messages).ipc,
      Served s (Run.exec step (start addonManager triggerKey frontendId) messages).owners := by
  refine Run.invariant (P := fun t : IpcHistory => ∀ s ∈ t.ipc, Served s t.owners) ?_ ?_ h
  · intro t message hserved hpromised s' hs'
    unfold step at hs' ⊢
    cases hipc : t.ipc with
    | none =>
      rw [hipc] at hs'
      dsimp only at hs'
      rw [hipc] at hs'
      cases hs'
    | some s =>
      rw [hipc] at hs'
      exact served_step (hserved s hipc) (hpromised s hipc) hs'
  · intro s hs
    obtain rfl := Option.some.inj hs
    exact Served.start addonManager triggerKey frontendId

/-- **A context whose path fails** is never taken back cleanly. -/
theorem not_failsCleanly (addonManager : AddonManager) (triggerKey : List Key) (frontendId : UInt32)
    (messages : List IpcMessage)
    (h : Run.Admissible step Promised (start addonManager triggerKey frontendId) messages) (s : Ipc)
    (owners : List (ContextPtr × Bytes))
    (hend : Run.exec step (start addonManager triggerKey frontendId) messages = ⟨some s, owners⟩)
    (create : CreateIC) (sender : Bytes) (hsender : create.sender = some sender)
    (hregistered : create.registered = false) : ¬ s.FailsCleanly create := by
  have hserved := run_served addonManager triggerKey frontendId h
  rw [hend] at hserved
  have hfault := (hserved s rfl).newInputContext_unregistered hsender hregistered
  intro hcleanly
  obtain ⟨s', hs', -⟩ := hcleanly
  rw [hfault] at hs'
  cases hs'

/-- The first call of all does not come back. -/
theorem not_failsCleanly_start :
    let s : Ipc := .init (Instance.new (AddonManager.new []) []).registerProperties 1
    let create : CreateIC := ⟨some [97], some [], 0, false, 1⟩
    (s.icManager.new create.uuid s.frontendId true).1.isSome = true ∧ s.newInputContext create = none ∧
      ¬ s.FailsCleanly create := by
  intro s create
  have hfault : s.newInputContext create = none :=
    (Served.start (AddonManager.new []) [] 1).newInputContext_unregistered rfl rfl
  refine ⟨rfl, hfault, fun hcleanly => ?_⟩
  obtain ⟨s', hs', -⟩ := hcleanly
  rw [hfault] at hs'
  cases hs'

theorem not_failsCleanly_second :
    let first : CreateIC := ⟨some [97], some [], 0, true, 1⟩
    let second : CreateIC := ⟨some [97], some [], 0, false, 2⟩
    ∃ s owners, Run.exec step (start (AddonManager.new []) [] 1) [.createIC first] = ⟨some s, owners⟩ ∧
      ¬ s.FailsCleanly second := by
  intro first second
  set s₀ : Ipc := .init (Instance.new (AddonManager.new []) []).registerProperties 1 with hs₀
  have hok : (IpcMessage.createIC first).Ok s₀ := ⟨rfl, rfl, List.not_mem_nil⟩
  obtain ⟨s, hs, -⟩ := (Served.start (AddonManager.new []) [] 1).handle hok
  have hend : Run.exec step (start (AddonManager.new []) [] 1) [.createIC first] = ⟨some s, _⟩ :=
    congrArg (IpcHistory.mk · _) hs
  have hrun : Run.Admissible step Promised (start (AddonManager.new []) [] 1) [.createIC first] := by
    refine ⟨fun s hs => ?_, trivial⟩
    obtain rfl := Option.some.inj hs
    exact ⟨rfl, List.not_mem_nil⟩
  exact ⟨s, _, hend, not_failsCleanly (AddonManager.new []) [] 1 _ hrun s _ hend second [97] rfl rfl⟩

end IpcHistory

/-! ### Runs with calls on the contexts -/

def BusRequest.Promised (s : Ipc) : BusRequest → Prop
  | .createIC create => (IpcMessage.createIC create).Promised s
  | .call path _ => path ≠ inputMethodPath
  | .introspect | .nameOwnerChanged .. => True

namespace IpcBus

/-- As `IpcBus.Ok`, but any object path may fail, and key events may come. -/
def Promised (bus : IpcBus) (request : BusRequest) : Prop := ∀ s ∈ bus.ipc, request.Promised s

theorem busServed_step {s s' : Ipc} {b : BusModel} (h : BusServed s b) {request : BusRequest}
    (hpromised : request.Promised s) {reply : Option IpcReply} (hs' : s.request request = some (reply, s')) :
    ∃ b', BusServed s' b' := by
  by_cases hok : request.Ok s
  · have hkeys : ¬ request.Overruns s := fun hover =>
      Option.some_ne_none _ (hs'.symm.trans ((h.request_eq_none_iff hok).mpr hover))
    obtain ⟨s'', heq, hserved, -⟩ := h.request hok hkeys
    obtain rfl : s'' = s' := congrArg Prod.snd (Option.some.inj (heq.symm.trans hs'))
    exact ⟨_, hserved⟩
  · cases request with
    | introspect => exact absurd trivial hok
    | nameOwnerChanged serviceName oldName newName => exact absurd trivial hok
    | call path msg => exact absurd hpromised hok
    | createIC create =>
      have hregistered : create.registered = false := by
        by_contra htrue
        exact hok ⟨Bool.not_eq_false _ ▸ htrue, hpromised⟩
      rw [Ipc.request, Ipc.inputmethodHandler] at hs'
      cases hargument : create.argument with
      | none =>
        rw [hargument] at hs'
        obtain rfl := congrArg Prod.snd (Option.some.inj hs')
        exact ⟨b, h⟩
      | some entries =>
        rw [hargument] at hs'
        dsimp only at hs'
        cases hsender : create.sender with
        | none =>
          rw [Ipc.newInputContext, hsender] at hs'
          obtain rfl := congrArg Prod.snd (Option.some.inj hs')
          exact ⟨b, h⟩
        | some sender =>
          rw [h.served.newInputContext_unregistered hsender hregistered] at hs'
          cases hs'

theorem run_busServed (addonManager : AddonManager) (triggerKey : List Key) (frontendId : UInt32)
    {requests : List BusRequest}
    (h : Run.Admissible step Promised (start addonManager triggerKey frontendId) requests) :
    ∀ s ∈ (Run.exec step (start addonManager triggerKey frontendId) requests).ipc, ∃ b, BusServed s b := by
  refine Run.invariant (P := fun bus : IpcBus => ∀ s ∈ bus.ipc, ∃ b, BusServed s b) ?_ ?_ h
  · intro bus request hserved hpromised s' hs'
    obtain ⟨s, hs, reply, hrequest⟩ := mem_step hs'
    obtain ⟨b, hb⟩ := hserved s hs
    exact busServed_step hb (hpromised s hs) hrequest
  · intro s hs
    obtain rfl := Option.some.inj hs
    exact ⟨_, BusServed.start addonManager triggerKey frontendId⟩

/-- **A context whose path fails** does not come back either where the contexts were called before. -/
theorem run_unregistered (addonManager : AddonManager) (triggerKey : List Key) (frontendId : UInt32)
    {requests : List BusRequest} (h : Run.Admissible step Promised (start addonManager triggerKey frontendId) requests)
    {s : Ipc} (hs : s ∈ (Run.exec step (start addonManager triggerKey frontendId) requests).ipc) {create : CreateIC}
    {sender : Bytes} (hsender : create.sender = some sender) (hregistered : create.registered = false) :
    s.newInputContext create = none ∧ ¬ s.FailsCleanly create := by
  obtain ⟨b, hb⟩ := run_busServed addonManager triggerKey frontendId h s hs
  have hfault := hb.served.newInputContext_unregistered hsender hregistered
  refine ⟨hfault, fun hcleanly => ?_⟩
  obtain ⟨s', hs', -⟩ := hcleanly
  exact Option.some_ne_none _ (hs'.symm.trans hfault)

end IpcBus
end Fcitx
