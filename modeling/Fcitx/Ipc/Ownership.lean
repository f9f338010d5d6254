/-
# Who owns a context

A client owns the contexts that were made for it and not destroyed since. All
along a run the table of the clients says exactly this: a client has an entry
and one watch on its name while it owns a context, the entry has its contexts,
and a client that leaves the bus takes its contexts along. The loop that
destroys them holds the entry while the notification edits it: with the last
context the entry is freed, and the loop ends without reading it again.

Key definitions: `IpcHistory`, `IpcHistory.step`, `Ipc.Ownership`, `Ipc.Served`.
Key theorems: `Ipc.Served.destroyContext`, `Ipc.Served.destroyAll`, `Ipc.Served.handle`,
`IpcHistory.run_ownership`.
-/
import Fcitx.InputContext.DestroyNotice
import Fcitx.InputContext.SharedRun
import Fcitx.Ipc.SenderTable

namespace Fcitx

open InputContextManager IcSystem

/-! ### What the frontend does to the manager -/

section manager

variable {V : Type} {s s' s'' : IcSystem V} {i : ℕ} {c : ContextPtr}

/-- `s'` has the contexts of `s`, with their values for slot `i`. -/
structure KeepsValues (i : ℕ) (s s' : IcSystem V) : Prop where
  ics : s'.ics = s.ics
  id : ∀ c, (s'.ctx c).id = (s.ctx c).id
  destroyNotify : ∀ c, (s'.ctx c).destroyNotify = (s.ctx c).destroyNotify
  property : ∀ c, s'.property c i = s.property c i
  slots : s'.propertySlots = s.propertySlots

theorem KeepsValues.trans (h : KeepsValues i s s') (h' : KeepsValues i s' s'') : KeepsValues i s s'' where
  ics := h'.ics.trans h.ics
  id c := (h'.id c).trans (h.id c)
  destroyNotify c := (h'.destroyNotify c).trans (h.destroyNotify c)
  property c := (h'.property c).trans (h.property c)
  slots := h'.slots.trans h.slots

theorem setProperty_keepsValues (s : IcSystem V) (c : ContextPtr) {propertyId : ℤ} (data : Option V)
    (hid : i ≠ propertyId.toNat) (hcopy : s.copyFn i = none) :
    KeepsValues i s (s.setProperty c propertyId data) := by
  have hrest := setProperty_rest s c propertyId data
  refine ⟨rest_ics hrest, fun d => ?_, fun d => ?_, fun d => ?_, setProperty_slots s c propertyId data⟩
  · rw [rest_ctx hrest]
  · rw [rest_ctx hrest]
  · refine setProperty_property_of_ne (x := (d, i)) s c propertyId data ?_ hcopy
    exact fun heq => hid (Prod.mk.inj heq).2

theorem setFocusGroup_keepsValues (s : IcSystem V) (c : ContextPtr) (type : FocusGroupType)
    (group : Option GroupPtr) : KeepsValues i s (s.setFocusGroup c type group) := by
  have hevents := EventsOnly.setFocusGroup s c type group
  have hsame : SameShared s.toInputContextManager (s.setFocusGroup c type group).toInputContextManager ∧
      SameNames s.toInputContextManager (s.setFocusGroup c type group).toInputContextManager := by
    unfold IcSystem.setFocusGroup
    split
    · exact ⟨.refl _, .refl _⟩
    · exact ⟨_setFocusGroup_sameShared s c _, _setFocusGroup_sameNames s c _⟩
  obtain ⟨hshared, hnames⟩ := hsame
  refine ⟨hnames.ics, hnames.id, hevents.destroyNotify, fun d => ?_, hshared.propertySlots⟩
  rw [hshared.property]

end manager

namespace Ipc

variable {s s' : Ipc} {owners : List (ContextPtr × Bytes)} {sender : Bytes} {c : ContextPtr} {ptr : SenderPtr}

/-! ### The invariant -/

/-- The slot of the clients' names is written as it is and never copied. -/
structure DataSlot (s : Ipc) : Prop where
  nonneg : 0 ≤ s.frontendDataId
  slot : ∃ policy, s.icManager.propertySlots[s.frontendDataId.toNat]? = some ⟨none, none, policy⟩
  other : s.frontendDataId.toNat ≠ s.appNameId.toNat

namespace DataSlot

theorem copyFn (h : DataSlot s) : s.icManager.copyFn s.frontendDataId.toNat = none := by
  obtain ⟨policy, hslot⟩ := h.slot
  rw [InputContextManager.copyFn, hslot]
  rfl

/-- The property is the value of the slot. -/
theorem getProperty_eq (h : DataSlot s) {m : InputContextManager InstanceProperty}
    (hslots : m.propertySlots = s.icManager.propertySlots) (c : ContextPtr) :
    m.getProperty c s.frontendDataId = m.value c s.frontendDataId.toNat := by
  obtain ⟨policy, hslot⟩ := h.slot
  have hlt := (List.getElem?_eq_some_iff.mp hslot).1
  have hnonneg := h.nonneg
  unfold getProperty
  rw [hslots, if_neg (by omega)]

end DataSlot

/-- **The frontend and its manager**, when the contexts and their clients are `owners`. -/
structure Served (s : Ipc) (owners : List (ContextPtr × Bytes)) : Prop where
  manager : ∃ gs L, IcInv (fun _ => True) s.icManager gs L
  dataSlot : DataSlot s
  live : s.icManager.ics = owners.map Prod.fst
  client : ∀ o ∈ owners, s.icManager.value o.1 s.frontendDataId.toNat = some (.frontendData o.2)
  notify : ∀ c ∈ s.icManager.ics, (s.icManager.ctx c).destroyNotify = true
  paths : s.objectPaths = s.icManager.ics.map fun c => (s.icManager.ctx c).id
  table : SenderTable s owners

namespace Served

theorem registry (h : Served s owners) : Registry s.icManager.toInputContextManager := by
  obtain ⟨gs, L, hinv⟩ := h.manager
  exact hinv.registry

theorem nodup (h : Served s owners) : (owners.map Prod.fst).Nodup := by
  rw [← h.live]
  exact h.registry.ics_nodup

theorem mem_ics (h : Served s owners) (hc : (c, sender) ∈ owners) : c ∈ s.icManager.ics := by
  rw [h.live]
  exact List.mem_map.mpr ⟨_, hc, rfl⟩

/-! ### Destroying a context -/

/-- The calls of the manager that are events are nothing to the frontend. -/
theorem foldlM_called {emitted : List (Emitted InstanceProperty)}
    (hevents : ∀ e ∈ emitted, ∃ event, e.call = .event event) (s : Ipc) :
    emitted.foldlM Ipc.called s = some s := by
  induction emitted with
  | nil => rfl
  | cons e emitted ih =>
    obtain ⟨event, hevent⟩ := hevents e List.mem_cons_self
    rw [List.foldlM_cons, Ipc.called, hevent]
    exact ih fun e he => hevents e (List.mem_cons_of_mem _ he)

/-- The notification finds the manager as the frontend knows it. -/
theorem destroyContext_eq (h : Served s owners) (hc : (c, sender) ∈ owners) :
    ∃ m, m.getProperty c s.frontendDataId = some (.frontendData sender) ∧
      (m.ctx c).id = (s.icManager.ctx c).id ∧
      s.destroyContext c = ({ s with icManager := s.icManager.destroy c } : Ipc).destroyInputContext m c := by
  obtain ⟨gs, L, hinv⟩ := h.manager
  have hmem := h.mem_ics hc
  obtain ⟨m, hnotice⟩ := hinv.destroy_notice hmem (h.notify c hmem)
  obtain ⟨emitted, htrace, hevents⟩ := hnotice.trace
  refine ⟨m, ?_, hnotice.id c, ?_⟩
  · rw [h.dataSlot.getProperty_eq hnotice.shared.propertySlots, InputContextManager.value,
      hnotice.shared.property]
    exact h.client _ hc
  · unfold Ipc.destroyContext
    dsimp only
    rw [htrace, List.append_assoc, List.drop_left, List.foldlM_append, foldlM_called hevents]
    show ([(⟨.destroyNotify c, m⟩ : Emitted InstanceProperty)].foldlM Ipc.called _) = _
    rw [List.foldlM_cons]
    simp only [List.foldlM_nil, bind_pure]
    rfl

/-- Forgetting a client is no matter of the manager. -/
theorem forgetSender_frame (s : Ipc) (sender : Bytes) (ptr : SenderPtr) (senderData : IpcSender) :
    (s.forgetSender sender ptr senderData).icManager = s.icManager ∧
      (s.forgetSender sender ptr senderData).objectPaths = s.objectPaths ∧
      (s.forgetSender sender ptr senderData).frontendDataId = s.frontendDataId ∧
      (s.forgetSender sender ptr senderData).appNameId = s.appNameId ∧
      (s.forgetSender sender ptr senderData).senderToIC =
        if senderData.ics = [] then Assoc.erase s.senderToIC sender else s.senderToIC := by
  unfold forgetSender
  split <;> exact ⟨rfl, rfl, rfl, rfl, rfl⟩

/-- The paths that are left are those of the contexts that are left. -/
theorem paths_erase (h : Served s owners) (hc : c ∈ s.icManager.ics) {t : InputContextManager InstanceProperty}
    (hics : t.ics = s.icManager.ics.erase c) (hid : ∀ d, (t.ctx d).id = (s.icManager.ctx d).id) :
    s.objectPaths.erase (s.icManager.ctx c).id = t.ics.map fun d => (t.ctx d).id := by
  have hreg := h.registry
  have hinj : ∀ d ∈ s.icManager.ics, (s.icManager.ctx d).id = (s.icManager.ctx c).id → d = c := fun d hd =>
    hreg.id_inj d (List.mem_append_left _ hd) c (List.mem_append_left _ hc)
  have hnd : (s.icManager.ics.map fun d => (s.icManager.ctx d).id).Nodup := by
    refine List.Nodup.map_on (fun d hd e he => ?_) hreg.ics_nodup
    exact hreg.id_inj d (List.mem_append_left _ hd) e (List.mem_append_left _ he)
  rw [h.paths, erase_eq_filter_ne hnd, List.filter_map, hics, erase_eq_filter_ne hreg.ics_nodup]
  simp only [hid]
  refine congrArg (List.map _) (List.filter_congr fun d hd => ?_)
  refine decide_eq_decide.mpr (not_congr ⟨hinj d hd, fun heq => ?_⟩)
  rw [heq]

/-- **Destroying a context**: the notification finds the entry of the client, and edits it. -/
theorem destroyContext (h : Served s owners) (hc : (c, sender) ∈ owners) :
    ∃ s', s.destroyContext c = some s' ∧ Served s' (owners.filter fun o => o.1 ≠ c) ∧
      s'.senderToIC =
        if (owned owners sender).erase c = [] then Assoc.erase s.senderToIC sender else s.senderToIC := by
  obtain ⟨m, hproperty, hid, heq⟩ := h.destroyContext_eq hc
  obtain ⟨ptr, senderData, hptr, hdata, hics, -⟩ := h.table.find hc
  obtain ⟨gs, L, hinv⟩ := h.manager
  have hmem := h.mem_ics hc
  have hframe := hinv.destroy_frame hmem
  obtain ⟨L', hinv'⟩ := hinv.destroy anything_traceProperty hmem
  set t : Ipc :=
    { s with
      icManager := s.icManager.destroy c
      objectPaths := s.objectPaths.erase (s.icManager.ctx c).id } with ht
  have htable : SenderTable t owners := h.table.congr rfl rfl rfl rfl
  have htable' := htable.remove h.nodup hc hptr hdata
  obtain ⟨hmanager, hpaths, hdataId, happName, htableEq⟩ := forgetSender_frame
    { t with senders := Function.update t.senders ptr (some { senderData with ics := senderData.ics.erase c }) }
    sender ptr { senderData with ics := senderData.ics.erase c }
  refine ⟨_, ?_, ⟨?_, ⟨?_, ?_, ?_⟩, ?_, fun o ho => ?_, fun d hd => ?_, ?_, htable'⟩, ?_⟩
  · rw [heq, Ipc.destroyInputContext]
    dsimp only
    rw [hproperty, hid]
    dsimp only
    rw [hptr]
    dsimp only
    rw [hdata]
  · rw [hmanager]
    exact ⟨gs, L', hinv'⟩
  · rw [hdataId]
    exact h.dataSlot.nonneg
  · rw [hmanager, hdataId]
    show ∃ policy, (s.icManager.destroy c).propertySlots[_]? = _
    rw [hframe.others.slots]
    exact h.dataSlot.slot
  · rw [hdataId, happName]
    exact h.dataSlot.other
  · rw [hmanager]
    show (s.icManager.destroy c).ics = _
    rw [hframe.ics, h.live, erase_eq_filter_ne h.nodup, List.filter_map]
    rfl
  · obtain ⟨ho, hne⟩ := List.mem_filter.mp ho
    rw [hmanager, hdataId]
    show ((s.icManager.destroy c).property o.1 s.frontendDataId.toNat).bind _ = _
    rw [hframe.others.property o.1 (of_decide_eq_true hne)]
    exact h.client o ho
  · rw [hmanager] at hd ⊢
    show ((s.icManager.destroy c).ctx d).destroyNotify = true
    rw [hframe.destroyNotify]
    refine h.notify d ?_
    rw [show t.icManager.ics = s.icManager.ics.erase c from hframe.ics] at hd
    exact List.mem_of_mem_erase hd
  · rw [hmanager, hpaths]
    exact h.paths_erase hmem hframe.ics hframe.id
  · rw [htableEq, ← hics]

/-! ### A client leaves the bus -/

/-- **The loop comes to an end**, and reads the entry only while it is there: all contexts of the
client are destroyed, and no other. -/
theorem destroyAll (ptr : SenderPtr) (sender : Bytes) (rounds : ℕ) (h : Served s owners)
    (hptr : s.senderToIC.lookup sender = some ptr) (hrounds : (owned owners sender).length < rounds) :
    ∃ s', Ipc.destroyAll ptr rounds s = some s' ∧ Served s' (owners.filter fun o => o.2 ≠ sender) := by
  induction rounds generalizing s owners with
  | zero => exact absurd hrounds (Nat.not_lt_zero _)
  | succ rounds ih =>
    have hmem := (Assoc.lookup_eq_some_iff h.table.keys).mp hptr
    obtain ⟨senderData, hdata, hics, -⟩ := h.table.entry _ hmem
    have hne := h.table.nonempty _ hmem
    unfold Ipc.destroyAll
    rw [hdata]
    dsimp only at hics hne ⊢
    cases hlist : owned owners sender with
    | nil => exact absurd hlist hne
    | cons c rest =>
      have hc : (c, sender) ∈ owners := mem_owned.mp (hlist ▸ List.mem_cons_self)
      obtain ⟨s₁, heq, hserved, htable⟩ := h.destroyContext hc
      have hrest : (owned owners sender).erase c = rest := by rw [hlist, List.erase_cons_head]
      rw [hics, hlist]
      dsimp only
      rw [heq]
      dsimp only
      rw [hrest] at htable
      have howned : owned (owners.filter fun o => o.1 ≠ c) sender = rest := by
        rw [owned_remove h.nodup hc, if_pos rfl, hrest]
      have hboth : ((owners.filter fun o => o.1 ≠ c).filter fun o => o.2 ≠ sender) =
          owners.filter fun o => o.2 ≠ sender := by
        rw [List.filter_filter]
        refine List.filter_congr fun o ho => ?_
        by_cases hsender : o.2 = sender
        · simp [hsender]
        · have hoc : o.1 ≠ c := by
            intro hoc
            refine hsender (client_unique h.nodup hc ?_)
            rw [← hoc]
            exact ho
          simp [hsender, hoc]
      split
      · next hlast =>
        -- nobody else is left of this client
        refine ⟨s₁, rfl, ?_⟩
        rw [← hboth, List.filter_eq_self.mpr]
        · exact hserved
        · intro o ho
          refine decide_eq_true fun hsender => ?_
          have hin : o.1 ∈ owned (owners.filter fun o => o.1 ≠ c) sender := by
            rw [mem_owned, ← hsender]
            exact ho
          rw [howned, hlast] at hin
          cases hin
      · next hmore =>
        rw [if_neg hmore] at htable
        have hlen : (owned (owners.filter fun o => o.1 ≠ c) sender).length < rounds := by
          rw [howned]
          rw [hlist, List.length_cons] at hrounds
          omega
        obtain ⟨s', heq', hserved'⟩ := ih hserved (by rw [htable]; exact hptr) hlen
        rw [hboth] at hserved'
        exact ⟨s', heq', hserved'⟩

/-- Without contexts of a client nothing is filtered out. -/
theorem filter_of_lookup_none (h : Served s owners) (hnone : s.senderToIC.lookup sender = none) :
    (owners.filter fun o => o.2 ≠ sender) = owners := by
  refine List.filter_eq_self.mpr fun o ho => decide_eq_true fun hsender => ?_
  have hsome := h.table.lookup_isSome.mpr ⟨o.1, (hsender ▸ ho : (o.1, sender) ∈ owners)⟩
  rw [hnone] at hsome
  cases hsome

/-- **The callback of a watch.** -/
theorem watchName (h : Served s owners) (sender : Bytes) {oldName newName : Bytes} (hold : oldName ≠ [])
    (hnew : newName = []) :
    ∃ s', s.watchName sender oldName newName = some s' ∧ Served s' (owners.filter fun o => o.2 ≠ sender) := by
  have hgone : 0 < oldName.length ∧ newName.length = 0 :=
    ⟨List.length_pos_iff.mpr hold, List.length_eq_zero_iff.mpr hnew⟩
  unfold Ipc.watchName
  rw [if_neg (not_not.mpr hgone)]
  cases hptr : s.senderToIC.lookup sender with
  | none =>
    refine ⟨s, rfl, ?_⟩
    rw [h.filter_of_lookup_none hptr]
    exact h
  | some ptr =>
    obtain ⟨senderData, hdata, hics, -⟩ := h.table.entry _ ((Assoc.lookup_eq_some_iff h.table.keys).mp hptr)
    dsimp only at hdata ⊢
    rw [hdata]
    apply h.destroyAll ptr sender _ hptr
    rw [hics]
    exact Nat.lt_succ_self _

/-- A client has no watch, or one. -/
theorem watches_filter (h : Served s owners) (sender : Bytes) :
    (s.senderToIC.lookup sender = none ∧ (s.watches.filter fun watch => watch.2 = sender) = []) ∨
      ∃ watch ∈ s.watches, watch.2 = sender ∧ (s.watches.filter fun watch => watch.2 = sender) = [watch] := by
  have hnd : (s.watches.map Prod.snd).Nodup := by
    rw [h.table.watches]
    exact h.table.keys
  cases hfilter : s.watches.filter fun watch => watch.2 = sender with
  | nil =>
    refine Or.inl ⟨Assoc.lookup_eq_none_iff.mpr fun hkey => ?_, rfl⟩
    rw [← h.table.watches] at hkey
    obtain ⟨watch, hwatch, hsender⟩ := List.mem_map.mp hkey
    have hin : watch ∈ s.watches.filter fun watch => watch.2 = sender :=
      List.mem_filter.mpr ⟨hwatch, decide_eq_true hsender⟩
    rw [hfilter] at hin
    cases hin
  | cons watch rest =>
    have hall : ∀ w ∈ watch :: rest, w ∈ s.watches ∧ w.2 = sender := by
      intro w hw
      rw [← hfilter] at hw
      obtain ⟨hw, hsender⟩ := List.mem_filter.mp hw
      exact ⟨hw, of_decide_eq_true hsender⟩
    obtain ⟨hwatch, hsender⟩ := hall watch List.mem_cons_self
    refine Or.inr ⟨watch, hwatch, hsender, ?_⟩
    cases rest with
    | nil => rfl
    | cons other rest =>
      -- two watches with one name are one watch, which is there once
      obtain ⟨hother, hsender'⟩ := hall other (List.mem_cons_of_mem _ List.mem_cons_self)
      have heq : watch = other := List.inj_on_of_nodup_map hnd hwatch hother (hsender.trans hsender'.symm)
      have hnd' : (watch :: other :: rest).Nodup := by
        rw [← hfilter]
        exact (List.Nodup.of_map _ hnd).filter _
      exact absurd heq (List.ne_of_not_mem_cons (List.nodup_cons.mp hnd').1)

/-- **A change of the owner of a name**: a client that is gone has no context any more. -/
theorem nameOwnerChanged (h : Served s owners) (serviceName oldName newName : Bytes) :
    ∃ s', s.nameOwnerChanged serviceName oldName newName = some s' ∧
      Served s' (if oldName ≠ [] ∧ newName = [] then owners.filter fun o => o.2 ≠ serviceName else owners) := by
  unfold Ipc.nameOwnerChanged
  rcases h.watches_filter serviceName with ⟨hnone, hfilter⟩ | ⟨watch, hwatch, -, hfilter⟩
  · rw [hfilter]
    refine ⟨s, rfl, ?_⟩
    rw [h.filter_of_lookup_none hnone, ite_self]
    exact h
  · rw [hfilter, List.foldlM_cons, callWatch, if_pos hwatch]
    simp only [List.foldlM_nil, bind_pure]
    split
    · next hgone => exact h.watchName serviceName hgone.1 hgone.2
    · next hgone =>
      refine ⟨s, ?_, h⟩
      unfold Ipc.watchName
      rw [if_pos]
      rintro ⟨hold, hnew⟩
      exact hgone ⟨List.length_pos_iff.mp hold, List.length_eq_zero_iff.mp hnew⟩

/-! ### A context is made -/

/-- The end of `CreateIC` writes no client's name. -/
theorem configure (h : Served s owners) (hc : c ∈ s.icManager.ics) (args : CreateArgs) :
    Served (s.configure c args) owners := by
  obtain ⟨gs, L, hinv⟩ := h.manager
  set type : FocusGroupType := if args.independent then .independent else .global with htype
  set grouped := s.icManager.setFocusGroup c type none with hgrouped
  have hgroup : KeepsValues s.frontendDataId.toNat s.icManager grouped := setFocusGroup_keepsValues _ c type none
  have hcopy : grouped.copyFn s.frontendDataId.toNat = none := by
    rw [InputContextManager.copyFn, hgroup.slots]
    exact h.dataSlot.copyFn
  have hset := setProperty_keepsValues grouped c (args.appName.map .appName) h.dataSlot.other hcopy
  have hkeep := hgroup.trans hset
  have hok : IcOp.Ok s.icManager (.setFocusGroup c type none) := ⟨hc, fun g hg => absurd hg (Option.not_mem_none g)⟩
  have hgroupInv : ∃ gs L, IcInv (fun _ => True) grouped gs L :=
    hinv.step anything_traceProperty hok fun _ _ _ _ _ => trivial
  obtain ⟨gs₁, L₁, hinv₁⟩ := hgroupInv
  refine ⟨⟨gs₁, L₁, hinv₁.rest anything_traceProperty (setProperty_rest grouped c _ _)⟩,
    ⟨h.dataSlot.nonneg, ?_, h.dataSlot.other⟩, ?_, fun o ho => ?_, fun d hd => ?_, ?_, h.table.congr rfl rfl rfl rfl⟩
  · obtain ⟨policy, hslot⟩ := h.dataSlot.slot
    exact ⟨policy, hkeep.slots ▸ hslot⟩
  · exact hkeep.ics.trans h.live
  · have hvalue := h.client o ho
    rw [InputContextManager.value, ← hkeep.property] at hvalue
    exact hvalue
  · have hd' : d ∈ s.icManager.ics := hkeep.ics ▸ hd
    exact (hkeep.destroyNotify d).trans (h.notify d hd')
  · show s.objectPaths = List.map _ (grouped.setProperty c s.appNameId _).ics
    rw [hkeep.ics, h.paths]
    exact List.map_congr_left fun d _ => (hkeep.id d).symm

/-- **The context is made, and gets its client.** -/
theorem newInputContext (h : Served s owners) {create : CreateIC} (hsender : create.sender = some sender)
    (hregistered : create.registered = true) (hwatch : create.watchId ∉ s.watches.map Prod.fst)
    (hnew : (s.icManager.new create.uuid s.frontendId true).1 = some c) :
    ∃ s', s.newInputContext create = some (some c, s') ∧ Served s' (owners ++ [(c, sender)]) := by
  obtain ⟨gs, L, hinv⟩ := h.manager
  have hframe := hinv.new_frame hnew
  have hinv' := hinv.new anything_traceProperty create.uuid s.frontendId true
  set made := s.icManager.new create.uuid s.frontendId true with hmade
  set t : Ipc := { s with icManager := made.2, objectPaths := s.objectPaths ++ [(made.2.ctx c).id] } with ht
  have htable : SenderTable t owners := h.table.congr rfl rfl rfl rfl
  have hout : c ∉ owners.map Prod.fst := h.live ▸ hframe.fresh
  obtain ⟨s', hown, htable', howns⟩ := htable.own hout sender hwatch
  obtain ⟨policy, hslot⟩ := h.dataSlot.slot
  have hslot' : made.2.propertySlots[s.frontendDataId.toNat]? = some ⟨none, none, policy⟩ := by
    rw [hframe.others.slots]
    exact hslot
  have hcopy : made.2.copyFn s.frontendDataId.toNat = none := by
    rw [InputContextManager.copyFn, hslot']
    rfl
  have hdataId : ((s.frontendDataId.toNat : ℕ) : ℤ) = s.frontendDataId := Int.toNat_of_nonneg h.dataSlot.nonneg
  have hrest := setProperty_rest made.2 c s.frontendDataId (some (.frontendData sender))
  have hmanager : s'.icManager = made.2.setProperty c s.frontendDataId (some (.frontendData sender)) :=
    howns.icManager
  have hvalue : s'.icManager.value c s.frontendDataId.toNat = some (.frontendData sender) := by
    have hset := setProperty_value made.2 c hslot' (some (.frontendData sender))
    rw [hdataId] at hset
    rw [hmanager, hset]
    rfl
  have hothers : ∀ d, d ≠ c →
      s'.icManager.property d s.frontendDataId.toNat = s.icManager.property d s.frontendDataId.toNat := by
    intro d hd
    rw [hmanager, ← hframe.others.property d hd]
    refine setProperty_property_of_ne (x := (d, s.frontendDataId.toNat)) _ c _ _ ?_ hcopy
    exact fun heq => hd (Prod.mk.inj heq).1
  have hics : s'.icManager.ics = s.icManager.ics ++ [c] := by
    rw [hmanager, rest_ics hrest, hframe.ics]
  have hctx : s'.icManager.ctx = made.2.ctx := by rw [hmanager, rest_ctx hrest]
  refine ⟨s', ?_, ⟨gs, L, ?_⟩, ⟨?_, ?_, ?_⟩, ?_, fun o ho => ?_, fun d hd => ?_, ?_, htable'⟩
  · unfold Ipc.newInputContext
    rw [hsender]
    dsimp only
    rw [← hmade, show made = (some c, made.2) from Prod.ext hnew rfl]
    dsimp only
    rw [if_pos hregistered, hown]
    rfl
  · rw [hmanager]
    exact hinv'.rest anything_traceProperty hrest
  · rw [howns.frontendDataId]
    exact h.dataSlot.nonneg
  · rw [howns.frontendDataId, hmanager, setProperty_slots]
    exact ⟨policy, hslot'⟩
  · rw [howns.frontendDataId, howns.appNameId]
    exact h.dataSlot.other
  · rw [hics, h.live, List.map_append]
    rfl
  · rw [howns.frontendDataId]
    rcases List.mem_append.mp ho with ho | ho
    · have hne : o.1 ≠ c := fun heq => hout (List.mem_map.mpr ⟨o, ho, heq⟩)
      rw [InputContextManager.value, show t.frontendDataId = s.frontendDataId from rfl, hothers o.1 hne]
      exact h.client o ho
    · obtain rfl := List.mem_singleton.mp ho
      exact hvalue
  · rw [hctx, hframe.destroyNotify]
    split
    · rfl
    · next hne =>
      rw [hics] at hd
      rcases List.mem_append.mp hd with hd | hd
      · exact h.notify d hd
      · exact absurd (List.mem_singleton.mp hd) hne
  · rw [howns.objectPaths, hics, hctx, List.map_append, List.map_singleton]
    show s.objectPaths ++ [(made.2.ctx c).id] = _
    rw [h.paths]
    congr 1
    refine List.map_congr_left fun d hd => ?_
    have hne : d ≠ c := by
      rintro rfl
      exact hframe.fresh hd
    exact (hframe.id d hne).symm

end Served

end Ipc

/-! ### Runs -/

/-- What the environment promises for a `CreateIC` call: the path can be registered, the manager has a
context, and the number of a watch is not the number of another one. -/
def IpcMessage.Ok (s : Ipc) : IpcMessage → Prop
  | .createIC create =>
    create.registered = true ∧ (s.icManager.new create.uuid s.frontendId true).1.isSome = true ∧
      create.watchId ∉ s.watches.map Prod.fst
  | .destroyIC _ | .nameOwnerChanged .. => True

instance ipcMessageOkDecidable (s : Ipc) : ∀ message : IpcMessage, Decidable (message.Ok s)
  | .createIC create =>
    inferInstanceAs (Decidable (create.registered = true ∧
      (s.icManager.new create.uuid s.frontendId true).1.isSome = true ∧
        create.watchId ∉ s.watches.map Prod.fst))
  | .destroyIC _ | .nameOwnerChanged .. => .isTrue trivial

/-- A frontend, and the contexts that it made and that were not destroyed since, each with the sender
of its `CreateIC`. -/
structure IpcHistory where
  /-- `none` after a read of a pointer to nothing, or in a loop without end -/
  ipc : Option Ipc
  owners : List (ContextPtr × Bytes)

namespace IpcHistory

/-- The frontend of a running instance, before the first message. -/
def start (addonManager : AddonManager) (triggerKey : List Key) (frontendId : UInt32) : IpcHistory :=
  ⟨some (.init (Instance.new addonManager triggerKey).registerProperties frontendId), []⟩

/-- Whose contexts there are after a message to the frontend `s`. -/
def record (s : Ipc) (owners : List (ContextPtr × Bytes)) : IpcMessage → List (ContextPtr × Bytes)
  | .createIC create =>
    match create.argument, create.sender, (s.icManager.new create.uuid s.frontendId true).1 with
    | some _, some sender, some ic => owners ++ [(ic, sender)]
    | _, _, _ => owners
  | .destroyIC id =>
    match s.icManager.getInputContext id with
    | some ic => owners.filter fun o => o.1 ≠ ic
    | none => owners
  | .nameOwnerChanged serviceName oldName newName =>
    if oldName ≠ [] ∧ newName = [] then owners.filter fun o => o.2 ≠ serviceName else owners

def step (h : IpcHistory) (message : IpcMessage) : IpcHistory :=
  match h.ipc with
  | none => h
  | some s => ⟨s.handle message, record s h.owners message⟩

/-- The environment keeps its promises. -/
def Ok (h : IpcHistory) (message : IpcMessage) : Prop := ∀ s ∈ h.ipc, message.Ok s

instance okDecidable (h : IpcHistory) (message : IpcMessage) : Decidable (h.Ok message) :=
  inferInstanceAs (Decidable (∀ s ∈ h.ipc, message.Ok s))

end IpcHistory

namespace Ipc

variable {s : Ipc} {owners : List (ContextPtr × Bytes)}

namespace Served

/-- **Every message** is handled, and keeps the table and the contexts in step. -/
theorem handle (h : Served s owners) {message : IpcMessage} (hok : message.Ok s) :
    ∃ s', s.handle message = some s' ∧ Served s' (IpcHistory.record s owners message) := by
  cases message with
  | createIC create =>
    obtain ⟨hregistered, hnew, hwatch⟩ := hok
    obtain ⟨c, hc⟩ := Option.isSome_iff_exists.mp hnew
    simp only [Ipc.handle, Ipc.createIC, IpcHistory.record]
    cases create.argument with
    | none => exact ⟨s, rfl, h⟩
    | some entries =>
      cases hsender : create.sender with
      | none =>
        refine ⟨s, ?_, h⟩
        simp only [Ipc.newInputContext, hsender]
      | some sender =>
        obtain ⟨s', hmade, hserved⟩ := h.newInputContext hsender hregistered hwatch hc
        have hmem : c ∈ s'.icManager.ics := hserved.mem_ics (List.mem_append_right _ List.mem_cons_self)
        rw [hmade, hc]
        exact ⟨_, rfl, hserved.configure hmem _⟩
  | destroyIC id =>
    simp only [Ipc.handle, Ipc.destroyIC, IpcHistory.record]
    cases hfind : s.icManager.getInputContext id with
    | none =>
      refine ⟨s, ?_, h⟩
      split <;> rfl
    | some c =>
      obtain ⟨hmem, hid⟩ := h.registry.getInputContext_eq.mp hfind
      have hpath : id ∈ s.objectPaths := by
        rw [h.paths, ← hid]
        exact List.mem_map.mpr ⟨c, hmem, rfl⟩
      rw [h.live] at hmem
      obtain ⟨⟨ic, sender⟩, ho, rfl⟩ := List.mem_map.mp hmem
      obtain ⟨s', heq, hserved, -⟩ := h.destroyContext ho
      rw [if_pos hpath]
      exact ⟨s', heq, hserved⟩
  | nameOwnerChanged serviceName oldName newName => exact h.nameOwnerChanged serviceName oldName newName

/-- Before the first message there is no context. -/
theorem start (addonManager : AddonManager) (triggerKey : List Key) (frontendId : UInt32) :
    Served (.init (Instance.new addonManager triggerKey).registerProperties frontendId) [] := by
  set inst := (Instance.new addonManager triggerKey).registerProperties with hinst
  have hinv : IcInv (fun _ => True) (IcSystem.initial : IcSystem InstanceProperty) [] fun _ => [] :=
    IcInv.initial trivial
  have hrest : inst.icManager.withoutProperties =
      (IcSystem.initial : IcSystem InstanceProperty).withoutProperties := rfl
  have hids : ∀ addonManager triggerKey,
      (Instance.new addonManager triggerKey).registerProperties.icManager =
        (Instance.new (AddonManager.new []) []).registerProperties.icManager := fun _ _ => rfl
  have hdataId : inst.icManager.lookupProperty "frontend-data".toUTF8.toList = 0 := by
    rw [hinst, hids]
    decide +kernel
  have happName : inst.icManager.lookupProperty "applicationName".toUTF8.toList = 3 := by
    rw [hinst, hids]
    decide +kernel
  refine ⟨⟨_, _, hinv.rest anything_traceProperty hrest⟩, ⟨?_, ⟨none, ?_⟩, ?_⟩, rfl, ?_, ?_, rfl, ?_⟩
  · exact hdataId ▸ Int.le_refl 0
  · show inst.icManager.propertySlots[(inst.icManager.lookupProperty _).toNat]? = _
    rw [hdataId]
    rfl
  · show (inst.icManager.lookupProperty _).toNat ≠ (inst.icManager.lookupProperty _).toNat
    rw [hdataId, happName]
    decide
  · exact fun o ho => absurd ho List.not_mem_nil
  · exact fun d hd => absurd hd List.not_mem_nil
  · refine ⟨⟨List.nodup_nil, ?_, ?_, ?_, ?_, rfl, List.nodup_nil⟩, ?_⟩ <;>
      exact fun _ h => absurd h List.not_mem_nil

end Served

/-- **Ownership.** The live contexts are those of the senders, a sender has an entry exactly while it
owns a context, the entry has its contexts, and there is one watch for each such sender. -/
structure Ownership (s : Ipc) (owners : List (ContextPtr × Bytes)) : Prop where
  live : s.icManager.ics = owners.map Prod.fst
  nodup : (owners.map Prod.fst).Nodup
  entry : ∀ sender, (s.senderToIC.lookup sender).isSome = true ↔ ∃ c, (c, sender) ∈ owners
  ics : ∀ sender ptr, s.senderToIC.lookup sender = some ptr →
    ∃ senderData, s.senders ptr = some senderData ∧ senderData.ics.Nodup ∧
      (∀ c, c ∈ senderData.ics ↔ (c, sender) ∈ owners) ∧ (senderData.watchId, sender) ∈ s.watches
  watch : ∀ sender, (s.watches.filter fun watch => watch.2 = sender).length =
    if (s.senderToIC.lookup sender).isSome then 1 else 0

theorem Served.ownership (h : Served s owners) : Ownership s owners := by
  refine ⟨h.live, h.nodup, fun sender => h.table.lookup_isSome, fun sender ptr hptr => ?_, fun sender => ?_⟩
  · obtain ⟨senderData, hdata, hics, hwatch⟩ :=
      h.table.entry _ ((Assoc.lookup_eq_some_iff h.table.keys).mp hptr)
    refine ⟨senderData, hdata, ?_, fun c => ?_, hwatch⟩
    · rw [hics]
      exact owned_nodup h.nodup
    · rw [hics]
      exact mem_owned
  · rcases h.watches_filter sender with ⟨hnone, hfilter⟩ | ⟨watch, hwatch, hsender, hfilter⟩
    · rw [hfilter, hnone]
      rfl
    · have hkey : sender ∈ Assoc.keys s.senderToIC := by
        rw [← h.table.watches]
        exact List.mem_map.mpr ⟨watch, hwatch, hsender⟩
      have hsome : (s.senderToIC.lookup sender).isSome = true :=
        Option.isSome_iff_ne_none.mpr fun hnone => Assoc.lookup_eq_none_iff.mp hnone hkey
      rw [hfilter, if_pos hsome]
      rfl

end Ipc

namespace IpcHistory

open Ipc

/-- **The frontend and its clients.** After every run of messages no pointer to nothing was read and
every loop came to an end; the table has the contexts of each client, and a client that left the bus has
none. -/
theorem run_ownership (addonManager : AddonManager) (triggerKey : List Key) (frontendId : UInt32)
    (messages : List IpcMessage)
    (h : Run.Admissible step Ok (start addonManager triggerKey frontendId) messages) :
    ∃ s owners, Run.exec step (start addonManager triggerKey frontendId) messages = ⟨some s, owners⟩ ∧
      Ownership s owners ∧
      ∀ before sender oldName, messages = before ++ [.nameOwnerChanged sender oldName []] → oldName ≠ [] →
        s.senderToIC.lookup sender = none ∧ ∀ c ∈ s.icManager.ics, (c, sender) ∉ owners := by
  have hstep : ∀ (t : IpcHistory) message, (∃ s ∈ t.ipc, Served s t.owners) → t.Ok message →
      ∃ s ∈ (t.step message).ipc, Served s (t.step message).owners := by
    intro t message hex hok
    obtain ⟨s, hs, hserved⟩ := hex
    obtain ⟨s', heq, hserved'⟩ := hserved.handle (hok s hs)
    unfold step
    rw [hs]
    exact ⟨s', heq, hserved'⟩
  have hserved : ∀ messages, Run.Admissible step Ok (start addonManager triggerKey frontendId) messages →
      ∃ s ∈ (Run.exec step (start addonManager triggerKey frontendId) messages).ipc,
        Served s (Run.exec step (start addonManager triggerKey frontendId) messages).owners := fun messages ha =>
    Run.invariant (P := fun t : IpcHistory => ∃ s ∈ t.ipc, Served s t.owners) hstep
      ⟨_, rfl, Served.start addonManager triggerKey frontendId⟩ ha
  obtain ⟨s, hs, hall⟩ := hserved messages h
  generalize hend : Run.exec step (start addonManager triggerKey frontendId) messages = t at hs hall
  obtain ⟨ipc, owners⟩ := t
  obtain rfl : ipc = some s := hs
  refine ⟨s, owners, rfl, hall.ownership, ?_⟩
  rintro before sender oldName rfl hold
  obtain ⟨hbefore, -⟩ := Run.admissible_append.mp h
  obtain ⟨s₀, hs₀, hserved₀⟩ := hserved before hbefore
  have hgone : ∀ c, (c, sender) ∉ owners := by
    intro c hc
    rw [Run.exec_append, Run.exec_cons, Run.exec_nil, step, hs₀] at hend
    have howners := congrArg IpcHistory.owners hend
    simp only [record] at howners
    rw [if_pos ⟨hold, trivial⟩] at howners
    rw [← howners] at hc
    exact of_decide_eq_true (List.mem_filter.mp hc).2 rfl
  refine ⟨?_, fun c _ => hgone c⟩
  rw [← Option.not_isSome_iff_eq_none, hall.table.lookup_isSome]
  rintro ⟨c, hc⟩
  exact hgone c hc

/-- Two clients with three contexts; one is destroyed on request, and then its client is gone. -/
theorem run_ownership_two :
    let create (sender : Bytes) (watchId : ℤ) : IpcMessage :=
      .createIC ⟨some sender, some [(some "appName".toUTF8.toList, some (.string [120]))], 0, true, watchId⟩
    let messages : List IpcMessage :=
      [create [97] 1, create [97] 2, create [98] 2, .destroyIC 1, .nameOwnerChanged [97] [97] []]
    Run.Admissible step Ok (start (AddonManager.new []) [] 1) messages ∧
      ∃ s owners, Run.exec step (start (AddonManager.new []) [] 1) messages = ⟨some s, owners⟩ ∧
        Ownership s owners ∧ s.senderToIC.lookup [97] = none := by
  intro create messages
  have hok : Run.Admissible step Ok (start (AddonManager.new []) [] 1) messages := by decide +kernel
  obtain ⟨s, owners, hend, hownership, hgone⟩ := run_ownership (AddonManager.new []) [] 1 messages hok
  refine ⟨hok, s, owners, hend, hownership, ?_⟩
  exact (hgone [create [97] 1, create [97] 2, create [98] 2, .destroyIC 1] [97] [97] rfl (by decide)).1

end IpcHistory
end Fcitx
