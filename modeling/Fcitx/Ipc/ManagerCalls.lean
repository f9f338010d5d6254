/-
# The calls of the manager

What the frontend of `frontend/ipc/ipc.c` does to the manager for a message, as calls of
the manager on live contexts: a method on a context is one call at most, and a client that
leaves the bus is a call for each of its contexts. The tables of the frontend are edited
on the way and are no matter of the manager.

Key definitions: `IcMethod.calls`, `Ipc.Called`.
Key theorems: `IcInv.calls`, `IcMethod.keepsValues`, `Ipc.Served.destroyAll_called`,
`Ipc.Served.nameOwnerChanged_called`.
-/
import Fcitx.InputContext.EventTrace
import Fcitx.Ipc.Handler
import Fcitx.Ipc.Ownership

namespace Fcitx

open InputContextManager IcSystem

section calls

variable {V : Type} {Φ : IcSystem V → Prop} {s s' : IcSystem V} {gs : List GroupPtr} {L : GroupPtr → List ContextPtr}
  {i : ℕ} {c : ContextPtr}

/-- **Calls keep the invariant of the manager**; `cond` has to answer for the surrounding texts. -/
theorem IcInv.calls (hΦ : TraceProperty Φ) (cond : IcSystem V → IcOp V → Prop)
    (hsur : ∀ (s : IcSystem V) gs L c str cursor anchor, IcInv Φ s gs L → c ∈ s.ics →
      cond s (.setSurroundingText c str cursor anchor) → Φ (s.setSurroundingText c str cursor anchor))
    {calls : List (IcOp V)} (h : ∃ gs L, IcInv Φ s gs L)
    (ha : Run.Admissible IcSystem.step (fun s op => op.Ok s ∧ cond s op) s calls) :
    ∃ gs L, IcInv Φ (Run.exec IcSystem.step s calls) gs L := by
  refine Run.invariant (P := fun s : IcSystem V => ∃ gs L, IcInv Φ s gs L) ?_ h ha
  rintro s op ⟨gs, L, hinv⟩ ⟨hok, hcond⟩
  apply hinv.step hΦ hok
  rintro c str cursor anchor rfl
  exact hsur s gs L c str cursor anchor hinv hok hcond

/-! ### The calls of a method -/

theorem KeepsValues.of_frames (hnames : SameNames s.toInputContextManager s'.toInputContextManager)
    (hshared : SameShared s.toInputContextManager s'.toInputContextManager) (hevents : EventsOnly s s') :
    KeepsValues i s s' := by
  refine ⟨hnames.ics, hnames.id, hevents.destroyNotify, fun d => ?_, hshared.propertySlots⟩
  rw [hshared.property]

theorem KeepsValues.refl (i : ℕ) (s : IcSystem V) : KeepsValues i s s :=
  .of_frames (.refl _) (.refl _) (.refl s)

theorem KeepsValues.emit (i : ℕ) (s : IcSystem V) (type : EventType) (c : ContextPtr) (detail : EventDetail) :
    KeepsValues i s (s.emit type c detail) := by
  refine .of_frames ?_ (s.emit_sameShared type c detail) (.emit s type c detail)
  rw [emit_manager]
  exact .refl _

/-- What a method asks of the manager. -/
def IcMethod.calls (ic : ContextPtr) : IcMethod → List (IcOp V)
  | .introspect | .setCursorRect none | .setCapability none | .setSurroundingText none | .processKeyEvent _ => []
  | .focusIn => [.focusIn ic]
  | .focusOut => [.focusOut ic]
  | .reset => [.reset ic]
  | .setCursorRect (some rect) => [.setCursorRect ic rect]
  | .setCapability (some flag) => [.setCapabilityFlags ic flag]
  | .setSurroundingText (some (text, cursor, anchor)) => [.setSurroundingText ic text cursor anchor]
  | .destroyIC => [.destroy ic]

/-- What a method sends back, if it does not overrun a variable. -/
def IcMethod.reply : IcMethod → IpcReply
  | .introspect => .inputcontextIntrospection
  | .processKeyEvent _ => .invalidArgs
  | .focusIn | .focusOut | .reset | .setCursorRect _ | .setCapability _ | .setSurroundingText _ | .destroyIC =>
    .methodReturn

theorem IcMethod.calls_ok (hc : c ∈ s.ics) (method : IcMethod) :
    Run.Admissible IcSystem.step IcOp.Ok s (method.calls c) := by
  cases method with
  | setCursorRect rect => cases rect <;> first | exact trivial | exact ⟨hc, trivial⟩
  | setCapability flag => cases flag <;> first | exact trivial | exact ⟨hc, trivial⟩
  | setSurroundingText text => cases text <;> first | exact trivial | exact ⟨hc, trivial⟩
  | introspect | processKeyEvent overruns => exact trivial
  | _ => exact ⟨hc, trivial⟩

theorem SameNames.modify_emit (s : IcSystem V) (c : ContextPtr) {f : InputContext → InputContext}
    (hid : ∀ ic, (f ic).id = ic.id) (huuid : ∀ ic, (f ic).uuid = ic.uuid) (type : EventType) (detail : EventDetail) :
    SameNames s.toInputContextManager ((s.modify c f).emit type c detail).toInputContextManager := by
  rw [emit_manager]
  refine ⟨rfl, rfl, rfl, rfl, fun d => ?_, fun d => ?_⟩
  · rw [modify_ctx]
    split
    · next h => rw [h, hid]
    · rfl
  · rw [modify_ctx]
    split
    · next h => rw [h, huuid]
    · rfl

/-- Writing to a context and reporting it. -/
theorem KeepsValues.modify_emit (i : ℕ) (s : IcSystem V) (c : ContextPtr) {f : InputContext → InputContext}
    (hid : ∀ ic, (f ic).id = ic.id) (huuid : ∀ ic, (f ic).uuid = ic.uuid)
    (hnotify : ∀ ic, (f ic).destroyNotify = ic.destroyNotify) (type : EventType) (detail : EventDetail) :
    KeepsValues i s ((s.modify c f).emit type c detail) :=
  .of_frames (.modify_emit s c hid huuid type detail) (s.modify_emit_sameShared c f type detail)
    (.modify_emit s c hnotify type detail)

/-- **A method** but for `DestroyIC` keeps the contexts and the values of the properties. -/
theorem IcMethod.keepsValues (i : ℕ) (s : IcSystem V) (c : ContextPtr) {method : IcMethod}
    (hne : method ≠ .destroyIC) :
    KeepsValues i s (Run.exec IcSystem.step s (method.calls c)) := by
  cases method with
  | introspect | processKeyEvent overruns => exact .refl i s
  | focusIn =>
    have hnames : SameNames s.toInputContextManager (s.step (.focusIn c)).toInputContextManager :=
      step_sameNames s (by simp) (by simp)
    exact .of_frames hnames (focusIn_sameShared s c) (.focusIn s c)
  | focusOut =>
    exact .of_frames (focusOut_sameNames s c) (focusOut_sameShared s c) (.focusOut s c)
  | reset => exact .emit i s _ c _
  | setCursorRect rect =>
    cases rect with
    | none => exact .refl i s
    | some rect =>
      show KeepsValues i s (s.setCursorRect c rect)
      unfold IcSystem.setCursorRect
      split
      · apply KeepsValues.modify_emit <;> exact fun _ => rfl
      · exact .refl i s
  | setCapability flag =>
    cases flag with
    | none => exact .refl i s
    | some flag =>
      show KeepsValues i s (s.setCapabilityFlags c flag)
      unfold IcSystem.setCapabilityFlags
      split
      · apply KeepsValues.modify_emit <;> exact fun _ => rfl
      · exact .refl i s
  | setSurroundingText text =>
    cases text with
    | none => exact .refl i s
    | some text =>
      obtain ⟨text, cursor, anchor⟩ := text
      show KeepsValues i s (s.setSurroundingText c text cursor anchor)
      unfold IcSystem.setSurroundingText
      split
      · exact .refl i s
      · split
        · apply KeepsValues.modify_emit <;> exact fun _ => rfl
        · exact .refl i s
  | destroyIC => exact absurd rfl hne

/-- Destroying a context leaves the ids of all cells. -/
theorem destroy_id (s : IcSystem V) (c d : ContextPtr) : ((s.destroy c).ctx d).id = (s.ctx d).id := by
  unfold IcSystem.destroy
  split
  · rfl
  · exact (((focusOut_sameNames s c).trans (_setFocusGroup_sameNames _ c none)).trans (_destroy_sameNames _ c)).id d

theorem destroys_id (cs : List ContextPtr) (s : IcSystem V) (d : ContextPtr) :
    ((Run.exec IcSystem.step s (cs.map fun c => .destroy c)).ctx d).id = (s.ctx d).id := by
  induction cs generalizing s with
  | nil => rfl
  | cons c cs ih => exact (ih (s.destroy c)).trans (destroy_id s c d)

end calls

/-! ### What the frontend does to its manager -/

namespace Ipc

variable {s s' s'' : Ipc} {owners : List (ContextPtr × Bytes)} {sender : Bytes} {c : ContextPtr} {ptr : SenderPtr}
  {calls calls' : List (IcOp InstanceProperty)}

/-- `s'` is `s` after `calls` of the manager, which were all on live contexts. -/
structure Called (s s' : Ipc) (calls : List (IcOp InstanceProperty)) : Prop where
  icManager : s'.icManager = Run.exec IcSystem.step s.icManager calls
  ok : Run.Admissible IcSystem.step IcOp.Ok s.icManager calls
  frontendId : s'.frontendId = s.frontendId
  frontendDataId : s'.frontendDataId = s.frontendDataId
  appNameId : s'.appNameId = s.appNameId

theorem Called.refl (s : Ipc) : Called s s [] := ⟨rfl, trivial, rfl, rfl, rfl⟩

theorem Called.trans (h : Called s s' calls) (h' : Called s' s'' calls') : Called s s'' (calls ++ calls') := by
  refine ⟨?_, Run.admissible_append.mpr ⟨h.ok, ?_⟩, h'.frontendId.trans h.frontendId,
    h'.frontendDataId.trans h.frontendDataId, h'.appNameId.trans h.appNameId⟩
  · rw [h'.icManager, h.icManager, Run.exec_append]
  · rw [← h.icManager]
    exact h'.ok

/-- The notification of a context that is gone edits the tables of the frontend alone. -/
theorem called_frame {e : Emitted InstanceProperty} (h : s.called e = some s') : Called s s' [] := by
  unfold Ipc.called at h
  split at h
  · next ic _ =>
    unfold Ipc.destroyInputContext at h
    dsimp only at h
    split at h
    · split at h
      · cases h
      · split at h
        · cases h
        · rw [← Option.some.inj h]
          unfold forgetSender
          split <;> exact ⟨rfl, trivial, rfl, rfl, rfl⟩
    · cases h
  · rw [← Option.some.inj h]
    exact .refl s

theorem foldlM_called_frame {emitted : List (Emitted InstanceProperty)} (h : emitted.foldlM Ipc.called s = some s') :
    Called s s' [] := by
  induction emitted generalizing s with
  | nil =>
    obtain rfl : s = s' := Option.some.inj h
    exact .refl s
  | cons e emitted ih =>
    rw [List.foldlM_cons] at h
    obtain ⟨t, ht, hrest⟩ := Option.bind_eq_some_iff.mp h
    exact (called_frame ht).trans (ih hrest)

theorem destroyContext_called (hc : c ∈ s.icManager.ics) (h : s.destroyContext c = some s') :
    Called s s' [.destroy c] := by
  have hframe := foldlM_called_frame h
  exact ⟨hframe.icManager, ⟨hc, trivial⟩, hframe.frontendId, hframe.frontendDataId, hframe.appNameId⟩

/-- The client's entry is looked up or made without the manager. -/
theorem own_called {ic : ContextPtr} {watchId : ℤ} (hc : ic ∈ s.icManager.ics)
    (h : s.own sender watchId ic = some s') :
    Called s s' [.setProperty ic s.frontendDataId (some (.frontendData sender))] := by
  unfold Ipc.own at h
  have hfor : ∀ t : Ipc, (s.senderFor sender watchId).2 = t → t.icManager = s.icManager ∧
      t.frontendId = s.frontendId ∧ t.frontendDataId = s.frontendDataId ∧ t.appNameId = s.appNameId := by
    rintro t rfl
    unfold senderFor
    split <;> exact ⟨rfl, rfl, rfl, rfl⟩
  generalize s.senderFor sender watchId = found at h hfor
  obtain ⟨ptr, t⟩ := found
  obtain ⟨hmanager, hid, hdata, hname⟩ := hfor t rfl
  dsimp only at h
  split at h
  · cases h
  · rw [← Option.some.inj h]
    refine ⟨?_, ⟨hc, trivial⟩, hid, hdata, hname⟩
    show t.icManager.setProperty ic t.frontendDataId _ = s.icManager.setProperty ic s.frontendDataId _
    rw [hmanager, hdata]

namespace Served

/-- What keeps the contexts and the clients' names keeps the frontend in step with its manager. -/
theorem frame (h : Served s owners) {m : IcSystem InstanceProperty}
    (hkeep : KeepsValues s.frontendDataId.toNat s.icManager m) (hinv : ∃ gs L, IcInv (fun _ => True) m gs L) :
    Served { s with icManager := m } owners := by
  refine ⟨hinv, ⟨h.dataSlot.nonneg, ?_, h.dataSlot.other⟩, hkeep.ics.trans h.live, fun o ho => ?_, fun d hd => ?_, ?_,
    h.table.congr rfl rfl rfl rfl⟩
  · obtain ⟨policy, hslot⟩ := h.dataSlot.slot
    exact ⟨policy, hkeep.slots ▸ hslot⟩
  · have hvalue := h.client o ho
    rw [InputContextManager.value, ← hkeep.property] at hvalue
    exact hvalue
  · have hd' : d ∈ s.icManager.ics := hkeep.ics ▸ hd
    exact (hkeep.destroyNotify d).trans (h.notify d hd')
  · show s.objectPaths = List.map _ m.ics
    rw [hkeep.ics, h.paths]
    exact List.map_congr_left fun d _ => (hkeep.id d).symm

/-- **The loop over the contexts of a client** destroys them in the order in which they were made. -/
theorem destroyAll_called (ptr : SenderPtr) (sender : Bytes) (rounds : ℕ) (h : Served s owners)
    (hptr : s.senderToIC.lookup sender = some ptr) (hrounds : (owned owners sender).length < rounds) :
    ∃ s', Ipc.destroyAll ptr rounds s = some s' ∧
      Called s s' ((owned owners sender).map fun c => .destroy c) := by
  induction rounds generalizing s owners with
  | zero => exact absurd hrounds (Nat.not_lt_zero _)
  | succ rounds ih =>
    have hmem := (Assoc.lookup_eq_some_iff h.table.keys).mp hptr
    obtain ⟨senderData, hdata, hics, -⟩ := h.table.entry _ hmem
    have hne := h.table.nonempty _ hmem
    unfold Ipc.destroyAll
    rw [hdata]
    dsimp only at hics hne ⊢
    cases hlist : owned owners sender with
    | nil => exact absurd hlist hne
    | cons c rest =>
      have hc : (c, sender) ∈ owners := mem_owned.mp (hlist ▸ List.mem_cons_self)
      obtain ⟨s₁, heq, hserved, htable⟩ := h.destroyContext hc
      have hcalled := destroyContext_called (h.mem_ics hc) heq
      have hrest : (owned owners sender).erase c = rest := by rw [hlist, List.erase_cons_head]
      rw [hics, hlist]
      dsimp only
      rw [heq]
      dsimp only
      split
      · next hlast =>
        rw [hlast]
        exact ⟨s₁, rfl, hcalled⟩
      · next hmore =>
        rw [hrest, if_neg hmore] at htable
        have howned : owned (owners.filter fun o => o.1 ≠ c) sender = rest := by
          rw [owned_remove h.nodup hc, if_pos rfl, hrest]
        have hlen : (owned (owners.filter fun o => o.1 ≠ c) sender).length < rounds := by
          rw [howned]
          rw [hlist, List.length_cons] at hrounds
          omega
        obtain ⟨s', heq', hcalled'⟩ := ih hserved (by rw [htable]; exact hptr) hlen
        rw [howned] at hcalled'
        exact ⟨s', heq', hcalled.trans hcalled'⟩

/-- **A change of the owner of a name** destroys the contexts of a client that is gone. -/
theorem nameOwnerChanged_called (h : Served s owners) (serviceName oldName newName : Bytes) :
    ∃ s', s.nameOwnerChanged serviceName oldName newName = some s' ∧
      Called s s' (if oldName ≠ [] ∧ newName = [] then (owned owners serviceName).map fun c => .destroy c
        else []) := by
  unfold Ipc.nameOwnerChanged
  rcases h.watches_filter serviceName with ⟨hnone, hfilter⟩ | ⟨watch, hwatch, hname, hfilter⟩
  · have hnil : owned owners serviceName = [] := by
      rw [List.eq_nil_iff_forall_not_mem]
      intro c hc
      have hsome := h.table.lookup_isSome.mpr ⟨c, mem_owned.mp hc⟩
      rw [hnone] at hsome
      cases hsome
    rw [hfilter, hnil, List.map_nil, ite_self]
    exact ⟨s, rfl, .refl s⟩
  · rw [hfilter, List.foldlM_cons, callWatch, if_pos hwatch]
    simp only [List.foldlM_nil, bind_pure]
    unfold Ipc.watchName
    by_cases hgone : oldName ≠ [] ∧ newName = []
    · rw [if_pos hgone, if_neg (not_not.mpr ⟨List.length_pos_iff.mpr hgone.1, List.length_eq_zero_iff.mpr hgone.2⟩)]
      have hkey : serviceName ∈ Assoc.keys s.senderToIC := by
        rw [← h.table.watches]
        exact List.mem_map.mpr ⟨watch, hwatch, hname⟩
      cases hptr : s.senderToIC.lookup serviceName with
      | none => exact absurd hkey (Assoc.lookup_eq_none_iff.mp hptr)
      | some ptr =>
        obtain ⟨senderData, hdata, hics, -⟩ := h.table.entry _ ((Assoc.lookup_eq_some_iff h.table.keys).mp hptr)
        dsimp only at hdata ⊢
        rw [hdata]
        apply h.destroyAll_called ptr serviceName _ hptr
        rw [hics]
        exact Nat.lt_succ_self _
    · have hstays : ¬ (0 < oldName.length ∧ newName.length = 0) := by
        rintro ⟨hold, hnew⟩
        exact hgone ⟨List.length_pos_iff.mp hold, List.length_eq_zero_iff.mp hnew⟩
      rw [if_neg hgone, if_pos hstays]
      exact ⟨s, rfl, .refl s⟩

end Served

end Ipc
end Fcitx
