/-
# What a destroy notification finds

Between the call of `fcitx_input_context_destroy` and the notification of the
context's owner only events are dispatched: the owner finds the properties, ids
and tables as they were. Making a context and destroying one leave the
properties of the others alone.

Key definitions: `EventsOnly`, `NoticeTo`.
Key theorems: `IcInv.destroy_notice`, `IcInv.destroy_frame`, `IcInv.new_frame`.
-/
import Fcitx.InputContext.ContextTables
import Fcitx.InputContext.StoredValue

namespace Fcitx

open InputContextManager IcSystem

variable {V : Type} {s s' s'' : IcSystem V} {c d : ContextPtr}

/-- `s'` is `s` after some events; whether a context's owner is told stays. -/
structure EventsOnly (s s' : IcSystem V) : Prop where
  destroyNotify : ∀ c, (s'.ctx c).destroyNotify = (s.ctx c).destroyNotify
  trace : ∃ emitted : List (Emitted V), s'.trace = s.trace ++ emitted ∧
    ∀ e ∈ emitted, ∃ event, e.call = .event event

namespace EventsOnly

theorem of_trace (hctx : ∀ c, (s'.ctx c).destroyNotify = (s.ctx c).destroyNotify) (htrace : s'.trace = s.trace) :
    EventsOnly s s' :=
  ⟨hctx, [], by rw [htrace, List.append_nil], fun e he => absurd he List.not_mem_nil⟩

theorem refl (s : IcSystem V) : EventsOnly s s := of_trace (fun _ => rfl) rfl

theorem trans (h : EventsOnly s s') (h' : EventsOnly s' s'') : EventsOnly s s'' := by
  obtain ⟨emitted, htrace, hevents⟩ := h.trace
  obtain ⟨emitted', htrace', hevents'⟩ := h'.trace
  refine ⟨fun c => (h'.destroyNotify c).trans (h.destroyNotify c), emitted ++ emitted', ?_, fun e he => ?_⟩
  · rw [htrace', htrace, List.append_assoc]
  · rcases List.mem_append.mp he with he | he
    · exact hevents e he
    · exact hevents' e he

theorem emit (s : IcSystem V) (type : EventType) (c : ContextPtr) (detail : EventDetail) :
    EventsOnly s (s.emit type c detail) := by
  unfold IcSystem.emit
  split
  · refine ⟨fun _ => rfl, _, rfl, fun e he => ?_⟩
    obtain rfl := List.mem_singleton.mp he
    exact ⟨_, rfl⟩
  · exact refl s

theorem modify (s : IcSystem V) (c : ContextPtr) {f : InputContext → InputContext}
    (hf : ∀ ic, (f ic).destroyNotify = ic.destroyNotify) : EventsOnly s (s.modify c f) := by
  refine of_trace (fun d => ?_) rfl
  rw [modify_ctx]
  split
  · next h => rw [h, hf]
  · rfl

theorem modify_emit (s : IcSystem V) (c : ContextPtr) {f : InputContext → InputContext}
    (hf : ∀ ic, (f ic).destroyNotify = ic.destroyNotify) (type : EventType) (detail : EventDetail) :
    EventsOnly s ((s.modify c f).emit type c detail) :=
  (modify s c hf).trans (emit _ type c detail)

theorem _focusIn (s : IcSystem V) (c : ContextPtr) : EventsOnly s (s._focusIn c) := by
  unfold IcSystem._focusIn
  apply modify_emit
  exact fun _ => rfl

theorem _focusOut (s : IcSystem V) (c : ContextPtr) : EventsOnly s (s._focusOut c) := by
  unfold IcSystem._focusOut
  apply modify_emit
  exact fun _ => rfl

theorem _groupSetFocus (s : IcSystem V) (g : GroupPtr) (ic : Option ContextPtr) :
    EventsOnly s (s._groupSetFocus g ic) := by
  have hset : EventsOnly s (s.setGroupFocus g ic) := of_trace (fun _ => rfl) rfl
  unfold IcSystem._groupSetFocus
  cases (s.group g).focus with
  | none =>
    cases ic with
    | none => exact hset
    | some c => exact hset.trans (_focusIn _ c)
  | some old =>
    have hout := hset.trans (_focusOut _ old)
    cases ic with
    | none => exact hout
    | some c => exact hout.trans (_focusIn _ c)

theorem focusIn (s : IcSystem V) (c : ContextPtr) : EventsOnly s (s.focusIn c) := by
  unfold IcSystem.focusIn
  split
  · have hloop : EventsOnly s (Links.forEachEntry (fun s : IcSystem V => s.groupLinks) ()
        (fun g s => s._groupSetFocus g none) (s.groupTop + 1) s) :=
      Links.forEachEntry_invariant (P := fun t : IcSystem V => EventsOnly s t)
        (fun g t ht => ht.trans (_groupSetFocus t g none)) (refl s)
    exact hloop.trans (_groupSetFocus _ _ _)
  · split
    · exact (_groupSetFocus s _ _).trans (_groupSetFocus _ _ _)
    · split
      · exact refl s
      · exact _focusIn s c

theorem focusOut (s : IcSystem V) (c : ContextPtr) : EventsOnly s (s.focusOut c) := by
  unfold IcSystem.focusOut
  split
  · split
    · exact _groupSetFocus s _ none
    · exact refl s
  · split
    · exact _focusOut s c
    · exact refl s

theorem relink (s : IcSystem V) (c : ContextPtr) (group : Option GroupPtr) : EventsOnly s (s.relink c group) := by
  have hlinks : ∀ links, EventsOnly s (({ s with contextLinks := links } : IcSystem V).modify c fun ic =>
      { ic with group := group }) := by
    intro links
    have hset : EventsOnly s ({ s with contextLinks := links } : IcSystem V) := of_trace (fun _ => rfl) rfl
    refine hset.trans (modify _ c ?_)
    exact fun _ => rfl
  unfold IcSystem.relink
  cases (s.ctx c).group <;> cases group <;> exact hlinks _

theorem _setFocusGroup (s : IcSystem V) (c : ContextPtr) (group : Option GroupPtr) :
    EventsOnly s (s._setFocusGroup c group) := by
  unfold IcSystem._setFocusGroup
  split
  · exact refl s
  · dsimp only
    split
    · exact ((focusOut s c).trans (relink _ c group)).trans (focusIn _ c)
    · exact relink s c group

theorem setFocusGroup (s : IcSystem V) (c : ContextPtr) (type : FocusGroupType) (group : Option GroupPtr) :
    EventsOnly s (s.setFocusGroup c type group) := by
  unfold IcSystem.setFocusGroup
  split
  · exact refl s
  · exact _setFocusGroup s c _

end EventsOnly

/-! ### The properties of the other contexts -/

theorem propertyFree_properties (s : IcSystem V) (c : ContextPtr) (i : ℕ) :
    (s.propertyFree c i).properties = s.properties := by
  unfold propertyFree
  split
  · rfl
  · split
    · exact leaveHead_properties s c i _ _
    · rfl

theorem propertyFree_slots (s : IcSystem V) (c : ContextPtr) (i : ℕ) :
    (s.propertyFree c i).propertySlots = s.propertySlots := by
  unfold propertyFree
  split
  · rfl
  · split
    · exact leaveHead_slots s c i _ _
    · rfl

/-- Freeing the entries of a context empties its array and touches no other. -/
theorem propertiesFree_properties (c : ContextPtr) (n : ℕ) (s : IcSystem V) :
    (s.propertiesFree c n).properties = Function.update s.properties c [] ∧
      (s.propertiesFree c n).propertySlots = s.propertySlots := by
  induction n generalizing s with
  | zero => exact ⟨rfl, rfl⟩
  | succ n ih =>
    obtain ⟨hproperties, hslots⟩ := ih (s.propertyFree c n)
    rw [propertyFree_properties] at hproperties
    rw [propertyFree_slots] at hslots
    exact ⟨hproperties, hslots⟩

/-- The entries of the other contexts, and the slots, are those of `s`. -/
structure OthersKept (c : ContextPtr) (s s' : IcSystem V) : Prop where
  property : ∀ d, d ≠ c → s'.property d = s.property d
  slots : s'.propertySlots = s.propertySlots

theorem _destroy_others (s : IcSystem V) (c : ContextPtr) : OthersKept c s (s._destroy c) := by
  set t := (s.emit .inputContextDestroyed c .none).notifyDestroy c with ht
  have hts : t.toInputContextManager = s.toInputContextManager := by simp [ht]
  obtain ⟨hproperties, hslots⟩ := propertiesFree_properties c (t.properties c).length t
  refine ⟨fun d hd => ?_, ?_⟩
  · funext j
    show (((t.propertiesFree c (t.properties c).length).properties d)[j]?).join = _
    rw [hproperties, Function.update_of_ne hd, hts]
    rfl
  · show (t.propertiesFree c (t.properties c).length).propertySlots = _
    rw [hslots, hts]

/-! ### The notification -/

/-- The calls of destroying `c`: events, and the notification to its owner, who finds the
manager `m`. -/
structure NoticeTo (s : IcSystem V) (c : ContextPtr) (m : InputContextManager V) : Prop where
  shared : SameShared s.toInputContextManager m
  id : ∀ d, (m.ctx d).id = (s.ctx d).id
  trace : ∃ emitted : List (Emitted V), (s.destroy c).trace = s.trace ++ emitted ++ [⟨.destroyNotify c, m⟩] ∧
    ∀ e ∈ emitted, ∃ event, e.call = .event event

variable {Φ : IcSystem V → Prop} {gs : List GroupPtr} {L : GroupPtr → List ContextPtr}

theorem IcInv.destroy_notice (h : IcInv Φ s gs L) (hc : c ∈ s.ics) (hnotify : (s.ctx c).destroyNotify = true) :
    ∃ m, NoticeTo s c m := by
  set t := ((s.focusOut c)._setFocusGroup c none).emit .inputContextDestroyed c .none with ht
  have hevents : EventsOnly s t :=
    ((EventsOnly.focusOut s c).trans (EventsOnly._setFocusGroup _ c none)).trans (EventsOnly.emit _ _ c _)
  have hshared : SameShared s.toInputContextManager t.toInputContextManager :=
    ((s.focusOut_sameShared c).trans (_setFocusGroup_sameShared _ c none)).trans (emit_sameShared _ _ c _)
  have hnames : SameNames s.toInputContextManager t.toInputContextManager :=
    ((focusOut_sameNames s c).trans (_setFocusGroup_sameNames _ c none)).emit _ c _
  obtain ⟨emitted, htrace, hall⟩ := hevents.trace
  refine ⟨t.toInputContextManager, hshared, hnames.id, emitted, ?_, hall⟩
  have hdestroy : (s.destroy c).trace = (t.notifyDestroy c).trace := by
    rw [h.destroy_eq hc]
    exact (_destroy_spec _ c).2.2.2
  rw [hdestroy, notifyDestroy_trace, hevents.destroyNotify, if_pos hnotify, htrace]

/-- What destroying a context leaves of the others. -/
structure DestroyFrame (s s' : IcSystem V) (c : ContextPtr) : Prop where
  ics : s'.ics = s.ics.erase c
  others : OthersKept c s s'
  id : ∀ d, (s'.ctx d).id = (s.ctx d).id
  destroyNotify : ∀ d, (s'.ctx d).destroyNotify = (s.ctx d).destroyNotify

theorem IcInv.destroy_frame (h : IcInv Φ s gs L) (hc : c ∈ s.ics) : DestroyFrame s (s.destroy c) c := by
  set t := (s.focusOut c)._setFocusGroup c none with ht
  have hshared : SameShared s.toInputContextManager t.toInputContextManager :=
    (s.focusOut_sameShared c).trans (_setFocusGroup_sameShared _ c none)
  have hevents : EventsOnly s t := (EventsOnly.focusOut s c).trans (EventsOnly._setFocusGroup _ c none)
  have hnames : SameNames s.toInputContextManager (t._destroy c).toInputContextManager :=
    ((focusOut_sameNames s c).trans (_setFocusGroup_sameNames _ c none)).trans (_destroy_sameNames t c)
  have hothers := _destroy_others t c
  rw [h.destroy_eq hc]
  refine ⟨?_, ⟨fun d hd => ?_, ?_⟩, hnames.id, fun d => ?_⟩
  · show (t._destroy c).ics.erase c = _
    rw [hnames.ics]
  · show (t._destroy c).property d = _
    rw [hothers.property d hd, hshared.property]
  · show (t._destroy c).propertySlots = _
    rw [hothers.slots, hshared.propertySlots]
  · show ((t._destroy c).ctx d).destroyNotify = _
    unfold _destroy
    rw [modify_ctx, rest_ctx (propertiesFree_rest c _ _), notifyDestroy_manager, emit_manager]
    split
    · next e =>
      rw [e]
      exact hevents.destroyNotify c
    · exact hevents.destroyNotify d

/-- What making a context leaves of the others. -/
structure NewFrame (s s' : IcSystem V) (c : ContextPtr) (notify : Bool) : Prop where
  fresh : c ∉ s.ics
  ics : s'.ics = s.ics ++ [c]
  others : OthersKept c s s'
  id : ∀ d, d ≠ c → (s'.ctx d).id = (s.ctx d).id
  destroyNotify : ∀ d, (s'.ctx d).destroyNotify = if d = c then notify else (s.ctx d).destroyNotify

theorem enroll_frame (s : IcSystem V) (hc : c ∉ s.ics) (id : UInt32) (uuid : Uuid) (frontend : UInt32)
    (notify : Bool) (type : EventType) (detail : EventDetail) :
    NewFrame s ((s.enroll c id uuid frontend notify).emit type c detail) c notify := by
  refine ⟨hc, ?_, ⟨fun d hd => ?_, ?_⟩, fun d hd => ?_, fun d => ?_⟩
  · rw [emit_manager]
    rfl
  · funext j
    rw [emit_manager]
    simp only [InputContextManager.property, enroll, Function.update_of_ne hd]
  · rw [emit_manager]
    rfl
  · rw [emit_manager]
    simp only [enroll, Function.update_of_ne hd]
  · rw [emit_manager]
    simp only [enroll, Function.update_apply]
    split <;> rfl

theorem IcInv.new_frame (h : IcInv Φ s gs L) {uuid : Uuid} {frontend : UInt32} {notify : Bool}
    (hnew : (s.new uuid frontend notify).1 = some c) :
    NewFrame s (s.new uuid frontend notify).2 c notify := by
  unfold IcSystem.new at hnew ⊢
  split at hnew
  · next d rest hfree =>
    obtain rfl : d = c := Option.some.inj hnew
    have hd : d ∉ s.ics := h.registry.free_notMem (hfree ▸ List.mem_cons_self)
    have hframe := enroll_frame ({ s with freeList := rest } : IcSystem V) hd (s.ctx d).id uuid frontend
      notify .inputContextCreated .none
    exact ⟨hframe.fresh, hframe.ics, ⟨hframe.others.property, hframe.others.slots⟩, hframe.id,
      hframe.destroyNotify⟩
  · dsimp only at hnew ⊢
    split at hnew
    · cases hnew
    · next hid =>
      rw [if_neg hid]
      obtain rfl : s.ctxTop = c := Option.some.inj hnew
      have htop : s.ctxTop ∉ s.ics := fun hm => absurd (h.registry.ics_lt hm) (Nat.lt_irrefl _)
      have hframe := enroll_frame
        ({ s with icid := nextId s.icid, ctxTop := s.ctxTop + 1 } : IcSystem V) htop (nextId s.icid) uuid
        frontend notify .inputContextCreated .none
      exact ⟨hframe.fresh, hframe.ics, ⟨hframe.others.property, hframe.others.slots⟩, hframe.id,
        hframe.destroyNotify⟩

end Fcitx
