/-
# The tables of the contexts

Contexts are found by their id and by their uuid. Ids come from a 32-bit counter
that skips zero and may wrap, or from a freed record, which keeps its id; both
tables change together. What is live is what was returned and not destroyed
since, whatever the tables say.

Key definitions: `IcHistory`, `IcHistory.step`, `ContextTables`, `IcHistory.StepLaw`.
Key theorems: `step_sameNames`, `TablesInv.new`, `TablesInv.destroy`, `run_contextTables`.
-/
import Fcitx.InputContext.FocusRun

namespace Fcitx

open InputContextManager IcSystem

variable {V : Type}

/-! ### What leaves the tables alone -/

/-- `m'` has the contexts of `m`, under their ids and uuids. -/
structure SameNames (m m' : InputContextManager V) : Prop where
  ics : m'.ics = m.ics
  icsByUuid : m'.icsByUuid = m.icsByUuid
  freeList : m'.freeList = m.freeList
  ctxTop : m'.ctxTop = m.ctxTop
  id : ∀ c, (m'.ctx c).id = (m.ctx c).id
  uuid : ∀ c, (m'.ctx c).uuid = (m.ctx c).uuid

namespace SameNames

variable {m m' m'' : InputContextManager V}

theorem refl (m : InputContextManager V) : SameNames m m := ⟨rfl, rfl, rfl, rfl, fun _ => rfl, fun _ => rfl⟩

theorem trans (h : SameNames m m') (h' : SameNames m' m'') : SameNames m m'' where
  ics := h'.ics.trans h.ics
  icsByUuid := h'.icsByUuid.trans h.icsByUuid
  freeList := h'.freeList.trans h.freeList
  ctxTop := h'.ctxTop.trans h.ctxTop
  id c := (h'.id c).trans (h.id c)
  uuid c := (h'.uuid c).trans (h.uuid c)

end SameNames

section frames

variable {s s' t : IcSystem V} {c : ContextPtr}

theorem modify_sameNames (s : IcSystem V) (c : ContextPtr) {f : InputContext → InputContext}
    (hid : ∀ ic, (f ic).id = ic.id) (huuid : ∀ ic, (f ic).uuid = ic.uuid) :
    SameNames s.toInputContextManager (s.modify c f).toInputContextManager := by
  refine ⟨rfl, rfl, rfl, rfl, fun d => ?_, fun d => ?_⟩
  · rw [modify_ctx]
    split
    · next h => rw [h, hid]
    · rfl
  · rw [modify_ctx]
    split
    · next h => rw [h, huuid]
    · rfl

theorem SameNames.emit (h : SameNames t.toInputContextManager s.toInputContextManager) (type : EventType)
    (c : ContextPtr) (detail : EventDetail) :
    SameNames t.toInputContextManager (s.emit type c detail).toInputContextManager := by
  rw [emit_manager]
  exact h

theorem modify_emit_sameNames (s : IcSystem V) (c : ContextPtr) {f : InputContext → InputContext}
    (hid : ∀ ic, (f ic).id = ic.id) (huuid : ∀ ic, (f ic).uuid = ic.uuid) (type : EventType)
    (detail : EventDetail) :
    SameNames s.toInputContextManager ((s.modify c f).emit type c detail).toInputContextManager :=
  (modify_sameNames s c hid huuid).emit type c detail

theorem _focusIn_sameNames (s : IcSystem V) (c : ContextPtr) :
    SameNames s.toInputContextManager (s._focusIn c).toInputContextManager := by
  unfold _focusIn
  apply modify_emit_sameNames <;> exact fun _ => rfl

theorem _focusOut_sameNames (s : IcSystem V) (c : ContextPtr) :
    SameNames s.toInputContextManager (s._focusOut c).toInputContextManager := by
  unfold _focusOut
  apply modify_emit_sameNames <;> exact fun _ => rfl

theorem _groupSetFocus_sameNames (s : IcSystem V) (g : GroupPtr) (ic : Option ContextPtr) :
    SameNames s.toInputContextManager (s._groupSetFocus g ic).toInputContextManager := by
  have hset : SameNames s.toInputContextManager (s.setGroupFocus g ic).toInputContextManager :=
    ⟨rfl, rfl, rfl, rfl, fun _ => rfl, fun _ => rfl⟩
  unfold _groupSetFocus
  cases (s.group g).focus with
  | none =>
    cases ic with
    | none => exact hset
    | some c => exact hset.trans (_focusIn_sameNames _ c)
  | some old =>
    have hout := hset.trans (_focusOut_sameNames _ old)
    cases ic with
    | none => exact hout
    | some c => exact hout.trans (_focusIn_sameNames _ c)

theorem focusIn_sameNames (s : IcSystem V) (c : ContextPtr) :
    SameNames s.toInputContextManager (s.focusIn c).toInputContextManager := by
  unfold focusIn
  split
  · have hloop : SameNames s.toInputContextManager
        (Links.forEachEntry (fun s : IcSystem V => s.groupLinks) ()
          (fun g s => s._groupSetFocus g none) (s.groupTop + 1) s).toInputContextManager := by
      refine Links.forEachEntry_invariant
        (P := fun t : IcSystem V => SameNames s.toInputContextManager t.toInputContextManager) ?_ (.refl _)
      exact fun g t ht => ht.trans (_groupSetFocus_sameNames t g none)
    exact hloop.trans (_groupSetFocus_sameNames _ _ _)
  · split
    · exact (_groupSetFocus_sameNames _ _ _).trans (_groupSetFocus_sameNames _ _ _)
    · split
      · exact .refl _
      · exact _focusIn_sameNames s c

theorem focusOut_sameNames (s : IcSystem V) (c : ContextPtr) :
    SameNames s.toInputContextManager (s.focusOut c).toInputContextManager := by
  unfold focusOut
  split
  · split
    · exact _groupSetFocus_sameNames s _ none
    · exact .refl _
  · split
    · exact _focusOut_sameNames s c
    · exact .refl _

theorem relink_sameNames (s : IcSystem V) (c : ContextPtr) (group : Option GroupPtr) :
    SameNames s.toInputContextManager (s.relink c group).toInputContextManager := by
  have hlinks : ∀ links, SameNames s.toInputContextManager
      (({ s with contextLinks := links } : IcSystem V).modify c fun ic =>
        { ic with group := group }).toInputContextManager := by
    intro links
    have hset : SameNames s.toInputContextManager
        ({ s with contextLinks := links } : IcSystem V).toInputContextManager :=
      ⟨rfl, rfl, rfl, rfl, fun _ => rfl, fun _ => rfl⟩
    exact hset.trans (modify_sameNames _ c (fun _ => rfl) fun _ => rfl)
  unfold relink
  cases (s.ctx c).group <;> cases group <;> exact hlinks _

theorem _setFocusGroup_sameNames (s : IcSystem V) (c : ContextPtr) (group : Option GroupPtr) :
    SameNames s.toInputContextManager (s._setFocusGroup c group).toInputContextManager := by
  unfold _setFocusGroup
  split
  · exact .refl _
  · dsimp only
    split
    · exact ((focusOut_sameNames s c).trans (relink_sameNames _ c group)).trans (focusIn_sameNames _ c)
    · exact relink_sameNames s c group

/-- What is only about properties is no name. -/
theorem sameNames_of_rest (h : s'.withoutProperties = s.withoutProperties) :
    SameNames s.toInputContextManager s'.toInputContextManager := by
  have hbyUuid : s'.icsByUuid = s.icsByUuid := by
    have hrest := congrArg (fun t : IcSystem V => t.icsByUuid) h
    exact hrest
  exact ⟨rest_ics h, hbyUuid, rest_freeList h, rest_ctxTop h, fun c => by rw [rest_ctx h],
    fun c => by rw [rest_ctx h]⟩

theorem _destroy_sameNames (s : IcSystem V) (c : ContextPtr) :
    SameNames s.toInputContextManager (s._destroy c).toInputContextManager := by
  unfold _destroy
  set t := (s.emit .inputContextDestroyed c .none).notifyDestroy c with ht
  have hts : t.toInputContextManager = s.toInputContextManager := by simp [ht]
  have hfree : SameNames s.toInputContextManager
      (t.propertiesFree c (t.properties c).length).toInputContextManager := by
    rw [← hts]
    exact sameNames_of_rest (propertiesFree_rest c (t.properties c).length t)
  have hmodify : ∀ u : IcSystem V, SameNames u.toInputContextManager
      (u.modify c fun ic => { ic with surroundingText := none }).toInputContextManager :=
    fun u => modify_sameNames u c (fun _ => rfl) fun _ => rfl
  exact hfree.trans (hmodify _)

theorem deleteSurrounding_names (ic : InputContext) (offset : Int32) (length : UInt32) :
    (deleteSurrounding ic offset length).id = ic.id ∧ (deleteSurrounding ic offset length).uuid = ic.uuid := by
  unfold deleteSurrounding
  split
  · exact ⟨rfl, rfl⟩
  · dsimp only
    split <;> exact ⟨rfl, rfl⟩

/-- **Every other operation** leaves the tables alone. -/
theorem step_sameNames (s : IcSystem V) {op : IcOp V} (hnew : ∀ uuid frontend notify, op ≠ .new uuid frontend notify)
    (hdestroy : ∀ c, op ≠ .destroy c) :
    SameNames s.toInputContextManager (s.step op).toInputContextManager := by
  cases op with
  | new uuid frontend notify => exact absurd rfl (hnew uuid frontend notify)
  | destroy c => exact absurd rfl (hdestroy c)
  | focusGroupNew => exact ⟨rfl, rfl, rfl, rfl, fun _ => rfl, fun _ => rfl⟩
  | focusGroupFree g =>
    have hfree : ∀ t : IcSystem V, SameNames s.toInputContextManager t.toInputContextManager →
        SameNames s.toInputContextManager
          (Links.forEachEntrySafe (fun s : IcSystem V => s.contextLinks) g
            (fun entry s => s._setFocusGroup entry none) (t.ctxTop + 1) t).toInputContextManager := by
      intro t ht
      refine Links.forEachEntrySafe_invariant
        (P := fun t : IcSystem V => SameNames s.toInputContextManager t.toInputContextManager) ?_ ht
      exact fun entry t ht => ht.trans (_setFocusGroup_sameNames t entry none)
    simp only [IcSystem.step, focusGroupFree]
    split
    · exact hfree _ ⟨rfl, rfl, rfl, rfl, fun _ => rfl, fun _ => rfl⟩
    · exact hfree s (.refl _)
  | setFocusGroup c type group =>
    simp only [IcSystem.step, setFocusGroup]
    split
    · exact .refl _
    · exact _setFocusGroup_sameNames s c _
  | focusIn c => exact focusIn_sameNames s c
  | focusOut c => exact focusOut_sameNames s c
  | setCapabilityFlags c flags =>
    simp only [IcSystem.step, setCapabilityFlags]
    split
    · apply modify_emit_sameNames <;> exact fun _ => rfl
    · exact .refl _
  | setCursorRect c rect =>
    simp only [IcSystem.step, setCursorRect]
    split
    · apply modify_emit_sameNames <;> exact fun _ => rfl
    · exact .refl _
  | setSurroundingText c str cursor anchor =>
    simp only [IcSystem.step, setSurroundingText]
    split
    · exact .refl _
    · split
      · apply modify_emit_sameNames <;> exact fun _ => rfl
      · exact .refl _
  | deleteSurroundingText c offset length =>
    exact modify_emit_sameNames s c (fun ic => (deleteSurrounding_names ic offset length).1)
      (fun ic => (deleteSurrounding_names ic offset length).2) _ _
  | reset c => exact (SameNames.refl _).emit ..
  | commitString c str => exact (SameNames.refl _).emit ..
  | updatePreedit c => exact (SameNames.refl _).emit ..
  | forwardKey c key => exact (SameNames.refl _).emit ..
  | registerProperty name setProperty copyProperty =>
    exact sameNames_of_rest (registerProperty_rest s name setProperty copyProperty)
  | sharedStatePolicyNew propertyId propertyKey =>
    exact sameNames_of_rest (sharedStatePolicyNew_rest s propertyId propertyKey)
  | setSharedStatePolicy p => exact ⟨rfl, rfl, rfl, rfl, fun _ => rfl, fun _ => rfl⟩
  | setProperty c propertyId data => exact sameNames_of_rest (setProperty_rest s c propertyId data)

end frames

/-! ### The history of a manager -/

/-- The uuid that a new context is given. -/
def IcOp.uuid : IcOp V → Option Uuid
  | .new uuid _ _ => some uuid
  | _ => none

/-- A manager, and the contexts that it returned and that were not destroyed since. -/
structure IcHistory (V : Type) where
  sys : IcSystem V
  live : List ContextPtr

namespace IcHistory

/-- A new manager, with an event dispatcher or without. -/
def initial (dispatcher : Bool) : IcHistory V :=
  ⟨if dispatcher then IcSystem.initial else managerNew, []⟩

def step (s : IcHistory V) : IcOp V → IcHistory V
  | .new uuid frontend destroyNotify =>
    let (c, sys) := s.sys.new uuid frontend destroyNotify
    ⟨sys, s.live ++ c.toList⟩
  | .destroy c => ⟨s.sys.destroy c, s.live.erase c⟩
  | op => ⟨s.sys.step op, s.live⟩

/-- What an operation returns or leaves alone: destroying a context of the free
list changes nothing; a context that is returned was not live, and none is
returned only when the next id is taken. -/
def StepLaw (s : IcHistory V) : IcOp V → Prop
  | .destroy c => c ∈ s.sys.freeList → s.step (.destroy c) = s
  | .new uuid frontend destroyNotify =>
    match (s.sys.new uuid frontend destroyNotify).1 with
    | some c => c ∉ s.live
    | none => s.sys.freeList = [] ∧ ∃ c ∈ s.live, (s.sys.ctx c).id = nextId s.sys.icid
  | _ => True

end IcHistory

/-- The live contexts have different ids and uuids, and are what is found by
them; no id is zero, or also in the free list. -/
structure ContextTables (s : IcHistory V) : Prop where
  nodup : s.live.Nodup
  id_inj : ∀ c ∈ s.live, ∀ d ∈ s.live, (s.sys.ctx c).id = (s.sys.ctx d).id → c = d
  id_ne_zero : ∀ c ∈ s.live, (s.sys.ctx c).id ≠ 0
  id_ne_free : ∀ c ∈ s.live, ∀ d ∈ s.sys.freeList, (s.sys.ctx c).id ≠ (s.sys.ctx d).id
  get : ∀ id c, s.sys.getInputContext id = some c ↔ c ∈ s.live ∧ (s.sys.ctx c).id = id
  getByUuid : ∀ uuid c, s.sys.getInputContextByUuid uuid = some c ↔ c ∈ s.live ∧ (s.sys.ctx c).uuid = uuid

/-! ### The invariant -/

/-- The tables have the contexts `live`; their uuids are of the `used` ones. -/
structure TablesInv (m : InputContextManager V) (live : List ContextPtr) (used : List Uuid) : Prop where
  registry : Registry m
  ics : m.ics = live
  icsByUuid : m.icsByUuid = live
  id_ne_zero : ∀ c ∈ m.ics ++ m.freeList, (m.ctx c).id ≠ 0
  uuid_used : ∀ c ∈ live, (m.ctx c).uuid ∈ used
  uuid_inj : ∀ c ∈ live, ∀ d ∈ live, (m.ctx c).uuid = (m.ctx d).uuid → c = d

namespace TablesInv

variable {m m' : InputContextManager V} {s : IcSystem V} {live : List ContextPtr} {used : List Uuid}
  {c : ContextPtr} {uuid : Uuid}

theorem congr (h : TablesInv m live used) (hsame : SameNames m m') : TablesInv m' live used := by
  obtain ⟨hnd, hlt, hinj⟩ := h.registry
  refine ⟨⟨?_, ?_, ?_⟩, hsame.ics.trans h.ics, hsame.icsByUuid.trans h.icsByUuid, ?_, fun c hc => ?_, ?_⟩
  · rw [hsame.ics, hsame.freeList]
    exact hnd
  · rw [hsame.ics, hsame.freeList, hsame.ctxTop]
    exact hlt
  · intro c hc d hd
    rw [hsame.ics, hsame.freeList] at hc hd
    rw [hsame.id, hsame.id]
    exact hinj c hc d hd
  · intro c hc
    rw [hsame.ics, hsame.freeList] at hc
    rw [hsame.id]
    exact h.id_ne_zero c hc
  · rw [hsame.uuid]
    exact h.uuid_used c hc
  · intro c hc d hd
    rw [hsame.uuid, hsame.uuid]
    exact h.uuid_inj c hc d hd

theorem mono {used' : List Uuid} (h : TablesInv m live used) (hsub : ∀ uuid ∈ used, uuid ∈ used') :
    TablesInv m live used' :=
  { h with uuid_used := fun c hc => hsub _ (h.uuid_used c hc) }

/-- A context is found under its uuid, and nothing else is. -/
theorem getInputContextByUuid_eq (h : TablesInv m live used) :
    m.getInputContextByUuid uuid = some c ↔ c ∈ live ∧ (m.ctx c).uuid = uuid := by
  unfold getInputContextByUuid
  rw [h.icsByUuid]
  constructor
  · intro hf
    exact ⟨List.mem_of_find?_eq_some hf, by simpa using List.find?_some hf⟩
  · rintro ⟨hc, hu⟩
    cases hf : live.find? fun c => (m.ctx c).uuid = uuid with
    | none => exact absurd hu (by simpa using List.find?_eq_none.mp hf c hc)
    | some d =>
      have hd : (m.ctx d).uuid = uuid := by simpa using List.find?_some hf
      rw [h.uuid_inj d (List.mem_of_find?_eq_some hf) c hc (hd.trans hu.symm)]

theorem getInputContext_eq (h : TablesInv m live used) {id : UInt32} :
    m.getInputContext id = some c ↔ c ∈ live ∧ (m.ctx c).id = id := by
  rw [h.registry.getInputContext_eq, h.ics]

theorem contextTables {s : IcHistory V} (h : TablesInv s.sys.toInputContextManager s.live used) :
    ContextTables s := by
  have hics : ∀ c ∈ s.live, c ∈ s.sys.ics ++ s.sys.freeList := fun c hc => List.mem_append_left _ (h.ics ▸ hc)
  refine ⟨h.ics ▸ h.registry.ics_nodup, fun c hc d hd => h.registry.id_inj c (hics c hc) d (hics d hd),
    fun c hc => h.id_ne_zero c (hics c hc), fun c hc d hd he => ?_, fun _ _ => h.getInputContext_eq,
    fun _ _ => h.getInputContextByUuid_eq⟩
  have hcd := h.registry.id_inj c (hics c hc) d (List.mem_append_right _ hd) he
  exact h.registry.free_notMem hd (h.ics ▸ hcd ▸ hc)

theorem enroll_uuid (s : IcSystem V) (c d : ContextPtr) (id : UInt32) (uuid : Uuid)
    (frontend : UInt32) (notify : Bool) :
    ((s.enroll c id uuid frontend notify).ctx d).uuid = if d = c then uuid else (s.ctx d).uuid := by
  simp only [enroll, Function.update_apply]
  split <;> rfl

/-- A context enters the tables with a new uuid. -/
theorem enroll (h : TablesInv m live used) (hc : c ∉ live) (hics : s.ics = live) (hbyUuid : s.icsByUuid = live)
    (hctx : s.ctx = m.ctx) (hfree : ∀ d ∈ s.freeList, d ∈ m.freeList) {id : UInt32} {frontend : UInt32}
    {notify : Bool} (hreg : Registry (s.enroll c id uuid frontend notify).toInputContextManager) (hid : id ≠ 0)
    (huuid : uuid ∉ used) :
    TablesInv (s.enroll c id uuid frontend notify).toInputContextManager (live ++ [c]) (uuid :: used) := by
  have hne : ∀ d ∈ live, d ≠ c := fun d hd e => hc (e ▸ hd)
  have hfresh : ∀ d ∈ live, (s.ctx d).uuid ≠ uuid := by
    intro d hd e
    rw [hctx] at e
    exact huuid (e ▸ h.uuid_used d hd)
  refine ⟨hreg, congrArg (· ++ [c]) hics, congrArg (· ++ [c]) hbyUuid, fun d hd => ?_, fun d hd => ?_,
    fun d hd e he hde => ?_⟩
  · rw [enroll_id]
    split
    · exact hid
    · next hdc =>
      have hd' : d ∈ s.ics ++ [c] ++ s.freeList := hd
      rw [hctx]
      refine h.id_ne_zero d ?_
      rw [List.mem_append, List.mem_append, List.mem_singleton, hics] at hd'
      rw [List.mem_append, h.ics]
      rcases hd' with (hd' | hd') | hd'
      · exact Or.inl hd'
      · exact absurd hd' hdc
      · exact Or.inr (hfree d hd')
  · rw [enroll_uuid]
    rcases List.mem_append.mp hd with hd | hd
    · rw [if_neg (hne d hd), hctx]
      exact List.mem_cons_of_mem uuid (h.uuid_used d hd)
    · rw [if_pos (List.mem_singleton.mp hd)]
      exact List.mem_cons_self
  · rw [enroll_uuid, enroll_uuid] at hde
    rcases List.mem_append.mp hd with hd | hd <;> rcases List.mem_append.mp he with he | he
    · rw [if_neg (hne d hd), if_neg (hne e he), hctx] at hde
      exact h.uuid_inj d hd e he hde
    · rw [if_neg (hne d hd), if_pos (List.mem_singleton.mp he)] at hde
      exact absurd hde (hfresh d hd)
    · rw [if_pos (List.mem_singleton.mp hd), if_neg (hne e he)] at hde
      exact absurd hde.symm (hfresh e he)
    · rw [List.mem_singleton.mp hd, List.mem_singleton.mp he]

theorem nextId_ne_zero (icid : UInt32) : nextId icid ≠ 0 := by
  rw [nextId]
  split
  · next h =>
    intro h2
    have h1 : icid + 2 = icid + 1 + 1 := by rw [UInt32.add_assoc]; rfl
    rw [h1, h] at h2
    exact absurd h2 (by decide)
  · next h => exact h

/-- **Making a context**: it comes from the free list, or from the counter unless
the id is taken. -/
theorem new (h : TablesInv s.toInputContextManager live used) (huuid : uuid ∉ used) (frontend : UInt32)
    (notify : Bool) :
    TablesInv (s.new uuid frontend notify).2.toInputContextManager
        (live ++ (s.new uuid frontend notify).1.toList) (uuid :: used) ∧
      match (s.new uuid frontend notify).1 with
      | some c => c ∉ live
      | none => s.freeList = [] ∧ ∃ c ∈ live, (s.ctx c).id = nextId s.icid := by
  unfold IcSystem.new
  split
  · next c rest hfree =>
    have hcfree : c ∈ s.freeList := hfree ▸ List.mem_cons_self
    have hc : c ∉ live := h.ics ▸ h.registry.free_notMem hcfree
    refine ⟨?_, hc⟩
    dsimp only
    rw [emit_manager]
    exact h.enroll (s := { s with freeList := rest }) hc h.ics h.icsByUuid rfl
      (fun d hd => hfree ▸ List.mem_cons_of_mem c hd) (h.registry.reuse hfree uuid frontend notify)
      (h.id_ne_zero c (List.mem_append_right _ hcfree)) huuid
  · next hfree =>
    dsimp only
    split
    · next htaken =>
      refine ⟨?_, hfree, ?_⟩
      · rw [Option.toList_none, List.append_nil]
        have hsame : SameNames s.toInputContextManager
            ({ s with icid := nextId s.icid } : IcSystem V).toInputContextManager :=
          ⟨rfl, rfl, rfl, rfl, fun _ => rfl, fun _ => rfl⟩
        exact (h.congr hsame).mono fun u hu => List.mem_cons_of_mem uuid hu
      · obtain ⟨c, hc⟩ := Option.isSome_iff_exists.mp htaken
        have hget : s.getInputContext (nextId s.icid) = some c := hc
        exact ⟨c, h.getInputContext_eq.mp hget⟩
    · next hnew =>
      have hnone : s.getInputContext (nextId s.icid) = none := Option.not_isSome_iff_eq_none.mp hnew
      have hc : s.ctxTop ∉ live := fun hm =>
        absurd (h.registry.ics_lt (h.ics ▸ hm)) (Nat.lt_irrefl _)
      refine ⟨?_, hc⟩
      dsimp only
      rw [emit_manager]
      exact h.enroll (s := { s with icid := nextId s.icid, ctxTop := s.ctxTop + 1 }) hc h.ics h.icsByUuid rfl
        (fun d hd => hd) (h.registry.allocate hfree hnone uuid frontend notify) (nextId_ne_zero s.icid) huuid

/-- What is not live is not destroyed. -/
theorem destroy_eq (h : TablesInv s.toInputContextManager live used) (hc : c ∉ live) : s.destroy c = s := by
  rw [IcSystem.destroy, if_pos]
  exact fun hget => hc (h.getInputContext_eq.mp hget).1

/-- **Destroying a context** moves it from the tables to the free list. -/
theorem destroy (h : TablesInv s.toInputContextManager live used) (c : ContextPtr) :
    TablesInv (s.destroy c).toInputContextManager (live.erase c) used := by
  by_cases hc : c ∈ live
  · have hget : s.getInputContext (s.ctx c).id = some c := h.getInputContext_eq.mpr ⟨hc, rfl⟩
    have hsame := ((focusOut_sameNames s c).trans (_setFocusGroup_sameNames _ c none)).trans
      (_destroy_sameNames _ c)
    have ht := h.congr hsame
    rw [IcSystem.destroy, if_neg fun hne => hne hget]
    dsimp only
    generalize ((s.focusOut c)._setFocusGroup c none)._destroy c = t at ht ⊢
    have hct : c ∈ t.ics := ht.ics ▸ hc
    have hmem : ∀ d ∈ live.erase c, d ∈ live := fun d hd => List.mem_of_mem_erase hd
    refine ⟨ht.registry.unenroll hct, congrArg (List.erase · c) ht.ics, congrArg (List.erase · c) ht.icsByUuid,
      fun d hd => ht.id_ne_zero d ?_, fun d hd => ht.uuid_used d (hmem d hd),
      fun d hd e he => ht.uuid_inj d (hmem d hd) e (hmem e he)⟩
    have hd' : d ∈ t.ics.erase c ++ c :: t.freeList := hd
    rw [List.mem_append, List.mem_cons] at hd'
    rcases hd' with hd' | rfl | hd'
    · exact List.mem_append_left _ (List.mem_of_mem_erase hd')
    · exact List.mem_append_left _ hct
    · exact List.mem_append_right _ hd'
  · rw [h.destroy_eq hc, List.erase_of_not_mem hc]
    exact h

/-- **Every operation** keeps the tables right, and does what it should. -/
theorem step {s : IcHistory V} (h : TablesInv s.sys.toInputContextManager s.live used) (op : IcOp V)
    (huuid : ∀ uuid ∈ op.uuid, uuid ∉ used) :
    TablesInv (s.step op).sys.toInputContextManager (s.step op).live (op.uuid.toList ++ used) ∧ s.StepLaw op := by
  have hother : (∀ uuid frontend notify, op ≠ .new uuid frontend notify) → (∀ c, op ≠ .destroy c) →
      TablesInv (s.sys.step op).toInputContextManager s.live used :=
    fun hnew hdestroy => h.congr (step_sameNames s.sys hnew hdestroy)
  cases op with
  | new uuid frontend notify => exact h.new (huuid uuid rfl) frontend notify
  | destroy c =>
    refine ⟨h.destroy c, fun hfree => ?_⟩
    have hc : c ∉ s.live := h.ics ▸ h.registry.free_notMem hfree
    rw [IcHistory.step, h.destroy_eq hc, List.erase_of_not_mem hc]
  | focusGroupNew => exact ⟨hother (by simp) (by simp), trivial⟩
  | focusGroupFree g => exact ⟨hother (by simp) (by simp), trivial⟩
  | setFocusGroup c type group => exact ⟨hother (by simp) (by simp), trivial⟩
  | focusIn c => exact ⟨hother (by simp) (by simp), trivial⟩
  | focusOut c => exact ⟨hother (by simp) (by simp), trivial⟩
  | setCapabilityFlags c flags => exact ⟨hother (by simp) (by simp), trivial⟩
  | setCursorRect c rect => exact ⟨hother (by simp) (by simp), trivial⟩
  | setSurroundingText c str cursor anchor => exact ⟨hother (by simp) (by simp), trivial⟩
  | deleteSurroundingText c offset length => exact ⟨hother (by simp) (by simp), trivial⟩
  | reset c => exact ⟨hother (by simp) (by simp), trivial⟩
  | commitString c str => exact ⟨hother (by simp) (by simp), trivial⟩
  | updatePreedit c => exact ⟨hother (by simp) (by simp), trivial⟩
  | forwardKey c key => exact ⟨hother (by simp) (by simp), trivial⟩
  | registerProperty name setProperty copyProperty => exact ⟨hother (by simp) (by simp), trivial⟩
  | sharedStatePolicyNew propertyId propertyKey => exact ⟨hother (by simp) (by simp), trivial⟩
  | setSharedStatePolicy p => exact ⟨hother (by simp) (by simp), trivial⟩
  | setProperty c propertyId data => exact ⟨hother (by simp) (by simp), trivial⟩

theorem initial (dispatcher : Bool) :
    TablesInv (IcHistory.initial (V := V) dispatcher).sys.toInputContextManager
      (IcHistory.initial (V := V) dispatcher).live [] := by
  cases dispatcher <;>
    exact ⟨⟨List.nodup_nil, fun _ hc => absurd hc List.not_mem_nil, fun _ hc => absurd hc List.not_mem_nil⟩, rfl, rfl,
      fun _ hc => absurd hc List.not_mem_nil, fun _ hc => absurd hc List.not_mem_nil,
      fun _ hc => absurd hc List.not_mem_nil⟩

end TablesInv

/-- The invariant after a run, with the uuids that it used. -/
theorem TablesInv.exec {s : IcHistory V} {used : List Uuid} (ops : List (IcOp V))
    (h : TablesInv s.sys.toInputContextManager s.live used) (hnd : (ops.filterMap IcOp.uuid).Nodup)
    (hfresh : ∀ uuid ∈ ops.filterMap IcOp.uuid, uuid ∉ used) :
    TablesInv (Run.exec IcHistory.step s ops).sys.toInputContextManager (Run.exec IcHistory.step s ops).live
      ((ops.filterMap IcOp.uuid).reverse ++ used) := by
  induction ops generalizing s used with
  | nil => exact h
  | cons op ops ih =>
    cases hop : op.uuid with
    | none =>
      rw [List.filterMap_cons_none hop] at hnd hfresh ⊢
      have hstep := (h.step op (by simp [hop])).1
      rw [hop, Option.toList_none, List.nil_append] at hstep
      exact ih hstep hnd hfresh
    | some uuid =>
      rw [List.filterMap_cons_some hop] at hnd hfresh ⊢
      obtain ⟨hnotMem, hnd⟩ := List.nodup_cons.mp hnd
      have hstep := (h.step op (by simp [hop, hfresh uuid List.mem_cons_self])).1
      rw [hop, Option.toList_some, List.singleton_append] at hstep
      rw [List.reverse_cons, List.append_assoc, List.singleton_append]
      refine ih hstep hnd fun u hu => ?_
      rw [List.mem_cons, not_or]
      exact ⟨fun e => hnotMem (e ▸ hu), hfresh u (List.mem_cons_of_mem uuid hu)⟩

/-- **The tables of the contexts are right** after every run whose new contexts
have different uuids, and every step does what it should. -/
theorem run_contextTables (dispatcher : Bool) (ops : List (IcOp V)) (huuid : (ops.filterMap IcOp.uuid).Nodup) :
    ContextTables (Run.exec IcHistory.step (.initial dispatcher) ops) ∧
      ∀ before op after, ops = before ++ op :: after →
        (Run.exec IcHistory.step (.initial dispatcher) before).StepLaw op := by
  refine ⟨?_, ?_⟩
  · have hinv := (TablesInv.initial dispatcher).exec ops huuid fun _ _ => List.not_mem_nil
    exact hinv.contextTables
  · rintro before op after rfl
    rw [List.filterMap_append, List.nodup_append] at huuid
    have hinv := (TablesInv.initial dispatcher).exec before huuid.1 fun _ _ => List.not_mem_nil
    refine (hinv.step op fun uuid hop hused => ?_).2
    rw [List.append_nil, List.mem_reverse] at hused
    refine huuid.2.2 uuid hused uuid ?_ rfl
    rw [List.filterMap_cons_some hop]
    exact List.mem_cons_self

/-- A context is destroyed twice, and its record is used again. -/
theorem run_contextTables_again :
    ContextTables (Run.exec IcHistory.step (.initial true)
        ([.new 1 0 true, .new 2 0 false, .destroy 0, .destroy 0, .new 3 0 false] : List (IcOp Unit))) ∧
      ∀ before op after,
        ([.new 1 0 true, .new 2 0 false, .destroy 0, .destroy 0, .new 3 0 false] : List (IcOp Unit)) =
            before ++ op :: after →
          (Run.exec IcHistory.step (.initial true) before).StepLaw op :=
  run_contextTables true _ (by decide)

end Fcitx
