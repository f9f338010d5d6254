/-
# Focus over whole runs

`IcInv` holds of a new manager and every operation keeps it: the contexts and
the free list share no address and no id, the local groups are the entries of
the manager's list, and the focus records agree. From there on the focus laws
hold after every run, and at every call the manager makes on the way.

Key definitions: `Registry`, `IcInv`, `FocusLaws`.
Key theorems: `Registry.getInputContext_eq`, `IcInv.step`, `run_inv`,
`focusLaws_run`.
-/
import Fcitx.InputContext.Membership
import Fcitx.InputContext.PropertyFrame

namespace Fcitx

open InputContextManager IcSystem

variable {V : Type}

/-! ### The tables of the manager -/

/-- The contexts in use and the free ones are different cells below `ctxTop`,
and no two of them have one id. -/
structure Registry (m : InputContextManager V) : Prop where
  nodup : (m.ics ++ m.freeList).Nodup
  lt : ∀ c ∈ m.ics ++ m.freeList, c < m.ctxTop
  id_inj : ∀ c ∈ m.ics ++ m.freeList, ∀ d ∈ m.ics ++ m.freeList,
    (m.ctx c).id = (m.ctx d).id → c = d

namespace Registry

variable {m m' : InputContextManager V} {c : ContextPtr}

theorem congr (h : Registry m) (hsame : SameTables m m') : Registry m' := by
  refine ⟨?_, ?_, ?_⟩
  · rw [hsame.ics, hsame.freeList]
    exact h.nodup
  · rw [hsame.ics, hsame.freeList, hsame.ctxTop]
    exact h.lt
  · intro c hc d hd
    rw [hsame.ics, hsame.freeList] at hc hd
    rw [hsame.id, hsame.id]
    exact h.id_inj c hc d hd

theorem ics_nodup (h : Registry m) : m.ics.Nodup := (List.nodup_append.mp h.nodup).1

theorem ics_lt (h : Registry m) (hc : c ∈ m.ics) : c < m.ctxTop := h.lt c (List.mem_append_left _ hc)

theorem free_notMem (h : Registry m) (hc : c ∈ m.freeList) : c ∉ m.ics :=
  fun hm => (List.nodup_append.mp h.nodup).2.2 c hm c hc rfl

/-- A context is found under its id, and nothing else is. -/
theorem getInputContext_eq (h : Registry m) {id : UInt32} :
    m.getInputContext id = some c ↔ c ∈ m.ics ∧ (m.ctx c).id = id := by
  unfold getInputContext
  constructor
  · intro hf
    exact ⟨List.mem_of_find?_eq_some hf, by simpa using List.find?_some hf⟩
  · rintro ⟨hc, rfl⟩
    cases hf : m.ics.find? fun d => decide ((m.ctx d).id = (m.ctx c).id) with
    | none =>
      have := List.find?_eq_none.mp hf c hc
      simp at this
    | some d =>
      have hid : (m.ctx d).id = (m.ctx c).id := by simpa using List.find?_some hf
      rw [h.id_inj d (List.mem_append_left _ (List.mem_of_find?_eq_some hf)) c
        (List.mem_append_left _ hc) hid]

end Registry

theorem IcSystem.enroll_id (s : IcSystem V) (c d : ContextPtr) (id : UInt32) (uuid : Uuid)
    (frontend : UInt32) (notify : Bool) :
    ((s.enroll c id uuid frontend notify).ctx d).id = if d = c then id else (s.ctx d).id := by
  simp only [enroll, Function.update_apply]
  split <;> rfl

namespace Registry

variable {s : IcSystem V} {c : ContextPtr}

/-- A freed context keeps its id. -/
theorem reuse (h : Registry s.toInputContextManager) {rest : List ContextPtr}
    (hfree : s.freeList = c :: rest) (uuid : Uuid) (frontend : UInt32) (notify : Bool) :
    Registry (IcSystem.enroll { s with freeList := rest } c (s.ctx c).id uuid frontend
      notify).toInputContextManager := by
  have hperm : ((s.ics ++ [c]) ++ rest).Perm (s.ics ++ s.freeList) := by
    rw [hfree, List.append_assoc]
    exact .refl _
  have hid : ∀ d, ((IcSystem.enroll { s with freeList := rest } c (s.ctx c).id uuid frontend
      notify).ctx d).id = (s.ctx d).id := by
    intro d
    rw [IcSystem.enroll_id]
    split
    · next e => rw [e]
    · rfl
  refine ⟨hperm.nodup_iff.mpr h.nodup, fun d hd => h.lt d (hperm.subset hd), fun d hd e he hde => ?_⟩
  rw [hid, hid] at hde
  exact h.id_inj d (hperm.subset hd) e (hperm.subset he) hde

/-- A new context has an id that no live one has. -/
theorem allocate (hreg : Registry s.toInputContextManager) (hfree : s.freeList = []) {newid : UInt32}
    (hnew : s.getInputContext newid = none) (uuid : Uuid) (frontend : UInt32) (notify : Bool) :
    Registry (IcSystem.enroll { s with icid := newid, ctxTop := s.ctxTop + 1 } s.ctxTop newid uuid
      frontend notify).toInputContextManager := by
  have htop : s.ctxTop ∉ s.ics := fun hm => absurd (hreg.ics_lt hm) (Nat.lt_irrefl _)
  have hne : ∀ d ∈ s.ics, d ≠ s.ctxTop := fun d hd e => htop (e ▸ hd)
  have hunused : ∀ d ∈ s.ics, (s.ctx d).id ≠ newid := by
    intro d hd e
    rw [hreg.getInputContext_eq.mpr ⟨hd, e⟩] at hnew
    cases hnew
  have hmem : ∀ d, d ∈ s.ics ++ [s.ctxTop] ++ s.freeList ↔ d ∈ s.ics ∨ d = s.ctxTop := by
    intro d
    simp [hfree]
  refine ⟨?_, fun d hd => ?_, fun d hd e he hde => ?_⟩
  · show (s.ics ++ [s.ctxTop] ++ s.freeList).Nodup
    rw [hfree, List.append_nil, List.nodup_append]
    refine ⟨hreg.ics_nodup, by simp, fun d hd e he => ?_⟩
    rw [List.mem_singleton] at he
    exact fun hde => htop (he ▸ hde ▸ hd)
  · rcases (hmem d).mp hd with hd | rfl
    · exact Nat.lt_succ_of_lt (hreg.ics_lt hd)
    · exact Nat.lt_succ_self _
  · rw [IcSystem.enroll_id, IcSystem.enroll_id] at hde
    rcases (hmem d).mp hd with hd | rfl <;> rcases (hmem e).mp he with he | rfl
    · rw [if_neg (hne d hd), if_neg (hne e he)] at hde
      exact hreg.id_inj d (List.mem_append_left _ hd) e (List.mem_append_left _ he) hde
    · rw [if_neg (hne d hd), if_pos rfl] at hde
      exact absurd hde (hunused d hd)
    · rw [if_pos rfl, if_neg (hne e he)] at hde
      exact absurd hde.symm (hunused e he)
    · rfl

/-- A context goes to the free list. -/
theorem unenroll (h : Registry s.toInputContextManager) (hc : c ∈ s.ics) :
    Registry (s.unenroll c).toInputContextManager := by
  have hperm : (s.ics.erase c ++ (c :: s.freeList)).Perm (s.ics ++ s.freeList) :=
    List.perm_middle.trans ((List.perm_cons_erase hc).symm.append_right s.freeList)
  exact ⟨hperm.nodup_iff.mpr h.nodup, fun d hd => h.lt d (hperm.subset hd),
    fun d hd e he => h.id_inj d (hperm.subset hd) e (hperm.subset he)⟩

end Registry

namespace IcSystem

/-! ### What the operations without a focus write -/

/-- What is only about properties is no part of the focus. -/
theorem focusOnly_of_rest {s s' : IcSystem V} (h : s'.withoutProperties = s.withoutProperties) :
    FocusOnly s.toInputContextManager s'.toInputContextManager :=
  ⟨⟨rest_ics h, rest_freeList h, rest_ctxTop h, fun c => by rw [rest_ctx h], rest_globalGroup h,
    rest_groupTop h, rest_groupLinks h, rest_callback h⟩, fun c => by rw [rest_ctx h],
    rest_contextLinks h⟩

@[simp] theorem notifyDestroy_manager (s : IcSystem V) (c : ContextPtr) :
    (s.notifyDestroy c).toInputContextManager = s.toInputContextManager := by
  unfold notifyDestroy
  split <;> rfl

/-- Tearing a context down writes its properties and its surrounding text. -/
theorem _destroy_spec (s : IcSystem V) (c : ContextPtr) :
    FocusOnly s.toInputContextManager (s._destroy c).toInputContextManager ∧
      (s._destroy c).group = s.group ∧
      (∀ d, ((s._destroy c).ctx d).focused = (s.ctx d).focused) ∧
      (s._destroy c).trace = ((s.emit .inputContextDestroyed c .none).notifyDestroy c).trace := by
  unfold _destroy
  set t := (s.emit .inputContextDestroyed c .none).notifyDestroy c with ht
  have hts : t.toInputContextManager = s.toInputContextManager := by simp [ht]
  have hrest := propertiesFree_rest c (t.properties c).length t
  have h1 : FocusOnly s.toInputContextManager
      (t.propertiesFree c (t.properties c).length).toInputContextManager := by
    rw [← hts]
    exact focusOnly_of_rest hrest
  refine ⟨h1.trans (modify_focusOnly _ c (fun _ => rfl) fun _ => rfl), ?_, fun d => ?_, ?_⟩
  · refine (rest_group hrest).trans ?_
    rw [hts]
  · show ((modify (t.propertiesFree c (t.properties c).length) c _).ctx d).focused = _
    rw [modify_ctx, rest_ctx hrest, hts]
    split
    · next e => rw [e]
    · rfl
  · show (t.propertiesFree c (t.properties c).length).trace = t.trace
    exact rest_trace hrest

end IcSystem

/-! ### The invariant -/

/-- The invariant of the manager; `gs` are the local groups, `L` the contexts of
each group, and `Φ` is what is known of the calls made. -/
structure IcInv (Φ : IcSystem V → Prop) (s : IcSystem V) (gs : List GroupPtr)
    (L : GroupPtr → List ContextPtr) : Prop where
  callback : s.callback = true
  registry : Registry s.toInputContextManager
  groups : GroupInv s.toInputContextManager gs
  focus : FocusInv s.toInputContextManager (fun g => g = s.globalGroup ∨ g ∈ gs) L
  trace : Φ s

namespace IcInv

variable {Φ : IcSystem V → Prop} {s s' : IcSystem V} {gs : List GroupPtr}
  {L : GroupPtr → List ContextPtr} {c : ContextPtr}

/-- The groups in use. -/
theorem live_iff (_ : IcInv Φ s gs L) (g : GroupPtr) :
    (fun g => g = s.globalGroup ∨ g ∈ gs) g ↔ g = s.globalGroup ∨ g ∈ gs := Iff.rfl

/-- Keeping the tables and the focus keeps the invariant. -/
theorem congr (h : IcInv Φ s gs L) (hsame : SameTables s.toInputContextManager s'.toInputContextManager)
    {L' : GroupPtr → List ContextPtr}
    (hfocus : FocusInv s'.toInputContextManager (fun g => g = s.globalGroup ∨ g ∈ gs) L')
    (hs' : Φ s') : IcInv Φ s' gs L' := by
  refine ⟨hsame.callback.trans h.callback, h.registry.congr hsame, h.groups.congr hsame, ?_, hs'⟩
  rw [hsame.globalGroup]
  exact hfocus

/-- So does leaving the focus alone. -/
theorem unfocused (h : IcInv Φ s gs L)
    (hsame : FocusOnly s.toInputContextManager s'.toInputContextManager)
    (hgroup : s'.group = s.group)
    (hfocused : ∀ c ∈ s.ics, (s'.ctx c).focused = (s.ctx c).focused) (hs' : Φ s') :
    IcInv Φ s' gs L :=
  h.congr hsame.toSameTables (h.focus.independent hsame hgroup fun c hc _ => hfocused c hc) hs'

/-- Operations on properties. -/
theorem rest (h : IcInv Φ s gs L) (hΦ : TraceProperty Φ)
    (hrest : s'.withoutProperties = s.withoutProperties) : IcInv Φ s' gs L :=
  h.unfocused (focusOnly_of_rest hrest) (rest_group hrest) (fun c _ => by rw [rest_ctx hrest])
    (hΦ.frame (rest_trace hrest) (rest_ics hrest) (fun c _ => by rw [rest_ctx hrest]) h.trace)

/-- Writing to the record of a context what the focus does not depend on. -/
theorem modify (h : IcInv Φ s gs L) (hΦ : TraceProperty Φ) (c : ContextPtr)
    {f : InputContext → InputContext} (hid : ∀ ic, (f ic).id = ic.id)
    (hgroup : ∀ ic, (f ic).group = ic.group) (hfocused : ∀ ic, (f ic).focused = ic.focused) :
    IcInv Φ (s.modify c f) gs L := by
  have hctx : ∀ d ∈ s.ics, ((s.modify c f).ctx d).focused = (s.ctx d).focused := by
    intro d _
    rw [modify_ctx]
    split
    · next e => rw [hfocused, e]
    · rfl
  exact h.unfocused (s.modify_focusOnly c hid hgroup) rfl hctx
    (hΦ.frame (s := s) rfl rfl hctx h.trace)

/-- A call leaves the manager as it is. -/
theorem emit (h : IcInv Φ s gs L) {type : EventType} {detail : EventDetail}
    (hs' : Φ (s.emit type c detail)) : IcInv Φ (s.emit type c detail) gs L := by
  refine h.unfocused ?_ ?_ (fun d _ => ?_) hs'
  · rw [emit_manager]
    exact .refl _
  · rw [emit_manager]
  · rw [emit_manager]

/-- Reporting something about a live context. -/
theorem report (h : IcInv Φ s gs L) (hΦ : TraceProperty Φ) (hc : c ∈ s.ics) {type : EventType}
    {detail : EventDetail} (htype : type.isLife = false) : IcInv Φ (s.emit type c detail) gs L :=
  h.emit (hΦ.report h.callback hc htype h.focus.exclusive_focused h.trace)

/-! ### Contexts and groups come and go -/

/-- The focus invariant does not see a new context without a group. -/
theorem enroll_focus (h : IcInv Φ s gs L) (hc : c ∉ s.ics) (id : UInt32) (uuid : Uuid)
    (frontend : UInt32) (notify : Bool) :
    FocusInv (s.enroll c id uuid frontend notify).toInputContextManager
      (fun g => g = s.globalGroup ∨ g ∈ gs) L := by
  set t := s.enroll c id uuid frontend notify with ht
  have hics : t.ics = s.ics ++ [c] := rfl
  have hself : (t.ctx c).group = none ∧ (t.ctx c).focused = false := by
    simp [ht, enroll, InputContext.zero]
  have hother : ∀ d, d ≠ c → t.ctx d = s.ctx d := fun d hd => by
    rw [ht, enroll]
    exact Function.update_of_ne hd _ _
  have hold : ∀ d, d ∈ t.ics → (t.ctx d).group ≠ none → d ∈ s.ics ∧ t.ctx d = s.ctx d := by
    intro d hd hg
    have hdc : d ≠ c := fun e => hg (e ▸ hself.1)
    rw [hics, List.mem_append, List.mem_singleton] at hd
    exact ⟨hd.resolve_right hdc, hother d hdc⟩
  refine ⟨h.focus.rings, fun g hg d => ?_, fun d hd g hdg => ?_, h.focus.global_live,
    fun g hg d hd => ?_, fun d hd g hdg => ?_, h.focus.exclusive⟩
  · rw [h.focus.mem_iff g hg d]
    constructor
    · rintro ⟨hd, hdg⟩
      have hdc : d ≠ c := fun e => hc (e ▸ hd)
      exact ⟨List.mem_append_left _ hd, by rw [hother d hdc]; exact hdg⟩
    · rintro ⟨hd, hdg⟩
      obtain ⟨hd', he⟩ := hold d hd (by simp [hdg])
      exact ⟨hd', by rw [← he]; exact hdg⟩
  · obtain ⟨hd', he⟩ := hold d hd (by simp [hdg])
    exact h.focus.group_live d hd' g (by rw [← he]; exact hdg)
  · obtain ⟨hd', hdg⟩ := h.focus.focus_mem g hg d hd
    have hdc : d ≠ c := fun e => hc (e ▸ hd')
    exact ⟨List.mem_append_left _ hd', by rw [hother d hdc]; exact hdg⟩
  · obtain ⟨hd', he⟩ := hold d hd (by simp [hdg])
    rw [he] at hdg ⊢
    exact h.focus.focused_iff d hd' g hdg

/-- Taking a new context into the tables and saying so. -/
theorem created (h : IcInv Φ s gs L) (hΦ : TraceProperty Φ) (hc : c ∉ s.ics) {id : UInt32}
    {uuid : Uuid} {frontend : UInt32} {notify : Bool}
    (hreg : Registry (s.enroll c id uuid frontend notify).toInputContextManager) :
    IcInv Φ ((s.enroll c id uuid frontend notify).emit .inputContextCreated c .none) gs L := by
  have hfocus := h.enroll_focus hc id uuid frontend notify
  have hs := hΦ.created h.callback hc hfocus.exclusive_focused h.trace
  have hman := (s.enroll c id uuid frontend notify).emit_manager .inputContextCreated c .none
  refine ⟨?_, ?_, ?_, ?_, hs⟩
  · rw [hman]
    exact h.callback
  · rw [hman]
    exact hreg
  · rw [hman]
    exact ⟨h.groups.rings, h.groups.lt, h.groups.global_lt, h.groups.global_notMem⟩
  · rw [hman]
    exact hfocus

/-- Taking from the free list and counting on. -/
theorem retable (h : IcInv Φ s gs L) (hΦ : TraceProperty Φ) (icid : UInt32)
    {freeList : List ContextPtr} (hfree : freeList.Sublist s.freeList) {ctxTop : ContextPtr}
    (htop : s.ctxTop ≤ ctxTop) :
    IcInv Φ { s with icid := icid, freeList := freeList, ctxTop := ctxTop } gs L := by
  have hsub : (s.ics ++ freeList).Sublist (s.ics ++ s.freeList) := hfree.append_left s.ics
  exact ⟨h.callback,
    ⟨h.registry.nodup.sublist hsub,
      fun d hd => (h.registry.lt d (hsub.subset hd)).trans_le htop,
      fun d hd e he => h.registry.id_inj d (hsub.subset hd) e (hsub.subset he)⟩,
    ⟨h.groups.rings, h.groups.lt, h.groups.global_lt, h.groups.global_notMem⟩,
    ⟨h.focus.rings, h.focus.mem_iff, h.focus.group_live, h.focus.global_live, h.focus.focus_mem,
      h.focus.focused_iff, h.focus.exclusive⟩,
    hΦ.frame (s := s) rfl rfl (fun _ _ => rfl) h.trace⟩

/-- A freed context is used again under its old id. -/
theorem reuse (h : IcInv Φ s gs L) (hΦ : TraceProperty Φ) {rest : List ContextPtr}
    (hfree : s.freeList = c :: rest) (uuid : Uuid) (frontend : UInt32) (notify : Bool) :
    IcInv Φ ((IcSystem.enroll { s with freeList := rest } c (s.ctx c).id uuid frontend
      notify).emit .inputContextCreated c .none) gs L := by
  have hcfree : c ∈ s.freeList := hfree ▸ List.mem_cons_self
  exact created (s := { s with freeList := rest }) (h.retable hΦ s.icid (by simp [hfree]) le_rfl) hΦ
    (h.registry.free_notMem hcfree) (h.registry.reuse hfree uuid frontend notify)

/-- A context in a new cell, under an id that no live context has. -/
theorem allocate (h : IcInv Φ s gs L) (hΦ : TraceProperty Φ) (hfree : s.freeList = [])
    {newid : UInt32} (hnew : s.getInputContext newid = none) (uuid : Uuid) (frontend : UInt32)
    (notify : Bool) :
    IcInv Φ ((IcSystem.enroll { s with icid := newid, ctxTop := s.ctxTop + 1 } s.ctxTop newid uuid
      frontend notify).emit .inputContextCreated s.ctxTop .none) gs L := by
  have htop : s.ctxTop ∉ s.ics := fun hm => absurd (h.registry.ics_lt hm) (Nat.lt_irrefl _)
  exact created (s := { s with icid := newid, ctxTop := s.ctxTop + 1 })
    (h.retable hΦ newid (.refl _) (Nat.le_succ _)) hΦ htop
    (h.registry.allocate hfree hnew uuid frontend notify)

/-- **Making a context.** -/
theorem new (h : IcInv Φ s gs L) (hΦ : TraceProperty Φ) (uuid : Uuid) (frontend : UInt32)
    (notify : Bool) : IcInv Φ (s.new uuid frontend notify).2 gs L := by
  unfold IcSystem.new
  split
  · next c rest hfree => exact h.reuse hΦ hfree uuid frontend notify
  · next hfree =>
    dsimp only
    split
    · exact h.retable hΦ _ (.refl _) le_rfl
    · next hnew =>
      have hnone : s.getInputContext (nextId s.icid) = none := Option.not_isSome_iff_eq_none.mp hnew
      exact h.allocate hΦ hfree hnone uuid frontend notify

/-- A live context is destroyed: the test on its id never fails. -/
theorem destroy_eq (h : IcInv Φ s gs L) (hc : c ∈ s.ics) :
    s.destroy c = (((s.focusOut c)._setFocusGroup c none)._destroy c).unenroll c := by
  have hfound : s.getInputContext (s.ctx c).id = some c :=
    h.registry.getInputContext_eq.mpr ⟨hc, rfl⟩
  rw [IcSystem.destroy, if_neg (fun hne => hne hfound)]

/-- **Destroying a context** takes it out of the tables. -/
theorem destroy (h : IcInv Φ s gs L) (hΦ : TraceProperty Φ) (hc : c ∈ s.ics) :
    ∃ L', IcInv Φ (s.destroy c) gs L' := by
  rw [h.destroy_eq hc]
  -- out of focus
  obtain ⟨h1, hs1⟩ := focusOut_inv hΦ h.callback h.focus h.trace hc
  have hsub1 := focusOut_focusOnly s c
  have hcb1 := hsub1.callback.trans h.callback
  have hc1 : c ∈ (s.focusOut c).ics := hsub1.ics ▸ hc
  have hf1 : ((s.focusOut c).ctx c).focused = false := by
    rw [focusOut_ctx h.focus hc, if_pos rfl]
  -- out of its group
  obtain ⟨h2, hs2, hsame2, hgroup2⟩ := _setFocusGroup_inv gs none hΦ hcb1 h1 hs1
    hc1 (by simp) (by simp)
  set L2 := (if ((s.focusOut c).ctx c).group = none then L
    else moved L c ((s.focusOut c).ctx c).group none) with hL2
  have hf2 : (((s.focusOut c)._setFocusGroup c none).ctx c).focused = false := by
    rw [_setFocusGroup_unfocused hf1]
    split
    · exact hf1
    · rw [relink_ctx, if_pos rfl]
      exact hf1
  set s2 := (s.focusOut c)._setFocusGroup c none with hs2def
  have hg2 : (s2.ctx c).group = none := by rw [hgroup2, if_pos rfl]
  have hsame := hsub1.toSameTables.trans hsame2
  have hinv2 : IcInv Φ s2 gs L2 := h.congr hsame h2 hs2
  -- out of the tables
  obtain ⟨hsub3, hgroup3, hfocused3, htrace3⟩ := s2._destroy_spec c
  set t := s2._destroy c with ht
  have h3 : FocusInv t.toInputContextManager (fun g => g = s2.globalGroup ∨ g ∈ gs) L2 :=
    hinv2.focus.independent hsub3 hgroup3 fun d _ _ => hfocused3 d
  have hreg3 : Registry t.toInputContextManager := hinv2.registry.congr hsub3.toSameTables
  have hg3 : (t.ctx c).group = none := (hsub3.ctxGroup c).trans hg2
  have hc3 : c ∈ t.ics := by
    rw [hsub3.ics, hsame.ics]
    exact hc
  have herase : ∀ d, d ∈ t.ics.erase c → d ∈ t.ics := fun d hd => List.mem_of_mem_erase hd
  have hstay : ∀ d, d ∈ t.ics → (t.ctx d).group ≠ none → d ∈ t.ics.erase c := fun d hd hg =>
    hreg3.ics_nodup.mem_erase_iff.mpr ⟨fun e => hg (e ▸ hg3), hd⟩
  refine ⟨L2, (hsub3.callback).trans hinv2.callback, hreg3.unenroll hc3, ?_, ?_, ?_⟩
  · obtain ⟨hr, hl, hgl, hgn⟩ := hinv2.groups.congr hsub3.toSameTables
    exact ⟨hr, hl, hgl, hgn⟩
  · show FocusInv _ (fun g => g = t.globalGroup ∨ g ∈ gs) L2
    rw [hsub3.globalGroup]
    refine ⟨h3.rings, fun g hg d => ?_, fun d hd g hdg => h3.group_live d (herase d hd) g hdg,
      h3.global_live, fun g hg d hd => ?_, fun d hd g hdg => h3.focused_iff d (herase d hd) g hdg,
      h3.exclusive⟩
    · rw [h3.mem_iff g hg d]
      exact ⟨fun ⟨hd, hdg⟩ => ⟨hstay d hd (by simp [hdg]), hdg⟩,
        fun ⟨hd, hdg⟩ => ⟨herase d hd, hdg⟩⟩
    · obtain ⟨hd', hdg⟩ := h3.focus_mem g hg d hd
      exact ⟨hstay d hd' (by simp [hdg]), hdg⟩
  · refine hΦ.destroyed (s := s2) (c := c) hinv2.callback (hsame.ics ▸ hc) hinv2.registry.ics_nodup hf2
      hinv2.focus.exclusive_focused htrace3 ?_ (fun d _ => hfocused3 d) hs2
    show t.ics.erase c = s2.ics.erase c
    rw [hsub3.ics]

/-- A new local group has no contexts. -/
theorem focusGroupNew (h : IcInv Φ s gs L) (hΦ : TraceProperty Φ) :
    IcInv Φ s.focusGroupNew (gs ++ [s.groupTop]) (Function.update L s.groupTop []) := by
  have htop : s.groupTop ∉ gs := fun hm => absurd (h.groups.lt _ hm) (Nat.lt_irrefl _)
  have hglobal : s.globalGroup ≠ s.groupTop := Nat.ne_of_lt h.groups.global_lt
  have hdead : ¬ (s.groupTop = s.globalGroup ∨ s.groupTop ∈ gs) := by
    rintro (e | hm)
    · exact hglobal e.symm
    · exact htop hm
  have hlive : (fun g => g = s.globalGroup ∨ g ∈ gs ++ [s.groupTop]) =
      fun g => g = s.groupTop ∨ (g = s.globalGroup ∨ g ∈ gs) := by
    funext g
    simp only [List.mem_append, List.mem_singleton, eq_iff_iff]
    tauto
  have hgroup : ∀ g, g = s.globalGroup ∨ g ∈ gs → s.focusGroupNew.group g = s.group g := by
    intro g hg
    exact Function.update_of_ne (fun e : g = s.groupTop => hdead (e ▸ hg)) _ _
  have hL : ∀ g, g = s.globalGroup ∨ g ∈ gs → Function.update L s.groupTop [] g = L g := by
    intro g hg
    exact Function.update_of_ne (fun e : g = s.groupTop => hdead (e ▸ hg)) _ _
  have hnew : (s.focusGroupNew.group s.groupTop).focus = none := by
    simp [IcSystem.focusGroupNew, _focusGroupNew]
  refine ⟨h.callback, ⟨h.registry.nodup, h.registry.lt, h.registry.id_inj⟩, ⟨?_, ?_, ?_, ?_⟩, ?_,
    hΦ.frame (s := s) rfl rfl (fun _ _ => rfl) h.trace⟩
  · have hr := h.groups.rings.append (h := ()) (e := s.groupTop) trivial fun _ _ => htop
    have hup : Function.update (fun _ : Unit => gs) () (gs ++ [s.groupTop]) =
        fun _ => gs ++ [s.groupTop] := by
      funext u
      cases u
      rw [Function.update_self]
    rwa [hup] at hr
  · intro g hg
    rcases List.mem_append.mp hg with hg | hg
    · exact Nat.lt_succ_of_lt (h.groups.lt g hg)
    · rw [List.mem_singleton.mp hg]
      exact Nat.lt_succ_self _
  · exact Nat.lt_succ_of_lt h.groups.global_lt
  · intro hm
    rcases List.mem_append.mp hm with hm | hm
    · exact h.groups.global_notMem hm
    · exact hglobal (List.mem_singleton.mp hm)
  · show FocusInv _ (fun g => g = s.globalGroup ∨ g ∈ gs ++ [s.groupTop]) _
    rw [hlive]
    refine ⟨h.focus.rings.init hdead, ?_, ?_, Or.inr h.focus.global_live, ?_, ?_, ?_⟩
    · rintro g (rfl | hg) d
      · rw [Function.update_self]
        constructor
        · intro hd
          cases hd
        · rintro ⟨hd, hdg⟩
          exact absurd (h.focus.group_live d hd _ hdg) hdead
      · rw [hL g hg]
        exact h.focus.mem_iff g hg d
    · exact fun d hd g hdg => Or.inr (h.focus.group_live d hd g hdg)
    · rintro g (rfl | hg) d hd
      · rw [hnew] at hd
        cases hd
      · rw [hgroup g hg] at hd
        exact h.focus.focus_mem g hg d hd
    · intro d hd g hdg
      rw [hgroup g (h.focus.group_live d hd g hdg)]
      exact h.focus.focused_iff d hd g hdg
    · intro hne g hg hgne
      rcases hg with rfl | hg
      · exact hnew
      · rw [hgroup g hg]
        refine h.focus.exclusive ?_ g hg hgne
        rw [← hgroup s.globalGroup (Or.inl rfl)]
        exact hne

/-- Freeing a local group. -/
theorem focusGroupFree (h : IcInv Φ s gs L) (hΦ : TraceProperty Φ) {g : GroupPtr} (hg : g ∈ gs) :
    ∃ L', IcInv Φ (s.focusGroupFree g) (gs.erase g) L' := by
  obtain ⟨⟨L', hfocus⟩, hgroups, hs, hics, hfree, htop, hglobal, hcb, hid⟩ :=
    focusGroupFree_inv hΦ h.callback h.focus h.groups (fun c hc => h.registry.ics_lt hc)
      h.live_iff h.trace hg
  refine ⟨L', hcb, ⟨?_, ?_, ?_⟩, hgroups, ?_, hs⟩
  · rw [hics, hfree]
    exact h.registry.nodup
  · rw [hics, hfree, htop]
    exact h.registry.lt
  · intro d hd e he
    rw [hics, hfree] at hd he
    rw [hid, hid]
    exact h.registry.id_inj d hd e he
  · rw [hglobal]
    exact hfocus

/-- Changing the group of a context to one in use, or to none. -/
theorem _setFocusGroup (h : IcInv Φ s gs L) (hΦ : TraceProperty Φ) (hc : c ∈ s.ics)
    {group : Option GroupPtr} (hlive : ∀ g, group = some g → g = s.globalGroup ∨ g ∈ gs) :
    ∃ L', IcInv Φ (s._setFocusGroup c group) gs L' := by
  obtain ⟨h1, hs1, hsame, -⟩ := _setFocusGroup_inv gs group hΦ h.callback h.focus
    h.trace hc hlive fun _ => ⟨h.groups, h.live_iff⟩
  exact ⟨_, h.congr hsame h1 hs1⟩

/-! ### Every operation -/

/-- **One step keeps the invariant.** The premise on the calls of
`setSurroundingText` is separate, as its event is one of focus. -/
theorem step (h : IcInv Φ s gs L) (hΦ : TraceProperty Φ) {op : IcOp V} (hok : op.Ok s)
    (hsur : ∀ c str cursor anchor, op = .setSurroundingText c str cursor anchor →
      Φ (s.setSurroundingText c str cursor anchor)) : ∃ gs' L', IcInv Φ (s.step op) gs' L' := by
  cases op with
  | new uuid frontend notify => exact ⟨gs, L, h.new hΦ uuid frontend notify⟩
  | destroy c => exact ⟨gs, h.destroy hΦ hok⟩
  | focusGroupNew => exact ⟨_, _, h.focusGroupNew hΦ⟩
  | focusGroupFree g =>
    have hg : g ∈ s.groups := hok
    rw [h.groups.groups_eq] at hg
    exact ⟨_, h.focusGroupFree hΦ hg⟩
  | setFocusGroup c type group =>
    obtain ⟨hc, hgroup⟩ : c ∈ s.ics ∧ ∀ g ∈ group, g ∈ s.groups := hok
    rw [h.groups.groups_eq] at hgroup
    simp only [IcSystem.step, IcSystem.setFocusGroup]
    split
    · exact ⟨gs, L, h⟩
    · refine ⟨gs, h._setFocusGroup hΦ hc fun g hg => ?_⟩
      split at hg
      · exact Or.inl (Option.some.inj hg).symm
      · exact Or.inr (hgroup g hg)
  | focusIn c =>
    obtain ⟨h1, hs1, hsub⟩ := focusIn_inv hΦ h.callback h.focus h.groups h.live_iff h.trace hok
    exact ⟨gs, L, h.congr hsub.toSameTables h1 hs1⟩
  | focusOut c =>
    obtain ⟨h1, hs1⟩ := focusOut_inv hΦ h.callback h.focus h.trace hok
    exact ⟨gs, L, h.congr (focusOut_focusOnly s c).toSameTables h1 hs1⟩
  | setCapabilityFlags c flags =>
    refine ⟨gs, L, ?_⟩
    simp only [IcSystem.step, setCapabilityFlags]
    split
    · refine report (s := s.modify c _) ?_ hΦ hok rfl
      exact h.modify hΦ c (fun _ => rfl) (fun _ => rfl) fun _ => rfl
    · exact h
  | setCursorRect c rect =>
    refine ⟨gs, L, ?_⟩
    simp only [IcSystem.step, setCursorRect]
    split
    · refine report (s := s.modify c _) ?_ hΦ hok rfl
      exact h.modify hΦ c (fun _ => rfl) (fun _ => rfl) fun _ => rfl
    · exact h
  | setSurroundingText c str cursor anchor =>
    have hs' := hsur c str cursor anchor rfl
    refine ⟨gs, L, ?_⟩
    simp only [IcSystem.step, setSurroundingText] at hs' ⊢
    split
    · exact h
    · next hflag =>
      rw [if_neg hflag] at hs'
      split
      · next hchange =>
        rw [if_pos hchange] at hs'
        refine emit (s := s.modify c _) ?_ hs'
        exact h.modify hΦ c (fun _ => rfl) (fun _ => rfl) fun _ => rfl
      · exact h
  | deleteSurroundingText c offset length =>
    have hsame : ∀ ic, (deleteSurrounding ic offset length).id = ic.id ∧
        (deleteSurrounding ic offset length).group = ic.group ∧
        (deleteSurrounding ic offset length).focused = ic.focused := by
      intro ic
      unfold deleteSurrounding
      split
      · exact ⟨rfl, rfl, rfl⟩
      · dsimp only
        split <;> exact ⟨rfl, rfl, rfl⟩
    exact ⟨gs, L, (h.modify hΦ c (fun ic => (hsame ic).1) (fun ic => (hsame ic).2.1)
      fun ic => (hsame ic).2.2).report hΦ hok rfl⟩
  | reset c =>
    exact ⟨gs, L, h.report hΦ hok rfl⟩
  | commitString c str =>
    exact ⟨gs, L, h.report hΦ hok rfl⟩
  | updatePreedit c =>
    exact ⟨gs, L, h.report hΦ hok rfl⟩
  | forwardKey c key =>
    exact ⟨gs, L, h.report hΦ hok rfl⟩
  | registerProperty name setProperty copyProperty =>
    exact ⟨gs, L, h.rest hΦ (registerProperty_rest s name setProperty copyProperty)⟩
  | sharedStatePolicyNew propertyId propertyKey =>
    exact ⟨gs, L, h.rest hΦ (sharedStatePolicyNew_rest s propertyId propertyKey)⟩
  | setSharedStatePolicy p => exact ⟨gs, L, h.rest hΦ rfl⟩
  | setProperty c propertyId data =>
    exact ⟨gs, L, h.rest hΦ (setProperty_rest s c propertyId data)⟩

/-- A new manager has no contexts and no local groups. -/
theorem initial {Φ : IcSystem V → Prop} (h0 : Φ IcSystem.initial) :
    IcInv Φ (IcSystem.initial : IcSystem V) [] fun _ => [] := by
  refine ⟨rfl, ⟨List.nodup_nil, by simp [IcSystem.initial, managerNew, registerProperty,
    setEventDispatcher, _focusGroupNew], by simp [IcSystem.initial, managerNew, registerProperty,
    setEventDispatcher, _focusGroupNew]⟩, ⟨⟨fun u _ => ?_, by simp⟩, by simp, ?_, by simp⟩, ?_, h0⟩
  · exact LinkRing.init _ _
  · exact Nat.zero_lt_one
  · refine ⟨⟨fun g hg => ?_, by simp⟩, fun g hg c => ?_, fun c hc => ?_, Or.inl rfl, fun g hg c hc => ?_,
      fun c hc => ?_, fun hne => ?_⟩
    · rcases hg with rfl | hg
      · exact LinkRing.init _ _
      · cases hg
    · constructor
      · intro hc
        cases hc
      · rintro ⟨hc, -⟩
        cases hc
    · cases hc
    · rcases hg with rfl | hg
      · cases hc
      · cases hg
    · cases hc
    · exact absurd rfl hne

/-- **The invariant holds after every run.** `cond` is what the run promises
beyond live arguments; it has to answer for the calls of `setSurroundingText`. -/
theorem run (cond : IcSystem V → IcOp V → Prop) (hΦ : TraceProperty Φ) (h0 : Φ IcSystem.initial)
    (hsur : ∀ (s : IcSystem V) c str cursor anchor, s.callback = true → c ∈ s.ics → s.Exclusive →
      cond s (.setSurroundingText c str cursor anchor) → Φ s →
      Φ (s.setSurroundingText c str cursor anchor))
    {ops : List (IcOp V)}
    (h : Run.Admissible IcSystem.step (fun s op => op.Ok s ∧ cond s op) IcSystem.initial ops) :
    ∃ gs L, IcInv Φ (IcSystem.run ops) gs L := by
  refine Run.invariant (P := fun s => ∃ gs L, IcInv Φ s gs L) ?_ ⟨_, _, IcInv.initial h0⟩ h
  rintro s op ⟨gs, L, hs⟩ ⟨hok, hcond⟩
  refine hs.step hΦ hok ?_
  rintro c str cursor anchor rfl
  exact hsur s c str cursor anchor hs.callback hok hs.focus.exclusive_focused hcond hs.trace

end IcInv

/-! ### The focus laws -/

/-- A group that is in use: the global one or a local one. -/
def InputContextManager.LiveGroup (m : InputContextManager V) (g : GroupPtr) : Prop :=
  g = m.globalGroup ∨ g ∈ m.groups

/-- What holds between operations. -/
structure FocusLaws (m : InputContextManager V) : Prop where
  /-- the list of a group is well linked -/
  linked : ∀ g, m.LiveGroup g → LinkRing m.contextLinks (.inl g) ((m.inputContexts g).map .inr)
  /-- a context with a group is in its list, once -/
  member : ∀ c ∈ m.ics, ∀ g, (m.ctx c).group = some g →
    m.LiveGroup g ∧ (m.inputContexts g).count c = 1
  /-- and in no other -/
  elsewhere : ∀ c ∈ m.ics, ∀ g, m.LiveGroup g → (m.ctx c).group ≠ some g → c ∉ m.inputContexts g
  /-- a focus is in its group -/
  focus_group : ∀ g, m.LiveGroup g → ∀ c, (m.group g).focus = some c →
    c ∈ m.ics ∧ (m.ctx c).group = some g
  /-- the two records of the focus agree -/
  focused_iff : ∀ c ∈ m.ics, ∀ g, (m.ctx c).group = some g →
    ((m.ctx c).focused = true ↔ (m.group g).focus = some c)
  /-- the focus of the global group excludes the others -/
  global : (m.group m.globalGroup).focus ≠ none → ∀ g ∈ m.groups, (m.group g).focus = none

theorem IcInv.focusLaws {Φ : IcSystem V → Prop} {s : IcSystem V} {gs : List GroupPtr}
    {L : GroupPtr → List ContextPtr} (h : IcInv Φ s gs L) : FocusLaws s.toInputContextManager := by
  have hlive : ∀ g, s.LiveGroup g ↔ g = s.globalGroup ∨ g ∈ gs := by
    intro g
    rw [LiveGroup, h.groups.groups_eq]
  have hlist : ∀ g, s.LiveGroup g → s.inputContexts g = L g := by
    intro g hg
    have hg' := (hlive g).mp hg
    refine h.focus.rings.entries_eq hg' (Nat.lt_succ_of_le ?_)
    exact length_le_of_nodup_lt (h.focus.nodup hg') fun c hc =>
      h.registry.ics_lt ((h.focus.mem_iff g hg' c).mp hc).1
  refine ⟨fun g hg => ?_, fun c hc g hg => ?_, fun c hc g hg hne => ?_, fun g hg => ?_,
    h.focus.focused_iff, fun hne g hg => ?_⟩
  · rw [hlist g hg]
    exact h.focus.rings.ring g ((hlive g).mp hg)
  · have hg' := h.focus.group_live c hc g hg
    refine ⟨(hlive g).mpr hg', ?_⟩
    rw [hlist g ((hlive g).mpr hg')]
    exact List.count_eq_one_of_mem (h.focus.nodup hg') ((h.focus.mem_iff g hg' c).mpr ⟨hc, hg⟩)
  · rw [hlist g hg]
    exact h.focus.notMem ((hlive g).mp hg) hne
  · exact h.focus.focus_mem g ((hlive g).mp hg)
  · rw [h.groups.groups_eq] at hg
    exact h.focus.exclusive hne g (Or.inr hg) fun e => h.groups.global_notMem (e ▸ hg)

namespace IcSystem

theorem emit_trace {s : IcSystem V} (hcb : s.callback = true) (type : EventType) (c : ContextPtr)
    (detail : EventDetail) :
    (s.emit type c detail).trace =
      s.trace ++ [⟨.event ⟨type, (s.ctx c).id, c, detail⟩, s.toInputContextManager⟩] := by
  rw [emit, if_pos hcb]

theorem notifyDestroy_trace (s : IcSystem V) (c : ContextPtr) :
    (s.notifyDestroy c).trace =
      s.trace ++ if (s.ctx c).destroyNotify then [⟨.destroyNotify c, s.toInputContextManager⟩]
        else [] := by
  unfold notifyDestroy
  split <;> simp

/-- Every call so far was made while the focus was exclusive. -/
def CalledExclusive (s : IcSystem V) : Prop := ∀ e ∈ s.trace, e.manager.Exclusive

theorem CalledExclusive.emit {s : IcSystem V} {type : EventType} {c : ContextPtr}
    {detail : EventDetail} (h : s.CalledExclusive) (hs : s.Exclusive) :
    (s.emit type c detail).CalledExclusive := by
  intro e he
  by_cases hcb : s.callback = true
  · rw [emit_trace hcb, List.mem_append, List.mem_singleton] at he
    rcases he with he | rfl
    · exact h e he
    · exact hs
  · rw [IcSystem.emit, if_neg hcb] at he
    exact h e he

theorem calledExclusive_traceProperty :
    TraceProperty (CalledExclusive : IcSystem V → Prop) where
  frame := fun htrace _ _ hs e he => hs e (htrace ▸ he)
  focusIn := fun _ _ _ hex hs => CalledExclusive.emit (fun e he => hs e he) (by
    rwa [_focusIn, emit_manager] at hex)
  focusOut := fun _ _ _ hex hs => CalledExclusive.emit (fun e he => hs e he) (by
    rwa [_focusOut, emit_manager] at hex)
  report := fun _ _ _ hex hs => hs.emit hex
  created := fun _ _ hex hs => CalledExclusive.emit (fun e he => hs e he) hex
  destroyed := by
    intro s s' c _ _ _ _ hex htrace _ _ hs e he
    have hemit : (s.emit .inputContextDestroyed c .none).CalledExclusive := hs.emit hex
    rw [htrace, notifyDestroy_trace, List.mem_append] at he
    rcases he with he | he
    · exact hemit e he
    · split at he
      · rw [List.mem_singleton.mp he]
        simpa using hex
      · cases he

theorem CalledExclusive.setSurroundingText {s : IcSystem V} (h : s.CalledExclusive)
    (hs : s.Exclusive) (c : ContextPtr) (str : Option Bytes) (cursor anchor : UInt32) :
    (s.setSurroundingText c str cursor anchor).CalledExclusive := by
  unfold IcSystem.setSurroundingText
  split
  · exact h
  · split
    · refine CalledExclusive.emit (fun e he => h e he) (hs.mono rfl rfl (fun d => ?_) fun d _ => ?_)
      · rw [modify_ctx]
        split
        · next e => rw [e]
        · rfl
      · rw [modify_ctx]
        split
        · next e => exact fun hd => e ▸ hd
        · exact id
    · exact h

/-- **The focus laws.** After every run of operations on live contexts and
groups the two records of the focus agree with each other and with the lists of
the groups, and no call was made while two contexts that exclude each other
were focused. -/
theorem run_focusLaws (ops : List (IcOp V)) (h : IcOp.AllOk ops) :
    FocusLaws (run ops).toInputContextManager ∧ ∀ e ∈ (run ops).trace, e.manager.Exclusive := by
  have hok : Run.Admissible IcSystem.step (fun s op => op.Ok s ∧ True) initial ops :=
    h.mono fun s op hok => ⟨hok, trivial⟩
  obtain ⟨gs, L, hinv⟩ := IcInv.run _ calledExclusive_traceProperty (fun e he => by cases he)
    (fun s c str cursor anchor _ _ hex _ hs => hs.setSurroundingText hex c str cursor anchor) hok
  exact ⟨hinv.focusLaws, hinv.trace⟩

/-- A context of the global group takes the focus from one
of a local group, moves there, and is destroyed. -/
theorem run_focusLaws_move :
    let ops : List (IcOp ℕ) :=
      [.new 0 0 false, .new 1 0 false, .focusGroupNew, .setFocusGroup 0 .global none,
        .setFocusGroup 1 .local (some 1), .focusIn 1, .focusIn 0, .setFocusGroup 0 .local (some 1),
        .focusGroupFree 1, .destroy 0]
    IcOp.AllOk ops ∧ FocusLaws (run ops).toInputContextManager ∧
      ∀ e ∈ (run ops).trace, e.manager.Exclusive := by
  intro ops
  have hok : IcOp.AllOk ops := by decide
  exact ⟨hok, run_focusLaws ops hok⟩

end IcSystem

end Fcitx
