/-
# Freeing the manager

`fcitx_input_context_manager_free` of `fcitx/inputcontext.c` after any run. Every context
that is left is destroyed, and its owner is told if it asked for it; every group, and
every cell that was ever allocated for a context, is given back once; no head of a policy
stays behind, and every life of a context is over.

Key definitions: `IcSystem.destroyAllInputContext`, `IcSystem.freeGroups`, `IcSystem.managerFree`,
`IcSystem.notices`, `Cells`.
Key theorems: `Cells.run`, `IcInv.destroy_notices`, `IcInv.destroyAll`, `IcInv.freeGroups`,
`IcSystem.run_managerFree`, `IcSystem.run_managerFree_lives`.
-/
import Fcitx.InputContext.DestroyNotice
import Fcitx.InputContext.EventTrace
import Fcitx.InputContext.SharedRun

namespace Fcitx

open InputContextManager IcSystem

variable {V : Type}

/-- What is given back when a manager is freed, in order, and the manager before its own memory is. -/
structure FreedManager (V : Type) where
  sys : IcSystem V
  groups : List GroupPtr
  contexts : List ContextPtr

namespace IcSystem

/-- `fcitx_input_context_manager_destroy_all_input_context`, for `fuel` contexts at most. -/
def destroyAllInputContext : ℕ → IcSystem V → IcSystem V
  | 0, s => s
  | fuel + 1, s =>
    match s.ics with
    | [] => s
    | c :: _ => destroyAllInputContext fuel (s.destroy c)

/-- The loop over the local groups, with those that are freed. -/
def freeGroups (s : IcSystem V) : IcSystem V × List GroupPtr :=
  Links.forEachEntrySafe (fun p : IcSystem V × List GroupPtr => p.1.groupLinks) ()
    (fun group p => (p.1.focusGroupFree group, p.2 ++ [group])) (s.groupTop + 1) (s, [])

/-- `fcitx_input_context_manager_free` -/
def managerFree (s : IcSystem V) : FreedManager V :=
  let s := destroyAllInputContext s.ics.length s
  let (s, groups) := s.freeGroups
  let s := s.focusGroupFree s.globalGroup
  { sys := { s with freeList := [] }, groups := groups ++ [s.globalGroup], contexts := s.freeList }

/-- The owner that is told of the end of its context. -/
def noticeOf (e : Emitted V) : Option ContextPtr :=
  match e.call with
  | .event _ => none
  | .destroyNotify c => some c

/-- The contexts whose owners were told so far. -/
def notices (s : IcSystem V) : List ContextPtr := s.trace.filterMap noticeOf

end IcSystem

/-! ### Cells -/

/-- The cells in use and the free ones are those that were allocated. -/
structure Cells (m : InputContextManager V) : Prop where
  byUuid : m.icsByUuid = m.ics
  perm : (m.ics ++ m.freeList).Perm (List.range m.ctxTop)

namespace Cells

variable {m m' : InputContextManager V} {s : IcSystem V} {c : ContextPtr}

theorem congr (h : Cells m) (hsame : SameNames m m') : Cells m' := by
  refine ⟨?_, ?_⟩
  · rw [hsame.icsByUuid, hsame.ics]
    exact h.byUuid
  · rw [hsame.ics, hsame.freeList, hsame.ctxTop]
    exact h.perm

theorem unenroll (h : Cells s.toInputContextManager) (hc : c ∈ s.ics) :
    Cells (s.unenroll c).toInputContextManager := by
  refine ⟨?_, ?_⟩
  · show s.icsByUuid.erase c = s.ics.erase c
    rw [h.byUuid]
  · have hperm : (s.ics.erase c ++ c :: s.freeList).Perm (s.ics ++ s.freeList) :=
      List.perm_middle.trans ((List.perm_cons_erase hc).symm.append_right s.freeList)
    exact hperm.trans h.perm

/-- What destroying a context does before it takes it out of the tables. -/
theorem destroy_sameNames (s : IcSystem V) (c : ContextPtr) :
    SameNames s.toInputContextManager (((s.focusOut c)._setFocusGroup c none)._destroy c).toInputContextManager :=
  ((focusOut_sameNames s c).trans (_setFocusGroup_sameNames _ c none)).trans (_destroy_sameNames _ c)

theorem destroy (h : Cells s.toInputContextManager) (c : ContextPtr) : Cells (s.destroy c).toInputContextManager := by
  unfold IcSystem.destroy
  split
  · exact h
  · next hfound =>
    rw [not_not] at hfound
    have hsame := destroy_sameNames s c
    refine (h.congr hsame).unenroll ?_
    rw [hsame.ics]
    exact List.mem_of_find?_eq_some hfound

theorem new (h : Cells s.toInputContextManager) (uuid : Uuid) (frontend : UInt32) (notify : Bool) :
    Cells (s.new uuid frontend notify).2.toInputContextManager := by
  have hperm := h.perm
  have hbyUuid : ∀ c : ContextPtr, s.icsByUuid ++ [c] = s.ics ++ [c] := fun c => by rw [h.byUuid]
  unfold IcSystem.new
  cases hfree : s.freeList with
  | cons c rest =>
    rw [hfree] at hperm
    dsimp only
    rw [emit_manager]
    refine ⟨hbyUuid c, ?_⟩
    show (s.ics ++ [c] ++ rest).Perm (List.range s.ctxTop)
    rwa [List.append_assoc, List.singleton_append]
  | nil =>
    rw [hfree] at hperm
    dsimp only
    split
    · exact ⟨h.byUuid, hperm⟩
    · dsimp only
      rw [emit_manager]
      refine ⟨hbyUuid s.ctxTop, ?_⟩
      show (s.ics ++ [s.ctxTop] ++ []).Perm (List.range (s.ctxTop + 1))
      rw [List.append_nil, List.range_succ]
      rw [List.append_nil] at hperm
      exact hperm.append_right _

/-- **No cell is lost**, whatever is done. -/
theorem step (h : Cells s.toInputContextManager) (op : IcOp V) : Cells (s.step op).toInputContextManager := by
  cases op with
  | new uuid frontend notify => exact h.new uuid frontend notify
  | destroy c => exact h.destroy c
  | _ => exact h.congr (step_sameNames s (by simp) (by simp))

theorem initial : Cells (IcSystem.initial : IcSystem V).toInputContextManager := ⟨rfl, List.Perm.refl _⟩

theorem run (ops : List (IcOp V)) : Cells (run ops).toInputContextManager := by
  have hfold : ∀ (ops : List (IcOp V)) (s : IcSystem V), Cells s.toInputContextManager →
      Cells (Run.exec IcSystem.step s ops).toInputContextManager := by
    intro ops
    induction ops with
    | nil => exact fun s h => h
    | cons op ops ih => exact fun s h => ih _ (h.step op)
  exact hfold ops _ initial

end Cells

/-! ### Destroying all contexts -/

section destroyAll

variable {Φ : IcSystem V → Prop} {s s' : IcSystem V} {gs : List GroupPtr} {L : GroupPtr → List ContextPtr}
  {c : ContextPtr}

theorem EventsOnly.notices (h : EventsOnly s s') : s'.notices = s.notices := by
  obtain ⟨emitted, htrace, hevents⟩ := h.trace
  have hnone : emitted.filterMap noticeOf = [] := by
    rw [List.filterMap_eq_nil_iff]
    intro e he
    obtain ⟨event, hcall⟩ := hevents e he
    rw [noticeOf, hcall]
  rw [IcSystem.notices, htrace, List.filterMap_append, hnone, List.append_nil, IcSystem.notices]

namespace IcInv

/-- **The owner of a context that is destroyed** is told once, if it asked for it. -/
theorem destroy_notices (h : IcInv Φ s gs L) (hc : c ∈ s.ics) :
    (s.destroy c).notices = s.notices ++ if (s.ctx c).destroyNotify then [c] else [] := by
  set t := ((s.focusOut c)._setFocusGroup c none).emit .inputContextDestroyed c .none with ht
  have hevents : EventsOnly s t :=
    ((EventsOnly.focusOut s c).trans (EventsOnly._setFocusGroup _ c none)).trans (EventsOnly.emit _ _ c _)
  have hdestroy : (s.destroy c).trace = (t.notifyDestroy c).trace := by
    rw [h.destroy_eq hc]
    exact (_destroy_spec _ c).2.2.2
  have hsplit : (s.destroy c).notices = t.notices ++ if (t.ctx c).destroyNotify then [c] else [] := by
    rw [notices, hdestroy, notifyDestroy_trace, List.filterMap_append, notices]
    split <;> rfl
  rw [hsplit, hevents.notices, hevents.destroyNotify]

/-- Destroying a context leaves the groups and the number of cells. -/
theorem destroy_tops (h : IcInv Φ s gs L) (hΦ : TraceProperty Φ) (hc : c ∈ s.ics) :
    (s.destroy c).globalGroup = s.globalGroup ∧ (s.destroy c).ctxTop = s.ctxTop := by
  obtain ⟨h1, hs1⟩ := focusOut_inv hΦ h.callback h.focus h.trace hc
  have hsub1 := focusOut_focusOnly s c
  have hc1 : c ∈ (s.focusOut c).ics := hsub1.ics ▸ hc
  obtain ⟨-, -, hsame2, -⟩ := _setFocusGroup_inv gs none hΦ (hsub1.callback.trans h.callback) h1 hs1 hc1
    (by simp) (by simp)
  have hsub3 := (_destroy_spec ((s.focusOut c)._setFocusGroup c none) c).1
  rw [h.destroy_eq hc]
  exact ⟨hsub3.globalGroup.trans (hsame2.globalGroup.trans hsub1.globalGroup),
    (Cells.destroy_sameNames s c).ctxTop⟩

/-- What is known once all contexts are destroyed. -/
structure AllDestroyed (Φ : IcSystem V → Prop) (s t : IcSystem V) (gs : List GroupPtr) : Prop where
  inv : ∃ L, IcInv Φ t gs L
  cells : Cells t.toInputContextManager
  ics : t.ics = []
  globalGroup : t.globalGroup = s.globalGroup
  ctxTop : t.ctxTop = s.ctxTop
  notices : t.notices = s.notices ++ s.ics.filter fun c => (s.ctx c).destroyNotify
  shared : (∃ G, Shared s.toInputContextManager G) → ∃ G, Shared t.toInputContextManager G

/-- **All contexts** are destroyed, in the order in which they were made. -/
theorem destroyAll (hΦ : TraceProperty Φ) {cs : List ContextPtr} (h : IcInv Φ s gs L)
    (hcells : Cells s.toInputContextManager) (hcs : s.ics = cs) :
    AllDestroyed Φ s (destroyAllInputContext cs.length s) gs := by
  induction cs generalizing s L with
  | nil => exact ⟨⟨L, h⟩, hcells, hcs, rfl, rfl, by rw [hcs]; exact (List.append_nil _).symm, id⟩
  | cons c cs ih =>
    have hc : c ∈ s.ics := hcs ▸ List.mem_cons_self
    obtain ⟨L', hdestroyed⟩ := h.destroy hΦ hc
    have hframe := h.destroy_frame hc
    have hrest : (s.destroy c).ics = cs := by rw [hframe.ics, hcs, List.erase_cons_head]
    obtain ⟨hglobal, htop⟩ := h.destroy_tops hΦ hc
    obtain ⟨hinv, hcells', hics, hglobal', htop', hnotices, hshared⟩ := ih hdestroyed (hcells.destroy c) hrest
    have hround : destroyAllInputContext (c :: cs).length s = destroyAllInputContext cs.length (s.destroy c) := by
      rw [List.length_cons, destroyAllInputContext, hcs]
    rw [hround]
    refine ⟨hinv, hcells', hics, hglobal'.trans hglobal, htop'.trans htop, ?_, ?_⟩
    swap
    · rintro ⟨G, hG⟩
      exact hshared (destroy_shared hG h.registry.ics_nodup c).1
    have hkeep : (fun d => ((s.destroy c).ctx d).destroyNotify) = fun d => (s.ctx d).destroyNotify :=
      funext hframe.destroyNotify
    rw [hnotices, h.destroy_notices hc, hrest, hcs, hkeep, List.append_assoc, List.filter_cons]
    split
    · rfl
    · rfl

/-! ### Freeing the groups -/

/-- A group has no contexts once there are none. -/
theorem empty (h : IcInv Φ s gs L) (hics : s.ics = []) {g : GroupPtr} (hg : g = s.globalGroup ∨ g ∈ gs) :
    L g = [] := by
  rw [List.eq_nil_iff_forall_not_mem]
  intro c hc
  have hmem := ((h.focus.mem_iff g hg c).mp hc).1
  rw [hics] at hmem
  cases hmem

/-- What holds in the loop over the groups while those of `ys` are left. -/
structure FreeRound (Φ : IcSystem V → Prop) (s : IcSystem V) (gs ys : List GroupPtr)
    (p : IcSystem V × List GroupPtr) : Prop where
  inv : ∃ L, IcInv Φ p.1 ys L
  names : SameNames s.toInputContextManager p.1.toInputContextManager
  shared : SameShared s.toInputContextManager p.1.toInputContextManager
  globalGroup : p.1.globalGroup = s.globalGroup
  notices : p.1.notices = s.notices
  freed : p.2 ++ ys = gs

theorem focusGroupFree_events (s : IcSystem V) (g : GroupPtr) : EventsOnly s (s.focusGroupFree g) := by
  unfold IcSystem.focusGroupFree
  refine Links.forEachEntrySafe_invariant (P := fun t : IcSystem V => EventsOnly s t)
    (fun c t ht => ht.trans (EventsOnly._setFocusGroup t c none)) ?_
  split
  · exact EventsOnly.of_trace (fun _ => rfl) rfl
  · exact EventsOnly.refl s

theorem FreeRound.round (hΦ : TraceProperty Φ) {y : GroupPtr} {ys : List GroupPtr}
    {p : IcSystem V × List GroupPtr} (h : FreeRound Φ s gs (y :: ys) p) :
    FreeRound Φ s gs ys (p.1.focusGroupFree y, p.2 ++ [y]) := by
  obtain ⟨L', hinv⟩ := h.inv
  have hy : y ∈ y :: ys := List.mem_cons_self
  obtain ⟨L'', hfreed⟩ := hinv.focusGroupFree hΦ hy
  rw [List.erase_cons_head] at hfreed
  obtain ⟨-, -, -, -, -, -, hglobal, -, -⟩ :=
    focusGroupFree_inv hΦ hinv.callback hinv.focus hinv.groups (fun c hc => hinv.registry.ics_lt hc)
      hinv.live_iff hinv.trace hy
  have hnames : SameNames p.1.toInputContextManager (p.1.step (.focusGroupFree y)).toInputContextManager :=
    step_sameNames p.1 (by simp) (by simp)
  refine ⟨⟨L'', hfreed⟩, h.names.trans hnames,
    h.shared.trans (focusGroupFree_sameShared p.1 y), hglobal.trans h.globalGroup,
    (focusGroupFree_events p.1 y).notices.trans h.notices, ?_⟩
  rw [List.append_assoc]
  exact h.freed

/-- **All local groups** are freed, in their order. -/
theorem freeGroups (h : IcInv Φ s gs L) (hΦ : TraceProperty Φ) : FreeRound Φ s gs [] s.freeGroups := by
  have hstart : FreeRound Φ s gs gs (s, []) :=
    ⟨⟨L, h⟩, .refl _, .refl _, rfl, rfl, rfl⟩
  have hround : ∀ y ys p, FreeRound Φ s gs (y :: ys) p →
      FreeRound Φ s gs ys (p.1.focusGroupFree y, p.2 ++ [y]) := fun y ys p hp => hp.round hΦ
  have hring : ∀ ys p, FreeRound Φ s gs ys p → LinkRing p.1.groupLinks (.inl ()) (ys.map .inr) := by
    rintro ys p ⟨⟨L', hinv⟩, -⟩
    exact hinv.groups.rings.ring () trivial
  have hlen : gs.length < s.groupTop + 1 :=
    Nat.lt_succ_of_le (length_le_of_nodup_lt (h.groups.rings.nodup (h := ()) trivial) h.groups.lt)
  rw [IcSystem.freeGroups, Rings.forEachEntrySafe_eq_foldl
    (fun p : IcSystem V × List GroupPtr => p.1.groupLinks) hring hround hstart hlen]
  exact Rings.foldl_rounds hround gs (s, []) hstart

/-- The global group is not in a list, and without contexts there is nothing to move. -/
theorem focusGroupFree_global (h : IcInv Φ s gs L) (hics : s.ics = []) : s.focusGroupFree s.globalGroup = s := by
  have hring : LinkRing s.contextLinks (.inl s.globalGroup) (([] : List ContextPtr).map .inr) := by
    have hr := h.focus.rings.ring s.globalGroup (Or.inl rfl)
    rwa [h.empty hics (Or.inl rfl)] at hr
  unfold IcSystem.focusGroupFree
  rw [if_neg fun hne => hne rfl]
  exact Rings.forEachEntrySafe_eq_foldl (fun t : IcSystem V => t.contextLinks)
    (P := fun ys t => ys = [] ∧ LinkRing t.contextLinks (.inl s.globalGroup) (ys.map .inr))
    (fun ys t ht => ht.2) (fun y ys t ht => absurd ht.1 (List.cons_ne_nil y ys)) ⟨rfl, hring⟩ (Nat.succ_pos _)

/-- **Freeing the manager**, from any state with the invariant. -/
theorem managerFree (h : IcInv Φ s gs L) (hΦ : TraceProperty Φ) (hcells : Cells s.toInputContextManager) :
    ∃ t u L', AllDestroyed Φ s t gs ∧ FreeRound Φ t gs [] (u, gs) ∧ IcInv Φ u [] L' ∧
      s.managerFree = ⟨{ u with freeList := [] }, gs ++ [s.globalGroup], u.freeList⟩ := by
  have hall := h.destroyAll hΦ hcells rfl
  obtain ⟨L', hinv⟩ := hall.inv
  have hfree := hinv.freeGroups hΦ
  obtain ⟨L'', hinv'⟩ := hfree.inv
  have hfreed : (destroyAllInputContext s.ics.length s).freeGroups.2 = gs := by
    rw [← List.append_nil (IcSystem.freeGroups _).2]
    exact hfree.freed
  have hics : (destroyAllInputContext s.ics.length s).freeGroups.1.ics = [] := hfree.names.ics.trans hall.ics
  refine ⟨_, (destroyAllInputContext s.ics.length s).freeGroups.1, L'', hall, ?_, hinv', ?_⟩
  · rw [← hfreed]
    rw [← hfreed] at hfree
    exact hfree
  · have hglobal := hfree.globalGroup.trans hall.globalGroup
    unfold IcSystem.managerFree
    dsimp only
    rw [hinv'.focusGroupFree_global hics, hfreed, hglobal]

end IcInv

end destroyAll

/-! ### Over whole runs -/

/-- A head is there for a property, and a property for a context. -/
theorem Shared.heads_nil {m : InputContextManager V} {G : HeadPtr → List PropertyPtr} (h : Shared m G)
    (hics : m.ics = []) : m.heads = [] := by
  rw [List.eq_nil_iff_forall_not_mem]
  intro head hmem
  obtain ⟨k, hk⟩ := (h.inv.heads_iff head).mp hmem
  obtain ⟨x, hx⟩ := List.exists_mem_of_ne_nil _ (h.inv.classes.nonempty k head hk)
  have hlive := (h.inv.live x k ((h.inv.classes.mem_iff k head hk x).mp hx)).1
  rw [hics] at hlive
  cases hlive

namespace IcSystem

/-- **Nothing is left of a manager that is freed**: no context and no group; each group that was in use is given back
once, and so is each cell that was ever allocated; the owners that asked for it are told, in the order in which the
contexts were made; and no head is left if every step kept keys and values together. -/
theorem run_managerFree (ops : List (IcOp V)) (h : IcOp.AllOk ops) :
    let s := run ops
    let freed := s.managerFree
    freed.sys.ics = [] ∧ freed.sys.icsByUuid = [] ∧
      freed.groups = s.groups ++ [s.globalGroup] ∧ freed.groups.Nodup ∧
      freed.contexts.Perm (List.range s.ctxTop) ∧
      freed.sys.notices = s.notices ++ s.ics.filter (fun c => (s.ctx c).destroyNotify) ∧
      (Run.Admissible step (fun s op => op.KeepsKeys s) initial ops → freed.sys.heads = []) := by
  intro s freed
  obtain ⟨gs, L, hinv⟩ := IcInv.run (fun _ _ => True) (Φ := fun _ : IcSystem V => True) anything_traceProperty
    trivial (fun _ _ _ _ _ _ _ _ _ _ => trivial) (h.mono fun _ _ hok => ⟨hok, trivial⟩)
  obtain ⟨t, u, L', hall, hfree, hinv', heq⟩ := hinv.managerFree anything_traceProperty (Cells.run ops)
  have hics : u.ics = [] := hfree.names.ics.trans hall.ics
  have hcells := hall.cells.congr hfree.names
  have hperm := hcells.perm
  rw [hics, List.nil_append] at hperm
  have hgroups : s.groups = gs := hinv.groups.groups_eq
  have hfreed : freed = ⟨{ u with freeList := [] }, gs ++ [s.globalGroup], u.freeList⟩ := heq
  rw [hfreed]
  refine ⟨hics, hcells.byUuid.trans hics, by rw [hgroups], ?_, ?_, ?_, fun hkeeps => ?_⟩
  · have hnd : gs.Nodup := hinv.groups.rings.nodup (h := ()) trivial
    show (gs ++ [s.globalGroup]).Nodup
    rw [← List.concat_eq_append]
    exact hnd.concat hinv.groups.global_notMem
  · have htop : u.ctxTop = s.ctxTop := hfree.names.ctxTop.trans hall.ctxTop
    rw [htop] at hperm
    exact hperm
  · show u.notices = _
    rw [hfree.notices, hall.notices]
  · obtain ⟨G, hG⟩ := hall.shared (SharedRun.run (h.and hkeeps)).shared
    exact (hfree.shared.shared hG).heads_nil hics

/-- Two groups, contexts in both of them and in none, one focused and one destroyed. -/
def openOps : List (IcOp ℕ) :=
  [.new 0 0 true, .new 1 0 false, .new 2 0 true, .focusGroupNew, .focusGroupNew, .setFocusGroup 0 .local (some 1),
    .setFocusGroup 1 .global none, .focusIn 1, .focusIn 0, .destroy 1]

theorem run_managerFree_open :
    let s := run openOps
    let freed := s.managerFree
    freed.sys.ics = [] ∧ freed.sys.icsByUuid = [] ∧
      freed.groups = s.groups ++ [s.globalGroup] ∧ freed.groups.Nodup ∧
      freed.contexts.Perm (List.range s.ctxTop) ∧
      freed.sys.notices = s.notices ++ s.ics.filter (fun c => (s.ctx c).destroyNotify) ∧
      (Run.Admissible step (fun s op => op.KeepsKeys s) initial openOps → freed.sys.heads = []) :=
  run_managerFree openOps (by decide)

/-- **Every life of a context is over** once the manager is freed, if no step misreported a surrounding text. -/
theorem run_managerFree_lives (ops : List (IcOp V))
    (h : Run.Admissible step (fun s op => op.Ok s ∧ ¬ op.Misreports s) initial ops) (c : ContextPtr) :
    History ((run ops).managerFree.sys.events c) .gone := by
  obtain ⟨gs, L, hinv⟩ := run_follows ops h
  obtain ⟨t, u, L', hall, hfree, hinv', heq⟩ := hinv.managerFree follows_traceProperty (Cells.run ops)
  have hics : u.ics = [] := hfree.names.ics.trans hall.ics
  have hphase : u.phase c = .gone := if_neg fun hc => by rw [hics] at hc; cases hc
  have hlaw := (traceLaw_iff u).mpr hinv'.trace c
  rw [hphase] at hlaw
  rw [heq]
  exact hlaw

theorem run_managerFree_lives_open : History ((run openOps).managerFree.sys.events 0) .gone :=
  have hok : IcOp.AllOk openOps := by decide
  run_managerFree_lives openOps (hok.and ⟨id, id, id, id, id, id, id, id, id, id, trivial⟩) 0

end IcSystem

end Fcitx
