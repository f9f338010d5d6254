/-
# The focus invariant

Focus is recorded twice, in the group and in the context. `FocusInv m live L`
says that the two records agree, that the list of each live group holds exactly
its contexts, and that a focus of the global group excludes every other one.
Every focus function keeps it; what a function does to the records is said once
(`_groupSetFocus_ctx`, `_groupSetFocus_group`) and the rest follows from that.

What the callbacks see is followed alongside: a `TraceProperty` is a property
of the calls made so far that every well-timed call keeps, and each function
keeps the invariant together with any such property.

Key definitions: `FocusInv`, `Exclusive`, `TraceProperty`.
Key theorems: `FocusInv.exclusive_focused`, `_groupSetFocus_inv`, `focusIn_inv`,
`focusOut_inv`, `_setFocusGroup_inv`, `focusGroupFree_inv`.
-/
import Fcitx.InputContext.Manager

namespace Fcitx

variable {V : Type}

namespace InputContextManager

/-- Two contexts exclude each other's focus: they are in one group, or one is
in the global group and the other in any. -/
def Excludes (m : InputContextManager V) (c d : ContextPtr) : Prop :=
  ∃ g h, (m.ctx c).group = some g ∧ (m.ctx d).group = some h ∧
    (g = h ∨ g = m.globalGroup ∨ h = m.globalGroup)

/-- No two contexts that exclude each other are both focused. -/
def Exclusive (m : InputContextManager V) : Prop :=
  ∀ c ∈ m.ics, ∀ d ∈ m.ics, c ≠ d → m.Excludes c d →
    ¬ ((m.ctx c).focused = true ∧ (m.ctx d).focused = true)

/-- Fewer focused contexts exclude no less. -/
theorem Exclusive.mono {m m' : InputContextManager V} (h : m.Exclusive) (hics : m'.ics = m.ics)
    (hglobal : m'.globalGroup = m.globalGroup) (hgroup : ∀ c, (m'.ctx c).group = (m.ctx c).group)
    (hfocused : ∀ c ∈ m.ics, (m'.ctx c).focused = true → (m.ctx c).focused = true) :
    m'.Exclusive := by
  intro c hc d hd hne hex ⟨hfc, hfd⟩
  rw [hics] at hc hd
  obtain ⟨g, k, hg, hk, hgk⟩ := hex
  rw [hgroup] at hg hk
  rw [hglobal] at hgk
  exact h c hc d hd hne ⟨g, k, hg, hk, hgk⟩ ⟨hfocused c hc hfc, hfocused d hd hfd⟩

/-- `m'` has the contexts and the local groups of `m`. -/
structure SameTables (m m' : InputContextManager V) : Prop where
  ics : m'.ics = m.ics
  freeList : m'.freeList = m.freeList
  ctxTop : m'.ctxTop = m.ctxTop
  id : ∀ c, (m'.ctx c).id = (m.ctx c).id
  globalGroup : m'.globalGroup = m.globalGroup
  groupTop : m'.groupTop = m.groupTop
  groupLinks : m'.groupLinks = m.groupLinks
  callback : m'.callback = m.callback

theorem SameTables.refl (m : InputContextManager V) : SameTables m m :=
  ⟨rfl, rfl, rfl, fun _ => rfl, rfl, rfl, rfl, rfl⟩

theorem SameTables.trans {m m' m'' : InputContextManager V} (h : SameTables m m')
    (h' : SameTables m' m'') : SameTables m m'' :=
  ⟨h'.ics.trans h.ics, h'.freeList.trans h.freeList, h'.ctxTop.trans h.ctxTop,
    fun c => (h'.id c).trans (h.id c), h'.globalGroup.trans h.globalGroup,
    h'.groupTop.trans h.groupTop, h'.groupLinks.trans h.groupLinks, h'.callback.trans h.callback⟩

/-- `m'` differs from `m` in who is focused, if at all. -/
structure FocusOnly (m m' : InputContextManager V) : Prop extends SameTables m m' where
  ctxGroup : ∀ c, (m'.ctx c).group = (m.ctx c).group
  contextLinks : m'.contextLinks = m.contextLinks

theorem FocusOnly.refl (m : InputContextManager V) : FocusOnly m m :=
  ⟨.refl m, fun _ => rfl, rfl⟩

theorem FocusOnly.trans {m m' m'' : InputContextManager V} (h : FocusOnly m m')
    (h' : FocusOnly m' m'') : FocusOnly m m'' :=
  ⟨h.toSameTables.trans h'.toSameTables, fun c => (h'.ctxGroup c).trans (h.ctxGroup c),
    h'.contextLinks.trans h.contextLinks⟩

end InputContextManager

open InputContextManager

/-- The focus records agree with each other and with the lists of the groups;
`live` are the groups in use and `L` their contexts. -/
structure FocusInv (m : InputContextManager V) (live : GroupPtr → Prop)
    (L : GroupPtr → List ContextPtr) : Prop where
  rings : Rings m.contextLinks live L
  mem_iff : ∀ g, live g → ∀ c, c ∈ L g ↔ c ∈ m.ics ∧ (m.ctx c).group = some g
  group_live : ∀ c ∈ m.ics, ∀ g, (m.ctx c).group = some g → live g
  global_live : live m.globalGroup
  focus_mem : ∀ g, live g → ∀ c, (m.group g).focus = some c → c ∈ m.ics ∧ (m.ctx c).group = some g
  focused_iff : ∀ c ∈ m.ics, ∀ g, (m.ctx c).group = some g →
    ((m.ctx c).focused = true ↔ (m.group g).focus = some c)
  exclusive : (m.group m.globalGroup).focus ≠ none →
    ∀ g, live g → g ≠ m.globalGroup → (m.group g).focus = none

/-- **Contexts that exclude each other are not both focused.** -/
theorem FocusInv.exclusive_focused {m : InputContextManager V} {live : GroupPtr → Prop}
    {L : GroupPtr → List ContextPtr} (h : FocusInv m live L) : m.Exclusive := by
  rintro c hc d hd hne ⟨g, k, hg, hk, hgk⟩ ⟨hfc, hfd⟩
  rw [h.focused_iff c hc g hg] at hfc
  rw [h.focused_iff d hd k hk] at hfd
  by_cases hsame : g = k
  · subst hsame
    exact hne (Option.some.inj (hfc.symm.trans hfd))
  · rcases hgk with heq | rfl | rfl
    · exact hsame heq
    · have := h.exclusive (by simp [hfc]) k (h.group_live d hd k hk) (Ne.symm hsame)
      rw [this] at hfd
      cases hfd
    · have := h.exclusive (by simp [hfd]) g (h.group_live c hc g hg) hsame
      rw [this] at hfc
      cases hfc

/-- The events that make up the life of a context. -/
def EventType.isLife : EventType → Bool
  | inputContextCreated | inputContextDestroyed | inputContextFocusIn | inputContextFocusOut => true
  | _ => false

/-- A property of the calls made so far that is kept by what does not touch the
calls or the focus, and by every call made at the right time. -/
structure TraceProperty (Φ : IcSystem V → Prop) : Prop where
  frame : ∀ {s s' : IcSystem V}, s'.trace = s.trace → s'.ics = s.ics →
    (∀ c ∈ s.ics, (s'.ctx c).focused = (s.ctx c).focused) → Φ s → Φ s'
  focusIn : ∀ {s : IcSystem V} {c}, s.callback = true → c ∈ s.ics → (s.ctx c).focused = false →
    (s._focusIn c).Exclusive → Φ s → Φ (s._focusIn c)
  focusOut : ∀ {s : IcSystem V} {c}, s.callback = true → c ∈ s.ics → (s.ctx c).focused = true →
    (s._focusOut c).Exclusive → Φ s → Φ (s._focusOut c)
  report : ∀ {s : IcSystem V} {c} {type} {detail}, s.callback = true → c ∈ s.ics →
    type.isLife = false → s.Exclusive → Φ s → Φ (s.emit type c detail)
  created : ∀ {s : IcSystem V} {c id uuid frontend notify}, s.callback = true → c ∉ s.ics →
    (s.enroll c id uuid frontend notify).Exclusive → Φ s →
    Φ ((s.enroll c id uuid frontend notify).emit .inputContextCreated c .none)
  destroyed : ∀ {s s' : IcSystem V} {c}, s.callback = true → c ∈ s.ics → s.ics.Nodup →
    (s.ctx c).focused = false → s.Exclusive →
    s'.trace = ((s.emit .inputContextDestroyed c .none).notifyDestroy c).trace →
    s'.ics = s.ics.erase c → (∀ d ∈ s'.ics, (s'.ctx d).focused = (s.ctx d).focused) → Φ s → Φ s'

namespace IcSystem

/-! ### What the pieces write -/

@[simp] theorem emit_manager (s : IcSystem V) (type : EventType) (c : ContextPtr)
    (detail : EventDetail) :
    (s.emit type c detail).toInputContextManager = s.toInputContextManager := by
  unfold emit
  split <;> rfl

@[simp] theorem modify_ctx (s : IcSystem V) (c d : ContextPtr) (f : InputContext → InputContext) :
    (s.modify c f).ctx d = if d = c then f (s.ctx c) else s.ctx d := by
  simp [modify, Function.update_apply]

@[simp] theorem setGroupFocus_group (s : IcSystem V) (g h : GroupPtr) (x : Option ContextPtr) :
    ((s.setGroupFocus g x).group h).focus = if h = g then x else (s.group h).focus := by
  simp only [setGroupFocus, Function.update_apply]
  split <;> rfl

/-- Writing to a context what its id and group do not depend on. -/
theorem modify_focusOnly (s : IcSystem V) (c : ContextPtr) {f : InputContext → InputContext}
    (hid : ∀ ic, (f ic).id = ic.id) (hgroup : ∀ ic, (f ic).group = ic.group) :
    FocusOnly s.toInputContextManager (s.modify c f).toInputContextManager := by
  refine ⟨⟨rfl, rfl, rfl, fun d => ?_, rfl, rfl, rfl, rfl⟩, fun d => ?_, rfl⟩
  · rw [modify_ctx]
    split
    · next h => rw [hid, h]
    · rfl
  · rw [modify_ctx]
    split
    · next h => rw [hgroup, h]
    · rfl

theorem _focusIn_ctx (s : IcSystem V) (c d : ContextPtr) :
    (s._focusIn c).ctx d = if d = c then { s.ctx d with focused := true } else s.ctx d := by
  simp only [_focusIn, emit_manager, modify_ctx]
  split
  · next h => rw [h]
  · rfl

theorem _focusOut_ctx (s : IcSystem V) (c d : ContextPtr) :
    (s._focusOut c).ctx d = if d = c then { s.ctx d with focused := false } else s.ctx d := by
  simp only [_focusOut, emit_manager, modify_ctx]
  split
  · next h => rw [h]
  · rfl

@[simp] theorem _focusIn_group (s : IcSystem V) (c : ContextPtr) : (s._focusIn c).group = s.group := by
  simp [_focusIn, modify]

@[simp] theorem _focusOut_group (s : IcSystem V) (c : ContextPtr) :
    (s._focusOut c).group = s.group := by
  simp [_focusOut, modify]

theorem _focusIn_focusOnly (s : IcSystem V) (c : ContextPtr) :
    FocusOnly s.toInputContextManager (s._focusIn c).toInputContextManager := by
  rw [_focusIn, emit_manager]
  exact s.modify_focusOnly c (fun _ => rfl) fun _ => rfl

theorem _focusOut_focusOnly (s : IcSystem V) (c : ContextPtr) :
    FocusOnly s.toInputContextManager (s._focusOut c).toInputContextManager := by
  rw [_focusOut, emit_manager]
  exact s.modify_focusOnly c (fun _ => rfl) fun _ => rfl

theorem setGroupFocus_focusOnly (s : IcSystem V) (g : GroupPtr) (x : Option ContextPtr) :
    FocusOnly s.toInputContextManager (s.setGroupFocus g x).toInputContextManager :=
  ⟨⟨rfl, rfl, rfl, fun _ => rfl, rfl, rfl, rfl, rfl⟩, fun _ => rfl, rfl⟩

/-- What setting a group's focus does to the contexts. -/
theorem _groupSetFocus_ctx (s : IcSystem V) (g : GroupPtr) (x : Option ContextPtr)
    (d : ContextPtr) :
    (s._groupSetFocus g x).ctx d =
      { s.ctx d with
        focused :=
          if x = some d then true
          else if (s.group g).focus = some d then false else (s.ctx d).focused } := by
  have hs : (s.setGroupFocus g x).ctx = s.ctx := rfl
  unfold _groupSetFocus
  cases hf : (s.group g).focus with
  | none =>
    cases x with
    | none => simp [hs]
    | some c =>
      simp only [_focusIn_ctx, hs, Option.some.injEq, reduceCtorEq, if_false]
      by_cases hd : d = c
      · simp [hd]
      · simp [hd, Ne.symm hd]
  | some old =>
    cases x with
    | none =>
      simp only [_focusOut_ctx, hs, Option.some.injEq, reduceCtorEq, if_false]
      by_cases hd : d = old
      · simp [hd]
      · simp [hd, Ne.symm hd]
    | some c =>
      simp only [_focusIn_ctx, _focusOut_ctx, hs, Option.some.injEq]
      by_cases hd : d = c
      · simp only [hd, if_true]
        split <;> rfl
      · by_cases ho : d = old
        · subst ho
          simp [hd, Ne.symm hd]
        · simp [hd, Ne.symm hd, ho, Ne.symm ho]

/-- What setting a group's focus does to the groups. -/
theorem _groupSetFocus_group (s : IcSystem V) (g h : GroupPtr) (x : Option ContextPtr) :
    ((s._groupSetFocus g x).group h).focus = if h = g then x else (s.group h).focus := by
  unfold _groupSetFocus
  cases (s.group g).focus <;> cases x <;> simp

theorem _groupSetFocus_focusOnly (s : IcSystem V) (g : GroupPtr) (x : Option ContextPtr) :
    FocusOnly s.toInputContextManager (s._groupSetFocus g x).toInputContextManager := by
  have h0 := s.setGroupFocus_focusOnly g x
  unfold _groupSetFocus
  cases (s.group g).focus with
  | none =>
    cases x with
    | none => exact h0
    | some c => exact h0.trans (_focusIn_focusOnly _ c)
  | some old =>
    have h1 := h0.trans (_focusOut_focusOnly _ old)
    cases x with
    | none => exact h1
    | some c => exact h1.trans (_focusIn_focusOnly _ c)

end IcSystem

open IcSystem

section kept

variable {Φ : IcSystem V → Prop} {s : IcSystem V} {live : GroupPtr → Prop}
  {L : GroupPtr → List ContextPtr}

/-- Setting the focus of a live group to one of its contexts, or to none, keeps
the invariant, if no group that excludes the new focus has one. -/
theorem FocusInv.groupSetFocus (h : FocusInv s.toInputContextManager live L) {g : GroupPtr}
    {x : Option ContextPtr} (hx : ∀ c, x = some c → c ∈ s.ics ∧ (s.ctx c).group = some g)
    (hfree : x ≠ none → ∀ k, live k → k ≠ g → g = s.globalGroup ∨ k = s.globalGroup →
      (s.group k).focus = none) (hg : live g) :
    FocusInv (s._groupSetFocus g x).toInputContextManager live L := by
  have hsame := s._groupSetFocus_focusOnly g x
  refine ⟨?_, ?_, ?_, ?_, ?_, ?_, ?_⟩
  · rw [hsame.contextLinks]
    exact h.rings
  · intro k hk c
    rw [hsame.ics, hsame.ctxGroup]
    exact h.mem_iff k hk c
  · intro c hc k hk
    rw [hsame.ics] at hc
    rw [hsame.ctxGroup] at hk
    exact h.group_live c hc k hk
  · rw [hsame.globalGroup]
    exact h.global_live
  · intro k hk c hc
    rw [hsame.ics, hsame.ctxGroup]
    rw [_groupSetFocus_group] at hc
    split at hc
    · next e => exact e ▸ hx c hc
    · exact h.focus_mem k hk c hc
  · intro c hc k hk
    rw [hsame.ics] at hc
    rw [hsame.ctxGroup] at hk
    have hold := h.focused_iff c hc k hk
    rw [_groupSetFocus_group, _groupSetFocus_ctx]
    by_cases hkg : k = g
    · subst hkg
      by_cases hxc : x = some c
      · simp [hxc]
      · by_cases hf : (s.group k).focus = some c
        · simp [hxc, hf]
        · simpa [hxc, hf] using hold
    · -- a context of another group is neither the old focus nor the new one
      have hxc : x ≠ some c := fun e => hkg (Option.some.inj (hk.symm.trans (hx c e).2))
      have hf : (s.group g).focus ≠ some c := fun e =>
        hkg (Option.some.inj (hk.symm.trans (h.focus_mem g hg c e).2))
      simpa [hxc, hf, hkg] using hold
  · intro hne k hk hkglobal
    rw [hsame.globalGroup] at hne hkglobal
    rw [_groupSetFocus_group] at hne ⊢
    by_cases hgg : s.globalGroup = g
    · rw [if_pos hgg] at hne
      have hkg : k ≠ g := fun e => hkglobal (e.trans hgg.symm)
      rw [if_neg hkg]
      exact hfree hne k hk hkg (Or.inl hgg.symm)
    · rw [if_neg hgg] at hne
      by_cases hkg : k = g
      · rw [if_pos hkg]
        by_contra hxne
        exact hne (hfree hxne _ h.global_live hgg (Or.inr rfl))
      · rw [if_neg hkg]
        exact h.exclusive hne k hk hkglobal

/-- Setting a group's focus makes its calls at the right time. -/
theorem TraceProperty.groupSetFocus (hΦ : TraceProperty Φ) (hcb : s.callback = true)
    (h : FocusInv s.toInputContextManager live L) {g : GroupPtr} {x : Option ContextPtr}
    (hx : ∀ c, x = some c → c ∈ s.ics ∧ (s.ctx c).group = some g) (hg : live g)
    (hfinal : (s._groupSetFocus g x).Exclusive) (hs : Φ s) : Φ (s._groupSetFocus g x) := by
  have h0 : Φ (s.setGroupFocus g x) := hΦ.frame (s := s) rfl rfl (fun _ _ => rfl) hs
  unfold _groupSetFocus at hfinal ⊢
  cases hf : (s.group g).focus with
  | none =>
    rw [hf] at hfinal
    cases x with
    | none => exact h0
    | some c =>
      obtain ⟨hc, hcg⟩ := hx c rfl
      refine hΦ.focusIn hcb hc ?_ hfinal h0
      rw [← Bool.not_eq_true]
      intro hfc
      rw [show (s.setGroupFocus g (some c)).ctx c = s.ctx c from rfl, h.focused_iff c hc g hcg,
        hf] at hfc
      cases hfc
  | some old =>
    rw [hf] at hfinal
    obtain ⟨ho, hog⟩ := h.focus_mem g hg old hf
    have hof : (s.ctx old).focused = true := (h.focused_iff old ho g hog).mpr hf
    have hlow := (s.setGroupFocus_focusOnly g x).trans (_focusOut_focusOnly _ old)
    have h1 : Φ ((s.setGroupFocus g x)._focusOut old) := by
      refine hΦ.focusOut hcb ho hof ?_ h0
      refine h.exclusive_focused.mono hlow.ics hlow.globalGroup hlow.ctxGroup fun c _ hc => ?_
      rw [_focusOut_ctx] at hc
      split at hc
      · cases hc
      · exact hc
    cases x with
    | none => exact h1
    | some c =>
      obtain ⟨hc, hcg⟩ := hx c rfl
      refine hΦ.focusIn ((hlow.callback).trans hcb) (hlow.ics ▸ hc) ?_ hfinal h1
      rw [_focusOut_ctx]
      split
      · rfl
      · next hne =>
        rw [← Bool.not_eq_true]
        intro hfc
        rw [show (s.setGroupFocus g (some c)).ctx c = s.ctx c from rfl, h.focused_iff c hc g hcg,
          hf] at hfc
        exact hne (Option.some.inj hfc).symm

/-- **Setting a group's focus.** -/
theorem _groupSetFocus_inv (hΦ : TraceProperty Φ) (hcb : s.callback = true)
    (h : FocusInv s.toInputContextManager live L) (hs : Φ s) {g : GroupPtr}
    {x : Option ContextPtr} (hx : ∀ c, x = some c → c ∈ s.ics ∧ (s.ctx c).group = some g)
    (hfree : x ≠ none → ∀ k, live k → k ≠ g → g = s.globalGroup ∨ k = s.globalGroup →
      (s.group k).focus = none) (hg : live g) :
    FocusInv (s._groupSetFocus g x).toInputContextManager live L ∧ Φ (s._groupSetFocus g x) := by
  have hinv := h.groupSetFocus hx hfree hg
  exact ⟨hinv, hΦ.groupSetFocus hcb h hx hg hinv.exclusive_focused hs⟩

/-- The focus of contexts without a group is free. -/
theorem FocusInv.independent {m m' : InputContextManager V} (h : FocusInv m live L)
    (hsame : FocusOnly m m') (hgroup : m'.group = m.group)
    (hfocused : ∀ c ∈ m.ics, (m.ctx c).group ≠ none → (m'.ctx c).focused = (m.ctx c).focused) :
    FocusInv m' live L := by
  refine ⟨?_, ?_, ?_, ?_, ?_, ?_, ?_⟩
  · rw [hsame.contextLinks]
    exact h.rings
  · intro g hg c
    rw [hsame.ics, hsame.ctxGroup]
    exact h.mem_iff g hg c
  · intro c hc g hg
    rw [hsame.ics] at hc
    rw [hsame.ctxGroup] at hg
    exact h.group_live c hc g hg
  · rw [hsame.globalGroup]
    exact h.global_live
  · intro g hg c hc
    rw [hsame.ics, hsame.ctxGroup]
    rw [hgroup] at hc
    exact h.focus_mem g hg c hc
  · intro c hc g hg
    rw [hsame.ics] at hc
    rw [hsame.ctxGroup] at hg
    rw [hgroup, hfocused c hc (by rw [hg]; simp)]
    exact h.focused_iff c hc g hg
  · rw [hsame.globalGroup, hgroup]
    exact h.exclusive

/-- Losing the focus. -/
theorem focusOut_inv (hΦ : TraceProperty Φ) (hcb : s.callback = true)
    (h : FocusInv s.toInputContextManager live L) (hs : Φ s) {c : ContextPtr} (hc : c ∈ s.ics) :
    FocusInv (s.focusOut c).toInputContextManager live L ∧ Φ (s.focusOut c) := by
  unfold focusOut
  cases hg : (s.ctx c).group with
  | some g =>
    simp only
    split
    · exact _groupSetFocus_inv hΦ hcb h hs (by simp) (by simp) (h.group_live c hc g hg)
    · exact ⟨h, hs⟩
  | none =>
    simp only
    split
    · next hf =>
      have hinv : FocusInv (s._focusOut c).toInputContextManager live L := by
        refine h.independent (s._focusOut_focusOnly c) (s._focusOut_group c) fun d _ hd => ?_
        have hdc : d ≠ c := fun e => hd (e ▸ hg)
        rw [_focusOut_ctx, if_neg hdc]
      exact ⟨hinv, hΦ.focusOut hcb hc hf hinv.exclusive_focused hs⟩
    · exact ⟨h, hs⟩

theorem focusOut_focusOnly (s : IcSystem V) (c : ContextPtr) :
    FocusOnly s.toInputContextManager (s.focusOut c).toInputContextManager := by
  unfold focusOut
  cases (s.ctx c).group with
  | some g =>
    simp only
    split
    · exact s._groupSetFocus_focusOnly g none
    · exact .refl _
  | none =>
    simp only
    split
    · exact s._focusOut_focusOnly c
    · exact .refl _

/-- What losing the focus does to the contexts. -/
theorem focusOut_ctx (h : FocusInv s.toInputContextManager live L) {c : ContextPtr} (hc : c ∈ s.ics)
    (d : ContextPtr) :
    (s.focusOut c).ctx d = if d = c then { s.ctx d with focused := false } else s.ctx d := by
  have hkeep : (s.ctx c).focused = false → s.ctx d =
      if d = c then { s.ctx d with focused := false } else s.ctx d := by
    intro hf
    split
    · next e => rw [e, ← hf]
    · rfl
  unfold focusOut
  cases hg : (s.ctx c).group with
  | some g =>
    simp only
    split
    · next hf =>
      rw [_groupSetFocus_ctx, hf]
      by_cases hd : d = c
      · simp [hd]
      · simp [hd, Ne.symm hd]
    · next hf =>
      refine hkeep ?_
      rw [← Bool.not_eq_true, h.focused_iff c hc g hg]
      exact hf
  | none =>
    simp only
    split
    · exact s._focusOut_ctx c d
    · next hf => exact hkeep (by simpa using hf)

/-- Taking the focus from groups that are in use. -/
theorem unfocusGroups_inv (hΦ : TraceProperty Φ) :
    ∀ (gs : List GroupPtr) (s : IcSystem V), s.callback = true →
      FocusInv s.toInputContextManager live L → Φ s → (∀ g ∈ gs, live g) →
      let s' := gs.foldl (fun s g => s._groupSetFocus g none) s
      FocusInv s'.toInputContextManager live L ∧ Φ s' ∧
        FocusOnly s.toInputContextManager s'.toInputContextManager ∧
        ∀ g, (s'.group g).focus = if g ∈ gs then none else (s.group g).focus
  | [], s, _, h, hs, _ => ⟨h, hs, .refl _, fun g => by simp⟩
  | g :: gs, s, hcb, h, hs, hgs => by
    have hsame := s._groupSetFocus_focusOnly g none
    obtain ⟨h1, hs1⟩ := _groupSetFocus_inv hΦ hcb h hs (g := g) (x := none) (by simp) (by simp)
      (hgs g List.mem_cons_self)
    obtain ⟨h2, hs2, hsame2, hfoc⟩ := unfocusGroups_inv hΦ gs (s._groupSetFocus g none)
      (hsame.callback.trans hcb) h1 hs1 fun k hk => hgs k (List.mem_cons_of_mem _ hk)
    refine ⟨h2, hs2, hsame.trans hsame2, fun k => ?_⟩
    rw [List.foldl_cons, hfoc, _groupSetFocus_group]
    by_cases hk : k = g
    · simp [hk]
    · simp [hk]

end kept

/-! ### The local groups -/

/-- The local groups are the entries of `manager->groups`. -/
structure GroupInv (m : InputContextManager V) (gs : List GroupPtr) : Prop where
  rings : Rings m.groupLinks (fun _ => True) (fun _ => gs)
  lt : ∀ g ∈ gs, g < m.groupTop
  global_lt : m.globalGroup < m.groupTop
  global_notMem : m.globalGroup ∉ gs

namespace GroupInv

variable {m m' : InputContextManager V} {gs : List GroupPtr}

theorem length_lt (h : GroupInv m gs) : gs.length < m.groupTop + 1 :=
  Nat.lt_succ_of_le (length_le_of_nodup_lt (h.rings.nodup (h := ()) trivial) h.lt)

theorem groups_eq (h : GroupInv m gs) : m.groups = gs :=
  h.rings.entries_eq (h := ()) trivial h.length_lt

theorem congr (h : GroupInv m gs) (hsame : SameTables m m') : GroupInv m' gs := by
  refine ⟨?_, ?_, ?_, ?_⟩
  · rw [hsame.groupLinks]
    exact h.rings
  · rw [hsame.groupTop]
    exact h.lt
  · rw [hsame.globalGroup, hsame.groupTop]
    exact h.global_lt
  · rw [hsame.globalGroup]
    exact h.global_notMem

end GroupInv

section moved

variable {Φ : IcSystem V → Prop} {s : IcSystem V} {live : GroupPtr → Prop}
  {L : GroupPtr → List ContextPtr} {gs : List GroupPtr}

/-- The loop of `focusIn` takes the focus from every local group. -/
theorem focusIn_loop_eq (hgs : GroupInv s.toInputContextManager gs) :
    Links.forEachEntry (fun s : IcSystem V => s.groupLinks) ()
      (fun g s => s._groupSetFocus g none) (s.groupTop + 1) s =
      gs.foldl (fun s g => s._groupSetFocus g none) s :=
  Rings.forEachEntry_eq_foldl (fun s : IcSystem V => s.groupLinks) hgs.rings trivial
    (fun g _ s => (s._groupSetFocus_focusOnly g none).groupLinks) hgs.length_lt

/-- Focusing a context without a group. -/
theorem focusIn_independent (hΦ : TraceProperty Φ) (hcb : s.callback = true)
    (h : FocusInv s.toInputContextManager live L) (hs : Φ s) {c : ContextPtr} (hc : c ∈ s.ics)
    (hg : (s.ctx c).group = none) :
    FocusInv (s.focusIn c).toInputContextManager live L ∧ Φ (s.focusIn c) ∧
      FocusOnly s.toInputContextManager (s.focusIn c).toInputContextManager := by
  unfold focusIn
  simp only [hg, reduceCtorEq, if_false]
  split
  · exact ⟨h, hs, .refl _⟩
  · next hf =>
    have hinv : FocusInv (s._focusIn c).toInputContextManager live L := by
      refine h.independent (s._focusIn_focusOnly c) (s._focusIn_group c) fun d _ hd => ?_
      have hdc : d ≠ c := fun e => hd (e ▸ hg)
      rw [_focusIn_ctx, if_neg hdc]
    exact ⟨hinv, hΦ.focusIn hcb hc (by simpa using hf) hinv.exclusive_focused hs,
      s._focusIn_focusOnly c⟩

/-- **Focusing a context.** `gs` are the local groups, and every group in use
is one of them or the global one. -/
theorem focusIn_inv (hΦ : TraceProperty Φ) (hcb : s.callback = true)
    (h : FocusInv s.toInputContextManager live L) (hgs : GroupInv s.toInputContextManager gs)
    (hlive : ∀ g, live g ↔ g = s.globalGroup ∨ g ∈ gs) (hs : Φ s) {c : ContextPtr}
    (hc : c ∈ s.ics) :
    FocusInv (s.focusIn c).toInputContextManager live L ∧ Φ (s.focusIn c) ∧
      FocusOnly s.toInputContextManager (s.focusIn c).toInputContextManager := by
  cases hg : (s.ctx c).group with
  | none => exact focusIn_independent hΦ hcb h hs hc hg
  | some g =>
    have hgl := h.group_live c hc g hg
    unfold focusIn
    rw [hg]
    simp only [Option.some.injEq]
    split
    · next hglobal =>
      -- the local groups lose their focus, then the global one gets it
      subst hglobal
      rw [focusIn_loop_eq hgs]
      obtain ⟨h1, hs1, hsame1, hfoc⟩ := unfocusGroups_inv hΦ gs s hcb h hs
        fun k hk => (hlive k).mpr (Or.inr hk)
      set s1 := gs.foldl (fun s g => s._groupSetFocus g none) s with hs1def
      rw [← hsame1.globalGroup] at hg hgl
      have hset := _groupSetFocus_inv hΦ (hsame1.callback.trans hcb) h1 hs1
        (g := s1.globalGroup) (x := some c)
        (fun d hd => Option.some.inj hd ▸ ⟨hsame1.ics ▸ hc, (hsame1.ctxGroup c).trans hg⟩)
        (fun _ k hk hne _ => ?_) hgl
      · exact ⟨hset.1, hset.2, hsame1.trans (s1._groupSetFocus_focusOnly _ _)⟩
      · rw [hfoc, if_pos]
        rw [hsame1.globalGroup] at hne
        exact ((hlive k).mp hk).resolve_left hne
    · next hglobal =>
      -- the global group loses its focus first
      have hsame1 := s._groupSetFocus_focusOnly s.globalGroup none
      obtain ⟨h1, hs1⟩ := _groupSetFocus_inv hΦ hcb h hs (g := s.globalGroup) (x := none) (by simp)
        (by simp) h.global_live
      set s1 := s._groupSetFocus s.globalGroup none with hs1def
      have hset := _groupSetFocus_inv hΦ (hsame1.callback.trans hcb) h1 hs1 (g := g) (x := some c)
        (fun d hd => Option.some.inj hd ▸ ⟨hsame1.ics ▸ hc, (hsame1.ctxGroup c).trans hg⟩)
        (fun _ k _ _ hk => ?_) hgl
      · exact ⟨hset.1, hset.2, hsame1.trans (s1._groupSetFocus_focusOnly _ _)⟩
      · rw [hsame1.globalGroup] at hk
        rw [hs1def, _groupSetFocus_group, if_pos (hk.resolve_left hglobal)]

end moved

end Fcitx
