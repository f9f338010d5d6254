/-
# What the focus functions do to the set of focused contexts

The invariant says which contexts cannot be focused together; this module says
which ones are focused after a call. A context conflicts with those of its
group, and the global group conflicts with every group. Focusing a context
keeps the focused contexts it does not conflict with, and freeing a group
leaves its contexts without one.

Key definitions: `focusedSet`, `Conflicts`, `FocusEffects`, `FreedToGlobal`.
Key theorems: `focusIn_focusedSet`, `_setFocusGroup_focusedSet`,
`run_focusEffects`, `run_freedToGlobal_iff`.
-/
import Fcitx.InputContext.FocusRun
import Mathlib.Data.Set.Insert

namespace Fcitx

open InputContextManager IcSystem

variable {V : Type}

namespace InputContextManager

/-- The contexts that are focused. -/
def focusedSet (m : InputContextManager V) : Set ContextPtr :=
  {c | c ∈ m.ics ∧ (m.ctx c).focused = true}

/-- A context in `group` conflicts with `d`: in the global group with every
context that has a group, in a local one with those of that group and of the
global one, without a group with none. -/
def Conflicts (m : InputContextManager V) (group : Option GroupPtr) (d : ContextPtr) : Prop :=
  match group with
  | none => False
  | some g =>
    if g = m.globalGroup then (m.ctx d).group ≠ none
    else (m.ctx d).group = some g ∨ (m.ctx d).group = some m.globalGroup

theorem Conflicts.congr {m m' : InputContextManager V} {d : ContextPtr}
    (hgroup : (m'.ctx d).group = (m.ctx d).group) (hglobal : m'.globalGroup = m.globalGroup)
    (group : Option GroupPtr) : m'.Conflicts group d ↔ m.Conflicts group d := by
  unfold Conflicts
  rw [hgroup, hglobal]

theorem not_conflicts_none (m : InputContextManager V) (d : ContextPtr) : ¬ m.Conflicts none d := id

theorem conflicts_global (m : InputContextManager V) (d : ContextPtr) :
    m.Conflicts (some m.globalGroup) d ↔ (m.ctx d).group ≠ none := by
  simp [Conflicts]

theorem conflicts_local {m : InputContextManager V} {g : GroupPtr} (hg : g ≠ m.globalGroup)
    (d : ContextPtr) :
    m.Conflicts (some g) d ↔ (m.ctx d).group = some g ∨ (m.ctx d).group = some m.globalGroup := by
  simp [Conflicts, hg]

/-- A context excludes the focus of those it conflicts with. -/
theorem Conflicts.excludes {m : InputContextManager V} {c d : ContextPtr}
    (h : m.Conflicts (m.ctx c).group d) : m.Excludes c d := by
  cases hg : (m.ctx c).group with
  | none =>
    rw [hg] at h
    exact absurd h (m.not_conflicts_none d)
  | some g =>
    rw [hg] at h
    by_cases hglobal : g = m.globalGroup
    · rw [hglobal, conflicts_global] at h
      obtain ⟨k, hk⟩ := Option.ne_none_iff_exists'.mp h
      exact ⟨g, k, hg, hk, Or.inr (Or.inl hglobal)⟩
    · rcases (conflicts_local hglobal d).mp h with hd | hd
      · exact ⟨g, g, hg, hd, Or.inl rfl⟩
      · exact ⟨g, m.globalGroup, hg, hd, Or.inr (Or.inr rfl)⟩

end InputContextManager

/-- The effects of the focus functions on the set of focused contexts. -/
structure FocusEffects (s : IcSystem V) : Prop where
  focusIn : ∀ c ∈ s.ics, (s.focusIn c).focusedSet =
    insert c {d | d ∈ s.focusedSet ∧ ¬ s.Conflicts (s.ctx c).group d}
  focusOut : ∀ c ∈ s.ics, (s.focusOut c).focusedSet = {d | d ∈ s.focusedSet ∧ d ≠ c}
  /-- `group` is given exactly for a local group -/
  setFocusGroup : ∀ c ∈ s.ics, ∀ type group, (type = .local ↔ group ≠ none) →
    (∀ g ∈ group, g ∈ s.groups) →
      (c ∉ s.focusedSet → (s.setFocusGroup c type group).focusedSet = s.focusedSet) ∧
        (c ∈ s.focusedSet → (s.setFocusGroup c type group).focusedSet =
          insert c {d | d ∈ s.focusedSet ∧
            ¬ s.Conflicts (if type = .global then some s.globalGroup else group) d})

/-- What freeing the local group `g` should do. -/
structure FreedToGlobal (s : IcSystem V) (g : GroupPtr) : Prop where
  member : ∀ c ∈ s.inputContexts g,
    ((s.focusGroupFree g).ctx c).group = some (s.focusGroupFree g).globalGroup
  focused : ∀ c ∈ s.inputContexts g, (s.ctx c).focused = true →
    ((s.focusGroupFree g).group (s.focusGroupFree g).globalGroup).focus = some c ∧
      ∀ d ∈ (s.focusGroupFree g).ics, ((s.focusGroupFree g).ctx d).group ≠ none → d ≠ c →
        ((s.focusGroupFree g).ctx d).focused = false
  unfocused : (∀ c ∈ s.inputContexts g, (s.ctx c).focused = false) →
    (s.focusGroupFree g).focusedSet = s.focusedSet

section effects

variable {s : IcSystem V} {live : GroupPtr → Prop} {L : GroupPtr → List ContextPtr}
  {gs : List GroupPtr} {c d : ContextPtr} {group : Option GroupPtr}

/-! ### Focusing -/

/-- Setting a group's focus takes it from the other contexts of the group. -/
theorem FocusInv.groupSetFocus_focused (h : FocusInv s.toInputContextManager live L) {g : GroupPtr}
    (hg : live g) (x : Option ContextPtr) (hd : d ∈ s.ics) :
    ((s._groupSetFocus g x).ctx d).focused = true ↔
      x = some d ∨ (s.ctx d).focused = true ∧ (s.ctx d).group ≠ some g := by
  have hfocus : (s.group g).focus = some d ↔ (s.ctx d).focused = true ∧ (s.ctx d).group = some g := by
    constructor
    · intro hf
      have hdg := (h.focus_mem g hg d hf).2
      exact ⟨(h.focused_iff d hd g hdg).mpr hf, hdg⟩
    · intro hf
      exact (h.focused_iff d hd g hf.2).mp hf.1
  rw [_groupSetFocus_ctx]
  dsimp only
  by_cases hx : x = some d
  · simp [hx]
  · rw [if_neg hx]
    by_cases hf : (s.group g).focus = some d
    · simp [hf, hx, (hfocus.mp hf).2]
    · rw [if_neg hf]
      rw [hfocus, not_and] at hf
      constructor
      · intro hdf
        exact Or.inr ⟨hdf, hf hdf⟩
      · intro hdf
        exact (hdf.resolve_left hx).1

/-- Taking the focus from the groups `gs` leaves the other contexts focused. -/
theorem FocusInv.unfocusGroups :
    ∀ (gs : List GroupPtr) (s : IcSystem V), FocusInv s.toInputContextManager live L →
      (∀ g ∈ gs, live g) →
      let s' := gs.foldl (fun s g => s._groupSetFocus g none) s
      FocusInv s'.toInputContextManager live L ∧
        FocusOnly s.toInputContextManager s'.toInputContextManager ∧
        ∀ d ∈ s.ics, (s'.ctx d).focused = true ↔
          (s.ctx d).focused = true ∧ ∀ g ∈ gs, (s.ctx d).group ≠ some g
  | [], s, h, _ => ⟨h, .refl _, fun d _ => by simp⟩
  | g :: gs, s, h, hgs => by
    have hsame := s._groupSetFocus_focusOnly g none
    have hg := hgs g List.mem_cons_self
    have h1 : FocusInv (s._groupSetFocus g none).toInputContextManager live L :=
      h.groupSetFocus (by simp) (by simp) hg
    obtain ⟨h2, hsame2, hfocused⟩ := unfocusGroups gs (s._groupSetFocus g none) h1
      fun k hk => hgs k (List.mem_cons_of_mem _ hk)
    refine ⟨h2, hsame.trans hsame2, fun d hd => ?_⟩
    rw [List.foldl_cons, hfocused d (hsame.ics ▸ hd), h.groupSetFocus_focused hg none hd,
      hsame.ctxGroup]
    simp [and_assoc]

/-- Who is focused after `c` asked for the focus. -/
theorem focusIn_focused (h : FocusInv s.toInputContextManager live L)
    (hgs : GroupInv s.toInputContextManager gs) (hlive : ∀ g, live g ↔ g = s.globalGroup ∨ g ∈ gs)
    (hc : c ∈ s.ics) (hd : d ∈ s.ics) :
    ((s.focusIn c).ctx d).focused = true ↔
      d = c ∨ (s.ctx d).focused = true ∧ ¬ s.Conflicts (s.ctx c).group d := by
  unfold focusIn
  cases hg : (s.ctx c).group with
  | none =>
    have hno := s.not_conflicts_none d
    simp only [reduceCtorEq, if_false]
    split
    · next hf =>
      constructor
      · exact fun hdf => Or.inr ⟨hdf, hno⟩
      · rintro (rfl | hdf)
        · exact hf
        · exact hdf.1
    · rw [_focusIn_ctx]
      by_cases hdc : d = c
      · simp [hdc]
      · simp [hdc, hno]
  | some g =>
    have hgl := h.group_live c hc g hg
    simp only [Option.some.injEq]
    split
    · next hglobal =>
      -- the local groups lose their focus, then the global one gets it
      subst hglobal
      rw [focusIn_loop_eq hgs, conflicts_global]
      obtain ⟨h1, hsame, hloop⟩ := FocusInv.unfocusGroups gs s h fun k hk => (hlive k).mpr (Or.inr hk)
      set s1 := gs.foldl (fun s g => s._groupSetFocus g none) s
      have hgl1 : live s1.globalGroup := hsame.globalGroup ▸ hgl
      rw [h1.groupSetFocus_focused hgl1 _ (hsame.ics ▸ hd), hloop d hd, hsame.ctxGroup,
        hsame.globalGroup]
      have hnone : ((∀ k ∈ gs, (s.ctx d).group ≠ some k) ∧ (s.ctx d).group ≠ some s.globalGroup) ↔
          ¬ (s.ctx d).group ≠ none := by
        rw [not_not]
        constructor
        · intro hno
          by_contra hne
          obtain ⟨k, hk⟩ := Option.ne_none_iff_exists'.mp hne
          rcases (hlive k).mp (h.group_live d hd k hk) with rfl | hmem
          · exact hno.2 hk
          · exact hno.1 k hmem hk
        · intro hn
          simp [hn]
      rw [and_assoc, hnone, Option.some.injEq, eq_comm]
    · next hglobal =>
      -- the global group loses its focus first
      have hsame := s._groupSetFocus_focusOnly s.globalGroup none
      have h1 : FocusInv (s._groupSetFocus s.globalGroup none).toInputContextManager live L :=
        h.groupSetFocus (by simp) (by simp) h.global_live
      rw [conflicts_local hglobal]
      show ((IcSystem._groupSetFocus _ g (some c)).ctx d).focused = true ↔ _
      rw [h1.groupSetFocus_focused hgl _ (hsame.ics ▸ hd), h.groupSetFocus_focused h.global_live none hd,
        hsame.ctxGroup, Option.some.injEq, not_or, @eq_comm _ c d]
      simp only [reduceCtorEq, false_or, and_assoc]
      exact or_congr_right (and_congr_right' and_comm)

theorem focusIn_focusedSet (h : FocusInv s.toInputContextManager live L)
    (hgs : GroupInv s.toInputContextManager gs) (hlive : ∀ g, live g ↔ g = s.globalGroup ∨ g ∈ gs)
    (hc : c ∈ s.ics) (hsame : FocusOnly s.toInputContextManager (s.focusIn c).toInputContextManager) :
    (s.focusIn c).focusedSet = insert c {d | d ∈ s.focusedSet ∧ ¬ s.Conflicts (s.ctx c).group d} := by
  ext d
  simp only [focusedSet, Set.mem_ofPred_eq, Set.mem_insert_iff]
  rw [hsame.ics]
  constructor
  · rintro ⟨hd, hf⟩
    rcases (focusIn_focused h hgs hlive hc hd).mp hf with rfl | hf
    · exact Or.inl rfl
    · exact Or.inr ⟨⟨hd, hf.1⟩, hf.2⟩
  · rintro (rfl | ⟨⟨hd, hf⟩, hno⟩)
    · exact ⟨hc, (focusIn_focused h hgs hlive hc hc).mpr (Or.inl rfl)⟩
    · exact ⟨hd, (focusIn_focused h hgs hlive hc hd).mpr (Or.inr ⟨hf, hno⟩)⟩

theorem focusOut_focusedSet (h : FocusInv s.toInputContextManager live L) (hc : c ∈ s.ics) :
    (s.focusOut c).focusedSet = {d | d ∈ s.focusedSet ∧ d ≠ c} := by
  ext d
  simp only [focusedSet, Set.mem_ofPred_eq]
  rw [(focusOut_focusOnly s c).ics, focusOut_ctx h hc]
  by_cases hdc : d = c
  · simp [hdc]
  · simp [hdc]

/-! ### Changing the group -/

/-- Nothing is known of the calls. -/
theorem true_traceProperty : TraceProperty fun _ : IcSystem V => True :=
  ⟨fun _ _ _ _ => trivial, fun _ _ _ _ _ => trivial, fun _ _ _ _ _ => trivial,
    fun _ _ _ _ _ => trivial, fun _ _ _ _ => trivial, fun _ _ _ _ _ _ _ _ => fun _ => trivial⟩

/-- A move of a context leaves the focus of the others to the conflicts of the new group. -/
theorem _setFocusGroup_focused (hcb : s.callback = true) (h : FocusInv s.toInputContextManager live L)
    (hgs : GroupInv s.toInputContextManager gs) (hlive : ∀ g, live g ↔ g = s.globalGroup ∨ g ∈ gs)
    (hc : c ∈ s.ics) (hgroup : ∀ g, group = some g → live g) (hd : d ∈ s.ics) :
    ((s._setFocusGroup c group).ctx d).focused = true ↔
      (s.ctx d).focused = true ∧
          (d = c ∨ ((s.ctx c).focused = true → ¬ s.Conflicts group d)) := by
  cases hf : (s.ctx c).focused with
  | false =>
    rw [_setFocusGroup_unfocused hf]
    split
    · simp
    · rw [relink_ctx]
      split <;> simp
  | true =>
    by_cases hsame : (s.ctx c).group = group
    · -- nothing moves, and the others do not conflict already
      rw [_setFocusGroup, if_pos hsame, ← hsame]
      constructor
      · intro hdf
        refine ⟨hdf, ?_⟩
        by_contra hno
        rw [not_or, Classical.not_imp, not_not] at hno
        exact h.exclusive_focused c hc d hd (Ne.symm hno.1) hno.2.2.excludes ⟨hf, hdf⟩
      · exact And.left
    · have hmove : s._setFocusGroup c group = ((s.focusOut c).relink c group).focusIn c := by
        simp [_setFocusGroup, hsame, hf]
      have hout := focusOut_focusOnly s c
      have hrel := relink_sameTables (s.focusOut c) c group
      have h1 := (focusOut_inv true_traceProperty hcb h trivial hc).1
      have hf1 : ((s.focusOut c).ctx c).focused = false := by
        rw [focusOut_ctx h hc, if_pos rfl]
      have h2 := relink_inv h1 (hout.ics ▸ hc) hf1 hgroup
      set t := (s.focusOut c).relink c group with ht
      have hsub : SameTables s.toInputContextManager t.toInputContextManager :=
        hout.toSameTables.trans hrel
      have hctx : ∀ e, t.ctx e = if e = c then { s.ctx e with focused := false, group := group }
          else s.ctx e := by
        intro e
        rw [ht, relink_ctx, focusOut_ctx h hc]
        split <;> rfl
      rw [hmove, focusIn_focused h2 (hgs.congr hsub) (fun k => by rw [hsub.globalGroup, hlive])
        (hsub.ics ▸ hc) (hsub.ics ▸ hd), hctx c, if_pos rfl]
      by_cases hdc : d = c
      · simp [hdc, hf]
      · have hgroup' : (t.ctx d).group = (s.ctx d).group := by rw [hctx, if_neg hdc]
        have hcon := Conflicts.congr (m := s.toInputContextManager) hgroup' hsub.globalGroup group
        rw [hcon, hctx d, if_neg hdc]
        simp [hdc]

theorem _setFocusGroup_focusedSet (hcb : s.callback = true)
    (h : FocusInv s.toInputContextManager live L) (hgs : GroupInv s.toInputContextManager gs)
    (hlive : ∀ g, live g ↔ g = s.globalGroup ∨ g ∈ gs) (hc : c ∈ s.ics)
    (hgroup : ∀ g, group = some g → live g) :
    (c ∉ s.focusedSet → (s._setFocusGroup c group).focusedSet = s.focusedSet) ∧
      (c ∈ s.focusedSet → (s._setFocusGroup c group).focusedSet =
        insert c {d | d ∈ s.focusedSet ∧ ¬ s.Conflicts group d}) := by
  have hmem : ∀ d, d ∈ (s._setFocusGroup c group).focusedSet ↔ d ∈ s.focusedSet ∧
      (d = c ∨ (c ∈ s.focusedSet → ¬ s.Conflicts group d)) := by
    intro d
    have hics : (s._setFocusGroup c group).ics = s.ics :=
      (_setFocusGroup_inv gs group true_traceProperty hcb h trivial hc hgroup
        fun _ => ⟨hgs, hlive⟩).2.2.1.ics
    simp only [focusedSet, Set.mem_ofPred_eq, hics, hc, true_and, and_assoc]
    exact and_congr_right fun hd => _setFocusGroup_focused hcb h hgs hlive hc hgroup hd
  constructor
  · intro hf
    ext d
    rw [hmem]
    simp [hf]
  · intro hf
    ext d
    rw [hmem, Set.mem_insert_iff, Set.mem_ofPred_eq]
    by_cases hdc : d = c
    · simp [hdc, hf]
    · simp [hdc, hf]

end effects

/-! ### Freeing a group -/

section freeing

variable {Φ : IcSystem V → Prop} {s : IcSystem V} {gs : List GroupPtr}
  {L : GroupPtr → List ContextPtr} {g : GroupPtr} {c : ContextPtr}

/-- The contexts of a group that is freed are in no group afterwards. -/
theorem focusGroupFree_member (h : IcInv Φ s gs L) (hΦ : TraceProperty Φ) (hg : g ∈ gs)
    (hc : c ∈ L g) : ((s.focusGroupFree g).ctx c).group = none := by
  have hglobal : g ≠ s.globalGroup := fun e => h.groups.global_notMem (e ▸ hg)
  obtain ⟨heq, hstart⟩ := focusGroupFree_eq_foldl hΦ h.callback h.focus
    (fun d hd => h.registry.ics_lt hd) h.trace (Or.inr hg) hglobal
  set t : IcSystem V := { s with groupLinks := s.groupLinks.remove (.inr g) }
  -- a context of the group is still to come or has no group
  let P := fun ys (u : IcSystem V) =>
    FreeLoop Φ t (fun k => k = s.globalGroup ∨ k ∈ gs) g ys u ∧ (c ∈ ys ∨ (u.ctx c).group = none)
  have hround : ∀ y ys u, P (y :: ys) u → P ys (u._setFocusGroup y none) := by
    rintro y ys u ⟨hu, hleft⟩
    refine ⟨hu.round (s := t) hΦ h.callback (Or.inr hg), ?_⟩
    obtain ⟨⟨L', hinv, hL'⟩, htrace, hsame⟩ := hu
    have hy := ((hinv.mem_iff g (Or.inr hg) y).mp (hL' ▸ List.mem_cons_self)).1
    have hgroup := (_setFocusGroup_inv [] none hΦ (hsame.callback.trans h.callback) hinv htrace hy
      (by simp) (by simp)).2.2.2 c
    rw [hgroup]
    by_cases hcy : c = y
    · exact Or.inr (if_pos hcy)
    · rw [if_neg hcy]
      exact hleft.imp_left fun hm => (List.mem_cons.mp hm).resolve_left hcy
  have hend : P [] _ := Rings.foldl_rounds hround (L g) t ⟨hstart, Or.inl hc⟩
  rw [heq]
  exact hend.2.resolve_left List.not_mem_nil

/-- **Freeing a local group moves its contexts to the global one** only if it has none. -/
theorem IcInv.freedToGlobal_iff (h : IcInv Φ s gs L) (hΦ : TraceProperty Φ) (hg : g ∈ gs) :
    FreedToGlobal s g ↔ s.inputContexts g = [] := by
  have hlive : g = s.globalGroup ∨ g ∈ gs := Or.inr hg
  have hlist : s.inputContexts g = L g := by
    refine h.focus.rings.entries_eq hlive (Nat.lt_succ_of_le ?_)
    exact length_le_of_nodup_lt (h.focus.nodup hlive) fun c hc =>
      h.registry.ics_lt ((h.focus.mem_iff g hlive c).mp hc).1
  constructor
  · intro hfreed
    by_contra hne
    obtain ⟨c, hc⟩ := List.exists_mem_of_ne_nil _ hne
    have hnone := focusGroupFree_member h hΦ hg (hlist ▸ hc)
    rw [hfreed.member c hc] at hnone
    cases hnone
  · intro hempty
    have hglobal : g ≠ s.globalGroup := fun e => h.groups.global_notMem (e ▸ hg)
    obtain ⟨heq, -⟩ := focusGroupFree_eq_foldl hΦ h.callback h.focus
      (fun d hd => h.registry.ics_lt hd) h.trace hlive hglobal
    rw [← hlist, hempty] at heq
    refine ⟨fun c hc => ?_, fun c hc => ?_, fun _ => ?_⟩
    · rw [hempty] at hc
      cases hc
    · rw [hempty] at hc
      cases hc
    · rw [heq]
      rfl

end freeing

/-! ### Runs -/

theorem run_icInv {ops : List (IcOp V)} (h : IcOp.AllOk ops) :
    ∃ gs L, IcInv (fun _ => True) (IcSystem.run ops) gs L :=
  IcInv.run (fun _ _ => True) true_traceProperty trivial (fun _ _ _ _ _ _ _ _ _ _ => trivial)
    (h.mono fun _ _ hok => ⟨hok, trivial⟩)

/-- **The effects of the focus functions**, in every state that a run of operations
on live contexts and groups reaches. -/
theorem run_focusEffects (ops : List (IcOp V)) (h : IcOp.AllOk ops) :
    FocusEffects (IcSystem.run ops) := by
  obtain ⟨gs, L, hinv⟩ := run_icInv h
  set s := IcSystem.run ops
  refine ⟨fun c hc => ?_, fun c hc => focusOut_focusedSet hinv.focus hc, fun c hc type group htype hg => ?_⟩
  · have hsame := (focusIn_inv true_traceProperty hinv.callback hinv.focus hinv.groups hinv.live_iff
      trivial hc).2.2
    exact focusIn_focusedSet hinv.focus hinv.groups hinv.live_iff hc hsame
  · have hvalid : ¬ ((type = .local ∧ group = none) ∨ (type ≠ .local ∧ group ≠ none)) := by
      rintro (⟨hl, hn⟩ | ⟨hl, hn⟩)
      · exact htype.mp hl hn
      · exact hl (htype.mpr hn)
    rw [setFocusGroup, if_neg hvalid]
    refine _setFocusGroup_focusedSet hinv.callback hinv.focus hinv.groups hinv.live_iff hc fun k hk => ?_
    split at hk
    · exact Or.inl (Option.some.inj hk).symm
    · exact Or.inr (hinv.groups.groups_eq ▸ hg k hk)

/-- Contexts of the global group, of two local ones and of none, focused in turn. -/
def focusTour : List (IcOp ℕ) :=
  [.new 0 0 false, .new 1 0 false, .new 2 0 false, .new 3 0 false, .focusGroupNew, .focusGroupNew,
    .setFocusGroup 0 .global none, .setFocusGroup 1 .local (some 1), .setFocusGroup 2 .local (some 2),
    .focusIn 1, .focusIn 2, .focusIn 3, .setFocusGroup 1 .global none]

theorem run_focusEffects_tour : FocusEffects (IcSystem.run focusTour) :=
  run_focusEffects focusTour (by decide)

/-- **Freeing a local group** in a state that a run reaches does what the comment on
the groups says exactly when the group has no contexts. -/
theorem run_freedToGlobal_iff (ops : List (IcOp V)) (h : IcOp.AllOk ops) (g : GroupPtr)
    (hg : g ∈ (IcSystem.run ops).groups) :
    FreedToGlobal (IcSystem.run ops) g ↔ (IcSystem.run ops).inputContexts g = [] := by
  obtain ⟨gs, L, hinv⟩ := run_icInv h
  exact hinv.freedToGlobal_iff true_traceProperty (hinv.groups.groups_eq ▸ hg)

/-- At the end of the tour group 1 is empty; a context of the global group is focused, and one that has no group. -/
theorem run_freedToGlobal_iff_empty : FreedToGlobal (IcSystem.run focusTour) 1 :=
  (run_freedToGlobal_iff focusTour (by decide) 1 (by decide)).mpr (by decide)

/-- The focused context of a local group has no group once that is freed. -/
theorem not_freedToGlobal_member :
    ¬ FreedToGlobal (IcSystem.run ([.new 0 0 false, .focusGroupNew,
      .setFocusGroup 0 .local (some 1), .focusIn 0] : List (IcOp ℕ))) 1 := by
  intro h
  exact absurd (h.member 0 (by decide)) (by decide)

end Fcitx
