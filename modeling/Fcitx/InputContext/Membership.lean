/-
# Moving between groups

A context that changes its group loses the focus, is linked from one list to
the other, and asks for the focus again if it had it. Freeing a group moves all
its contexts out, one by one, in a loop that unlinks the entry it stands on.
Both keep the focus invariant; what the move does to the lists is `moved`.

Key definitions: `moved`.
Key theorems: `_setFocusGroup_inv`, `focusGroupFree_inv`.
-/
import Fcitx.InputContext.FocusInvariant

namespace Fcitx

open InputContextManager IcSystem

variable {V : Type}

/-- The lists once `c` went from the group `old` to the group `new`. -/
def unlinked (L : GroupPtr → List ContextPtr) (c : ContextPtr) :
    Option GroupPtr → GroupPtr → List ContextPtr
  | some g => Function.update L g ((L g).erase c)
  | none => L

def moved (L : GroupPtr → List ContextPtr) (c : ContextPtr) (old : Option GroupPtr) :
    Option GroupPtr → GroupPtr → List ContextPtr
  | some g => Function.update (unlinked L c old) g (unlinked L c old g ++ [c])
  | none => unlinked L c old

theorem mem_unlinked {L : GroupPtr → List ContextPtr} {c d : ContextPtr} {old : Option GroupPtr}
    {g : GroupPtr} (hnd : (L g).Nodup) (hout : old ≠ some g → c ∉ L g) :
    d ∈ unlinked L c old g ↔ d ∈ L g ∧ d ≠ c := by
  have hstay : c ∉ L g → (d ∈ L g ↔ d ∈ L g ∧ d ≠ c) := fun hc =>
    ⟨fun hd => ⟨hd, fun e => hc (e ▸ hd)⟩, And.left⟩
  cases old with
  | none => exact hstay (hout (by simp))
  | some k =>
    simp only [unlinked]
    by_cases hg : g = k
    · subst hg
      rw [Function.update_self, hnd.mem_erase_iff, and_comm]
    · rw [Function.update_of_ne hg]
      exact hstay (hout fun e => hg (Option.some.inj e).symm)

theorem mem_moved {L : GroupPtr → List ContextPtr} {c d : ContextPtr} {old new : Option GroupPtr}
    {g : GroupPtr} (hnd : (L g).Nodup) (hout : old ≠ some g → c ∉ L g) :
    d ∈ moved L c old new g ↔ if d = c then new = some g else d ∈ L g := by
  have hmem := mem_unlinked (d := d) hnd hout
  cases new with
  | none =>
    rw [moved, hmem]
    by_cases hd : d = c
    · simp [hd]
    · simp [hd]
  | some k =>
    simp only [moved, Option.some.injEq]
    by_cases hg : g = k
    · subst hg
      rw [Function.update_self, List.mem_append, hmem, List.mem_singleton]
      by_cases hd : d = c
      · simp [hd]
      · simp [hd]
    · rw [Function.update_of_ne hg, hmem]
      by_cases hd : d = c
      · simp [hd, Ne.symm hg]
      · simp [hd]

section moving

variable {Φ : IcSystem V → Prop} {s : IcSystem V} {live : GroupPtr → Prop}
  {L : GroupPtr → List ContextPtr} {gs : List GroupPtr} {c : ContextPtr} {group : Option GroupPtr}

namespace FocusInv

theorem nodup {m : InputContextManager V} (h : FocusInv m live L) {g : GroupPtr} (hg : live g) :
    (L g).Nodup :=
  h.rings.nodup hg

/-- A context is in the list of no group but its own. -/
theorem notMem {m : InputContextManager V} (h : FocusInv m live L) {g : GroupPtr} (hg : live g)
    (hne : (m.ctx c).group ≠ some g) : c ∉ L g :=
  fun hc => hne ((h.mem_iff g hg c).mp hc).2

end FocusInv

/-- The list operations of a move. -/
theorem relink_rings (h : FocusInv s.toInputContextManager live L) (hc : c ∈ s.ics)
    (hlive : ∀ g, group = some g → live g) :
    Rings (s.relink c group).contextLinks live (moved L c (s.ctx c).group group) := by
  have hun : Rings (match (s.ctx c).group with
      | some _ => s.unlinkContext c
      | none => s).contextLinks live (unlinked L c (s.ctx c).group) := by
    cases hg : (s.ctx c).group with
    | none => exact h.rings
    | some g =>
      have hgl := h.group_live c hc g hg
      exact h.rings.remove hgl ((h.mem_iff g hgl c).mpr ⟨hc, hg⟩)
  cases group with
  | none => exact hun
  | some k =>
    refine hun.append (hlive k rfl) fun g hg => ?_
    rw [mem_unlinked (h.nodup hg) (h.notMem hg)]
    simp

theorem relink_sameTables (s : IcSystem V) (c : ContextPtr) (group : Option GroupPtr) :
    SameTables s.toInputContextManager (s.relink c group).toInputContextManager := by
  have hid : ∀ d, ((s.relink c group).ctx d).id = (s.ctx d).id := by
    intro d
    unfold relink
    cases (s.ctx c).group <;> cases group <;>
      · simp only [modify_ctx, unlinkContext, linkContext]
        split
        · next e => rw [e]
        · rfl
  unfold relink at hid ⊢
  cases hg : (s.ctx c).group <;> cases group <;> rw [hg] at hid <;>
    exact ⟨rfl, rfl, rfl, hid, rfl, rfl, rfl, rfl⟩

theorem relink_ctx (s : IcSystem V) (c d : ContextPtr) (group : Option GroupPtr) :
    (s.relink c group).ctx d = if d = c then { s.ctx d with group := group } else s.ctx d := by
  unfold relink
  cases (s.ctx c).group <;> cases group <;>
    · simp only [modify_ctx, unlinkContext, linkContext]
      split
      · next e => rw [e]
      · rfl

theorem relink_group (s : IcSystem V) (c : ContextPtr) (group : Option GroupPtr) :
    (s.relink c group).group = s.group ∧ (s.relink c group).trace = s.trace := by
  unfold relink
  cases (s.ctx c).group <;> cases group <;> exact ⟨rfl, rfl⟩

/-- Moving a context that is not focused. -/
theorem relink_inv (h : FocusInv s.toInputContextManager live L) (hc : c ∈ s.ics)
    (hf : (s.ctx c).focused = false) (hlive : ∀ g, group = some g → live g) :
    FocusInv (s.relink c group).toInputContextManager live
      (moved L c (s.ctx c).group group) := by
  have hsame := relink_sameTables s c group
  have hfocus : ∀ g, live g → (s.group g).focus ≠ some c := by
    intro g hg e
    have hcg := (h.focus_mem g hg c e).2
    rw [(h.focused_iff c hc g hcg).mpr e] at hf
    cases hf
  refine ⟨relink_rings h hc hlive, ?_, ?_, ?_, ?_, ?_, ?_⟩
  · intro g hg d
    rw [mem_moved (h.nodup hg) (h.notMem hg), hsame.ics, relink_ctx]
    by_cases hd : d = c
    · simp [hd, hc]
    · simp only [hd, if_false]
      exact h.mem_iff g hg d
  · intro d hd g hg
    rw [hsame.ics] at hd
    rw [relink_ctx] at hg
    by_cases hdc : d = c
    · rw [if_pos hdc] at hg
      exact hlive g hg
    · rw [if_neg hdc] at hg
      exact h.group_live d hd g hg
  · rw [hsame.globalGroup]
    exact h.global_live
  · intro g hg d hd
    rw [(relink_group s c group).1] at hd
    have hdc : d ≠ c := fun e => hfocus g hg (e ▸ hd)
    rw [hsame.ics, relink_ctx, if_neg hdc]
    exact h.focus_mem g hg d hd
  · intro d hd g hg
    rw [hsame.ics] at hd
    rw [(relink_group s c group).1]
    rw [relink_ctx] at hg ⊢
    by_cases hdc : d = c
    · -- `c` is the focus of no group
      subst hdc
      rw [if_pos rfl] at hg ⊢
      simp [hf, hfocus g (hlive g hg)]
    · rw [if_neg hdc] at hg ⊢
      exact h.focused_iff d hd g hg
  · rw [hsame.globalGroup, (relink_group s c group).1]
    exact h.exclusive

/-- **Changing the group of a context.** A new group asks for the local groups
`gs` to be known, since the focus may move there. -/
theorem _setFocusGroup_inv (gs : List GroupPtr) (group : Option GroupPtr) (hΦ : TraceProperty Φ)
    (hcb : s.callback = true) (h : FocusInv s.toInputContextManager live L) (hs : Φ s) (hc : c ∈ s.ics)
    (hlive : ∀ g, group = some g → live g)
    (hgs : group ≠ none →
      GroupInv s.toInputContextManager gs ∧ ∀ g, live g ↔ g = s.globalGroup ∨ g ∈ gs) :
    let s' := s._setFocusGroup c group
    FocusInv s'.toInputContextManager live
        (if (s.ctx c).group = group then L else moved L c (s.ctx c).group group) ∧
      Φ s' ∧ SameTables s.toInputContextManager s'.toInputContextManager ∧
      ∀ d, (s'.ctx d).group = if d = c then group else (s.ctx d).group := by
  unfold _setFocusGroup
  by_cases hsame : (s.ctx c).group = group
  · simp only [hsame, if_true]
    refine ⟨h, hs, .refl _, fun d => ?_⟩
    split
    · next e => rw [e, hsame]
    · rfl
  simp only [hsame, if_false]
  -- what holds once the context is out of focus
  have hrelink : ∀ t : IcSystem V, FocusInv t.toInputContextManager live L → Φ t →
      FocusOnly s.toInputContextManager t.toInputContextManager → (t.ctx c).focused = false →
      FocusInv (t.relink c group).toInputContextManager live (moved L c (s.ctx c).group group) ∧
        Φ (t.relink c group) ∧
        SameTables s.toInputContextManager (t.relink c group).toInputContextManager ∧
        ∀ d, ((t.relink c group).ctx d).group = if d = c then group else (s.ctx d).group := by
    intro t ht hst hsub hf
    have htc : c ∈ t.ics := hsub.ics ▸ hc
    have hinv := relink_inv ht htc hf hlive
    rw [hsub.ctxGroup] at hinv
    refine ⟨hinv, ?_, hsub.toSameTables.trans (relink_sameTables t c group), fun d => ?_⟩
    · refine hΦ.frame (relink_group t c group).2 (relink_sameTables t c group).ics
        (fun d _ => ?_) hst
      rw [relink_ctx]
      split <;> rfl
    · rw [relink_ctx]
      split
      · rfl
      · exact hsub.ctxGroup d
  cases hf : (s.ctx c).focused with
  | false =>
    simp only [Bool.false_eq_true, if_false]
    exact hrelink s h hs (.refl _) hf
  | true =>
    simp only [if_true]
    obtain ⟨h1, hs1⟩ := focusOut_inv hΦ hcb h hs hc
    have hfo := focusOut_focusOnly s c
    obtain ⟨h2, hs2, hsub2, hgroup2⟩ := hrelink (s.focusOut c) h1 hs1 hfo (by
      rw [focusOut_ctx h hc, if_pos rfl])
    have hc2 : c ∈ ((s.focusOut c).relink c group).ics := hsub2.ics ▸ hc
    have hcb2 : ((s.focusOut c).relink c group).callback = true := hsub2.callback.trans hcb
    have h3 : FocusInv (((s.focusOut c).relink c group).focusIn c).toInputContextManager live
          (moved L c (s.ctx c).group group) ∧
        Φ (((s.focusOut c).relink c group).focusIn c) ∧
        FocusOnly ((s.focusOut c).relink c group).toInputContextManager
          (((s.focusOut c).relink c group).focusIn c).toInputContextManager := by
      cases hgroup : group with
      | none =>
        subst hgroup
        exact focusIn_independent hΦ hcb2 h2 hs2 hc2 (by rw [hgroup2, if_pos rfl])
      | some g =>
        obtain ⟨hg, hl⟩ := hgs (by simp [hgroup])
        rw [← hgroup]
        refine focusIn_inv hΦ hcb2 h2 (hg.congr hsub2) (fun k => ?_) hs2 hc2
        rw [hsub2.globalGroup]
        exact hl k
    exact ⟨h3.1, h3.2.1, hsub2.trans h3.2.2.toSameTables, fun d => by
      rw [h3.2.2.ctxGroup]
      exact hgroup2 d⟩

/-- A context that is not focused just changes lists. -/
theorem _setFocusGroup_unfocused (hf : (s.ctx c).focused = false) :
    s._setFocusGroup c group = if (s.ctx c).group = group then s else s.relink c group := by
  simp [_setFocusGroup, hf]

/-! ### Freeing a group -/

/-- An empty group can be dropped. -/
theorem FocusInv.dropGroup {m : InputContextManager V} (h : FocusInv m live L) {g : GroupPtr}
    (hg : live g) (hempty : L g = []) (hglobal : g ≠ m.globalGroup) :
    FocusInv m (fun k => live k ∧ k ≠ g) L := by
  refine ⟨h.rings.mono fun k hk => hk.1, fun k hk => h.mem_iff k hk.1, fun c hc k hk => ?_,
    ⟨h.global_live, hglobal.symm⟩, fun k hk => h.focus_mem k hk.1, h.focused_iff,
    fun hne k hk => h.exclusive hne k hk.1⟩
  refine ⟨h.group_live c hc k hk, fun e => ?_⟩
  have hmem := (h.mem_iff g hg c).mpr ⟨hc, e ▸ hk⟩
  rw [hempty] at hmem
  cases hmem

/-- What holds in the loop of `focusGroupFree` while the contexts `ys` are left. -/
structure FreeLoop (Φ : IcSystem V → Prop) (s : IcSystem V) (live : GroupPtr → Prop)
    (g : GroupPtr) (ys : List ContextPtr) (t : IcSystem V) : Prop where
  inv : ∃ L, FocusInv t.toInputContextManager live L ∧ L g = ys
  trace : Φ t
  same : SameTables s.toInputContextManager t.toInputContextManager

/-- One round takes the first context out. -/
theorem FreeLoop.round (hΦ : TraceProperty Φ) (hcb : s.callback = true) {g : GroupPtr}
    (hg : live g) {y : ContextPtr} {ys : List ContextPtr} {t : IcSystem V}
    (h : FreeLoop Φ s live g (y :: ys) t) : FreeLoop Φ s live g ys (t._setFocusGroup y none) := by
  obtain ⟨⟨L, hinv, hL⟩, hΦt, hsame⟩ := h
  obtain ⟨hy, hyg⟩ := (hinv.mem_iff g hg y).mp (by rw [hL]; exact List.mem_cons_self)
  obtain ⟨h1, h2, h3, -⟩ := _setFocusGroup_inv [] none hΦ
    (hsame.callback.trans hcb) hinv hΦt hy (by simp) (by simp)
  rw [hyg] at h1
  refine ⟨⟨_, h1, ?_⟩, h2, hsame.trans h3⟩
  simp [moved, unlinked, hL]

/-- The loop of `focusGroupFree` runs over the contexts of the group. -/
theorem focusGroupFree_eq_foldl (hΦ : TraceProperty Φ) (hcb : s.callback = true)
    (h : FocusInv s.toInputContextManager live L) (hlt : ∀ c ∈ s.ics, c < s.ctxTop) (hs : Φ s)
    {g : GroupPtr} (hgl : live g) (hglobal : g ≠ s.globalGroup) :
    let t : IcSystem V := { s with groupLinks := s.groupLinks.remove (.inr g) }
    s.focusGroupFree g = (L g).foldl (fun s c => s._setFocusGroup c none) t ∧
      FreeLoop Φ t live g (L g) t := by
  intro t
  have htinv : FocusInv t.toInputContextManager live L :=
    ⟨h.rings, h.mem_iff, h.group_live, h.global_live, h.focus_mem, h.focused_iff, h.exclusive⟩
  have hstart : FreeLoop Φ t live g (L g) t :=
    ⟨⟨L, htinv, rfl⟩, hΦ.frame (s := s) rfl rfl (fun _ _ => rfl) hs, .refl _⟩
  have hlen : (L g).length < t.ctxTop + 1 :=
    Nat.lt_succ_of_le (length_le_of_nodup_lt (h.nodup hgl) fun c hc =>
      hlt c ((h.mem_iff g hgl c).mp hc).1)
  refine ⟨?_, hstart⟩
  unfold focusGroupFree
  rw [if_pos hglobal]
  refine Rings.forEachEntrySafe_eq_foldl (fun s : IcSystem V => s.contextLinks)
    (P := FreeLoop Φ t live g) (fun ys u hu => ?_)
    (fun y ys u hu => hu.round (s := t) hΦ hcb hgl) hstart hlen
  obtain ⟨⟨L', hinv, rfl⟩, -, -⟩ := hu
  exact hinv.rings.ring g hgl

/-- **Freeing a local group** moves its contexts out and forgets the group. -/
theorem focusGroupFree_inv (hΦ : TraceProperty Φ) (hcb : s.callback = true)
    (h : FocusInv s.toInputContextManager live L) (hgs : GroupInv s.toInputContextManager gs)
    (hlt : ∀ c ∈ s.ics, c < s.ctxTop) (hlive : ∀ g, live g ↔ g = s.globalGroup ∨ g ∈ gs) (hs : Φ s)
    {g : GroupPtr} (hg : g ∈ gs) :
    let s' := s.focusGroupFree g
    (∃ L', FocusInv s'.toInputContextManager (fun k => k = s.globalGroup ∨ k ∈ gs.erase g) L') ∧
      GroupInv s'.toInputContextManager (gs.erase g) ∧ Φ s' ∧
      s'.ics = s.ics ∧ s'.freeList = s.freeList ∧ s'.ctxTop = s.ctxTop ∧
      s'.globalGroup = s.globalGroup ∧ s'.callback = true ∧ ∀ c, (s'.ctx c).id = (s.ctx c).id := by
  have hglobal : g ≠ s.globalGroup := fun e => hgs.global_notMem (e ▸ hg)
  have hgl : live g := (hlive g).mpr (Or.inr hg)
  have hnd : gs.Nodup := hgs.rings.nodup (h := ()) trivial
  obtain ⟨heq, hstart⟩ := focusGroupFree_eq_foldl hΦ hcb h hlt hs hgl hglobal
  set t : IcSystem V := { s with groupLinks := s.groupLinks.remove (.inr g) } with ht
  have htgs : GroupInv t.toInputContextManager (gs.erase g) := by
    refine ⟨?_, fun k hk => hgs.lt k (List.mem_of_mem_erase hk), hgs.global_lt,
      fun hk => hgs.global_notMem (List.mem_of_mem_erase hk)⟩
    have hr := hgs.rings.remove (h := ()) trivial hg
    have hup : Function.update (fun _ : Unit => gs) () (gs.erase g) = fun _ => gs.erase g := by
      funext u
      cases u
      rw [Function.update_self]
    rwa [hup] at hr
  have hround : ∀ y ys u, FreeLoop Φ t live g (y :: ys) u →
      FreeLoop Φ t live g ys (u._setFocusGroup y none) :=
    fun y ys u hu => hu.round (s := t) hΦ hcb hgl
  obtain ⟨⟨L', hinv, hL'⟩, hΦ', hsame⟩ := Rings.foldl_rounds hround (L g) t hstart
  have hdrop := hinv.dropGroup hgl hL' (hsame.globalGroup ▸ hglobal)
  rw [heq]
  refine ⟨⟨L', ?_⟩, htgs.congr hsame, hΦ', hsame.ics, hsame.freeList, hsame.ctxTop,
    hsame.globalGroup, hsame.callback.trans hcb, hsame.id⟩
  have hset : (fun k => live k ∧ k ≠ g) = fun k => k = s.globalGroup ∨ k ∈ gs.erase g := by
    funext k
    rw [hlive, hnd.mem_erase_iff, eq_iff_iff]
    constructor
    · rintro ⟨hk | hk, hne⟩
      · exact Or.inl hk
      · exact Or.inr ⟨hne, hk⟩
    · rintro (hk | ⟨hne, hk⟩)
      · exact ⟨Or.inl hk, fun e => hglobal (e.symm.trans hk)⟩
      · exact ⟨Or.inr hk, hne⟩
  rwa [hset] at hdrop

end moving

end Fcitx
