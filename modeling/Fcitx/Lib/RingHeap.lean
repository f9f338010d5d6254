/-
# A heap of circular lists

The nodes of a heap are heads and entries. `Rings l live L` says that every
live head `h` is the head of the ring of `L h` and that no entry is in two
rings. Each list operation changes `L` at one head and keeps the rest
(`Rings.append`, `Rings.remove`, `Rings.init`), so a program that keeps its
entries in such lists can be followed on `L` alone.

Key definitions: `Rings`, `Links.entries`, `Links.forEachEntry`,
`Links.forEachEntrySafe`.
Key theorems: `Rings.append`, `Rings.remove`, `Rings.entries_eq`,
`Rings.forEachEntry_eq_foldl`, `Rings.forEachEntrySafe_eq_foldl`.
-/
import Fcitx.Lib.Ring
import Mathlib.Data.List.Perm.Subperm
import Mathlib.Data.Sum.Basic

variable {H E : Type} [DecidableEq H] [DecidableEq E]

namespace Links

/-- The entries of the list of the head `h`. -/
def entries (l : Links (H ⊕ E)) (h : H) (fuel : ℕ) : List E :=
  (l.toList (.inl h) fuel).filterMap Sum.getRight?

section loops

variable {σ : Type} (links : σ → Links (H ⊕ E)) (h : H) (body : E → σ → σ)

/-- A loop body on the nodes that runs `body` on the entries. -/
def onEntry : H ⊕ E → σ → σ
  | .inl _, s => s
  | .inr e, s => body e s

def forEachEntry (fuel : ℕ) (s : σ) : σ := forEach links (.inl h) (onEntry body) fuel s

def forEachEntrySafe (fuel : ℕ) (s : σ) : σ := forEachSafe links (.inl h) (onEntry body) fuel s

variable {links h body}

theorem forEachEntry_invariant {P : σ → Prop} (hb : ∀ e s, P s → P (body e s)) {fuel : ℕ} {s : σ}
    (hs : P s) : P (forEachEntry links h body fuel s) := by
  refine forEachFrom_invariant (fun n s hs => ?_) fuel _ s hs
  cases n with
  | inl _ => exact hs
  | inr e => exact hb e s hs

theorem forEachEntrySafe_invariant {P : σ → Prop} (hb : ∀ e s, P s → P (body e s)) {fuel : ℕ} {s : σ}
    (hs : P s) : P (forEachEntrySafe links h body fuel s) := by
  refine forEachSafeFrom_invariant (fun n s hs => ?_) fuel _ _ s hs
  cases n with
  | inl _ => exact hs
  | inr e => exact hb e s hs

end loops

end Links

/-- Unlinking an entry of one list. -/
theorem LinkRing.remove_entry {l : Links (H ⊕ E)} {h : H} {xs : List E} {e : E}
    (r : LinkRing l (.inl h) (xs.map .inr)) (he : e ∈ xs) :
    LinkRing (l.remove (.inr e)) (.inl h) ((xs.erase e).map .inr) := by
  have herase : (xs.erase e).map (.inr : E → H ⊕ E) =
      @List.erase _ instBEqOfDecidableEq (xs.map .inr) (.inr e) :=
    @List.map_erase E (H ⊕ E) _ _ instBEqOfDecidableEq _ _ Sum.inr_injective e xs
  rw [herase]
  exact r.remove (List.mem_map_of_mem he)

/-- The list of each live head; no entry is in two of them. -/
structure Rings (l : Links (H ⊕ E)) (live : H → Prop) (L : H → List E) : Prop where
  ring : ∀ h, live h → LinkRing l (.inl h) ((L h).map .inr)
  disjoint : ∀ h h' e, live h → live h' → e ∈ L h → e ∈ L h' → h = h'

/-- Distinct addresses below `n` are at most `n`. -/
theorem length_le_of_nodup_lt {xs : List ℕ} {n : ℕ} (hnd : xs.Nodup) (hlt : ∀ x ∈ xs, x < n) :
    xs.length ≤ n := by
  have hsub : xs ⊆ List.range n := fun x hx => List.mem_range.mpr (hlt x hx)
  simpa using (hnd.subperm hsub).length_le

namespace Rings

variable {l : Links (H ⊕ E)} {live : H → Prop} {L : H → List E} {h : H} {e : E}

omit [DecidableEq H] [DecidableEq E] in
theorem nodup (r : Rings l live L) (hl : live h) : (L h).Nodup :=
  List.Nodup.of_map _ (r.ring h hl).nodup_elems

omit [DecidableEq H] [DecidableEq E] in
theorem mono (r : Rings l live L) {live' : H → Prop} (hl : ∀ h, live' h → live h) :
    Rings l live' L :=
  ⟨fun h hh => r.ring h (hl h hh), fun h h' e hh hh' => r.disjoint h h' e (hl h hh) (hl h' hh')⟩

omit [DecidableEq H] [DecidableEq E] in
/-- Nodes of the rings of two heads differ. -/
theorem separate (r : Rings l live L) {h' : H} (hl : live h) (hl' : live h') (hne : h ≠ h') :
    ∀ a ∈ (.inl h : H ⊕ E) :: (L h).map .inr, a ∉ (.inl h' : H ⊕ E) :: (L h').map .inr := by
  intro a ha ha'
  simp only [List.mem_cons, List.mem_map] at ha ha'
  rcases ha with rfl | ⟨e, he, rfl⟩
  · rcases ha' with ha' | ⟨e, _, ha'⟩
    · exact hne (Sum.inl.inj ha')
    · cases ha'
  · rcases ha' with ha' | ⟨e', he', ha'⟩
    · cases ha'
    · exact hne (r.disjoint h h' e hl hl' he (Sum.inr.inj ha' ▸ he'))

/-- **Appending a new entry to one list.** -/
theorem append (r : Rings l live L) (hl : live h) (he : ∀ h', live h' → e ∉ L h') :
    Rings (l.append (.inr e) (.inl h)) live (Function.update L h (L h ++ [e])) := by
  have hout : ∀ h', live h' → (.inr e : H ⊕ E) ∉ (.inl h' : H ⊕ E) :: (L h').map .inr :=
    fun h' hl' => by simpa using he h' hl'
  refine ⟨fun h' hl' => ?_, fun h₁ h₂ x hl₁ hl₂ hx₁ hx₂ => ?_⟩
  · by_cases hh : h' = h
    · subst hh
      rw [Function.update_self, List.map_append]
      exact (r.ring h' hl').append (hout h' hl')
    · rw [Function.update_of_ne hh]
      exact (r.ring h hl).append_frame (r.ring h' hl') (hout h' hl')
        (r.separate hl hl' (Ne.symm hh))
  · have key : ∀ h', live h' → x ∈ Function.update L h (L h ++ [e]) h' →
        x ∈ L h' ∨ (x = e ∧ h' = h) := by
      intro h' _ hx
      by_cases hh : h' = h
      · subst hh
        rw [Function.update_self, List.mem_append, List.mem_singleton] at hx
        exact hx.imp_right fun hx => ⟨hx, rfl⟩
      · rw [Function.update_of_ne hh] at hx
        exact Or.inl hx
    rcases key h₁ hl₁ hx₁ with h1 | ⟨h1, rfl⟩ <;> rcases key h₂ hl₂ hx₂ with h2 | ⟨h2, rfl⟩
    · exact r.disjoint h₁ h₂ x hl₁ hl₂ h1 h2
    · exact absurd (h2 ▸ h1) (he h₁ hl₁)
    · exact absurd (h1 ▸ h2) (he h₂ hl₂)
    · rfl

omit [DecidableEq E] in
/-- An updated list that holds no more than the old one. -/
theorem disjoint_of_subset (r : Rings l live L) {xs : List E} (hsub : ∀ x ∈ xs, x ∈ L h) :
    ∀ h₁ h₂ x, live h₁ → live h₂ → x ∈ Function.update L h xs h₁ →
      x ∈ Function.update L h xs h₂ → h₁ = h₂ := by
  intro h₁ h₂ x hl₁ hl₂ hx₁ hx₂
  have key : ∀ h', x ∈ Function.update L h xs h' → x ∈ L h' := by
    intro h' hx
    by_cases hh : h' = h
    · subst hh
      rw [Function.update_self] at hx
      exact hsub x hx
    · rwa [Function.update_of_ne hh] at hx
  exact r.disjoint h₁ h₂ x hl₁ hl₂ (key h₁ hx₁) (key h₂ hx₂)

/-- **Removing an entry from its list.** -/
theorem remove (r : Rings l live L) (hl : live h) (he : e ∈ L h) :
    Rings (l.remove (.inr e)) live (Function.update L h ((L h).erase e)) := by
  have hmem : (.inr e : H ⊕ E) ∈ (L h).map .inr := List.mem_map_of_mem he
  refine ⟨fun h' hl' => ?_, r.disjoint_of_subset fun x hx => List.mem_of_mem_erase hx⟩
  by_cases hh : h' = h
  · subst hh
    rw [Function.update_self]
    exact (r.ring h' hl').remove_entry he
  · rw [Function.update_of_ne hh]
    exact (r.ring h hl).remove_frame (r.ring h' hl') hmem (r.separate hl hl' (Ne.symm hh))

/-- **A new head starts an empty list.** -/
theorem init (r : Rings l live L) (hl : ¬ live h) :
    Rings (l.init (.inl h)) (fun h' => h' = h ∨ live h') (Function.update L h []) := by
  refine ⟨fun h' hl' => ?_, fun h₁ h₂ x hl₁ hl₂ hx₁ hx₂ => ?_⟩
  · by_cases hh : h' = h
    · subst hh
      rw [Function.update_self]
      exact LinkRing.init l _
    · rw [Function.update_of_ne hh]
      refine (r.ring h' (hl'.resolve_left hh)).init_frame ?_
      simpa using Ne.symm hh
  · have key : ∀ h', h' = h ∨ live h' → x ∈ Function.update L h [] h' → live h' ∧ x ∈ L h' := by
      intro h' hl' hx
      by_cases hh : h' = h
      · subst hh
        simp at hx
      · rw [Function.update_of_ne hh] at hx
        exact ⟨hl'.resolve_left hh, hx⟩
    obtain ⟨h1, h1'⟩ := key h₁ hl₁ hx₁
    obtain ⟨h2, h2'⟩ := key h₂ hl₂ hx₂
    exact r.disjoint h₁ h₂ x h1 h2 h1' h2'

theorem entries_eq (r : Rings l live L) (hl : live h) {fuel : ℕ} (hf : (L h).length < fuel) :
    l.entries h fuel = L h := by
  rw [Links.entries, (r.ring h hl).toList_eq _ (by simpa using hf), List.filterMap_map]
  exact List.filterMap_some

theorem isEmpty_iff (r : Rings l live L) (hl : live h) : l.isEmpty (.inl h) = true ↔ L h = [] := by
  rw [(r.ring h hl).isEmpty_iff, List.map_eq_nil_iff]

section loops

variable {σ : Type} (links : σ → Links (H ⊕ E)) {body : E → σ → σ}

theorem forEachEntry_eq_foldl {s : σ} (r : Rings (links s) live L) (hl : live h)
    (hb : ∀ y ∈ L h, ∀ s, links (body y s) = links s) {fuel : ℕ} (hf : (L h).length < fuel) :
    Links.forEachEntry links h body fuel s = (L h).foldl (fun s y => body y s) s := by
  rw [Links.forEachEntry, (r.ring h hl).forEach_eq_foldl _ (by simpa using hf), List.foldl_map]
  · rfl
  · intro y hy s
    obtain ⟨x, hx, rfl⟩ := List.mem_map.mp hy
    exact hb x hx s

/-- **The safe loop over a list whose body takes out the entry it is run on.**
`P ys` is what holds while the entries `ys` are left. -/
theorem forEachEntrySafe_eq_foldl {P : List E → σ → Prop} {s : σ} {xs : List E}
    (hP : ∀ ys s, P ys s → LinkRing (links s) (.inl h) (ys.map .inr))
    (hb : ∀ y ys s, P (y :: ys) s → P ys (body y s)) (hs : P xs s) {fuel : ℕ}
    (hf : xs.length < fuel) :
    Links.forEachEntrySafe links h body fuel s = xs.foldl (fun s y => body y s) s := by
  have hs' : ∃ ys : List E, xs.map (Sum.inr : E → H ⊕ E) = ys.map .inr ∧ P ys s := ⟨xs, rfl, hs⟩
  rw [Links.forEachEntrySafe,
    LinkRing.forEachSafe_eq_foldl (P := fun ns s => ∃ ys : List E, ns = ys.map .inr ∧ P ys s)
      _ _ hs' (by simpa using hf), List.foldl_map]
  · rfl
  · rintro ns s ⟨ys, rfl, hp⟩
    exact hP ys s hp
  · rintro n ns s ⟨ys, hns, hp⟩
    obtain ⟨y, ys', rfl, rfl, rfl⟩ := List.map_eq_cons_iff.mp hns.symm
    exact ⟨ys', rfl, hb y ys' s hp⟩

omit [DecidableEq H] [DecidableEq E] in
/-- What each round keeps, with the entries left, holds at the end with none left. -/
theorem foldl_rounds {P : List E → σ → Prop} (hb : ∀ y ys s, P (y :: ys) s → P ys (body y s)) :
    ∀ (xs : List E) (s : σ), P xs s → P [] (xs.foldl (fun s y => body y s) s)
  | [], _, hp => hp
  | x :: xs, s, hp => foldl_rounds hb xs (body x s) (hb x xs s hp)

end loops

end Rings
