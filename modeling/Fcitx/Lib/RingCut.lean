/-
# Cutting a ring open

A ring can be cut at its head: the nodes stay linked to each other, the first
one has no node before it and the last one none after it (`Links.cut`). What is
left is a line, `Line l xs`; a line is closed around a head again by writing the
four links at its ends (`Links.close`). Both write the head and the two ends
and nothing else.

Key definitions: `Links.cut`, `Links.close`, `Line`, `Links.SameOff`.
Key theorems: `Line.cons`, `Links.close_ring`, `LinkRing.cut`.
-/
import Fcitx.Lib.Ring

variable {α : Type}

namespace Links

/-- The links of the nodes that are not in the list are the same. -/
def SameOff (xs : List α) (l l' : Links α) : Prop := ∀ a, a ∉ xs → l'.next a = l.next a ∧ l'.prev a = l.prev a

variable {xs ys : List α} {l l' l'' : Links α}

theorem SameOff.refl (xs : List α) (l : Links α) : SameOff xs l l := fun _ _ => ⟨rfl, rfl⟩

theorem SameOff.trans (h : SameOff xs l l') (h' : SameOff xs l' l'') : SameOff xs l l'' := by
  intro a ha
  exact ⟨(h' a ha).1.trans (h a ha).1, (h' a ha).2.trans (h a ha).2⟩

theorem SameOff.mono (h : SameOff xs l l') (hsub : xs ⊆ ys) : SameOff ys l l' := by
  intro a ha
  apply h a
  exact fun hmem => ha (hsub hmem)

variable [DecidableEq α]

theorem SameOff.setNext (h : SameOff xs l l') {a : α} (ha : a ∈ xs) (b : Option α) :
    SameOff xs l (l'.setNext a b) := by
  intro x hx
  have hne : x ≠ a := fun e => hx (e ▸ ha)
  simpa [hne] using h x hx

theorem SameOff.setPrev (h : SameOff xs l l') {a : α} (ha : a ∈ xs) (b : Option α) :
    SameOff xs l (l'.setPrev a b) := by
  intro x hx
  have hne : x ≠ a := fun e => hx (e ▸ ha)
  simpa [hne] using h x hx

/-- A link that is there already. -/
theorem setNext_eq_self {a : α} {b : Option α} (h : l.next a = b) : l.setNext a b = l := by
  unfold Links.setNext
  rw [← h, Function.update_eq_self]

theorem setPrev_eq_self {a : α} {b : Option α} (h : l.prev a = b) : l.setPrev a b = l := by
  unfold Links.setPrev
  rw [← h, Function.update_eq_self]

/-- Take the nodes off their head: the first one, the last one, and the links. -/
def cut (l : Links α) (h : α) : Option (α × α × Links α) := do
  let first ← l.next h
  let l := l.setPrev first none
  let last ← l.prev h
  some (first, last, l.setNext last none)

/-- Put the nodes from `first` to `last` between the two ends of the head. -/
def close (l : Links α) (h first last : α) : Links α :=
  (((l.setNext h (some first)).setPrev first (some h)).setPrev h (some last)).setNext last (some h)

end Links

/-- Nodes that are linked to each other, with nothing behind the last one. -/
structure Line (l : Links α) (xs : List α) : Prop where
  nodup : xs.Nodup
  chain : xs.IsChain l.Adj
  last : ∀ x ∈ xs.getLast?, l.next x = none

namespace Line

variable {l l' : Links α} {xs : List α} {x h : α}

/-- A line reads only the links of its own nodes. -/
theorem frame (r : Line l xs) (hl : ∀ a ∈ xs, l'.next a = l.next a ∧ l'.prev a = l.prev a) : Line l' xs := by
  refine ⟨r.nodup, Links.chain_transport r.chain (fun a ha => ?_) (fun b hb => ?_), fun x hx => ?_⟩
  · exact (hl a (List.dropLast_subset _ ha)).1
  · exact (hl b (List.mem_of_mem_tail hb)).2
  · rw [(hl x (List.mem_of_getLast? hx)).1]
    exact r.last x hx

/-- The node after the first one of a line. -/
theorem next_first (r : Line l (x :: xs)) : l.next x = xs.head? := by
  cases xs with
  | nil => exact r.last x rfl
  | cons y ys => exact (List.isChain_cons_cons.mp r.chain).1.1

theorem tail (r : Line l (x :: xs)) : Line l xs := by
  refine ⟨(List.nodup_cons.mp r.nodup).2, r.chain.tail, fun y hy => r.last y ?_⟩
  rw [List.getLast?_cons]
  simp [Option.mem_def.mp hy]

variable [DecidableEq α]

/-- One node with nothing behind it. -/
theorem singleton (l : Links α) (x : α) : Line (l.setNext x none) [x] := by
  refine ⟨List.nodup_singleton x, .singleton x, fun y hy => ?_⟩
  obtain rfl : x = y := by simpa using hy
  simp

/-- **A node is put before a line**: its `next` and the `prev` of the first node are written. -/
theorem cons {y : α} {ys : List α} (r : Line l (y :: ys)) (hx : x ∉ y :: ys) :
    Line ((l.setNext x (some y)).setPrev y (some x)) (x :: y :: ys) := by
  have hyx : y ≠ x := fun e => hx (e ▸ List.mem_cons_self)
  have hy := (List.nodup_cons.mp r.nodup).1
  refine ⟨List.nodup_cons.mpr ⟨hx, r.nodup⟩, List.isChain_cons_cons.mpr ⟨⟨by simp, by simp⟩, ?_⟩, fun z hz => ?_⟩
  · apply Links.chain_transport r.chain
    · intro a ha
      have hne : a ≠ x := fun e => hx (e ▸ List.dropLast_subset _ ha)
      simp [hne]
    · intro b hb
      have hne : b ≠ y := fun e => hy (e ▸ hb)
      simp [hne]
  · rw [List.getLast?_cons_cons] at hz
    have hne : z ≠ x := fun e => hx (e ▸ List.mem_of_getLast? hz)
    simpa [hne] using r.last z hz

end Line

variable [DecidableEq α] {l : Links α} {h : α} {xs : List α}

/-- **Closing**: nodes that are linked to each other become the ring of a head. -/
theorem Links.close_ring (hnodup : xs.Nodup) (hchain : xs.IsChain l.Adj) (hh : h ∉ xs) {first last : α}
    (hfirst : xs.head? = some first) (hlast : xs.getLast? = some last) :
    LinkRing (l.close h first last) h xs := by
  obtain ⟨ys, rfl⟩ : ∃ ys, xs = first :: ys := List.head?_eq_some_iff.mp hfirst
  have hfh : first ≠ h := fun e => hh (e ▸ List.mem_cons_self)
  have hmem : last ∈ first :: ys := List.mem_of_getLast? hlast
  have hlh : last ≠ h := fun e => hh (e ▸ hmem)
  refine ⟨List.nodup_cons.mpr ⟨hh, hnodup⟩, ?_⟩
  rw [List.cons_append, List.isChain_cons_cons, ← List.cons_append, List.isChain_append]
  refine ⟨⟨?_, ?_⟩, ?_, .singleton h, fun x hx y hy => ?_⟩
  · simp [Links.close, hlh.symm]
  · simp [Links.close, hfh]
  · -- inside, the `next` of all but the last and the `prev` of all but the first stay
    apply Links.chain_transport hchain
    · intro a ha
      have hah : a ≠ h := fun e => hh (e ▸ List.dropLast_subset _ ha)
      have hal : a ≠ last := by
        rintro rfl
        have hcat := List.dropLast_append_getLast? a hlast
        rw [← hcat, List.nodup_append] at hnodup
        exact hnodup.2.2 a ha a (by simp) rfl
      simp [Links.close, hah, hal]
    · intro b hb
      have hbh : b ≠ h := fun e => hh (e ▸ List.mem_of_mem_tail hb)
      have hbf : b ≠ first := fun e => (List.nodup_cons.mp hnodup).1 (e ▸ hb)
      simp [Links.close, hbh, hbf]
  · obtain rfl : last = x := Option.some_inj.mp (hlast.symm.trans hx)
    obtain rfl : h = y := by simpa using hy
    constructor <;> simp [Links.close]

theorem Links.close_sameOff (l : Links α) (h : α) {first last : α} (hfirst : first ∈ xs) (hlast : last ∈ xs) :
    Links.SameOff (h :: xs) l (l.close h first last) := by
  have hbase := (Links.SameOff.refl (h :: xs) l).setNext List.mem_cons_self (some first)
  have hprev := hbase.setPrev (List.mem_cons_of_mem h hfirst) (some h)
  exact (hprev.setPrev List.mem_cons_self (some last)).setNext (List.mem_cons_of_mem h hlast) (some h)

/-- **Cutting**: the nodes of a ring become a line, and the head keeps its links. -/
theorem LinkRing.cut (r : LinkRing l h xs) (hne : xs ≠ []) :
    ∃ first last l', l.cut h = some (first, last, l') ∧ xs.head? = some first ∧ xs.getLast? = some last ∧
      Line l' xs ∧ Links.SameOff xs l l' := by
  obtain ⟨first, ys, rfl⟩ := List.exists_cons_of_ne_nil hne
  set last := (first :: ys).getLast hne with hlast
  have hprev : l.prev h = some last := by
    rw [r.prev_head]
    exact congrArg some (List.getLast_cons hne)
  have hfh : h ≠ first := fun e => r.head_notMem (e ▸ List.mem_cons_self)
  have hmem : last ∈ first :: ys := List.getLast_mem hne
  refine ⟨first, last, (l.setPrev first none).setNext last none, ?_, rfl,
    List.getLast?_eq_some_getLast hne, ⟨r.nodup_elems, ?_, fun x hx => ?_⟩, ?_⟩
  · rw [Links.cut, r.next_head]
    simp [hfh, hprev]
  · have hchain : (first :: ys).IsChain l.Adj := by
      have hc := r.chain.tail
      exact (List.isChain_append.mp hc).1
    apply Links.chain_transport hchain
    · intro a ha
      have hal : a ≠ last := by
        intro e
        have hnd := r.nodup_elems
        rw [← List.dropLast_append_getLast hne, List.nodup_append] at hnd
        exact hnd.2.2 a ha last (by simp [hlast]) e
      simp [hal]
    · intro b hb
      have hbf : b ≠ first := fun e => (List.nodup_cons.mp r.nodup_elems).1 (e ▸ hb)
      simp [hbf]
  · rw [List.getLast?_eq_some_getLast hne] at hx
    obtain rfl : last = x := Option.some_inj.mp hx
    simp
  · exact ((Links.SameOff.refl _ l).setPrev List.mem_cons_self none).setNext hmem none
