/-
# Arenas

An arena is a range of memory that is given out from its start: `cur` is where
its free part begins. A list of arenas is packed with blocks when the arenas
do not overlap and every block lies in the part of an arena that was given out.
Carving a block out of the free part and taking a new arena in both keep this.

Key definitions: `Span`, `Span.Apart`, `Arena`, `Arena.Packed`.
Key theorems: `Span.Apart.mono`, `Arena.Packed.carve`, `Arena.Packed.grow`.
-/
import Mathlib.Data.List.Perm.Basic
import Mathlib.Order.Nat

/-- The addresses from `start` on, `len` of them. -/
structure Span where
  start : ℕ
  len : ℕ
deriving DecidableEq

namespace Span

/-- The first address behind a range. -/
def stop (a : Span) : ℕ := a.start + a.len

/-- Two ranges have no address in common: the first one to end ends before the other one starts. -/
def Apart (a b : Span) : Prop := min a.stop b.stop ≤ max a.start b.start

instance (a b : Span) : Decidable (a.Apart b) := inferInstanceAs (Decidable (_ ≤ _))

theorem Apart.symm {a b : Span} (h : a.Apart b) : b.Apart a := by
  unfold Apart at h ⊢
  omega

/-- A range lies in another one. -/
def Within (a b : Span) : Prop := b.start ≤ a.start ∧ a.stop ≤ b.stop

instance (a b : Span) : Decidable (a.Within b) := inferInstanceAs (Decidable (_ ∧ _))

theorem Apart.mono {a a' b b' : Span} (h : a'.Apart b') (ha : a.Within a') (hb : b.Within b') :
    a.Apart b := by
  unfold Apart Within at *
  omega

end Span

/-- A range of memory, and the start of its free part. -/
structure Arena where
  memory : Span
  cur : ℕ

namespace Arena

/-- The blocks lie in the used parts of the arenas, and nothing overlaps. -/
structure Packed (arenas : List Arena) (blocks : List Span) : Prop where
  start_le : ∀ a ∈ arenas, a.memory.start ≤ a.cur
  le_stop : ∀ a ∈ arenas, a.cur ≤ a.memory.stop
  apart : (arenas.map Arena.memory).Pairwise Span.Apart
  used : ∀ b ∈ blocks, ∃ a ∈ arenas, a.memory.start ≤ b.start ∧ b.stop ≤ a.cur
  blocks_apart : blocks.Pairwise Span.Apart

theorem packed_nil : Packed [] [] :=
  ⟨fun _ ha => absurd ha List.not_mem_nil, fun _ ha => absurd ha List.not_mem_nil, .nil,
    fun _ hb => absurd hb List.not_mem_nil, .nil⟩

namespace Packed

variable {arenas arenas' pre post : List Arena} {blocks : List Span} {a : Arena} {b : Span}

theorem perm (h : Packed arenas blocks) (hp : arenas.Perm arenas') : Packed arenas' blocks := by
  refine ⟨fun a ha => h.start_le a (hp.mem_iff.mpr ha), fun a ha => h.le_stop a (hp.mem_iff.mpr ha), ?_,
    fun b hb => ?_, h.blocks_apart⟩
  · exact (hp.map Arena.memory).pairwise h.apart fun h => h.symm
  · obtain ⟨a, ha, hin⟩ := h.used b hb
    exact ⟨a, hp.mem_iff.mp ha, hin⟩

/-- A block lies in the memory of an arena. -/
theorem within (h : Packed arenas blocks) (hb : b ∈ blocks) : ∃ a ∈ arenas, b.Within a.memory := by
  obtain ⟨a, ha, hlo, hhi⟩ := h.used b hb
  exact ⟨a, ha, hlo, hhi.trans (h.le_stop a ha)⟩

/-- **Carving a block** out of the free part of an arena. -/
theorem carve (h : Packed (a :: post) blocks) (hlo : a.cur ≤ b.start) (hhi : b.stop ≤ a.memory.stop) :
    Packed ({ a with cur := b.stop } :: post) (blocks ++ [b]) := by
  have hcur := h.start_le a List.mem_cons_self
  have hstop : b.start ≤ b.stop := Nat.le_add_right _ _
  have hmem : ({ a with cur := b.stop } :: post).map Arena.memory = (a :: post).map Arena.memory := rfl
  have hother : ∀ a' ∈ post, a.memory.Apart a'.memory := by
    intro a' ha'
    have hp := h.apart
    rw [List.map_cons, List.pairwise_cons] at hp
    exact hp.1 _ (List.mem_map_of_mem ha')
  refine ⟨fun a' ha' => ?_, fun a' ha' => ?_, ?_, fun b' hb' => ?_, ?_⟩
  · rcases List.mem_cons.mp ha' with rfl | ha'
    · show a.memory.start ≤ b.stop
      omega
    · exact h.start_le a' (List.mem_cons_of_mem _ ha')
  · rcases List.mem_cons.mp ha' with rfl | ha'
    · exact hhi
    · exact h.le_stop a' (List.mem_cons_of_mem _ ha')
  · rw [hmem]
    exact h.apart
  · rcases List.mem_append.mp hb' with hb' | hb'
    · obtain ⟨a', ha', hlo', hhi'⟩ := h.used b' hb'
      rcases List.mem_cons.mp ha' with rfl | ha'
      · exact ⟨_, List.mem_cons_self, hlo', by show b'.stop ≤ b.stop; omega⟩
      · exact ⟨a', List.mem_cons_of_mem _ ha', hlo', hhi'⟩
    · rw [List.mem_singleton.mp hb']
      exact ⟨_, List.mem_cons_self, hcur.trans hlo, Nat.le_refl _⟩
  · rw [List.pairwise_append]
    refine ⟨h.blocks_apart, List.pairwise_singleton _ _, fun b' hb' b'' hb'' => ?_⟩
    rw [List.mem_singleton.mp hb'']
    obtain ⟨a', ha', hlo', hhi'⟩ := h.used b' hb'
    rcases List.mem_cons.mp ha' with rfl | hpost
    · -- an earlier block of the same arena ends before the free part
      unfold Span.Apart
      omega
    · refine (hother a' hpost).symm.mono ⟨hlo', hhi'.trans (h.le_stop a' ha')⟩ ⟨hcur.trans hlo, hhi⟩

/-- **Taking in a new arena** that overlaps none. -/
theorem grow (h : Packed arenas blocks) (hcur : a.cur = a.memory.start)
    (hapart : ∀ a' ∈ arenas, a.memory.Apart a'.memory) : Packed (a :: arenas) blocks := by
  refine ⟨fun a' ha' => ?_, fun a' ha' => ?_, ?_, fun b hb => ?_, h.blocks_apart⟩
  · rcases List.mem_cons.mp ha' with rfl | ha'
    · exact Nat.le_of_eq hcur.symm
    · exact h.start_le a' ha'
  · rcases List.mem_cons.mp ha' with rfl | ha'
    · rw [hcur]
      exact Nat.le_add_right _ _
    · exact h.le_stop a' ha'
  · rw [List.map_cons, List.pairwise_cons]
    refine ⟨fun m hm => ?_, h.apart⟩
    obtain ⟨a', ha', rfl⟩ := List.mem_map.mp hm
    exact hapart a' ha'
  · obtain ⟨a', ha', hin⟩ := h.used b hb
    exact ⟨a', List.mem_cons_of_mem _ ha', hin⟩

end Packed

end Arena
