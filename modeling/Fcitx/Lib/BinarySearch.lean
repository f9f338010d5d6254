/-
# Binary search

The search of `bsearch` over positions: a comparison says on which side of a
position the key is. A position that is returned always compares equal; a position
that compares equal is found when the comparison is monotone, that is, positive
before it and negative behind it.

The search for the first position that is not below the key never stops early: it
narrows its bounds until they meet. How the middle is computed is a parameter, and so
is the comparison, which may be undefined at a position.

Key definitions: `BinarySearch.search`, `BinarySearch.Monotone`, `BinarySearch.lowerLoop`,
`BinarySearch.Boundary`.
Key theorems: `BinarySearch.search_sound`, `BinarySearch.search_eq_some`,
`BinarySearch.search_eq_none_iff`, `BinarySearch.lowerLoop_eq`.
-/
import Mathlib.Data.Int.Notation
import Mathlib.Data.Nat.Notation
import Mathlib.Tactic.SplitIfs

namespace BinarySearch

/-- The rounds of the search from `l` up to `u`. -/
def loop (compar : ℕ → ℤ) : ℕ → ℕ → ℕ → Option ℕ
  | 0, _, _ => none
  | rounds + 1, l, u =>
    if u ≤ l then none
    else
      let idx := (l + u) / 2
      if compar idx < 0 then loop compar rounds l idx
      else if 0 < compar idx then loop compar rounds (idx + 1) u
      else some idx

/-- The search among `nmemb` positions; each round leaves out one of them at least. -/
def search (compar : ℕ → ℤ) (nmemb : ℕ) : Option ℕ := loop compar nmemb 0 nmemb

/-- Before a position that compares equal the key is further on, behind it the key is further back. -/
def Monotone (compar : ℕ → ℤ) (nmemb : ℕ) : Prop :=
  ∀ i j, i < j → j < nmemb → (compar j = 0 → 0 < compar i) ∧ (compar i = 0 → compar j < 0)

variable {compar : ℕ → ℤ} {nmemb : ℕ}

theorem loop_sound {rounds l u i : ℕ} (h : loop compar rounds l u = some i) : i < u ∧ compar i = 0 := by
  induction rounds generalizing l u with
  | zero => cases h
  | succ rounds ih =>
    rw [loop] at h
    dsimp only at h
    split_ifs at h with hlu hneg hpos
    · obtain ⟨hlt, hzero⟩ := ih h
      exact ⟨by omega, hzero⟩
    · exact ih h
    · cases h
      exact ⟨by omega, by omega⟩

/-- **What is returned compares equal.** -/
theorem search_sound {i : ℕ} (h : search compar nmemb = some i) : i < nmemb ∧ compar i = 0 :=
  loop_sound h

theorem loop_complete {k : ℕ} (hk : compar k = 0) (hbefore : ∀ i, i < k → 0 < compar i)
    (hbehind : ∀ i, k < i → i < nmemb → compar i < 0) {rounds l u : ℕ} (hl : l ≤ k) (hu : k < u) (hn : u ≤ nmemb)
    (hrounds : u - l ≤ rounds) : loop compar rounds l u = some k := by
  induction rounds generalizing l u with
  | zero => omega
  | succ rounds ih =>
    rw [loop, if_neg (by omega)]
    dsimp only
    rcases Nat.lt_trichotomy ((l + u) / 2) k with hlt | heq | hgt
    · have hpos := hbefore _ hlt
      rw [if_neg (by omega), if_pos hpos]
      exact ih (by omega) hu hn (by omega)
    · rw [heq, hk, if_neg (by omega), if_neg (by omega)]
    · have hneg := hbehind _ hgt (by omega)
      rw [if_pos hneg]
      exact ih hl hgt (by omega) (by omega)

/-- **What compares equal is found.** -/
theorem search_eq_some (hmono : Monotone compar nmemb) {k : ℕ} (hlt : k < nmemb) (hk : compar k = 0) :
    search compar nmemb = some k := by
  apply loop_complete hk ?_ ?_ (Nat.zero_le k) hlt (Nat.le_refl nmemb) (Nat.le_refl _)
  · intro i hi
    exact (hmono i k hi hlt).1 hk
  · intro i hi hin
    exact (hmono k i hi hin).2 hk

/-- Nothing is found exactly when nothing compares equal. -/
theorem search_eq_none_iff (hmono : Monotone compar nmemb) :
    search compar nmemb = none ↔ ∀ i < nmemb, compar i ≠ 0 := by
  constructor
  · intro h i hi hzero
    rw [search_eq_some hmono hi hzero] at h
    cases h
  · intro h
    cases hsearch : search compar nmemb with
    | none => rfl
    | some i =>
      obtain ⟨hlt, hzero⟩ := search_sound hsearch
      exact absurd hzero (h i hlt)

/-! ### The first position that is not below -/

/-- The rounds that narrow `l` and `u`, and the bounds after them. -/
def lowerLoop (mid : ℕ → ℕ → ℕ) (compar : ℕ → Option ℤ) : ℕ → ℕ → ℕ → Option (ℕ × ℕ)
  | 0, l, u => if l < u then none else some (l, u)
  | rounds + 1, l, u =>
    if l < u then do
      let idx := mid l u
      let comparison ← compar idx
      if comparison ≤ 0 then lowerLoop mid compar rounds l idx
      else lowerLoop mid compar rounds (idx + 1) u
    else some (l, u)

/-- The positions below the key are those before `k`. -/
structure Boundary (compar : ℕ → Option ℤ) (nmemb k : ℕ) : Prop where
  le : k ≤ nmemb
  before : ∀ i, i < k → ∃ c, compar i = some c ∧ 0 < c
  behind : ∀ i, k ≤ i → i < nmemb → ∃ c, compar i = some c ∧ c ≤ 0

section LowerBound

variable {mid : ℕ → ℕ → ℕ} {compar : ℕ → Option ℤ} {nmemb k : ℕ}

theorem lowerLoop_done {rounds l u : ℕ} (h : u ≤ l) : lowerLoop mid compar rounds l u = some (l, u) := by
  cases rounds with
  | zero => rw [lowerLoop, if_neg (by omega)]
  | succ rounds => rw [lowerLoop, if_neg (by omega)]

/-- One round keeps the boundary between the bounds. -/
theorem lowerLoop_step (hk : Boundary compar nmemb k) {rounds l u : ℕ} (hlt : l < u) (hmid : mid l u < nmemb) :
    lowerLoop mid compar (rounds + 1) l u =
      if k ≤ mid l u then lowerLoop mid compar rounds l (mid l u)
      else lowerLoop mid compar rounds (mid l u + 1) u := by
  rw [lowerLoop, if_pos hlt]
  by_cases hle : k ≤ mid l u
  · obtain ⟨c, hc, hneg⟩ := hk.behind _ hle hmid
    simp only [hc, Option.bind_eq_bind, Option.bind_some]
    rw [if_pos hneg, if_pos hle]
  · obtain ⟨c, hc, hpos⟩ := hk.before (mid l u) (by omega)
    simp only [hc, Option.bind_eq_bind, Option.bind_some]
    rw [if_neg (by omega), if_neg hle]

/-- **The bounds meet at the boundary**, and no comparison is undefined on the way. -/
theorem lowerLoop_eq (hk : Boundary compar nmemb k)
    (hmid : ∀ l u, l < u → u ≤ nmemb → l ≤ mid l u ∧ mid l u < u) {rounds l u : ℕ} (hl : l ≤ k) (hu : k ≤ u)
    (hn : u ≤ nmemb) (hrounds : u - l ≤ rounds) : lowerLoop mid compar rounds l u = some (k, k) := by
  induction rounds generalizing l u with
  | zero =>
    obtain rfl : l = k := by omega
    obtain rfl : u = l := by omega
    exact lowerLoop_done (Nat.le_refl _)
  | succ rounds ih =>
    rcases Nat.lt_or_ge l u with hlt | hge
    · obtain ⟨hlow, hhigh⟩ := hmid l u hlt hn
      rw [lowerLoop_step hk hlt (by omega)]
      split_ifs with hle
      · exact ih hl hle (by omega) (by omega)
      · exact ih (by omega) hu hn (by omega)
    · obtain rfl : l = k := by omega
      obtain rfl : u = l := by omega
      exact lowerLoop_done (Nat.le_refl _)

end LowerBound

end BinarySearch
