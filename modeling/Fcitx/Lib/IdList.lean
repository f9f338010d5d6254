/-
# Doubly linked lists of numbered cells

A list of cells that are known by numbers, each with the number of the previous
and of the next cell, and `-1` at both ends. The list is linked when every cell
has its neighbours (`Linked`); turning it round exchanges the two links, so what
is shown for one end holds for the other.

Key definitions: `IdList.headId`, `IdList.lastId`, `IdList.Linked`,
`IdList.walk`.
Key theorems: `IdList.Linked.append`, `IdList.Linked.prepend`,
`IdList.Linked.remove`, `IdList.Linked.walk_next`, `IdList.Linked.walk_prev`.
-/
import Mathlib.Data.Int.Basic
import Mathlib.Data.Int.Cast.Basic
import Mathlib.Data.List.Induction
import Mathlib.Data.List.Nodup

namespace IdList

/-- The number of the first cell. -/
def headId : List ℕ → ℤ
  | [] => -1
  | i :: _ => i

/-- The number of the last cell. -/
def lastId (ids : List ℕ) : ℤ := headId ids.reverse

/-- Every cell has its neighbours. -/
def Linked (prev next : ℕ → ℤ) (ids : List ℕ) : Prop :=
  ∀ xs i ys, ids = xs ++ i :: ys → prev i = lastId xs ∧ next i = headId ys

/-- Following the links from `id` on, for `fuel` cells at most. -/
def walk (next : ℤ → ℤ) : ℕ → ℤ → List ℤ
  | 0, _ => []
  | fuel + 1, id => if id = -1 then [] else id :: walk next fuel (next id)

variable {prev next prev' next' : ℕ → ℤ} {ids xs ys : List ℕ} {i n : ℕ}

@[simp] theorem headId_nil : headId [] = -1 := rfl

@[simp] theorem headId_cons : headId (i :: ids) = i := rfl

@[simp] theorem lastId_nil : lastId [] = -1 := rfl

@[simp] theorem lastId_concat : lastId (ids ++ [i]) = i := by
  rw [lastId, List.reverse_append, List.reverse_singleton, List.singleton_append, headId_cons]

theorem lastId_reverse : lastId ids.reverse = headId ids := by rw [lastId, List.reverse_reverse]

theorem headId_append (h : xs ≠ []) : headId (xs ++ ys) = headId xs := by
  cases xs with
  | nil => exact absurd rfl h
  | cons i xs => rfl

theorem lastId_append (h : ys ≠ []) : lastId (xs ++ ys) = lastId ys := by
  rw [lastId, List.reverse_append]
  exact headId_append (by simpa using h)

theorem headId_eq_iff (i : ℕ) : headId ids = i ↔ ∃ ys, ids = i :: ys := by
  cases ids with
  | nil => simp
  | cons j ids =>
    have hid : headId (j :: ids) = i ↔ j = i := Int.ofNat_inj
    rw [hid]
    simp

theorem headId_eq_neg_iff : headId ids = -1 ↔ ids = [] := by
  cases ids with
  | nil => simp
  | cons j ids => simp

theorem lastId_eq_iff (i : ℕ) : lastId ids = i ↔ ∃ xs, ids = xs ++ [i] := by
  rw [lastId, headId_eq_iff]
  constructor
  · rintro ⟨ys, hys⟩
    exact ⟨ys.reverse, by rw [← List.reverse_reverse ids, hys, List.reverse_cons]⟩
  · rintro ⟨xs, rfl⟩
    exact ⟨xs.reverse, by simp⟩

theorem lastId_eq_neg_iff : lastId ids = -1 ↔ ids = [] := by
  rw [lastId, headId_eq_neg_iff, List.reverse_eq_nil_iff]

namespace Linked

theorem nil : Linked prev next [] := by
  intro xs i ys h
  simp at h

/-- Turning the list round exchanges the links. -/
theorem reverse (h : Linked prev next ids) : Linked next prev ids.reverse := by
  intro xs i ys hids
  have hrev : ids = ys.reverse ++ i :: xs.reverse := by
    rw [← List.reverse_reverse ids, hids]
    simp
  obtain ⟨hp, hn⟩ := h _ _ _ hrev
  refine ⟨?_, ?_⟩
  · rw [hn]
    rfl
  · rw [hp, lastId_reverse]

theorem congr (h : Linked prev next ids) (hp : ∀ i ∈ ids, prev' i = prev i)
    (hn : ∀ i ∈ ids, next' i = next i) : Linked prev' next' ids := by
  intro xs i ys hids
  have hi : i ∈ ids := by rw [hids]; simp
  rw [hp i hi, hn i hi]
  exact h xs i ys hids

/-- **A new last cell.** -/
theorem append (h : Linked prev next ids) (hnd : (ids ++ [n]).Nodup) (hpn : prev' n = lastId ids)
    (hnn : next' n = -1) (hp : ∀ i ∈ ids, prev' i = prev i)
    (hn : ∀ i ∈ ids, next' i = if (i : ℤ) = lastId ids then (n : ℤ) else next i) :
    Linked prev' next' (ids ++ [n]) := by
  intro xs i ys hids
  rcases List.append_eq_append_iff.mp hids with ⟨as, rfl, has⟩ | ⟨bs, rfl, hbs⟩
  · -- the new cell
    cases as with
    | nil =>
      obtain ⟨rfl, rfl⟩ : n = i ∧ [] = ys := by simpa using has
      simpa using ⟨hpn, hnn⟩
    | cons a as => simp at has
  · cases bs with
    | nil =>
      obtain ⟨rfl, rfl⟩ : i = n ∧ ys = [] := by simpa using hbs
      rw [List.append_nil] at hpn
      exact ⟨hpn, hnn⟩
    | cons b bs =>
      obtain ⟨rfl, rfl⟩ : i = b ∧ ys = bs ++ [n] := by simpa using hbs
      obtain ⟨hpi, hni⟩ := h xs i bs rfl
      have hi : i ∈ xs ++ i :: bs := by simp
      rw [hp i hi, hn i hi, hpi, hni]
      refine ⟨rfl, ?_⟩
      cases bs using List.reverseRecOn with
      | nil => simp
      | append_singleton bs c =>
        have hne : (i : ℤ) ≠ lastId (xs ++ i :: (bs ++ [c])) := by
          have hlast : lastId (xs ++ i :: (bs ++ [c])) = c := by
            rw [← List.cons_append, ← List.append_assoc, lastId_concat]
          rw [hlast]
          intro hic
          have hic : i = c := by exact_mod_cast hic
          subst hic
          have hnd' := (List.nodup_append.mp hnd).1
          simp [List.nodup_append] at hnd'
        rw [if_neg hne, headId_append (show bs ++ [c] ≠ [] by simp)]

/-- **A new first cell.** -/
theorem prepend (h : Linked prev next ids) (hnd : (n :: ids).Nodup) (hpn : prev' n = -1)
    (hnn : next' n = headId ids) (hn : ∀ i ∈ ids, next' i = next i)
    (hp : ∀ i ∈ ids, prev' i = if (i : ℤ) = headId ids then (n : ℤ) else prev i) :
    Linked prev' next' (n :: ids) := by
  have hrev : Linked next' prev' (ids.reverse ++ [n]) := by
    refine h.reverse.append ?_ ?_ hpn (fun i hi => hn i (List.mem_reverse.mp hi)) fun i hi => ?_
    · rw [← List.reverse_cons]
      exact List.nodup_reverse.mpr hnd
    · rw [hnn, lastId_reverse]
    · rw [lastId_reverse]
      exact hp i (List.mem_reverse.mp hi)
  have h' := hrev.reverse
  rwa [← List.reverse_cons, List.reverse_reverse] at h'

/-- Taking a cell out, seen from the next links. -/
theorem remove_next (h : Linked prev next (xs ++ i :: ys)) (hnd : (xs ++ i :: ys).Nodup)
    (hn : ∀ j ∈ xs ++ ys, next' j = if (j : ℤ) = lastId xs then headId ys else next j) :
    ∀ as j bs, xs ++ ys = as ++ j :: bs → next' j = headId bs := by
  intro as j bs hsplit
  have hj : j ∈ xs ++ ys := by rw [hsplit]; simp
  rw [hn j hj]
  rcases List.append_eq_append_iff.mp hsplit with ⟨cs, rfl, hcs⟩ | ⟨cs, rfl, hcs⟩
  · -- behind the cell
    have hne : (j : ℤ) ≠ lastId xs := by
      intro he
      obtain ⟨xs', rfl⟩ := (lastId_eq_iff j).mp he.symm
      rw [hcs] at hnd
      simp [List.nodup_append] at hnd
    rw [if_neg hne]
    exact (h (xs ++ i :: cs) j bs (by rw [hcs]; simp)).2
  · cases cs with
    | nil =>
      have hys : ys = j :: bs := by simpa using hcs.symm
      have hne : (j : ℤ) ≠ lastId (as ++ []) := by
        intro he
        obtain ⟨xs', hxs'⟩ := (lastId_eq_iff j).mp he.symm
        rw [hxs', hys] at hnd
        simp [List.nodup_append] at hnd
      rw [if_neg hne]
      exact (h (as ++ [] ++ [i]) j bs (by rw [hys]; simp)).2
    | cons c cs =>
      obtain ⟨rfl, rfl⟩ : j = c ∧ bs = cs ++ ys := by simpa using hcs
      cases cs using List.reverseRecOn with
      | nil => rw [if_pos (by simp)]; rfl
      | append_singleton cs d =>
        have hlast : lastId (as ++ j :: (cs ++ [d])) = d := by
          rw [← List.cons_append, ← List.append_assoc, lastId_concat]
        have hne : (j : ℤ) ≠ lastId (as ++ j :: (cs ++ [d])) := by
          rw [hlast]
          intro he
          have he : j = d := by exact_mod_cast he
          subst he
          have hnd' := (List.nodup_append.mp hnd).1
          simp [List.nodup_append] at hnd'
        have hbehind : headId ((cs ++ [d]) ++ i :: ys) = headId (cs ++ [d]) := headId_append (by simp)
        have hbehind' : headId (cs ++ [d] ++ ys) = headId (cs ++ [d]) := headId_append (by simp)
        rw [if_neg hne, (h as j ((cs ++ [d]) ++ i :: ys) (by simp)).2, hbehind, hbehind']

/-- **Taking a cell out.** -/
theorem remove (h : Linked prev next (xs ++ i :: ys)) (hnd : (xs ++ i :: ys).Nodup)
    (hp : ∀ j ∈ xs ++ ys, prev' j = if (j : ℤ) = headId ys then lastId xs else prev j)
    (hn : ∀ j ∈ xs ++ ys, next' j = if (j : ℤ) = lastId xs then headId ys else next j) :
    Linked prev' next' (xs ++ ys) := by
  have hforward := h.remove_next hnd hn
  have hback : ∀ as j bs, ys.reverse ++ xs.reverse = as ++ j :: bs → prev' j = headId bs := by
    have hrev := h.reverse
    rw [List.reverse_append, List.reverse_cons, List.append_assoc, List.singleton_append] at hrev
    refine hrev.remove_next ?_ fun j hj => ?_
    · have hnd' := List.nodup_reverse.mpr hnd
      rwa [List.reverse_append, List.reverse_cons, List.append_assoc, List.singleton_append] at hnd'
    · have hj' : j ∈ xs ++ ys := by
        rw [List.mem_append] at hj ⊢
        exact (hj.imp List.mem_reverse.mp List.mem_reverse.mp).symm
      rw [hp j hj', lastId_reverse]
      rfl
  intro as j bs hsplit
  refine ⟨?_, hforward as j bs hsplit⟩
  refine hback bs.reverse j as.reverse ?_
  rw [← List.reverse_append, hsplit]
  simp

/-- Following the next links shows the list. -/
theorem walk_next {step : ℤ → ℤ} (h : Linked prev next ids) (hstep : ∀ i ∈ ids, step i = next i)
    {fuel : ℕ} (hf : ids.length < fuel) : walk step fuel (headId ids) = ids.map Nat.cast := by
  suffices hsuff : ∀ ys xs, ids = xs ++ ys → ∀ fuel, ys.length < fuel →
      walk step fuel (headId ys) = ys.map Nat.cast from hsuff ids [] rfl fuel hf
  intro ys
  induction ys with
  | nil =>
    intro xs _ fuel hf
    obtain ⟨fuel, rfl⟩ := Nat.exists_eq_succ_of_ne_zero (Nat.ne_of_gt hf)
    rfl
  | cons i ys ih =>
    intro xs hids fuel hf
    obtain ⟨fuel, rfl⟩ := Nat.exists_eq_succ_of_ne_zero (Nat.ne_of_gt (Nat.zero_lt_of_lt hf))
    have hi : i ∈ ids := by rw [hids]; simp
    rw [headId_cons, walk, if_neg (by omega), hstep i hi, (h xs i ys hids).2, List.map_cons,
      ih (xs ++ [i]) (by rw [hids]; simp) fuel (by simpa using hf)]

/-- Following the previous links shows the list from the end. -/
theorem walk_prev {step : ℤ → ℤ} (h : Linked prev next ids) (hstep : ∀ i ∈ ids, step i = prev i)
    {fuel : ℕ} (hf : ids.length < fuel) :
    walk step fuel (lastId ids) = (ids.map Nat.cast).reverse := by
  have hstep' : ∀ i ∈ ids.reverse, step i = prev i := fun i hi => hstep i (List.mem_reverse.mp hi)
  have hrev := h.reverse.walk_next hstep' (show ids.reverse.length < fuel by simpa using hf)
  rw [← List.map_reverse]
  exact hrev

end Linked

end IdList
