/-
# Insertion-ordered maps

A map is the list of its entries in the order of insertion, with different
keys. Finding is `List.lookup`; a new entry goes to the end, and erasing keeps
the order of the rest.

Key definitions: `Assoc.keys`, `Assoc.erase`, `Assoc.modify`.
Key theorems: `Assoc.lookup_eq_some_iff`, `Assoc.lookup_erase`,
`Assoc.lookup_concat`, `Assoc.lookup_modify`.
-/
import Mathlib.Data.List.Nodup

namespace Assoc

variable {K A : Type} [BEq K]

def keys (l : List (K × A)) : List K := l.map Prod.fst

/-- Take out the entry of `k`. -/
def erase (l : List (K × A)) (k : K) : List (K × A) := l.eraseP fun e => e.1 == k

/-- Change the value of `k`. -/
def modify (l : List (K × A)) (k : K) (f : A → A) : List (K × A) :=
  l.map fun e => if e.1 == k then (e.1, f e.2) else e

variable [LawfulBEq K] {l : List (K × A)} {k k' : K} {a : A}

theorem lookup_eq_none_iff : l.lookup k = none ↔ k ∉ keys l := by
  rw [List.lookup_eq_none_iff]
  simp only [keys, List.mem_map, not_exists, not_and, bne_iff_ne, ne_eq]
  exact ⟨fun h e he hk => h e he hk.symm, fun h e he hk => h e he hk.symm⟩

/-- Finding an entry is having it. -/
theorem lookup_eq_some_iff (hnd : (keys l).Nodup) : l.lookup k = some a ↔ (k, a) ∈ l := by
  induction l with
  | nil => simp
  | cons e l ih =>
    obtain ⟨k₁, a₁⟩ := e
    obtain ⟨hk, hnd'⟩ := List.nodup_cons.mp hnd
    rw [List.lookup_cons, List.mem_cons, Prod.mk.injEq]
    by_cases hkk : k = k₁
    · subst hkk
      have hout : (k, a) ∉ l := fun hm => hk (List.mem_map.mpr ⟨(k, a), hm, rfl⟩)
      simp [hout, eq_comm]
    · rw [beq_false_of_ne hkk]
      simp [ih hnd', hkk]

/-- The order of the entries does not matter for looking up. -/
theorem lookup_perm {l' : List (K × A)} (hperm : l'.Perm l) (hnd : (keys l).Nodup) : l'.lookup k = l.lookup k := by
  have hnd' : (keys l').Nodup := (hperm.map Prod.fst).nodup_iff.mpr hnd
  ext a
  rw [lookup_eq_some_iff hnd', lookup_eq_some_iff hnd, hperm.mem_iff]

omit [LawfulBEq K] in
theorem keys_erase : keys (erase l k) = (keys l).erase k := by
  rw [keys, keys, erase, List.erase_eq_eraseP', List.eraseP_map]
  rfl

theorem keys_erase_nodup (hnd : (keys l).Nodup) : (keys (erase l k)).Nodup := by
  rw [keys_erase]
  exact hnd.erase k

/-- Erasing leaves the entries of the other keys. -/
theorem erase_eq_filter [DecidableEq K] (hnd : (keys l).Nodup) :
    erase l k = l.filter fun e => e.1 ≠ k := by
  induction l with
  | nil => rfl
  | cons e l ih =>
    obtain ⟨hout, hnd'⟩ := List.nodup_cons.mp hnd
    rw [erase, List.eraseP_cons]
    by_cases hk : e.1 = k
    · have hrest : ∀ e ∈ l, e.1 ≠ k := fun e' he h =>
        hout (List.mem_map.mpr ⟨e', he, h.trans hk.symm⟩)
      have hall : (l.filter fun e => e.1 ≠ k) = l :=
        List.filter_eq_self.mpr fun e he => decide_eq_true (hrest e he)
      rw [List.filter_cons_of_neg (by simpa using hk), hall, hk]
      simp
    · rw [beq_false_of_ne hk, cond_false, List.filter_cons_of_pos (by simpa using hk), ← ih hnd', erase]

theorem lookup_erase_of_ne (hne : k' ≠ k) : (erase l k).lookup k' = l.lookup k' := by
  induction l with
  | nil => rfl
  | cons e l ih =>
    obtain ⟨k₁, a₁⟩ := e
    rw [erase, List.eraseP_cons]
    by_cases hk : k₁ = k
    · subst hk
      simp [List.lookup_cons, beq_false_of_ne hne]
    · rw [beq_false_of_ne hk]
      simp only [cond_false, List.lookup_cons]
      split
      · rfl
      · exact ih

/-- **Erasing takes out one key.** -/
theorem lookup_erase [DecidableEq K] (hnd : (keys l).Nodup) :
    (erase l k).lookup k' = if k' = k then none else l.lookup k' := by
  split
  · next h =>
    rw [h, lookup_eq_none_iff, keys_erase]
    exact hnd.not_mem_erase
  · next h => exact lookup_erase_of_ne h

/-- Erasing a key that is there takes its entry out of its place. -/
theorem exists_erase (hnd : (keys l).Nodup) (hmem : (k, a) ∈ l) :
    ∃ front back, l = front ++ (k, a) :: back ∧ erase l k = front ++ back := by
  obtain ⟨front, back, rfl⟩ := List.append_of_mem hmem
  have hout : ∀ e ∈ front, e.1 ≠ k := by
    rintro e he rfl
    rw [keys, List.map_append, List.nodup_append] at hnd
    exact hnd.2.2 e.1 (List.mem_map_of_mem he) e.1 List.mem_cons_self rfl
  refine ⟨front, back, rfl, ?_⟩
  rw [erase, List.eraseP_append_right _ (fun e he => by simpa using hout e he), List.eraseP_cons, beq_self_eq_true,
    cond_true]

/-- What an injective function shows of the entries. -/
theorem map_erase {B : Type} [DecidableEq B] {f : K × A → B} (hnd : (keys l).Nodup) (hf : (l.map f).Nodup)
    (hmem : (k, a) ∈ l) : (erase l k).map f = (l.map f).erase (f (k, a)) := by
  obtain ⟨front, back, rfl, herase⟩ := exists_erase hnd hmem
  have hfront : f (k, a) ∉ front.map f := by
    rw [List.map_append, List.nodup_append] at hf
    exact fun h => hf.2.2 _ h _ List.mem_cons_self rfl
  rw [herase, List.map_append, List.map_append, List.map_cons, List.erase_append_right _ hfront, List.erase_cons_head]

omit [BEq K] [LawfulBEq K] in
theorem keys_concat : keys (l ++ [(k, a)]) = keys l ++ [k] := by
  simp [keys]

theorem keys_concat_nodup (hnd : (keys l).Nodup) (hk : l.lookup k = none) :
    (keys (l ++ [(k, a)])).Nodup := by
  rw [keys_concat, ← List.concat_eq_append]
  exact List.Nodup.concat (lookup_eq_none_iff.mp hk) hnd

/-- **A new entry at the end adds one key.** -/
theorem lookup_concat [DecidableEq K] (hk : l.lookup k = none) :
    (l ++ [(k, a)]).lookup k' = if k' = k then some a else l.lookup k' := by
  rw [List.lookup_append]
  split
  · next h => simp [h, hk]
  · next h => simp [List.lookup_cons, beq_false_of_ne h]

omit [LawfulBEq K] in
theorem keys_modify {f : A → A} : keys (modify l k f) = keys l := by
  rw [keys, modify, List.map_map]
  refine List.map_congr_left fun e _ => ?_
  simp only [Function.comp_apply]
  split <;> rfl

/-- **Changing a value changes one key.** -/
theorem lookup_modify [DecidableEq K] {f : A → A} :
    (modify l k f).lookup k' = if k' = k then (l.lookup k).map f else l.lookup k' := by
  induction l with
  | nil => simp [modify]
  | cons e l ih =>
    obtain ⟨k₁, a₁⟩ := e
    rw [modify, List.map_cons, ← modify]
    by_cases hk : k₁ = k
    · subst hk
      simp only [beq_self_eq_true, if_true, List.lookup_cons]
      by_cases hk' : k' = k₁
      · simp [hk']
      · rw [beq_false_of_ne hk', ih, if_neg hk']
        simp [hk']
    · rw [if_neg (by simpa using hk), List.lookup_cons, List.lookup_cons, ih]
      by_cases hk' : k' = k₁
      · subst hk'
        simp [hk]
      · simp only [beq_false_of_ne hk', beq_false_of_ne (Ne.symm hk), List.lookup_cons]

end Assoc
