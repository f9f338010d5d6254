/-
# Multimaps with numbered entries

A multimap keeps its keys in the order of insertion and, for each key, an
ordered list of entries, each known by an id. Entries are added at either end of
a key's list and taken out by their id or with their key.

Key definitions: `MultiMap`, `MultiMap.touch`, `MultiMap.append`,
`MultiMap.prepend`, `MultiMap.removeId`, `MultiMap.removeIdFull`,
`MultiMap.removeKey`, `MultiMap.ids`.
Key theorems: `MultiMap.ofId_eq`, `MultiMap.find_touch`, `MultiMap.find_append`,
`MultiMap.find_prepend`, `MultiMap.find_disjoint`, `MultiMap.find_removeId`,
`MultiMap.find_removeIdFull`, `MultiMap.mem_ids_iff`.
-/
import Fcitx.Lib.Assoc

/-- The keys with their entries. -/
abbrev MultiMap (K I A : Type) := List (K × List (I × A))

namespace MultiMap

variable {K I A : Type} [BEq K] [DecidableEq I]

/-- The entries of a key. -/
def find (m : MultiMap K I A) (k : K) : List (I × A) := (m.lookup k).getD []

def ids (m : MultiMap K I A) : List I := m.flatMap fun e => e.2.map Prod.fst

/-- A key without entries, if it is new. -/
def touch (m : MultiMap K I A) (k : K) : MultiMap K I A :=
  if (m.lookup k).isNone then m ++ [(k, [])] else m

def append (m : MultiMap K I A) (k : K) (e : I × A) : MultiMap K I A :=
  Assoc.modify (touch m k) k (· ++ [e])

def prepend (m : MultiMap K I A) (k : K) (e : I × A) : MultiMap K I A :=
  Assoc.modify (touch m k) k (e :: ·)

/-- Take out the entry of `i`. -/
def removeId (m : MultiMap K I A) (i : I) : MultiMap K I A :=
  m.map fun e => (e.1, e.2.filter fun v => v.1 ≠ i)

/-- Take out the entry of `i`, and its key when it was the last one. -/
def removeIdFull (m : MultiMap K I A) (i : I) : MultiMap K I A :=
  removeId (m.filter fun e => e.2.map Prod.fst ≠ [i]) i

def removeKey (m : MultiMap K I A) (k : K) : MultiMap K I A := Assoc.erase m k

/-- The entry of `i`. -/
def ofId (m : MultiMap K I A) (i : I) : List (I × A) := m.flatMap fun e => e.2.filter fun v => v.1 = i

variable {m : MultiMap K I A}

omit [BEq K] in
/-- An id that occurs once has one entry. -/
theorem ofId_eq (hnd : (ids m).Nodup) {e : K × List (I × A)} (he : e ∈ m) {v : I × A} (hv : v ∈ e.2) :
    ofId m v.1 = [v] := by
  have hfilter : ∀ l : List (I × A), (l.map Prod.fst).Nodup → v ∈ l →
      (l.filter fun w => w.1 = v.1) = [v] := by
    intro l
    induction l with
    | nil => exact fun _ hv => absurd hv List.not_mem_nil
    | cons w l ih =>
      intro hnd hv
      obtain ⟨hout, hnd'⟩ := List.nodup_cons.mp hnd
      by_cases hw : w.1 = v.1
      · have hrest : ∀ u ∈ l, u.1 ≠ v.1 := fun u hu he =>
          hout (List.mem_map.mpr ⟨u, hu, he.trans hw.symm⟩)
        have hnil : (l.filter fun u => u.1 = v.1) = [] :=
          List.filter_eq_nil_iff.mpr fun u hu => by simpa using hrest u hu
        rcases List.mem_cons.mp hv with rfl | hvl
        · rw [List.filter_cons_of_pos (by simp), hnil]
        · exact absurd rfl (hrest v hvl)
      · rw [List.filter_cons_of_neg (by simpa using hw)]
        refine ih hnd' ((List.mem_cons.mp hv).resolve_left fun e => hw (by rw [e]))
  rw [ids, ← List.map_flatMap] at hnd
  rw [ofId, ← List.filter_flatMap]
  exact hfilter _ hnd (List.mem_flatMap.mpr ⟨e, he, hv⟩)

/-! ### The entries of a key -/

section find

variable {m : MultiMap K I A} {k k' : K} {e : I × A} {i : I} [LawfulBEq K]

omit [DecidableEq I]

theorem lookup_touch [DecidableEq K] (m : MultiMap K I A) (k : K) : (touch m k).lookup k ≠ none := by
  rw [touch]
  cases hk : m.lookup k with
  | some l =>
    rw [if_neg (by simp), hk]
    exact Option.some_ne_none l
  | none =>
    rw [if_pos (by simp), Assoc.lookup_concat hk, if_pos rfl]
    exact Option.some_ne_none []

/-- A new key has no entries. -/
theorem find_touch [DecidableEq K] (m : MultiMap K I A) (k k' : K) : find (touch m k) k' = find m k' := by
  rw [touch]
  split
  · next hk =>
    have hnone : m.lookup k = none := Option.isNone_iff_eq_none.mp hk
    rw [find, find, Assoc.lookup_concat hnone]
    split
    · next h =>
      rw [h, hnone]
      rfl
    · rfl
  · rfl

/-- An entry at the end of one key's list. -/
theorem find_append [DecidableEq K] :
    find (append m k e) k' = if k' = k then find m k ++ [e] else find m k' := by
  rw [find, append, Assoc.lookup_modify]
  split
  · next h =>
    obtain ⟨l, hl⟩ := Option.ne_none_iff_exists'.mp (lookup_touch m k)
    have hfind := find_touch m k k
    rw [find, hl] at hfind
    rw [hl, ← hfind]
    rfl
  · exact find_touch m k k'

/-- An entry at the front of one key's list. -/
theorem find_prepend [DecidableEq K] :
    find (prepend m k e) k' = if k' = k then e :: find m k else find m k' := by
  rw [find, prepend, Assoc.lookup_modify]
  split
  · next h =>
    obtain ⟨l, hl⟩ := Option.ne_none_iff_exists'.mp (lookup_touch m k)
    have hfind := find_touch m k k
    rw [find, hl] at hfind
    rw [hl, ← hfind]
    rfl
  · exact find_touch m k k'

/-- The ids are those of the keys' lists. -/
theorem mem_ids_iff (hnd : (Assoc.keys m).Nodup) : i ∈ ids m ↔ ∃ k, i ∈ (find m k).map Prod.fst := by
  rw [ids, List.mem_flatMap]
  constructor
  · rintro ⟨e, he, hi⟩
    refine ⟨e.1, ?_⟩
    rw [find, (Assoc.lookup_eq_some_iff hnd).mpr he]
    exact hi
  · rintro ⟨k, hi⟩
    cases hk : m.lookup k with
    | none =>
      rw [find, hk] at hi
      exact absurd hi List.not_mem_nil
    | some l =>
      rw [find, hk] at hi
      exact ⟨(k, l), (Assoc.lookup_eq_some_iff hnd).mp hk, hi⟩

omit [LawfulBEq K] in
theorem find_cons (e : K × List (I × A)) (m : MultiMap K I A) (k : K) :
    find (e :: m) k = if k == e.1 then e.2 else find m k := by
  rw [find, List.lookup_cons]
  cases k == e.1 with
  | true => rfl
  | false => rfl

omit [LawfulBEq K] in
theorem mem_ids_of_find (hi : i ∈ (find m k).map Prod.fst) : i ∈ ids m := by
  induction m with
  | nil => exact absurd hi List.not_mem_nil
  | cons e m ih =>
    rw [find_cons] at hi
    rw [ids, List.flatMap_cons, List.mem_append]
    split at hi
    · exact Or.inl hi
    · exact Or.inr (ih hi)

omit [LawfulBEq K] in
/-- An id is in its list once. -/
theorem find_nodup (hids : (ids m).Nodup) (k : K) : ((find m k).map Prod.fst).Nodup := by
  induction m with
  | nil => exact List.nodup_nil
  | cons e m ih =>
    rw [ids, List.flatMap_cons] at hids
    rw [find_cons]
    split
    · exact hids.of_append_left
    · exact ih hids.of_append_right

/-- **Each id is in one list.** -/
theorem find_disjoint (hids : (ids m).Nodup) (hne : k ≠ k') :
    ((find m k).map Prod.fst).Disjoint ((find m k').map Prod.fst) := by
  induction m with
  | nil => exact fun i hi => absurd hi List.not_mem_nil
  | cons e m ih =>
    rw [ids, List.flatMap_cons] at hids
    have hout := List.disjoint_of_nodup_append hids
    rw [find_cons, find_cons]
    by_cases hk : k = e.1
    · have hk' : (k' == e.1) = false := beq_false_of_ne fun h => hne (hk.trans h.symm)
      rw [if_pos (beq_iff_eq.mpr hk), hk', if_neg Bool.false_ne_true]
      exact fun i hi hi' => hout hi (mem_ids_of_find hi')
    · rw [if_neg (by simpa using hk)]
      split
      · exact fun i hi hi' => hout hi' (mem_ids_of_find hi)
      · exact ih hids.of_append_right

end find

section remove

variable {m : MultiMap K I A} {k : K} {i : I} [LawfulBEq K]

omit [LawfulBEq K] in
/-- Without `i`, the keys stay. -/
theorem find_removeId : find (removeId m i) k = (find m k).filter fun v => v.1 ≠ i := by
  rw [find, find, removeId]
  induction m with
  | nil => rfl
  | cons e m ih =>
    rw [List.map_cons, List.lookup_cons, List.lookup_cons]
    cases k == e.1 with
    | true => rfl
    | false => exact ih

/-- Without `i`, every key has its entries without `i`. -/
theorem find_removeIdFull (hnd : (Assoc.keys m).Nodup) :
    find (removeIdFull m i) k = (find m k).filter fun v => v.1 ≠ i := by
  -- a key that goes has no other entry than that of `i`
  have hgone : ∀ l : List (I × A), l.map Prod.fst = [i] → (l.filter fun v => v.1 ≠ i) = [] := by
    intro l hl
    refine List.filter_eq_nil_iff.mpr fun v hv => ?_
    have hmem : v.1 ∈ l.map Prod.fst := List.mem_map_of_mem hv
    rw [hl, List.mem_singleton] at hmem
    simp [hmem]
  induction m with
  | nil => rfl
  | cons e m ih =>
    obtain ⟨k₁, l⟩ := e
    obtain ⟨hout, hnd'⟩ := List.nodup_cons.mp hnd
    have ih' := ih hnd'
    rw [find, find] at ih' ⊢
    by_cases hk : k = k₁
    · subst hk
      rw [List.lookup_cons, beq_self_eq_true]
      by_cases hl : l.map Prod.fst = [i]
      · have hnone : List.lookup k m = none := Assoc.lookup_eq_none_iff.mpr hout
        rw [hnone] at ih'
        rw [removeIdFull, List.filter_cons_of_neg (by simpa using hl)]
        show ((removeIdFull m i).lookup k).getD [] = _
        rw [ih']
        exact (hgone l hl).symm
      · rw [removeIdFull, List.filter_cons_of_pos (by simpa using hl), removeId, List.map_cons,
          List.lookup_cons, beq_self_eq_true]
        rfl
    · rw [List.lookup_cons, beq_false_of_ne hk]
      by_cases hl : l.map Prod.fst = [i]
      · rw [removeIdFull, List.filter_cons_of_neg (by simpa using hl)]
        exact ih'
      · rw [removeIdFull, List.filter_cons_of_pos (by simpa using hl), removeId, List.map_cons,
          List.lookup_cons, beq_false_of_ne hk]
        exact ih'

end remove

end MultiMap
