/-
# The ids of a key

A walk over the objects of a key goes from the first id to the next one until
the invalid id. `HandlerTable.ids` is the list of these ids; its next links, and
what appending an object and removing one with its key do to it, are all that a
caller needs who knows objects by their ids.

Key definitions: `HandlerTable.ids`, `HandlerTable.live`, `HandlerTable.Same`.
Key theorems: `HandlerTable.Inv.next_eq`, `HandlerTable.append_ids`,
`HandlerTable.removeByIdFull_ids`, `HandlerTable.removeByIdFull_next`.
-/
import Fcitx.Utils.HandlerMap

namespace Fcitx

namespace HandlerTable

open ByteMem ObjPool

/-- The ids of the objects of a key, in their order. -/
def ids (table : HandlerTable) (key : Bytes) : List ℤ := (table.forward key).map Prod.fst

/-- The ids of all objects. -/
def live (table : HandlerTable) : List ℤ := MultiMap.ids table.toMap

/-- What no operation changes. -/
structure Same (table table' : HandlerTable) : Prop where
  objSize : table'.objSize = table.objSize
  freeFunc : table'.freeFunc = table.freeFunc
  eleSize : table'.objs.eleSize = table.objs.eleSize

theorem Same.refl (table : HandlerTable) : Same table table := ⟨rfl, rfl, rfl⟩

variable {table table₁ table₂ : HandlerTable} {free : List ℕ} {L : KeyPtr → List ℕ} {p : KeyPtr}
  {key k : Bytes} {i : ℤ}

theorem Same.trans (h₁ : Same table table₁) (h₂ : Same table₁ table₂) : Same table table₂ :=
  ⟨h₂.objSize.trans h₁.objSize, h₂.freeFunc.trans h₁.freeFunc, h₂.eleSize.trans h₁.eleSize⟩

/-- What all operations but the appending ones leave alone. -/
structure SameAlloc (table table' : HandlerTable) : Prop where
  same : Same table table'
  alloc : table'.objs.alloc = table.objs.alloc

theorem SameAlloc.refl (table : HandlerTable) : SameAlloc table table := ⟨Same.refl table, rfl⟩

theorem SameAlloc.trans (h₁ : SameAlloc table table₁) (h₂ : SameAlloc table₁ table₂) :
    SameAlloc table table₂ := ⟨h₁.same.trans h₂.same, h₂.alloc.trans h₁.alloc⟩

/-- A pool of the same size has as many slots. -/
theorem SameAlloc.capacity (h : SameAlloc table table₁) : table₁.objs.capacity = table.objs.capacity := by
  rw [ObjPool.capacity, ObjPool.capacity, h.alloc, h.same.eleSize]

/-! ### Walking over a key -/

theorem TableInv.ids_of_key (h : TableInv table L free) (hkey : table.keys.lookup key = some p) :
    table.ids key = (L p).map Nat.cast := by
  rw [ids, h.forward_eq hkey, List.map_map]
  rfl

theorem ids_of_none (hkey : table.keys.lookup key = none) : table.ids key = [] := by
  rw [ids, (walk_none hkey).1]
  rfl

theorem headD_cast (l : List ℕ) : (l.map (Nat.cast : ℕ → ℤ)).headD invalidId = IdList.headId l := by
  cases l with
  | nil => rfl
  | cons i l => rfl

/-- The walk starts at the first id. -/
theorem Inv.firstId_eq (h : Inv table) (key : Bytes) : table.firstId key = (table.ids key).headD invalidId := by
  obtain ⟨L, free, h⟩ := h
  rw [firstId]
  cases hkey : table.keys.lookup key with
  | none => rw [ids_of_none hkey]; rfl
  | some p =>
    rw [h.ids_of_key hkey, headD_cast]
    exact h.first p (h.mem_of_lookup hkey).2

/-- **The next link leads to the next id.** -/
theorem Inv.next_eq (h : Inv table) {as bs : List ℤ} (hk : table.ids key = as ++ i :: bs) :
    table.next i = bs.headD invalidId := by
  obtain ⟨L, free, h⟩ := h
  cases hkey : table.keys.lookup key with
  | none =>
    rw [ids_of_none hkey] at hk
    exact absurd hk (by simp)
  | some p =>
    have hp := (h.mem_of_lookup hkey).2
    rw [h.ids_of_key hkey] at hk
    obtain ⟨xs, zs, hL, -, hzs⟩ := List.map_eq_append_iff.mp hk
    obtain ⟨n, ys, rfl, rfl, rfl⟩ := List.map_eq_cons_iff.mp hzs
    have hn : n ∈ L p := by
      rw [hL]
      simp
    rw [h.sound.next_eq (h.live hp hn).1, headD_cast]
    exact (h.linked p hp xs n ys hL).2

theorem Inv.forward_eq (h : Inv table) (key : Bytes) : table.forward key = MultiMap.find table.toMap key := by
  obtain ⟨L, free, h⟩ := h
  exact h.tableLaw.forward key

theorem Inv.ids_eq_find (h : Inv table) (key : Bytes) :
    table.ids key = (MultiMap.find table.toMap key).map Prod.fst := by
  obtain ⟨L, free, h⟩ := h
  rw [ids, h.tableLaw.forward]

theorem Inv.keys_nodup (h : Inv table) : (Assoc.keys table.toMap).Nodup := by
  obtain ⟨L, free, h⟩ := h
  exact h.tableLaw.keys_nodup

/-- An object that is live is in the list of a key. -/
theorem Inv.mem_live_iff (h : Inv table) : i ∈ table.live ↔ ∃ k, i ∈ table.ids k := by
  rw [live, MultiMap.mem_ids_iff h.keys_nodup]
  refine exists_congr fun k => ?_
  rw [h.ids_eq_find]

/-- An id is live once. -/
theorem Inv.live_nodup (h : Inv table) : table.live.Nodup := by
  obtain ⟨L, free, h⟩ := h
  exact h.tableLaw.ids_nodup

/-- **The pool has no free slot** exactly when as many ids are live as it has slots. -/
theorem Inv.full_iff (h : Inv table) : table.objs.nextFree < 0 ↔ table.objs.capacity ≤ table.live.length := by
  have hnd := h.live_nodup
  obtain ⟨L, free, h⟩ := h
  have hpool := h.sound.pool
  have hslots : ((List.range table.objs.capacity).map (Nat.cast : ℕ → ℤ)).Nodup :=
    List.nodup_range.map Nat.cast_injective
  have hlen : ((List.range table.objs.capacity).map (Nat.cast : ℕ → ℤ)).length = table.objs.capacity := by
    rw [List.length_map, List.length_range]
  cases free with
  | nil =>
    have hnext : table.objs.nextFree = invalidId := hpool.chain
    refine iff_of_true (by rw [hnext]; decide) ?_
    have hsub : (List.range table.objs.capacity).map Nat.cast ⊆ table.live := by
      intro z hz
      obtain ⟨n, hn, rfl⟩ := List.mem_map.mp hz
      have hlive : table.objs.Live n := hpool.live_iff.mpr ⟨List.mem_range.mp hn, List.not_mem_nil⟩
      exact (h.tableLaw.live n).mp hlive
    exact hlen ▸ (hslots.subperm hsub).length_le
  | cons i free =>
    have hnext : table.objs.nextFree = i := hpool.chain.1
    refine iff_of_false (by omega) (Nat.not_le.mpr ?_)
    -- the live ids and the first free one are different slots
    have hi : (i : ℤ) ∉ table.live := fun hmem =>
      (hpool.live_iff.mp ((h.tableLaw.live i).mpr hmem)).2 List.mem_cons_self
    have hsub : (i : ℤ) :: table.live ⊆ (List.range table.objs.capacity).map Nat.cast := by
      intro z hz
      rcases List.mem_cons.mp hz with rfl | hz
      · exact List.mem_map.mpr ⟨i, List.mem_range.mpr (hpool.free_lt i List.mem_cons_self), rfl⟩
      · obtain ⟨p, -, n, -, rfl⟩ := h.mem_ids.mp hz
        exact List.mem_map.mpr ⟨n, List.mem_range.mpr ((h.tableLaw.live n).mpr hz).1, rfl⟩
    have hle := ((List.nodup_cons.mpr ⟨hi, hnd⟩).subperm hsub).length_le
    rw [hlen, List.length_cons] at hle
    exact hle

/-- A pool without a free slot is not larger than what is live. -/
theorem Inv.room (h : Inv table) (hlive : table.live.length * table.objs.eleSize * 2 < 2 ^ 32) :
    table.Room := by
  intro hnext
  have hmul := Nat.mul_le_mul_right table.objs.eleSize (h.full_iff.mp hnext)
  obtain ⟨L, free, h⟩ := h
  rw [h.sound.pool.alloc_eq]
  omega

/-- An id that is live is a natural number. -/
theorem Inv.nonneg (h : Inv table) (hi : i ∈ table.live) : 0 ≤ i := by
  obtain ⟨L, free, h⟩ := h
  obtain ⟨p, -, n, -, rfl⟩ := h.mem_ids.mp hi
  exact Int.natCast_nonneg n

theorem Inv.ids_nodup (h : Inv table) (key : Bytes) : (table.ids key).Nodup := by
  obtain ⟨L, free, h⟩ := h
  cases hkey : table.keys.lookup key with
  | none =>
    rw [ids_of_none hkey]
    exact List.nodup_nil
  | some p =>
    rw [h.ids_of_key hkey]
    exact (h.nodup p (h.mem_of_lookup hkey).2).map Nat.cast_injective

/-! ### What stays the same -/

theorem linkLast_same (table : HandlerTable) (p : KeyPtr) (newId : ℤ) :
    SameAlloc table (table.linkLast p newId) := by
  rw [linkLast]
  split
  · exact ⟨⟨rfl, rfl, rfl⟩, rfl⟩
  · exact ⟨⟨rfl, rfl, rfl⟩, rfl⟩

theorem findKey_same (table : HandlerTable) (key : Bytes) (create : Bool) (malloc : KeyPtr) :
    SameAlloc table (table.findKey key create malloc).2 ∧
      (table.findKey key create malloc).2.objs = table.objs := by
  rw [findKey]
  split
  · exact ⟨SameAlloc.refl table, rfl⟩
  · split
    · rw [call_eq]
      exact ⟨⟨⟨rfl, rfl, rfl⟩, rfl⟩, rfl⟩
    · exact ⟨SameAlloc.refl table, rfl⟩

theorem allocId_size (pool : ObjPool) : pool.allocId.2.eleSize = pool.eleSize ∧
    pool.allocId.2.alloc = if pool.nextFree < 0 then pool.alloc * 2 else pool.alloc := by
  rw [allocId]
  split
  · next h => exact ⟨rfl, (if_neg (Int.not_lt.mpr h)).symm⟩
  · next h => exact ⟨rfl, (if_pos (Int.not_le.mp h)).symm⟩

/-- What an append keeps, and when its pool grows. -/
theorem append_same (table : HandlerTable) (key obj : Bytes) (malloc : KeyPtr) :
    Same table (table.append key obj malloc).2 ∧ (table.append key obj malloc).2.objs.alloc =
      if table.objs.nextFree < 0 then table.objs.alloc * 2 else table.objs.alloc := by
  obtain ⟨hfind, hobjs⟩ := findKey_same table key true malloc
  set found := table.findKey key true malloc with hfound
  have hres : (table.append key obj malloc).2 = (found.2.keyAppend (found.1.getD malloc) obj).2 := rfl
  obtain ⟨hele, halloc⟩ := allocId_size found.2.objs
  rw [hres]
  refine ⟨hfind.same.trans (Same.trans ?_ (linkLast_same _ _ _).same), (linkLast_same _ _ _).alloc.trans ?_⟩
  · exact ⟨rfl, rfl, hele⟩
  · rw [← hobjs]
    exact halloc

theorem release_same (table : HandlerTable) (i : ℤ) : SameAlloc table (table.release i) := by
  have hfree : ∀ pool : ObjPool, (pool.freeId i).2.eleSize = pool.eleSize ∧
      (pool.freeId i).2.alloc = pool.alloc := by
    intro pool
    rw [freeId]
    split
    · exact ⟨rfl, rfl⟩
    · split
      · exact ⟨rfl, rfl⟩
      · exact ⟨rfl, rfl⟩
  rw [release, call_eq]
  exact ⟨⟨rfl, rfl, (hfree _).1⟩, (hfree _).2⟩

theorem setArray_same (table : HandlerTable) (array : ByteMem) : SameAlloc table (table.setArray array) :=
  ⟨⟨rfl, rfl, rfl⟩, rfl⟩

theorem unlink_same (table : HandlerTable) (i : ℤ) : SameAlloc table (table.unlink i) := by
  have hends : ∀ (table : HandlerTable) (p : KeyPtr) (z : ℤ),
      SameAlloc table (table.setFirst p z) ∧ SameAlloc table (table.setLast p z) := fun _ _ _ =>
    ⟨⟨⟨rfl, rfl, rfl⟩, rfl⟩, ⟨⟨rfl, rfl, rfl⟩, rfl⟩⟩
  have hprev : SameAlloc table (if table.prev i = invalidId then table.setFirst (table.key i) (table.next i)
      else table.setNext (table.prev i) (table.next i)) := by
    split
    · exact (hends table _ _).1
    · exact setArray_same table _
  refine hprev.trans ?_
  rw [unlink]
  generalize (if table.prev i = invalidId then table.setFirst (table.key i) (table.next i)
    else table.setNext (table.prev i) (table.next i)) = table₁
  split
  · exact (hends table₁ _ _).2
  · exact setArray_same table₁ _

theorem removeById_same (table : HandlerTable) (i : ℤ) : SameAlloc table (table.removeById i) := by
  rw [removeById]
  split
  · exact SameAlloc.refl table
  · exact (unlink_same table i).trans (release_same _ i)

theorem freeObjs_same (fuel : ℕ) (table : HandlerTable) (i : ℤ) :
    SameAlloc table (freeObjs fuel table i) := by
  induction fuel generalizing table i with
  | zero => exact SameAlloc.refl table
  | succ fuel ih =>
    rw [freeObjs]
    split
    · exact SameAlloc.refl table
    · exact (release_same table i).trans (ih _ _)

theorem freeKey_same (table : HandlerTable) (p : KeyPtr) : SameAlloc table (table.freeKey p) := by
  have hobjs := freeObjs_same (table.objs.capacity + 1) table (table.keyAt p).first
  rw [freeKey, call_eq]
  exact ⟨⟨hobjs.same.objSize, hobjs.same.freeFunc, hobjs.same.eleSize⟩, hobjs.alloc⟩

theorem removeByIdFull_same (table : HandlerTable) (i : ℤ) :
    SameAlloc table ((table.removeByIdFull i).getD table) := by
  rw [removeByIdFull]
  cases table.getKeyById i with
  | none => exact SameAlloc.refl table
  | some p =>
    rw [Option.map_some, Option.getD_some]
    split
    · exact (removeById_same table i).trans (freeKey_same _ p)
    · exact removeById_same table i

theorem linkFirst_same (table : HandlerTable) (p : KeyPtr) (newId : ℤ) :
    Same table (table.linkFirst p newId) := by
  rw [linkFirst]
  split
  · exact ⟨rfl, rfl, rfl⟩
  · exact ⟨rfl, rfl, rfl⟩

theorem prepend_same (table : HandlerTable) (key obj : Bytes) (malloc : KeyPtr) :
    Same table (table.prepend key obj malloc).2 := by
  obtain ⟨hfind, -⟩ := findKey_same table key true malloc
  set found := table.findKey key true malloc with hfound
  have hres : (table.prepend key obj malloc).2 = (found.2.keyPrepend (found.1.getD malloc) obj).2 := rfl
  rw [hres]
  refine hfind.same.trans (Same.trans ?_ (linkFirst_same _ _ _))
  exact ⟨rfl, rfl, (allocId_size found.2.objs).1⟩

/-- No call changes the size of the objects. -/
theorem step_same (table : HandlerTable) (op : HandlerOp) : Same table (table.step op) := by
  cases op with
  | append key obj malloc => exact (append_same table key obj malloc).1
  | prepend key obj malloc => exact prepend_same table key obj malloc
  | findKey key create malloc => exact (findKey_same table key create malloc).1.same
  | removeById i => exact (removeById_same table i).same
  | removeByIdFull i => exact (removeByIdFull_same table i).same
  | removeKey key =>
    show Same table (table.removeKey key)
    rw [removeKey]
    split
    · exact Same.refl table
    · exact (freeKey_same table _).same

/-- The tables that are reached from a new one. -/
theorem run_inv (array : ByteMem) (objSize : ℕ) (freeFunc keyInit keyFree : Bool)
    (hsize : alignTo (objSize + sizeofHandlerObj + 4) 4 * initSize < 2 ^ 32) {ops : List HandlerOp}
    (ha : Run.Admissible step Ok (new array objSize freeFunc keyInit keyFree) ops) :
    Inv (Run.exec step (new array objSize freeFunc keyInit keyFree) ops) ∧
      (Run.exec step (new array objSize freeFunc keyInit keyFree) ops).objSize = objSize := by
  have hstep : ∀ table op, Inv table ∧ table.objSize = objSize → Ok table op →
      Inv (table.step op) ∧ (table.step op).objSize = objSize := by
    rintro table op ⟨⟨L, free, hinv⟩, hobj⟩ hok
    exact ⟨(step_law hinv hok).1, (step_same table op).objSize.trans hobj⟩
  have hnew : Inv (new array objSize freeFunc keyInit keyFree) :=
    ⟨_, _, new_inv array objSize freeFunc keyInit keyFree hsize⟩
  exact Run.invariant (P := fun table => Inv table ∧ table.objSize = objSize) hstep ⟨hnew, rfl⟩ ha

/-! ### Appending and removing -/

/-- Appending, on the map of the table. -/
theorem append_map (h : Inv table) {obj : Bytes} {malloc : KeyPtr} (hok : table.Ok (.append key obj malloc)) :
    (table.append key obj malloc).2.toMap =
      MultiMap.append table.toMap key ((table.append key obj malloc).1, obj) := by
  obtain ⟨L, free, h⟩ := h
  obtain ⟨-, hlaw⟩ := append_stepLaw h hok
  exact hlaw.map

/-- Removing with the key, on the map of the table. -/
theorem removeByIdFull_map (h : Inv table) (hi : i ∈ table.live) :
    ((table.removeByIdFull i).getD table).toMap = MultiMap.removeIdFull table.toMap i := by
  obtain ⟨L, free, h⟩ := h
  have hok : table.Ok (.removeByIdFull i) := hi
  obtain ⟨-, hlaw⟩ := removeByIdFull_stepLaw h hok
  exact hlaw.map

/-- **Appending an object** puts a new id at the end of one key's list. -/
theorem append_ids (h : Inv table) {obj : Bytes} {malloc : KeyPtr} (hok : table.Ok (.append key obj malloc)) :
    Inv (table.append key obj malloc).2 ∧ (table.append key obj malloc).1 ∉ table.live ∧
      (∀ k, (table.append key obj malloc).2.ids k =
        if k = key then table.ids key ++ [(table.append key obj malloc).1] else table.ids k) ∧
      (table.append key obj malloc).2.freedObjs = table.freedObjs := by
  obtain ⟨L, free, hinv⟩ := h
  obtain ⟨⟨L', free', hinv'⟩, hlaw⟩ := append_stepLaw hinv hok
  have h : Inv table := ⟨L, free, hinv⟩
  have h' : Inv (table.append key obj malloc).2 := ⟨L', free', hinv'⟩
  refine ⟨h', (hlaw.fresh rfl).2, fun k => ?_, ?_⟩
  · rw [h'.ids_eq_find, append_map h hok, MultiMap.find_append]
    split
    · rw [List.map_append, ← h.ids_eq_find]
      rfl
    · rw [← h.ids_eq_find]
  · have hfreed := hlaw.freed
    have hnone : removed table.toMap (.append key obj malloc) = [] := rfl
    rw [hnone, ite_self, List.append_nil] at hfreed
    exact hfreed

/-- **Removing an object with its key** takes its id out. -/
theorem removeByIdFull_ids (h : Inv table) (hi : i ∈ table.live) :
    Inv ((table.removeByIdFull i).getD table) ∧
      (∀ k, ((table.removeByIdFull i).getD table).ids k = (table.ids k).filter (· ≠ i)) ∧
      (table.freeFunc = true → ∃ obj, ((table.removeByIdFull i).getD table).freedObjs =
        table.freedObjs ++ [(i, obj)]) := by
  obtain ⟨L, free, hinv⟩ := h
  have hok : table.Ok (.removeByIdFull i) := hi
  obtain ⟨⟨L', free', hinv'⟩, hlaw⟩ := removeByIdFull_stepLaw hinv hok
  have h : Inv table := ⟨L, free, hinv⟩
  have h' : Inv ((table.removeByIdFull i).getD table) := ⟨L', free', hinv'⟩
  refine ⟨h', fun k => ?_, fun hfree => ?_⟩
  · rw [h'.ids_eq_find, removeByIdFull_map h hi, MultiMap.find_removeIdFull h.keys_nodup, h.ids_eq_find,
      List.filter_map]
    rfl
  · have hfreed := hlaw.freed
    obtain ⟨key, p, n, xs, ys, rfl, hkey, hL⟩ := hinv.exists_of_id hi
    have hn : n ∈ L p := by
      rw [hL]
      simp
    rw [if_pos hfree, removed, hinv.ofId_eq hkey hn] at hfreed
    exact ⟨_, hfreed⟩

/-- The ids that are live after an object was appended. -/
theorem mem_live_append (h : Inv table) {obj : Bytes} {malloc : KeyPtr}
    (hok : table.Ok (.append key obj malloc)) :
    i ∈ (table.append key obj malloc).2.live ↔ i ∈ table.live ∨ i = (table.append key obj malloc).1 := by
  obtain ⟨h', -, hids, -⟩ := append_ids h hok
  rw [h'.mem_live_iff, h.mem_live_iff]
  constructor
  · rintro ⟨k, hk⟩
    rw [hids] at hk
    split at hk
    · rcases List.mem_append.mp hk with hk | hk
      · exact Or.inl ⟨key, hk⟩
      · exact Or.inr (List.mem_singleton.mp hk)
    · exact Or.inl ⟨k, hk⟩
  · rintro (⟨k, hk⟩ | rfl)
    · refine ⟨k, ?_⟩
      rw [hids]
      split
      · next hkk => exact List.mem_append_left _ (hkk ▸ hk)
      · exact hk
    · refine ⟨key, ?_⟩
      rw [hids, if_pos rfl]
      exact List.mem_append_right _ (List.mem_singleton.mpr rfl)

/-- The ids that are live after an object was removed. -/
theorem mem_live_remove (h : Inv table) (hi : i ∈ table.live) {j : ℤ} :
    j ∈ ((table.removeByIdFull i).getD table).live ↔ j ∈ table.live ∧ j ≠ i := by
  obtain ⟨h', hids, -⟩ := removeByIdFull_ids h hi
  rw [h'.mem_live_iff, h.mem_live_iff]
  simp only [hids, List.mem_filter, decide_eq_true_iff]
  constructor
  · rintro ⟨k, hk, hne⟩
    exact ⟨⟨k, hk⟩, hne⟩
  · rintro ⟨⟨k, hk⟩, hne⟩
    exact ⟨k, hk, hne⟩

/-! ### The link of an object that is gone -/

/-- Unlinking an object writes the next link of its predecessor alone. -/
theorem removeById_next (h : TableInv table L free) (hp : p ∈ table.ptrs) {n j : ℕ} {xs ys : List ℕ}
    (hL : L p = xs ++ n :: ys) (hj : j ∉ xs) :
    ((table.removeById n).slot j).next = (table.slot j).next := by
  have hn : n ∈ L p := by
    rw [hL]
    simp
  obtain ⟨w, -, -, -⟩ := unlink_spec h hp hL
  obtain ⟨r, -⟩ := release_spec w.sound ((w.live n).mpr (h.live hp hn))
  have hres : table.removeById n = (table.unlink n).release n := if_neg (by rw [invalidId]; omega)
  have hlast : (j : ℤ) ≠ IdList.lastId xs := fun e => hj (mem_of_lastId e)
  rw [hres, r.slot, w.slot]
  simp only [if_neg hlast]
  split <;> rfl

/-- **A slot that is given back keeps its next link**, and so does one that was free before. -/
theorem removeByIdFull_next (h : Inv table) (hi : i ∈ table.live) {j : ℕ} (hj : j < table.objs.capacity)
    (hfree : (j : ℤ) = i ∨ (j : ℤ) ∉ table.live) :
    ((table.removeByIdFull i).getD table).next j = table.next j := by
  have hcap := (removeByIdFull_same table i).capacity
  obtain ⟨⟨L', free', h'⟩, -, -⟩ := removeByIdFull_ids h hi
  obtain ⟨L, free, h⟩ := h
  rw [h'.sound.next_eq (by rw [hcap]; exact hj), h.sound.next_eq hj]
  obtain ⟨key, p, n, xs, ys, rfl, hkey, hL⟩ := h.exists_of_id hi
  have hp := (h.mem_of_lookup hkey).2
  have hn : n ∈ L p := by
    rw [hL]
    simp
  have hjxs : j ∉ xs := by
    intro hmem
    rcases hfree with hjn | hjlive
    · obtain rfl : j = n := Int.ofNat_inj.mp hjn
      have hnd := h.nodup p hp
      rw [hL] at hnd
      exact (List.nodup_cons.mp (List.nodup_middle.mp hnd)).1 (List.mem_append_left _ hmem)
    · exact hjlive (h.mem_ids.mpr ⟨p, hp, j, by rw [hL]; simp [hmem], rfl⟩)
  obtain ⟨hinv, hsame, -, -⟩ := removeById_spec h hp hL
  have hkeyId : table.getKeyById n = some p := by
    rw [getKeyById, if_neg (by rw [invalidId]; omega), h.sound.key_eq (h.live hp hn).1]
    exact congrArg some (h.owner p hp n hn)
  rw [removeByIdFull_eq hkeyId, Option.getD_some]
  split
  · -- freeing the key writes no slot
    have hkey₁ : (table.removeById n).keys.lookup key = some p := by rw [hsame.keys, hkey]
    obtain ⟨-, -, -, hslot, -⟩ := freeKey_spec hinv hkey₁
    rw [hslot]
    exact removeById_next h hp hL hjxs
  · exact removeById_next h hp hL hjxs

end HandlerTable

end Fcitx
