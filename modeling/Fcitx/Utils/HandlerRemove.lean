/-
# Removing objects and keys

Releasing objects only gives their slots back: their links stay readable, which
is what the loop of `fcitx_handler_table_free_key` relies on. Taking out an
object and freeing a key keep the invariant with the shorter lists.

Key definitions: `HandlerTable.freed`, `HandlerTable.Released`.
Key theorems: `HandlerTable.removeById_spec`, `HandlerTable.freeObjs_spec`,
`HandlerTable.freeKey_spec`.
-/
import Fcitx.Utils.HandlerLinks

namespace Fcitx

namespace HandlerTable

open ByteMem ObjPool

variable {table : HandlerTable} {free : List ℕ} {L : KeyPtr → List ℕ} {p q : KeyPtr} {i : ℕ}
  {ids : List ℕ}

/-- The calls of `free_func` for the objects `ids`. -/
def freed (table : HandlerTable) (ids : List ℕ) : List HandlerCall :=
  if table.freeFunc then ids.map fun i : ℕ => .freeObj i (table.slot i).obj else []

/-- What releasing the objects `ids` does. -/
structure Released (table table' : HandlerTable) (ids : List ℕ) : Prop where
  same : SameKeys table table'
  keyAt : table'.keyAt = table.keyAt
  slot : table'.slot = table.slot
  capacity : table'.objs.capacity = table.objs.capacity
  live : ∀ j, table'.objs.Live j ↔ table.objs.Live j ∧ j ∉ ids
  calls : table'.calls = table.calls ++ table.freed ids

theorem Released.refl : Released table table [] where
  same := ⟨rfl, rfl, rfl, rfl, rfl, fun _ => rfl⟩
  keyAt := rfl
  slot := rfl
  capacity := rfl
  live j := by simp
  calls := by simp [freed]

theorem Released.trans {table₁ table₂ : HandlerTable} {ids' : List ℕ} (h₁ : Released table table₁ ids)
    (h₂ : Released table₁ table₂ ids') : Released table table₂ (ids ++ ids') where
  same := h₁.same.trans h₂.same
  keyAt := h₂.keyAt.trans h₁.keyAt
  slot := h₂.slot.trans h₁.slot
  capacity := h₂.capacity.trans h₁.capacity
  live j := by rw [h₂.live, h₁.live, List.mem_append, not_or, and_assoc]
  calls := by
    rw [h₂.calls, h₁.calls, List.append_assoc, freed, freed, freed, h₂.same.freeFunc.symm.trans
      (h₂.same.freeFunc), h₁.same.freeFunc, h₁.slot]
    split
    · rw [List.map_append]
    · rfl

/-- **Releasing an object.** -/
theorem release_spec (h : Sound table free) (hi : table.objs.Live i) :
    Released table (table.release i) [i] ∧ Sound (table.release i) (i :: free) := by
  have hfits := h.fits
  have hobj : table.obj i = (table.slot i).obj := h.obj_eq hi.1
  obtain ⟨-, hpool, hele, hcapacity, hlive⟩ := freeId_spec h.pool hi
  have hfree := freeId_eq h.pool hi
  have hres : table.release i = { table with
      calls := table.calls ++ table.freed [i], objs := (table.objs.freeId i).2 } := by
    rw [release, call_eq, hobj]
    rfl
  -- the freed slot only loses its `int`
  have hslot : ∀ j, (table.release i).slot j = table.slot j := by
    intro j
    set bs := leBytes 4 (table.objs.nextFree % 0x100000000).toNat with hbs
    have hlen : bs.length = 4 := length_leBytes 4 _
    have hstore : (table.release i).slot j =
        (table.setArray (table.objs.array.store (i * table.objs.eleSize + 0) bs)).slot j := by
      rw [hres, hfree]
      rfl
    rw [hstore]
    by_cases hji : j = i
    · obtain ⟨hprev, hnext, hkey, hobj⟩ := slot_store_same h i 0 bs (by omega)
      rw [hji]
      exact HandlerObj.ext (hprev (by omega)) (hnext (by omega)) (hkey (by omega)) (hobj (by omega))
    · exact slot_store_of_ne h (by omega) hji
  refine ⟨⟨?_, ?_, funext hslot, ?_, fun j => ?_, ?_⟩, ?_, ?_⟩
  · rw [hres]
    exact ⟨rfl, rfl, rfl, rfl, rfl, fun _ => rfl⟩
  · rw [hres]
  · rw [hres]
    exact hcapacity
  · rw [hres, List.mem_singleton]
    exact hlive j
  · rw [hres]
  · rw [hres]
    show 20 + table.objSize ≤ (table.objs.freeId i).2.eleSize
    rw [hele]
    exact hfits
  · rw [hres]
    exact hpool

/-! ### Removing an object -/

/-- **Removing an object** from its key. -/
theorem removeById_spec (h : TableInv table L free) (hp : p ∈ table.ptrs) {xs ys : List ℕ}
    (hL : L p = xs ++ i :: ys) :
    TableInv (table.removeById i) (Function.update L p (xs ++ ys)) (i :: free) ∧
      SameKeys table (table.removeById i) ∧
      (table.removeById i).calls = table.calls ++ table.freed [i] ∧
      ∀ j, ((table.removeById i).slot j).obj = (table.slot j).obj := by
  have hi : i ∈ L p := by rw [hL]; simp
  obtain ⟨w, hkeyAt, hfirst, hlast⟩ := unlink_spec h hp hL
  obtain ⟨r, hsound⟩ := release_spec w.sound ((w.live i).mpr (h.live hp hi))
  have hres : table.removeById i = (table.unlink i).release i := if_neg (by rw [invalidId]; omega)
  have hslot := r.slot.trans w.slot
  have hnd := h.nodup p hp
  rw [hL] at hnd
  have hsub : ∀ j, j ∈ xs ++ ys ↔ j ∈ L p ∧ j ≠ i := by
    intro j
    have hixs : i ∉ xs ++ ys := (List.nodup_middle.mp hnd |> List.nodup_cons.mp).1
    rw [hL, List.mem_append, List.mem_append, List.mem_cons]
    rw [List.mem_append] at hixs
    constructor
    · rintro (hj | hj)
      · exact ⟨Or.inl hj, fun e => hixs (Or.inl (e ▸ hj))⟩
      · exact ⟨Or.inr (Or.inr hj), fun e => hixs (Or.inr (e ▸ hj))⟩
    · rintro ⟨hj | hj | hj, hji⟩
      · exact Or.inl hj
      · exact absurd hj hji
      · exact Or.inr hj
  -- the links of other keys are not touched
  have hother : ∀ j, j ∉ L p → ((table.unlink i).release i).slot j = table.slot j := by
    intro j hj
    have hys : (j : ℤ) ≠ IdList.headId ys := fun e => hj (by rw [hL]; simp [mem_of_headId e])
    have hxs : (j : ℤ) ≠ IdList.lastId xs := fun e => hj (by rw [hL]; simp [mem_of_lastId e])
    rw [hslot]
    dsimp only
    rw [if_neg hys, if_neg hxs]
  have hprev : ∀ j, (((table.unlink i).release i).slot j).prev =
      if (j : ℤ) = IdList.headId ys then IdList.lastId xs else (table.slot j).prev := by
    intro j
    rw [hslot]
    dsimp only
    split
    · rfl
    · split <;> rfl
  have hnext : ∀ j, (((table.unlink i).release i).slot j).next =
      if (j : ℤ) = IdList.lastId xs then IdList.headId ys else (table.slot j).next := by
    intro j
    rw [hslot]
    dsimp only
    split
    · rfl
    · split <;> rfl
  have hrest : ∀ j, (((table.unlink i).release i).slot j).key = (table.slot j).key ∧
      (((table.unlink i).release i).slot j).obj = (table.slot j).obj := by
    intro j
    rw [hslot]
    dsimp only
    split
    · exact ⟨rfl, rfl⟩
    · split <;> exact ⟨rfl, rfl⟩
  have hsame := w.same.trans r.same
  rw [hres]
  refine ⟨h.replace hp hsame hsound (fun q hq => ?_) ?_ ?_ ?_ ?_ (fun j hj => ?_)
    (fun q hq hqp j hj => ?_) (fun j => ?_), hsame, ?_, fun j => (hrest j).2⟩
  · rw [r.keyAt, hkeyAt q hq]
  · rw [r.keyAt, hfirst]
  · rw [r.keyAt, hlast]
  · have hlinked := h.linked p hp
    rw [hL] at hlinked
    exact hlinked.remove hnd (fun j _ => hprev j) fun j _ => hnext j
  · exact (List.nodup_middle.mp hnd |> List.nodup_cons.mp).2
  · rw [(hrest j).1]
    exact h.owner p hp j ((hsub j).mp hj).1
  · exact hother j fun hjp => hqp (h.disjoint hq hp hj hjp)
  · rw [r.live, w.live, h.live_cases hp, hsub, List.mem_singleton]
    constructor
    · rintro ⟨hj | hj, hji⟩
      · exact Or.inl ⟨hj, hji⟩
      · exact Or.inr hj
    · rintro (⟨hj, hji⟩ | ⟨q, hq, hqp, hj⟩)
      · exact ⟨Or.inl hj, hji⟩
      · exact ⟨Or.inr ⟨q, hq, hqp, hj⟩, fun e => hqp (h.disjoint hq hp hj (e ▸ hi))⟩
  · rw [r.calls, w.calls, freed, freed, w.same.freeFunc, w.slot]
    congr 1
    simp only [List.map_cons, List.map_nil]
    split
    · congr 2
      split
      · rfl
      · split <;> rfl
    · rfl

/-! ### Freeing a key -/

/-- **The loop releases every object of the key**: the links are read before
their slot is given back. -/
theorem freeObjs_spec (h : Sound table free) {all done : List ℕ} (hall : all = done ++ ids)
    (hlinked : IdList.Linked (fun i => (table.slot i).prev) (fun i => (table.slot i).next) all)
    (hlive : ∀ i ∈ ids, table.objs.Live i) (hnodup : ids.Nodup) {fuel : ℕ} (hf : ids.length < fuel) :
    Released table (freeObjs fuel table (IdList.headId ids)) ids ∧
      ∃ free', Sound (freeObjs fuel table (IdList.headId ids)) free' := by
  induction ids generalizing table free done fuel with
  | nil =>
    obtain ⟨fuel, rfl⟩ := Nat.exists_eq_succ_of_ne_zero (Nat.ne_of_gt hf)
    exact ⟨Released.refl, free, h⟩
  | cons i ids ih =>
    obtain ⟨fuel, rfl⟩ := Nat.exists_eq_succ_of_ne_zero (Nat.ne_of_gt (Nat.zero_lt_of_lt hf))
    obtain ⟨hiids, hnodup'⟩ := List.nodup_cons.mp hnodup
    have hi := hlive i List.mem_cons_self
    obtain ⟨r, hs⟩ := release_spec h hi
    have hnext : table.next i = IdList.headId ids := by
      rw [h.next_eq hi.1]
      exact (hlinked done i ids hall).2
    have hstep : freeObjs (fuel + 1) table (IdList.headId (i :: ids)) =
        freeObjs fuel (table.release i) (IdList.headId ids) := by
      rw [freeObjs, IdList.headId_cons, if_neg (by rw [invalidId]; omega), hnext]
    have hall' : all = (done ++ [i]) ++ ids := by
      rw [hall, List.append_assoc, List.singleton_append]
    obtain ⟨r', hs'⟩ := ih hs hall' (r.slot ▸ hlinked)
      (fun j hj => (r.live j).mpr ⟨hlive j (List.mem_cons_of_mem i hj), by
        rw [List.mem_singleton]
        exact fun e => hiids (e ▸ hj)⟩) hnodup' (by simpa using hf)
    rw [hstep]
    exact ⟨r.trans r', hs'⟩

/-- The calls of freeing a key. -/
def freedKey (table : HandlerTable) (key : Bytes) : List HandlerCall :=
  if table.keyFree then [.freeKey key] else []

/-- **Freeing a key** takes out the key and releases its objects. -/
theorem freeKey_spec (h : TableInv table L free) {key : Bytes} (hkey : table.keys.lookup key = some p) :
    (∃ free', TableInv (table.freeKey p) L free') ∧
      (table.freeKey p).keys = Assoc.erase table.keys key ∧
      (table.freeKey p).calls = table.calls ++ table.freed (L p) ++ table.freedKey key ∧
      (table.freeKey p).slot = table.slot ∧ (table.freeKey p).objSize = table.objSize ∧
      (table.freeKey p).freeFunc = table.freeFunc := by
  have hmem : (key, p) ∈ table.keys := (Assoc.lookup_eq_some_iff h.keys_nodup).mp hkey
  have hp : p ∈ table.ptrs := List.mem_map.mpr ⟨(key, p), hmem, rfl⟩
  obtain ⟨r, free', hs⟩ := freeObjs_spec h.sound (List.nil_append (L p)).symm (h.linked p hp)
    (fun i hi => h.live hp hi) (h.nodup p hp) (h.length_lt hp)
  rw [← h.first p hp] at r hs
  set table₁ := freeObjs (table.objs.capacity + 1) table (table.keyAt p).first with htable₁
  have hname : (table₁.keyAt p).key = key := by rw [r.keyAt]; exact h.name _ hmem
  have hres : table.freeKey p = { table₁ with
      keys := Assoc.erase table.keys key
      calls := table.calls ++ table.freed (L p) ++ table.freedKey key } := by
    rw [freeKey, ← htable₁, call_eq, hname, r.same.keys, r.calls, r.same.keyFree]
    rfl
  have hkeys : (table.freeKey p).keys = Assoc.erase table.keys key := by rw [hres]
  have hkeyAt : (table.freeKey p).keyAt = table.keyAt := by rw [hres]; exact r.keyAt
  have hslot : (table.freeKey p).slot = table.slot := by rw [hres]; exact r.slot
  -- the pointers that are left
  have hsub : ∀ e ∈ (table.freeKey p).keys, e ∈ table.keys := by
    rw [hkeys]
    exact fun e he => List.mem_of_mem_eraseP he
  have hptrs : ∀ q, q ∈ (table.freeKey p).ptrs ↔ q ∈ table.ptrs ∧ q ≠ p := by
    intro q
    rw [ptrs, hkeys, ptrs, List.mem_map, List.mem_map]
    constructor
    · rintro ⟨e, he, rfl⟩
      rw [Assoc.erase_eq_filter h.keys_nodup, List.mem_filter, decide_eq_true_iff] at he
      obtain ⟨he, hne⟩ := he
      refine ⟨⟨e, he, rfl⟩, fun hep => hne ?_⟩
      rw [List.inj_on_of_nodup_map h.ptrs_nodup he hmem hep]
    · rintro ⟨⟨e, he, rfl⟩, hep⟩
      refine ⟨e, ?_, rfl⟩
      rw [Assoc.erase_eq_filter h.keys_nodup, List.mem_filter, decide_eq_true_iff]
      refine ⟨he, fun hek => hep ?_⟩
      rw [List.inj_on_of_nodup_map h.keys_nodup he hmem hek]
  have hold : ∀ q ∈ (table.freeKey p).ptrs, q ∈ table.ptrs := fun q hq => ((hptrs q).mp hq).1
  refine ⟨⟨free', ⟨?_, ?_, ?_, fun q hq => h.ptr_lt q (hold q hq), fun e he => ?_, fun q hq => ?_,
    fun q hq => ?_, fun q hq => ?_, fun q hq => h.nodup q (hold q hq), fun q hq i hi => ?_,
    fun i => ?_⟩⟩, hkeys, ?_, hslot, ?_, ?_⟩
  · rw [hres]
    exact ⟨hs.fits, hs.pool⟩
  · rw [hkeys]
    exact Assoc.keys_erase_nodup h.keys_nodup
  · rw [ptrs, hkeys]
    exact h.ptrs_nodup.sublist (List.eraseP_sublist.map Prod.snd)
  · rw [hkeyAt]
    exact h.name e (hsub e he)
  · rw [hkeyAt]
    exact h.first q (hold q hq)
  · rw [hkeyAt]
    exact h.last q (hold q hq)
  · rw [hslot]
    exact h.linked q (hold q hq)
  · rw [hslot]
    exact h.owner q (hold q hq) i hi
  · have hlive : (table.freeKey p).objs.Live i ↔ table.objs.Live i ∧ i ∉ L p := by
      rw [hres]
      exact r.live i
    rw [hlive, h.live_iff i]
    constructor
    · rintro ⟨⟨q, hq, hi⟩, hip⟩
      exact ⟨q, (hptrs q).mpr ⟨hq, fun e => hip (e ▸ hi)⟩, hi⟩
    · rintro ⟨q, hq, hi⟩
      obtain ⟨hq, hqp⟩ := (hptrs q).mp hq
      exact ⟨⟨q, hq, hi⟩, fun hip => hqp (h.disjoint hq hp hi hip)⟩
  · rw [hres]
  · rw [hres]
    exact r.same.objSize
  · rw [hres]
    exact r.same.freeFunc

end HandlerTable

end Fcitx
