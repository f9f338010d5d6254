/-
# Linking and unlinking objects

What the operations on one object write: a new object becomes the last or the
first of its key, and an object is taken out between its neighbours. The lists
of the keys then follow from the lemmas on linked lists.

Key definitions: `HandlerTable.Inserted`, `HandlerTable.Removed`.
Key theorems: `HandlerTable.keyAppend_spec`, `HandlerTable.keyPrepend_spec`,
`HandlerTable.removeById_spec`.
-/
import Fcitx.Utils.HandlerInvariant

namespace Fcitx

namespace HandlerTable

open ByteMem ObjPool

variable {table : HandlerTable} {free : List ℕ} {L : KeyPtr → List ℕ} {p q : KeyPtr} {n : ℕ}
  {ids : List ℕ}

/-- The number of a slot is an `int`. -/
theorem Sound.int (h : Sound table free) (hn : n < table.objs.capacity) :
    -0x80000000 ≤ (n : ℤ) ∧ (n : ℤ) < 0x80000000 := by
  have hcap := h.pool.capacity_lt
  omega

/-- The end of a list is an `int`. -/
theorem Sound.headId_int (h : Sound table free) (hids : ∀ i ∈ ids, i < table.objs.capacity) :
    -0x80000000 ≤ IdList.headId ids ∧ IdList.headId ids < 0x80000000 := by
  cases ids with
  | nil => exact ⟨by decide, by decide⟩
  | cons i ids => exact h.int (hids i List.mem_cons_self)

theorem Sound.lastId_int (h : Sound table free) (hids : ∀ i ∈ ids, i < table.objs.capacity) :
    -0x80000000 ≤ IdList.lastId ids ∧ IdList.lastId ids < 0x80000000 :=
  h.headId_int fun i hi => hids i (List.mem_reverse.mp hi)

/-! ### New ends -/

/-- **A new last object** of a key with the objects `ids`. -/
theorem linkLast_spec (h : Sound table free) (hn : n < table.objs.capacity)
    (hids : ∀ i ∈ ids, i < table.objs.capacity) (hnids : n ∉ ids)
    (hfirst : (table.keyAt p).first = IdList.headId ids)
    (hlast : (table.keyAt p).last = IdList.lastId ids) :
    Wrote table (table.linkLast p n) free (fun j =>
        if (j : ℤ) = IdList.lastId ids then { table.slot j with next := n }
        else if j = n then { table.slot j with prev := IdList.lastId ids } else table.slot j) ∧
      (∀ q, q ≠ p → (table.linkLast p n).keyAt q = table.keyAt q) ∧
      ((table.linkLast p n).keyAt p).first = IdList.headId (ids ++ [n]) ∧
      ((table.linkLast p n).keyAt p).last = n := by
  rcases List.eq_nil_or_concat ids with hnil | ⟨xs, l, hxs⟩
  · -- the only object
    have hempty : (table.keyAt p).last = invalidId := by rw [hlast, hnil]; rfl
    have hres : table.linkLast p n = ((table.setFirst p n).setLast p n).setPrev n invalidId := by
      rw [linkLast]
      exact if_pos hempty
    have w₁ := setFirst_spec h p n
    have w₂ := w₁.trans (setLast_spec w₁.sound p n)
    have w₃ := w₂.trans (setPrev_spec w₂.sound (w₂.capacity ▸ hn) (z := invalidId) (by decide) (by decide))
    rw [hres]
    refine ⟨⟨w₃.same, w₃.calls, w₃.capacity, w₃.live, w₃.sound, ?_⟩, fun q hq => ?_, ?_, ?_⟩
    · rw [w₃.slot, w₂.slot]
      funext j
      rw [hnil, IdList.lastId_nil, if_neg (by omega), Function.update_apply]
      split
      · next hjn => rw [hjn]; rfl
      · rfl
    · rw [keyAt_setPrev, setLast_keyAt, if_neg hq, setFirst_keyAt, if_neg hq]
    · rw [keyAt_setPrev, setLast_keyAt, if_pos rfl, setFirst_keyAt, if_pos rfl, hnil]
      rfl
    · rw [keyAt_setPrev, setLast_keyAt, if_pos rfl]
  · -- behind the last object `l`
    rw [List.concat_eq_append] at hxs
    have hl : IdList.lastId ids = l := by rw [hxs, IdList.lastId_concat]
    have hlids : l ∈ ids := by rw [hxs]; simp
    have hln : l ≠ n := fun e => hnids (e ▸ hlids)
    have hlcap := hids l hlids
    have hres : table.linkLast p n = ((table.setLast p n).setPrev n l).setNext l n := by
      rw [linkLast, hlast, hl]
      exact if_neg (by rw [invalidId]; omega)
    have w₁ := setLast_spec h p n
    have w₂ := w₁.trans (setPrev_spec w₁.sound (w₁.capacity ▸ hn) (h.int hlcap).1 (h.int hlcap).2)
    have w₃ := w₂.trans (setNext_spec w₂.sound (w₂.capacity ▸ hlcap) (h.int hn).1 (h.int hn).2)
    rw [hres]
    refine ⟨⟨w₃.same, w₃.calls, w₃.capacity, w₃.live, w₃.sound, ?_⟩, fun q hq => ?_, ?_, ?_⟩
    · rw [w₃.slot, w₂.slot, w₁.slot]
      funext j
      simp only [hl, Int.ofNat_inj]
      rw [Function.update_apply, Function.update_of_ne hln]
      split
      · next hjl => rw [hjl]
      · rw [Function.update_apply]
        split
        · next hjn => rw [hjn]
        · rfl
    · rw [keyAt_setNext, keyAt_setPrev, setLast_keyAt, if_neg hq]
    · rw [keyAt_setNext, keyAt_setPrev, setLast_keyAt, if_pos rfl,
        IdList.headId_append (List.ne_nil_of_mem hlids)]
      exact hfirst
    · rw [keyAt_setNext, keyAt_setPrev, setLast_keyAt, if_pos rfl]

/-- **A new first object** of a key with the objects `ids`. -/
theorem linkFirst_spec (h : Sound table free) (hn : n < table.objs.capacity)
    (hids : ∀ i ∈ ids, i < table.objs.capacity) (hnids : n ∉ ids)
    (hfirst : (table.keyAt p).first = IdList.headId ids)
    (hlast : (table.keyAt p).last = IdList.lastId ids) :
    Wrote table (table.linkFirst p n) free (fun j =>
        if (j : ℤ) = IdList.headId ids then { table.slot j with prev := n }
        else if j = n then { table.slot j with next := IdList.headId ids } else table.slot j) ∧
      (∀ q, q ≠ p → (table.linkFirst p n).keyAt q = table.keyAt q) ∧
      ((table.linkFirst p n).keyAt p).first = n ∧
      ((table.linkFirst p n).keyAt p).last = IdList.lastId (n :: ids) := by
  cases ids with
  | nil =>
    -- the only object
    have hres : table.linkFirst p n = ((table.setFirst p n).setLast p n).setNext n invalidId := by
      rw [linkFirst]
      exact if_pos hfirst
    have w₁ := setFirst_spec h p n
    have w₂ := w₁.trans (setLast_spec w₁.sound p n)
    have w₃ := w₂.trans (setNext_spec w₂.sound (w₂.capacity ▸ hn) (z := invalidId) (by decide) (by decide))
    rw [hres]
    refine ⟨⟨w₃.same, w₃.calls, w₃.capacity, w₃.live, w₃.sound, ?_⟩, fun q hq => ?_, ?_, ?_⟩
    · rw [w₃.slot, w₂.slot]
      funext j
      rw [IdList.headId_nil, if_neg (by omega), Function.update_apply]
      split
      · next hjn => rw [hjn]; rfl
      · rfl
    · rw [keyAt_setNext, setLast_keyAt, if_neg hq, setFirst_keyAt, if_neg hq]
    · rw [keyAt_setNext, setLast_keyAt, if_pos rfl, setFirst_keyAt, if_pos rfl]
    · rw [keyAt_setNext, setLast_keyAt, if_pos rfl]
      rfl
  | cons f ids =>
    -- in front of the first object `f`
    have hfn : f ≠ n := fun e => hnids (e ▸ List.mem_cons_self)
    have hfcap := hids f List.mem_cons_self
    have hres : table.linkFirst p n = ((table.setFirst p n).setNext n f).setPrev f n := by
      rw [linkFirst, hfirst]
      exact if_neg (by rw [invalidId, IdList.headId_cons]; omega)
    have w₁ := setFirst_spec h p n
    have w₂ := w₁.trans (setNext_spec w₁.sound (w₁.capacity ▸ hn) (h.int hfcap).1 (h.int hfcap).2)
    have w₃ := w₂.trans (setPrev_spec w₂.sound (w₂.capacity ▸ hfcap) (h.int hn).1 (h.int hn).2)
    rw [hres]
    refine ⟨⟨w₃.same, w₃.calls, w₃.capacity, w₃.live, w₃.sound, ?_⟩, fun q hq => ?_, ?_, ?_⟩
    · rw [w₃.slot, w₂.slot, w₁.slot]
      funext j
      simp only [IdList.headId_cons, Int.ofNat_inj]
      rw [Function.update_apply, Function.update_of_ne hfn]
      split
      · next hjf => rw [hjf]
      · rw [Function.update_apply]
        split
        · next hjn => rw [hjn]
        · rfl
    · rw [keyAt_setPrev, keyAt_setNext, setFirst_keyAt, if_neg hq]
    · rw [keyAt_setPrev, keyAt_setNext, setFirst_keyAt, if_pos rfl]
    · rw [keyAt_setPrev, keyAt_setNext, setFirst_keyAt, if_pos rfl, ← List.singleton_append,
        IdList.lastId_append (List.cons_ne_nil f ids)]
      exact hlast

/-! ### New objects -/

/-- What a new object `n` leaves alone. -/
structure Inserted (table table' : HandlerTable) (n : ℕ) (obj : Bytes) : Prop where
  same : SameKeys table table'
  calls : table'.calls = table.calls
  fresh : ¬ table.objs.Live n
  obj : (table'.slot n).obj = obj
  objs : ∀ j, table.objs.Live j → (table'.slot j).obj = (table.slot j).obj

/-- Writes to the new object and to the links of its key keep the invariant. -/
theorem TableInv.insert (h : TableInv table L free) (hp : p ∈ table.ptrs) {table' : HandlerTable}
    {free' l : List ℕ} {slots : ℕ → HandlerObj} {obj : Bytes}
    (halloc : Allocated table.objs table.alloced.objs n)
    (hslots : ∀ j, table.objs.Live j → table.alloced.slot j = table.slot j)
    (hw : Wrote table.alloced table' free' slots)
    (hkeyAt : ∀ q, q ≠ p → table'.keyAt q = table.keyAt q)
    (hfirst : (table'.keyAt p).first = IdList.headId l)
    (hlast : (table'.keyAt p).last = IdList.lastId l)
    (hn : (slots n).key = p ∧ (slots n).obj = obj)
    (hold : ∀ j, j ≠ n → (slots j).key = (table.alloced.slot j).key ∧
      (slots j).obj = (table.alloced.slot j).obj ∧ (j ∉ L p → slots j = table.alloced.slot j))
    (hlinked : IdList.Linked (fun i => (slots i).prev) (fun i => (slots i).next) l)
    (hnodup : l.Nodup) (hl : ∀ i, i ∈ l ↔ i ∈ L p ∨ i = n) :
    Inserted table table' n obj ∧ TableInv table' (Function.update L p l) free' := by
  have hne : ∀ j, table.objs.Live j → j ≠ n := fun j hj e => halloc.fresh (e ▸ hj)
  have hsame : SameKeys table table' := ⟨hw.same.keys, hw.same.objSize, hw.same.freeFunc,
    hw.same.keyInit, hw.same.keyFree, hw.same.name⟩
  refine ⟨⟨hsame, hw.calls, halloc.fresh, hw.slot ▸ hn.2, fun j hj => ?_⟩, h.replace hp hsame hw.sound
    hkeyAt hfirst hlast (hw.slot ▸ hlinked) hnodup (fun i hi => ?_) (fun q hq hqp i hi => ?_) fun i => ?_⟩
  · rw [hw.slot, (hold j (hne j hj)).2.1, hslots j hj]
  · rw [hw.slot]
    rcases (hl i).mp hi with hi | rfl
    · have hlive := h.live hp hi
      rw [(hold i (hne i hlive)).1, hslots i hlive]
      exact h.owner p hp i hi
    · exact hn.1
  · have hlive := h.live hq hi
    rw [hw.slot, (hold i (hne i hlive)).2.2 fun hip => hqp (h.disjoint hq hp hi hip), hslots i hlive]
  · rw [hw.live i, halloc.live i, h.live_cases hp, hl i]
    exact or_right_comm

/-- The end of a list is one of its ids. -/
theorem mem_of_lastId {i : ℕ} (hi : (i : ℤ) = IdList.lastId ids) : i ∈ ids := by
  obtain ⟨xs, rfl⟩ := (IdList.lastId_eq_iff i).mp hi.symm
  simp

theorem mem_of_headId {i : ℕ} (hi : (i : ℤ) = IdList.headId ids) : i ∈ ids := by
  obtain ⟨ys, rfl⟩ := (IdList.headId_eq_iff i).mp hi.symm
  exact List.mem_cons_self

/-- The writes to a new object before it is linked: its key, the link that `link` clears and its data. -/
theorem filled_spec (h : Sound table free) (hn : n < table.objs.capacity) (hp : p < 2 ^ 64) {obj : Bytes}
    (hobj : obj.length = table.objSize) (link : HandlerTable → HandlerTable) (clear : HandlerObj → HandlerObj)
    (hlink : ∀ t, Sound t free → n < t.objs.capacity →
      Wrote t (link t) free (Function.update t.slot n (clear (t.slot n)))) :
    Wrote table ((link (table.setKey n p)).setObj n obj) free fun j =>
      if j = n then { clear { table.slot n with key := p } with obj := obj } else table.slot j := by
  have w₁ := setKey_spec h hn hp
  have w₂ := w₁.trans (hlink _ w₁.sound (w₁.capacity ▸ hn))
  have w₃ := w₂.trans (setObj_spec w₂.sound (w₂.capacity ▸ hn) (hobj.trans w₂.same.objSize.symm))
  refine ⟨w₃.same, w₃.calls, w₃.capacity, w₃.live, w₃.sound, ?_⟩
  rw [w₃.slot, w₂.slot, w₁.slot]
  funext j
  by_cases hjn : j = n
  · rw [if_pos hjn, hjn]
    simp only [Function.update_self]
  · rw [if_neg hjn, Function.update_of_ne hjn, Function.update_of_ne hjn, Function.update_of_ne hjn]

/-- **Appending an object** to a key. -/
theorem keyAppend_spec (h : TableInv table L free) (hp : p ∈ table.ptrs) {obj : Bytes}
    (hobj : obj.length = table.objSize) (hroom : table.Room) :
    ∃ n : ℕ, (table.keyAppend p obj).1 = n ∧ Inserted table (table.keyAppend p obj).2 n obj ∧
      ∃ free', TableInv (table.keyAppend p obj).2 (Function.update L p (L p ++ [n])) free' := by
  obtain ⟨n, hn, ⟨free', hs⟩, halloc, hncap, hslots⟩ := alloced_spec h.sound hroom
  have hnL : n ∉ L p := fun hi => halloc.fresh (h.live hp hi)
  have hcap : ∀ i ∈ L p, i < table.alloced.objs.capacity := fun i hi =>
    (h.live hp hi).1.trans_le halloc.capacity_le
  have w₁ := filled_spec hs hncap (h.ptr_lt p hp) hobj (setNext · n invalidId)
    (fun o => { o with next := invalidId }) fun t ht hcap => setNext_spec ht hcap (by decide) (by decide)
  obtain ⟨w, hkeyAt, hfirst, hlast⟩ := linkLast_spec w₁.sound (w₁.capacity ▸ hncap)
    (w₁.capacity ▸ hcap) hnL (h.first p hp) (h.last p hp)
  set filled := ((table.alloced.setKey n p).setNext n invalidId).setObj n obj with hfilled
  have hres : table.keyAppend p obj = ((n : ℤ), filled.linkLast p n) := by
    rw [keyAppend, hn]
    rfl
  have hslot : ∀ j, filled.slot j = if j = n then
      { table.alloced.slot n with next := invalidId, key := p, obj := obj } else table.alloced.slot j :=
    fun j => congrFun w₁.slot j
  have hnl : (n : ℤ) ≠ IdList.lastId (L p) := fun e => hnL (mem_of_lastId e)
  have hnodup : (L p ++ [n]).Nodup := by
    rw [← List.concat_eq_append]
    exact (h.nodup p hp).concat hnL
  have hlink : ∀ i ∈ L p, i ≠ n ∧ table.alloced.slot i = table.slot i := fun i hi =>
    ⟨fun e => hnL (e ▸ hi), hslots i (h.live hp hi)⟩
  have hboth : Inserted table (filled.linkLast p n) n obj ∧
      TableInv (filled.linkLast p n) (Function.update L p (L p ++ [n])) free' := by
    refine h.insert hp halloc hslots (w₁.trans w) hkeyAt hfirst ?_ ?_ (fun j hj => ?_) ?_ hnodup
      fun i => by simp
    · rw [hlast, IdList.lastId_concat]
    · rw [if_neg hnl, if_pos rfl, hslot n, if_pos rfl]
      exact ⟨rfl, rfl⟩
    · rw [if_neg hj, hslot j, if_neg hj]
      split
      · next hl => exact ⟨rfl, rfl, fun hjL => absurd (mem_of_lastId hl) hjL⟩
      · exact ⟨rfl, rfl, fun _ => rfl⟩
    · refine (h.linked p hp).append hnodup ?_ ?_ (fun i hi => ?_) fun i hi => ?_
      · rw [if_neg hnl, if_pos rfl]
      · rw [if_neg hnl, if_pos rfl, hslot n, if_pos rfl]
        rfl
      · rw [if_neg (hlink i hi).1, hslot i, if_neg (hlink i hi).1, (hlink i hi).2]
        split <;> rfl
      · rw [if_neg (hlink i hi).1, hslot i, if_neg (hlink i hi).1, (hlink i hi).2]
        split <;> rfl
  rw [hres]
  exact ⟨n, rfl, hboth.1, free', hboth.2⟩

/-- **Prepending an object** to a key. -/
theorem keyPrepend_spec (h : TableInv table L free) (hp : p ∈ table.ptrs) {obj : Bytes}
    (hobj : obj.length = table.objSize) (hroom : table.Room) :
    ∃ n : ℕ, (table.keyPrepend p obj).1 = n ∧ Inserted table (table.keyPrepend p obj).2 n obj ∧
      ∃ free', TableInv (table.keyPrepend p obj).2 (Function.update L p (n :: L p)) free' := by
  obtain ⟨n, hn, ⟨free', hs⟩, halloc, hncap, hslots⟩ := alloced_spec h.sound hroom
  have hnL : n ∉ L p := fun hi => halloc.fresh (h.live hp hi)
  have hcap : ∀ i ∈ L p, i < table.alloced.objs.capacity := fun i hi =>
    (h.live hp hi).1.trans_le halloc.capacity_le
  have w₁ := filled_spec hs hncap (h.ptr_lt p hp) hobj (setPrev · n invalidId)
    (fun o => { o with prev := invalidId }) fun t ht hcap => setPrev_spec ht hcap (by decide) (by decide)
  obtain ⟨w, hkeyAt, hfirst, hlast⟩ := linkFirst_spec w₁.sound (w₁.capacity ▸ hncap)
    (w₁.capacity ▸ hcap) hnL (h.first p hp) (h.last p hp)
  set filled := ((table.alloced.setKey n p).setPrev n invalidId).setObj n obj with hfilled
  have hres : table.keyPrepend p obj = ((n : ℤ), filled.linkFirst p n) := by
    rw [keyPrepend, hn]
    rfl
  have hslot : ∀ j, filled.slot j = if j = n then
      { table.alloced.slot n with prev := invalidId, key := p, obj := obj } else table.alloced.slot j :=
    fun j => congrFun w₁.slot j
  have hnl : (n : ℤ) ≠ IdList.headId (L p) := fun e => hnL (mem_of_headId e)
  have hnodup : (n :: L p).Nodup := List.nodup_cons.mpr ⟨hnL, h.nodup p hp⟩
  have hlink : ∀ i ∈ L p, i ≠ n ∧ table.alloced.slot i = table.slot i := fun i hi =>
    ⟨fun e => hnL (e ▸ hi), hslots i (h.live hp hi)⟩
  have hboth : Inserted table (filled.linkFirst p n) n obj ∧
      TableInv (filled.linkFirst p n) (Function.update L p (n :: L p)) free' := by
    refine h.insert hp halloc hslots (w₁.trans w) hkeyAt hfirst hlast ?_ (fun j hj => ?_) ?_ hnodup
      fun i => by rw [List.mem_cons, or_comm]
    · rw [if_neg hnl, if_pos rfl, hslot n, if_pos rfl]
      exact ⟨rfl, rfl⟩
    · rw [if_neg hj, hslot j, if_neg hj]
      split
      · next hf => exact ⟨rfl, rfl, fun hjL => absurd (mem_of_headId hf) hjL⟩
      · exact ⟨rfl, rfl, fun _ => rfl⟩
    · refine (h.linked p hp).prepend hnodup ?_ ?_ (fun i hi => ?_) fun i hi => ?_
      · rw [if_neg hnl, if_pos rfl, hslot n, if_pos rfl]
        rfl
      · rw [if_neg hnl, if_pos rfl]
      · rw [if_neg (hlink i hi).1, hslot i, if_neg (hlink i hi).1, (hlink i hi).2]
        split <;> rfl
      · rw [if_neg (hlink i hi).1, hslot i, if_neg (hlink i hi).1, (hlink i hi).2]
        split <;> rfl
  rw [hres]
  exact ⟨n, rfl, hboth.1, free', hboth.2⟩

/-! ### Removed objects -/

/-- The link of the previous object, or the first end of the key. -/
theorem writeNext_spec (h : Sound table free) {xs : List ℕ} (hxs : ∀ i ∈ xs, i < table.objs.capacity)
    {z : ℤ} (hz : -0x80000000 ≤ z) (hz' : z < 0x80000000) :
    let table' := if IdList.lastId xs = invalidId then table.setFirst p z
      else table.setNext (IdList.lastId xs) z
    Wrote table table' free (fun j =>
        if (j : ℤ) = IdList.lastId xs then { table.slot j with next := z } else table.slot j) ∧
      ∀ q, table'.keyAt q =
        if q = p ∧ xs = [] then { table.keyAt p with first := z } else table.keyAt q := by
  intro table'
  rcases List.eq_nil_or_concat xs with hnil | ⟨ys, l, hys⟩
  · have hres : table' = table.setFirst p z := if_pos (by rw [hnil]; rfl)
    have hslots : (fun j : ℕ => if (j : ℤ) = IdList.lastId xs then { table.slot j with next := z }
        else table.slot j) = table.slot := by
      funext j
      rw [hnil, IdList.lastId_nil, if_neg (by omega)]
    rw [hres, hslots]
    refine ⟨setFirst_spec h p z, fun q => ?_⟩
    simp only [setFirst_keyAt, hnil, and_true]
  · rw [List.concat_eq_append] at hys
    have hl : IdList.lastId xs = l := by rw [hys, IdList.lastId_concat]
    have hne : xs ≠ [] := by rw [hys]; simp
    have hres : table' = table.setNext l z := by
      rw [← hl]
      exact if_neg (by rw [hl, invalidId]; omega)
    have w := setNext_spec h (hxs l (by rw [hys]; simp)) hz hz'
    rw [hres]
    refine ⟨⟨w.same, w.calls, w.capacity, w.live, w.sound, ?_⟩, fun q => ?_⟩
    · rw [w.slot]
      funext j
      simp only [hl, Int.ofNat_inj]
      rw [Function.update_apply]
      split
      · next hjl => rw [hjl]
      · rfl
    · rw [if_neg fun hq => hne hq.2, keyAt_setNext]

/-- The link of the next object, or the last end of the key. -/
theorem writePrev_spec (h : Sound table free) {ys : List ℕ} (hys : ∀ i ∈ ys, i < table.objs.capacity)
    {z : ℤ} (hz : -0x80000000 ≤ z) (hz' : z < 0x80000000) :
    let table' := if IdList.headId ys = invalidId then table.setLast p z
      else table.setPrev (IdList.headId ys) z
    Wrote table table' free (fun j =>
        if (j : ℤ) = IdList.headId ys then { table.slot j with prev := z } else table.slot j) ∧
      ∀ q, table'.keyAt q =
        if q = p ∧ ys = [] then { table.keyAt p with last := z } else table.keyAt q := by
  intro table'
  cases ys with
  | nil =>
    have hslots : (fun j : ℕ => if (j : ℤ) = IdList.headId [] then { table.slot j with prev := z }
        else table.slot j) = table.slot := by
      funext j
      rw [IdList.headId_nil, if_neg (by omega)]
    rw [hslots]
    refine ⟨setLast_spec h p z, fun q => ?_⟩
    simp only [and_true]
    exact setLast_keyAt p z q
  | cons l ys =>
    have hres : table' = table.setPrev l z := if_neg (by rw [IdList.headId_cons, invalidId]; omega)
    have w := setPrev_spec h (hys l List.mem_cons_self) hz hz'
    rw [hres]
    refine ⟨⟨w.same, w.calls, w.capacity, w.live, w.sound, ?_⟩, fun q => ?_⟩
    · rw [w.slot]
      funext j
      simp only [IdList.headId_cons, Int.ofNat_inj]
      rw [Function.update_apply]
      split
      · next hjl => rw [hjl]
      · rfl
    · rw [if_neg fun hq => List.cons_ne_nil l ys hq.2, keyAt_setPrev]

/-- **Unlinking an object** between `xs` and `ys`. -/
theorem unlink_spec (h : TableInv table L free) (hp : p ∈ table.ptrs) {i : ℕ} {xs ys : List ℕ}
    (hL : L p = xs ++ i :: ys) :
    Wrote table (table.unlink i) free (fun j =>
        if (j : ℤ) = IdList.headId ys then
          { table.slot j with
            prev := IdList.lastId xs
            next := if (j : ℤ) = IdList.lastId xs then IdList.headId ys else (table.slot j).next }
        else if (j : ℤ) = IdList.lastId xs then { table.slot j with next := IdList.headId ys }
        else table.slot j) ∧
      (∀ q, q ≠ p → (table.unlink i).keyAt q = table.keyAt q) ∧
      ((table.unlink i).keyAt p).first = IdList.headId (xs ++ ys) ∧
      ((table.unlink i).keyAt p).last = IdList.lastId (xs ++ ys) := by
  have hi : i ∈ L p := by rw [hL]; simp
  have hcap : ∀ j ∈ L p, j < table.objs.capacity := fun j hj => (h.live hp hj).1
  have hxs : ∀ j ∈ xs, j < table.objs.capacity := fun j hj => hcap j (by rw [hL]; simp [hj])
  have hys : ∀ j ∈ ys, j < table.objs.capacity := fun j hj => hcap j (by rw [hL]; simp [hj])
  obtain ⟨hprev, hnext⟩ := h.linked p hp xs i ys hL
  have hprev : table.prev i = IdList.lastId xs := by rw [h.sound.prev_eq (hcap i hi)]; exact hprev
  have hnext : table.next i = IdList.headId ys := by rw [h.sound.next_eq (hcap i hi)]; exact hnext
  have hkey : table.key i = p := by rw [h.sound.key_eq (hcap i hi)]; exact h.owner p hp i hi
  obtain ⟨w₁, hkeyAt₁⟩ := writeNext_spec (p := p) h.sound hxs (h.sound.headId_int hys).1
    (h.sound.headId_int hys).2
  set table₁ := if IdList.lastId xs = invalidId then table.setFirst p (IdList.headId ys)
    else table.setNext (IdList.lastId xs) (IdList.headId ys) with htable₁
  have hkey₁ : table₁.key i = p := by
    rw [w₁.sound.key_eq (w₁.capacity ▸ hcap i hi), w₁.slot]
    have hown := h.owner p hp i hi
    dsimp only
    split <;> exact hown
  obtain ⟨w₂, hkeyAt₂⟩ := writePrev_spec (p := p) w₁.sound (w₁.capacity ▸ hys) (h.sound.lastId_int hxs).1
    (h.sound.lastId_int hxs).2
  have hres : table.unlink i = if IdList.headId ys = invalidId then table₁.setLast p (IdList.lastId xs)
      else table₁.setPrev (IdList.headId ys) (IdList.lastId xs) := by
    rw [unlink, hprev, hnext, hkey, ← htable₁, hkey₁]
  rw [hres]
  have w := w₁.trans w₂
  refine ⟨⟨w.same, w.calls, w.capacity, w.live, w.sound, ?_⟩, fun q hq => ?_, ?_, ?_⟩
  · rw [w.slot, w₁.slot]
    funext j
    dsimp only
    split
    · split <;> rfl
    · rfl
  · rw [hkeyAt₂, if_neg fun hqp => hq hqp.1, hkeyAt₁, if_neg fun hqp => hq hqp.1]
  · have hfirst : (table₁.keyAt p).first = IdList.headId (xs ++ ys) := by
      rw [hkeyAt₁]
      by_cases hnil : xs = []
      · rw [if_pos ⟨rfl, hnil⟩, hnil]
        rfl
      · rw [if_neg fun hqp => hnil hqp.2, h.first p hp, hL, IdList.headId_append hnil,
          IdList.headId_append hnil]
    rw [hkeyAt₂]
    split
    · exact hfirst
    · exact hfirst
  · rw [hkeyAt₂]
    by_cases hnil : ys = []
    · rw [if_pos ⟨rfl, hnil⟩, hnil, List.append_nil]
    · have hlast : (table₁.keyAt p).last = (table.keyAt p).last := by
        rw [hkeyAt₁]
        split <;> rfl
      rw [if_neg fun hqp => hnil hqp.2, hlast, h.last p hp, hL, IdList.lastId_append hnil,
        ← List.singleton_append, ← List.append_assoc, IdList.lastId_append hnil]

end HandlerTable

end Fcitx
