/-
# The objects in a handler table

`fcitx_handler_table_get_by_id` gives the address of an object inside of the
pool. Appending and removing leave the bytes of the other objects alone, and a
caller may write to an object through that address: the links of the table
never see it.

Key definitions: `HandlerTable.address`, `HandlerTable.writeObj`.
Key theorems: `HandlerTable.append_obj`, `HandlerTable.removeByIdFull_obj`,
`HandlerTable.writeObj_spec`.
-/
import Fcitx.Utils.HandlerChain

namespace Fcitx

namespace HandlerTable

open ByteMem ObjPool

/-- Where the object of an id lies in the array, behind its `FcitxHandlerObj`. -/
def address (table : HandlerTable) (id : ℤ) : ℕ := table.getObj id + sizeofHandlerObj

/-- Writing bytes through an address in the array. -/
def writeObj (table : HandlerTable) (address : ℕ) (bytes : Bytes) : HandlerTable :=
  table.setArray (table.objs.array.store address bytes)

variable {table table₁ table₂ : HandlerTable} {free : List ℕ} {L : KeyPtr → List ℕ} {p : KeyPtr}
  {key k : Bytes} {i j : ℤ}

/-- An address is the same as long as the size of the slots is. -/
theorem Same.address (h : Same table table₁) (i : ℤ) : table₁.address i = table.address i := by
  rw [HandlerTable.address, HandlerTable.address, getObj, getObj, ObjPool.get, ObjPool.get, offset, offset,
    h.eleSize]

/-! ### Appending and removing -/

theorem Inv.find_eq (h : Inv table) (key : Bytes) :
    MultiMap.find table.toMap key = (table.ids key).map table.entry := by
  obtain ⟨L, free, h⟩ := h
  rw [← h.tableLaw.forward, ids, forward, List.map_map, List.map_map]
  rfl

theorem Inv.exists_slot (h : Inv table) (hi : i ∈ table.live) : ∃ n < table.objs.capacity, (n : ℤ) = i := by
  obtain ⟨L, free, h⟩ := h
  obtain ⟨p, -, n, -, rfl⟩ := h.mem_ids.mp hi
  exact ⟨n, ((h.tableLaw.live n).mpr hi).1, rfl⟩

/-- The slots are few enough for an `int` to number them. -/
theorem Inv.lt_of_live (h : Inv table) (hi : i ∈ table.live) : 0 ≤ i ∧ i < 0x80000000 := by
  obtain ⟨n, hn, rfl⟩ := h.exists_slot hi
  obtain ⟨L, free, h⟩ := h
  have hcap := h.sound.pool.capacity_lt
  omega

/-- Objects of different ids lie at different addresses. -/
theorem Inv.address_inj (h : Inv table) (hi : i ∈ table.live) (hj : j ∈ table.live)
    (haddress : table.address i = table.address j) : i = j := by
  obtain ⟨m, hm, rfl⟩ := h.exists_slot hi
  obtain ⟨n, hn, rfl⟩ := h.exists_slot hj
  obtain ⟨L, free, h⟩ := h
  have hfits := h.sound.fits
  rw [HandlerTable.address, HandlerTable.address, h.sound.getObj_eq hm, h.sound.getObj_eq hn, Nat.add_right_cancel_iff,
    Nat.add_right_cancel_iff] at haddress
  exact congrArg Nat.cast (Nat.eq_of_mul_eq_mul_right (by omega) haddress)

/-- **Appending an object** stores it under the new id and leaves the others alone. -/
theorem append_obj (h : Inv table) {obj : Bytes} {malloc : KeyPtr} (hok : table.Ok (.append key obj malloc)) :
    (table.append key obj malloc).2.obj (table.append key obj malloc).1 = obj ∧
      ∀ i ∈ table.live, (table.append key obj malloc).2.obj i = table.obj i := by
  obtain ⟨h', -, hids, -⟩ := append_ids h hok
  have hmap := append_map h hok
  have hfind : ∀ k, ((table.append key obj malloc).2.ids k).map (table.append key obj malloc).2.entry =
      if k = key then (table.ids key).map table.entry ++ [((table.append key obj malloc).1, obj)]
        else (table.ids k).map table.entry := by
    intro k
    rw [← h'.find_eq, hmap, MultiMap.find_append, h.find_eq, h.find_eq]
  constructor
  · have hkey := hfind key
    rw [if_pos rfl, hids, if_pos rfl, List.map_append] at hkey
    have hlast := (List.append_inj hkey (by simp)).2
    rw [List.map_singleton, List.singleton_inj] at hlast
    exact congrArg Prod.snd hlast
  · intro i hi
    obtain ⟨k, hk⟩ := h.mem_live_iff.mp hi
    have hboth : (table.ids k).map (table.append key obj malloc).2.entry = (table.ids k).map table.entry := by
      have hkey := hfind k
      rw [hids] at hkey
      split at hkey
      · next hkk =>
        rw [List.map_append] at hkey
        rw [hkk]
        exact (List.append_inj hkey (by simp)).1
      · exact hkey
    exact congrArg Prod.snd (List.map_inj_left.mp hboth i hk)

/-- **Removing an object** leaves the others alone. -/
theorem removeByIdFull_obj (h : Inv table) (hi : i ∈ table.live) (hj : j ∈ table.live) (hne : j ≠ i) :
    ((table.removeByIdFull i).getD table).obj j = table.obj j := by
  obtain ⟨h', hids, -⟩ := removeByIdFull_ids h hi
  obtain ⟨k, hk⟩ := h.mem_live_iff.mp hj
  have hfind : ((table.ids k).filter (· ≠ i)).map ((table.removeByIdFull i).getD table).entry =
      ((table.ids k).filter (· ≠ i)).map table.entry := by
    rw [← hids, ← h'.find_eq, removeByIdFull_map h hi, MultiMap.find_removeIdFull h.keys_nodup, h.find_eq,
      List.filter_map, hids]
    rfl
  have hmem : j ∈ (table.ids k).filter (· ≠ i) := List.mem_filter.mpr ⟨hk, decide_eq_true hne⟩
  exact congrArg Prod.snd (List.map_inj_left.mp hfind j hmem)

/-! ### Writing to an object -/

/-- A write that leaves the links alone keeps the invariant. -/
theorem TableInv.of_links (h : TableInv table L free) {slots : ℕ → HandlerObj}
    (w : Wrote table table₁ free slots) (hkeyAt : table₁.keyAt = table.keyAt)
    (hslots : ∀ i, (slots i).prev = (table.slot i).prev ∧ (slots i).next = (table.slot i).next ∧
      (slots i).key = (table.slot i).key) : TableInv table₁ L free := by
  have hptrs := w.same.ptrs
  refine ⟨w.sound, ?_, hptrs ▸ h.ptrs_nodup, fun p hp => h.ptr_lt p (hptrs ▸ hp), fun e he => ?_,
    fun p hp => ?_, fun p hp => ?_, fun p hp => ?_, fun p hp => h.nodup p (hptrs ▸ hp), fun p hp i hi => ?_,
    fun i => ?_⟩
  · rw [w.same.keys]
    exact h.keys_nodup
  · rw [w.same.keys] at he
    rw [hkeyAt]
    exact h.name e he
  · rw [hkeyAt]
    exact h.first p (hptrs ▸ hp)
  · rw [hkeyAt]
    exact h.last p (hptrs ▸ hp)
  · have hprev : (fun i => (table₁.slot i).prev) = fun i => (table.slot i).prev :=
      funext fun i => by rw [w.slot, (hslots i).1]
    have hnext : (fun i => (table₁.slot i).next) = fun i => (table.slot i).next :=
      funext fun i => by rw [w.slot, (hslots i).2.1]
    rw [hprev, hnext]
    exact h.linked p (hptrs ▸ hp)
  · rw [w.slot, (hslots i).2.2]
    exact h.owner p (hptrs ▸ hp) i hi
  · rw [w.live, h.live_iff, hptrs]

/-- **Writing over a part of an object** keeps the table and the other objects. -/
theorem writeObj_spec (h : Inv table) (hi : i ∈ table.live) {as bs bs' cs : Bytes}
    (hobj : table.obj i = as ++ bs ++ cs) (hlen : bs'.length = bs.length) :
    Inv (table.writeObj (table.address i + as.length) bs') ∧
      (table.writeObj (table.address i + as.length) bs').live = table.live ∧
      (table.writeObj (table.address i + as.length) bs').obj i = as ++ bs' ++ cs ∧
      ∀ j ∈ table.live, j ≠ i →
        (table.writeObj (table.address i + as.length) bs').obj j = table.obj j := by
  obtain ⟨n, hn, rfl⟩ := h.exists_slot hi
  have hlive := fun j (hj : j ∈ table.live) => h.exists_slot hj
  obtain ⟨L, free, h⟩ := h
  have hfits := h.sound.fits
  have hsize := congrArg List.length hobj
  rw [HandlerTable.obj, length_load, List.length_append, List.length_append] at hsize
  set b := 20 + as.length with hb
  have haddress : table.address n + as.length = n * table.objs.eleSize + b := by
    rw [HandlerTable.address, h.sound.getObj_eq hn, hb, sizeofHandlerObj]
    omega
  have hwrite : table.writeObj (table.address n + as.length) bs' =
      table.setArray (table.objs.array.store (n * table.objs.eleSize + b) bs') := by
    rw [writeObj, haddress]
  have hbound : b + bs'.length ≤ table.objs.eleSize := by omega
  set table₁ := table.setArray (table.objs.array.store (n * table.objs.eleSize + b) bs') with htable₁
  obtain ⟨hprev, hnext, hkey, -⟩ := slot_store_same h.sound n b bs' hbound
  have w := wrote_store h.sound n (by omega) hbound rfl
  rw [← htable₁] at w
  have hinv : TableInv table₁ L free := by
    refine h.of_links w rfl fun j => ?_
    by_cases hjn : j = n
    · rw [hjn, Function.update_self]
      exact ⟨hprev (by omega), hnext (by omega), hkey (by omega)⟩
    · rw [Function.update_of_ne hjn]
      exact ⟨rfl, rfl, rfl⟩
  rw [hwrite]
  refine ⟨⟨L, free, hinv⟩, ?_, ?_, fun j hj hjn => ?_⟩
  · rw [live, live, hinv.ids_eq, h.ids_eq, w.same.keys]
  · rw [hinv.sound.obj_eq (w.capacity ▸ hn)]
    have hload : table.objs.array.load (n * table.objs.eleSize + 20) table.objSize = as ++ bs ++ cs := by
      rw [← hobj, h.sound.obj_eq hn]
      rfl
    have hstore := load_store_part hload hlen
    rw [Nat.add_assoc] at hstore
    exact hstore
  · obtain ⟨m, hm, rfl⟩ := hlive j hj
    have hmn : m ≠ n := fun e => hjn (congrArg Nat.cast e)
    rw [hinv.sound.obj_eq (w.capacity ▸ hm), h.sound.obj_eq hm, w.slot, Function.update_of_ne hmn]

theorem writeObj_same (table : HandlerTable) (address : ℕ) (bytes : Bytes) :
    SameAlloc table (table.writeObj address bytes) := setArray_same table _

end HandlerTable

end Fcitx
