/-
# The handler table is a multimap

Going through every key from its first object shows a multimap from keys to
lists of ids and objects. Each operation of the table is the operation of the
multimap, the new ids are fresh, and `free_func` is called for the entries that
were taken out and no others.

Key definitions: `HandlerTable.toMap`, `HandlerOp`, `HandlerTable.TableLaw`,
`HandlerTable.StepLaw`.
Key theorems: `HandlerTable.TableInv.toMap_eq`, `HandlerTable.run_multimap`.
-/
import Fcitx.Lib.MultiMap
import Fcitx.Lib.Run
import Fcitx.Utils.HandlerRemove

namespace Fcitx

abbrev HandlerMap := MultiMap Bytes ℤ Bytes

/-- The calls on a handler table; `malloc` is the pointer a new key gets. -/
inductive HandlerOp where
  | append (key obj : Bytes) (malloc : KeyPtr)
  | prepend (key obj : Bytes) (malloc : KeyPtr)
  | findKey (key : Bytes) (create : Bool) (malloc : KeyPtr)
  | removeById (id : ℤ)
  | removeByIdFull (id : ℤ)
  | removeKey (key : Bytes)

/-- The calls that add an object. -/
def HandlerOp.adds : HandlerOp → Bool
  | .append .. | .prepend .. => true
  | _ => false

namespace HandlerTable

open ByteMem ObjPool

/-! ### What a table shows -/

/-- The multimap of a table: every key with what going through it shows. -/
def toMap (table : HandlerTable) : HandlerMap := table.keys.map fun e => (e.1, table.forward e.1)

/-- The entries `free_func` was called for. -/
def freedObjs (table : HandlerTable) : List (ℤ × Bytes) :=
  table.calls.filterMap fun
    | .freeObj id obj => some (id, obj)
    | _ => none

/-! ### The operations -/

/-- A call, with the id it returns. -/
def apply (table : HandlerTable) : HandlerOp → ℤ × HandlerTable
  | .append key obj malloc => table.append key obj malloc
  | .prepend key obj malloc => table.prepend key obj malloc
  | .findKey key create malloc => (invalidId, (table.findKey key create malloc).2)
  | .removeById id => (invalidId, table.removeById id)
  | .removeByIdFull id => (invalidId, (table.removeByIdFull id).getD table)
  | .removeKey key => (invalidId, table.removeKey key)

def step (table : HandlerTable) (op : HandlerOp) : HandlerTable := (table.apply op).2

/-- What a caller and the allocator promise: objects have the size of the table,
`malloc` gives a pointer that is not in use, the pool stays below `2 ^ 32`
bytes, and an id that is removed is live. -/
def Ok (table : HandlerTable) : HandlerOp → Prop
  | .append _ obj malloc | .prepend _ obj malloc =>
    obj.length = table.objSize ∧ malloc ∉ table.ptrs ∧ malloc < 2 ^ 64 ∧ table.Room
  | .findKey _ _ malloc => malloc ∉ table.ptrs ∧ malloc < 2 ^ 64
  | .removeById id => id = invalidId ∨ id ∈ MultiMap.ids table.toMap
  | .removeByIdFull id => id ∈ MultiMap.ids table.toMap
  | .removeKey _ => True

instance (table : HandlerTable) : Decidable table.Room := inferInstanceAs (Decidable (_ → _))

instance (table : HandlerTable) : ∀ op, Decidable (table.Ok op)
  | .append .. | .prepend .. => inferInstanceAs (Decidable (_ ∧ _ ∧ _ ∧ _))
  | .findKey .. => inferInstanceAs (Decidable (_ ∧ _))
  | .removeById _ => inferInstanceAs (Decidable (_ ∨ _))
  | .removeByIdFull id => inferInstanceAs (Decidable (id ∈ MultiMap.ids table.toMap))
  | .removeKey _ => .isTrue trivial

/-- The operation on the multimap; `id` is the new id. -/
def specStep (m : HandlerMap) (id : ℤ) : HandlerOp → HandlerMap
  | .append key obj _ => MultiMap.append m key (id, obj)
  | .prepend key obj _ => MultiMap.prepend m key (id, obj)
  | .findKey key create _ => if create then MultiMap.touch m key else m
  | .removeById i => MultiMap.removeId m i
  | .removeByIdFull i => MultiMap.removeIdFull m i
  | .removeKey key => MultiMap.removeKey m key

/-- The entries an operation takes out. -/
def removed (m : HandlerMap) : HandlerOp → List (ℤ × Bytes)
  | .removeById i | .removeByIdFull i => MultiMap.ofId m i
  | .removeKey key => MultiMap.find m key
  | _ => []

/-- What holds of a table after every run: keys and ids are there once, the ids
that are live in the pool are those of the map, and going through a key ends
and is the same from both ends. -/
structure TableLaw (table : HandlerTable) : Prop where
  keys_nodup : (Assoc.keys table.toMap).Nodup
  ids_nodup : (MultiMap.ids table.toMap).Nodup
  live : ∀ i : ℕ, table.objs.Live i ↔ (i : ℤ) ∈ MultiMap.ids table.toMap
  forward : ∀ key, table.forward key = MultiMap.find table.toMap key
  backward : ∀ key, table.backward key = (table.forward key).reverse
  ends : ∀ key, (table.forward key).length ≤ table.objs.capacity

/-- What a step does: the operation of the multimap, with a fresh id and the
calls of `free_func` for what is taken out. -/
structure StepLaw (table : HandlerTable) (op : HandlerOp) : Prop where
  map : (table.step op).toMap = specStep table.toMap (table.apply op).1 op
  fresh : op.adds → 0 ≤ (table.apply op).1 ∧ (table.apply op).1 ∉ MultiMap.ids table.toMap
  freed : (table.step op).freedObjs =
    table.freedObjs ++ if table.freeFunc then removed table.toMap op else []

variable {table : HandlerTable} {free : List ℕ} {L : KeyPtr → List ℕ} {p : KeyPtr} {key : Bytes}

/-! ### The map of a table -/

/-- An id with the object in its slot. -/
def entryAt (table : HandlerTable) (i : ℕ) : ℤ × Bytes := (i, (table.slot i).obj)

namespace TableInv

theorem mem_of_lookup (h : TableInv table L free) (hkey : table.keys.lookup key = some p) :
    (key, p) ∈ table.keys ∧ p ∈ table.ptrs := by
  have hmem := (Assoc.lookup_eq_some_iff h.keys_nodup).mp hkey
  exact ⟨hmem, List.mem_map.mpr ⟨(key, p), hmem, rfl⟩⟩

/-- Each pointer is that of one key. -/
theorem ptr_inj (h : TableInv table L free) {e e' : Bytes × KeyPtr} (he : e ∈ table.keys)
    (he' : e' ∈ table.keys) : e.2 = e'.2 ↔ e.1 = e'.1 := by
  constructor
  · intro hp
    rw [List.inj_on_of_nodup_map h.ptrs_nodup he he' hp]
  · intro hk
    rw [List.inj_on_of_nodup_map h.keys_nodup he he' hk]

theorem entries_eq (h : TableInv table L free) (hp : p ∈ table.ptrs) :
    ((L p).map Nat.cast).map table.entry = (L p).map table.entryAt := by
  rw [List.map_map]
  refine List.map_congr_left fun i hi => ?_
  show ((i : ℤ), table.obj i) = _
  rw [h.sound.obj_eq (h.live hp hi).1]
  rfl

/-- Going through a key shows its list. -/
theorem forward_eq (h : TableInv table L free) (hkey : table.keys.lookup key = some p) :
    table.forward key = (L p).map table.entryAt := by
  have hp := (h.mem_of_lookup hkey).2
  have hnext : ∀ i ∈ L p, table.next i = (table.slot i).next := fun i hi => h.sound.next_eq (h.live hp hi).1
  have hwalk := (h.linked p hp).walk_next hnext (h.length_lt hp)
  rw [forward, firstId, hkey]
  dsimp only
  rw [h.first p hp, hwalk, h.entries_eq hp]

theorem backward_eq (h : TableInv table L free) (hkey : table.keys.lookup key = some p) :
    table.backward key = ((L p).map table.entryAt).reverse := by
  have hp := (h.mem_of_lookup hkey).2
  have hprev : ∀ i ∈ L p, table.prev i = (table.slot i).prev := fun i hi => h.sound.prev_eq (h.live hp hi).1
  have hwalk := (h.linked p hp).walk_prev hprev (h.length_lt hp)
  rw [backward, lastId, hkey]
  dsimp only
  rw [h.last p hp, hwalk, List.map_reverse, h.entries_eq hp]

theorem toMap_eq (h : TableInv table L free) :
    table.toMap = table.keys.map fun e => (e.1, (L e.2).map table.entryAt) := by
  refine List.map_congr_left fun e he => ?_
  rw [h.forward_eq ((Assoc.lookup_eq_some_iff h.keys_nodup).mpr he)]

end TableInv

theorem keys_toMap : Assoc.keys table.toMap = Assoc.keys table.keys := by
  rw [toMap, Assoc.keys, Assoc.keys, List.map_map]
  rfl

theorem lookup_toMap : table.toMap.lookup key = (table.keys.lookup key).map fun _ => table.forward key := by
  rw [toMap]
  induction table.keys with
  | nil => rfl
  | cons e keys ih =>
    rw [List.map_cons, List.lookup_cons, List.lookup_cons, ih]
    by_cases hk : key = e.1
    · rw [hk]
      simp
    · rw [beq_false_of_ne hk]

/-- Nothing is at a key that the table does not have. -/
theorem walk_none (hkey : table.keys.lookup key = none) :
    table.forward key = [] ∧ table.backward key = [] := by
  rw [forward, backward, firstId, lastId, hkey]
  exact ⟨rfl, rfl⟩

theorem TableInv.ids_eq (h : TableInv table L free) :
    MultiMap.ids table.toMap = table.keys.flatMap fun e => (L e.2).map Nat.cast := by
  rw [h.toMap_eq, MultiMap.ids, List.flatMap_map]
  refine congrArg (fun f => table.keys.flatMap f) (funext fun e => ?_)
  rw [List.map_map]
  rfl

theorem TableInv.mem_ids (h : TableInv table L free) {z : ℤ} :
    z ∈ MultiMap.ids table.toMap ↔ ∃ p ∈ table.ptrs, ∃ i ∈ L p, (i : ℤ) = z := by
  rw [h.ids_eq, List.mem_flatMap, ptrs]
  simp only [List.mem_map]
  constructor
  · rintro ⟨e, he, i, hi, hz⟩
    exact ⟨e.2, ⟨e, he, rfl⟩, i, hi, hz⟩
  · rintro ⟨_, ⟨e, he, rfl⟩, i, hi, hz⟩
    exact ⟨e, he, i, hi, hz⟩

/-- **The table shows a well-formed map.** -/
theorem TableInv.tableLaw (h : TableInv table L free) : TableLaw table where
  keys_nodup := by
    rw [keys_toMap]
    exact h.keys_nodup
  ids_nodup := by
    rw [h.ids_eq, List.nodup_flatMap]
    refine ⟨fun e he => (h.nodup e.2 (List.mem_map.mpr ⟨e, he, rfl⟩)).map Nat.cast_injective, ?_⟩
    have hpair : table.keys.Pairwise fun e e' => e.2 ≠ e'.2 := List.pairwise_map.mp h.ptrs_nodup
    refine hpair.imp_of_mem fun {e e'} he he' hne z hz hz' => ?_
    obtain ⟨i, hi, rfl⟩ := List.mem_map.mp hz
    obtain ⟨j, hj, hij⟩ := List.mem_map.mp hz'
    have hij : j = i := Int.ofNat_inj.mp hij
    exact hne (h.disjoint (List.mem_map.mpr ⟨e, he, rfl⟩) (List.mem_map.mpr ⟨e', he', rfl⟩) hi (hij ▸ hj))
  live i := by
    rw [h.live_iff, h.mem_ids]
    simp
  forward key := by
    rw [MultiMap.find, lookup_toMap]
    cases hkey : table.keys.lookup key with
    | none => exact (walk_none hkey).1
    | some p => rfl
  backward key := by
    cases hkey : table.keys.lookup key with
    | none => rw [(walk_none hkey).1, (walk_none hkey).2, List.reverse_nil]
    | some p => rw [h.forward_eq hkey, h.backward_eq hkey]
  ends key := by
    cases hkey : table.keys.lookup key with
    | none =>
      rw [(walk_none hkey).1]
      exact Nat.zero_le _
    | some p =>
      rw [h.forward_eq hkey, List.length_map]
      exact Nat.le_of_lt_succ (h.length_lt (h.mem_of_lookup hkey).2)

/-! ### New keys and objects -/

/-- The calls are not part of the invariant. -/
theorem TableInv.of_calls (h : TableInv table L free) (calls : List HandlerCall) :
    TableInv { table with calls := calls } L free :=
  ⟨⟨h.sound.fits, h.sound.pool⟩, h.keys_nodup, h.ptrs_nodup, h.ptr_lt, h.name, h.first, h.last, h.linked,
    h.nodup, h.owner, h.live_iff⟩

/-- **Finding a key with `create`** gives one that is in the map. -/
theorem findKey_spec (h : TableInv table L free) (key : Bytes) {malloc : KeyPtr} (hptr : malloc ∉ table.ptrs)
    (hlt : malloc < 2 ^ 64) :
    let table' := (table.findKey key true malloc).2
    ∃ p L', (table.findKey key true malloc).1 = some p ∧ TableInv table' L' free ∧
      table'.keys.lookup key = some p ∧ table'.toMap = MultiMap.touch table.toMap key ∧
      table'.freedObjs = table.freedObjs ∧ table'.objs = table.objs ∧ table'.objSize = table.objSize := by
  intro table'
  cases hkey : table.keys.lookup key with
  | some p =>
    have hres : table.findKey key true malloc = (some p, table) := by rw [findKey, hkey]
    have htouch : MultiMap.touch table.toMap key = table.toMap := by
      rw [MultiMap.touch, lookup_toMap, hkey]
      rfl
    have htable' : table' = table := congrArg Prod.snd hres
    rw [htable', htouch, hres]
    exact ⟨p, L, rfl, h, hkey, rfl, rfl, rfl, rfl⟩
  | none =>
    have hinv := addKey_spec h hkey hptr hlt
    have hres : table.findKey key true malloc = (some malloc, { table.addKey key malloc with
        calls := table.calls ++ if table.keyInit then [.initKey key] else [] }) := by
      rw [findKey, hkey]
      exact congrArg (Prod.mk (some malloc)) (call_eq ..)
    have htable' : table' = _ := congrArg Prod.snd hres
    have hinv' : TableInv table' (Function.update L malloc []) free := by
      rw [htable']
      exact hinv.of_calls _
    have htouch : MultiMap.touch table.toMap key = table.toMap ++ [(key, [])] := by
      rw [MultiMap.touch, lookup_toMap, hkey]
      rfl
    refine ⟨malloc, Function.update L malloc [], by rw [hres], hinv', ?_, ?_, ?_, ?_, ?_⟩
    · rw [htable']
      exact (Assoc.lookup_concat hkey).trans (if_pos rfl)
    · rw [hinv'.toMap_eq, htouch, h.toMap_eq, htable']
      show (table.keys ++ [(key, malloc)]).map _ = _
      rw [List.map_append, List.map_singleton, Function.update_self]
      congr 1
      refine List.map_congr_left fun e he => ?_
      have hne : e.2 ≠ malloc := fun heq => hptr (heq ▸ List.mem_map.mpr ⟨e, he, rfl⟩)
      rw [Function.update_of_ne hne]
      rfl
    · rw [htable', freedObjs, freedObjs, List.filterMap_append]
      split
      · exact List.append_nil _
      · exact List.append_nil _
    · rw [htable']
      rfl
    · rw [htable']
      rfl

/-- A new list for one key. -/
theorem TableInv.toMap_modify (h : TableInv table L free) {table' : HandlerTable} {free' l : List ℕ}
    (h' : TableInv table' (Function.update L p l) free') (hkey : table.keys.lookup key = some p)
    (hkeys : table'.keys = table.keys)
    (hobjs : ∀ i, table.objs.Live i → (table'.slot i).obj = (table.slot i).obj)
    {f : List (ℤ × Bytes) → List (ℤ × Bytes)}
    (hl : l.map table'.entryAt = f ((L p).map table.entryAt)) :
    table'.toMap = Assoc.modify table.toMap key f := by
  obtain ⟨hmem, hp⟩ := h.mem_of_lookup hkey
  rw [h'.toMap_eq, h.toMap_eq, hkeys, Assoc.modify, List.map_map]
  refine List.map_congr_left fun e he => ?_
  rw [Function.comp_apply]
  dsimp only
  by_cases hep : e.2 = p
  · have hek : e.1 = key := (h.ptr_inj he hmem).mp hep
    rw [if_pos (beq_iff_eq.mpr hek), hep, Function.update_self, hl]
  · have hek : ¬ e.1 = key := fun hk => hep ((h.ptr_inj he hmem).mpr hk)
    rw [if_neg (by simpa using hek), Function.update_of_ne hep]
    refine Prod.ext rfl (List.map_congr_left fun i hi => ?_)
    rw [entryAt, entryAt, hobjs i (h.live (List.mem_map.mpr ⟨e, he, rfl⟩) hi)]

/-- The ids of the map are live. -/
theorem TableInv.notMem_ids (h : TableInv table L free) {n : ℕ} (hn : ¬ table.objs.Live n) :
    (n : ℤ) ∉ MultiMap.ids table.toMap := fun hmem => hn ((h.tableLaw.live n).mpr hmem)

/-- A new object leaves the entries of the old ones. -/
theorem Inserted.map_entryAt {table' : HandlerTable} {n : ℕ} {obj : Bytes} (hins : Inserted table table' n obj)
    (h : TableInv table L free) (hp : p ∈ table.ptrs) : (L p).map table'.entryAt = (L p).map table.entryAt := by
  refine List.map_congr_left fun i hi => ?_
  rw [entryAt, entryAt, hins.objs i (h.live hp hi)]

/-- A new object frees nothing. -/
theorem Inserted.freedObjs_eq {table' : HandlerTable} {n : ℕ} {obj : Bytes} (hins : Inserted table table' n obj) :
    table'.freedObjs = table.freedObjs := by
  rw [freedObjs, hins.calls, freedObjs]

/-- **Appending** is appending to the map. -/
theorem append_stepLaw (h : TableInv table L free) {obj : Bytes} {malloc : KeyPtr}
    (hok : table.Ok (.append key obj malloc)) :
    (∃ L' free', TableInv (table.step (.append key obj malloc)) L' free') ∧
      StepLaw table (.append key obj malloc) := by
  obtain ⟨hobj, hptr, hlt, hroom⟩ := hok
  obtain ⟨p, L₁, hp, h₁, hkey, hmap, hfreed, hobjs, hsize⟩ := findKey_spec h key hptr hlt
  set table₁ := (table.findKey key true malloc).2 with htable₁
  obtain ⟨n, hn, hins, free', hinv⟩ := keyAppend_spec h₁ (h₁.mem_of_lookup hkey).2
    (hobj.trans hsize.symm) (by rw [Room, hobjs]; exact hroom)
  have hres : table.append key obj malloc = table₁.keyAppend p obj := by
    show table₁.keyAppend ((table.findKey key true malloc).1.getD malloc) obj = _
    rw [hp]
    rfl
  have hfresh : ¬ table.objs.Live n := hobjs ▸ hins.fresh
  refine ⟨⟨Function.update L₁ p (L₁ p ++ [n]), free', ?_⟩, ?_, fun _ => ?_, ?_⟩
  · show TableInv (table.append key obj malloc).2 _ _
    rw [hres]
    exact hinv
  · show (table.append key obj malloc).2.toMap = MultiMap.append table.toMap key
      ((table.append key obj malloc).1, obj)
    rw [hres, hn, MultiMap.append, ← hmap]
    refine h₁.toMap_modify hinv hkey hins.same.keys hins.objs ?_
    rw [List.map_append, List.map_singleton, entryAt, hins.obj, hins.map_entryAt h₁ (h₁.mem_of_lookup hkey).2]
  · show 0 ≤ (table.append key obj malloc).1 ∧ (table.append key obj malloc).1 ∉ _
    rw [hres, hn]
    exact ⟨Int.natCast_nonneg n, h.notMem_ids hfresh⟩
  · show (table.append key obj malloc).2.freedObjs = _
    rw [hres, hins.freedObjs_eq, hfreed]
    simp [removed]

/-- **Prepending** is prepending to the map. -/
theorem prepend_stepLaw (h : TableInv table L free) {obj : Bytes} {malloc : KeyPtr}
    (hok : table.Ok (.prepend key obj malloc)) :
    (∃ L' free', TableInv (table.step (.prepend key obj malloc)) L' free') ∧
      StepLaw table (.prepend key obj malloc) := by
  obtain ⟨hobj, hptr, hlt, hroom⟩ := hok
  obtain ⟨p, L₁, hp, h₁, hkey, hmap, hfreed, hobjs, hsize⟩ := findKey_spec h key hptr hlt
  set table₁ := (table.findKey key true malloc).2 with htable₁
  obtain ⟨n, hn, hins, free', hinv⟩ := keyPrepend_spec h₁ (h₁.mem_of_lookup hkey).2
    (hobj.trans hsize.symm) (by rw [Room, hobjs]; exact hroom)
  have hres : table.prepend key obj malloc = table₁.keyPrepend p obj := by
    show table₁.keyPrepend ((table.findKey key true malloc).1.getD malloc) obj = _
    rw [hp]
    rfl
  have hfresh : ¬ table.objs.Live n := hobjs ▸ hins.fresh
  refine ⟨⟨Function.update L₁ p (n :: L₁ p), free', ?_⟩, ?_, fun _ => ?_, ?_⟩
  · show TableInv (table.prepend key obj malloc).2 _ _
    rw [hres]
    exact hinv
  · show (table.prepend key obj malloc).2.toMap = MultiMap.prepend table.toMap key
      ((table.prepend key obj malloc).1, obj)
    rw [hres, hn, MultiMap.prepend, ← hmap]
    refine h₁.toMap_modify hinv hkey hins.same.keys hins.objs ?_
    rw [List.map_cons, entryAt, hins.obj, hins.map_entryAt h₁ (h₁.mem_of_lookup hkey).2]
  · show 0 ≤ (table.prepend key obj malloc).1 ∧ (table.prepend key obj malloc).1 ∉ _
    rw [hres, hn]
    exact ⟨Int.natCast_nonneg n, h.notMem_ids hfresh⟩
  · show (table.prepend key obj malloc).2.freedObjs = _
    rw [hres, hins.freedObjs_eq, hfreed]
    simp [removed]

/-- **Finding a key** makes it when asked to. -/
theorem findKey_stepLaw (h : TableInv table L free) {create : Bool} {malloc : KeyPtr}
    (hok : table.Ok (.findKey key create malloc)) :
    (∃ L' free', TableInv (table.step (.findKey key create malloc)) L' free') ∧
      StepLaw table (.findKey key create malloc) := by
  cases create with
  | false =>
    have hres : (table.findKey key false malloc).2 = table := by
      rw [findKey]
      split <;> rfl
    refine ⟨⟨L, free, ?_⟩, ?_, fun hadds => ?_, ?_⟩
    · show TableInv (table.findKey key false malloc).2 _ _
      rw [hres]
      exact h
    · show (table.findKey key false malloc).2.toMap = _
      rw [hres]
      rfl
    · exact absurd hadds Bool.false_ne_true
    · show (table.findKey key false malloc).2.freedObjs = _
      rw [hres]
      simp [removed]
  | true =>
    obtain ⟨p, L₁, -, h₁, -, hmap, hfreed, -, -⟩ := findKey_spec h key hok.1 hok.2
    refine ⟨⟨L₁, free, h₁⟩, hmap, fun hadds => ?_, ?_⟩
    · exact absurd hadds Bool.false_ne_true
    · exact hfreed.trans (by simp [removed])

/-! ### Removed objects and keys -/

/-- A live id, with its key and its place in the list. -/
theorem TableInv.exists_of_id (h : TableInv table L free) {z : ℤ} (hz : z ∈ MultiMap.ids table.toMap) :
    ∃ key p i xs ys, z = (i : ℕ) ∧ table.keys.lookup key = some p ∧ L p = xs ++ i :: ys := by
  obtain ⟨p, hp, i, hi, rfl⟩ := h.mem_ids.mp hz
  obtain ⟨⟨key, _⟩, he, rfl⟩ := List.mem_map.mp hp
  obtain ⟨xs, ys, hL⟩ := List.append_of_mem hi
  exact ⟨key, _, i, xs, ys, rfl, (Assoc.lookup_eq_some_iff h.keys_nodup).mpr he, hL⟩

/-- The one entry of a live id. -/
theorem TableInv.ofId_eq (h : TableInv table L free) {i : ℕ} (hkey : table.keys.lookup key = some p)
    (hi : i ∈ L p) : MultiMap.ofId table.toMap (i : ℤ) = [table.entryAt i] := by
  have hmem : (key, (L p).map table.entryAt) ∈ table.toMap := by
    rw [h.toMap_eq]
    exact List.mem_map.mpr ⟨(key, p), (h.mem_of_lookup hkey).1, rfl⟩
  exact MultiMap.ofId_eq h.tableLaw.ids_nodup hmem (List.mem_map_of_mem hi)

/-- Without `i`, the lists are those without `i`. -/
theorem TableInv.filter_eq (h : TableInv table L free) {i : ℕ} {xs ys : List ℕ} (hp : p ∈ table.ptrs)
    (hL : L p = xs ++ i :: ys) {q : KeyPtr} (hq : q ∈ table.ptrs) :
    Function.update L p (xs ++ ys) q = (L q).filter fun j => j ≠ i := by
  by_cases hqp : q = p
  · rw [hqp, Function.update_self, hL]
    have hnd := h.nodup p hp
    rw [hL, List.nodup_middle, List.nodup_cons, List.mem_append, not_or] at hnd
    have hne : ∀ l : List ℕ, i ∉ l → (l.filter fun j => j ≠ i) = l := fun l hil =>
      List.filter_eq_self.mpr fun j hj => decide_eq_true (ne_of_mem_of_not_mem hj hil)
    rw [List.filter_append, List.filter_cons_of_neg (by simp), hne xs hnd.1.1, hne ys hnd.1.2]
  · rw [Function.update_of_ne hqp]
    have hi : i ∈ L p := by rw [hL]; simp
    have hne : ∀ j ∈ L q, j ≠ i := fun j hj e => hqp (h.disjoint hq hp (e ▸ hj) hi)
    exact (List.filter_eq_self.mpr fun j hj => decide_eq_true (hne j hj)).symm

/-- The map of lists from which `i` was filtered. -/
theorem map_filter_entryAt (table : HandlerTable) (i : ℕ) (l : List ℕ) :
    ((l.map table.entryAt).filter fun v => v.1 ≠ (i : ℤ)) =
      (l.filter fun j => j ≠ i).map table.entryAt := by
  rw [List.filter_map]
  refine congrArg (List.map table.entryAt) (List.filter_congr fun j _ => ?_)
  simp only [Function.comp_apply, entryAt, ne_eq, Int.ofNat_inj]

/-- **Removing an object** takes it out of the map. -/
theorem removeById_map (h : TableInv table L free) {i : ℕ} {xs ys : List ℕ}
    (hkey : table.keys.lookup key = some p) (hL : L p = xs ++ i :: ys) :
    (table.removeById i).toMap = MultiMap.removeId table.toMap i ∧
      (table.removeById i).freedObjs =
        table.freedObjs ++ if table.freeFunc then [table.entryAt i] else [] := by
  have hp := (h.mem_of_lookup hkey).2
  obtain ⟨hinv, hsame, hcalls, hobj⟩ := removeById_spec h hp hL
  constructor
  · rw [hinv.toMap_eq, h.toMap_eq, hsame.keys, MultiMap.removeId, List.map_map]
    refine List.map_congr_left fun e he => ?_
    have hq : e.2 ∈ table.ptrs := List.mem_map.mpr ⟨e, he, rfl⟩
    rw [Function.comp_apply, map_filter_entryAt, h.filter_eq hp hL hq]
    refine Prod.ext rfl (List.map_congr_left fun j _ => ?_)
    rw [entryAt, entryAt, hobj j]
  · rw [freedObjs, hcalls, List.filterMap_append, freed]
    congr 1
    split <;> rfl

theorem removeById_stepLaw (h : TableInv table L free) {z : ℤ} (hok : table.Ok (.removeById z)) :
    (∃ L' free', TableInv (table.step (.removeById z)) L' free') ∧ StepLaw table (.removeById z) := by
  rcases hok with rfl | hz
  · -- the invalid id
    have hres : table.removeById invalidId = table := if_pos rfl
    have hout : ∀ v ∈ table.toMap.flatMap Prod.snd, v.1 ≠ invalidId := by
      intro v hv
      obtain ⟨e, he, hve⟩ := List.mem_flatMap.mp hv
      have hid : v.1 ∈ MultiMap.ids table.toMap :=
        List.mem_flatMap.mpr ⟨e, he, List.mem_map_of_mem hve⟩
      obtain ⟨p, hp, i, hi, hiv⟩ := h.mem_ids.mp hid
      rw [← hiv, invalidId]
      omega
    refine ⟨⟨L, free, ?_⟩, ?_, fun hadds => absurd hadds Bool.false_ne_true, ?_⟩
    · show TableInv (table.removeById invalidId) L free
      rw [hres]
      exact h
    · show (table.removeById invalidId).toMap = MultiMap.removeId table.toMap invalidId
      rw [hres, MultiMap.removeId]
      refine (List.map_id' _).symm.trans (List.map_congr_left fun e he => Prod.ext rfl ?_)
      exact (List.filter_eq_self.mpr fun v hv =>
        decide_eq_true (hout v (List.mem_flatMap.mpr ⟨e, he, hv⟩))).symm
    · show (table.removeById invalidId).freedObjs = table.freedObjs ++
        if table.freeFunc then MultiMap.ofId table.toMap invalidId else []
      have hnone : MultiMap.ofId table.toMap invalidId = [] := by
        rw [MultiMap.ofId, List.flatMap_eq_nil_iff]
        intro e he
        exact List.filter_eq_nil_iff.mpr fun v hv hv' =>
          hout v (List.mem_flatMap.mpr ⟨e, he, hv⟩) (of_decide_eq_true hv')
      rw [hres, hnone, ite_self, List.append_nil]
  · obtain ⟨key, p, i, xs, ys, rfl, hkey, hL⟩ := h.exists_of_id hz
    have hp := (h.mem_of_lookup hkey).2
    obtain ⟨hmap, hfreed⟩ := removeById_map h hkey hL
    refine ⟨⟨_, _, (removeById_spec h hp hL).1⟩, hmap, fun hadds => absurd hadds Bool.false_ne_true, ?_⟩
    rw [removed, h.ofId_eq hkey (by rw [hL]; simp)]
    exact hfreed

/-- **Freeing a key** takes it out of the map. -/
theorem freeKey_map (h : TableInv table L free) (hkey : table.keys.lookup key = some p) :
    (table.freeKey p).toMap = MultiMap.removeKey table.toMap key ∧
      (table.freeKey p).freedObjs =
        table.freedObjs ++ if table.freeFunc then (L p).map table.entryAt else [] := by
  obtain ⟨⟨free', hinv⟩, hkeys, hcalls, hslot, -, -⟩ := freeKey_spec h hkey
  constructor
  · rw [hinv.toMap_eq, hkeys, h.toMap_eq, MultiMap.removeKey, Assoc.erase, Assoc.erase, List.eraseP_map]
    refine List.map_congr_left fun e _ => Prod.ext rfl (List.map_congr_left fun i _ => ?_)
    rw [entryAt, entryAt, hslot]
  · rw [freedObjs, hcalls, List.filterMap_append, List.filterMap_append, List.append_assoc]
    congr 1
    have hkeyFree : (table.freedKey key).filterMap (fun
        | HandlerCall.freeObj id obj => some (id, obj)
        | _ => none) = [] := by
      rw [freedKey]
      split <;> rfl
    rw [hkeyFree, List.append_nil, freed]
    split
    · rw [List.filterMap_map]
      show (L p).filterMap (some ∘ table.entryAt) = _
      rw [List.filterMap_eq_map]
    · rfl

theorem removeKey_stepLaw (h : TableInv table L free) :
    (∃ L' free', TableInv (table.step (.removeKey key)) L' free') ∧ StepLaw table (.removeKey key) := by
  cases hkey : table.keys.lookup key with
  | none =>
    have hres : table.removeKey key = table := by rw [removeKey, hkey]
    have hlook : table.toMap.lookup key = none := by rw [lookup_toMap, hkey]; rfl
    refine ⟨⟨L, free, ?_⟩, ?_, fun hadds => absurd hadds Bool.false_ne_true, ?_⟩
    · show TableInv (table.removeKey key) L free
      rw [hres]
      exact h
    · show (table.removeKey key).toMap = Assoc.erase table.toMap key
      rw [hres, Assoc.erase_eq_filter h.tableLaw.keys_nodup]
      have hne : ∀ e ∈ table.toMap, e.1 ≠ key := fun e he hek =>
        Assoc.lookup_eq_none_iff.mp hlook (List.mem_map.mpr ⟨e, he, hek⟩)
      exact (List.filter_eq_self.mpr fun e he => decide_eq_true (hne e he)).symm
    · show (table.removeKey key).freedObjs = table.freedObjs ++
        if table.freeFunc then MultiMap.find table.toMap key else []
      rw [hres, MultiMap.find, hlook]
      simp
  | some p =>
    have hres : table.removeKey key = table.freeKey p := by rw [removeKey, hkey]
    obtain ⟨hmap, hfreed⟩ := freeKey_map h hkey
    obtain ⟨⟨free', hinv⟩, -⟩ := freeKey_spec h hkey
    refine ⟨⟨L, free', ?_⟩, ?_, fun hadds => absurd hadds Bool.false_ne_true, ?_⟩
    · show TableInv (table.removeKey key) L free'
      rw [hres]
      exact hinv
    · show (table.removeKey key).toMap = _
      rw [hres]
      exact hmap
    · show (table.removeKey key).freedObjs = table.freedObjs ++
        if table.freeFunc then MultiMap.find table.toMap key else []
      rw [hres, ← h.tableLaw.forward, h.forward_eq hkey]
      exact hfreed

theorem removeByIdFull_eq {id : ℤ} (hkey : table.getKeyById id = some p) :
    table.removeByIdFull id = some (if (table.removeById id).keyIsEmpty p
      then (table.removeById id).freeKey p else table.removeById id) := by
  rw [removeByIdFull, hkey, Option.map_some]

theorem TableInv.keyIsEmpty_iff (h : TableInv table L free) (hp : p ∈ table.ptrs) :
    table.keyIsEmpty p = true ↔ L p = [] := by
  rw [keyIsEmpty, h.first p hp, h.last p hp, Bool.and_eq_true, decide_eq_true_iff, decide_eq_true_iff,
    invalidId, IdList.headId_eq_neg_iff, IdList.lastId_eq_neg_iff, and_self]

/-- The key whose only object is `i`. -/
theorem TableInv.single_iff (h : TableInv table L free) {i : ℕ} {xs ys : List ℕ}
    (hkey : table.keys.lookup key = some p) (hL : L p = xs ++ i :: ys) {e : Bytes × KeyPtr}
    (he : e ∈ table.keys) :
    ((L e.2).map table.entryAt).map Prod.fst = [(i : ℤ)] ↔ e.1 = key ∧ xs ++ ys = [] := by
  obtain ⟨hmem, hp⟩ := h.mem_of_lookup hkey
  have hi : i ∈ L p := by rw [hL]; simp
  have hcast : (L e.2).map (Prod.fst ∘ table.entryAt) = [(i : ℤ)] ↔ L e.2 = [i] := by
    constructor
    · intro hmap
      obtain ⟨j, hj, hji⟩ := List.map_eq_singleton_iff.mp hmap
      rw [hj, Int.ofNat_inj.mp hji]
    · intro hone
      rw [hone]
      rfl
  rw [List.map_map, hcast, ← h.ptr_inj he hmem]
  constructor
  · intro hone
    have hep : e.2 = p := h.disjoint (List.mem_map.mpr ⟨e, he, rfl⟩) hp (by rw [hone]; simp) hi
    refine ⟨hep, ?_⟩
    rw [hep, hL, List.append_eq_singleton_iff] at hone
    rcases hone with ⟨rfl, hys⟩ | ⟨-, hys⟩
    · simpa using hys
    · exact absurd hys (List.cons_ne_nil i ys)
  · rintro ⟨hep, hnil⟩
    obtain ⟨rfl, rfl⟩ := List.append_eq_nil_iff.mp hnil
    rw [hep, hL]
    rfl

/-- The map without the key of `i` and without `i`. -/
theorem TableInv.removeIdFull_eq (h : TableInv table L free) {i : ℕ} {xs ys : List ℕ}
    (hkey : table.keys.lookup key = some p) (hL : L p = xs ++ i :: ys) :
    MultiMap.removeIdFull table.toMap (i : ℤ) =
      if xs ++ ys = [] then MultiMap.removeKey (MultiMap.removeId table.toMap (i : ℤ)) key
      else MultiMap.removeId table.toMap (i : ℤ) := by
  rw [MultiMap.removeIdFull]
  split
  · next hnil =>
    have herase : (table.toMap.filter fun e => e.2.map Prod.fst ≠ [(i : ℤ)]) =
        Assoc.erase table.toMap key := by
      rw [Assoc.erase_eq_filter h.tableLaw.keys_nodup, h.toMap_eq, List.filter_map, List.filter_map]
      refine congrArg (List.map _) (List.filter_congr fun e he => ?_)
      simp only [Function.comp_apply, h.single_iff hkey hL he, hnil, and_true, ne_eq]
    rw [herase, MultiMap.removeKey, MultiMap.removeId, MultiMap.removeId, Assoc.erase, Assoc.erase,
      List.eraseP_map]
    rfl
  · next hnil =>
    have hall : (table.toMap.filter fun e => e.2.map Prod.fst ≠ [(i : ℤ)]) = table.toMap := by
      refine List.filter_eq_self.mpr fun e' he' => ?_
      rw [h.toMap_eq] at he'
      obtain ⟨e, he, rfl⟩ := List.mem_map.mp he'
      exact decide_eq_true fun hone => hnil ((h.single_iff hkey hL he).mp hone).2
    rw [hall]

/-- **Removing an object with its key**, when it was the last one. -/
theorem removeByIdFull_stepLaw (h : TableInv table L free) {z : ℤ} (hok : table.Ok (.removeByIdFull z)) :
    (∃ L' free', TableInv (table.step (.removeByIdFull z)) L' free') ∧
      StepLaw table (.removeByIdFull z) := by
  obtain ⟨key, p, i, xs, ys, rfl, hkey, hL⟩ := h.exists_of_id hok
  obtain ⟨-, hp⟩ := h.mem_of_lookup hkey
  have hi : i ∈ L p := by rw [hL]; simp
  obtain ⟨hinv, hsame, hcalls, hobj⟩ := removeById_spec h hp hL
  obtain ⟨hmap, hfreed⟩ := removeById_map h hkey hL
  have hspec := h.removeIdFull_eq hkey hL
  have hone : removed table.toMap (.removeByIdFull i) = [table.entryAt i] := h.ofId_eq hkey hi
  have hkeyId : table.getKeyById i = some p := by
    rw [getKeyById, if_neg (by rw [invalidId]; omega), h.sound.key_eq (h.live hp hi).1]
    exact congrArg some (h.owner p hp i hi)
  have hres : table.step (.removeByIdFull i) = if (table.removeById i).keyIsEmpty p
      then (table.removeById i).freeKey p else table.removeById i := by
    rw [step, apply, removeByIdFull_eq hkeyId, Option.getD_some]
  have hkey₁ : (table.removeById i).keys.lookup key = some p := by rw [hsame.keys, hkey]
  have hempty := hinv.keyIsEmpty_iff (hinv.mem_of_lookup hkey₁).2
  rw [Function.update_self] at hempty
  by_cases hnil : xs ++ ys = []
  · -- the key goes as well
    obtain ⟨hmap', hfreed'⟩ := freeKey_map hinv hkey₁
    obtain ⟨⟨free', hinv'⟩, -⟩ := freeKey_spec hinv hkey₁
    rw [if_pos (hempty.mpr hnil)] at hres
    rw [if_pos hnil] at hspec
    refine ⟨⟨_, free', by rw [hres]; exact hinv'⟩, ?_, fun hadds => absurd hadds Bool.false_ne_true, ?_⟩
    · rw [hres, hmap', hmap, ← hspec]
      rfl
    · rw [hres, hfreed', hfreed, hsame.freeFunc, Function.update_self, hnil, List.map_nil, ite_self,
        List.append_nil, hone]
  · rw [if_neg (fun he => hnil (hempty.mp he))] at hres
    rw [if_neg hnil] at hspec
    refine ⟨⟨_, _, by rw [hres]; exact hinv⟩, ?_, fun hadds => absurd hadds Bool.false_ne_true, ?_⟩
    · rw [hres, hmap, ← hspec]
      rfl
    · rw [hres, hfreed, hone]

/-! ### Runs -/

/-- **Every step keeps the invariant and is a step of the multimap.** -/
theorem step_law (h : TableInv table L free) {op : HandlerOp} (hok : table.Ok op) :
    (∃ L' free', TableInv (table.step op) L' free') ∧ StepLaw table op := by
  cases op with
  | append key obj malloc => exact append_stepLaw h hok
  | prepend key obj malloc => exact prepend_stepLaw h hok
  | findKey key create malloc => exact findKey_stepLaw h hok
  | removeById id => exact removeById_stepLaw h hok
  | removeByIdFull id => exact removeByIdFull_stepLaw h hok
  | removeKey key => exact removeKey_stepLaw h

theorem le_alignTo (len : ℕ) : len ≤ alignTo len 4 := ObjPool.le_alignTo len 4 (by decide)

/-- A new table has no keys. -/
theorem new_inv (array : ByteMem) (objSize : ℕ) (freeFunc keyInit keyFree : Bool)
    (hsize : alignTo (objSize + sizeofHandlerObj + 4) 4 * initSize < 2 ^ 32) :
    TableInv (new array objSize freeFunc keyInit keyFree) (fun _ => []) (List.range initSize) := by
  have hpool := newWithPrealloc_spec array (objSize + sizeofHandlerObj) (show 2 ≤ initSize by decide) hsize
  have hfits : 20 + objSize ≤ alignTo (objSize + sizeofHandlerObj + 4) 4 := by
    have hle := le_alignTo (objSize + sizeofHandlerObj + 4)
    have hsizeof : sizeofHandlerObj = 16 := rfl
    omega
  refine ⟨⟨hfits, hpool⟩, List.nodup_nil, List.nodup_nil, fun p hp => ?_, fun e he => ?_, fun p hp => ?_,
    fun p hp => ?_, fun p hp => ?_, fun p hp => ?_, fun p hp => ?_, fun i => ?_⟩
  · exact absurd hp List.not_mem_nil
  · exact absurd he List.not_mem_nil
  · exact absurd hp List.not_mem_nil
  · exact absurd hp List.not_mem_nil
  · exact absurd hp List.not_mem_nil
  · exact absurd hp List.not_mem_nil
  · exact absurd hp List.not_mem_nil
  · constructor
    · intro hi
      have hlt : i < initSize := by
        have hcap : (new array objSize freeFunc keyInit keyFree).objs.capacity = initSize :=
          Nat.mul_div_cancel_left initSize (by omega)
        exact hcap ▸ hi.1
      exact absurd (List.mem_range.mpr hlt) (hpool.live_iff.mp hi).2
    · rintro ⟨p, hp, -⟩
      exact absurd hp List.not_mem_nil

/-- The invariant for some lists. -/
def Inv (table : HandlerTable) : Prop := ∃ L free, TableInv table L free

/-- **The handler table is a multimap**: in every run from a new table, the table
reached shows a well-formed map, and the next operation is that of the multimap. -/
theorem run_multimap (array : ByteMem) (objSize : ℕ) (freeFunc keyInit keyFree : Bool)
    (hsize : alignTo (objSize + sizeofHandlerObj + 4) 4 * initSize < 2 ^ 32) (ops : List HandlerOp)
    (ha : Run.Admissible step Ok (new array objSize freeFunc keyInit keyFree) ops) :
    (new array objSize freeFunc keyInit keyFree).toMap = [] ∧
      TableLaw (Run.exec step (new array objSize freeFunc keyInit keyFree) ops) ∧
      ∀ before op after, ops = before ++ op :: after →
        StepLaw (Run.exec step (new array objSize freeFunc keyInit keyFree) before) op := by
  have hnew : Inv (new array objSize freeFunc keyInit keyFree) :=
    ⟨_, _, new_inv array objSize freeFunc keyInit keyFree hsize⟩
  have hstep : ∀ table op, Inv table → Ok table op → Inv (table.step op) := by
    rintro table op ⟨L, free, h⟩ hok
    exact (step_law h hok).1
  refine ⟨rfl, ?_, ?_⟩
  · obtain ⟨L, free, h⟩ := Run.invariant hstep hnew ha
    exact h.tableLaw
  · intro before op after hops
    rw [hops] at ha
    obtain ⟨hbefore, hok, -⟩ := Run.admissible_append.mp ha
    obtain ⟨L, free, h⟩ := Run.invariant hstep hnew hbefore
    exact (step_law h hok).2

/-- Two objects of a key, the first of which is removed, and one of another key. -/
theorem run_multimap_two :
    TableLaw (Run.exec step (new (fun _ => 0) 1 true false false)
      [.append [97] [1] 8, .append [97] [2] 24, .prepend [98] [3] 16, .removeByIdFull 0]) :=
  (run_multimap (fun _ => 0) 1 true false false (by decide)
    [.append [97] [1] 8, .append [97] [2] 24, .prepend [98] [3] 16, .removeByIdFull 0]
    (by decide +kernel)).2.1

end HandlerTable

end Fcitx
