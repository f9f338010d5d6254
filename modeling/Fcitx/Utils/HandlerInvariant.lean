/-
# The invariant of the handler table

The lists of the keys, as the ids in their order, tie the table together: the
keys have the ends of their lists, the objects have their neighbours and their
key, and an id is allocated exactly when it is in a list. Every operation keeps
this, with the lists it makes.

Key definitions: `HandlerTable.slot`, `HandlerTable.TableInv`.
Key theorems: `addKey_spec`, `keyAppend_spec`, `keyPrepend_spec`,
`removeById_spec`, `freeKey_spec`.
-/
import Fcitx.Utils.HandlerTable
import Mathlib.Data.List.Perm.Subperm

namespace Fcitx

/-- `FcitxHandlerObj`, with the object behind it. -/
@[ext]
structure HandlerObj where
  prev : ℤ
  next : ℤ
  key : KeyPtr
  obj : Bytes

namespace HandlerTable

open ByteMem ObjPool

/-- What is stored in a slot. -/
def slot (table : HandlerTable) (i : ℕ) : HandlerObj where
  prev := table.objs.array.readInt (i * table.objs.eleSize + 4)
  next := table.objs.array.readInt (i * table.objs.eleSize + 8)
  key := table.objs.array.readPtr (i * table.objs.eleSize + 12)
  obj := table.objs.array.load (i * table.objs.eleSize + 20) table.objSize

/-- The pool is well formed and its slots have room for the objects. -/
structure Sound (table : HandlerTable) (free : List ℕ) : Prop where
  fits : 20 + table.objSize ≤ table.objs.eleSize
  pool : PoolInv table.objs free

variable {table : HandlerTable} {free : List ℕ} {i : ℕ}

namespace Sound

theorem getObj_eq (h : Sound table free) (hi : i < table.objs.capacity) :
    table.getObj i = i * table.objs.eleSize + 4 := by
  rw [getObj, ObjPool.get, h.pool.offset_eq hi]

theorem prev_eq (h : Sound table free) (hi : i < table.objs.capacity) :
    table.prev i = (table.slot i).prev := by
  rw [prev, h.getObj_eq hi]
  rfl

theorem next_eq (h : Sound table free) (hi : i < table.objs.capacity) :
    table.next i = (table.slot i).next := by
  rw [next, h.getObj_eq hi, Nat.add_assoc]
  rfl

theorem key_eq (h : Sound table free) (hi : i < table.objs.capacity) :
    table.key i = (table.slot i).key := by
  rw [key, h.getObj_eq hi, Nat.add_assoc]
  rfl

theorem obj_eq (h : Sound table free) (hi : i < table.objs.capacity) :
    table.obj i = (table.slot i).obj := by
  rw [obj, h.getObj_eq hi, Nat.add_assoc]
  rfl

end Sound

/-! ### What a write leaves alone -/

/-- The pointers of the keys. -/
def ptrs (table : HandlerTable) : List KeyPtr := table.keys.map Prod.snd

/-- What the operations on objects leave alone. -/
structure SameKeys (table table' : HandlerTable) : Prop where
  keys : table'.keys = table.keys
  objSize : table'.objSize = table.objSize
  freeFunc : table'.freeFunc = table.freeFunc
  keyInit : table'.keyInit = table.keyInit
  keyFree : table'.keyFree = table.keyFree
  name : ∀ p, (table'.keyAt p).key = (table.keyAt p).key

theorem SameKeys.ptrs {table' : HandlerTable} (h : SameKeys table table') : table'.ptrs = table.ptrs := by
  rw [HandlerTable.ptrs, h.keys]
  rfl

theorem SameKeys.trans {table₁ table₂ : HandlerTable} (h₁ : SameKeys table table₁)
    (h₂ : SameKeys table₁ table₂) : SameKeys table table₂ where
  keys := h₂.keys.trans h₁.keys
  objSize := h₂.objSize.trans h₁.objSize
  freeFunc := h₂.freeFunc.trans h₁.freeFunc
  keyInit := h₂.keyInit.trans h₁.keyInit
  keyFree := h₂.keyFree.trans h₁.keyFree
  name p := (h₂.name p).trans (h₁.name p)

/-- A write to the objects or to the ends of a key, with the slots it makes. -/
structure Wrote (table table' : HandlerTable) (free : List ℕ) (slots : ℕ → HandlerObj) : Prop where
  same : SameKeys table table'
  calls : table'.calls = table.calls
  capacity : table'.objs.capacity = table.objs.capacity
  live : ∀ j, table'.objs.Live j ↔ table.objs.Live j
  sound : Sound table' free
  slot : table'.slot = slots

theorem Wrote.trans {table₁ table₂ : HandlerTable} {slots₁ slots₂ : ℕ → HandlerObj}
    (h₁ : Wrote table table₁ free slots₁) (h₂ : Wrote table₁ table₂ free slots₂) :
    Wrote table table₂ free slots₂ where
  same := h₁.same.trans h₂.same
  calls := h₂.calls.trans h₁.calls
  capacity := h₂.capacity.trans h₁.capacity
  live j := (h₂.live j).trans (h₁.live j)
  sound := h₂.sound
  slot := h₂.slot

/-! ### Writing a field -/

section write

variable {j b : ℕ} {bs : Bytes}

/-- Other slots do not see a write. -/
theorem slot_store_of_ne (h : Sound table free) (hb : b + bs.length ≤ table.objs.eleSize) (hij : j ≠ i) :
    (table.setArray (table.objs.array.store (i * table.objs.eleSize + b) bs)).slot j = table.slot j := by
  have hfits := h.fits
  refine HandlerObj.ext ?_ ?_ ?_ ?_
  · exact readInt_slot (by omega) hb fun e => absurd e hij
  · exact readInt_slot (by omega) hb fun e => absurd e hij
  · exact readPtr_slot (by omega) hb fun e => absurd e hij
  · exact load_slot (n := table.objSize) (by omega) hb fun e => absurd e hij

/-- The fields of a slot that a write does not overlap. -/
theorem slot_store_same (h : Sound table free) (i b : ℕ) (bs : Bytes)
    (hb : b + bs.length ≤ table.objs.eleSize) :
    let o := (table.setArray (table.objs.array.store (i * table.objs.eleSize + b) bs)).slot i
    (8 ≤ b ∨ b + bs.length ≤ 4 → o.prev = (table.slot i).prev) ∧
      (12 ≤ b ∨ b + bs.length ≤ 8 → o.next = (table.slot i).next) ∧
      (20 ≤ b ∨ b + bs.length ≤ 12 → o.key = (table.slot i).key) ∧
      (20 + table.objSize ≤ b ∨ b + bs.length ≤ 20 → o.obj = (table.slot i).obj) := by
  have hfits := h.fits
  refine ⟨fun hd => ?_, fun hd => ?_, fun hd => ?_, fun hd => ?_⟩
  · exact readInt_slot (by omega) hb fun _ => hd
  · exact readInt_slot (by omega) hb fun _ => hd
  · exact readPtr_slot (by omega) hb fun _ => hd
  · exact load_slot (n := table.objSize) (by omega) hb fun _ => hd

/-- Writing behind the `int` of a slot. -/
theorem wrote_store (h : Sound table free) (i : ℕ) (h4 : 4 ≤ b)
    (hb : b + bs.length ≤ table.objs.eleSize) {o : HandlerObj}
    (ho : (table.setArray (table.objs.array.store (i * table.objs.eleSize + b) bs)).slot i = o) :
    Wrote table (table.setArray (table.objs.array.store (i * table.objs.eleSize + b) bs)) free
      (Function.update table.slot i o) := by
  set table' := table.setArray (table.objs.array.store (i * table.objs.eleSize + b) bs)
  have hheader : ∀ j, table'.objs.header j = table.objs.header j := fun j =>
    readInt_slot (m := table.objs.array) (i := j) (j := i) (a := 0) (by omega) hb
      fun _ => Or.inl (by omega)
  refine ⟨⟨rfl, rfl, rfl, rfl, rfl, fun _ => rfl⟩, rfl, rfl, fun j => ?_,
    ⟨h.fits, h.pool.of_header fun j _ => hheader j⟩, funext fun j => ?_⟩
  · show j < table.objs.capacity ∧ table'.objs.header j = allocedId ↔ _
    rw [hheader j]
    rfl
  · by_cases hji : j = i
    · rw [hji, Function.update_self, ho]
    · rw [Function.update_of_ne hji]
      exact slot_store_of_ne h hb hji

end write

/-- Writing the previous id of an object. -/
theorem setPrev_spec (h : Sound table free) (hi : i < table.objs.capacity) {z : ℤ}
    (hz : -0x80000000 ≤ z) (hz' : z < 0x80000000) :
    Wrote table (table.setPrev i z) free
      (Function.update table.slot i { table.slot i with prev := z }) := by
  have hfits := h.fits
  have hlen := length_leBytes 4 (z % 0x100000000).toNat
  have hset : table.setPrev i z = table.setArray (table.objs.array.store
      (i * table.objs.eleSize + 4) (leBytes 4 (z % 0x100000000).toNat)) := by
    rw [setPrev, h.getObj_eq hi]
    rfl
  obtain ⟨-, hnext, hkey, hobj⟩ := slot_store_same h i 4 (leBytes 4 (z % 0x100000000).toNat) (by omega)
  rw [hset]
  exact wrote_store h i le_rfl (by omega) (HandlerObj.ext (readInt_writeInt hz hz')
    (hnext (by omega)) (hkey (by omega)) (hobj (by omega)))

/-- Writing the next id of an object. -/
theorem setNext_spec (h : Sound table free) (hi : i < table.objs.capacity) {z : ℤ}
    (hz : -0x80000000 ≤ z) (hz' : z < 0x80000000) :
    Wrote table (table.setNext i z) free
      (Function.update table.slot i { table.slot i with next := z }) := by
  have hfits := h.fits
  have hlen := length_leBytes 4 (z % 0x100000000).toNat
  have hset : table.setNext i z = table.setArray (table.objs.array.store
      (i * table.objs.eleSize + 8) (leBytes 4 (z % 0x100000000).toNat)) := by
    rw [setNext, h.getObj_eq hi, Nat.add_assoc]
    rfl
  obtain ⟨hprev, -, hkey, hobj⟩ := slot_store_same h i 8 (leBytes 4 (z % 0x100000000).toNat) (by omega)
  rw [hset]
  exact wrote_store h i (by omega) (by omega) (HandlerObj.ext (hprev (by omega))
    (readInt_writeInt hz hz') (hkey (by omega)) (hobj (by omega)))

/-- Writing the key of an object. -/
theorem setKey_spec (h : Sound table free) (hi : i < table.objs.capacity) {p : KeyPtr}
    (hp : p < 2 ^ 64) :
    Wrote table (table.setKey i p) free
      (Function.update table.slot i { table.slot i with key := p }) := by
  have hfits := h.fits
  have hlen := length_leBytes 8 p
  have hset : table.setKey i p = table.setArray (table.objs.array.store
      (i * table.objs.eleSize + 12) (leBytes 8 p)) := by
    rw [setKey, h.getObj_eq hi, Nat.add_assoc]
    rfl
  obtain ⟨hprev, hnext, -, hobj⟩ := slot_store_same h i 12 (leBytes 8 p) (by omega)
  rw [hset]
  exact wrote_store h i (by omega) (by omega) (HandlerObj.ext (hprev (by omega)) (hnext (by omega))
    (readPtr_writePtr hp) (hobj (by omega)))

/-- Copying an object into its slot. -/
theorem setObj_spec (h : Sound table free) (hi : i < table.objs.capacity) {obj : Bytes}
    (hobj : obj.length = table.objSize) :
    Wrote table (table.setObj i obj) free
      (Function.update table.slot i { table.slot i with obj := obj }) := by
  have hfits := h.fits
  have hset : table.setObj i obj = table.setArray (table.objs.array.store
      (i * table.objs.eleSize + 20) obj) := by
    rw [setObj, h.getObj_eq hi, Nat.add_assoc, ← hobj, List.take_length]
    rfl
  obtain ⟨hprev, hnext, hkey, -⟩ := slot_store_same h i 20 obj (by omega)
  rw [hset]
  exact wrote_store h i (by omega) (by omega) (HandlerObj.ext (hprev (by omega)) (hnext (by omega))
    (hkey (by omega)) (load_store hobj.symm))

@[simp] theorem keyAt_setPrev (i z : ℤ) : (table.setPrev i z).keyAt = table.keyAt := rfl

@[simp] theorem keyAt_setNext (i z : ℤ) : (table.setNext i z).keyAt = table.keyAt := rfl

@[simp] theorem keyAt_setKey (i : ℤ) (p : KeyPtr) : (table.setKey i p).keyAt = table.keyAt := rfl

@[simp] theorem keyAt_setObj (i : ℤ) (obj : Bytes) : (table.setObj i obj).keyAt = table.keyAt := rfl

theorem setFirst_keyAt (p : KeyPtr) (z : ℤ) (q : KeyPtr) : (table.setFirst p z).keyAt q =
    if q = p then { table.keyAt p with first := z } else table.keyAt q := Function.update_apply ..

theorem setLast_keyAt (p : KeyPtr) (z : ℤ) (q : KeyPtr) : (table.setLast p z).keyAt q =
    if q = p then { table.keyAt p with last := z } else table.keyAt q := Function.update_apply ..

/-- Changing an end of a key. -/
theorem setFirst_spec (h : Sound table free) (p : KeyPtr) (z : ℤ) :
    Wrote table (table.setFirst p z) free table.slot := by
  refine ⟨⟨rfl, rfl, rfl, rfl, rfl, fun q => ?_⟩, rfl, rfl, fun _ => Iff.rfl, ⟨h.fits, h.pool⟩, rfl⟩
  rw [setFirst_keyAt]
  split
  · next hq => rw [hq]
  · rfl

theorem setLast_spec (h : Sound table free) (p : KeyPtr) (z : ℤ) :
    Wrote table (table.setLast p z) free table.slot := by
  refine ⟨⟨rfl, rfl, rfl, rfl, rfl, fun q => ?_⟩, rfl, rfl, fun _ => Iff.rfl, ⟨h.fits, h.pool⟩, rfl⟩
  rw [setLast_keyAt]
  split
  · next hq => rw [hq]
  · rfl

/-! ### The invariant -/

/-- `L p` are the ids of the key at `p`, in their order. -/
structure TableInv (table : HandlerTable) (L : KeyPtr → List ℕ) (free : List ℕ) : Prop where
  sound : Sound table free
  keys_nodup : (Assoc.keys table.keys).Nodup
  ptrs_nodup : table.ptrs.Nodup
  ptr_lt : ∀ p ∈ table.ptrs, p < 2 ^ 64
  name : ∀ e ∈ table.keys, (table.keyAt e.2).key = e.1
  first : ∀ p ∈ table.ptrs, (table.keyAt p).first = IdList.headId (L p)
  last : ∀ p ∈ table.ptrs, (table.keyAt p).last = IdList.lastId (L p)
  linked : ∀ p ∈ table.ptrs,
    IdList.Linked (fun i => (table.slot i).prev) (fun i => (table.slot i).next) (L p)
  nodup : ∀ p ∈ table.ptrs, (L p).Nodup
  owner : ∀ p ∈ table.ptrs, ∀ i ∈ L p, (table.slot i).key = p
  live_iff : ∀ i, table.objs.Live i ↔ ∃ p ∈ table.ptrs, i ∈ L p

variable {L : KeyPtr → List ℕ} {p q : KeyPtr}

namespace TableInv

theorem live (h : TableInv table L free) (hp : p ∈ table.ptrs) (hi : i ∈ L p) : table.objs.Live i :=
  (h.live_iff i).mpr ⟨p, hp, hi⟩

/-- An id is in the list of one key. -/
theorem disjoint (h : TableInv table L free) (hp : p ∈ table.ptrs) (hq : q ∈ table.ptrs)
    (hip : i ∈ L p) (hiq : i ∈ L q) : p = q :=
  (h.owner p hp i hip).symm.trans (h.owner q hq i hiq)

theorem length_lt (h : TableInv table L free) (hp : p ∈ table.ptrs) :
    (L p).length < table.objs.capacity + 1 := by
  have hsub : L p ⊆ List.range table.objs.capacity := fun i hi =>
    List.mem_range.mpr (h.live hp hi).1
  have hle := ((h.nodup p hp).subperm hsub).length_le
  rw [List.length_range] at hle
  omega

/-- **The list of one key changes.** -/
theorem replace (h : TableInv table L free) (hp : p ∈ table.ptrs) {table' : HandlerTable}
    {free' l : List ℕ} (hsame : SameKeys table table') (hsound : Sound table' free')
    (hkeyAt : ∀ q, q ≠ p → table'.keyAt q = table.keyAt q)
    (hfirst : (table'.keyAt p).first = IdList.headId l)
    (hlast : (table'.keyAt p).last = IdList.lastId l)
    (hlinked : IdList.Linked (fun i => (table'.slot i).prev) (fun i => (table'.slot i).next) l)
    (hnodup : l.Nodup) (howner : ∀ i ∈ l, (table'.slot i).key = p)
    (hother : ∀ q ∈ table.ptrs, q ≠ p → ∀ i ∈ L q, table'.slot i = table.slot i)
    (hlive : ∀ i, table'.objs.Live i ↔ i ∈ l ∨ ∃ q ∈ table.ptrs, q ≠ p ∧ i ∈ L q) :
    TableInv table' (Function.update L p l) free' := by
  have hptrs := hsame.ptrs
  have hcases : ∀ q ∈ table'.ptrs, q = p ∧ Function.update L p l q = l ∨
      q ∈ table.ptrs ∧ q ≠ p ∧ Function.update L p l q = L q := by
    intro q hq
    by_cases hqp : q = p
    · subst hqp
      exact Or.inl ⟨rfl, Function.update_self ..⟩
    · exact Or.inr ⟨hptrs ▸ hq, hqp, Function.update_of_ne hqp ..⟩
  refine ⟨hsound, hsame.keys ▸ h.keys_nodup, hptrs ▸ h.ptrs_nodup, hptrs ▸ h.ptr_lt, fun e he => ?_,
    fun q hq => ?_, fun q hq => ?_, fun q hq => ?_, fun q hq => ?_, fun q hq i hi => ?_, fun i => ?_⟩
  · rw [hsame.name]
    exact h.name e (hsame.keys ▸ he)
  · rcases hcases q hq with ⟨rfl, hl⟩ | ⟨hq', hqp, hl⟩
    · rw [hl, hfirst]
    · rw [hl, hkeyAt q hqp, h.first q hq']
  · rcases hcases q hq with ⟨rfl, hl⟩ | ⟨hq', hqp, hl⟩
    · rw [hl, hlast]
    · rw [hl, hkeyAt q hqp, h.last q hq']
  · rcases hcases q hq with ⟨rfl, hl⟩ | ⟨hq', hqp, hl⟩
    · rw [hl]
      exact hlinked
    · rw [hl]
      exact (h.linked q hq').congr (fun i hi => by rw [hother q hq' hqp i hi])
        fun i hi => by rw [hother q hq' hqp i hi]
  · rcases hcases q hq with ⟨rfl, hl⟩ | ⟨hq', hqp, hl⟩
    · rw [hl]
      exact hnodup
    · rw [hl]
      exact h.nodup q hq'
  · rcases hcases q hq with ⟨rfl, hl⟩ | ⟨hq', hqp, hl⟩
    · rw [hl] at hi
      exact howner i hi
    · rw [hl] at hi
      rw [hother q hq' hqp i hi]
      exact h.owner q hq' i hi
  · rw [hlive i, hptrs]
    constructor
    · rintro (hi | ⟨q, hq, hqp, hi⟩)
      · exact ⟨p, hp, by rwa [Function.update_self]⟩
      · exact ⟨q, hq, by rwa [Function.update_of_ne hqp]⟩
    · rintro ⟨q, hq, hi⟩
      by_cases hqp : q = p
      · subst hqp
        rw [Function.update_self] at hi
        exact Or.inl hi
      · rw [Function.update_of_ne hqp] at hi
        exact Or.inr ⟨q, hq, hqp, hi⟩

/-- The ids that are live are in the list of `p` or in another. -/
theorem live_cases (h : TableInv table L free) (hp : p ∈ table.ptrs) :
    table.objs.Live i ↔ i ∈ L p ∨ ∃ q ∈ table.ptrs, q ≠ p ∧ i ∈ L q := by
  rw [h.live_iff]
  constructor
  · rintro ⟨q, hq, hi⟩
    by_cases hqp : q = p
    · exact Or.inl (hqp ▸ hi)
    · exact Or.inr ⟨q, hq, hqp, hi⟩
  · rintro (hi | ⟨q, hq, -, hi⟩)
    · exact ⟨p, hp, hi⟩
    · exact ⟨q, hq, hi⟩

end TableInv

/-! ### New keys -/

/-- **A new key** has no objects. -/
theorem addKey_spec (h : TableInv table L free) {key : Bytes} {malloc : KeyPtr}
    (hkey : table.keys.lookup key = none) (hptr : malloc ∉ table.ptrs) (hlt : malloc < 2 ^ 64) :
    TableInv (table.addKey key malloc) (Function.update L malloc []) free := by
  have hptrs : (table.addKey key malloc).ptrs = table.ptrs ++ [malloc] := by
    simp [ptrs, addKey]
  have hcases : ∀ q ∈ (table.addKey key malloc).ptrs,
      (q = malloc ∧ (table.addKey key malloc).keyAt q = ⟨invalidId, invalidId, key⟩ ∧
        Function.update L malloc [] q = []) ∨
      (q ∈ table.ptrs ∧ (table.addKey key malloc).keyAt q = table.keyAt q ∧
        Function.update L malloc [] q = L q) := by
    intro q hq
    rw [hptrs, List.mem_append, List.mem_singleton] at hq
    rcases hq with hq | rfl
    · have hne : q ≠ malloc := fun e => hptr (e ▸ hq)
      exact Or.inr ⟨hq, Function.update_of_ne hne .., Function.update_of_ne hne ..⟩
    · exact Or.inl ⟨rfl, Function.update_self .., Function.update_self ..⟩
  refine ⟨⟨h.sound.fits, h.sound.pool⟩, Assoc.keys_concat_nodup h.keys_nodup hkey, ?_, fun q hq => ?_,
    fun e he => ?_, fun q hq => ?_, fun q hq => ?_, fun q hq => ?_, fun q hq => ?_, fun q hq i hi => ?_,
    fun i => ?_⟩
  · rw [hptrs, ← List.concat_eq_append]
    exact List.Nodup.concat hptr h.ptrs_nodup
  · rcases hcases q hq with ⟨rfl, -, -⟩ | ⟨hq', -, -⟩
    · exact hlt
    · exact h.ptr_lt q hq'
  · rcases List.mem_append.mp he with he | he
    · have hmem : e.2 ∈ table.ptrs := List.mem_map.mpr ⟨e, he, rfl⟩
      have hne : e.2 ≠ malloc := fun heq => hptr (heq ▸ hmem)
      have hkeyAt : (table.addKey key malloc).keyAt e.2 = table.keyAt e.2 := Function.update_of_ne hne ..
      rw [hkeyAt]
      exact h.name e he
    · have hkeyAt : (table.addKey key malloc).keyAt malloc = ⟨invalidId, invalidId, key⟩ :=
        Function.update_self ..
      rw [List.mem_singleton.mp he, hkeyAt]
  · rcases hcases q hq with ⟨-, hk, hl⟩ | ⟨hq', hk, hl⟩
    · rw [hk, hl]
      rfl
    · rw [hk, hl, h.first q hq']
  · rcases hcases q hq with ⟨-, hk, hl⟩ | ⟨hq', hk, hl⟩
    · rw [hk, hl]
      rfl
    · rw [hk, hl, h.last q hq']
  · rcases hcases q hq with ⟨-, -, hl⟩ | ⟨hq', -, hl⟩
    · rw [hl]
      exact .nil
    · rw [hl]
      exact h.linked q hq'
  · rcases hcases q hq with ⟨-, -, hl⟩ | ⟨hq', -, hl⟩
    · rw [hl]
      exact List.nodup_nil
    · rw [hl]
      exact h.nodup q hq'
  · rcases hcases q hq with ⟨-, -, hl⟩ | ⟨hq', -, hl⟩
    · rw [hl] at hi
      cases hi
    · rw [hl] at hi
      exact h.owner q hq' i hi
  · show table.objs.Live i ↔ _
    rw [h.live_iff i]
    constructor
    · rintro ⟨q, hq, hi⟩
      have hne : q ≠ malloc := fun e => hptr (e ▸ hq)
      exact ⟨q, by rw [hptrs]; exact List.mem_append_left _ hq, by rwa [Function.update_of_ne hne]⟩
    · rintro ⟨q, hq, hi⟩
      rcases hcases q hq with ⟨-, -, hl⟩ | ⟨hq', -, hl⟩
      · rw [hl] at hi
        cases hi
      · exact ⟨q, hq', hl ▸ hi⟩

/-! ### New objects -/

/-- The table whose pool has allocated an id. -/
def alloced (table : HandlerTable) : HandlerTable := { table with objs := table.objs.allocId.2 }

/-- Room for one more object. -/
def Room (table : HandlerTable) : Prop := table.objs.nextFree < 0 → table.objs.alloc * 2 < 2 ^ 32

theorem slot_congr (hfits : 20 + table.objSize ≤ table.objs.eleSize) {objs : ObjPool}
    (he : objs.eleSize = table.objs.eleSize) {j : ℕ}
    (h : ∀ a < table.objs.eleSize, objs.array (j * table.objs.eleSize + a) =
      table.objs.array (j * table.objs.eleSize + a)) :
    ({ table with objs := objs } : HandlerTable).slot j = table.slot j := by
  have hload : ∀ a n, a + n ≤ table.objs.eleSize →
      objs.array.load (j * table.objs.eleSize + a) n = table.objs.array.load (j * table.objs.eleSize + a) n :=
    fun a n hle => load_congr fun k hk => by
      rw [Nat.add_assoc]
      exact h (a + k) (by omega)
  have hint : ∀ a, a + 4 ≤ table.objs.eleSize → objs.array.readInt (j * table.objs.eleSize + a) =
      table.objs.array.readInt (j * table.objs.eleSize + a) :=
    fun a hle => readInt_congr fun k hk => by
      rw [Nat.add_assoc]
      exact h (a + k) (by omega)
  have hptr : objs.array.readPtr (j * table.objs.eleSize + 12) =
      table.objs.array.readPtr (j * table.objs.eleSize + 12) :=
    readPtr_congr fun k hk => by
      rw [Nat.add_assoc]
      exact h (12 + k) (by omega)
  refine HandlerObj.ext ?_ ?_ ?_ ?_
  · show objs.array.readInt (j * objs.eleSize + 4) = _
    rw [he]
    exact hint 4 (by omega)
  · show objs.array.readInt (j * objs.eleSize + 8) = _
    rw [he]
    exact hint 8 (by omega)
  · show objs.array.readPtr (j * objs.eleSize + 12) = _
    rw [he]
    exact hptr
  · show objs.array.load (j * objs.eleSize + 20) table.objSize = _
    rw [he]
    exact hload 20 table.objSize (by omega)

/-- An allocated id and the slots of the others. -/
theorem alloced_spec (h : Sound table free) (hroom : table.Room) :
    ∃ n : ℕ, table.objs.allocId.1 = n ∧ (∃ free', Sound table.alloced free') ∧
      Allocated table.objs table.alloced.objs n ∧ n < table.alloced.objs.capacity ∧
      ∀ j, table.objs.Live j → table.alloced.slot j = table.slot j := by
  obtain ⟨n, hn, halloc, free', hpool⟩ := allocId_spec h.pool hroom
  refine ⟨n, hn, ⟨free', ?_, hpool⟩, halloc, ((halloc.live n).mpr (Or.inr rfl)).1, fun j hj => ?_⟩
  · show _ ≤ table.objs.allocId.2.eleSize
    rw [halloc.eleSize]
    exact h.fits
  · exact slot_congr h.fits halloc.eleSize (halloc.same j hj)


end HandlerTable

end Fcitx
