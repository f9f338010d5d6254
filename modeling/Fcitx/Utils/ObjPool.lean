/-
# The object pool

`fcitx-utils/objpool.c`: an array of slots of one size, each with an `int` in
front of the object. The `int` of a free slot is the next free id, that of an
allocated one is `FCITX_OBJECT_POOL_ALLOCED_ID`; the array doubles when no slot
is free. The invariant says that the free list is the list of the slots that
are not allocated.

Key definitions: `ObjPool`, `ObjPool.allocId`, `ObjPool.freeId`,
`ObjPool.PoolInv`, `ObjPool.Live`.
Key theorems: `ObjPool.newWithPrealloc_spec`, `ObjPool.allocId_spec`,
`ObjPool.freeId_spec`.
-/
import Fcitx.Lib.ByteMem
import Mathlib.Data.List.Nodup
import Mathlib.Data.List.Range

namespace Fcitx

/-- `FCITX_OBJECT_POOL_INVALID_ID` -/
def invalidId : ℤ := -1

/-- `FCITX_OBJECT_POOL_ALLOCED_ID` -/
def allocedId : ℤ := -2

/-- `FCITX_OBJ_POOL_INIT_SIZE` -/
def initSize : ℕ := 4

/-- `fcitx_utils_align_to` -/
def alignTo (len align : ℕ) : ℕ :=
  let left := len % align
  if left ≠ 0 then len + align - left else len

/-- `FcitxObjPool` -/
structure ObjPool where
  array : ByteMem
  alloc : ℕ
  eleSize : ℕ
  nextFree : ℤ

namespace ObjPool

open ByteMem

/-- The loop that links `count` slots from `i` at `offset` on, with the offset
it ends at. -/
def linkFree (eleSize : ℕ) : ℕ → ByteMem → ℕ → ℕ → ByteMem × ℕ
  | 0, array, offset, _ => (array, offset)
  | count + 1, array, offset, i =>
    linkFree eleSize count (array.writeInt offset (i + 1)) (offset + eleSize) (i + 1)

/-- `fcitx_obj_pool_init_with_prealloc`; `array` is the memory it is given. -/
def newWithPrealloc (array : ByteMem) (size prealloc : ℕ) : ObjPool :=
  let size := alignTo (size + 4) 4
  let (array, offset) := linkFree size (prealloc - 1) array 0 0
  { array := array.writeInt offset invalidId, alloc := size * prealloc, eleSize := size,
    nextFree := 0 }

/-- `fcitx_obj_pool_new` -/
def new (array : ByteMem) (size : ℕ) : ObjPool := newWithPrealloc array size initSize

/-- `fcitx_obj_pool_offset`: an `int` times a `size_t`. -/
def offset (pool : ObjPool) (i : ℤ) : ℕ := (i * pool.eleSize % 2 ^ 64).toNat

/-- `fcitx_obj_pool_get`, as an offset in the array. -/
def get (pool : ObjPool) (i : ℤ) : ℕ := pool.offset i + 4

/-- `fcitx_obj_pool_alloc_id`. The array keeps its bytes when it grows. -/
def allocId (pool : ObjPool) : ℤ × ObjPool :=
  if 0 ≤ pool.nextFree then
    let id := pool.nextFree
    let offset := pool.offset id
    (id, { pool with nextFree := pool.array.readInt offset,
                     array := pool.array.writeInt offset allocedId })
  else
    let alloc := pool.alloc * 2
    let id := alloc / 2 / pool.eleSize
    let array := pool.array.writeInt (alloc / 2) allocedId
    let i := alloc / 2 / pool.eleSize + 1
    let (array, offset) :=
      linkFree pool.eleSize (alloc / pool.eleSize - 1 - i) array (alloc / 2 + pool.eleSize) i
    (id, { pool with alloc := alloc, nextFree := id + 1, array := array.writeInt offset invalidId })

/-- `fcitx_obj_pool_free_id`; the offset is an `unsigned int`. -/
def freeId (pool : ObjPool) (i : ℤ) : Bool × ObjPool :=
  let offset := pool.offset i % 2 ^ 32
  if pool.alloc ≤ offset then (false, pool)
  else if pool.array.readInt offset ≠ allocedId then (false, pool)
  else (true, { pool with array := pool.array.writeInt offset pool.nextFree, nextFree := i })

/-! ### The invariant -/

/-- The number of slots. -/
def capacity (pool : ObjPool) : ℕ := pool.alloc / pool.eleSize

/-- The `int` in front of a slot. -/
def header (pool : ObjPool) (i : ℕ) : ℤ := pool.array.readInt (i * pool.eleSize)

/-- The allocated ids. -/
def Live (pool : ObjPool) (i : ℕ) : Prop := i < pool.capacity ∧ pool.header i = allocedId

instance (pool : ObjPool) (i : ℕ) : Decidable (pool.Live i) :=
  inferInstanceAs (Decidable (_ ∧ _))

/-- Following the free slots from `id` goes through `free` to the end. -/
def FreeChain (header : ℕ → ℤ) : ℤ → List ℕ → Prop
  | id, [] => id = invalidId
  | id, i :: free => id = i ∧ FreeChain header (header i) free

/-- The free list `free` has the slots that are not allocated. -/
structure PoolInv (pool : ObjPool) (free : List ℕ) : Prop where
  four_le : 4 ≤ pool.eleSize
  alloc_eq : pool.alloc = pool.capacity * pool.eleSize
  two_le : 2 ≤ pool.capacity
  bound : pool.alloc < 2 ^ 32
  chain : FreeChain pool.header pool.nextFree free
  nodup : free.Nodup
  free_lt : ∀ i ∈ free, i < pool.capacity
  alloced : ∀ i < pool.capacity, pool.header i = allocedId ↔ i ∉ free

/-- The same of a pool of any size that has memory and numbers its slots with an `int`. -/
structure SlotInv (pool : ObjPool) (free : List ℕ) : Prop where
  four_le : 4 ≤ pool.eleSize
  alloc_eq : pool.alloc = pool.capacity * pool.eleSize
  few : pool.capacity ≤ 2 ^ 31
  bytes : pool.alloc < 2 ^ 63
  chain : FreeChain pool.header pool.nextFree free
  nodup : free.Nodup
  free_lt : ∀ i ∈ free, i < pool.capacity
  alloced : ∀ i < pool.capacity, pool.header i = allocedId ↔ i ∉ free

theorem FreeChain.congr {header header' : ℕ → ℤ} {id : ℤ} {free : List ℕ}
    (h : FreeChain header id free) (heq : ∀ i ∈ free, header' i = header i) :
    FreeChain header' id free := by
  induction free generalizing id with
  | nil => exact h
  | cons i free ih =>
    refine ⟨h.1, ?_⟩
    rw [heq i List.mem_cons_self]
    exact ih h.2 fun j hj => heq j (List.mem_cons_of_mem i hj)

/-- Slots that are linked in order. -/
theorem FreeChain.range' {header : ℕ → ℤ} {i n : ℕ} (hnext : ∀ j, i ≤ j → j < i + n → header j = j + 1)
    (hlast : header (i + n) = invalidId) : FreeChain header i (List.range' i (n + 1)) := by
  induction n generalizing i with
  | zero => exact ⟨rfl, hlast⟩
  | succ n ih =>
    refine ⟨rfl, ?_⟩
    rw [hnext i le_rfl (by omega)]
    have h := ih (i := i + 1) (fun j hj hlt => hnext j (by omega) (by omega))
      (by rw [← hlast]; congr 1; omega)
    exact_mod_cast h

namespace SlotInv

variable {pool : ObjPool} {free : List ℕ}

theorem live_iff (h : SlotInv pool free) {i : ℕ} : pool.Live i ↔ i < pool.capacity ∧ i ∉ free := by
  constructor
  · exact fun hl => ⟨hl.1, (h.alloced i hl.1).mp hl.2⟩
  · exact fun hl => ⟨hl.1, (h.alloced i hl.1).mpr hl.2⟩

/-- The slots of a pool lie in its array. -/
theorem slot_le (h : SlotInv pool free) {i : ℕ} (hi : i < pool.capacity) :
    i * pool.eleSize + pool.eleSize ≤ pool.alloc := by
  calc i * pool.eleSize + pool.eleSize ≤ pool.capacity * pool.eleSize := slot_end_le hi pool.eleSize
    _ = pool.alloc := h.alloc_eq.symm

theorem offset_eq (h : SlotInv pool free) {i : ℕ} (hi : i < pool.capacity) :
    pool.offset i = i * pool.eleSize := by
  have hle := h.slot_le hi
  have hbytes := h.bytes
  have hcast : ((i : ℤ) * pool.eleSize) = ((i * pool.eleSize : ℕ) : ℤ) := by push_cast; rfl
  rw [offset, hcast]
  omega

theorem eleSize_pos (h : SlotInv pool free) : 0 < pool.eleSize := by
  have := h.four_le
  omega

/-- The slots of twice the array. -/
theorem double_div (h : SlotInv pool free) : pool.alloc * 2 / pool.eleSize = 2 * pool.capacity := by
  calc pool.alloc * 2 / pool.eleSize = pool.capacity * 2 * pool.eleSize / pool.eleSize := by
        rw [h.alloc_eq, Nat.mul_right_comm]
    _ = pool.capacity * 2 := Nat.mul_div_cancel _ h.eleSize_pos
    _ = 2 * pool.capacity := Nat.mul_comm _ _

theorem double_half (h : SlotInv pool free) : pool.alloc * 2 / 2 = pool.capacity * pool.eleSize := by
  calc pool.alloc * 2 / 2 = pool.alloc := Nat.mul_div_cancel _ two_pos
    _ = pool.capacity * pool.eleSize := h.alloc_eq

/-- Writing to the objects keeps the invariant. -/
theorem of_header (h : SlotInv pool free) {array : ByteMem}
    (harray : ∀ i < pool.capacity, array.readInt (i * pool.eleSize) = pool.header i) :
    SlotInv { pool with array := array } free where
  four_le := h.four_le
  alloc_eq := h.alloc_eq
  few := h.few
  bytes := h.bytes
  chain := h.chain.congr fun i hi => harray i (h.free_lt i hi)
  nodup := h.nodup
  free_lt := h.free_lt
  alloced := fun i hi => by
    rw [← h.alloced i hi, ← harray i hi]
    rfl

/-- The next free id is an `int`. -/
theorem nextFree_int (h : SlotInv pool free) : -0x80000000 ≤ pool.nextFree ∧ pool.nextFree < 0x80000000 := by
  have hfew := h.few
  have hchain := h.chain
  cases free with
  | nil =>
    have : pool.nextFree = -1 := hchain
    omega
  | cons i free =>
    have := hchain.1
    have := h.free_lt i List.mem_cons_self
    omega

/-- A pool without a free slot has to grow. -/
theorem nextFree_neg (h : SlotInv pool []) : pool.nextFree < 0 := by
  rw [show pool.nextFree = invalidId from h.chain]
  decide

/-- The next free id is never `FCITX_OBJECT_POOL_ALLOCED_ID`. -/
theorem nextFree_ne (h : SlotInv pool free) : pool.nextFree ≠ allocedId := by
  have hchain := h.chain
  cases free with
  | nil =>
    rw [show pool.nextFree = invalidId from hchain]
    decide
  | cons i free =>
    rw [hchain.1, allocedId]
    omega

theorem poolInv (h : SlotInv pool free) (htwo : 2 ≤ pool.capacity) (hbound : pool.alloc < 2 ^ 32) :
    PoolInv pool free :=
  ⟨h.four_le, h.alloc_eq, htwo, hbound, h.chain, h.nodup, h.free_lt, h.alloced⟩

end SlotInv

namespace PoolInv

variable {pool : ObjPool} {free : List ℕ}

/-- There are few enough slots for an `int` to number them. -/
theorem capacity_lt (h : PoolInv pool free) : pool.capacity < 2 ^ 30 := by
  have hlt : pool.capacity * 4 < 2 ^ 32 := by
    calc pool.capacity * 4 ≤ pool.capacity * pool.eleSize := Nat.mul_le_mul_left _ h.four_le
      _ = pool.alloc := h.alloc_eq.symm
      _ < 2 ^ 32 := h.bound
  omega

theorem slots (h : PoolInv pool free) : SlotInv pool free where
  four_le := h.four_le
  alloc_eq := h.alloc_eq
  few := by have := h.capacity_lt; omega
  bytes := by have := h.bound; omega
  chain := h.chain
  nodup := h.nodup
  free_lt := h.free_lt
  alloced := h.alloced

theorem live_iff (h : PoolInv pool free) {i : ℕ} : pool.Live i ↔ i < pool.capacity ∧ i ∉ free :=
  h.slots.live_iff

theorem slot_le (h : PoolInv pool free) {i : ℕ} (hi : i < pool.capacity) :
    i * pool.eleSize + pool.eleSize ≤ pool.alloc :=
  h.slots.slot_le hi

theorem offset_eq (h : PoolInv pool free) {i : ℕ} (hi : i < pool.capacity) :
    pool.offset i = i * pool.eleSize :=
  h.slots.offset_eq hi

/-- Writing to the objects keeps the invariant. -/
theorem of_header (h : PoolInv pool free) {array : ByteMem}
    (harray : ∀ i < pool.capacity, array.readInt (i * pool.eleSize) = pool.header i) :
    PoolInv { pool with array := array } free :=
  (h.slots.of_header harray).poolInv h.two_le h.bound

end PoolInv

/-! ### The operations keep the invariant -/

theorem linkFree_spec {e : ℕ} (he : 4 ≤ e) (n : ℕ) (m : ByteMem) (i : ℕ) (hi : i + n < 2 ^ 31) :
    (linkFree e n m (i * e) i).2 = (i + n) * e ∧
      (∀ j, (linkFree e n m (i * e) i).1.readInt (j * e) =
        if i ≤ j ∧ j < i + n then (j : ℤ) + 1 else m.readInt (j * e)) ∧
      ∀ a < i * e, (linkFree e n m (i * e) i).1 a = m a := by
  induction n generalizing m i with
  | zero =>
    refine ⟨rfl, fun j => ?_, fun a _ => rfl⟩
    rw [if_neg (by omega)]
    rfl
  | succ n ih =>
    obtain ⟨hoff, hint, hbelow⟩ := ih (m.writeInt (i * e) (i + 1)) (i + 1) (by omega)
    rw [linkFree, ← Nat.succ_mul]
    refine ⟨?_, fun j => ?_, fun a ha => ?_⟩
    · rw [hoff]
      congr 1
      omega
    · have hwrite := readInt_writeInt_slot (m := m) (i := j) (j := i) (a := 0) (z := (i : ℤ) + 1) he
        (by omega) (by omega)
      simp only [Nat.add_zero] at hwrite
      rw [hint j, hwrite]
      by_cases hji : j = i
      · subst hji
        rw [if_neg (by omega), if_pos rfl, if_pos (by omega)]
      · rw [if_neg hji]
        by_cases hj : i + 1 ≤ j ∧ j < i + 1 + n
        · rw [if_pos hj, if_pos (by omega)]
        · rw [if_neg hj, if_neg (by omega)]
    · rw [hbelow a (by rw [Nat.succ_mul]; omega)]
      exact store_of_notMem (Or.inl ha)

theorem le_alignTo (len align : ℕ) (h : 0 < align) : len ≤ alignTo len align := by
  have hlt := Nat.mod_lt len h
  unfold alignTo
  dsimp only
  split
  · omega
  · exact le_rfl

theorem four_le_alignTo (size : ℕ) : 4 ≤ alignTo (size + 4) 4 :=
  (Nat.le_add_left 4 size).trans (le_alignTo (size + 4) 4 (by omega))

theorem newWithPrealloc_capacity (array : ByteMem) (size prealloc : ℕ) :
    (newWithPrealloc array size prealloc).capacity = prealloc :=
  Nat.mul_div_cancel_left prealloc (by have := four_le_alignTo size; omega)

/-- **A new pool** has all its slots free. -/
theorem newWithPrealloc_slots (array : ByteMem) (size : ℕ) {prealloc : ℕ} (hpre : 1 ≤ prealloc)
    (hfew : prealloc ≤ 2 ^ 31) (hbytes : alignTo (size + 4) 4 * prealloc < 2 ^ 63) :
    SlotInv (newWithPrealloc array size prealloc) (List.range prealloc) := by
  have hcap := newWithPrealloc_capacity array size prealloc
  set e := alignTo (size + 4) 4 with he
  have he4 : 4 ≤ e := four_le_alignTo size
  obtain ⟨hoff, hint, -⟩ := linkFree_spec he4 (prealloc - 1) array 0 (by omega)
  rw [Nat.zero_mul] at hoff hint
  have hheader : ∀ j, (newWithPrealloc array size prealloc).header j =
      if j = prealloc - 1 then invalidId else if j < prealloc - 1 then (j : ℤ) + 1
        else array.readInt (j * e) := by
    intro j
    have hwrite := readInt_writeInt_slot (m := (linkFree e (prealloc - 1) array 0 0).1) (i := j)
      (j := prealloc - 1) (a := 0) (z := invalidId) he4 (by decide) (by decide)
    simp only [Nat.add_zero] at hwrite
    rw [header]
    show ((linkFree e (prealloc - 1) array 0 0).1.writeInt (linkFree e (prealloc - 1) array 0 0).2
      invalidId).readInt (j * e) = _
    rw [hoff, Nat.zero_add, hwrite, hint j]
    simp only [Nat.zero_le, Nat.zero_add, true_and]
  refine ⟨he4, ?_, hcap.le.trans hfew, hbytes, ?_, List.nodup_range, fun i hi => ?_, fun i hi => ?_⟩
  · rw [hcap, Nat.mul_comm]
    rfl
  · have h : FreeChain (newWithPrealloc array size prealloc).header ((0 : ℕ) : ℤ)
        (List.range' 0 (prealloc - 1 + 1)) := FreeChain.range' (fun j _ hj => ?_) ?_
    · rw [List.range_eq_range', ← Nat.sub_add_cancel hpre]
      exact h
    · rw [hheader, if_neg (by omega), if_pos (by omega)]
    · rw [hheader, Nat.zero_add, if_pos rfl]
  · rw [hcap]
    exact List.mem_range.mp hi
  · rw [hcap] at hi
    rw [hheader, List.mem_range]
    split
    · exact ⟨fun h => absurd h (by decide), fun h => absurd hi h⟩
    · rw [if_pos (by omega), allocedId]
      omega

theorem newWithPrealloc_spec (array : ByteMem) (size : ℕ) {prealloc : ℕ} (hpre : 2 ≤ prealloc)
    (hbound : alignTo (size + 4) 4 * prealloc < 2 ^ 32) :
    PoolInv (newWithPrealloc array size prealloc) (List.range prealloc) := by
  have hle : 4 * prealloc ≤ alignTo (size + 4) 4 * prealloc := Nat.mul_le_mul_right _ (four_le_alignTo size)
  have hslots : SlotInv (newWithPrealloc array size prealloc) (List.range prealloc) :=
    newWithPrealloc_slots array size (by omega) (by omega) (by omega)
  exact hslots.poolInv (by rw [newWithPrealloc_capacity]; exact hpre) hbound

variable {pool : ObjPool} {free : List ℕ}

/-- The `int` of a slot is not that of another. -/
theorem header_writeInt (h4 : 4 ≤ pool.eleSize) {z : ℤ} (hz : -0x80000000 ≤ z) (hz' : z < 0x80000000)
    (i j : ℕ) : (pool.array.writeInt (i * pool.eleSize) z).readInt (j * pool.eleSize) =
      if j = i then z else pool.header j := by
  have hwrite := readInt_writeInt_slot (m := pool.array) (i := j) (j := i) (a := 0) h4 hz hz'
  simp only [Nat.add_zero] at hwrite
  exact hwrite

/-- What an operation on the pool keeps of the slots it is not about. -/
def SameSlots (pool pool' : ObjPool) (P : ℕ → Prop) : Prop :=
  ∀ j, P j → ∀ a < pool.eleSize, pool'.array (j * pool.eleSize + a) = pool.array (j * pool.eleSize + a)

/-- The `int` of slot `i` is not in another slot. -/
theorem writeInt_sameSlots (h4 : 4 ≤ pool.eleSize) {z : ℤ} {i j : ℕ} (hij : j ≠ i) {a : ℕ}
    (ha : a < pool.eleSize) : pool.array.writeInt (i * pool.eleSize) z (j * pool.eleSize + a) =
      pool.array (j * pool.eleSize + a) := by
  refine store_of_notMem ?_
  rw [length_leBytes]
  rcases Nat.lt_or_gt_of_ne hij with hlt | hlt
  · have hle := slot_end_le hlt pool.eleSize
    omega
  · have hle := slot_end_le hlt pool.eleSize
    omega

/-- What allocating does to the pool. -/
structure Allocated (pool pool' : ObjPool) (id : ℕ) : Prop where
  eleSize : pool'.eleSize = pool.eleSize
  capacity : pool'.capacity = pool.capacity ∨ pool'.capacity = 2 * pool.capacity
  fresh : ¬ pool.Live id
  live : ∀ j, pool'.Live j ↔ pool.Live j ∨ j = id
  same : SameSlots pool pool' pool.Live

theorem Allocated.capacity_le {pool' : ObjPool} {id : ℕ} (h : Allocated pool pool' id) :
    pool.capacity ≤ pool'.capacity := by
  rcases h.capacity with hc | hc <;> omega

/-- The pool after its first free slot `i` was taken. -/
def taken (pool : ObjPool) (i : ℕ) : ObjPool :=
  { pool with nextFree := pool.header i, array := pool.array.writeInt (i * pool.eleSize) allocedId }

/-- The new slots of a pool that grew, linked after the first of them. -/
def grownArray (pool : ObjPool) : ByteMem :=
  let n := pool.capacity
  let e := pool.eleSize
  let linked := (linkFree e (n - 2) (pool.array.writeInt (n * e) allocedId) ((n + 1) * e) (n + 1)).1
  linked.writeInt ((2 * n - 1) * e) invalidId

/-- The pool after it grew. -/
def grown (pool : ObjPool) : ObjPool :=
  { pool with alloc := pool.alloc * 2, nextFree := pool.capacity + 1, array := pool.grownArray }

theorem SlotInv.allocId_taken {i : ℕ} {rest : List ℕ} (h : SlotInv pool (i :: rest)) :
    pool.allocId = ((i : ℤ), pool.taken i) := by
  have hoff := h.offset_eq (h.free_lt i List.mem_cons_self)
  have hnext : pool.nextFree = i := h.chain.1
  rw [allocId, if_pos (by omega), hnext]
  dsimp only
  rw [hoff]
  rfl

theorem SlotInv.allocId_grown (h : SlotInv pool []) (htwo : 2 ≤ pool.capacity) (hfew : pool.capacity * 2 ≤ 2 ^ 31) :
    pool.allocId = ((pool.capacity : ℤ), pool.grown) := by
  have hcount : 2 * pool.capacity - 1 - (pool.capacity + 1) = pool.capacity - 2 := by omega
  have hlast : pool.capacity + 1 + (pool.capacity - 2) = 2 * pool.capacity - 1 := by omega
  obtain ⟨hoff, -, -⟩ := linkFree_spec h.four_le (pool.capacity - 2)
    (pool.array.writeInt (pool.capacity * pool.eleSize) allocedId) (pool.capacity + 1) (by omega)
  rw [hlast] at hoff
  rw [allocId, if_neg (not_le.mpr h.nextFree_neg)]
  simp only [h.double_half, h.double_div, Nat.mul_div_cancel _ h.eleSize_pos, hcount, ← Nat.succ_mul, Nat.succ_eq_add_one, hoff]
  rfl

/-- Taking a free slot. -/
theorem SlotInv.taken_spec {i : ℕ} {rest : List ℕ} (h : SlotInv pool (i :: rest)) :
    SlotInv (pool.taken i) rest ∧ Allocated pool (pool.taken i) i := by
  have h4 := h.four_le
  have hi : i < pool.capacity := h.free_lt i List.mem_cons_self
  obtain ⟨hirest, hnodup⟩ := List.nodup_cons.mp h.nodup
  have hheader : ∀ j, (pool.taken i).header j = if j = i then allocedId else pool.header j :=
    header_writeInt h4 (by decide) (by decide) i
  refine ⟨⟨h4, h.alloc_eq, h.few, h.bytes, ?_, hnodup,
    fun j hj => h.free_lt j (List.mem_cons_of_mem i hj), fun j hj => ?_⟩, rfl, Or.inl rfl,
    fun hl => (h.live_iff.mp hl).2 List.mem_cons_self, fun j => ?_, fun j hj a ha => ?_⟩
  · refine FreeChain.congr h.chain.2 fun j hj => ?_
    have hji : j ≠ i := fun e => hirest (e ▸ hj)
    rw [hheader j, if_neg hji]
  · rw [hheader j]
    by_cases hji : j = i
    · simp [hji, hirest]
    · rw [if_neg hji, h.alloced j hj, List.mem_cons]
      simp [hji]
  · show j < pool.capacity ∧ (pool.taken i).header j = allocedId ↔ _
    rw [hheader j]
    by_cases hji : j = i
    · simp [hji, hi]
    · simp [hji, Live]
  · have hji : j ≠ i := fun e => (h.live_iff.mp hj).2 (e ▸ List.mem_cons_self)
    exact writeInt_sameSlots h4 hji ha

/-- The `int`s of a pool that grew. -/
theorem SlotInv.grown_header (h : SlotInv pool []) (htwo : 2 ≤ pool.capacity) (hfew : pool.capacity * 2 ≤ 2 ^ 31)
    (j : ℕ) : pool.grown.header j =
    if j = 2 * pool.capacity - 1 then invalidId
    else if pool.capacity + 1 ≤ j ∧ j < 2 * pool.capacity - 1 then (j : ℤ) + 1
    else if j = pool.capacity then allocedId else pool.header j := by
  have hlast : pool.capacity + 1 + (pool.capacity - 2) = 2 * pool.capacity - 1 := by omega
  obtain ⟨-, hint, -⟩ := linkFree_spec h.four_le (pool.capacity - 2)
    (pool.array.writeInt (pool.capacity * pool.eleSize) allocedId) (pool.capacity + 1) (by omega)
  rw [hlast] at hint
  have hwrite := readInt_writeInt_slot (m := (linkFree pool.eleSize (pool.capacity - 2)
      (pool.array.writeInt (pool.capacity * pool.eleSize) allocedId)
      ((pool.capacity + 1) * pool.eleSize) (pool.capacity + 1)).1) (i := j)
    (j := 2 * pool.capacity - 1) (a := 0) (z := invalidId) h.four_le (by decide) (by decide)
  simp only [Nat.add_zero] at hwrite
  rw [hint j, header_writeInt h.four_le (by decide) (by decide)] at hwrite
  exact hwrite

/-- The old slots of a pool that grew. -/
theorem SlotInv.grown_sameSlots (h : SlotInv pool []) (htwo : 2 ≤ pool.capacity)
    (hfew : pool.capacity * 2 ≤ 2 ^ 31) : SameSlots pool pool.grown (· < pool.capacity) := by
  intro j hj a ha
  obtain ⟨-, -, hbelow⟩ := linkFree_spec h.four_le (pool.capacity - 2)
    (pool.array.writeInt (pool.capacity * pool.eleSize) allocedId) (pool.capacity + 1) (by omega)
  have hj' := slot_end_le hj pool.eleSize
  have hn : pool.capacity * pool.eleSize ≤ (2 * pool.capacity - 1) * pool.eleSize :=
    Nat.mul_le_mul_right _ (by omega)
  have hlt : j * pool.eleSize + a < pool.capacity * pool.eleSize := by omega
  show pool.grownArray (j * pool.eleSize + a) = _
  rw [grownArray, writeInt, store_of_notMem (Or.inl (by omega)), hbelow _ (by rw [Nat.succ_mul]; omega), writeInt,
    store_of_notMem (Or.inl hlt)]

/-- Growing the pool. -/
theorem SlotInv.grown_spec (h : SlotInv pool []) (htwo : 2 ≤ pool.capacity) (hfew : pool.capacity * 2 ≤ 2 ^ 31)
    (hbytes : pool.alloc * 2 < 2 ^ 63) :
    SlotInv pool.grown (List.range' (pool.capacity + 1) (pool.capacity - 1)) ∧
      pool.grown.capacity = 2 * pool.capacity ∧ Allocated pool pool.grown pool.capacity := by
  have hcap : pool.grown.capacity = 2 * pool.capacity := h.double_div
  have hheader := h.grown_header htwo hfew
  have hold : ∀ j < pool.capacity, pool.header j = allocedId := fun j hj =>
    (h.alloced j hj).mpr List.not_mem_nil
  have hlive : ∀ j < 2 * pool.capacity, pool.grown.header j = allocedId ↔ j ≤ pool.capacity := by
    intro j hj
    rw [hheader j]
    split
    · exact ⟨fun h => absurd h (by decide), fun h => by omega⟩
    · split
      · rw [allocedId]
        omega
      · split
        · next hjn => simp [hjn]
        · next hjn => simp [hold j (by omega), (show j ≤ pool.capacity by omega)]
  refine ⟨⟨h.four_le, ?_, by omega, hbytes, ?_, List.nodup_range', fun j hj => ?_, fun j hj => ?_⟩, hcap,
    rfl, Or.inr hcap, fun hl => absurd hl.1 (lt_irrefl _), fun j => ?_,
    fun j hj => h.grown_sameSlots htwo hfew j hj.1⟩
  · rw [hcap, Nat.mul_assoc]
    show pool.alloc * 2 = 2 * (pool.capacity * pool.eleSize)
    rw [← h.alloc_eq, Nat.mul_comm]
  · have hchain : FreeChain pool.grown.header ((pool.capacity + 1 : ℕ) : ℤ)
        (List.range' (pool.capacity + 1) (pool.capacity - 2 + 1)) := FreeChain.range' (fun j hj hlt => ?_) ?_
    · rw [show pool.capacity - 2 + 1 = pool.capacity - 1 by omega] at hchain
      exact_mod_cast hchain
    · rw [hheader j, if_neg (by omega), if_pos (by omega)]
    · rw [hheader, if_pos (by omega)]
  · rw [List.mem_range'_1] at hj
    omega
  · rw [hcap] at hj
    rw [hlive j hj, List.mem_range'_1]
    omega
  · constructor
    · rintro ⟨hj, hl⟩
      rw [hcap] at hj
      rcases Nat.lt_or_eq_of_le ((hlive j hj).mp hl) with hlt | heq
      · exact Or.inl ⟨hlt, hold j hlt⟩
      · exact Or.inr heq
    · intro hj
      have hle : j ≤ pool.capacity := by
        rcases hj with hl | heq
        · exact hl.1.le
        · exact heq.le
      exact ⟨by omega, (hlive j (by omega)).mpr hle⟩

/-- There is room for a pool to grow. -/
structure Growth (pool : ObjPool) : Prop where
  two_le : 2 ≤ pool.capacity
  few : pool.capacity * 2 ≤ 2 ^ 31
  bytes : pool.alloc * 2 < 2 ^ 63

/-- **Allocating an id** takes a slot that was not allocated. -/
theorem SlotInv.allocId_spec (h : SlotInv pool free) (hroom : pool.nextFree < 0 → Growth pool) :
    ∃ id : ℕ, pool.allocId.1 = id ∧ Allocated pool pool.allocId.2 id ∧
      ∃ free', SlotInv pool.allocId.2 free' := by
  cases free with
  | cons i rest =>
    rw [h.allocId_taken]
    exact ⟨i, rfl, h.taken_spec.2, rest, h.taken_spec.1⟩
  | nil =>
    obtain ⟨htwo, hfew, hbytes⟩ := hroom h.nextFree_neg
    obtain ⟨hslots, -, halloc⟩ := h.grown_spec htwo hfew hbytes
    rw [h.allocId_grown htwo hfew]
    exact ⟨pool.capacity, rfl, halloc, _, hslots⟩

theorem PoolInv.growth (h : PoolInv pool free) (hroom : pool.alloc * 2 < 2 ^ 32) : Growth pool where
  two_le := h.two_le
  few := by have := h.capacity_lt; omega
  bytes := by omega

theorem allocId_spec (h : PoolInv pool free) (hroom : pool.nextFree < 0 → pool.alloc * 2 < 2 ^ 32) :
    ∃ id : ℕ, pool.allocId.1 = id ∧ Allocated pool pool.allocId.2 id ∧
      ∃ free', PoolInv pool.allocId.2 free' := by
  cases free with
  | cons i rest =>
    obtain ⟨hslots, halloc⟩ := h.slots.taken_spec
    rw [h.slots.allocId_taken]
    exact ⟨i, rfl, halloc, rest, hslots.poolInv h.two_le h.bound⟩
  | nil =>
    have hbound := hroom h.slots.nextFree_neg
    obtain ⟨htwo, hfew, hbytes⟩ := h.growth hbound
    obtain ⟨hslots, hcap, halloc⟩ := h.slots.grown_spec htwo hfew hbytes
    rw [h.slots.allocId_grown htwo hfew]
    exact ⟨pool.capacity, rfl, halloc, _, hslots.poolInv (by omega) hbound⟩

/-- The offset of a slot in the first `2 ^ 32` bytes is not truncated. -/
theorem SlotInv.offset_mod (h : SlotInv pool free) {id : ℕ} (hid : id < pool.capacity)
    (hlow : id * pool.eleSize < 2 ^ 32) : pool.offset id % 2 ^ 32 = id * pool.eleSize := by
  rw [h.offset_eq hid]
  exact Nat.mod_eq_of_lt hlow

/-- A live id is put in front of the free list. -/
theorem SlotInv.freeId_eq (h : SlotInv pool free) {id : ℕ} (hid : pool.Live id)
    (hlow : id * pool.eleSize < 2 ^ 32) :
    pool.freeId id = (true, { pool with
      array := pool.array.writeInt (id * pool.eleSize) pool.nextFree, nextFree := id }) := by
  have h4 := h.four_le
  have hslot := h.slot_le hid.1
  rw [freeId, h.offset_mod hid.1 hlow, if_neg (by omega), if_neg (fun hne => hne hid.2)]

/-- Freeing an id that is not live changes nothing. -/
theorem SlotInv.freeId_not_live (h : SlotInv pool free) {i : ℕ} (hi : i < pool.capacity)
    (hlow : i * pool.eleSize < 2 ^ 32) (hl : ¬ pool.Live i) : pool.freeId i = (false, pool) := by
  have h4 := h.four_le
  have hslot := h.slot_le hi
  have hne : pool.array.readInt (i * pool.eleSize) ≠ allocedId := fun he => hl ⟨hi, he⟩
  rw [freeId, h.offset_mod hi hlow, if_neg (by omega), if_pos hne]

/-- The slots of a pool that has no more than `2 ^ 32` bytes are there. -/
theorem PoolInv.slot_low (h : PoolInv pool free) {i : ℕ} (hi : i < pool.capacity) :
    i * pool.eleSize < 2 ^ 32 := by
  have hslot := h.slot_le hi
  have hbound := h.bound
  omega

theorem freeId_eq (h : PoolInv pool free) {id : ℕ} (hid : pool.Live id) :
    pool.freeId id = (true, { pool with
      array := pool.array.writeInt (id * pool.eleSize) pool.nextFree, nextFree := id }) :=
  h.slots.freeId_eq hid (h.slot_low hid.1)

theorem freeId_not_live (h : PoolInv pool free) {i : ℕ} (hi : i < pool.capacity) (hl : ¬ pool.Live i) :
    pool.freeId i = (false, pool) :=
  h.slots.freeId_not_live hi (h.slot_low hi) hl

/-- **Freeing an id** makes that slot free. -/
theorem SlotInv.freeId_spec (h : SlotInv pool free) {id : ℕ} (hid : pool.Live id)
    (hlow : id * pool.eleSize < 2 ^ 32) :
    (pool.freeId id).1 = true ∧ SlotInv (pool.freeId id).2 (id :: free) ∧
      (pool.freeId id).2.eleSize = pool.eleSize ∧ (pool.freeId id).2.capacity = pool.capacity ∧
      ∀ j, (pool.freeId id).2.Live j ↔ pool.Live j ∧ j ≠ id := by
  have h4 := h.four_le
  have hnext := h.nextFree_int
  have hresult := h.freeId_eq hid hlow
  have hheader : ∀ j, (pool.freeId id).2.header j = if j = id then pool.nextFree else pool.header j := by
    rw [hresult]
    exact header_writeInt h4 hnext.1 hnext.2 id
  have hne := h.nextFree_ne
  have hfree : id ∉ free := (h.live_iff.mp hid).2
  have hcapacity : (pool.freeId id).2.capacity = pool.capacity := by rw [hresult]; rfl
  have helesize : (pool.freeId id).2.eleSize = pool.eleSize := by rw [hresult]
  have halloc : (pool.freeId id).2.alloc = pool.alloc := by rw [hresult]
  refine ⟨by rw [hresult], ⟨helesize ▸ h4, ?_, hcapacity ▸ h.few, halloc ▸ h.bytes, ?_,
    List.nodup_cons.mpr ⟨hfree, h.nodup⟩, fun j hj => ?_, fun j hj => ?_⟩, helesize, hcapacity,
    fun j => ?_⟩
  · rw [halloc, hcapacity, helesize]
    exact h.alloc_eq
  · refine ⟨by rw [hresult], ?_⟩
    rw [hheader id, if_pos rfl]
    refine h.chain.congr fun j hj => ?_
    have hji : j ≠ id := fun e => hfree (e ▸ hj)
    rw [hheader j, if_neg hji]
  · rw [hcapacity]
    rcases List.mem_cons.mp hj with rfl | hj
    · exact hid.1
    · exact h.free_lt j hj
  · rw [hcapacity] at hj
    rw [hheader j]
    by_cases hji : j = id
    · simp [hji, hne]
    · rw [if_neg hji, h.alloced j hj, List.mem_cons]
      simp [hji]
  · rw [Live, hcapacity, hheader j]
    by_cases hji : j = id
    · simp [hji, hne]
    · simp [hji, Live]

theorem freeId_spec (h : PoolInv pool free) {id : ℕ} (hid : pool.Live id) :
    (pool.freeId id).1 = true ∧ PoolInv (pool.freeId id).2 (id :: free) ∧
      (pool.freeId id).2.eleSize = pool.eleSize ∧ (pool.freeId id).2.capacity = pool.capacity ∧
      ∀ j, (pool.freeId id).2.Live j ↔ pool.Live j ∧ j ≠ id := by
  obtain ⟨hok, hslots, hele, hcap, hlive⟩ := h.slots.freeId_spec hid (h.slot_low hid.1)
  have hbound : (pool.freeId id).2.alloc < 2 ^ 32 := by
    rw [hslots.alloc_eq, hele, hcap, ← h.alloc_eq]
    exact h.bound
  exact ⟨hok, hslots.poolInv (hcap.symm ▸ h.two_le) hbound, hele, hcap, hlive⟩

end ObjPool

end Fcitx
