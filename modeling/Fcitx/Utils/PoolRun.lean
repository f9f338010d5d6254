/-
# Runs of the object pool

A run allocates ids, frees ids it was given, and writes to the objects of the
live ones. The history keeps the ids that were returned and those that are live;
after every run the free list is the list of the ids that are not live.

Key definitions: `ObjPool.freeIds`, `PoolHistory`, `PoolOp`, `PoolLaw`,
`PoolStepLaw`.
Key theorem: `PoolHistory.run_poolLaw`.
-/
import Fcitx.Lib.IdList
import Fcitx.Lib.Run
import Fcitx.Utils.ObjPool
import Fcitx.Utils.Utf8
import Mathlib.Data.List.Perm.Subperm

namespace Fcitx

namespace ObjPool

open ByteMem

/-- The ids that following the links from `next_free` visits. -/
def freeIds (pool : ObjPool) : List ℤ :=
  IdList.walk (fun id => pool.array.readInt (pool.offset id)) (pool.capacity + 1) pool.nextFree

/-- The bytes of the object of an id. -/
def object (pool : ObjPool) (id : ℤ) : Bytes := pool.array.load (pool.get id) (pool.eleSize - 4)

variable {pool : ObjPool} {free : List ℕ}

theorem SlotInv.free_length (h : SlotInv pool free) : free.length ≤ pool.capacity := by
  have hsub : free ⊆ List.range pool.capacity := fun i hi => List.mem_range.mpr (h.free_lt i hi)
  have hle := (h.nodup.subperm hsub).length_le
  rwa [List.length_range] at hle

/-- Following a chain visits it. -/
theorem FreeChain.walk {header : ℕ → ℤ} {id : ℤ} (h : FreeChain header id free) {step : ℤ → ℤ}
    (hstep : ∀ i ∈ free, step i = header i) {fuel : ℕ} (hf : free.length < fuel) :
    IdList.walk step fuel id = free.map Nat.cast := by
  induction free generalizing id fuel with
  | nil =>
    obtain ⟨fuel, rfl⟩ := Nat.exists_eq_succ_of_ne_zero (Nat.ne_of_gt hf)
    have hid : id = -1 := h
    rw [IdList.walk, if_pos hid]
    rfl
  | cons i free ih =>
    obtain ⟨fuel, rfl⟩ := Nat.exists_eq_succ_of_ne_zero (Nat.ne_of_gt (Nat.zero_lt_of_lt hf))
    obtain ⟨rfl, hchain⟩ := h
    rw [IdList.walk, if_neg (by omega), hstep i List.mem_cons_self, List.map_cons]
    rw [ih hchain (fun j hj => hstep j (List.mem_cons_of_mem i hj)) (by simpa using hf)]

/-- **The links visit the free list.** -/
theorem SlotInv.freeIds_eq (h : SlotInv pool free) : pool.freeIds = free.map Nat.cast := by
  refine h.chain.walk (fun i hi => ?_) (Nat.lt_succ_of_le h.free_length)
  rw [h.offset_eq (h.free_lt i hi)]
  rfl

theorem PoolInv.freeIds_eq (h : PoolInv pool free) : pool.freeIds = free.map Nat.cast := h.slots.freeIds_eq

/-- The object of a slot whose bytes are the same. -/
theorem SameSlots.object {pool' : ObjPool} {free' : List ℕ} {P : ℕ → Prop} (hs : SameSlots pool pool' P)
    (h : PoolInv pool free) (h' : PoolInv pool' free') (he : pool'.eleSize = pool.eleSize) {i : ℕ}
    (hi : i < pool.capacity) (hi' : i < pool'.capacity) (hP : P i) :
    pool'.object i = pool.object i := by
  have h4 := h.four_le
  rw [ObjPool.object, ObjPool.object, ObjPool.get, ObjPool.get, h.offset_eq hi, h'.offset_eq hi', he]
  refine load_congr fun k hk => ?_
  rw [Nat.add_assoc]
  exact hs i hP (4 + k) (by omega)

end ObjPool

/-- A pool with the ids it returned and those that are live. -/
structure PoolHistory where
  pool : ObjPool
  live : List ℤ
  returned : List ℤ

/-- `store` is a write to the object of an id, at an offset. -/
inductive PoolOp where
  | alloc
  | free (id : ℤ)
  | store (id : ℤ) (offset : ℕ) (bytes : Bytes)

namespace PoolHistory

open ObjPool ByteMem

/-- `fcitx_obj_pool_new` -/
def new (array : ByteMem) (size : ℕ) : PoolHistory := ⟨ObjPool.new array size, [], []⟩

def step (s : PoolHistory) : PoolOp → PoolHistory
  | .alloc =>
    ⟨s.pool.allocId.2, s.pool.allocId.1 :: s.live, s.pool.allocId.1 :: s.returned⟩
  | .free id => { s with pool := (s.pool.freeId id).2, live := s.live.filter fun j => j ≠ id }
  | .store id offset bytes =>
    { s with pool := { s.pool with array := s.pool.array.store (s.pool.get id + offset) bytes } }

/-- The pool stays below `2 ^ 32` bytes, only ids that were returned are freed,
and only live objects are written to. -/
def Ok (s : PoolHistory) : PoolOp → Prop
  | .alloc => s.pool.nextFree < 0 → s.pool.alloc * 2 < 2 ^ 32
  | .free id => id ∈ s.returned
  | .store id offset bytes => id ∈ s.live ∧ offset + bytes.length ≤ s.pool.eleSize - 4

instance (s : PoolHistory) : ∀ op, Decidable (s.Ok op)
  | .alloc => inferInstanceAs (Decidable (_ → _))
  | .free id => inferInstanceAs (Decidable (id ∈ s.returned))
  | .store .. => inferInstanceAs (Decidable (_ ∧ _))

/-- The free list has every id below the capacity that is not live, once. -/
structure PoolLaw (s : PoolHistory) : Prop where
  nodup : s.pool.freeIds.Nodup
  ends : s.pool.freeIds.length ≤ s.pool.capacity
  mem : ∀ id, id ∈ s.pool.freeIds ↔ 0 ≤ id ∧ id < s.pool.capacity ∧ id ∉ s.live
  live : ∀ id ∈ s.live, 0 ≤ id ∧ id < s.pool.capacity

/-- What the operations return and leave alone. -/
def StepLaw (s : PoolHistory) : PoolOp → Prop
  | .alloc =>
    0 ≤ s.pool.allocId.1 ∧ s.pool.allocId.1 < s.pool.allocId.2.capacity ∧ s.pool.allocId.1 ∉ s.live ∧
      (s.pool.allocId.2.capacity = s.pool.capacity ∨
        s.pool.allocId.2.capacity = 2 * s.pool.capacity) ∧
      ∀ j ∈ s.live, s.pool.allocId.2.object j = s.pool.object j
  | .free id =>
    if id ∈ s.live then
      (s.pool.freeId id).1 = true ∧ (s.pool.freeId id).2.freeIds = id :: s.pool.freeIds ∧
        (s.pool.freeId id).2.capacity = s.pool.capacity ∧
        ∀ j ∈ s.live, j ≠ id → (s.pool.freeId id).2.object j = s.pool.object j
    else s.pool.freeId id = (false, s.pool)
  | .store id offset bytes =>
    ∀ j ∈ s.live, j ≠ id → (s.step (.store id offset bytes)).pool.object j = s.pool.object j

/-- The history keeps track of the pool: what is live in it, and what it has returned. -/
structure Tracked (s : PoolHistory) : Prop where
  live : ∀ id : ℤ, id ∈ s.live ↔ ∃ i : ℕ, id = i ∧ s.pool.Live i
  returned : ∀ id ∈ s.returned, ∃ i : ℕ, id = i ∧ i < s.pool.capacity

/-- The invariant of a run, with the free list. -/
structure HistoryInv (s : PoolHistory) (free : List ℕ) : Prop where
  pool : PoolInv s.pool free
  live : ∀ id : ℤ, id ∈ s.live ↔ ∃ i : ℕ, id = i ∧ s.pool.Live i
  returned : ∀ id ∈ s.returned, ∃ i : ℕ, id = i ∧ i < s.pool.capacity

variable {s : PoolHistory} {free : List ℕ}

/-- **The free list is what is not live.** -/
theorem HistoryInv.poolLaw (h : HistoryInv s free) : PoolLaw s where
  nodup := by
    rw [h.pool.freeIds_eq]
    exact h.pool.nodup.map Nat.cast_injective
  ends := by
    rw [h.pool.freeIds_eq, List.length_map]
    exact h.pool.slots.free_length
  mem id := by
    rw [h.pool.freeIds_eq, List.mem_map]
    constructor
    · rintro ⟨i, hi, rfl⟩
      refine ⟨Int.natCast_nonneg i, Int.ofNat_lt.mpr (h.pool.free_lt i hi), fun hl => ?_⟩
      obtain ⟨j, hij, hj⟩ := (h.live _).mp hl
      rw [Int.ofNat_inj.mp hij] at hi
      exact (h.pool.live_iff.mp hj).2 hi
    · rintro ⟨h0, hlt, hl⟩
      obtain ⟨i, rfl⟩ := Int.eq_ofNat_of_zero_le h0
      refine ⟨i, ?_, rfl⟩
      by_contra hi
      exact hl ((h.live _).mpr ⟨i, rfl, h.pool.live_iff.mpr ⟨Int.ofNat_lt.mp hlt, hi⟩⟩)
  live id hid := by
    obtain ⟨i, rfl, hi⟩ := (h.live id).mp hid
    exact ⟨Int.natCast_nonneg i, Int.ofNat_lt.mpr hi.1⟩

theorem HistoryInv.tracked (h : HistoryInv s free) : Tracked s := ⟨h.live, h.returned⟩

theorem Tracked.live_iff (h : Tracked s) {i : ℕ} : (i : ℤ) ∈ s.live ↔ s.pool.Live i := by
  rw [h.live]
  constructor
  · rintro ⟨j, hj, hl⟩
    rwa [Int.ofNat_inj.mp hj]
  · exact fun hl => ⟨i, rfl, hl⟩

/-! ### The steps keep track -/

theorem Tracked.alloc (h : Tracked s) {n : ℕ} (hn : s.pool.allocId.1 = n)
    (halloc : Allocated s.pool s.pool.allocId.2 n) : Tracked (s.step .alloc) := by
  have hncap : n < s.pool.allocId.2.capacity := ((halloc.live n).mpr (Or.inr rfl)).1
  constructor
  · intro id
    show id ∈ s.pool.allocId.1 :: s.live ↔ ∃ i : ℕ, id = i ∧ s.pool.allocId.2.Live i
    rw [hn, List.mem_cons, h.live]
    constructor
    · rintro (rfl | ⟨i, rfl, hi⟩)
      · exact ⟨n, rfl, (halloc.live n).mpr (Or.inr rfl)⟩
      · exact ⟨i, rfl, (halloc.live i).mpr (Or.inl hi)⟩
    · rintro ⟨i, rfl, hi⟩
      rcases (halloc.live i).mp hi with hi | rfl
      · exact Or.inr ⟨i, rfl, hi⟩
      · exact Or.inl rfl
  · intro id hid
    rcases List.mem_cons.mp hid with rfl | hid
    · exact ⟨n, hn, hncap⟩
    · obtain ⟨i, rfl, hi⟩ := h.returned id hid
      exact ⟨i, rfl, hi.trans_le halloc.capacity_le⟩

theorem Tracked.free_live (h : Tracked s) {i : ℕ} (hcap : (s.pool.freeId i).2.capacity = s.pool.capacity)
    (hlive : ∀ j, (s.pool.freeId i).2.Live j ↔ s.pool.Live j ∧ j ≠ i) : Tracked (s.step (.free i)) := by
  constructor
  · intro j
    show j ∈ s.live.filter (fun j => j ≠ (i : ℤ)) ↔ ∃ k : ℕ, j = k ∧ (s.pool.freeId i).2.Live k
    rw [List.mem_filter, h.live, decide_eq_true_iff]
    constructor
    · rintro ⟨⟨k, rfl, hk⟩, hki⟩
      exact ⟨k, rfl, (hlive k).mpr ⟨hk, fun e => hki (congrArg Nat.cast e)⟩⟩
    · rintro ⟨k, rfl, hk⟩
      obtain ⟨hk, hki⟩ := (hlive k).mp hk
      exact ⟨⟨k, rfl, hk⟩, fun e => hki (Int.ofNat_inj.mp e)⟩
  · intro j hj
    obtain ⟨k, rfl, hk⟩ := h.returned j hj
    exact ⟨k, rfl, hcap.symm ▸ hk⟩

/-- Freeing what is not live changes nothing. -/
theorem step_free_not_live {id : ℤ} (hl : id ∉ s.live) (hres : s.pool.freeId id = (false, s.pool)) :
    s.step (.free id) = s := by
  have hlive : s.live.filter (fun j => j ≠ id) = s.live := by
    rw [List.filter_eq_self]
    intro j hj
    exact decide_eq_true fun e => hl (e ▸ hj)
  rw [step, hres, hlive]

/-- A write to an object leaves the `int`s of the slots. -/
theorem store_header (h : SlotInv s.pool free) {i : ℕ} (hi : i < s.pool.capacity) {offset : ℕ} {bytes : Bytes}
    (hle : offset + bytes.length ≤ s.pool.eleSize - 4) (j : ℕ) :
    (s.step (.store i offset bytes)).pool.header j = s.pool.header j := by
  have h4 := h.four_le
  have hget : s.pool.get i + offset = i * s.pool.eleSize + (4 + offset) := by
    rw [ObjPool.get, h.offset_eq hi, Nat.add_assoc]
  show (s.pool.array.store (s.pool.get i + offset) bytes).readInt (j * s.pool.eleSize) = _
  rw [hget]
  exact readInt_slot (a := 0) (by omega) (by omega) fun _ => Or.inl (by omega)

theorem Tracked.store (h : Tracked s) {id : ℤ} {offset : ℕ} {bytes : Bytes}
    (hheader : ∀ j, (s.step (.store id offset bytes)).pool.header j = s.pool.header j) :
    Tracked (s.step (.store id offset bytes)) := by
  have hlive : ∀ j, (s.step (.store id offset bytes)).pool.Live j ↔ s.pool.Live j := by
    intro j
    show j < s.pool.capacity ∧ (s.step (.store id offset bytes)).pool.header j = allocedId ↔ _
    rw [hheader]
    rfl
  refine ⟨fun j => ?_, h.returned⟩
  show j ∈ s.live ↔ _
  rw [h.live]
  simp only [hlive]

/-! ### The steps -/

theorem alloc_law (h : HistoryInv s free) (hok : s.Ok .alloc) :
    (∃ free', HistoryInv (s.step .alloc) free') ∧ s.StepLaw .alloc := by
  obtain ⟨n, hn, halloc, free', hpool⟩ := allocId_spec h.pool hok
  have hncap : n < s.pool.allocId.2.capacity := ((halloc.live n).mpr (Or.inr rfl)).1
  obtain ⟨hlive, hreturned⟩ := h.tracked.alloc hn halloc
  refine ⟨⟨free', hpool, hlive, hreturned⟩, ?_, ?_, ?_, halloc.capacity, fun j hj => ?_⟩
  · rw [hn]
    exact Int.natCast_nonneg n
  · rw [hn]
    exact Int.ofNat_lt.mpr hncap
  · rw [hn, h.tracked.live_iff]
    exact halloc.fresh
  · obtain ⟨i, rfl, hi⟩ := (h.live j).mp hj
    exact halloc.same.object h.pool hpool halloc.eleSize hi.1 (hi.1.trans_le halloc.capacity_le) hi

theorem free_law (h : HistoryInv s free) {id : ℤ} (hok : s.Ok (.free id)) :
    (∃ free', HistoryInv (s.step (.free id)) free') ∧ s.StepLaw (.free id) := by
  obtain ⟨i, rfl, hi⟩ := h.returned id hok
  have hmem := h.tracked.live_iff (i := i)
  rw [StepLaw]
  by_cases hl : s.pool.Live i
  · obtain ⟨hok, hpool, hele, hcap, hlive⟩ := freeId_spec h.pool hl
    obtain ⟨hlive', hreturned⟩ := h.tracked.free_live hcap hlive
    rw [if_pos (hmem.mpr hl)]
    refine ⟨⟨i :: free, hpool, hlive', hreturned⟩, hok, ?_, hcap, fun j hj hji => ?_⟩
    · rw [hpool.freeIds_eq, h.pool.freeIds_eq, List.map_cons]
    · obtain ⟨k, rfl, hk⟩ := (h.live j).mp hj
      have hki : k ≠ i := fun e => hji (congrArg Nat.cast e)
      have hsame : SameSlots s.pool (s.pool.freeId i).2 (· ≠ i) := by
        intro k hk a ha
        rw [freeId_eq h.pool hl]
        exact writeInt_sameSlots h.pool.four_le hk ha
      exact hsame.object h.pool hpool hele hk.1 (hcap.symm ▸ hk.1) hki
  · have hres := freeId_not_live h.pool hi hl
    have hnot : (i : ℤ) ∉ s.live := fun hm => hl (hmem.mp hm)
    rw [if_neg hnot, step_free_not_live hnot hres]
    exact ⟨⟨free, h⟩, hres⟩

theorem store_law (h : HistoryInv s free) {id : ℤ} {offset : ℕ} {bytes : Bytes}
    (hok : s.Ok (.store id offset bytes)) :
    (∃ free', HistoryInv (s.step (.store id offset bytes)) free') ∧ s.StepLaw (.store id offset bytes) := by
  obtain ⟨hid, hle⟩ := hok
  obtain ⟨i, rfl, hi⟩ := (h.live id).mp hid
  have h4 := h.pool.four_le
  have hheader := store_header h.pool.slots hi.1 hle
  obtain ⟨hlive, hreturned⟩ := h.tracked.store hheader
  refine ⟨⟨free, h.pool.of_header fun j _ => hheader j, hlive, hreturned⟩, fun j hj hji => ?_⟩
  obtain ⟨k, rfl, hk⟩ := (h.live j).mp hj
  have hki : k ≠ i := fun e => hji (congrArg Nat.cast e)
  have hget : s.pool.get i + offset = i * s.pool.eleSize + (4 + offset) := by
    rw [ObjPool.get, h.pool.offset_eq hi.1, Nat.add_assoc]
  show (s.pool.array.store (s.pool.get i + offset) bytes).load (s.pool.get k) (s.pool.eleSize - 4) = _
  rw [ObjPool.object, hget, ObjPool.get, h.pool.offset_eq hk.1]
  exact load_slot (by omega) (by omega) fun e => absurd e hki

theorem step_law (h : HistoryInv s free) {op : PoolOp} (hok : s.Ok op) :
    (∃ free', HistoryInv (s.step op) free') ∧ s.StepLaw op := by
  cases op with
  | alloc => exact alloc_law h hok
  | free id => exact free_law h hok
  | store id offset bytes => exact store_law h hok

/-- A new pool has no live ids. -/
theorem new_inv (array : ByteMem) (size : ℕ) (hsize : alignTo (size + 4) 4 * initSize < 2 ^ 32) :
    HistoryInv (new array size) (List.range initSize) := by
  have hpool := newWithPrealloc_spec array size (show 2 ≤ initSize by decide) hsize
  have hcap : (ObjPool.new array size).capacity = initSize := newWithPrealloc_capacity array size initSize
  refine ⟨hpool, fun id => ?_, fun id hid => absurd hid List.not_mem_nil⟩
  constructor
  · exact fun hid => absurd hid List.not_mem_nil
  · rintro ⟨i, -, hi⟩
    exact absurd (List.mem_range.mpr (hcap ▸ hi.1)) (hpool.live_iff.mp hi).2

/-- **The free list of the pool** has the ids that are not live after every run,
and every step of a run returns and changes what it should. -/
theorem run_poolLaw (array : ByteMem) (size : ℕ) (hsize : alignTo (size + 4) 4 * initSize < 2 ^ 32)
    (ops : List PoolOp) (ha : Run.Admissible step Ok (new array size) ops) :
    PoolLaw (Run.exec step (new array size) ops) ∧
      ∀ before op after, ops = before ++ op :: after →
        StepLaw (Run.exec step (new array size) before) op := by
  have hnew : ∃ free, HistoryInv (new array size) free := ⟨_, new_inv array size hsize⟩
  have hstep : ∀ s op, (∃ free, HistoryInv s free) → Ok s op → ∃ free, HistoryInv (s.step op) free := by
    rintro s op ⟨free, h⟩ hok
    exact (step_law h hok).1
  constructor
  · obtain ⟨free, h⟩ := Run.invariant hstep hnew ha
    exact h.poolLaw
  · intro before op after hops
    rw [hops] at ha
    obtain ⟨hbefore, hok, -⟩ := Run.admissible_append.mp ha
    obtain ⟨free, h⟩ := Run.invariant hstep hnew hbefore
    exact (step_law h hok).2

/-- Five allocations with a growth, and an id that is freed twice. -/
theorem run_poolLaw_grow :
    PoolLaw (Run.exec step (new (fun _ => 0) 1)
      [.alloc, .alloc, .alloc, .alloc, .alloc, .store 4 0 [7], .free 1, .free 1]) :=
  (run_poolLaw (fun _ => 0) 1 (by decide)
    [.alloc, .alloc, .alloc, .alloc, .alloc, .store 4 0 [7], .free 1, .free 1] (by decide +kernel)).1

end PoolHistory

end Fcitx
