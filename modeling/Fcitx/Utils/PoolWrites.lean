/-
# Where the pool writes

The functions of `fcitx-utils/objpool.c` once more, on memory that keeps the offsets of
the `int`s that are written. A pool of one slot that grows counts on from the slot behind
the new one, so it writes behind its array and goes on with an id that is not there.

Key definitions: `LoggedMem`, `ObjPool.newLogged`, `ObjPool.allocIdLogged`,
`ObjPool.freeIdLogged`, `PoolHistory.StepInside`, `PoolHistory.GrowsFromTwo`.
Key theorems: `ObjPool.allocIdLogged_fst`, `ObjPool.newLogged_writes`,
`PoolHistory.run_inside_iff`.
-/
import Fcitx.Utils.PoolFree

namespace Fcitx

open ByteMem

/-- Memory with the offsets of the `int`s written to it. -/
structure LoggedMem where
  mem : ByteMem
  writes : List ℕ

def LoggedMem.writeInt (m : LoggedMem) (off : ℕ) (z : ℤ) : LoggedMem := ⟨m.mem.writeInt off z, m.writes ++ [off]⟩

namespace ObjPool

/-- `linkFree` -/
def linkFreeLogged (eleSize : ℕ) : ℕ → LoggedMem → ℕ → ℕ → LoggedMem × ℕ
  | 0, array, offset, _ => (array, offset)
  | count + 1, array, offset, i =>
    linkFreeLogged eleSize count (array.writeInt offset (i + 1)) (offset + eleSize) (i + 1)

/-- `fcitx_obj_pool_init_with_prealloc` -/
def newLogged (array : ByteMem) (size prealloc : ℕ) : ObjPool × List ℕ :=
  let size := alignTo (size + 4) 4
  let (array, offset) := linkFreeLogged size (prealloc - 1) ⟨array, []⟩ 0 0
  let array := array.writeInt offset invalidId
  ({ array := array.mem, alloc := size * prealloc, eleSize := size, nextFree := 0 }, array.writes)

/-- `fcitx_obj_pool_alloc_id` -/
def allocIdLogged (pool : ObjPool) : (ℤ × ObjPool) × List ℕ :=
  let array : LoggedMem := ⟨pool.array, []⟩
  if 0 ≤ pool.nextFree then
    let id := pool.nextFree
    let offset := pool.offset id
    let array := array.writeInt offset allocedId
    ((id, { pool with nextFree := pool.array.readInt offset, array := array.mem }), array.writes)
  else
    let alloc := pool.alloc * 2
    let id := alloc / 2 / pool.eleSize
    let array := array.writeInt (alloc / 2) allocedId
    let i := alloc / 2 / pool.eleSize + 1
    let (array, offset) :=
      linkFreeLogged pool.eleSize (alloc / pool.eleSize - 1 - i) array (alloc / 2 + pool.eleSize) i
    let array := array.writeInt offset invalidId
    ((id, { pool with alloc := alloc, nextFree := id + 1, array := array.mem }), array.writes)

/-- `fcitx_obj_pool_free_id` -/
def freeIdLogged (pool : ObjPool) (i : ℤ) : (Bool × ObjPool) × List ℕ :=
  let array : LoggedMem := ⟨pool.array, []⟩
  let offset := pool.offset i % 2 ^ 32
  if pool.alloc ≤ offset then ((false, pool), [])
  else if pool.array.readInt offset ≠ allocedId then ((false, pool), [])
  else
    let array := array.writeInt offset pool.nextFree
    ((true, { pool with array := array.mem, nextFree := i }), array.writes)

variable {pool : ObjPool} {free : List ℕ}

/-! ### Without the log they are the same -/

theorem linkFreeLogged_mem (e n : ℕ) (m : LoggedMem) (offset i : ℕ) :
    (linkFreeLogged e n m offset i).1.mem = (linkFree e n m.mem offset i).1 := by
  induction n generalizing m offset i with
  | zero => rfl
  | succ n ih =>
    rw [linkFreeLogged, linkFree, ih]
    rfl

theorem linkFreeLogged_offset (e n : ℕ) (m : LoggedMem) (offset i : ℕ) :
    (linkFreeLogged e n m offset i).2 = (linkFree e n m.mem offset i).2 := by
  induction n generalizing m offset i with
  | zero => rfl
  | succ n ih =>
    rw [linkFreeLogged, linkFree, ih]
    rfl

theorem newLogged_fst (array : ByteMem) (size prealloc : ℕ) :
    (newLogged array size prealloc).1 = newWithPrealloc array size prealloc := by
  simp only [newLogged, newWithPrealloc, LoggedMem.writeInt, linkFreeLogged_mem, linkFreeLogged_offset]

theorem allocIdLogged_fst (pool : ObjPool) : pool.allocIdLogged.1 = pool.allocId := by
  rw [allocIdLogged, allocId]
  dsimp only
  split
  · rfl
  · simp only [LoggedMem.writeInt, linkFreeLogged_mem, linkFreeLogged_offset]

theorem freeIdLogged_fst (pool : ObjPool) (i : ℤ) : (pool.freeIdLogged i).1 = pool.freeId i := by
  rw [freeIdLogged, freeId]
  dsimp only
  split_ifs
  · rfl
  · rfl
  · rfl

/-! ### The writes -/

/-- The writes are to the `int`s in front of the slots `ids`. -/
def headers (e : ℕ) (ids : List ℕ) : List ℕ := ids.map fun i => i * e

theorem linkFreeLogged_spec (e n : ℕ) (m : LoggedMem) (i : ℕ) :
    (linkFreeLogged e n m (i * e) i).1.writes = m.writes ++ headers e (List.range' i n) ∧
      (linkFreeLogged e n m (i * e) i).2 = (i + n) * e := by
  induction n generalizing m i with
  | zero => exact ⟨(List.append_nil _).symm, rfl⟩
  | succ n ih =>
    obtain ⟨hwrites, hoffset⟩ := ih (m.writeInt (i * e) (i + 1)) (i + 1)
    rw [linkFreeLogged, ← Nat.succ_mul, hwrites, hoffset]
    refine ⟨?_, by congr 1; omega⟩
    rw [LoggedMem.writeInt, List.append_assoc, List.range'_succ, headers, headers, List.map_cons,
      List.singleton_append]

/-- A new pool has each of its slots written. -/
theorem newLogged_writes (array : ByteMem) (size : ℕ) {prealloc : ℕ} (hpre : 1 ≤ prealloc) :
    (newLogged array size prealloc).2 = headers (alignTo (size + 4) 4) (List.range prealloc) := by
  obtain ⟨hwrites, hoffset⟩ := linkFreeLogged_spec (alignTo (size + 4) 4) (prealloc - 1) ⟨array, []⟩ 0
  rw [Nat.zero_mul] at hwrites hoffset
  simp only [newLogged, LoggedMem.writeInt]
  rw [hwrites, hoffset, List.nil_append, ← List.range_eq_range', Nat.zero_add]
  obtain ⟨n, rfl⟩ := Nat.exists_eq_add_of_le' hpre
  rw [Nat.add_sub_cancel, List.range_succ, headers, headers, List.map_append]
  rfl

/-- A free slot that is taken is written. -/
theorem SlotInv.allocIdLogged_taken {i : ℕ} {rest : List ℕ} (h : SlotInv pool (i :: rest)) :
    pool.allocIdLogged.2 = headers pool.eleSize [i] := by
  have hoff := h.offset_eq (h.free_lt i List.mem_cons_self)
  have hnext : pool.nextFree = i := h.chain.1
  rw [allocIdLogged, if_pos (by omega), hnext]
  dsimp only
  rw [hoff]
  rfl

/-- Freeing writes to the cut offset, if at all. -/
theorem freeIdLogged_writes (pool : ObjPool) (i : ℤ) :
    (pool.freeIdLogged i).2 = [] ∨ (pool.freeIdLogged i).2 = [pool.cutOffset i] := by
  rw [freeIdLogged, cutOffset]
  dsimp only
  split_ifs
  · exact Or.inl rfl
  · exact Or.inl rfl
  · exact Or.inr rfl

theorem freeId_alloc (pool : ObjPool) (i : ℤ) :
    (pool.freeId i).2.alloc = pool.alloc ∧ (pool.freeId i).2.eleSize = pool.eleSize := by
  by_cases hhits : pool.Hits i
  · rw [freeId_of_hits hhits]
    exact ⟨rfl, rfl⟩
  · rw [freeId_of_not_hits hhits]
    exact ⟨rfl, rfl⟩

theorem freeId_capacity (pool : ObjPool) (i : ℤ) : (pool.freeId i).2.capacity = pool.capacity := by
  obtain ⟨halloc, hele⟩ := freeId_alloc pool i
  rw [capacity, halloc, hele, capacity]

/-- A pool that grows writes its new slots, but two of them at least. -/
theorem SlotInv.allocIdLogged_grown (h : SlotInv pool []) :
    pool.allocIdLogged.2 = headers pool.eleSize (List.range' pool.capacity (max pool.capacity 2)) := by
  have hhalf := h.double_half
  have hdiv := h.double_div
  set n := pool.capacity with hn
  obtain ⟨hwrites, hoffset⟩ := linkFreeLogged_spec pool.eleSize (2 * n - 1 - (n + 1))
    (LoggedMem.writeInt ⟨pool.array, []⟩ (n * pool.eleSize) allocedId) (n + 1)
  rw [allocIdLogged, if_neg (not_le.mpr h.nextFree_neg)]
  simp only [hhalf, hdiv, Nat.mul_div_cancel _ h.eleSize_pos, ← Nat.succ_mul, Nat.succ_eq_add_one]
  rw [LoggedMem.writeInt, hwrites, hoffset]
  have hcount : max n 2 = 2 * n - 1 - (n + 1) + 1 + 1 := by omega
  have hlast : n + 1 + (2 * n - 1 - (n + 1)) = n + (2 * n - 1 - (n + 1) + 1) := by omega
  rw [hcount, List.range'_concat, List.range'_succ, Nat.one_mul, hlast, headers, headers, List.map_append,
    List.map_cons]
  rfl

end ObjPool

namespace PoolHistory

open ObjPool

/-- Every `int` that was written is that of an id below the capacity. -/
def WritesInside (pool : ObjPool) (writes : List ℕ) : Prop :=
  ∀ offset ∈ writes, ∃ id < pool.capacity, offset = id * pool.eleSize

/-- A step writes and returns only ids below the capacity after it. -/
def StepInside (s : PoolHistory) : PoolOp → Prop
  | .alloc =>
    WritesInside s.pool.allocId.2 s.pool.allocIdLogged.2 ∧ 0 ≤ s.pool.allocId.1 ∧
      s.pool.allocId.1 < s.pool.allocId.2.capacity
  | .free id => WritesInside (s.pool.freeId id).2 (s.pool.freeIdLogged id).2
  | .store .. => True

/-- A pool that grows has two slots at least. -/
def GrowsFromTwo (s : PoolHistory) : PoolOp → Prop
  | .alloc => s.pool.nextFree < 0 → 2 ≤ s.pool.capacity
  | _ => True

instance (s : PoolHistory) : ∀ op, Decidable (s.GrowsFromTwo op)
  | .alloc => inferInstanceAs (Decidable (_ → _))
  | .free _ => inferInstanceAs (Decidable True)
  | .store .. => inferInstanceAs (Decidable True)

/-- The invariant of a run that stays below `2 ^ 32` bytes. -/
def ReachedLow (s : PoolHistory) : Prop := Reached s ∧ 1 ≤ s.pool.capacity ∧ s.pool.alloc < 2 ^ 32

variable {s : PoolHistory}

theorem writesInside_headers (pool : ObjPool) (ids : List ℕ) (h : 0 < pool.eleSize) :
    WritesInside pool (headers pool.eleSize ids) ↔ ∀ i ∈ ids, i < pool.capacity := by
  constructor
  · intro hinside i hi
    obtain ⟨id, hlt, heq⟩ := hinside _ (List.mem_map_of_mem hi)
    rw [Nat.eq_of_mul_eq_mul_right h heq]
    exact hlt
  · intro hlt offset hoffset
    obtain ⟨i, hi, rfl⟩ := List.mem_map.mp hoffset
    exact ⟨i, hlt i hi, rfl⟩

/-- What a pool without a free slot returns, and its capacity after that. -/
theorem allocId_full {pool : ObjPool} (h : SlotInv pool []) : pool.allocId.1 = pool.capacity ∧
    pool.allocId.2.eleSize = pool.eleSize ∧ pool.allocId.2.capacity = 2 * pool.capacity ∧
    pool.allocId.2.alloc = pool.alloc * 2 := by
  rw [allocId, if_neg (not_le.mpr h.nextFree_neg)]
  refine ⟨?_, rfl, h.double_div, rfl⟩
  dsimp only
  rw [Nat.mul_div_cancel _ two_pos]
  rfl

theorem Reached.eleSize_pos (h : Reached s) : 0 < s.pool.eleSize := by
  obtain ⟨⟨free, hslots⟩, -⟩ := h
  exact hslots.eleSize_pos

theorem ReachedLow.growth (h : ReachedLow s) (htwo : 2 ≤ s.pool.capacity) (hroom : s.pool.alloc * 2 < 2 ^ 32) :
    Growth s.pool := by
  obtain ⟨⟨⟨free, hslots⟩, -⟩, -, -⟩ := h
  have hle : s.pool.capacity * 4 ≤ s.pool.alloc := by
    calc s.pool.capacity * 4 ≤ s.pool.capacity * s.pool.eleSize := Nat.mul_le_mul_left _ hslots.four_le
      _ = s.pool.alloc := hslots.alloc_eq.symm
  exact ⟨htwo, by omega, by omega⟩

/-- A step of `fcitx_obj_pool_alloc_id` is inside exactly if it does not grow a single slot. -/
theorem alloc_inside_iff (h : ReachedLow s) : s.StepInside .alloc ↔ s.GrowsFromTwo .alloc := by
  obtain ⟨⟨⟨free, hslots⟩, -⟩, hone, -⟩ := h
  have hepos := hslots.eleSize_pos
  rw [StepInside, GrowsFromTwo]
  cases free with
  | cons i rest =>
    have hi := hslots.free_lt i List.mem_cons_self
    have hnext : s.pool.nextFree = i := hslots.chain.1
    rw [hslots.allocId_taken, hslots.allocIdLogged_taken]
    refine iff_of_true ⟨?_, Int.natCast_nonneg i, Int.ofNat_lt.mpr hi⟩ (fun hneg => by omega)
    refine (writesInside_headers (s.pool.taken i) [i] hepos).mpr fun j hj => ?_
    rw [List.mem_singleton.mp hj]
    exact hi
  | nil =>
    obtain ⟨hid, hele, hcap, -⟩ := allocId_full hslots
    rw [hid, hcap, hslots.allocIdLogged_grown, ← hele, writesInside_headers _ _ (hele ▸ hepos), hcap]
    constructor
    · rintro ⟨hlt, -⟩ -
      have hlast := hlt (s.pool.capacity + 1) (List.mem_range'_1.mpr (by omega))
      omega
    · intro htwo
      have htwo := htwo hslots.nextFree_neg
      refine ⟨fun i hi => ?_, by omega, by omega⟩
      rw [List.mem_range'_1] at hi
      omega

theorem alloc_reachedLow (h : ReachedLow s) (hok : s.Ok .alloc) (htwo : s.GrowsFromTwo .alloc) :
    ReachedLow (s.step .alloc) := by
  have hreached := h.1.alloc fun hneg => h.growth (htwo hneg) (hok hneg)
  obtain ⟨⟨⟨free, hslots⟩, -⟩, hone, hlow⟩ := h
  refine ⟨hreached, ?_⟩
  show 1 ≤ s.pool.allocId.2.capacity ∧ s.pool.allocId.2.alloc < 2 ^ 32
  cases free with
  | cons i rest =>
    rw [hslots.allocId_taken]
    exact ⟨hone, hlow⟩
  | nil =>
    obtain ⟨-, -, hcap, halloc⟩ := allocId_full hslots
    rw [hcap, halloc]
    exact ⟨by omega, hok hslots.nextFree_neg⟩

/-- Freeing an id that was returned writes to its slot, if at all. -/
theorem free_inside (h : ReachedLow s) {id : ℤ} (hok : s.Ok (.free id)) :
    s.StepInside (.free id) ∧ ReachedLow (s.step (.free id)) := by
  have hreached := h.1
  obtain ⟨⟨⟨free, hslots⟩, htracked⟩, hone, hbytes⟩ := h
  obtain ⟨i, rfl, hi⟩ := htracked.returned id hok
  obtain ⟨halloc, hele⟩ := freeId_alloc s.pool i
  have hcap := freeId_capacity s.pool i
  have hslot := hslots.slot_le hi
  have hlow : i * s.pool.eleSize < 2 ^ 32 := by have := hslots.eleSize_pos; omega
  constructor
  · rw [StepInside]
    rcases freeIdLogged_writes s.pool i with hnone | hone
    · rw [hnone]
      exact fun offset hoffset => absurd hoffset List.not_mem_nil
    · rw [hone, cutOffset, hslots.offset_mod hi hlow]
      intro offset hoffset
      exact ⟨i, hcap.symm ▸ hi, by rw [List.mem_singleton.mp hoffset, hele]⟩
  · refine ⟨hreached.free (hreached.freeSafe_of_low hlow), ?_⟩
    show 1 ≤ (s.pool.freeId i).2.capacity ∧ (s.pool.freeId i).2.alloc < 2 ^ 32
    rw [hcap, halloc]
    exact ⟨hone, hbytes⟩

theorem store_reachedLow (h : ReachedLow s) {id : ℤ} {offset : ℕ} {bytes : Bytes}
    (hok : s.Ok (.store id offset bytes)) : ReachedLow (s.step (.store id offset bytes)) :=
  ⟨h.1.store hok.1 hok.2, h.2⟩

/-- What a step needs to be inside, and what it keeps. -/
theorem step_inside_iff (h : ReachedLow s) {op : PoolOp} (hok : s.Ok op) :
    (s.StepInside op ↔ s.GrowsFromTwo op) ∧ (s.GrowsFromTwo op → ReachedLow (s.step op)) := by
  cases op with
  | alloc => exact ⟨alloc_inside_iff h, alloc_reachedLow h hok⟩
  | free id =>
    obtain ⟨hinside, hreached⟩ := free_inside h hok
    exact ⟨iff_of_true hinside trivial, fun _ => hreached⟩
  | store id offset bytes => exact ⟨Iff.rfl, fun _ => store_reachedLow h hok⟩

theorem withPrealloc_reachedLow (array : ByteMem) (size : ℕ) {prealloc : ℕ} (hpre : 1 ≤ prealloc)
    (hbound : alignTo (size + 4) 4 * prealloc < 2 ^ 32) : ReachedLow (withPrealloc array size prealloc) := by
  have hle : 4 * prealloc ≤ alignTo (size + 4) 4 * prealloc := Nat.mul_le_mul_right _ (four_le_alignTo size)
  refine ⟨withPrealloc_reached array size hpre (by omega) (by omega), ?_, hbound⟩
  show 1 ≤ (newWithPrealloc array size prealloc).capacity
  rw [newWithPrealloc_capacity]
  exact hpre

/-- No step makes the pool smaller. -/
theorem capacity_le_step (h : ReachedLow s) (op : PoolOp) : s.pool.capacity ≤ (s.step op).pool.capacity := by
  obtain ⟨⟨⟨free, hslots⟩, -⟩, -⟩ := h
  cases op with
  | alloc =>
    show s.pool.capacity ≤ s.pool.allocId.2.capacity
    cases free with
    | cons i rest =>
      rw [hslots.allocId_taken]
      exact le_rfl
    | nil =>
      rw [(allocId_full hslots).2.2.1]
      omega
  | free id => exact (freeId_capacity s.pool id).ge
  | store id offset bytes => exact le_rfl

/-- A pool that was made with two slots grows from two at least. -/
theorem growsFromTwo_of_two (array : ByteMem) (size : ℕ) {prealloc : ℕ} (hpre : 2 ≤ prealloc)
    (hbound : alignTo (size + 4) 4 * prealloc < 2 ^ 32) {ops : List PoolOp}
    (ha : Run.Admissible step Ok (withPrealloc array size prealloc) ops) :
    Run.Admissible step GrowsFromTwo (withPrealloc array size prealloc) ops := by
  have hnew : ReachedLow (withPrealloc array size prealloc) ∧ 2 ≤ (withPrealloc array size prealloc).pool.capacity :=
    ⟨withPrealloc_reachedLow array size (by omega) hbound, (newWithPrealloc_capacity array size prealloc).symm ▸ hpre⟩
  have hkeep : ∀ (s : PoolHistory) op, ReachedLow s ∧ 2 ≤ s.pool.capacity → s.Ok op → s.Ok op →
      s.GrowsFromTwo op ∧ ReachedLow (s.step op) ∧ 2 ≤ (s.step op).pool.capacity := by
    rintro s op ⟨h, htwo⟩ hok -
    have hgrows : s.GrowsFromTwo op := by
      cases op with
      | alloc => exact fun _ => htwo
      | free id => trivial
      | store id offset bytes => trivial
    exact ⟨hgrows, (step_inside_iff h hok).2 hgrows, htwo.trans (capacity_le_step h op)⟩
  exact (Run.each_iff hkeep (fun s op _ hok _ => hok) hnew ha).mpr ha

/-- **Where the pool writes.** A pool with any number of slots from one on writes only to slots below its capacity, and
returns only ids below it, exactly if it does not grow a single slot. -/
theorem run_inside_iff (array : ByteMem) (size : ℕ) {prealloc : ℕ} (hpre : 1 ≤ prealloc)
    (hbound : alignTo (size + 4) 4 * prealloc < 2 ^ 32) (ops : List PoolOp)
    (ha : Run.Admissible step Ok (withPrealloc array size prealloc) ops) :
    (WritesInside (newWithPrealloc array size prealloc) (newLogged array size prealloc).2 ∧
      ∀ before op after, ops = before ++ op :: after →
        StepInside (Run.exec step (withPrealloc array size prealloc) before) op) ↔
      Run.Admissible step GrowsFromTwo (withPrealloc array size prealloc) ops := by
  have hreached := withPrealloc_reachedLow array size hpre hbound
  have hnew : WritesInside (newWithPrealloc array size prealloc) (newLogged array size prealloc).2 := by
    rw [newLogged_writes array size hpre]
    refine (writesInside_headers (newWithPrealloc array size prealloc) _ hreached.1.eleSize_pos).mpr fun i hi => ?_
    rw [newWithPrealloc_capacity]
    exact List.mem_range.mp hi
  rw [← Run.admissible_iff]
  have heach : Run.Admissible step StepInside (withPrealloc array size prealloc) ops ↔
      Run.Admissible step GrowsFromTwo (withPrealloc array size prealloc) ops := by
    refine Run.each_iff (fun s op h hok hcond => ?_) (fun s op h hok => (step_inside_iff h hok).1.mp) hreached ha
    obtain ⟨hiff, hkeep⟩ := step_inside_iff h hok
    exact ⟨hiff.mpr hcond, hkeep hcond⟩
  rw [heach]
  exact ⟨And.right, fun hgrows => ⟨hnew, hgrows⟩⟩

/-- A pool of one slot that is freed before the next id is wanted. -/
theorem run_inside_iff_reused :
    WritesInside (newWithPrealloc (fun _ => 0) 4 1) (newLogged (fun _ => 0) 4 1).2 ∧
      ∀ before op after, [.alloc, .free 0, .alloc] = before ++ op :: after →
        StepInside (Run.exec step (withPrealloc (fun _ => 0) 4 1) before) op :=
  (run_inside_iff (fun _ => 0) 4 (by decide) (by decide) [.alloc, .free 0, .alloc] (by decide +kernel)).mpr
    (by decide +kernel)

/-- The second id of a pool of one slot: the `int` of a third slot is written, and its number is returned next. -/
theorem not_inside_single :
    Run.Admissible step Ok (withPrealloc (fun _ => 0) 4 1) [.alloc, .alloc, .alloc] ∧
      ¬ StepInside (Run.exec step (withPrealloc (fun _ => 0) 4 1) [.alloc]) .alloc ∧
      ¬ StepInside (Run.exec step (withPrealloc (fun _ => 0) 4 1) [.alloc, .alloc]) .alloc := by
  refine ⟨by decide +kernel, fun h => ?_, fun h => ?_⟩
  · obtain ⟨id, hid, hoffset⟩ := h.1 16 (by decide +kernel)
    revert id
    decide +kernel
  · have hlt := h.2.2
    revert hlt
    decide +kernel

end PoolHistory

end Fcitx
