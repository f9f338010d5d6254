/-
# Freeing any integer

`fcitx_obj_pool_free_id` is given an `int` that need not be an id. It multiplies it
with the size of a slot and keeps the lower 32 bits as the offset, so an integer that
is far away from all ids may end up at a slot that is allocated. The runs here are of
a pool of any size, and free any integer.

Key definitions: `PoolHistory.withPrealloc`, `PoolHistory.Reached`, `PoolHistory.FreesChecked`,
`PoolHistory.FreeSafe`.
Key theorems: `PoolHistory.step_reached`, `PoolHistory.Reached.freesChecked_iff`,
`PoolHistory.Reached.freeSafe_of_low`, `PoolHistory.run_freesChecked_iff`.
-/
import Fcitx.Utils.PoolRun

namespace Fcitx

namespace ObjPool

/-- The offset of an id as an `unsigned int`. -/
def cutOffset (pool : ObjPool) (i : ℤ) : ℕ := pool.offset i % 2 ^ 32

/-- At the cut offset of `i` is the `int` of an allocated slot. -/
def Hits (pool : ObjPool) (i : ℤ) : Prop :=
  pool.cutOffset i < pool.alloc ∧ pool.array.readInt (pool.cutOffset i) = allocedId

instance (pool : ObjPool) (i : ℤ) : Decidable (pool.Hits i) := inferInstanceAs (Decidable (_ ∧ _))

variable {pool : ObjPool} {free : List ℕ}

theorem freeId_of_hits {i : ℤ} (h : pool.Hits i) : pool.freeId i =
    (true, { pool with array := pool.array.writeInt (pool.cutOffset i) pool.nextFree, nextFree := i }) := by
  obtain ⟨hlt, halloced⟩ := h
  rw [cutOffset] at hlt halloced
  rw [freeId, if_neg (by omega), if_neg (fun hne => hne halloced), cutOffset]

theorem freeId_of_not_hits {i : ℤ} (h : ¬ pool.Hits i) : pool.freeId i = (false, pool) := by
  rw [Hits, cutOffset] at h
  rw [freeId]
  split
  · rfl
  · next hlt => rw [if_pos fun halloced => h ⟨by omega, halloced⟩]

/-- A slot behind the first `2 ^ 32` bytes has a cut offset that is before its own. -/
theorem SlotInv.cutOffset_le (h : SlotInv pool free) {id : ℕ} (hid : id < pool.capacity)
    (hhigh : 2 ^ 32 ≤ id * pool.eleSize) : pool.cutOffset id + 4 ≤ id * pool.eleSize := by
  rw [cutOffset, h.offset_eq hid]
  omega

end ObjPool

namespace PoolHistory

open ObjPool ByteMem

/-- `fcitx_obj_pool_new_with_prealloc` -/
def withPrealloc (array : ByteMem) (size prealloc : ℕ) : PoolHistory :=
  ⟨newWithPrealloc array size prealloc, [], []⟩

/-- What is promised of a step: there is memory and a number for a new slot where the pool grows, and
only live objects are written to. Any integer is freed. -/
def Promised (s : PoolHistory) : PoolOp → Prop
  | .alloc => s.pool.nextFree < 0 → Growth s.pool
  | .free _ => True
  | .store id offset bytes => id ∈ s.live ∧ offset + bytes.length ≤ s.pool.eleSize - 4

instance (pool : ObjPool) : Decidable (Growth pool) :=
  decidable_of_iff (2 ≤ pool.capacity ∧ pool.capacity * 2 ≤ 2 ^ 31 ∧ pool.alloc * 2 < 2 ^ 63)
    ⟨fun ⟨htwo, hfew, hbytes⟩ => ⟨htwo, hfew, hbytes⟩, fun ⟨htwo, hfew, hbytes⟩ => ⟨htwo, hfew, hbytes⟩⟩

instance (s : PoolHistory) : ∀ op, Decidable (s.Promised op)
  | .alloc => inferInstanceAs (Decidable (_ → _))
  | .free _ => inferInstanceAs (Decidable True)
  | .store .. => inferInstanceAs (Decidable (_ ∧ _))

/-- A live id is put in front of the free list, and anything else is refused. -/
def FreesChecked (s : PoolHistory) (i : ℤ) : Prop :=
  if i ∈ s.live then (s.pool.freeId i).1 = true ∧ (s.pool.freeId i).2.freeIds = i :: s.pool.freeIds
  else s.pool.freeId i = (false, s.pool)

/-- The offset of a live id is not cut; that of another integer is not cut to one where the `int` of an
allocated slot is. -/
def FreeSafe (s : PoolHistory) (i : ℤ) : Prop :=
  if i ∈ s.live then i * s.pool.eleSize < 2 ^ 32 else ¬ s.pool.Hits i

instance (s : PoolHistory) (i : ℤ) : Decidable (s.FreeSafe i) :=
  inferInstanceAs (Decidable (if i ∈ s.live then i * s.pool.eleSize < 2 ^ 32 else ¬ s.pool.Hits i))

/-- A step that frees an integer does it safely. -/
def StepSafe (s : PoolHistory) : PoolOp → Prop
  | .free i => s.FreeSafe i
  | _ => True

instance (s : PoolHistory) : ∀ op, Decidable (s.StepSafe op)
  | .alloc => inferInstanceAs (Decidable True)
  | .free i => inferInstanceAs (Decidable (s.FreeSafe i))
  | .store .. => inferInstanceAs (Decidable True)

/-- What holds of every pool in a run. -/
def Reached (s : PoolHistory) : Prop := (∃ free, SlotInv s.pool free) ∧ Tracked s

variable {s : PoolHistory}

/-! ### The pools that are reached -/

theorem withPrealloc_reached (array : ByteMem) (size : ℕ) {prealloc : ℕ} (hpre : 1 ≤ prealloc)
    (hfew : prealloc ≤ 2 ^ 31) (hbytes : alignTo (size + 4) 4 * prealloc < 2 ^ 63) :
    Reached (withPrealloc array size prealloc) := by
  have hslots := newWithPrealloc_slots array size hpre hfew hbytes
  refine ⟨⟨_, hslots⟩, fun id => ?_, fun id hid => absurd hid List.not_mem_nil⟩
  constructor
  · exact fun hid => absurd hid List.not_mem_nil
  · rintro ⟨i, -, hi⟩
    obtain ⟨hlt, hnot⟩ := hslots.live_iff.mp hi
    rw [newWithPrealloc_capacity] at hlt
    exact absurd (List.mem_range.mpr hlt) hnot

theorem Reached.alloc (h : Reached s) (hroom : s.pool.nextFree < 0 → Growth s.pool) : Reached (s.step .alloc) := by
  obtain ⟨⟨free, hslots⟩, htracked⟩ := h
  obtain ⟨n, hn, halloc, hslots'⟩ := hslots.allocId_spec hroom
  exact ⟨hslots', htracked.alloc hn halloc⟩

theorem Reached.free (h : Reached s) {i : ℤ} (hsafe : s.FreeSafe i) : Reached (s.step (.free i)) := by
  obtain ⟨⟨free, hslots⟩, htracked⟩ := h
  rw [FreeSafe] at hsafe
  split_ifs at hsafe with hlive
  · obtain ⟨k, rfl, hk⟩ := (htracked.live i).mp hlive
    obtain ⟨-, hslots', -, hcap, hlive'⟩ := hslots.freeId_spec hk (by exact_mod_cast hsafe)
    exact ⟨⟨_, hslots'⟩, htracked.free_live hcap hlive'⟩
  · rw [step_free_not_live hlive (freeId_of_not_hits hsafe)]
    exact ⟨⟨free, hslots⟩, htracked⟩

theorem Reached.store (h : Reached s) {id : ℤ} {offset : ℕ} {bytes : Bytes} (hid : id ∈ s.live)
    (hle : offset + bytes.length ≤ s.pool.eleSize - 4) : Reached (s.step (.store id offset bytes)) := by
  obtain ⟨⟨free, hslots⟩, htracked⟩ := h
  obtain ⟨i, rfl, hi⟩ := (htracked.live id).mp hid
  have hheader := store_header hslots hi.1 hle
  exact ⟨⟨free, hslots.of_header fun j _ => hheader j⟩, htracked.store hheader⟩

theorem step_reached (h : Reached s) {op : PoolOp} (hok : s.Promised op) (hsafe : s.StepSafe op) :
    Reached (s.step op) := by
  cases op with
  | alloc => exact h.alloc hok
  | free i => exact h.free hsafe
  | store id offset bytes => exact h.store hok.1 hok.2

/-! ### One call -/

/-- An id whose offset is cut is not put in front of the free list: its own `int` stays. -/
theorem not_freed_of_high {free : List ℕ} (h : SlotInv s.pool free) {k : ℕ} (hk : s.pool.Live k)
    (hhigh : 2 ^ 32 ≤ k * s.pool.eleSize) (hhits : s.pool.Hits k) :
    (s.pool.freeId k).2.freeIds ≠ (k : ℤ) :: s.pool.freeIds := by
  have hcut := h.cutOffset_le hk.1 hhigh
  obtain ⟨fuel, hfuel⟩ : ∃ fuel, s.pool.capacity = fuel + 1 := Nat.exists_eq_succ_of_ne_zero (by have := hk.1; omega)
  have hint : (s.pool.array.writeInt (s.pool.cutOffset k) s.pool.nextFree).readInt (s.pool.offset k) = allocedId := by
    rw [h.offset_eq hk.1]
    rw [← hk.2, header]
    refine readInt_congr fun a _ => store_of_notMem (Or.inr ?_)
    rw [length_leBytes]
    omega
  rw [freeId_of_hits hhits, h.freeIds_eq, freeIds]
  show IdList.walk (fun id => (s.pool.array.writeInt (s.pool.cutOffset k) s.pool.nextFree).readInt (s.pool.offset id))
    (s.pool.capacity + 1) k ≠ _
  -- the second id of the list is the `int` of slot `k`, which is no number of a slot
  rw [IdList.walk, if_neg (by omega), hint, hfuel, IdList.walk, if_neg (by decide)]
  intro heq
  have hmem : allocedId ∈ free.map (Nat.cast : ℕ → ℤ) := by
    rw [← (List.cons.inj heq).2]
    exact List.mem_cons_self
  obtain ⟨j, -, hj⟩ := List.mem_map.mp hmem
  rw [allocedId] at hj
  omega

theorem Reached.freesChecked_iff (h : Reached s) (i : ℤ) : s.FreesChecked i ↔ s.FreeSafe i := by
  obtain ⟨⟨free, hslots⟩, htracked⟩ := h
  rw [FreesChecked, FreeSafe]
  split_ifs with hlive
  · obtain ⟨k, rfl, hk⟩ := (htracked.live i).mp hlive
    constructor
    · rintro ⟨hok, hfree⟩
      by_contra hhigh
      have hhits : s.pool.Hits k := by
        by_contra hnot
        rw [freeId_of_not_hits hnot] at hok
        cases hok
      exact not_freed_of_high hslots hk (by exact_mod_cast not_lt.mp hhigh) hhits hfree
    · intro hlow
      obtain ⟨hok, hslots', -⟩ := hslots.freeId_spec hk (by exact_mod_cast hlow)
      rw [hslots'.freeIds_eq, hslots.freeIds_eq, List.map_cons]
      exact ⟨hok, rfl⟩
  · constructor
    · intro heq hhits
      rw [freeId_of_hits hhits] at heq
      cases heq
    · exact freeId_of_not_hits

/-- An integer from `0` on whose offset has 32 bits is safe. -/
theorem Reached.freeSafe_of_low (h : Reached s) {i : ℕ} (hlow : i * s.pool.eleSize < 2 ^ 32) :
    s.FreeSafe i := by
  obtain ⟨⟨free, hslots⟩, htracked⟩ := h
  rw [FreeSafe]
  split_ifs with hlive
  · exact_mod_cast hlow
  · rintro ⟨hlt, halloced⟩
    have hcut : s.pool.cutOffset i = i * s.pool.eleSize := by
      have hcast : ((i : ℤ) * s.pool.eleSize) = ((i * s.pool.eleSize : ℕ) : ℤ) := by push_cast; rfl
      rw [cutOffset, offset, hcast]
      omega
    rw [hcut] at hlt halloced
    rw [hslots.alloc_eq] at hlt
    have hi : i < s.pool.capacity := Nat.lt_of_mul_lt_mul_right hlt
    exact hlive (htracked.live_iff.mpr ⟨hi, halloced⟩)

/-! ### Runs -/

/-- **Freeing an integer is checked** in every pool that is reached, for exactly the integers that are safe. -/
theorem run_freesChecked_iff (array : ByteMem) (size : ℕ) {prealloc : ℕ} (hpre : 1 ≤ prealloc)
    (hfew : prealloc ≤ 2 ^ 31) (hbytes : alignTo (size + 4) 4 * prealloc < 2 ^ 63) (ops : List PoolOp)
    (ha : Run.Admissible step Promised (withPrealloc array size prealloc) ops)
    (hsafe : Run.Admissible step StepSafe (withPrealloc array size prealloc) ops) (i : ℤ) :
    FreesChecked (Run.exec step (withPrealloc array size prealloc) ops) i ↔
      FreeSafe (Run.exec step (withPrealloc array size prealloc) ops) i := by
  have hreached : Reached (Run.exec step (withPrealloc array size prealloc) ops) := by
    refine Run.invariant (fun s op h hok => ?_) (withPrealloc_reached array size hpre hfew hbytes) (ha.and hsafe)
    exact step_reached h hok.1 hok.2
  exact hreached.freesChecked_iff i

/-- With slots of eight bytes, `2 ^ 29` is refused when slot `0` is free. -/
theorem run_freesChecked_iff_refused :
    FreesChecked (Run.exec step (withPrealloc (fun _ => 0) 4 4) [.alloc, .alloc, .free 0, .free (-1)]) 536870912 :=
  (run_freesChecked_iff (fun _ => 0) 4 (by decide) (by decide) (by decide) [.alloc, .alloc, .free 0, .free (-1)]
    (by decide +kernel) (by decide +kernel) 536870912).mpr (by decide +kernel)

/-- When slot `0` is allocated it is freed under that number. -/
theorem not_freesChecked_wrapped :
    Run.Admissible step Promised (withPrealloc (fun _ => 0) 4 4) [.alloc] ∧
      ¬ FreesChecked (Run.exec step (withPrealloc (fun _ => 0) 4 4) [.alloc]) 536870912 := by
  refine ⟨by decide +kernel, fun h => ?_⟩
  have hnot : (536870912 : ℤ) ∉ (Run.exec step (withPrealloc (fun _ => 0) 4 4) [.alloc]).live := by decide +kernel
  rw [FreesChecked, if_neg hnot] at h
  have hrefused := congrArg Prod.fst h
  revert hrefused
  decide +kernel

end PoolHistory

end Fcitx
