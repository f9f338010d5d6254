/-
# The memory pool

`fcitx-utils/memory-pool.c`: memory is taken from the first chunk that has room,
or from a new one of a multiple of 8k. A chunk with 16 bytes or less left goes
from `chunks` to `fullchunks`, and the last chunk takes its place. Addresses and
sizes are numbers below 2^64 and are computed modulo that, as `uintptr_t` is.

A history is a pool with the blocks it gave out and the chunks it made so far.

Key definitions: `MemoryPool`, `MemoryPool.allocAlign`, `MemoryHistory`,
`MemoryHistory.Unwrapped`, `MemoryLaw`.
Key theorems: `allocAlign_cases`, `MemoryInv.step`, `run_memoryLaw_iff`.
-/
import Fcitx.Lib.Arena
import Fcitx.Lib.Run
import Mathlib.Data.List.Induction

namespace Fcitx

/-- `FCITX_MEMORY_POOL_PAGE_SIZE` -/
def memoryPoolPageSize : ℕ := 8 * 1024

/-- `FCITX_MEMORY_CHUNK_FULL_SIZE` -/
def memoryChunkFullSize : ℤ := 16

/-- The number of addresses. -/
def addresses : ℕ := 0x10000000000000000

/-- `FcitxMemoryChunk` -/
structure MemoryChunk where
  cur : ℕ
  «end» : ℕ
  memory : ℕ
deriving DecidableEq

/-- `FcitxMemoryPool` -/
structure MemoryPool where
  fullchunks : List MemoryChunk
  chunks : List MemoryChunk
deriving DecidableEq

/-- `memory_align_ptr`: `fcitx_utils_align_to` on an address, with `sizeof(int)`. -/
def memoryAlignPtr (p : ℕ) : ℕ :=
  let left := p % 4
  if left ≠ 0 then (p + 4 - left) % addresses else p

/-- `utarray_remove_quick`: the last element takes the place `pos`. -/
def removeQuick {A : Type} (a : List A) (pos : ℕ) : List A :=
  match a.getLast? with
  | some last => (a.set pos last).dropLast
  | none => a

namespace MemoryChunk

/-- Where the loop would put a block in a chunk. -/
def result (chunk : MemoryChunk) (align : ℤ) : ℕ :=
  if align ≠ 0 then memoryAlignPtr chunk.cur else chunk.cur

/-- `chunk->end - chunk->cur`, a `ptrdiff_t`. -/
def left (chunk : MemoryChunk) : ℤ := ((chunk.end : ℤ) - chunk.cur).bmod addresses

end MemoryChunk

namespace MemoryPool

/-- `fcitx_memory_pool_new` -/
def new : MemoryPool := ⟨[], []⟩

/-- The loop of `fcitx_memory_pool_alloc_align`: the place of the first chunk that
has room, the block, and the chunk without it. -/
def findChunk (size : ℕ) (align : ℤ) : List MemoryChunk → Option (ℕ × ℕ × MemoryChunk)
  | [] => none
  | chunk :: chunks =>
    let result := chunk.result align
    let new := (result + size) % addresses
    if new ≤ chunk.end then some (0, result, { chunk with cur := new })
    else (findChunk size align chunks).map fun r => (r.1 + 1, r.2)

/-- The size of a new chunk. -/
def chunkSize (size : ℕ) : ℕ :=
  ((size + memoryPoolPageSize - 1) % addresses / memoryPoolPageSize * memoryPoolPageSize) % addresses

/-- The end of `fcitx_memory_pool_alloc_align`: `chunk` stands at `idx` of `chunks`. -/
def settle (pool : MemoryPool) (chunks : List MemoryChunk) (idx : ℕ) (chunk : MemoryChunk) : MemoryPool :=
  if chunk.left ≤ memoryChunkFullSize then
    { fullchunks := pool.fullchunks ++ [chunk], chunks := removeQuick chunks idx }
  else { pool with chunks := chunks }

/-- `fcitx_memory_pool_alloc_align`; `memory` is what `fcitx_utils_malloc0` returns when
it is called. -/
def allocAlign (pool : MemoryPool) (size : ℕ) (align : ℤ) (memory : ℕ) : ℕ × MemoryPool :=
  match findChunk size align pool.chunks with
  | some (idx, result, chunk) => (result, pool.settle (pool.chunks.set idx chunk) idx chunk)
  | none =>
    let c : MemoryChunk := ⟨(memory + size) % addresses, (memory + chunkSize size) % addresses, memory⟩
    (memory, pool.settle (pool.chunks ++ [c]) pool.chunks.length c)

/-- `fcitx_memory_pool_alloc` -/
def alloc (pool : MemoryPool) (size memory : ℕ) : ℕ × MemoryPool := pool.allocAlign size 0 memory

end MemoryPool

/-! ### Histories -/

/-- A block that was given out, and whether it was asked to be aligned. -/
structure MemoryBlock where
  span : Span
  align : ℤ
deriving DecidableEq

/-- A pool with the blocks it gave out and the memory of the chunks it made. -/
structure MemoryHistory where
  pool : MemoryPool
  blocks : List MemoryBlock
  created : List Span
deriving DecidableEq

/-- A call of `fcitx_memory_pool_alloc_align`, or of `fcitx_memory_pool_alloc` with 0 for `align`;
`memory` is the address the allocator would return. -/
structure AllocOp where
  size : ℕ
  align : ℤ
  memory : ℕ

namespace MemoryHistory

open MemoryPool

def new : MemoryHistory := ⟨.new, [], []⟩

def step (s : MemoryHistory) (op : AllocOp) : MemoryHistory :=
  let (result, pool) := s.pool.allocAlign op.size op.align op.memory
  { pool
    blocks := s.blocks ++ [⟨⟨result, op.size⟩, op.align⟩]
    created :=
      if (findChunk op.size op.align s.pool.chunks).isNone then s.created ++ [⟨op.memory, chunkSize op.size⟩]
      else s.created }

/-- The size can be rounded up to pages, and a chunk that the allocator is asked for is
aligned, lies below the last address and overlaps no other one. -/
def Ok (s : MemoryHistory) (op : AllocOp) : Prop :=
  op.size + 8191 < addresses ∧
    (findChunk op.size op.align s.pool.chunks = none →
      op.memory % 4 = 0 ∧ op.memory + chunkSize op.size < addresses ∧
        ∀ c ∈ s.created, Span.Apart ⟨op.memory, chunkSize op.size⟩ c)

instance (s : MemoryHistory) (op : AllocOp) : Decidable (s.Ok op) := inferInstanceAs (Decidable (_ ∧ _))

/-- No block that the loop tries ends past the last address. -/
def noWrap (size : ℕ) (align : ℤ) : List MemoryChunk → Bool
  | [] => true
  | chunk :: chunks =>
    chunk.result align + size < addresses &&
      (chunk.result align + size ≤ chunk.end || noWrap size align chunks)

/-- The loop of the call tries no block that ends past the last address. -/
def Unwrapped (s : MemoryHistory) (op : AllocOp) : Prop := noWrap op.size op.align s.pool.chunks = true

instance (s : MemoryHistory) (op : AllocOp) : Decidable (s.Unwrapped op) :=
  inferInstanceAs (Decidable (_ = true))

end MemoryHistory

/-- **The law of the memory pool.** -/
structure MemoryLaw (s : MemoryHistory) : Prop where
  /-- no two blocks overlap -/
  apart : (s.blocks.map MemoryBlock.span).Pairwise Span.Apart
  /-- every block lies in one chunk -/
  inside : ∀ b ∈ s.blocks, ∃ c ∈ s.created, b.span.Within c
  aligned : ∀ b ∈ s.blocks, b.align ≠ 0 → b.span.start % 4 = 0
  /-- every chunk is once in `chunks` or once in `fullchunks` -/
  chunks : ((s.pool.chunks ++ s.pool.fullchunks).map fun c => (⟨c.memory, c.end - c.memory⟩ : Span)).Perm
    s.created

/-! ### What a call does -/

theorem removeQuick_perm {A : Type} {pre post : List A} {a : A} :
    (removeQuick (pre ++ a :: post) pre.length).Perm (pre ++ post) := by
  have hset : ∀ b, (pre ++ a :: post).set pre.length b = pre ++ b :: post := by
    intro b
    rw [List.set_append_right _ _ (Nat.le_refl _), Nat.sub_self, List.set_cons_zero]
  unfold removeQuick
  simp only [hset]
  cases post using List.reverseRecOn with
  | nil => simp
  | append_singleton post last =>
    have hlast : (pre ++ a :: (post ++ [last])).getLast? = some last := by
      rw [← List.cons_append, ← List.append_assoc, List.getLast?_concat]
    rw [hlast]
    show (pre ++ last :: (post ++ [last])).dropLast.Perm _
    rw [← List.cons_append, ← List.append_assoc, List.dropLast_concat]
    exact (List.perm_middle.trans (List.perm_append_singleton last _).symm).trans (by simp)

namespace MemoryPool

variable {size : ℕ} {align : ℤ} {chunks : List MemoryChunk} {idx result : ℕ} {chunk : MemoryChunk}

/-- The chunk that the loop finds. -/
theorem findChunk_eq_some (h : findChunk size align chunks = some (idx, result, chunk)) :
    ∃ pre c post, chunks = pre ++ c :: post ∧ idx = pre.length ∧ result = c.result align ∧
      chunk = { c with cur := (result + size) % addresses } ∧ (result + size) % addresses ≤ c.end := by
  induction chunks generalizing idx with
  | nil => cases h
  | cons c chunks ih =>
    rw [findChunk] at h
    by_cases hroom : (c.result align + size) % addresses ≤ c.end
    · rw [if_pos hroom] at h
      obtain ⟨rfl, rfl, rfl⟩ := by simpa using h
      exact ⟨[], c, chunks, rfl, rfl, rfl, rfl, hroom⟩
    · rw [if_neg hroom] at h
      obtain ⟨⟨i, r, c'⟩, hfind, heq⟩ := Option.map_eq_some_iff.mp h
      obtain ⟨rfl, rfl, rfl⟩ := by simpa using heq
      obtain ⟨pre, d, post, rfl, rfl, hrest⟩ := ih hfind
      exact ⟨c :: pre, d, post, rfl, rfl, hrest⟩

/-- A chunk that is found without passing the last address has room. -/
theorem lt_of_findChunk (hn : MemoryHistory.noWrap size align chunks = true)
    (h : findChunk size align chunks = some (idx, result, chunk)) : result + size < addresses := by
  induction chunks generalizing idx chunk with
  | nil => cases h
  | cons c chunks ih =>
    simp only [MemoryHistory.noWrap, Bool.and_eq_true, Bool.or_eq_true, decide_eq_true_eq] at hn
    obtain ⟨hlt, hrest⟩ := hn
    rw [findChunk] at h
    by_cases hroom : (c.result align + size) % addresses ≤ c.end
    · rw [if_pos hroom] at h
      obtain ⟨-, rfl, -⟩ := by simpa using h
      exact hlt
    · rw [if_neg hroom] at h
      obtain ⟨⟨i, r, c'⟩, hfind, heq⟩ := Option.map_eq_some_iff.mp h
      obtain ⟨-, rfl, -⟩ := by simpa using heq
      rw [Nat.mod_eq_of_lt hlt] at hroom
      exact ih (hrest.resolve_left hroom) hfind

/-- A block that ends past the last address is taken for one that fits. -/
theorem findChunk_of_wrap (hle : ∀ c ∈ chunks, c.result align ≤ c.end) (hend : ∀ c ∈ chunks, c.end < addresses)
    (hsize : size < addresses) (hn : MemoryHistory.noWrap size align chunks = false) :
    ∃ idx result chunk, findChunk size align chunks = some (idx, result, chunk) ∧
      addresses ≤ result + size := by
  induction chunks with
  | nil => cases hn
  | cons c chunks ih =>
    have hc := hle c List.mem_cons_self
    have hce := hend c List.mem_cons_self
    rw [findChunk]
    by_cases hlt : c.result align + size < addresses
    · by_cases hroom : c.result align + size ≤ c.end
      · simp [MemoryHistory.noWrap, hlt, hroom] at hn
      · have hrest : MemoryHistory.noWrap size align chunks = false := by
          simpa [MemoryHistory.noWrap, hlt, hroom] using hn
        obtain ⟨i, r, c', hfind, hwrap⟩ := ih (fun d hd => hle d (List.mem_cons_of_mem _ hd))
          (fun d hd => hend d (List.mem_cons_of_mem _ hd)) hrest
        rw [Nat.mod_eq_of_lt hlt, if_neg hroom, hfind]
        exact ⟨i + 1, r, c', rfl, hwrap⟩
    · have hmod : (c.result align + size) % addresses = c.result align + size - addresses := by
        rw [Nat.mod_eq_sub_mod (by omega), Nat.mod_eq_of_lt (by omega)]
      rw [hmod, if_pos (by omega)]
      exact ⟨0, _, _, rfl, by omega⟩

/-- Where a chunk ends up does not matter to what all chunks are together. -/
theorem settle_perm (pool : MemoryPool) (pre post : List MemoryChunk) (c : MemoryChunk) :
    ((pool.settle (pre ++ c :: post) pre.length c).chunks ++
      (pool.settle (pre ++ c :: post) pre.length c).fullchunks).Perm
        (c :: (pre ++ post ++ pool.fullchunks)) := by
  unfold settle
  split
  · show (removeQuick _ _ ++ (pool.fullchunks ++ [c])).Perm _
    rw [← List.append_assoc]
    refine (List.perm_append_singleton c _).trans (List.Perm.cons c ?_)
    exact removeQuick_perm.append_right _
  · exact List.perm_middle.append_right _

/-- The chunks that stay in `chunks` have more than 16 bytes left. -/
theorem mem_settle {pool : MemoryPool} {pre post : List MemoryChunk} {c d : MemoryChunk}
    (h : d ∈ (pool.settle (pre ++ c :: post) pre.length c).chunks) :
    d ∈ pre ++ post ∨ d = c ∧ memoryChunkFullSize < c.left := by
  unfold settle at h
  split at h
  · exact Or.inl (removeQuick_perm.mem_iff.mp h)
  · next hleft =>
    rcases List.mem_cons.mp (List.perm_middle.mem_iff.mp h) with rfl | hd
    · exact Or.inr ⟨rfl, Int.not_le.mp hleft⟩
    · exact Or.inl hd

end MemoryPool

namespace MemoryPool

/-- A new chunk holds the block it is made for. -/
theorem le_chunkSize {size : ℕ} (h : size + 8191 < addresses) : size ≤ chunkSize size := by
  have hsum : (size + memoryPoolPageSize - 1) % addresses = size + 8191 := Nat.mod_eq_of_lt h
  have hdiv : (size + 8191) / memoryPoolPageSize * memoryPoolPageSize ≤ size + 8191 :=
    Nat.div_mul_le_self _ _
  rw [chunkSize, hsum, Nat.mod_eq_of_lt (by omega)]
  show size ≤ (size + 8191) / 8192 * 8192
  omega

end MemoryPool

namespace MemoryChunk

variable {c : MemoryChunk} {align : ℤ}

/-- The range of a chunk with its free part. -/
def arena (c : MemoryChunk) : Arena := ⟨⟨c.memory, c.end - c.memory⟩, c.cur⟩

theorem left_gt (hcur : c.cur ≤ c.end) (h : memoryChunkFullSize < c.left) : c.cur + 16 < c.end := by
  unfold left memoryChunkFullSize addresses at *
  rw [Int.bmod_def] at h
  split at h <;> omega

/-- Aligning stays behind `cur` and short of the end of a chunk with some bytes left. -/
theorem result_spec (hroom : c.cur + 16 < c.end) (hend : c.end < addresses) (align : ℤ) :
    c.cur ≤ c.result align ∧ c.result align ≤ c.cur + 3 ∧ (align ≠ 0 → c.result align % 4 = 0) := by
  unfold result
  split
  · unfold memoryAlignPtr
    dsimp only
    split
    · have hlt : c.cur + 4 - c.cur % 4 < addresses := by omega
      rw [Nat.mod_eq_of_lt hlt]
      omega
    · omega
  · next h => exact ⟨Nat.le_refl _, Nat.le_add_right _ _, fun ha => absurd ha h⟩

end MemoryChunk

/-! ### The invariant -/

/-- What holds of a history whose calls passed no last address. -/
structure MemoryInv (s : MemoryHistory) : Prop where
  packed : Arena.Packed ((s.pool.chunks ++ s.pool.fullchunks).map MemoryChunk.arena)
    (s.blocks.map MemoryBlock.span)
  aligned : ∀ b ∈ s.blocks, b.align ≠ 0 → b.span.start % 4 = 0
  chunks : ((s.pool.chunks ++ s.pool.fullchunks).map fun c => (⟨c.memory, c.end - c.memory⟩ : Span)).Perm
    s.created
  le : ∀ c ∈ s.pool.chunks ++ s.pool.fullchunks, c.memory ≤ c.end
  lt : ∀ c ∈ s.pool.chunks ++ s.pool.fullchunks, c.end < addresses
  room : ∀ c ∈ s.pool.chunks, c.cur + 16 < c.end
  base : ∀ c ∈ s.created, c.start % 4 = 0

namespace MemoryInv

open MemoryPool MemoryHistory

variable {s : MemoryHistory} {op : AllocOp}

theorem law (h : MemoryInv s) : MemoryLaw s := by
  refine ⟨h.packed.blocks_apart, fun b hb => ?_, h.aligned, h.chunks⟩
  obtain ⟨a, ha, hin⟩ := h.packed.within (List.mem_map_of_mem hb)
  obtain ⟨c, hc, rfl⟩ := List.mem_map.mp ha
  exact ⟨_, h.chunks.mem_iff.mp (List.mem_map_of_mem hc), hin⟩

theorem new : MemoryInv MemoryHistory.new :=
  ⟨Arena.packed_nil, fun _ hb => absurd hb List.not_mem_nil, .refl _, fun _ hc => absurd hc List.not_mem_nil,
    fun _ hc => absurd hc List.not_mem_nil, fun _ hc => absurd hc List.not_mem_nil,
    fun _ hc => absurd hc List.not_mem_nil⟩

/-- **Giving out a block** from the chunk `c`, which was there or is new. -/
theorem settle (block : MemoryBlock) (pre post : List MemoryChunk) (c : MemoryChunk) {pool : MemoryPool}
    {created : List Span} {blocks : List MemoryBlock}
    (hpacked : Arena.Packed ((c :: (pre ++ post ++ pool.fullchunks)).map MemoryChunk.arena)
      (blocks.map MemoryBlock.span))
    (haligned : ∀ b ∈ blocks ++ [block], b.align ≠ 0 → b.span.start % 4 = 0)
    (hchunks : ((c :: (pre ++ post ++ pool.fullchunks)).map
      fun c => (⟨c.memory, c.end - c.memory⟩ : Span)).Perm created)
    (hle : ∀ d ∈ c :: (pre ++ post ++ pool.fullchunks), d.memory ≤ d.end)
    (hlt : ∀ d ∈ c :: (pre ++ post ++ pool.fullchunks), d.end < addresses)
    (hroom : ∀ d ∈ pre ++ post, d.cur + 16 < d.end) (hbase : ∀ c ∈ created, c.start % 4 = 0)
    (hlo : c.cur ≤ block.span.start) (hhi : block.span.stop ≤ c.end) :
    MemoryInv
      { pool := pool.settle (pre ++ { c with cur := block.span.stop } :: post) pre.length
          { c with cur := block.span.stop }
        blocks := blocks ++ [block]
        created := created } := by
  set c' : MemoryChunk := { c with cur := block.span.stop } with hc'
  have hcle := hle c List.mem_cons_self
  have hperm := (settle_perm pool pre post c').symm
  have hcarve := hpacked.carve (b := block.span) hlo (by
    show _ ≤ c.memory + (c.end - c.memory)
    omega)
  refine ⟨?_, haligned, ?_, fun d hd => ?_, fun d hd => ?_, fun d hd => ?_, hbase⟩
  · have hblocks : (blocks ++ [block]).map MemoryBlock.span = blocks.map MemoryBlock.span ++ [block.span] :=
      List.map_append
    rw [hblocks]
    exact hcarve.perm (hperm.map MemoryChunk.arena)
  · exact (hperm.symm.map _).trans hchunks
  · rcases List.mem_cons.mp (hperm.mem_iff.mpr hd) with rfl | hd
    · exact hcle
    · exact hle d (List.mem_cons_of_mem _ hd)
  · rcases List.mem_cons.mp (hperm.mem_iff.mpr hd) with rfl | hd
    · exact hlt c List.mem_cons_self
    · exact hlt d (List.mem_cons_of_mem _ hd)
  · rcases mem_settle hd with hd | ⟨rfl, hleft⟩
    · exact hroom d hd
    · exact MemoryChunk.left_gt hhi hleft

/-- **A call that passes no last address keeps the invariant.** -/
theorem step (h : MemoryInv s) (hok : s.Ok op) (hn : s.Unwrapped op) : MemoryInv (s.step op) := by
  obtain ⟨hsize, hfresh⟩ := hok
  have hsize' : op.size < addresses := by omega
  cases hfind : findChunk op.size op.align s.pool.chunks with
  | some found =>
    obtain ⟨idx, result, chunk⟩ := found
    have hlt := lt_of_findChunk hn hfind
    obtain ⟨pre, c, post, hchunks, rfl, rfl, rfl, hend⟩ := findChunk_eq_some hfind
    rw [Nat.mod_eq_of_lt hlt] at hfind hend
    have hc : c ∈ s.pool.chunks := by
      rw [hchunks]
      exact List.mem_append_right _ List.mem_cons_self
    have hall : (c :: (pre ++ post ++ s.pool.fullchunks)).Perm (s.pool.chunks ++ s.pool.fullchunks) := by
      rw [hchunks]
      exact (List.perm_middle.append_right _).symm
    obtain ⟨hlo, -, halign⟩ := MemoryChunk.result_spec (h.room c hc) (h.lt c (List.mem_append_left _ hc)) op.align
    have hstep : s.step op =
        { pool := s.pool.settle (pre ++ { c with cur := c.result op.align + op.size } :: post) pre.length
            { c with cur := c.result op.align + op.size }
          blocks := s.blocks ++ [⟨⟨c.result op.align, op.size⟩, op.align⟩]
          created := s.created } := by
      rw [MemoryHistory.step, allocAlign, hfind]
      dsimp only
      rw [hchunks, List.set_append_right _ _ (Nat.le_refl _), Nat.sub_self, List.set_cons_zero]
      rfl
    rw [hstep]
    refine settle ⟨⟨c.result op.align, op.size⟩, op.align⟩ pre post c (h.packed.perm (hall.symm.map _)) ?_
      ((hall.map _).trans h.chunks) (fun d hd => h.le d (hall.mem_iff.mp hd))
      (fun d hd => h.lt d (hall.mem_iff.mp hd)) (fun d hd => ?_) h.base hlo hend
    · intro b hb
      rcases List.mem_append.mp hb with hb | hb
      · exact h.aligned b hb
      · rw [List.mem_singleton.mp hb]
        exact halign
    · refine h.room d ?_
      rw [hchunks]
      exact List.perm_middle.mem_iff.mpr (List.mem_cons_of_mem _ hd)
  | none =>
    obtain ⟨halign, hlt, hapart⟩ := hfresh hfind
    have hle := le_chunkSize hsize
    have hmod : (op.memory + op.size) % addresses = op.memory + op.size := Nat.mod_eq_of_lt (by omega)
    have hmod' : (op.memory + chunkSize op.size) % addresses = op.memory + chunkSize op.size :=
      Nat.mod_eq_of_lt hlt
    set c : MemoryChunk := ⟨op.memory, op.memory + chunkSize op.size, op.memory⟩ with hc
    have hstep : s.step op =
        { pool := s.pool.settle (s.pool.chunks ++ [{ c with cur := op.memory + op.size }])
            s.pool.chunks.length { c with cur := op.memory + op.size }
          blocks := s.blocks ++ [⟨⟨op.memory, op.size⟩, op.align⟩]
          created := s.created ++ [⟨op.memory, chunkSize op.size⟩] } := by
      rw [MemoryHistory.step, allocAlign, hfind]
      dsimp only
      rw [hmod, hmod']
      rfl
    have hspan : (⟨c.memory, c.end - c.memory⟩ : Span) = ⟨op.memory, chunkSize op.size⟩ := by
      rw [hc]
      simp
    have hmem : ∀ d ∈ c :: (s.pool.chunks ++ [] ++ s.pool.fullchunks),
        d = c ∨ d ∈ s.pool.chunks ++ s.pool.fullchunks := by
      intro d hd
      rw [List.append_nil] at hd
      exact List.mem_cons.mp hd
    rw [hstep]
    refine settle ⟨⟨op.memory, op.size⟩, op.align⟩ s.pool.chunks [] c ?_ (fun b hb => ?_) ?_
      (fun d hd => ?_) (fun d hd => ?_) (fun d hd => ?_) (fun d hd => ?_) (Nat.le_refl _) ?_
    · rw [List.append_nil, List.map_cons]
      refine h.packed.grow rfl fun a ha => ?_
      obtain ⟨d, hd, rfl⟩ := List.mem_map.mp ha
      show Span.Apart ⟨c.memory, c.end - c.memory⟩ _
      rw [hspan]
      exact hapart _ (h.chunks.mem_iff.mp (List.mem_map_of_mem hd))
    · rcases List.mem_append.mp hb with hb | hb
      · exact h.aligned b hb
      · rw [List.mem_singleton.mp hb]
        exact fun _ => halign
    · rw [List.append_nil, List.map_cons, hspan]
      exact (List.Perm.cons _ h.chunks).trans (List.perm_append_singleton _ _).symm
    · rcases hmem d hd with rfl | hd
      · exact Nat.le_add_right _ _
      · exact h.le d hd
    · rcases hmem d hd with rfl | hd
      · exact hlt
      · exact h.lt d hd
    · rw [List.append_nil] at hd
      exact h.room d hd
    · rcases List.mem_append.mp hd with hd | hd
      · exact h.base d hd
      · rw [List.mem_singleton.mp hd]
        exact halign
    · show op.memory + op.size ≤ op.memory + chunkSize op.size
      omega

/-- A call that passes the last address gives out a block that lies in no chunk. -/
theorem not_law_of_wrap (h : MemoryInv s) (hok : s.Ok op) (hn : ¬ s.Unwrapped op) :
    ∃ b ∈ (s.step op).blocks, addresses ≤ b.span.stop := by
  have hresult : ∀ c ∈ s.pool.chunks, c.result op.align ≤ c.end := by
    intro c hc
    have hroom := h.room c hc
    have hspec := MemoryChunk.result_spec hroom (h.lt c (List.mem_append_left _ hc)) op.align
    omega
  have hsize : op.size < addresses := Nat.lt_of_le_of_lt (Nat.le_add_right _ _) hok.1
  obtain ⟨idx, result, chunk, hfind, hwrap⟩ := findChunk_of_wrap hresult
    (fun c hc => h.lt c (List.mem_append_left _ hc)) hsize (by simpa [Unwrapped] using hn)
  refine ⟨⟨⟨result, op.size⟩, op.align⟩, ?_, hwrap⟩
  rw [MemoryHistory.step, allocAlign, hfind]
  exact List.mem_append_right _ List.mem_cons_self

end MemoryInv

namespace MemoryHistory

/-- Blocks and chunks stay. -/
theorem mem_blocks_step {s : MemoryHistory} {b : MemoryBlock} (hb : b ∈ s.blocks) (op : AllocOp) :
    b ∈ (s.step op).blocks :=
  List.mem_append_left _ hb

theorem mem_blocks_exec {s : MemoryHistory} {b : MemoryBlock} (hb : b ∈ s.blocks) (ops : List AllocOp) :
    b ∈ (Run.exec step s ops).blocks := by
  induction ops generalizing s with
  | nil => exact hb
  | cons op ops ih => exact ih (mem_blocks_step hb op)

/-- Every chunk ends before the last address. -/
def Bounded (s : MemoryHistory) : Prop := ∀ c ∈ s.created, c.stop < addresses

theorem Bounded.step {s : MemoryHistory} {op : AllocOp} (h : s.Bounded) (hok : s.Ok op) :
    (s.step op).Bounded := by
  intro c hc
  rw [MemoryHistory.step] at hc
  dsimp only at hc
  split at hc
  · next hnone =>
    rcases List.mem_append.mp hc with hc | hc
    · exact h c hc
    · rw [List.mem_singleton.mp hc]
      exact (hok.2 (Option.isNone_iff_eq_none.mp hnone)).2.1
  · exact h c hc

end MemoryHistory

open MemoryHistory

/-- Where a run keeps the law, none of its calls passes the last address. -/
theorem unwrapped_of_law {ops : List AllocOp} {s : MemoryHistory} (h : MemoryInv s) (hb : s.Bounded)
    (ha : Run.Admissible step Ok s ops) (hlaw : MemoryLaw (Run.exec step s ops)) :
    Run.Admissible step Unwrapped s ops := by
  induction ops generalizing s with
  | nil => trivial
  | cons op ops ih =>
    obtain ⟨hok, ha'⟩ := ha
    by_cases hn : s.Unwrapped op
    · exact ⟨hn, ih (h.step hok hn) (hb.step hok) ha' hlaw⟩
    · -- the block lies in no chunk, and stays
      obtain ⟨b, hmem, hstop⟩ := h.not_law_of_wrap hok hn
      obtain ⟨c, hc, -, hle⟩ := hlaw.inside b (mem_blocks_exec hmem ops)
      have hbounded : (Run.exec step (s.step op) ops).Bounded :=
        Run.invariant (P := Bounded) (fun s op hs hok => hs.step hok) (hb.step hok) ha'
      have hlt := hbounded c hc
      omega

/-- **Memory pool allocations do not overlap** in a run exactly when none of its calls tries a
block that ends past the last address. -/
theorem run_memoryLaw_iff (ops : List AllocOp) (h : Run.Admissible step Ok MemoryHistory.new ops) :
    MemoryLaw (Run.exec step MemoryHistory.new ops) ↔ Run.Admissible step Unwrapped MemoryHistory.new ops := by
  constructor
  · exact unwrapped_of_law .new (fun _ hc => absurd hc List.not_mem_nil) h
  · intro hn
    have hinv : MemoryInv (Run.exec step MemoryHistory.new ops) :=
      Run.invariant (P := MemoryInv) (fun s op hs hop => hs.step hop.1 hop.2) .new (h.and hn)
    exact hinv.law

/-- A chunk for three blocks, an aligned one among them, and one for a larger block. -/
theorem run_memoryLaw_iff_four :
    MemoryLaw (Run.exec step MemoryHistory.new
      [⟨10, 0, 0x10000⟩, ⟨20, 1, 0⟩, ⟨8150, 0, 0⟩, ⟨10000, 1, 0x20000⟩]) :=
  (run_memoryLaw_iff [⟨10, 0, 0x10000⟩, ⟨20, 1, 0⟩, ⟨8150, 0, 0⟩, ⟨10000, 1, 0x20000⟩] (by decide)).mpr
    (by decide)

/-- A size that the chunk cannot hold is found to fit, as the sum passes the last address. -/
theorem not_memoryLaw_wrap :
    Run.Admissible step Ok MemoryHistory.new [⟨10, 0, 0x10000⟩, ⟨0xffffffffffffe000, 0, 0⟩] ∧
      ¬ MemoryLaw (Run.exec step MemoryHistory.new [⟨10, 0, 0x10000⟩, ⟨0xffffffffffffe000, 0, 0⟩]) := by
  refine ⟨by decide, fun h => ?_⟩
  exact absurd (h.inside ⟨⟨0x1000a, 0xffffffffffffe000⟩, 0⟩ (by decide)) (by decide)

end Fcitx
