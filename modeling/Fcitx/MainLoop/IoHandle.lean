/-
# The handles of IO events

`fcitx_mainloop_register_io_event` returns a pointer to the event inside of the
pool of the handler table. A registration that finds the pool full has it grow
by `fcitx_utils_realloc`, which may move it to another block: then the handles
that were returned before point into a block that is gone. The events of a timeout
have memory of their own, those of the pool do not. The pool starts with four
slots, so that handles are good as long as no fifth event is registered beside
four others.

Key definitions: `Handle`, `HandleLoop`, `HandleLoop.registerIoEvent`,
`HandleLoop.removeIoEvent`, `HandleLoop.Valid`, `HandleLoop.Tracks`.
Key theorems: `HandleLoop.Tracks.register`, `HandleLoop.Tracks.remove`,
`HandleLoop.handles_valid_iff`.
-/
import Fcitx.MainLoop.Io
import Fcitx.Utils.HandlerObjects

namespace Fcitx

open ByteMem

/-- A `FcitxIOEvent*`: a block of memory and a place in it. -/
structure Handle where
  block : ℕ
  offset : ℕ
deriving DecidableEq

def intBytes (z : ℤ) : Bytes := leBytes 4 (z % 0x100000000).toNat

/-- The first fields of a `FcitxIOEvent`: `callback`, `fd`, four bytes that nobody uses,
`destroyNotify` and `userdata`. -/
def ioEventHead (callback : ℕ) (fd : ℤ) (destroyNotify userdata : ℕ) : Bytes :=
  leBytes 8 callback ++ intBytes fd ++ List.replicate 4 0 ++ leBytes 8 destroyNotify ++ leBytes 8 userdata

/-- The bytes of a `FcitxIOEvent`, which ends with `id` and `refcount`. -/
def ioEventBytes (callback : ℕ) (fd : ℤ) (destroyNotify userdata : ℕ) (id refcount : ℤ) : Bytes :=
  ioEventHead callback fd destroyNotify userdata ++ intBytes id ++ intBytes refcount

/-- `offsetof(FcitxIOEvent, id)` -/
def offsetofId : ℕ := 32

/-- `offsetof(FcitxIOEvent, refcount)` -/
def offsetofRefcount : ℕ := 36

/-- A handle that a registration returned, with the event it stored. -/
structure Held where
  handle : Handle
  callback : ℕ
  fd : ℤ
  destroyNotify : ℕ
  userdata : ℕ
  id : ℤ

/-- The event of a registration, as it was stored. -/
def Held.bytes (e : Held) : Bytes := ioEventBytes e.callback e.fd e.destroyNotify e.userdata e.id 1

/-- The IO events with the memory they lie in: the block of the pool's array, the
calls of `fcitx_utils_realloc`, the handles that were not removed, and whether freed
memory was read. -/
structure HandleLoop where
  ioHandler : HandlerTable
  block : ℕ
  reallocs : ℕ
  held : List Held
  undefined : Bool

/-- The calls on the loop; `remove k` is through the handle at place `k` of those that are held. -/
inductive HandleOp where
  | register (callback : ℕ) (fd : ℤ) (flag : ℕ) (destroyNotify userdata : ℕ) (malloc : KeyPtr)
  | remove (k : ℕ)
deriving DecidableEq

theorem length_intBytes (z : ℤ) : (intBytes z).length = 4 := length_leBytes 4 _

theorem length_ioEventHead (callback : ℕ) (fd : ℤ) (destroyNotify userdata : ℕ) :
    (ioEventHead callback fd destroyNotify userdata).length = offsetofId := by
  simp [ioEventHead, length_intBytes, offsetofId]

namespace HandleLoop

/-- `fcitx_mainloop_new`; `array` is the memory of the pool. -/
def new (array : ByteMem) : HandleLoop where
  ioHandler := HandlerTable.new array sizeofIoEvent true true true
  block := 0
  reallocs := 0
  held := []
  undefined := false

/-- `fcitx_mainloop_register_io_event`: the handle, and the id of its event. `moves n` says
whether the `n`-th `fcitx_utils_realloc` returns a new block. -/
def registerIoEvent (moves : ℕ → Bool) (s : HandleLoop) (callback : ℕ) (fd : ℤ) (flag : ℕ)
    (destroyNotify userdata : ℕ) (malloc : KeyPtr) : Handle × ℤ × HandleLoop :=
  let grows := s.ioHandler.objs.nextFree < 0
  -- the id of the event is set below
  let event := ioEventBytes callback fd destroyNotify userdata 0 1
  let (id, table) := s.ioHandler.append (pollKey fd (flagToLibc flag)) event malloc
  let block := if grows ∧ moves s.reallocs = true then s.block + 1 else s.block
  let pevent : Handle := ⟨block, table.address id⟩
  let table := table.writeObj (pevent.offset + offsetofId) (intBytes id)
  (pevent, id, { s with
    ioHandler := table, block := block, reallocs := if grows then s.reallocs + 1 else s.reallocs })

/-- `fcitx_mainloop_remove_io_event` -/
def removeIoEvent (s : HandleLoop) (event : Handle) : HandleLoop :=
  if event.block ≠ s.block then { s with undefined := true }
  else
    let old := s.ioHandler.objs.array.readInt (event.offset + offsetofRefcount)
    let table := s.ioHandler.writeObj (event.offset + offsetofRefcount) (intBytes (old - 1))
    if old ≠ 1 then { s with ioHandler := table }
    else
      let id := table.objs.array.readInt (event.offset + offsetofId)
      { s with ioHandler := (table.removeByIdFull id).getD table }

/-- `fcitx_mainloop_remove_io_event` by an owner that gives its handle up. -/
def unregister (s : HandleLoop) (event : Handle) : HandleLoop :=
  { s.removeIoEvent event with held := s.held.eraseP fun e => e.handle = event }

def step (moves : ℕ → Bool) (s : HandleLoop) : HandleOp → HandleLoop
  | .register callback fd flag destroyNotify userdata malloc =>
    let (handle, id, s) := s.registerIoEvent moves callback fd flag destroyNotify userdata malloc
    { s with held := s.held ++ [⟨handle, callback, fd, destroyNotify, userdata, id⟩] }
  | .remove k =>
    match s.held[k]? with
    | none => s
    | some e => { s.removeIoEvent e.handle with held := s.held.eraseIdx k }

/-- What the allocator promises for a new key, and that a handle is removed once. -/
def Ok (s : HandleLoop) : HandleOp → Prop
  | .register callback fd flag destroyNotify userdata malloc =>
    s.ioHandler.Ok (.append (pollKey fd (flagToLibc flag))
      (ioEventBytes callback fd destroyNotify userdata 0 1) malloc)
  | .remove k => k < s.held.length

instance (s : HandleLoop) : ∀ op, Decidable (s.Ok op)
  | .register callback fd flag destroyNotify userdata malloc => inferInstanceAs (Decidable (s.ioHandler.Ok
      (.append (pollKey fd (flagToLibc flag)) (ioEventBytes callback fd destroyNotify userdata 0 1) malloc)))
  | .remove k => inferInstanceAs (Decidable (k < _))

/-! ### Good handles -/

/-- The bytes of the event behind a handle; a block that is gone has none. -/
def load (s : HandleLoop) (handle : Handle) : Option Bytes :=
  if handle.block = s.block then some (s.ioHandler.objs.array.load handle.offset sizeofIoEvent) else none

/-- What `fcitx_handler_table_get_by_id` returns. -/
def address (s : HandleLoop) (id : ℤ) : Handle := ⟨s.block, s.ioHandler.address id⟩

/-- The handle is the place of its event in the table, and reading it gives that event. -/
def Denotes (s : HandleLoop) (e : Held) : Prop :=
  e.id ∈ s.ioHandler.live ∧ e.handle = s.address e.id ∧ s.load e.handle = some e.bytes

/-- Removing through the handle takes its event out of the table, and no other one. -/
def Reaches (s : HandleLoop) (e : Held) : Prop :=
  (s.removeIoEvent e.handle).undefined = false ∧
    ∀ i, i ∈ (s.removeIoEvent e.handle).ioHandler.live ↔ i ∈ s.ioHandler.live ∧ i ≠ e.id

/-- Every handle that was not removed is good. -/
def Valid (s : HandleLoop) : Prop :=
  s.undefined = false ∧ ∀ e ∈ s.held, Denotes s e ∧ Reaches s e

/-- The handles are those of the live events, and each is where its event is. -/
structure Tracks (s : HandleLoop) : Prop where
  table : HandlerTable.Inv s.ioHandler
  objSize : s.ioHandler.objSize = sizeofIoEvent
  capacity : initSize ≤ s.ioHandler.objs.capacity
  defined : s.undefined = false
  nodup : (s.held.map Held.id).Nodup
  live : ∀ i, i ∈ s.ioHandler.live ↔ i ∈ s.held.map Held.id
  handle : ∀ e ∈ s.held, e.handle = s.address e.id
  bytes : ∀ e ∈ s.held, s.ioHandler.obj e.id = e.bytes

variable {moves : ℕ → Bool} {s s' : HandleLoop} {e : Held} {op : HandleOp} {ops : List HandleOp}

theorem Tracks.mem_live (h : Tracks s) (he : e ∈ s.held) : e.id ∈ s.ioHandler.live :=
  (h.live e.id).mpr (List.mem_map_of_mem he)

/-- As many events are live as handles are held. -/
theorem Tracks.length_eq (h : Tracks s) : s.ioHandler.live.length = s.held.length := by
  have hperm := (List.perm_ext_iff_of_nodup h.table.live_nodup h.nodup).mpr h.live
  rw [hperm.length_eq, List.length_map]

/-- The pool is full when it has as many slots as handles are held. -/
theorem Tracks.full_iff (h : Tracks s) :
    s.ioHandler.objs.nextFree < 0 ↔ s.ioHandler.objs.capacity ≤ s.held.length := by
  rw [h.table.full_iff, h.length_eq]

theorem new_tracks (array : ByteMem) : Tracks (new array) := by
  have hlive : (new array).ioHandler.live = [] := rfl
  refine ⟨⟨_, _, HandlerTable.new_inv array sizeofIoEvent true true true (by decide)⟩, rfl, ?_, rfl,
    List.nodup_nil, fun i => ?_, fun e he => ?_, fun e he => ?_⟩
  · have hcap : (new array).ioHandler.objs.capacity = initSize :=
      Nat.mul_div_cancel_left initSize (show 0 < 60 by decide)
    exact Nat.le_of_eq hcap.symm
  · rw [hlive]
    rfl
  · exact absurd he List.not_mem_nil
  · exact absurd he List.not_mem_nil

/-! ### Registering -/

/-- Where the event of a new handle lies, and what the registration leaves alone. -/
theorem Tracks.register (h : Tracks s) {callback : ℕ} {fd : ℤ} {flag destroyNotify userdata : ℕ}
    {malloc : KeyPtr} (hok : s.Ok (.register callback fd flag destroyNotify userdata malloc))
    (hstays : s.ioHandler.objs.nextFree < 0 → moves s.reallocs = false) :
    Tracks (s.step moves (.register callback fd flag destroyNotify userdata malloc)) := by
  set event := ioEventBytes callback fd destroyNotify userdata 0 1 with hevent
  set key := pollKey fd (flagToLibc flag) with hkey
  have hok' : s.ioHandler.Ok (.append key event malloc) := hok
  obtain ⟨hinv, hout, -, -⟩ := HandlerTable.append_ids h.table hok'
  obtain ⟨hobj, hobjs⟩ := HandlerTable.append_obj h.table hok'
  obtain ⟨hsame, halloc⟩ := HandlerTable.append_same s.ioHandler key event malloc
  have hlive := fun i => HandlerTable.mem_live_append (i := i) h.table hok'
  set table := (s.ioHandler.append key event malloc).2 with htable
  set id := (s.ioHandler.append key event malloc).1 with hid
  have hidlive : id ∈ table.live := (hlive id).mpr (Or.inr rfl)
  -- the id is written into the event
  obtain ⟨hinv', hlive', hobj', hobjs'⟩ := HandlerTable.writeObj_spec hinv hidlive hobj
    ((length_intBytes id).trans (length_intBytes 0).symm)
  rw [length_ioEventHead] at hinv' hlive' hobj' hobjs'
  have hwrite := HandlerTable.writeObj_same table (table.address id + offsetofId) (intBytes id)
  set table' := table.writeObj (table.address id + offsetofId) (intBytes id) with htable'
  set s' := s.step moves (.register callback fd flag destroyNotify userdata malloc) with hs'
  have hhandler : s'.ioHandler = table' := rfl
  have hblock : s'.block = s.block := if_neg fun hmove => Bool.false_ne_true ((hstays hmove.1).symm.trans hmove.2)
  have haddress : ∀ i, s'.address i = s.address i := by
    intro i
    rw [address, address, hblock, hhandler, (hsame.trans hwrite.same).address]
  have hheld : s'.held = s.held ++ [⟨s'.address id, callback, fd, destroyNotify, userdata, id⟩] := by
    rw [address, hhandler, hwrite.same.address]
    rfl
  have hold : ∀ e ∈ s.held, e.id ≠ id := fun e he heq => hout (heq ▸ h.mem_live he)
  refine ⟨hinv', ?_, ?_, h.defined, ?_, fun i => ?_, fun e he => ?_, fun e he => ?_⟩
  · rw [hhandler, hwrite.same.objSize, hsame.objSize]
    exact h.objSize
  · have hle : s.ioHandler.objs.alloc ≤ table.objs.alloc := by
      rw [halloc]
      split
      · omega
      · exact Nat.le_refl _
    have hcap : s.ioHandler.objs.capacity ≤ table.objs.capacity := by
      rw [ObjPool.capacity, ObjPool.capacity, hsame.eleSize]
      exact Nat.div_le_div_right hle
    rw [hhandler, hwrite.capacity]
    exact Nat.le_trans h.capacity hcap
  · rw [hheld, List.map_append, List.map_singleton]
    refine List.nodup_append.mpr ⟨h.nodup, List.nodup_singleton _, fun i hi j hj hij => ?_⟩
    obtain ⟨e, he, rfl⟩ := List.mem_map.mp hi
    exact hold e he (hij.trans (List.mem_singleton.mp hj))
  · rw [hhandler, hlive', hlive, h.live, hheld, List.map_append, List.mem_append, List.map_singleton,
      List.mem_singleton]
  · rw [hheld] at he
    rw [haddress]
    rcases List.mem_append.mp he with he | he
    · exact h.handle e he
    · rw [List.mem_singleton.mp he, haddress]
  · rw [hheld] at he
    rw [hhandler]
    rcases List.mem_append.mp he with he | he
    · have hmem := h.mem_live he
      rw [hobjs' e.id ((hlive e.id).mpr (Or.inl hmem)) (hold e he), hobjs e.id hmem]
      exact h.bytes e he
    · rw [List.mem_singleton.mp he]
      exact hobj'

/-! ### Removing -/

/-- **Removing through a good handle** takes its event out of the table. -/
theorem Tracks.removeIoEvent (h : Tracks s) (he : e ∈ s.held) :
    HandlerTable.SameAlloc s.ioHandler (s.removeIoEvent e.handle).ioHandler ∧
      HandlerTable.Inv (s.removeIoEvent e.handle).ioHandler ∧
      (s.removeIoEvent e.handle).undefined = false ∧ (s.removeIoEvent e.handle).block = s.block ∧
      (∀ i, i ∈ (s.removeIoEvent e.handle).ioHandler.live ↔ i ∈ s.ioHandler.live ∧ i ≠ e.id) ∧
      ∀ i ∈ s.ioHandler.live, i ≠ e.id → (s.removeIoEvent e.handle).ioHandler.obj i = s.ioHandler.obj i := by
  have hmem := h.mem_live he
  have hbytes := h.bytes e he
  have hlen : (ioEventHead e.callback e.fd e.destroyNotify e.userdata ++ intBytes e.id).length =
      offsetofRefcount := by
    rw [List.length_append, length_ioEventHead, length_intBytes]
    rfl
  have hid := h.table.lt_of_live hmem
  -- the counter is 1
  have hload : s.ioHandler.objs.array.load (s.ioHandler.address e.id) s.ioHandler.objSize =
      (ioEventHead e.callback e.fd e.destroyNotify e.userdata ++ intBytes e.id) ++ intBytes 1 ++ [] := by
    rw [List.append_nil]
    exact hbytes
  have hold := readInt_of_load (by decide) (by decide) hload
  rw [hlen] at hold
  -- it is counted down, and the id is read
  obtain ⟨hinv, hlive, hobj, hobjs⟩ := HandlerTable.writeObj_spec h.table hmem hload
    ((length_intBytes (1 - 1)).trans (length_intBytes 1).symm)
  rw [hlen] at hinv hlive hobj hobjs
  have hwrite := HandlerTable.writeObj_same s.ioHandler (s.ioHandler.address e.id + offsetofRefcount)
    (intBytes (1 - 1))
  set table := s.ioHandler.writeObj (s.ioHandler.address e.id + offsetofRefcount) (intBytes (1 - 1)) with htable
  have hload' : table.objs.array.load (s.ioHandler.address e.id) table.objSize =
      ioEventHead e.callback e.fd e.destroyNotify e.userdata ++ intBytes e.id ++ (intBytes (1 - 1) ++ []) := by
    rw [← hwrite.same.address, ← List.append_assoc]
    exact hobj
  have hread := readInt_of_load (by omega) (by omega) hload'
  rw [length_ioEventHead] at hread
  have hres : s.removeIoEvent e.handle =
      { s with ioHandler := (table.removeByIdFull e.id).getD table } := by
    have hold' : s.ioHandler.objs.array.readInt ((s.address e.id).offset + offsetofRefcount) = 1 := hold
    have hread' : table.objs.array.readInt ((s.address e.id).offset + offsetofId) = e.id := hread
    rw [HandleLoop.removeIoEvent, h.handle e he, if_neg (fun hne => hne rfl)]
    dsimp only
    rw [hold', if_neg (fun hne => hne rfl)]
    exact congrArg (fun id => { s with ioHandler := (table.removeByIdFull id).getD table }) hread'
  have hmem' : e.id ∈ table.live := by
    rw [hlive]
    exact hmem
  obtain ⟨hinv', -, -⟩ := HandlerTable.removeByIdFull_ids hinv hmem'
  rw [hres]
  refine ⟨hwrite.trans (HandlerTable.removeByIdFull_same table e.id), hinv', h.defined, rfl, fun i => ?_,
    fun i hi hne => ?_⟩
  · rw [HandlerTable.mem_live_remove hinv hmem', hlive]
  · rw [← hobjs i hi hne]
    exact HandlerTable.removeByIdFull_obj hinv hmem' (by rw [hlive]; exact hi) hne

/-- What `remove` does to the handles. -/
theorem Tracks.remove (h : Tracks s) {k : ℕ} (hok : s.Ok (.remove k)) : Tracks (s.step moves (.remove k)) := by
  have hk : k < s.held.length := hok
  have he : s.held[k] ∈ s.held := List.getElem_mem hk
  obtain ⟨hsame, hinv, hdefined, hblock, hlive, hobjs⟩ := h.removeIoEvent he
  set e := s.held[k] with hedef
  have hstep : s.step moves (.remove k) = { s.removeIoEvent e.handle with held := s.held.eraseIdx k } := by
    rw [step, List.getElem?_eq_getElem hk]
  -- the ids that are left are the others
  have hids : (s.held.eraseIdx k).map Held.id = (s.held.map Held.id).erase e.id := by
    have hk' : k < (s.held.map Held.id).length := by
      rw [List.length_map]
      exact hk
    have herase := h.nodup.erase_getElem k hk'
    rw [List.getElem_map] at herase
    rw [herase, List.eraseIdx_map]
  have hmem : ∀ d ∈ s.held.eraseIdx k, d ∈ s.held ∧ d.id ≠ e.id := by
    intro d hd
    have hid : d.id ∈ (s.held.map Held.id).erase e.id := by
      rw [← hids]
      exact List.mem_map_of_mem hd
    exact ⟨List.mem_of_mem_eraseIdx hd, fun heq => (List.Nodup.not_mem_erase h.nodup) (heq ▸ hid)⟩
  rw [hstep]
  refine ⟨hinv, hsame.same.objSize.trans h.objSize, ?_, hdefined, ?_, fun i => ?_, fun d hd => ?_, fun d hd => ?_⟩
  · rw [hsame.capacity]
    exact h.capacity
  · show ((s.held.eraseIdx k).map Held.id).Nodup
    rw [hids]
    exact h.nodup.erase e.id
  · show i ∈ (s.removeIoEvent e.handle).ioHandler.live ↔ i ∈ (s.held.eraseIdx k).map Held.id
    rw [hlive, h.live, hids, h.nodup.mem_erase_iff, and_comm]
  · obtain ⟨hd, -⟩ := hmem d hd
    show d.handle = ⟨(s.removeIoEvent e.handle).block, (s.removeIoEvent e.handle).ioHandler.address d.id⟩
    rw [hblock, hsame.same.address]
    exact h.handle d hd
  · obtain ⟨hd, hne⟩ := hmem d hd
    show (s.removeIoEvent e.handle).ioHandler.obj d.id = _
    rw [hobjs d.id (h.mem_live hd) hne]
    exact h.bytes d hd

/-- No two events share a handle. -/
theorem Tracks.handle_ne (h : Tracks s) {d : Held} (hd : d ∈ s.held) (he : e ∈ s.held) (hne : d.id ≠ e.id) :
    d.handle ≠ e.handle := by
  rw [h.handle d hd, h.handle e he]
  intro heq
  exact hne (h.table.address_inj (h.mem_live hd) (h.mem_live he) (congrArg Handle.offset heq))

/-- **Giving a handle up** removes its event, and the others are held as before. -/
theorem Tracks.unregister (h : Tracks s) {front back : List Held} (hheld : s.held = front ++ e :: back) :
    Tracks (s.unregister e.handle) ∧ (s.unregister e.handle).held = front ++ back := by
  have he : e ∈ s.held := hheld ▸ List.mem_append_right _ List.mem_cons_self
  have hfront : ∀ d ∈ front, d.handle ≠ e.handle := by
    intro d hd
    refine h.handle_ne (hheld ▸ List.mem_append_left _ hd) he fun heq => ?_
    have hnd := h.nodup
    rw [hheld, List.map_append, List.map_cons, List.nodup_append] at hnd
    exact hnd.2.2 d.id (List.mem_map_of_mem hd) e.id List.mem_cons_self heq
  have herase : (s.unregister e.handle).held = front ++ back := by
    show s.held.eraseP _ = _
    rw [hheld, List.eraseP_append_right _ (by simpa using hfront), List.eraseP_cons_of_pos (by simp)]
  have hk : front.length < s.held.length := by
    rw [hheld, List.length_append, List.length_cons]
    omega
  have hstep : s.step (fun _ => false) (.remove front.length) = s.unregister e.handle := by
    have hget : s.held[front.length]? = some e := by
      rw [hheld, List.getElem?_append_right (Nat.le_refl _), Nat.sub_self, List.getElem?_cons_zero]
    have hidx : s.held.eraseIdx front.length = (s.unregister e.handle).held := by
      rw [herase, hheld, List.eraseIdx_append_of_length_le (Nat.le_refl _), Nat.sub_self, List.eraseIdx_cons_zero]
    rw [step, hget]
    dsimp only
    rw [hidx]
    rfl
  have htracks : Tracks (s.step (fun _ => false) (.remove front.length)) := h.remove hk
  exact ⟨hstep ▸ htracks, herase⟩

/-- Handles that are tracked are good. -/
theorem Tracks.valid (h : Tracks s) : Valid s := by
  refine ⟨h.defined, fun e he => ⟨⟨h.mem_live he, h.handle e he, ?_⟩, ?_⟩⟩
  · rw [load, h.handle e he]
    show (if s.block = s.block then some (s.ioHandler.objs.array.load (s.ioHandler.address e.id) sizeofIoEvent)
      else none) = _
    rw [if_pos rfl, ← h.bytes e he, ← h.objSize]
    rfl
  · obtain ⟨-, -, hdefined, -, hlive, -⟩ := h.removeIoEvent he
    exact ⟨hdefined, hlive⟩

/-! ### Runs -/

/-- The step does not move the pool to another block. -/
def Stays (moves : ℕ → Bool) (s : HandleLoop) : HandleOp → Prop
  | .register .. => s.ioHandler.objs.nextFree < 0 → moves s.reallocs = false
  | .remove _ => True

/-- A registration finds fewer handles than the pool had slots at the start. -/
def Few (s : HandleLoop) : HandleOp → Prop
  | .register .. => s.held.length < initSize
  | .remove _ => True

instance (moves : ℕ → Bool) (s : HandleLoop) : ∀ op, Decidable (s.Stays moves op)
  | .register .. => inferInstanceAs (Decidable (_ → _))
  | .remove _ => .isTrue trivial

instance (s : HandleLoop) : ∀ op, Decidable (s.Few op)
  | .register .. => inferInstanceAs (Decidable (_ < _))
  | .remove _ => .isTrue trivial

theorem Tracks.step (h : Tracks s) (hok : s.Ok op) (hstays : s.Stays moves op) : Tracks (s.step moves op) := by
  cases op with
  | register callback fd flag destroyNotify userdata malloc => exact h.register hok hstays
  | remove k => exact h.remove hok

/-- **A registration that moves the pool** leaves handles that point to the old block. -/
theorem Tracks.not_valid (h : Tracks s) (hmoves : ¬ s.Stays moves op) : ¬ Valid (s.step moves op) := by
  cases op with
  | remove k => exact absurd trivial hmoves
  | register callback fd flag destroyNotify userdata malloc =>
    obtain ⟨hfull, hmove⟩ := Classical.not_imp.mp hmoves
    have hpos : 0 < s.held.length :=
      Nat.lt_of_lt_of_le (by decide) (Nat.le_trans h.capacity (h.full_iff.mp hfull))
    have he : s.held[0] ∈ s.held := List.getElem_mem hpos
    set e := s.held[0] with hedef
    set s' := s.step moves (.register callback fd flag destroyNotify userdata malloc) with hs'
    have hblock : s'.block = s.block + 1 := if_pos ⟨hfull, by simpa using hmove⟩
    intro hvalid
    have he' : e ∈ s'.held := List.mem_append_left _ he
    have hhandle : e.handle.block = s'.block := congrArg Handle.block (hvalid.2 e he').1.2.1
    rw [h.handle e he, hblock] at hhandle
    exact absurd hhandle (Nat.ne_of_lt (Nat.lt_succ_self s.block))

theorem Tracks.run (h : Tracks s) (ha : Run.Admissible (HandleLoop.step moves) Ok s ops)
    (hs : Run.Admissible (HandleLoop.step moves) (Stays moves) s ops) :
    Tracks (Run.exec (HandleLoop.step moves) s ops) :=
  Run.invariant (P := Tracks) (fun _ _ h hok => h.step hok.1 hok.2) h (ha.and hs)

/-- **Handles along a run** from a state that has good ones. -/
theorem Tracks.valid_iff (h : Tracks s) (ha : Run.Admissible (HandleLoop.step moves) Ok s ops) :
    (∀ before, before <+: ops → Valid (Run.exec (HandleLoop.step moves) s before)) ↔
      Run.Admissible (HandleLoop.step moves) (Stays moves) s ops := by
  induction ops generalizing s with
  | nil =>
    refine iff_of_true (fun before hbefore => ?_) trivial
    rw [List.prefix_nil.mp hbefore]
    exact h.valid
  | cons op ops ih =>
    obtain ⟨hok, ha'⟩ := ha
    constructor
    · intro hvalid
      have hstays : s.Stays moves op := by
        by_contra hmoves
        exact h.not_valid hmoves (hvalid [op] (by simp))
      refine ⟨hstays, (ih (h.step hok hstays) ha').mp fun before hbefore => ?_⟩
      exact hvalid (op :: before) (List.prefix_cons_inj op |>.mpr hbefore)
    · rintro ⟨hstays, hrest⟩ before hbefore
      cases before with
      | nil => exact h.valid
      | cons op' before =>
        obtain ⟨rfl, hbefore'⟩ := List.cons_prefix_cons.mp hbefore
        exact (ih (h.step hok hstays) ha').mpr hrest before hbefore'

/-- A step that finds a free slot leaves the number of slots alone. -/
theorem Tracks.capacity_eq (h : Tracks s) (hfree : ∀ callback fd flag destroyNotify userdata malloc,
      op = .register callback fd flag destroyNotify userdata malloc → ¬ s.ioHandler.objs.nextFree < 0)
    (hok : s.Ok op) : (s.step moves op).ioHandler.objs.capacity = s.ioHandler.objs.capacity := by
  cases op with
  | remove k =>
    have hk : k < s.held.length := hok
    obtain ⟨hsame, -⟩ := h.removeIoEvent (List.getElem_mem hk)
    rw [HandleLoop.step, List.getElem?_eq_getElem hk]
    exact hsame.capacity
  | register callback fd flag destroyNotify userdata malloc =>
    have hnone := hfree callback fd flag destroyNotify userdata malloc rfl
    obtain ⟨hsame, halloc⟩ := HandlerTable.append_same s.ioHandler (pollKey fd (flagToLibc flag))
      (ioEventBytes callback fd destroyNotify userdata 0 1) malloc
    rw [if_neg hnone] at halloc
    exact ((HandlerTable.writeObj_same _ _ _).capacity).trans (HandlerTable.SameAlloc.capacity ⟨hsame, halloc⟩)

/-- In a pool that never grew, there is a free slot as long as few handles are held. -/
theorem Tracks.stays_iff_few (h : Tracks s) (hcap : s.ioHandler.objs.capacity = initSize)
    (hmoves : ∀ n, moves n = true) (ha : Run.Admissible (HandleLoop.step moves) Ok s ops) :
    Run.Admissible (HandleLoop.step moves) (Stays moves) s ops ↔
      Run.Admissible (HandleLoop.step moves) Few s ops := by
  induction ops generalizing s with
  | nil => exact Iff.rfl
  | cons op ops ih =>
    obtain ⟨hok, ha'⟩ := ha
    have hhere : s.Stays moves op ↔ s.Few op := by
      cases op with
      | remove k => exact Iff.rfl
      | register callback fd flag destroyNotify userdata malloc =>
        show (s.ioHandler.objs.nextFree < 0 → moves s.reallocs = false) ↔ s.held.length < initSize
        rw [h.full_iff, hcap, hmoves]
        simp
    have hnext : s.Stays moves op → (s.step moves op).ioHandler.objs.capacity = initSize := by
      intro hstays
      refine (h.capacity_eq (fun callback fd flag destroyNotify userdata malloc heq hfull => ?_) hok).trans hcap
      rw [heq] at hstays
      exact absurd ((hmoves s.reallocs).symm.trans (hstays hfull)) (by decide)
    constructor
    · rintro ⟨hstays, hrest⟩
      exact ⟨hhere.mp hstays, (ih (h.step hok hstays) (hnext hstays) ha').mp hrest⟩
    · rintro ⟨hfew, hrest⟩
      have hstays := hhere.mpr hfew
      exact ⟨hstays, (ih (h.step hok hstays) (hnext hstays) ha').mpr hrest⟩

/-- **The handles of IO events.** In a run from a new loop all handles that were not
removed are good at every moment exactly when no registration has the pool moved to
another block. Where `fcitx_utils_realloc` moves it each time, that is: when every
registration finds fewer than four events. -/
theorem handles_valid_iff (array : ByteMem) (moves : ℕ → Bool) (ops : List HandleOp)
    (ha : Run.Admissible (step moves) Ok (new array) ops) :
    ((∀ before, before <+: ops → Valid (Run.exec (step moves) (new array) before)) ↔
      Run.Admissible (step moves) (Stays moves) (new array) ops) ∧
      ((∀ n, moves n = true) →
        ((∀ before, before <+: ops → Valid (Run.exec (step moves) (new array) before)) ↔
          Run.Admissible (step moves) Few (new array) ops)) := by
  have h := new_tracks array
  have hcap : (new array).ioHandler.objs.capacity = initSize :=
    Nat.mul_div_cancel_left initSize (show 0 < 60 by decide)
  refine ⟨h.valid_iff ha, fun hmoves => ?_⟩
  rw [h.valid_iff ha]
  exact h.stays_iff_few hcap hmoves ha

/-- Four registrations. -/
def fourRegistrations : List HandleOp :=
  [.register 8 3 1 0 0 0, .register 8 4 1 0 0 1, .register 8 5 1 0 0 2, .register 8 6 1 0 0 3]

/-- Registering four events, removing one and registering another one. -/
theorem handles_valid_iff_four :
    Valid (Run.exec (step fun _ => true) (new fun _ => 0)
      (fourRegistrations ++ [.remove 1, .register 8 7 1 0 0 4])) :=
  ((handles_valid_iff (fun _ => 0) (fun _ => true) (fourRegistrations ++ [.remove 1, .register 8 7 1 0 0 4])
    (by decide +kernel)).2 fun _ => rfl).mpr (by decide +kernel) _ (List.prefix_refl _)

/-- With a fifth event the first handle points to a block that is gone. -/
theorem fifth_register_moves :
    Run.Admissible (step fun _ => true) Ok (new fun _ => 0) (fourRegistrations ++ [.register 8 7 1 0 0 4]) ∧
      ¬ Valid (Run.exec (step fun _ => true) (new fun _ => 0)
        (fourRegistrations ++ [.register 8 7 1 0 0 4])) := by
  have hok : Run.Admissible (step fun _ => true) Ok (new fun _ => 0) fourRegistrations := by decide +kernel
  have hstays : Run.Admissible (step fun _ => true) (Stays fun _ => true) (new fun _ => 0)
      fourRegistrations := by decide +kernel
  have hmoves : ¬ Stays (fun _ => true) (Run.exec (step fun _ => true) (new fun _ => 0) fourRegistrations)
      (.register 8 7 1 0 0 4) := by decide +kernel
  refine ⟨by decide +kernel, ?_⟩
  rw [Run.exec_append, Run.exec_cons, Run.exec_nil]
  exact ((new_tracks fun _ => 0).run hok hstays).not_valid hmoves

end HandleLoop

end Fcitx
