/-
# The IO events of the main loop

`fcitx-utils/mainloop.c`: the IO events are the objects of a handler table whose
keys are the descriptors with their flags. An event is known by its id in the
table; what lies behind the links of its object is `IoLoop.eventAt`. The ids are
used again, so each registration also has a serial number, by which the log
speaks of it.

Key definitions: `IoEvent`, `IoLoop`, `IoLoop.registerIoEvent`,
`IoLoop.removeIoEvent`, `IoLoop.dispatchIo`, `IoLoop.Holds`, `IoLoop.chain`.
Key theorems: `IoLoop.Holds.act`, `IoLoop.Holds.acts`.
-/
import Fcitx.Lib.Run
import Fcitx.Lib.Visits
import Fcitx.Utils.HandlerChain

namespace Fcitx

open Mark

/-- `FcitxIOEvent`; its callback is a parameter of the dispatch. -/
structure IoEvent where
  fd : ℤ
  /-- whether there is a `destroyNotify` -/
  destroyNotify : Bool
  id : ℤ
  refcount : ℤ
  /-- which registration it comes from -/
  serial : ℕ

/-- `sizeof(FcitxIOEvent)` -/
def sizeofIoEvent : ℕ := 40

/-- `struct pollfd` -/
structure PollFd where
  fd : ℤ
  events : ℕ
  revents : ℕ
deriving DecidableEq

/-- `fcitx_io_event_flag_to_libc_flag`, from `FIOEF_IN`, `FIOEF_OUT`, `FIOEF_ERR` and
`FIOEF_HUP` to `POLLIN`, `POLLOUT`, `POLLERR` and `POLLHUP`. -/
def flagToLibc (flag : ℕ) : ℕ :=
  (if flag.testBit 0 then 1 else 0) ||| (if flag.testBit 1 then 4 else 0) |||
    (if flag.testBit 2 then 8 else 0) ||| (if flag.testBit 3 then 16 else 0)

/-- `fcitx_io_event_flag_from_libc_flag` -/
def flagFromLibc (flag : ℕ) : ℕ :=
  (if flag.testBit 0 then 1 else 0) ||| (if flag.testBit 2 then 2 else 0) |||
    (if flag.testBit 3 then 4 else 0) ||| (if flag.testBit 4 then 8 else 0)

/-- The bytes of a `FcitxPollKey`. -/
def pollKey (fd : ℤ) (flag : ℕ) : Bytes :=
  ByteMem.leBytes 4 (fd % 0x100000000).toNat ++ ByteMem.leBytes 4 flag

/-- The part of `FcitxMainLoop` that the IO events use, with the objects of the
table, what each registration gave as its `destroyNotify`, and the log. -/
structure IoLoop where
  ioHandler : HandlerTable
  eventAt : ℤ → IoEvent
  /-- the number of the next registration -/
  fresh : ℕ
  notifies : ℕ → Bool
  pollfds : List PollFd
  pollRet : ℤ
  quit : Bool
  log : List Mark

/-- What a program does with the IO events; `malloc` is where a new key would lie. -/
inductive IoAction where
  | register (fd : ℤ) (flag : ℕ) (destroyNotify : Bool) (malloc : KeyPtr)
  | remove (event : ℤ)
  | quit
deriving DecidableEq

/-- How a pass ended: it came to its end, `quit` stopped it, or it still goes on. -/
inductive PassEnd where
  | finished
  | stopped
  | unfinished
deriving DecidableEq

namespace IoLoop

/-- The loop of `fcitx_mainloop_new`; `array` is the memory of the pool. -/
def new (array : ByteMem) : IoLoop where
  ioHandler := HandlerTable.new array sizeofIoEvent true true true
  eventAt := fun _ => ⟨0, false, 0, 0, 0⟩
  fresh := 0
  notifies := fun _ => false
  pollfds := []
  pollRet := 0
  quit := false
  log := []

def mark (s : IoLoop) (m : Mark) : IoLoop := { s with log := s.log ++ [m] }

def setEvent (s : IoLoop) (event : ℤ) (v : IoEvent) : IoLoop :=
  { s with eventAt := Function.update s.eventAt event v }

def serial (s : IoLoop) (event : ℤ) : ℕ := (s.eventAt event).serial

/-- `fcitx_io_event_ref` -/
def ref (s : IoLoop) (event : ℤ) : IoLoop :=
  s.setEvent event { s.eventAt event with refcount := (s.eventAt event).refcount + 1 }

/-- `fcitx_io_event_unref`: the count before. -/
def unref (s : IoLoop) (event : ℤ) : ℤ × IoLoop :=
  ((s.eventAt event).refcount,
    s.setEvent event { s.eventAt event with refcount := (s.eventAt event).refcount - 1 })

/-- `fcitx_mainloop_register_io_event`: the id of the new event. -/
def registerIoEvent (s : IoLoop) (fd : ℤ) (flag : ℕ) (destroyNotify : Bool) (malloc : KeyPtr) :
    ℤ × IoLoop :=
  let serial := s.fresh
  let (id, table) := s.ioHandler.append (pollKey fd (flagToLibc flag)) (List.replicate sizeofIoEvent 0) malloc
  let s := { s with
    ioHandler := table, fresh := serial + 1, notifies := Function.update s.notifies serial destroyNotify }
  (id, s.setEvent id ⟨fd, destroyNotify, id, 1, serial⟩)

/-- `ioevent_free` on the object of an id. -/
def ioeventFree (s : IoLoop) (event : ℤ) : List Mark :=
  .freed (s.serial event) :: if (s.eventAt event).destroyNotify then [.destroyed (s.serial event)] else []

/-- `fcitx_handler_table_remove_by_id_full`, whose `free_func` is `ioevent_free`. -/
def removeByIdFull (s : IoLoop) (id : ℤ) : IoLoop :=
  let table := (s.ioHandler.removeByIdFull id).getD s.ioHandler
  let freed := table.freedObjs.drop s.ioHandler.freedObjs.length
  { s with ioHandler := table, log := s.log ++ freed.flatMap fun e => s.ioeventFree e.1 }

/-- `fcitx_mainloop_remove_io_event` -/
def removeIoEvent (s : IoLoop) (event : ℤ) : IoLoop :=
  let (old, s) := s.unref event
  if old = 1 then s.removeByIdFull (s.eventAt event).id else s

/-- An action, taken by the callback of the registration `running`. -/
def act (running : Option ℕ) (s : IoLoop) : IoAction → IoLoop
  | .register fd flag destroyNotify malloc =>
    let (event, s) := s.registerIoEvent fd flag destroyNotify malloc
    s.mark (.registered (s.serial event))
  | .remove event => (s.mark (.removed running (s.serial event))).removeIoEvent event
  | .quit => { s with quit := true }

/-- What a program and its allocator promise: a new key lies where no other one
does and the pool has room, and live events are removed, each at most once. -/
def Allowed (s : IoLoop) : IoAction → Prop
  | .register fd flag _ malloc =>
    s.ioHandler.Ok (.append (pollKey fd (flagToLibc flag)) (List.replicate sizeofIoEvent 0) malloc)
  | .remove event => event ∈ s.ioHandler.live ∧ s.serial event ∉ removals s.log
  | .quit => True

instance (s : IoLoop) : ∀ a, Decidable (s.Allowed a)
  | .register fd flag _ malloc => inferInstanceAs (Decidable (s.ioHandler.Ok
      (.append (pollKey fd (flagToLibc flag)) (List.replicate sizeofIoEvent 0) malloc)))
  | .remove event => inferInstanceAs (Decidable (event ∈ s.ioHandler.live ∧ _))
  | .quit => .isTrue trivial

/-- The actions of a callback, given the event that is called, the flags that are
ready and the loop it finds. -/
abbrev Callback := ℤ → ℕ → IoLoop → List IoAction

/-- Callbacks that keep the promise. -/
def Lawful (callback : Callback) : Prop :=
  ∀ event flags s, Run.Admissible (act (some (s.serial event))) Allowed s (callback event flags s)

/-- `event->callback(event, event->fd, flags, event->userdata)` -/
def invoke (callback : Callback) (flags : ℕ) (s : IoLoop) (event : ℤ) : IoLoop :=
  let r := s.serial event
  let s := s.mark (.called r)
  (Run.exec (act (some r)) s (callback event flags s)).mark (.returned r)

/-- What `fcitx_mainloop_dispatch_io` does when a callback has returned, with the
id of the next event. -/
def settle (s : IoLoop) (event : ℤ) : ℤ × IoLoop :=
  let (old, s) := s.unref event
  if old = 1 then
    let s := s.ref event
    (s.ioHandler.next event, s.removeIoEvent event)
  else (s.ioHandler.next event, s)

/-- The events of one key from an id on, for `fuel` rounds at most. -/
def dispatchKey (callback : Callback) (flags : ℕ) : ℕ → ℤ → IoLoop → PassEnd × IoLoop
  | 0, _, s => (.unfinished, s)
  | fuel + 1, event, s =>
    if event = invalidId then (.finished, s)
    else
      let (next, s) := ((s.ref event).invoke callback flags event).settle event
      if s.quit then (if next = invalidId then .finished else .stopped, s)
      else dispatchKey callback flags fuel next s

/-- The loop over the descriptors, `n` of which are still to be served. -/
def dispatchFds (callback : Callback) (fuel : ℕ) : List PollFd → ℤ → IoLoop → PassEnd × List PollFd × IoLoop
  | [], _, s => (.finished, [], s)
  | pfd :: pollfds, n, s =>
    if s.quit then (.stopped, pfd :: pollfds, s)
    else if n ≤ 0 then (.finished, pfd :: pollfds, s)
    else if pfd.revents = 0 then
      let (done, pollfds, s) := dispatchFds callback fuel pollfds n s
      (done, pfd :: pollfds, s)
    else
      match dispatchKey callback (flagFromLibc pfd.revents) fuel
          (s.ioHandler.firstId (pollKey pfd.fd pfd.events)) s with
      | (.unfinished, s) => (.unfinished, pfd :: pollfds, s)
      | (.stopped, s) => (.stopped, { pfd with revents := 0 } :: pollfds, s)
      | (.finished, s) =>
        let (done, pollfds, s) := dispatchFds callback fuel pollfds (n - 1) s
        (done, { pfd with revents := 0 } :: pollfds, s)

/-- `fcitx_mainloop_dispatch_io`, for `fuel` rounds at most on each descriptor. -/
def dispatchIo (callback : Callback) (fuel : ℕ) (s : IoLoop) : PassEnd × IoLoop :=
  if s.pollRet ≤ 0 then (.finished, s)
  else
    let (done, pollfds, s) := dispatchFds callback fuel s.pollfds s.pollRet s
    (done, { s with pollfds := pollfds })

/-! ### What the operations write -/

/-- The numbers of the registrations on a key, in their order. -/
def chain (s : IoLoop) (key : Bytes) : List ℕ := (s.ioHandler.ids key).map s.serial

/-- The numbers of all registrations that are in the table. -/
def serials (s : IoLoop) : List ℕ := s.ioHandler.live.map s.serial

/-- Two loops that differ in the count of one event and in the marks `u`. -/
structure Touched (s s' : IoLoop) (event : ℤ) (u : List Mark) : Prop where
  table : s'.ioHandler = s.ioHandler
  fresh : s'.fresh = s.fresh
  notifies : s'.notifies = s.notifies
  others : ∀ i, i ≠ event → s'.eventAt i = s.eventAt i
  fields : ∀ i, { s'.eventAt i with refcount := 0 } = { s.eventAt i with refcount := 0 }
  log : s'.log = s.log ++ u

variable {s s' s₁ s₂ : IoLoop} {event i j : ℤ} {u v t t' : List Mark} {key : Bytes} {e : ℕ}
  {running running' : Option ℕ}

theorem Touched.trans (h₁ : Touched s s₁ event u) (h₂ : Touched s₁ s₂ event v) :
    Touched s s₂ event (u ++ v) where
  table := h₂.table.trans h₁.table
  fresh := h₂.fresh.trans h₁.fresh
  notifies := h₂.notifies.trans h₁.notifies
  others i hi := (h₂.others i hi).trans (h₁.others i hi)
  fields i := (h₂.fields i).trans (h₁.fields i)
  log := by rw [h₂.log, h₁.log, List.append_assoc]

theorem Touched.serial (h : Touched s s' event u) (i : ℤ) : s'.serial i = s.serial i :=
  congrArg (·.serial) (h.fields i)

theorem setEvent_eventAt (s : IoLoop) (event : ℤ) (w : IoEvent) (i : ℤ) :
    (s.setEvent event w).eventAt i = if i = event then w else s.eventAt i := Function.update_apply ..

theorem setRefcount_touched (s : IoLoop) (event c : ℤ) :
    Touched s (s.setEvent event { s.eventAt event with refcount := c }) event [] where
  table := rfl
  fresh := rfl
  notifies := rfl
  others i hi := by rw [setEvent_eventAt, if_neg hi]
  fields i := by
    rw [setEvent_eventAt]
    split
    · next hi => rw [hi]
    · rfl
  log := (List.append_nil _).symm

theorem mark_touched (s : IoLoop) (event : ℤ) (m : Mark) : Touched s (s.mark m) event [m] :=
  ⟨rfl, rfl, rfl, fun _ _ => rfl, fun _ => rfl, rfl⟩

theorem ref_touched (s : IoLoop) (event : ℤ) : Touched s (s.ref event) event [] :=
  setRefcount_touched s event _

theorem unref_touched (s : IoLoop) (event : ℤ) : Touched s (s.unref event).2 event [] :=
  setRefcount_touched s event _

theorem ref_refcount (s : IoLoop) (event : ℤ) :
    ((s.ref event).eventAt event).refcount = (s.eventAt event).refcount + 1 := by
  rw [ref, setEvent_eventAt, if_pos rfl]

theorem unref_refcount (s : IoLoop) (event : ℤ) :
    ((s.unref event).2.eventAt event).refcount = (s.eventAt event).refcount - 1 := by
  rw [unref]
  dsimp only
  rw [setEvent_eventAt, if_pos rfl]

/-! ### The invariant -/

/-- The table has the registrations that are not released; `running` is the one
whose callback runs. A registration is counted once, once more while its callback runs
and once less when its removal was asked for, which only the running one outlives;
the others were freed and destroyed once. -/
structure Holds (s : IoLoop) (running : Option ℕ) : Prop where
  table : HandlerTable.Inv s.ioHandler
  freeFunc : s.ioHandler.freeFunc = true
  id_eq : ∀ i ∈ s.ioHandler.live, (s.eventAt i).id = i
  notifies : ∀ i ∈ s.ioHandler.live, (s.eventAt i).destroyNotify = s.notifies (s.serial i)
  lt : ∀ i ∈ s.ioHandler.live, s.serial i < s.fresh
  inj : ∀ i ∈ s.ioHandler.live, ∀ j ∈ s.ioHandler.live, s.serial i = s.serial j → i = j
  refcount : ∀ i ∈ s.ioHandler.live, (s.eventAt i).refcount =
    (if running = some (s.serial i) then 2 else 1) - if s.serial i ∈ removals s.log then 1 else 0
  asked : ∀ i ∈ s.ioHandler.live, s.serial i ∈ removals s.log → running = some (s.serial i)
  removed_lt : ∀ e ∈ removals s.log, e < s.fresh
  freed : ∀ e, s.log.count (.freed e) = if e < s.fresh ∧ e ∉ s.serials then 1 else 0
  destroyed : ∀ e, s.log.count (.destroyed e) =
    if e < s.fresh ∧ e ∉ s.serials ∧ s.notifies e = true then 1 else 0

theorem mem_serials : e ∈ s.serials ↔ ∃ i ∈ s.ioHandler.live, s.serial i = e := by
  rw [serials, List.mem_map]

theorem mem_chain : e ∈ s.chain key ↔ ∃ i ∈ s.ioHandler.ids key, s.serial i = e := by
  rw [chain, List.mem_map]

/-- A registration in the table is one of a key. -/
theorem Holds.mem_serials_iff (h : Holds s running) : e ∈ s.serials ↔ ∃ key, e ∈ s.chain key := by
  simp only [mem_serials, mem_chain, h.table.mem_live_iff]
  constructor
  · rintro ⟨i, ⟨key, hi⟩, he⟩
    exact ⟨key, i, hi, he⟩
  · rintro ⟨key, i, hi, he⟩
    exact ⟨i, ⟨key, hi⟩, he⟩

theorem Holds.lt_of_chain (h : Holds s running) (he : e ∈ s.chain key) : e < s.fresh := by
  obtain ⟨i, hi, rfl⟩ := mem_chain.mp he
  exact h.lt i (h.table.mem_live_iff.mpr ⟨key, hi⟩)

theorem Holds.chain_nodup (h : Holds s running) (key : Bytes) : (s.chain key).Nodup := by
  refine List.Nodup.map_on (fun i hi j hj hij => ?_) (h.table.ids_nodup key)
  exact h.inj i (h.table.mem_live_iff.mpr ⟨key, hi⟩) j (h.table.mem_live_iff.mpr ⟨key, hj⟩) hij

theorem new_holds (array : ByteMem) : Holds (new array) none := by
  have htable : HandlerTable.Inv (new array).ioHandler :=
    ⟨_, _, HandlerTable.new_inv array sizeofIoEvent true true true (by decide)⟩
  have hlive : (new array).ioHandler.live = [] := rfl
  refine ⟨htable, rfl, ?_, ?_, ?_, ?_, ?_, ?_, fun e he => ?_, fun e => ?_, fun e => ?_⟩
  · simp [hlive]
  · simp [hlive]
  · simp [hlive]
  · simp [hlive]
  · simp [hlive]
  · simp [hlive]
  · exact absurd he List.not_mem_nil
  · simp [new]
  · simp [new]

/-- Marks that neither ask for the removal of another registration nor release one. -/
def About (e : ℕ) (u : List Mark) : Prop :=
  (∀ d ∈ removals u, d = e) ∧ (∀ d, u.count (.freed d) = 0) ∧ ∀ d, u.count (.destroyed d) = 0

theorem mem_removals_touched (ht : Touched s s' event u) {d : ℕ} (hu : About d u) (he : e ≠ d) :
    e ∈ removals s'.log ↔ e ∈ removals s.log := by
  rw [ht.log, removals_append, List.mem_append]
  exact or_iff_left fun hmem => he (hu.1 e hmem)

theorem Touched.serials (ht : Touched s s' event u) : s'.serials = s.serials := by
  rw [IoLoop.serials, IoLoop.serials, ht.table]
  exact List.map_congr_left fun i _ => ht.serial i

theorem Touched.chain (ht : Touched s s' event u) (key : Bytes) : s'.chain key = s.chain key := by
  rw [IoLoop.chain, IoLoop.chain, ht.table]
  exact List.map_congr_left fun i _ => ht.serial i

/-- **The invariant when only the count of one event changes.** -/
theorem Holds.touch (h : Holds s running) (ht : Touched s s' event u) (hu : About (s.serial event) u)
    (hi : event ∈ s.ioHandler.live)
    (hrun : ∀ e, e ≠ s.serial event → (running' = some e ↔ running = some e))
    (href : (s'.eventAt event).refcount = (if running' = some (s.serial event) then 2 else 1) -
      if s.serial event ∈ removals s'.log then 1 else 0)
    (hasked : s.serial event ∈ removals s'.log → running' = some (s.serial event)) :
    Holds s' running' := by
  have hne : ∀ i ∈ s.ioHandler.live, i ≠ event → s.serial i ≠ s.serial event :=
    fun i hmem hie heq => hie (h.inj i hmem event hi heq)
  refine ⟨by rw [ht.table]; exact h.table, by rw [ht.table]; exact h.freeFunc, fun i hmem => ?_,
    fun i hmem => ?_, fun i hmem => ?_, fun i hmem j hmem' heq => ?_, fun i hmem => ?_, fun i hmem hask => ?_,
    fun e he => ?_, fun e => ?_, fun e => ?_⟩
  · rw [ht.table] at hmem
    exact (congrArg (·.id) (ht.fields i)).trans (h.id_eq i hmem)
  · rw [ht.table] at hmem
    rw [ht.serial, ht.notifies]
    exact (congrArg (·.destroyNotify) (ht.fields i)).trans (h.notifies i hmem)
  · rw [ht.table] at hmem
    rw [ht.serial, ht.fresh]
    exact h.lt i hmem
  · rw [ht.table] at hmem hmem'
    rw [ht.serial, ht.serial] at heq
    exact h.inj i hmem j hmem' heq
  · rw [ht.table] at hmem
    rw [ht.serial]
    by_cases hie : i = event
    · rw [hie]
      exact href
    · rw [ht.others i hie, h.refcount i hmem]
      simp only [hrun _ (hne i hmem hie), mem_removals_touched ht hu (hne i hmem hie)]
  · rw [ht.table] at hmem
    rw [ht.serial] at hask ⊢
    by_cases hie : i = event
    · rw [hie] at hask ⊢
      exact hasked hask
    · rw [mem_removals_touched ht hu (hne i hmem hie)] at hask
      exact (hrun _ (hne i hmem hie)).mpr (h.asked i hmem hask)
  · rw [ht.fresh]
    by_cases hev : e = s.serial event
    · rw [hev]
      exact h.lt event hi
    · exact h.removed_lt e ((mem_removals_touched ht hu hev).mp he)
  · rw [ht.log, List.count_append, hu.2.1, Nat.add_zero, h.freed, ht.fresh, ht.serials]
  · rw [ht.log, List.count_append, hu.2.2, Nat.add_zero, h.destroyed, ht.fresh, ht.serials, ht.notifies]

/-- A mark that is not about a removal or a release changes nothing. -/
theorem Holds.mark (h : Holds s running) (m : Mark)
    (hm : removals [m] = [] ∧ (∀ e, [m].count (.freed e) = 0) ∧ ∀ e, [m].count (.destroyed e) = 0) :
    Holds (s.mark m) running := by
  have hrem : removals (s.mark m).log = removals s.log := by
    show removals (s.log ++ [m]) = _
    rw [removals_append, hm.1, List.append_nil]
  refine ⟨h.table, h.freeFunc, h.id_eq, h.notifies, h.lt, h.inj, fun i hi => ?_, fun i hi hask => ?_,
    fun e he => ?_, fun e => ?_, fun e => ?_⟩
  · rw [hrem]
    exact h.refcount i hi
  · rw [hrem] at hask
    exact h.asked i hi hask
  · rw [hrem] at he
    exact h.removed_lt e he
  · show (s.log ++ [m]).count _ = _
    rw [List.count_append, hm.2.1, Nat.add_zero]
    exact h.freed e
  · show (s.log ++ [m]).count _ = _
    rw [List.count_append, hm.2.2, Nat.add_zero]
    exact h.destroyed e

/-! ### Releasing an event -/

/-- What `fcitx_handler_table_remove_by_id_full` does on a live id. -/
theorem removeByIdFull_eq (htable : HandlerTable.Inv s.ioHandler) (hfree : s.ioHandler.freeFunc = true)
    (hi : i ∈ s.ioHandler.live) :
    (s.removeByIdFull i).ioHandler = (s.ioHandler.removeByIdFull i).getD s.ioHandler ∧
      (s.removeByIdFull i).eventAt = s.eventAt ∧ (s.removeByIdFull i).fresh = s.fresh ∧
      (s.removeByIdFull i).notifies = s.notifies ∧
      (s.removeByIdFull i).log = s.log ++ s.ioeventFree i := by
  refine ⟨rfl, rfl, rfl, rfl, ?_⟩
  obtain ⟨-, -, hfreed⟩ := HandlerTable.removeByIdFull_ids htable hi
  obtain ⟨obj, hobj⟩ := hfreed hfree
  rw [removeByIdFull]
  dsimp only
  rw [hobj, List.drop_left, List.flatMap_singleton]

/-- The marks of `ioevent_free`. -/
theorem ioeventFree_marks (s : IoLoop) (i : ℤ) : calls (s.ioeventFree i) = [] ∧
    removals (s.ioeventFree i) = [] ∧ (∀ e, .registered e ∉ s.ioeventFree i) ∧
    (∀ e, (s.ioeventFree i).count (.freed e) = if e = s.serial i then 1 else 0) ∧
    ∀ e, (s.ioeventFree i).count (.destroyed e) =
      if e = s.serial i ∧ (s.eventAt i).destroyNotify = true then 1 else 0 := by
  have hfreed : ∀ e, Mark.freed (s.serial i) = Mark.freed e ↔ e = s.serial i := fun e =>
    ⟨fun h => (Mark.freed.inj h).symm, fun h => h ▸ rfl⟩
  have hdestroyed : ∀ e, Mark.destroyed (s.serial i) = Mark.destroyed e ↔ e = s.serial i := fun e =>
    ⟨fun h => (Mark.destroyed.inj h).symm, fun h => h ▸ rfl⟩
  rw [ioeventFree]
  split
  · next hd => simp [calls, removals, List.count_cons, hfreed, hdestroyed, hd]
  · next hd => simpa [calls, removals, List.count_cons, hfreed] using hd

/-- **The invariant when an event is released.** -/
theorem Holds.release (h : Holds s running) (ht : Touched s s' i u) (hu : About (s.serial i) u)
    (hi : i ∈ s.ioHandler.live)
    (hrun : ∀ e, e ≠ s.serial i → (running' = some e ↔ running = some e)) :
    Holds (s'.removeByIdFull i) running' ∧
      (∀ key, (s'.removeByIdFull i).chain key = (s.chain key).filter (· ≠ s.serial i)) ∧
      (∀ j, (s'.removeByIdFull i).serial j = s.serial j) ∧
      ∀ j, j ∈ (s'.removeByIdFull i).ioHandler.live ↔ j ∈ s.ioHandler.live ∧ j ≠ i := by
  have htable' : HandlerTable.Inv s'.ioHandler := by rw [ht.table]; exact h.table
  have hi' : i ∈ s'.ioHandler.live := by rw [ht.table]; exact hi
  obtain ⟨heq, hevents, hfresh, hnotifies, hlog⟩ :=
    removeByIdFull_eq htable' (by rw [ht.table]; exact h.freeFunc) hi'
  rw [ht.table] at heq
  obtain ⟨hcalls, hremovals, -, hfreed, hdestroyed⟩ := ioeventFree_marks s' i
  obtain ⟨hinv, hids, -⟩ := HandlerTable.removeByIdFull_ids h.table hi
  have hsame := (HandlerTable.removeByIdFull_same s.ioHandler i).same
  have hlive : ∀ j, j ∈ (s'.removeByIdFull i).ioHandler.live ↔ j ∈ s.ioHandler.live ∧ j ≠ i := fun j => by
    rw [heq]
    exact HandlerTable.mem_live_remove h.table hi
  have hserial : ∀ j, (s'.removeByIdFull i).serial j = s.serial j := fun j => by
    rw [serial, hevents]
    exact ht.serial j
  have hne : ∀ j ∈ s.ioHandler.live, j ≠ i ↔ s.serial j ≠ s.serial i := fun j hj =>
    not_congr ⟨fun hji => hji ▸ rfl, fun hse => h.inj j hj i hi hse⟩
  have hmem : ∀ e, e ∈ (s'.removeByIdFull i).serials ↔ e ∈ s.serials ∧ e ≠ s.serial i := by
    intro e
    rw [mem_serials, mem_serials]
    constructor
    · rintro ⟨j, hj, rfl⟩
      obtain ⟨hj, hji⟩ := (hlive j).mp hj
      rw [hserial]
      exact ⟨⟨j, hj, rfl⟩, (hne j hj).mp hji⟩
    · rintro ⟨⟨j, hj, rfl⟩, hse⟩
      exact ⟨j, (hlive j).mpr ⟨hj, (hne j hj).mpr hse⟩, hserial j⟩
  have hrem : ∀ e, e ≠ s.serial i → (e ∈ removals (s'.removeByIdFull i).log ↔ e ∈ removals s.log) := by
    intro e he
    rw [hlog, removals_append, hremovals, List.append_nil]
    exact mem_removals_touched ht hu he
  have hlt := h.lt i hi
  refine ⟨⟨by rw [heq]; exact hinv, by rw [heq, hsame.freeFunc]; exact h.freeFunc, fun j hj => ?_,
    fun j hj => ?_, fun j hj => ?_, fun j hj k hk hjk => ?_, fun j hj => ?_, fun j hj hask => ?_,
    fun e he => ?_, fun e => ?_, fun e => ?_⟩, fun key => ?_, hserial, hlive⟩
  · obtain ⟨hj, -⟩ := (hlive j).mp hj
    rw [hevents]
    exact (congrArg (·.id) (ht.fields j)).trans (h.id_eq j hj)
  · obtain ⟨hj, -⟩ := (hlive j).mp hj
    rw [hevents, hserial, hnotifies, ht.notifies]
    exact (congrArg (·.destroyNotify) (ht.fields j)).trans (h.notifies j hj)
  · obtain ⟨hj, -⟩ := (hlive j).mp hj
    rw [hserial, hfresh, ht.fresh]
    exact h.lt j hj
  · obtain ⟨hj, -⟩ := (hlive j).mp hj
    obtain ⟨hk, -⟩ := (hlive k).mp hk
    rw [hserial, hserial] at hjk
    exact h.inj j hj k hk hjk
  · obtain ⟨hj, hji⟩ := (hlive j).mp hj
    have hse := (hne j hj).mp hji
    rw [hserial, hevents, ht.others j hji, h.refcount j hj]
    simp only [hrun _ hse, hrem _ hse]
  · obtain ⟨hj, hji⟩ := (hlive j).mp hj
    have hse := (hne j hj).mp hji
    rw [hserial] at hask ⊢
    exact (hrun _ hse).mpr (h.asked j hj ((hrem _ hse).mp hask))
  · rw [hfresh, ht.fresh]
    by_cases hse : e = s.serial i
    · rw [hse]
      exact hlt
    · exact h.removed_lt e ((hrem e hse).mp he)
  · rw [hlog, ht.log, List.count_append, List.count_append, hu.2.1, Nat.add_zero, h.freed, hfreed,
      hfresh, ht.fresh, ht.serial]
    by_cases hse : e = s.serial i
    · have hin : e ∈ s.serials := mem_serials.mpr ⟨i, hi, hse.symm⟩
      simp [hmem, hse, hlt, hse ▸ hin]
    · simp only [hmem, hse, ne_eq, not_false_eq_true, and_true, if_false, Nat.add_zero]
  · have hnotify : (s'.eventAt i).destroyNotify = s.notifies (s.serial i) :=
      (congrArg (·.destroyNotify) (ht.fields i)).trans (h.notifies i hi)
    rw [hlog, ht.log, List.count_append, List.count_append, hu.2.2, Nat.add_zero, h.destroyed, hdestroyed,
      hfresh, ht.fresh, ht.serial, hnotifies, ht.notifies, hnotify]
    by_cases hse : e = s.serial i
    · have hin : e ∈ s.serials := mem_serials.mpr ⟨i, hi, hse.symm⟩
      simp [hmem, hse, hlt, hse ▸ hin]
    · simp only [hmem, hse, ne_eq, not_false_eq_true, and_true, false_and, if_false, Nat.add_zero]
  · rw [chain, chain, heq, hids, List.filter_map]
    refine (List.map_congr_left fun j _ => hserial j).trans (congrArg _ (List.filter_congr fun j hj => ?_))
    have hj' : j ∈ s.ioHandler.live := h.table.mem_live_iff.mpr ⟨key, hj⟩
    exact decide_eq_decide.mpr (hne j hj')

/-! ### Actions -/

/-- What actions of the callback of `running` do to the registrations known before. -/
structure Acted (running : Option ℕ) (s s' : IoLoop) (t : List Mark) : Prop where
  log : s'.log = s.log ++ t
  fresh : s.fresh ≤ s'.fresh
  notifies : ∀ e < s.fresh, s'.notifies e = s.notifies e
  /-- what is removed leaves its key, but not while its callback runs; what is registered joins at the end -/
  chain : ∀ key, ∃ added, s'.chain key =
    (s.chain key).filter (fun e => e ∈ removals t → running = some e) ++ added ∧
      Joiners s.fresh s'.fresh t added
  stays : ∀ i ∈ s.ioHandler.live, running = some (s.serial i) →
    i ∈ s'.ioHandler.live ∧ s'.serial i = s.serial i
  removed : ∀ b e, .removed b e ∈ t → b = running ∧ e < s'.fresh ∧ (e ∈ s.serials ∨ s.fresh ≤ e)
  registered : ∀ e, .registered e ∈ t → s.fresh ≤ e
  freed : ∀ e, .freed e ∈ t → running ≠ some e
  calls : calls t = []

theorem Acted.refl (running : Option ℕ) (s : IoLoop) : Acted running s s [] where
  log := (List.append_nil _).symm
  fresh := Nat.le_refl _
  notifies _ _ := rfl
  chain key := ⟨[], by simp, Joiners.nil _ _ _⟩
  stays i hi _ := ⟨hi, rfl⟩
  removed _ _ h := absurd h List.not_mem_nil
  registered _ h := absurd h List.not_mem_nil
  freed _ h := absurd h List.not_mem_nil
  calls := rfl

theorem Acted.removals_lt (h : Acted running s s' t) : ∀ e ∈ removals t, e < s'.fresh := by
  intro e he
  obtain ⟨b, hb⟩ := mem_removals.mp he
  exact (h.removed b e hb).2.1

/-- A registration known before that is in the table later was in it before. -/
theorem Acted.mem_serials (h : Acted running s s₁ t) (hs : Holds s running) (hs₁ : Holds s₁ running)
    (he : e ∈ s₁.serials) (hlt : e < s.fresh) : e ∈ s.serials := by
  obtain ⟨key, hkey⟩ := hs₁.mem_serials_iff.mp he
  obtain ⟨added, hchain, hjoined⟩ := h.chain key
  rw [hchain] at hkey
  rcases List.mem_append.mp hkey with hkey | hkey
  · exact hs.mem_serials_iff.mpr ⟨key, List.mem_of_mem_filter hkey⟩
  · exact absurd hlt (Nat.not_lt.mpr (hjoined.mem e hkey).1)

theorem Acted.trans (h₁ : Acted running s s₁ t) (h₂ : Acted running s₁ s₂ t') (hs : Holds s running)
    (hs₁ : Holds s₁ running) (hrun : ∀ r, running = some r → r < s.fresh) :
    Acted running s s₂ (t ++ t') where
  log := by rw [h₂.log, h₁.log, List.append_assoc]
  fresh := Nat.le_trans h₁.fresh h₂.fresh
  notifies e he := (h₂.notifies e (Nat.lt_of_lt_of_le he h₁.fresh)).trans (h₁.notifies e he)
  chain key := by
    obtain ⟨added, hchain, hjoined⟩ := h₁.chain key
    obtain ⟨added', hchain', hjoined'⟩ := h₂.chain key
    refine ⟨_, ?_, hjoined.trans hjoined' h₁.fresh h₂.fresh h₁.removals_lt⟩
    -- what joined first is not the running one
    have hadded : added.filter (fun e => decide (e ∈ removals t' → running = some e)) =
        added.filter (· ∉ removals t') := by
      refine List.filter_congr fun a ha => decide_eq_decide.mpr ⟨fun himp hm => ?_, fun hno hm => absurd hm hno⟩
      exact absurd (hrun a (himp hm)) (Nat.not_lt.mpr (hjoined.mem a ha).1)
    rw [hchain', hchain, List.filter_append, hadded, List.filter_filter, List.append_assoc]
    refine congrArg (· ++ _) (List.filter_congr fun x _ => ?_)
    rw [← Bool.decide_and, removals_append]
    refine decide_eq_decide.mpr ?_
    rw [List.mem_append, or_imp, and_comm]
  stays i hi hr := by
    obtain ⟨hi₁, hserial⟩ := h₁.stays i hi hr
    obtain ⟨hi₂, hserial'⟩ := h₂.stays i hi₁ (hr.trans (by rw [hserial]))
    exact ⟨hi₂, hserial'.trans hserial⟩
  removed b e he := by
    rcases List.mem_append.mp he with he | he
    · obtain ⟨hb, hlt, hmem⟩ := h₁.removed b e he
      exact ⟨hb, Nat.lt_of_lt_of_le hlt h₂.fresh, hmem⟩
    · obtain ⟨hb, hlt, hmem⟩ := h₂.removed b e he
      refine ⟨hb, hlt, ?_⟩
      by_cases hold : e < s.fresh
      · refine Or.inl (h₁.mem_serials hs hs₁ (hmem.resolve_right fun hle => ?_) hold)
        exact absurd (Nat.lt_of_lt_of_le hold h₁.fresh) (Nat.not_lt.mpr hle)
      · exact Or.inr (Nat.not_lt.mp hold)
  registered e he := by
    rcases List.mem_append.mp he with he | he
    · exact h₁.registered e he
    · exact Nat.le_trans h₁.fresh (h₂.registered e he)
  freed e he := by
    rcases List.mem_append.mp he with he | he
    · exact h₁.freed e he
    · exact h₂.freed e he
  calls := by rw [calls_append, h₁.calls, h₂.calls, List.append_nil]

/-- Registering an event puts it at the end of its key. -/
theorem Holds.register (h : Holds s running) (hrun : ∀ r, running = some r → r < s.fresh) {fd : ℤ}
    {flag : ℕ} {destroyNotify : Bool} {malloc : KeyPtr}
    (hok : s.Allowed (.register fd flag destroyNotify malloc)) :
    Holds (s.act running (.register fd flag destroyNotify malloc)) running ∧
      Acted running s (s.act running (.register fd flag destroyNotify malloc)) [.registered s.fresh] := by
  set key := pollKey fd (flagToLibc flag) with hkey
  set obj := List.replicate sizeofIoEvent (0 : UInt8) with hobj
  have hok' : s.ioHandler.Ok (.append key obj malloc) := hok
  obtain ⟨hinv, hout, hids, -⟩ := HandlerTable.append_ids h.table hok'
  obtain ⟨hsame, -⟩ := HandlerTable.append_same s.ioHandler key obj malloc
  set id := (s.ioHandler.append key obj malloc).1 with hid
  set table := (s.ioHandler.append key obj malloc).2 with htable
  set s' := s.act running (.register fd flag destroyNotify malloc) with hs'
  have hhandler : s'.ioHandler = table := rfl
  have hfresh : s'.fresh = s.fresh + 1 := rfl
  have hevents : ∀ i, s'.eventAt i =
      if i = id then ⟨fd, destroyNotify, id, 1, s.fresh⟩ else s.eventAt i := fun i => Function.update_apply ..
  have hnotifies : ∀ e, s'.notifies e = if e = s.fresh then destroyNotify else s.notifies e := fun e =>
    Function.update_apply ..
  have hnew : s'.serial id = s.fresh := by
    rw [serial, hevents, if_pos rfl]
  have hlog : s'.log = s.log ++ [.registered s.fresh] := by
    show s.log ++ [.registered (s'.serial id)] = _
    rw [hnew]
  have hne : ∀ i ∈ s.ioHandler.live, i ≠ id := fun i hi heq => hout (heq ▸ hi)
  have hold : ∀ i ∈ s.ioHandler.live, s'.eventAt i = s.eventAt i := fun i hi => by
    rw [hevents, if_neg (hne i hi)]
  have hserial : ∀ i ∈ s.ioHandler.live, s'.serial i = s.serial i := fun i hi =>
    congrArg IoEvent.serial (hold i hi)
  have hlive : ∀ i, i ∈ s'.ioHandler.live ↔ i ∈ s.ioHandler.live ∨ i = id := fun i =>
    HandlerTable.mem_live_append h.table hok'
  have hserials : ∀ e, e ∈ s'.serials ↔ e ∈ s.serials ∨ e = s.fresh := by
    intro e
    rw [mem_serials, mem_serials]
    constructor
    · rintro ⟨i, hi, rfl⟩
      rcases (hlive i).mp hi with hi | rfl
      · exact Or.inl ⟨i, hi, (hserial i hi).symm⟩
      · exact Or.inr hnew
    · rintro (⟨i, hi, rfl⟩ | rfl)
      · exact ⟨i, (hlive i).mpr (Or.inl hi), hserial i hi⟩
      · exact ⟨id, (hlive id).mpr (Or.inr rfl), hnew⟩
  have hask : removals s'.log = removals s.log := by
    rw [hlog, removals_append]
    exact List.append_nil _
  have hfreshRemoved : s.fresh ∉ removals s.log := fun hmem => Nat.lt_irrefl _ (h.removed_lt _ hmem)
  have hnotRun : ¬ running = some s.fresh := fun hr => Nat.lt_irrefl _ (hrun _ hr)
  refine ⟨⟨hinv, hsame.freeFunc.trans h.freeFunc, fun i hi => ?_, fun i hi => ?_, fun i hi => ?_,
    fun i hi j hj hij => ?_, fun i hi => ?_, fun i hi hmem => ?_, fun e he => ?_, fun e => ?_, fun e => ?_⟩,
    ⟨hlog, Nat.le_succ _, fun e he => ?_, fun k => ?_, fun i hi _ => ⟨(hlive i).mpr (Or.inl hi), hserial i hi⟩,
    fun b e he => ?_, fun e he => ?_, fun e he => ?_, rfl⟩⟩
  · rw [hevents]
    rcases (hlive i).mp hi with hi | rfl
    · rw [if_neg (hne i hi)]
      exact h.id_eq i hi
    · rw [if_pos rfl]
  · rcases (hlive i).mp hi with hi | rfl
    · rw [hserial i hi, hold i hi, hnotifies, if_neg (Nat.ne_of_lt (h.lt i hi))]
      exact h.notifies i hi
    · rw [hnew, hnotifies, if_pos rfl, hevents, if_pos rfl]
  · rw [hfresh]
    rcases (hlive i).mp hi with hi | rfl
    · rw [hserial i hi]
      exact Nat.lt_succ_of_lt (h.lt i hi)
    · rw [hnew]
      exact Nat.lt_succ_self _
  · rcases (hlive i).mp hi with hi | rfl <;> rcases (hlive j).mp hj with hj | rfl
    · rw [hserial i hi, hserial j hj] at hij
      exact h.inj i hi j hj hij
    · rw [hserial i hi, hnew] at hij
      exact absurd hij (Nat.ne_of_lt (h.lt i hi))
    · rw [hserial j hj, hnew] at hij
      exact absurd hij.symm (Nat.ne_of_lt (h.lt j hj))
    · rfl
  · rw [hask]
    rcases (hlive i).mp hi with hi | rfl
    · rw [hserial i hi, hold i hi, h.refcount i hi]
    · rw [hnew, if_neg hnotRun, if_neg hfreshRemoved, hevents, if_pos rfl]
      rfl
  · rw [hask] at hmem
    rcases (hlive i).mp hi with hi | rfl
    · rw [hserial i hi] at hmem ⊢
      exact h.asked i hi hmem
    · rw [hnew] at hmem
      exact absurd hmem hfreshRemoved
  · rw [hask] at he
    rw [hfresh]
    exact Nat.lt_succ_of_lt (h.removed_lt e he)
  · rw [hlog, List.count_append, h.freed, hfresh]
    simp only [hserials]
    by_cases he : e = s.fresh
    · simp [he]
    · have hlt : e < s.fresh + 1 ↔ e < s.fresh := by omega
      simp [he, hlt]
  · rw [hlog, List.count_append, h.destroyed, hfresh, hnotifies]
    simp only [hserials]
    by_cases he : e = s.fresh
    · simp [he]
    · have hlt : e < s.fresh + 1 ↔ e < s.fresh := by omega
      simp [he, hlt]
  · rw [hnotifies, if_neg (Nat.ne_of_lt he)]
  · have hkeep : (s.chain k).filter (fun e => decide (e ∈ removals [Mark.registered s.fresh] →
        running = some e)) = s.chain k :=
      List.filter_eq_self.mpr fun e _ => decide_eq_true fun hm => absurd hm List.not_mem_nil
    have hmap : ∀ k', (s.ioHandler.ids k').map s'.serial = s.chain k' := fun k' =>
      List.map_congr_left fun i hi => hserial i (h.table.mem_live_iff.mpr ⟨k', hi⟩)
    rw [hkeep, chain, hhandler, hids]
    split
    · next hk =>
      refine ⟨[s.fresh], ?_, List.nodup_singleton _, Nat.le_refl 1, fun a ha => ?_⟩
      · rw [List.map_append, hmap, hk, List.map_singleton, hnew]
      · rw [List.mem_singleton.mp ha]
        exact ⟨Nat.le_refl _, Nat.lt_succ_self _, List.not_mem_nil⟩
    · exact ⟨[], by rw [hmap, List.append_nil], Joiners.nil _ _ _⟩
  · exact absurd he (by simp)
  · rw [Mark.registered.inj (List.mem_singleton.mp he)]
  · exact absurd he (by simp)

/-- Removing the event whose callback runs only takes one count. -/
theorem Holds.removeSelf (h : Holds s (some (s.serial event))) (hok : s.Allowed (.remove event)) :
    s.act (some (s.serial event)) (.remove event) =
      ((s.mark (.removed (some (s.serial event)) (s.serial event))).unref event).2 := by
  obtain ⟨hlive, hask⟩ := hok
  have hbefore := h.refcount event hlive
  rw [if_pos rfl, if_neg hask, Int.sub_zero] at hbefore
  show (if (s.eventAt event).refcount = 1 then _ else _) = _
  rw [hbefore]
  exact if_neg (by decide)

/-- Removing an event takes it out of its key, unless its callback runs. -/
theorem Holds.remove (h : Holds s running) (hok : s.Allowed (.remove event)) :
    ∃ t, Holds (s.act running (.remove event)) running ∧
      Acted running s (s.act running (.remove event)) t := by
  have ⟨hlive, hask⟩ := hok
  have hlt := h.lt event hlive
  set r := s.serial event with hr
  set s₁ := ((s.mark (.removed running r)).unref event).2 with hs₁
  have htouch : Touched s s₁ event [.removed running r] :=
    (mark_touched s event _).trans (unref_touched _ event)
  have hu : About r [.removed running r] :=
    ⟨fun e he => List.mem_singleton.mp he, fun _ => by simp, fun _ => by simp⟩
  have hcount : (s₁.eventAt event).refcount = (s.eventAt event).refcount - 1 := unref_refcount _ event
  have hbefore := h.refcount event hlive
  rw [if_neg hask, Int.sub_zero] at hbefore
  have hremovals : r ∈ removals s₁.log := by
    rw [htouch.log, removals_append]
    exact List.mem_append_right _ (List.mem_singleton.mpr rfl)
  have hknown : r ∈ s.serials := mem_serials.mpr ⟨event, hlive, rfl⟩
  by_cases hrun : running = some r
  · -- the dispatch that called it keeps a count
    have hact : s.act running (.remove event) = s₁ := by
      rw [hs₁, hrun]
      exact (hrun ▸ h).removeSelf hok
    rw [hact]
    refine ⟨[.removed running r], h.touch htouch hu hlive (fun _ _ => Iff.rfl) ?_ (fun _ => hrun),
      htouch.log, Nat.le_of_eq htouch.fresh.symm, fun e _ => by rw [htouch.notifies], fun key => ⟨[], ?_, ?_⟩,
      fun i hi _ => ⟨by rw [htouch.table]; exact hi, htouch.serial i⟩, fun b e he => ?_, fun e he => ?_,
      fun e he => ?_, rfl⟩
    · rw [hcount, hbefore, if_pos hrun, if_pos hremovals]
    · rw [htouch.chain, List.append_nil]
      refine (List.filter_eq_self.mpr fun e _ => decide_eq_true fun hm => ?_).symm
      rw [hrun, List.mem_singleton.mp hm]
    · exact Joiners.nil _ _ _
    · obtain ⟨rfl, rfl⟩ := Mark.removed.inj (List.mem_singleton.mp he)
      exact ⟨rfl, htouch.fresh ▸ hlt, Or.inl hknown⟩
    · exact absurd he (by simp)
    · exact absurd he (by simp)
  · have hid : (s₁.eventAt event).id = event :=
      (congrArg (·.id) (htouch.fields event)).trans (h.id_eq event hlive)
    have hact : s.act running (.remove event) = s₁.removeByIdFull event := by
      show (if (s.eventAt event).refcount = 1 then s₁.removeByIdFull (s₁.eventAt event).id else s₁) = _
      rw [hbefore, if_neg hrun, hid]
      exact if_pos rfl
    obtain ⟨hholds, hchain, hserial, hlive'⟩ := h.release htouch hu hlive (fun _ _ => Iff.rfl)
    have htable₁ : HandlerTable.Inv s₁.ioHandler := by rw [htouch.table]; exact h.table
    obtain ⟨-, -, hfresh, hnotifies, hlog⟩ := removeByIdFull_eq htable₁
      (by rw [htouch.table]; exact h.freeFunc) (i := event) (by rw [htouch.table]; exact hlive)
    obtain ⟨hcalls, hnone, hregistered, hfreed, -⟩ := ioeventFree_marks s₁ event
    rw [hact]
    have hrem : removals (Mark.removed running r :: s₁.ioeventFree event) = [r] := by
      show r :: removals (s₁.ioeventFree event) = _
      rw [hnone]
    refine ⟨.removed running r :: s₁.ioeventFree event, hholds, ?_, ?_, fun e _ => ?_, fun key => ⟨[], ?_, ?_⟩,
      fun i hi hri => ⟨(hlive' i).mpr ⟨hi, fun hie => ?_⟩, hserial i⟩, fun b e he => ?_, fun e he => ?_,
      fun e he => ?_, hcalls⟩
    · rw [hlog, htouch.log, List.append_assoc]
      rfl
    · rw [hfresh, htouch.fresh]
    · rw [hnotifies, htouch.notifies]
    · rw [hchain, List.append_nil, hrem]
      refine List.filter_congr fun e _ => decide_eq_decide.mpr ?_
      rw [List.mem_singleton]
      exact ⟨fun hne he => absurd he hne, fun himp he => hrun (by rw [himp he, he])⟩
    · exact Joiners.nil _ _ _
    · exact hrun (by rw [hri, hie])
    · have he' : e ∈ removals (Mark.removed running r :: s₁.ioeventFree event) := mem_removals.mpr ⟨b, he⟩
      rw [hrem] at he'
      rw [List.mem_singleton.mp he'] at he ⊢
      refine ⟨?_, by rw [hfresh, htouch.fresh]; exact hlt, Or.inl hknown⟩
      rcases List.mem_cons.mp he with he | he
      · exact (Mark.removed.inj he).1
      · have hm : r ∈ removals (s₁.ioeventFree event) := mem_removals.mpr ⟨b, he⟩
        rw [hnone] at hm
        exact absurd hm List.not_mem_nil
    · rcases List.mem_cons.mp he with he | he
      · exact absurd he (by simp)
      · exact absurd he (hregistered e)
    · rcases List.mem_cons.mp he with he | he
      · exact absurd he (by simp)
      · have hone : 0 < (s₁.ioeventFree event).count (.freed e) := List.count_pos_iff.mpr he
        rw [hfreed, htouch.serial] at hone
        intro hre
        rw [if_neg (fun hse => hrun (by rw [hre, hse]))] at hone
        exact Nat.lt_irrefl 0 hone

/-- **One action.** -/
theorem Holds.act (h : Holds s running) (hrun : ∀ r, running = some r → r < s.fresh) {a : IoAction}
    (hok : s.Allowed a) : ∃ t, Holds (s.act running a) running ∧ Acted running s (s.act running a) t := by
  cases a with
  | register fd flag destroyNotify malloc => exact ⟨_, h.register hrun hok⟩
  | remove event => exact h.remove hok
  | quit =>
    refine ⟨[], ⟨h.table, h.freeFunc, h.id_eq, h.notifies, h.lt, h.inj, h.refcount, h.asked, h.removed_lt,
      h.freed, h.destroyed⟩, ?_⟩
    exact ⟨(List.append_nil _).symm, Nat.le_refl _, fun _ _ => rfl,
      fun key => (Acted.refl running s).chain key, fun i hi _ => ⟨hi, rfl⟩,
      fun _ _ he => absurd he List.not_mem_nil, fun _ he => absurd he List.not_mem_nil,
      fun _ he => absurd he List.not_mem_nil, rfl⟩

/-- **All the actions of a callback.** -/
theorem Holds.acts (h : Holds s running) (hrun : ∀ r, running = some r → r < s.fresh)
    {as : List IoAction} (hok : Run.Admissible (IoLoop.act running) Allowed s as) :
    ∃ t, Holds (Run.exec (IoLoop.act running) s as) running ∧
      Acted running s (Run.exec (IoLoop.act running) s as) t := by
  induction as generalizing s with
  | nil => exact ⟨[], h, Acted.refl running s⟩
  | cons a as ih =>
    obtain ⟨t, hs₁, hacted⟩ := h.act hrun hok.1
    obtain ⟨t', hs₂, hacted'⟩ := ih hs₁ (fun r hr => Nat.lt_of_lt_of_le (hrun r hr) hacted.fresh) hok.2
    exact ⟨t ++ t', hs₂, hacted.trans hacted' h hs₁ hrun⟩

end IoLoop

end Fcitx
