/-
# The watches and timeouts of libdbus

`module/dbus/dbusmodule.c`: libdbus hands its watches and timeouts to the module, toggles them and takes them
back. An enabled watch has an IO event, an enabled timeout a timeout event, and its data is a pointer to that.
When an IO event is gone its `destroyNotify` clears the data of the watch. The timeouts are registered without
the notification that would clear theirs, so that the pointer outlives its event; and an IO event that
runs or that was moved outlives its pointer.

Key definitions: `DBusWatch`, `DBusTimeout`, `DBusLoop`, `DBusLoop.toggleDBusWatch`, `DBusLoop.toggleTimeout`,
`DBusLoop.ReleasedOnce`, `DBusLoop.Clear`.
Key theorems: `DBusLoop.Inv.step`, `DBusLoop.releasedOnce_iff`.
-/
import Fcitx.MainLoop.Running

namespace Fcitx

open Mark

/-- A `FcitxIOEvent*`: the block of the pool, and the event in it. -/
structure IoEventPtr where
  block : ℕ
  event : ℤ
deriving DecidableEq

/-- libdbus adds an object once and removes it once. -/
inductive DBusPhase where
  | fresh
  | added
  | removed
deriving DecidableEq

/-- `DBusWatch` -/
structure DBusWatch where
  fd : ℤ
  flags : ℕ
  enabled : Bool
  phase : DBusPhase
  /-- `dbus_watch_get_data` -/
  data : Option IoEventPtr

/-- `DBusTimeout` -/
structure DBusTimeout where
  interval : ℤ
  enabled : Bool
  phase : DBusPhase
  /-- `dbus_timeout_get_data` -/
  data : Option ℕ

def DBusWatch.Active (w : DBusWatch) : Prop := w.phase = .added ∧ w.enabled = true

instance (w : DBusWatch) : Decidable w.Active := inferInstanceAs (Decidable (_ ∧ _))

def DBusTimeout.Active (d : DBusTimeout) : Prop := d.phase = .added ∧ d.enabled = true

instance (d : DBusTimeout) : Decidable d.Active := inferInstanceAs (Decidable (_ ∧ _))

/-- The objects of libdbus with the main loop. -/
structure DBusLoop where
  loop : RunningLoop
  /-- the block of the pool of IO events, and the calls of `fcitx_utils_realloc` for it -/
  block : ℕ
  reallocs : ℕ
  watches : ℕ → DBusWatch
  timeouts : ℕ → DBusTimeout
  /-- the watch that is the `userdata` of a registration with `fcitx_dbus_watch_remove_notify` -/
  watchOf : ℕ → Option ℕ
  timeoutOf : ℕ → Option ℕ
  /-- whether a pointer into a block that is gone was used -/
  undefined : Bool

/-- What libdbus, the rest of the program and the dispatch of the main loop do. -/
inductive DBusOp where
  | addWatch (w : ℕ) (fd : ℤ) (flags : ℕ) (enabled : Bool) (malloc : KeyPtr)
  | toggleWatch (w : ℕ) (malloc : KeyPtr)
  | removeWatch (w : ℕ)
  | addTimeout (d : ℕ) (interval : ℤ) (enabled : Bool)
  | toggleTimeout (d : ℕ)
  | removeTimeout (d : ℕ)
  /-- somebody else does something with the main loop -/
  | other (a : LoopAction)
  | enterTimeout (event : ℕ)
  | enterIo (event : ℤ)
  | leave
deriving DecidableEq

/-- `DBUS_WATCH_READABLE` and `DBUS_WATCH_WRITABLE` to `FIOEF_IN` and `FIOEF_OUT`, with
`FIOEF_ERR` and `FIOEF_HUP`. -/
def watchFlags (flags : ℕ) : ℕ :=
  (if flags.testBit 0 then 1 else 0) ||| (if flags.testBit 1 then 2 else 0) ||| 4 ||| 8

namespace DBusLoop

/-- The module with a new main loop, before libdbus has added anything. -/
def new (m : MainLoop) : DBusLoop where
  loop := ⟨m, .nobody⟩
  block := 0
  reallocs := 0
  watches := fun _ => ⟨0, 0, false, .fresh, none⟩
  timeouts := fun _ => ⟨0, false, .fresh, none⟩
  watchOf := fun _ => none
  timeoutOf := fun _ => none
  undefined := false

/-- The watches whose `fcitx_dbus_watch_remove_notify` is called on the way to `loop`. -/
def notified (s : DBusLoop) (loop : RunningLoop) : List ℕ :=
  (loop.io.log.drop s.loop.io.log.length).filterMap fun
    | .destroyed e => s.watchOf e
    | _ => none

/-- `fcitx_dbus_watch_remove_notify` clears the data of each of them. -/
def onLoop (s : DBusLoop) (loop : RunningLoop) : DBusLoop :=
  { s with
    loop := loop
    watches := fun w => if w ∈ s.notified loop then { s.watches w with data := none } else s.watches w }

/-- Whether an action has the pool of the IO events grow. -/
def grows (s : DBusLoop) : LoopAction → Bool
  | .registerIo .. => s.loop.io.ioHandler.objs.nextFree < 0
  | _ => false

/-- A registration has the watch as its `userdata`, and the watch a pointer to the event as its data. -/
def attachWatch (s : DBusLoop) (w r : ℕ) (event : ℤ) : DBusLoop :=
  { s with
    watchOf := Function.update s.watchOf r (some w)
    watches := Function.update s.watches w { s.watches w with data := some ⟨s.block, event⟩ } }

/-- An event has the timeout as its `userdata`, and the timeout a pointer to it as its data. -/
def attachTimeout (s : DBusLoop) (d event : ℕ) : DBusLoop :=
  { s with
    timeoutOf := Function.update s.timeoutOf event (some d)
    timeouts := Function.update s.timeouts d { s.timeouts d with data := some event } }

section
variable (moves : ℕ → Bool)

/-- An action on the main loop; `moves n` says whether the `n`-th `fcitx_utils_realloc` returns a new block. -/
def act (s : DBusLoop) (a : LoopAction) : DBusLoop :=
  { s.onLoop (s.loop.act a) with
    block := if s.grows a && moves s.reallocs then s.block + 1 else s.block
    reallocs := if s.grows a then s.reallocs + 1 else s.reallocs }

/-- `fcitx_dbus_add_dbus_watch` -/
def addDBusWatch (s : DBusLoop) (w : ℕ) (malloc : KeyPtr) : DBusLoop :=
  let watch := s.watches w
  if watch.enabled = false then s
  else
    let fflag := watchFlags watch.flags
    let event := (s.loop.io.registerIoEvent watch.fd fflag true malloc).1
    (s.act moves (.registerIo watch.fd fflag true malloc)).attachWatch w s.loop.io.fresh event

/-- `fcitx_mainloop_remove_io_event` through a pointer. -/
def removeIoEvent (s : DBusLoop) (event : IoEventPtr) : DBusLoop :=
  if event.block ≠ s.block then { s with undefined := true } else s.act moves (.removeIo event.event)

/-- `fcitx_dbus_remove_dbus_watch` -/
def removeDBusWatch (s : DBusLoop) (w : ℕ) : DBusLoop :=
  match (s.watches w).data with
  | none => s
  | some event => s.removeIoEvent moves event

/-- `fcitx_dbus_toggle_dbus_watch` -/
def toggleDBusWatch (s : DBusLoop) (w : ℕ) (malloc : KeyPtr) : DBusLoop :=
  if (s.watches w).enabled then s.addDBusWatch moves w malloc else s.removeDBusWatch moves w

/-- `fcitx_dbus_add_timeout` -/
def addTimeout (s : DBusLoop) (d : ℕ) : DBusLoop :=
  let timeout := s.timeouts d
  if timeout.enabled = false then s
  else
    let interval := (timeout.interval % 0x100000000).toNat
    let event := (s.loop.timeouts.registerTimeoutEvent interval true false).1
    (s.act moves (.registerTimeout interval true false)).attachTimeout d event

/-- `fcitx_dbus_remove_timeout` -/
def removeTimeout (s : DBusLoop) (d : ℕ) : DBusLoop :=
  match (s.timeouts d).data with
  | none => s
  | some event => s.act moves (.removeTimeout event)

/-- `fcitx_dbus_toggle_timeout` -/
def toggleTimeout (s : DBusLoop) (d : ℕ) : DBusLoop :=
  if (s.timeouts d).enabled then s.addTimeout moves d else s.removeTimeout moves d

def setWatch (s : DBusLoop) (w : ℕ) (watch : DBusWatch) : DBusLoop :=
  { s with watches := Function.update s.watches w watch }

def setTimeout (s : DBusLoop) (d : ℕ) (timeout : DBusTimeout) : DBusLoop :=
  { s with timeouts := Function.update s.timeouts d timeout }

def step (s : DBusLoop) : DBusOp → DBusLoop
  | .addWatch w fd flags enabled malloc =>
    (s.setWatch w ⟨fd, flags, enabled, .added, none⟩).addDBusWatch moves w malloc
  | .toggleWatch w malloc =>
    (s.setWatch w { s.watches w with enabled := !(s.watches w).enabled }).toggleDBusWatch moves w malloc
  | .removeWatch w => (s.setWatch w { s.watches w with phase := .removed }).removeDBusWatch moves w
  | .addTimeout d interval enabled => (s.setTimeout d ⟨interval, enabled, .added, none⟩).addTimeout moves d
  | .toggleTimeout d =>
    (s.setTimeout d { s.timeouts d with enabled := !(s.timeouts d).enabled }).toggleTimeout moves d
  | .removeTimeout d => (s.setTimeout d { s.timeouts d with phase := .removed }).removeTimeout moves d
  | .other a => s.act moves a
  | .enterTimeout event => s.onLoop (s.loop.enterTimeout event)
  | .enterIo event => s.onLoop (s.loop.enterIo event)
  | .leave => s.onLoop s.loop.leave

end

/-! ### What is allowed, and what should hold -/

/-- Others remove no event of a watch or a timeout. -/
def Theirs (s : DBusLoop) : LoopAction → Prop
  | .removeTimeout event => s.timeoutOf event = none
  | .removeIo event => s.watchOf (s.loop.io.serial event) = none
  | _ => True

instance (s : DBusLoop) : ∀ a, Decidable (s.Theirs a)
  | .removeTimeout _ | .removeIo _ => inferInstanceAs (Decidable (_ = _))
  | .registerTimeout .. | .registerIo .. | .quit => .isTrue trivial

/-- The allocator keeps its promise when a watch is registered. -/
def Room (s : DBusLoop) (fd : ℤ) (flags : ℕ) (malloc : KeyPtr) : Prop :=
  s.loop.loop.Allowed (.registerIo fd (watchFlags flags) true malloc)

instance (s : DBusLoop) (fd : ℤ) (flags : ℕ) (malloc : KeyPtr) : Decidable (s.Room fd flags malloc) :=
  inferInstanceAs (Decidable (s.loop.loop.Allowed _))

/-- Each object is added once, toggled while it is there and removed once, others remove what is
theirs, and one callback runs at a time. -/
def Ok (s : DBusLoop) : DBusOp → Prop
  | .addWatch w fd flags enabled malloc =>
    (s.watches w).phase = .fresh ∧ (enabled = true → s.Room fd flags malloc)
  | .toggleWatch w malloc => (s.watches w).phase = .added ∧
    ((s.watches w).enabled = false → s.Room (s.watches w).fd (s.watches w).flags malloc)
  | .removeWatch w => (s.watches w).phase = .added
  | .addTimeout d _ _ => (s.timeouts d).phase = .fresh
  | .toggleTimeout d | .removeTimeout d => (s.timeouts d).phase = .added
  | .other a => s.loop.loop.Allowed a ∧ s.Theirs a
  | .enterTimeout event => s.loop.running = .nobody ∧ event ∈ s.loop.timeouts.timeouts
  | .enterIo event => s.loop.running = .nobody ∧ event ∈ s.loop.io.ioHandler.live
  | .leave => True

instance (s : DBusLoop) : ∀ op, Decidable (s.Ok op)
  | .addWatch .. | .toggleWatch .. | .other _ | .enterTimeout _ | .enterIo _ => inferInstanceAs (Decidable (_ ∧ _))
  | .removeWatch _ | .addTimeout .. | .toggleTimeout _ | .removeTimeout _ => inferInstanceAs (Decidable (_ = _))
  | .leave => .isTrue trivial

/-- The registered event of a watch, and the pointer to it. -/
def WatchEvent (s : DBusLoop) (w : ℕ) (event : ℤ) : Prop :=
  event ∈ s.loop.io.ioHandler.live ∧ s.watchOf (s.loop.io.serial event) = some w

def TimeoutEvent (s : DBusLoop) (d : ℕ) (event : ℕ) : Prop :=
  event ∈ s.loop.timeouts.timeouts ∧ s.timeoutOf event = some d

/-- **Released once**: no event is removed twice or through a pointer to memory that is gone, the data of an
object is its event while it is added and enabled and `NULL` otherwise, and nothing of a removed object is left. -/
structure ReleasedOnce (s : DBusLoop) : Prop where
  io : (removals s.loop.io.log).Nodup
  timeouts : (removals s.loop.timeouts.log).Nodup
  defined : s.undefined = false
  watch : ∀ w, (s.watches w).Active → ∃ event, s.WatchEvent w event ∧ (s.watches w).data = some ⟨s.block, event⟩
  watchNull : ∀ w, ¬ (s.watches w).Active → (s.watches w).data = none
  watchGone : ∀ w, (s.watches w).phase = .removed → ∀ event, ¬ s.WatchEvent w event
  timeout : ∀ d, (s.timeouts d).Active → ∃ event, s.TimeoutEvent d event ∧ (s.timeouts d).data = some event
  timeoutNull : ∀ d, ¬ (s.timeouts d).Active → (s.timeouts d).data = none
  timeoutGone : ∀ d, (s.timeouts d).phase = .removed → ∀ event, ¬ s.TimeoutEvent d event

/-- The IO event that runs is not one of the watch. -/
def Still (s : DBusLoop) (w : ℕ) : Prop := ∀ event r, s.loop.running = .io event r → s.watchOf r ≠ some w

/-- The pool of IO events stays where it is, or no watch has an event in it. -/
def Stays (moves : ℕ → Bool) (s : DBusLoop) (a : LoopAction) : Prop :=
  (s.grows a && moves s.reallocs) = false ∨ ∀ w, ¬ (s.watches w).Active

/-- A step that releases what it should: no enabled timeout is toggled off or removed, no enabled watch while
its own event runs, and no IO event is registered that moves the events of the watches. -/
def Clear (moves : ℕ → Bool) (s : DBusLoop) : DBusOp → Prop
  | .addWatch _ fd flags enabled malloc =>
    enabled = true → s.Stays moves (.registerIo fd (watchFlags flags) true malloc)
  | .toggleWatch w malloc =>
    if (s.watches w).enabled then s.Still w
    else s.Stays moves (.registerIo (s.watches w).fd (watchFlags (s.watches w).flags) true malloc)
  | .removeWatch w => (s.watches w).enabled = true → s.Still w
  | .toggleTimeout d | .removeTimeout d => (s.timeouts d).enabled = false
  | .other a => s.Stays moves a
  | .addTimeout .. | .enterTimeout _ | .enterIo _ | .leave => True

/-! ### The invariant -/

/-- What is known of the events, whatever the objects say. -/
structure Base (s : DBusLoop) : Prop where
  loop : s.loop.Holds
  io : (removals s.loop.io.log).Nodup
  timeouts : (removals s.loop.timeouts.log).Nodup
  defined : s.undefined = false
  watch_lt : ∀ e w, s.watchOf e = some w → e < s.loop.io.fresh
  notifies : ∀ e w, s.watchOf e = some w → s.loop.io.notifies e = true
  asked : ∀ event w, s.WatchEvent w event → s.loop.io.serial event ∉ removals s.loop.io.log
  timeout_lt : ∀ e d, s.timeoutOf e = some d → e < s.loop.timeouts.fresh
  repeats : ∀ e d, s.timeoutOf e = some d → (s.loop.timeouts.eventAt e).repeats = true
  timeout_asked : ∀ e d, s.timeoutOf e = some d → e ∉ removals s.loop.timeouts.log

/-- What is known of a watch. -/
structure WatchInv (s : DBusLoop) (w : ℕ) : Prop where
  active : (s.watches w).Active → ∃ event, s.WatchEvent w event ∧ (s.watches w).data = some ⟨s.block, event⟩
  null : ¬ (s.watches w).Active → (s.watches w).data = none
  owned : ∀ event, s.WatchEvent w event → (s.watches w).Active ∧ (s.watches w).data = some ⟨s.block, event⟩

/-- What is known of a timeout. -/
structure TimeoutInv (s : DBusLoop) (d : ℕ) : Prop where
  active : (s.timeouts d).Active → ∃ event, s.TimeoutEvent d event ∧ (s.timeouts d).data = some event
  null : ¬ (s.timeouts d).Active → (s.timeouts d).data = none
  owned : ∀ event, s.TimeoutEvent d event → (s.timeouts d).Active ∧ (s.timeouts d).data = some event

structure Inv (s : DBusLoop) : Prop where
  base : Base s
  watch : ∀ w, WatchInv s w
  timeout : ∀ d, TimeoutInv s d

variable {s s' : DBusLoop} {loop : RunningLoop} {v : RunningLoop.Moves} {moves : ℕ → Bool} {w d e : ℕ} {event : ℤ}

theorem Inv.releasedOnce (h : Inv s) : ReleasedOnce s where
  io := h.base.io
  timeouts := h.base.timeouts
  defined := h.base.defined
  watch w := (h.watch w).active
  watchNull w := (h.watch w).null
  watchGone w hw event hevent := by
    have hactive := ((h.watch w).owned event hevent).1.1
    exact absurd (hw.symm.trans hactive) (by decide)
  timeout d := (h.timeout d).active
  timeoutNull d := (h.timeout d).null
  timeoutGone d hd event hevent := by
    have hactive := ((h.timeout d).owned event hevent).1.1
    exact absurd (hd.symm.trans hactive) (by decide)

theorem new_inv {m : MainLoop} (hm : m.timeouts.WellFormed) (hio : m.io.WellFormed)
    (hlog : removals m.timeouts.log = []) (hlog' : removals m.io.log = []) : Inv (new m) := by
  have hinactive : ∀ w, ¬ ((new m).watches w).Active := fun w h => absurd h.2 (by simp [new])
  have hinactive' : ∀ d, ¬ ((new m).timeouts d).Active := fun d h => absurd h.2 (by simp [new])
  refine ⟨⟨⟨hm, hio, fun e he => absurd he (by simp [new]), fun e r he => absurd he (by simp [new])⟩, ?_, ?_, rfl,
    fun e w h => absurd h (by simp [new]), fun e w h => absurd h (by simp [new]),
    fun event w h => absurd h.2 (by simp [new]), fun e d h => absurd h (by simp [new]),
    fun e d h => absurd h (by simp [new]), fun e d h => absurd h (by simp [new])⟩, fun w => ?_, fun d => ?_⟩
  · show (removals m.io.log).Nodup
    rw [hlog']
    exact List.nodup_nil
  · show (removals m.timeouts.log).Nodup
    rw [hlog]
    exact List.nodup_nil
  · exact ⟨fun h => absurd h (hinactive w), fun _ => rfl, fun event h => absurd h.2 (by simp [new])⟩
  · exact ⟨fun h => absurd h (hinactive' d), fun _ => rfl, fun event h => absurd h.2 (by simp [new])⟩

/-! ### Steps of the main loop -/

/-- What a step of the main loop must not do to the watches and timeouts. -/
structure Spares (s : DBusLoop) (v : RunningLoop.Moves) : Prop where
  timeoutsGone : ∀ e ∈ v.timeoutsGone, s.timeoutOf e = none
  timeoutsAsked : ∀ e ∈ v.timeoutsAsked, s.timeoutOf e = none
  ioAsked : ∀ event w, s.WatchEvent w event → s.loop.io.serial event ∈ v.ioAsked → event ∈ v.ioGone
  io : (removals s.loop.io.log ++ v.ioAsked).Nodup
  timeouts : (removals s.loop.timeouts.log ++ v.timeoutsAsked).Nodup

theorem Base.watchEvent_iff (h : Base s) (hm : s.loop.Moved loop v) (hs' : s'.loop = loop)
    (hwatch : s'.watchOf = s.watchOf) : s'.WatchEvent w event ↔ s.WatchEvent w event ∧ event ∉ v.ioGone := by
  unfold WatchEvent
  rw [hs', hwatch, hm.io.mem event]
  constructor
  · rintro ⟨⟨hlive, hgone⟩ | hnew, hw⟩
    · rw [hm.io.serial event hlive] at hw
      exact ⟨⟨hlive, hw⟩, hgone⟩
    · rw [hm.io.new_serial event hnew] at hw
      exact absurd (h.watch_lt _ w hw) (Nat.lt_irrefl _)
  · rintro ⟨⟨hlive, hw⟩, hgone⟩
    refine ⟨Or.inl ⟨hlive, hgone⟩, ?_⟩
    rw [hm.io.serial event hlive]
    exact hw

theorem Base.timeoutEvent_iff (h : Base s) (hm : s.loop.Moved loop v) (hspares : s.Spares v)
    (hs' : s'.loop = loop) (htimeout : s'.timeoutOf = s.timeoutOf) : s'.TimeoutEvent d e ↔ s.TimeoutEvent d e := by
  unfold TimeoutEvent
  rw [hs', htimeout, hm.timeouts.mem e]
  constructor
  · rintro ⟨⟨hlive, -⟩ | hnew, hd⟩
    · exact ⟨hlive, hd⟩
    · rw [hm.timeouts.new_eq e hnew] at hd
      exact absurd (h.timeout_lt _ d hd) (Nat.lt_irrefl _)
  · rintro ⟨hlive, hd⟩
    exact ⟨Or.inl ⟨hlive, fun hgone => absurd (hspares.timeoutsGone e hgone) (by rw [hd]; simp)⟩, hd⟩

/-- **Who is notified**: the watches whose event leaves. -/
theorem Base.mem_notified (h : Base s) (hloop : loop.Holds) (hm : s.loop.Moved loop v) :
    w ∈ s.notified loop ↔ ∃ event, s.WatchEvent w event ∧ event ∈ v.ioGone := by
  obtain ⟨t, ht⟩ := hm.io.log
  have hmem : w ∈ s.notified loop ↔ ∃ e, .destroyed e ∈ t ∧ s.watchOf e = some w := by
    rw [notified, ht, List.drop_left, List.mem_filterMap]
    constructor
    · rintro ⟨m, hm, hw⟩
      cases m with
      | destroyed e => exact ⟨e, hm, hw⟩
      | called | returned | registered | removed | freed | clock => exact absurd hw (by simp)
    · rintro ⟨e, he, hw⟩
      exact ⟨.destroyed e, he, hw⟩
  rw [hmem]
  constructor
  · rintro ⟨e, he, hw⟩
    have hlt := h.watch_lt e w hw
    have hn := h.notifies e w hw
    obtain ⟨hin, hout⟩ := (h.loop.io.destroyed_iff hloop.io ht hlt hm.io.fresh_le hn
      (by rw [hm.io.notifies e hlt]; exact hn)).mp he
    obtain ⟨event, hlive, rfl⟩ := IoLoop.mem_serials.mp hin
    refine ⟨event, ⟨hlive, hw⟩, ?_⟩
    by_contra hstays
    refine hout (IoLoop.mem_serials.mpr ⟨event, (hm.io.mem event).mpr (Or.inl ⟨hlive, hstays⟩), ?_⟩)
    exact hm.io.serial event hlive
  · rintro ⟨event, ⟨hlive, hw⟩, hgone⟩
    have hlt := h.watch_lt _ w hw
    have hn := h.notifies _ w hw
    refine ⟨s.loop.io.serial event, ?_, hw⟩
    refine (h.loop.io.destroyed_iff hloop.io ht hlt hm.io.fresh_le hn
      (by rw [hm.io.notifies _ hlt]; exact hn)).mpr ⟨IoLoop.mem_serials.mpr ⟨event, hlive, rfl⟩, fun hin => ?_⟩
    obtain ⟨event', hlive', heq⟩ := IoLoop.mem_serials.mp hin
    rcases (hm.io.mem event').mp hlive' with ⟨hlive', hstays⟩ | hnew
    · rw [hm.io.serial event' hlive'] at heq
      rw [h.loop.io.inj event' hlive' event hlive heq] at hstays
      exact hstays hgone
    · rw [hm.io.new_serial event' hnew] at heq
      exact absurd hlt (by rw [← heq]; exact Nat.lt_irrefl _)

theorem Base.onLoop_watches (h : Base s) (hloop : loop.Holds) (hm : s.loop.Moved loop v)
    (hstays : ∀ event, s.WatchEvent w event → event ∉ v.ioGone) : (s.onLoop loop).watches w = s.watches w :=
  if_neg fun hmem => by
    obtain ⟨event, hevent, hgone⟩ := (h.mem_notified hloop hm).mp hmem
    exact hstays event hevent hgone

theorem Base.allowed_removeIo (h : Base s) (hevent : s.WatchEvent w event) :
    s.loop.loop.Allowed (.removeIo event) :=
  MainLoop.allowed_removeIo.mpr ⟨hevent.1, h.asked event w hevent⟩

/-- **The events after a step** of the main loop. -/
theorem Base.moved (h : Base s) (hloop : loop.Holds) (hm : s.loop.Moved loop v) (hspares : s.Spares v)
    (hs' : s'.loop = loop) (hwatch : s'.watchOf = s.watchOf) (htimeout : s'.timeoutOf = s.timeoutOf)
    (hdefined : s'.undefined = s.undefined) : Base s' := by
  refine ⟨hs' ▸ hloop, ?_, ?_, hdefined.trans h.defined, fun e w he => ?_, fun e w he => ?_, fun event w he => ?_,
    fun e d he => ?_, fun e d he => ?_, fun e d he => ?_⟩
  · rw [hs', hm.io.removals]
    exact hspares.io
  · rw [hs', hm.timeouts.removals]
    exact hspares.timeouts
  · rw [hwatch] at he
    rw [hs']
    exact Nat.lt_of_lt_of_le (h.watch_lt e w he) hm.io.fresh_le
  · rw [hwatch] at he
    rw [hs', hm.io.notifies e (h.watch_lt e w he)]
    exact h.notifies e w he
  · obtain ⟨hevent, hstays⟩ := (h.watchEvent_iff hm hs' hwatch).mp he
    rw [hs', hm.io.removals, hm.io.serial event hevent.1, List.mem_append, not_or]
    exact ⟨h.asked event w hevent, fun hask => hstays (hspares.ioAsked event w hevent hask)⟩
  · rw [htimeout] at he
    rw [hs']
    exact Nat.lt_of_lt_of_le (h.timeout_lt e d he) hm.timeouts.fresh_le
  · rw [htimeout] at he
    rw [hs', hm.timeouts.repeats e (h.timeout_lt e d he)]
    exact h.repeats e d he
  · rw [htimeout] at he
    rw [hs', hm.timeouts.removals, List.mem_append, not_or]
    exact ⟨h.timeout_asked e d he, fun hask => absurd (hspares.timeoutsAsked e hask) (by rw [he]; simp)⟩

theorem WatchInv.moved (hw : WatchInv s w) (h : Base s) (hm : s.loop.Moved loop v) (hs' : s'.loop = loop)
    (hwatch : s'.watchOf = s.watchOf) (hsame : s'.watches w = s.watches w)
    (hstays : ∀ event, s.WatchEvent w event → event ∉ v.ioGone)
    (hblock : s'.block = s.block ∨ ¬ (s.watches w).Active) : WatchInv s' w := by
  refine ⟨fun hactive => ?_, fun hno => ?_, fun event he => ?_⟩
  · rw [hsame] at hactive ⊢
    obtain ⟨event, hevent, hdata⟩ := hw.active hactive
    rw [hblock.resolve_right fun hno => hno hactive]
    exact ⟨event, (h.watchEvent_iff hm hs' hwatch).mpr ⟨hevent, hstays event hevent⟩, hdata⟩
  · rw [hsame] at hno ⊢
    exact hw.null hno
  · obtain ⟨hevent, -⟩ := (h.watchEvent_iff hm hs' hwatch).mp he
    obtain ⟨hactive, hdata⟩ := hw.owned event hevent
    rw [hsame, hblock.resolve_right fun hno => hno hactive]
    exact ⟨hactive, hdata⟩

theorem TimeoutInv.moved (hd : TimeoutInv s d) (h : Base s) (hm : s.loop.Moved loop v) (hspares : s.Spares v)
    (hs' : s'.loop = loop) (htimeout : s'.timeoutOf = s.timeoutOf) (hsame : s'.timeouts d = s.timeouts d) :
    TimeoutInv s' d := by
  refine ⟨fun hactive => ?_, fun hno => ?_, fun event he => ?_⟩
  · rw [hsame] at hactive ⊢
    obtain ⟨event, hevent, hdata⟩ := hd.active hactive
    exact ⟨event, (h.timeoutEvent_iff hm hspares hs' htimeout).mpr hevent, hdata⟩
  · rw [hsame] at hno ⊢
    exact hd.null hno
  · rw [hsame]
    exact hd.owned event ((h.timeoutEvent_iff hm hspares hs' htimeout).mp he)

/-- A step of the main loop in which no watch loses its event. -/
theorem Inv.frame (h : Inv s) (hloop : loop.Holds) (hm : s.loop.Moved loop v) (hspares : s.Spares v)
    (hgone : ∀ event w, s.WatchEvent w event → event ∉ v.ioGone) (block reallocs : ℕ)
    (hblock : block = s.block ∨ ∀ w, ¬ (s.watches w).Active) :
    Inv { s.onLoop loop with block := block, reallocs := reallocs } := by
  have hsame : ∀ w, (s.onLoop loop).watches w = s.watches w := fun w =>
    h.base.onLoop_watches hloop hm fun event hevent => hgone event w hevent
  refine ⟨h.base.moved hloop hm hspares rfl rfl rfl rfl, fun w => ?_, fun d => ?_⟩
  · exact (h.watch w).moved h.base hm rfl rfl (hsame w) (fun event hevent => hgone event w hevent)
      (hblock.imp_right fun hno => hno w)
  · exact (h.timeout d).moved h.base hm hspares rfl rfl rfl

/-- Moves that ask for no removal and take no timeout away. -/
theorem Base.spares (h : Base s) (htimeouts : v.timeoutsGone = []) (hasked : v.timeoutsAsked = [])
    (hio : v.ioAsked = []) : s.Spares v where
  timeoutsGone e he := absurd (htimeouts ▸ he) List.not_mem_nil
  timeoutsAsked e he := absurd (hasked ▸ he) List.not_mem_nil
  ioAsked event w _ he := absurd (hio ▸ he) List.not_mem_nil
  io := by rw [hio, List.append_nil]; exact h.io
  timeouts := by rw [hasked, List.append_nil]; exact h.timeouts

theorem Base.spares_theirs (h : Base s) {a : LoopAction} (hallowed : s.loop.loop.Allowed a) (htheirs : s.Theirs a) :
    s.Spares (s.loop.actMoves a) ∧ ∀ event w, s.WatchEvent w event → event ∉ (s.loop.actMoves a).ioGone := by
  cases a with
  | registerTimeout | registerIo | quit => exact ⟨h.spares rfl rfl rfl, fun _ _ _ => List.not_mem_nil⟩
  | removeTimeout event =>
    have hok : s.loop.timeouts.Allowed (.remove event) := hallowed.1 _ (List.mem_singleton_self _)
    refine ⟨⟨fun e he => ?_, fun e he => ?_, fun _ _ _ he => absurd he List.not_mem_nil, ?_, ?_⟩,
      fun _ _ _ => List.not_mem_nil⟩
    · change e ∈ (if s.loop.running.timeoutEvent = some event then [] else [event]) at he
      split at he
      · exact absurd he List.not_mem_nil
      · rw [List.mem_singleton.mp he]
        exact htheirs
    · rw [List.mem_singleton.mp he]
      exact htheirs
    · exact (List.append_nil _).symm ▸ h.io
    · refine List.Nodup.append h.timeouts (List.nodup_singleton event) fun e he he' => hok.2 ?_
      rwa [List.mem_singleton.mp he'] at he
  | removeIo event =>
    have hok : s.loop.io.Allowed (.remove event) := hallowed.2 _ (List.mem_singleton_self _)
    have hother : ∀ event' w, s.WatchEvent w event' → s.loop.io.serial event' ≠ s.loop.io.serial event := by
      intro event' w hevent heq
      have hw := hevent.2
      rw [heq, show s.watchOf (s.loop.io.serial event) = none from htheirs] at hw
      exact absurd hw (by simp)
    refine ⟨⟨fun _ he => absurd he List.not_mem_nil, fun _ he => absurd he List.not_mem_nil,
      fun event' w hevent he => ?_, ?_, ?_⟩, fun event' w hevent he => ?_⟩
    · exact absurd (List.mem_singleton.mp he) (hother event' w hevent)
    · refine List.Nodup.append h.io (List.nodup_singleton _) fun e he he' => hok.2 ?_
      rwa [List.mem_singleton.mp he'] at he
    · exact (List.append_nil _).symm ▸ h.timeouts
    · change event' ∈ (if s.loop.running.ioEvent = some (s.loop.io.serial event) then [] else [event]) at he
      split at he
      · exact absurd he List.not_mem_nil
      · rw [List.mem_singleton.mp he] at hevent
        exact hother event w hevent rfl

theorem Base.spares_leave (h : Base s) :
    s.Spares s.loop.leaveMoves ∧ ∀ event w, s.WatchEvent w event → event ∉ s.loop.leaveMoves.ioGone := by
  unfold RunningLoop.leaveMoves
  split
  · exact ⟨h.spares rfl rfl rfl, fun _ _ _ => List.not_mem_nil⟩
  · next event hrun =>
    refine ⟨⟨fun e he => ?_, fun _ he => absurd he List.not_mem_nil, fun _ _ _ he => absurd he List.not_mem_nil,
      (List.append_nil _).symm ▸ h.io, (List.append_nil _).symm ▸ h.timeouts⟩, fun _ _ _ => List.not_mem_nil⟩
    dsimp only at he
    split at he
    · exact absurd he List.not_mem_nil
    · next hgoes =>
      rw [List.mem_singleton.mp he]
      refine Option.eq_none_iff_forall_ne_some.mpr fun d hd => hgoes ?_
      exact ⟨h.timeout_asked event d hd, h.repeats event d hd⟩
  · next event r hrun =>
    refine ⟨h.spares rfl rfl rfl, fun event' w hevent he => ?_⟩
    dsimp only at he
    split at he
    · next hask =>
      rw [List.mem_singleton.mp he] at hevent
      refine h.asked event w hevent ?_
      rw [(h.loop.ioLive event r hrun).2]
      exact hask
    · exact absurd he List.not_mem_nil

/-! ### Adding and removing -/

/-- **Attaching an event** to a watch that has none. -/
theorem attachWatch_inv {r : ℕ} (hbase : Base s) (hothers : ∀ w' ≠ w, WatchInv s w') (htimeouts : ∀ d, TimeoutInv s d)
    (hnone : ∀ event, ¬ s.WatchEvent w event) (hactive : (s.watches w).Active)
    (hlive : event ∈ s.loop.io.ioHandler.live) (hserial : s.loop.io.serial event = r) (hfree : s.watchOf r = none)
    (hnotifies : s.loop.io.notifies r = true) (hasked : r ∉ removals s.loop.io.log) :
    Inv (s.attachWatch w r event) := by
  have hwatchOf : ∀ e, (s.attachWatch w r event).watchOf e = if e = r then some w else s.watchOf e := fun e =>
    Function.update_apply ..
  have hevent : ∀ w' event', (s.attachWatch w r event).WatchEvent w' event' ↔
      s.WatchEvent w' event' ∨ w' = w ∧ event' = event := by
    intro w' event'
    unfold WatchEvent
    rw [hwatchOf]
    show event' ∈ s.loop.io.ioHandler.live ∧ (if s.loop.io.serial event' = r then some w else _) = some w' ↔ _
    by_cases heq : s.loop.io.serial event' = r
    · rw [if_pos heq, heq, hfree]
      constructor
      · rintro ⟨hlive', hw'⟩
        exact Or.inr ⟨(Option.some.inj hw').symm, hbase.loop.io.inj event' hlive' event hlive (heq.trans hserial.symm)⟩
      · rintro (⟨-, hno⟩ | ⟨rfl, rfl⟩)
        · exact absurd hno (by simp)
        · exact ⟨hlive, rfl⟩
    · rw [if_neg heq]
      refine (or_iff_left ?_).symm
      rintro ⟨-, rfl⟩
      exact heq hserial
  refine ⟨⟨hbase.loop, hbase.io, hbase.timeouts, hbase.defined, fun e w' he => ?_, fun e w' he => ?_,
    fun event' w' he => ?_, hbase.timeout_lt, hbase.repeats, hbase.timeout_asked⟩, fun w' => ?_, fun d => ?_⟩
  · rw [hwatchOf] at he
    split at he
    · next heq =>
      rw [heq, ← hserial]
      exact hbase.loop.io.lt event hlive
    · exact hbase.watch_lt e w' he
  · rw [hwatchOf] at he
    split at he
    · next heq =>
      rw [heq]
      exact hnotifies
    · exact hbase.notifies e w' he
  · rcases (hevent w' event').mp he with hold | ⟨-, rfl⟩
    · exact hbase.asked event' w' hold
    · show s.loop.io.serial event' ∉ removals s.loop.io.log
      rw [hserial]
      exact hasked
  · by_cases hw : w' = w
    · rw [hw]
      have hwatch : (s.attachWatch w r event).watches w = { s.watches w with data := some ⟨s.block, event⟩ } :=
        Function.update_self ..
      refine ⟨fun _ => ⟨event, (hevent w event).mpr (Or.inr ⟨rfl, rfl⟩), by rw [hwatch]; rfl⟩, fun hno => ?_,
        fun event' he => ?_⟩
      · rw [hwatch] at hno
        exact absurd hactive hno
      · rw [hwatch]
        rcases (hevent w event').mp he with hold | ⟨-, rfl⟩
        · exact absurd hold (hnone event')
        · exact ⟨hactive, rfl⟩
    · have hwatch : (s.attachWatch w r event).watches w' = s.watches w' := Function.update_of_ne hw ..
      have hevent' : ∀ event', (s.attachWatch w r event).WatchEvent w' event' ↔ s.WatchEvent w' event' := fun event' =>
        (hevent w' event').trans (or_iff_left fun hno => hw hno.1)
      obtain ⟨hact, hnull, howned⟩ := hothers w' hw
      refine ⟨fun hyes => ?_, fun hno => ?_, fun event' he => ?_⟩
      · rw [hwatch] at hyes ⊢
        obtain ⟨event', he, hdata⟩ := hact hyes
        exact ⟨event', (hevent' event').mpr he, hdata⟩
      · rw [hwatch] at hno ⊢
        exact hnull hno
      · rw [hwatch]
        exact howned event' ((hevent' event').mp he)
  · exact ⟨(htimeouts d).active, (htimeouts d).null, (htimeouts d).owned⟩

/-- **Adding a watch** that has no event. -/
theorem addDBusWatch_inv (hbase : Base s) (hothers : ∀ w' ≠ w, WatchInv s w') (htimeouts : ∀ d, TimeoutInv s d)
    (hnone : ∀ event, ¬ s.WatchEvent w event) (hphase : (s.watches w).phase = .added)
    (hdata : (s.watches w).data = none) {malloc : KeyPtr}
    (hroom : (s.watches w).enabled = true → s.Room (s.watches w).fd (s.watches w).flags malloc)
    (hstays : (s.watches w).enabled = true →
      (s.grows (.registerIo (s.watches w).fd (watchFlags (s.watches w).flags) true malloc) &&
          moves s.reallocs) = false ∨
        ∀ w' ≠ w, ¬ (s.watches w').Active) : Inv (s.addDBusWatch moves w malloc) := by
  rw [addDBusWatch]
  dsimp only
  by_cases henabled : (s.watches w).enabled = false
  · rw [if_pos henabled]
    have hinactive : ¬ (s.watches w).Active := fun hactive => absurd (henabled.symm.trans hactive.2) (by decide)
    refine ⟨hbase, fun w' => ?_, htimeouts⟩
    by_cases hw : w' = w
    · rw [hw]
      exact ⟨fun hactive => absurd hactive hinactive, fun _ => hdata, fun event hevent => absurd hevent (hnone event)⟩
    · exact hothers w' hw
  rw [if_neg henabled]
  rw [Bool.not_eq_false] at henabled
  obtain ⟨hloop, hm⟩ := hbase.loop.act (hroom henabled)
  obtain ⟨-, -, hnotifies⟩ := hbase.loop.io.moved_register hbase.loop.io_lt
    ((hroom henabled).2 _ (List.mem_singleton_self _))
  set a : LoopAction := .registerIo (s.watches w).fd (watchFlags (s.watches w).flags) true malloc with ha
  have hspares : s.Spares (s.loop.actMoves a) := hbase.spares rfl rfl rfl
  have hsame : ∀ w', (s.act moves a).watches w' = s.watches w' := fun _ =>
    hbase.onLoop_watches hloop hm fun _ _ => List.not_mem_nil
  have hserial : (s.act moves a).loop.io.serial
      (s.loop.io.registerIoEvent (s.watches w).fd (watchFlags (s.watches w).flags) true malloc).1 = s.loop.io.fresh :=
    hm.io.new_serial _ (List.mem_singleton_self _)
  have hremovals : removals (s.act moves a).loop.io.log = removals s.loop.io.log :=
    hm.io.removals.trans (List.append_nil _)
  refine attachWatch_inv (hbase.moved hloop hm hspares rfl rfl rfl rfl) (fun w' hne => ?_) (fun d => ?_)
    (fun event hevent => ?_) ?_ ((hm.io.mem _).mpr (Or.inr (List.mem_singleton_self _))) hserial ?_ hnotifies ?_
  · refine (hothers w' hne).moved hbase hm rfl rfl (hsame w') (fun _ _ => List.not_mem_nil) ?_
    refine (hstays henabled).imp (fun hno => ?_) fun hno => hno w' hne
    exact if_neg (by rw [hno]; decide)
  · exact (htimeouts d).moved hbase hm hspares rfl rfl rfl
  · exact hnone event ((hbase.watchEvent_iff hm (show (s.act moves a).loop = _ from rfl) rfl).mp hevent).1
  · rw [hsame]
    exact ⟨hphase, henabled⟩
  · refine Option.eq_none_iff_forall_ne_some.mpr fun w' hw' => ?_
    exact absurd (hbase.watch_lt _ w' hw') (Nat.lt_irrefl _)
  · rw [hremovals]
    exact fun hask => Nat.lt_irrefl _ (hbase.loop.io.removed_lt _ hask)

/-- **Removing a watch** whose event does not run. -/
theorem removeDBusWatch_inv (hbase : Base s) (hothers : ∀ w' ≠ w, WatchInv s w') (htimeouts : ∀ d, TimeoutInv s d)
    (hinactive : ¬ (s.watches w).Active)
    (hevent : ∀ event, s.WatchEvent w event → (s.watches w).data = some ⟨s.block, event⟩)
    (hdata : ∀ p, (s.watches w).data = some p → ∃ event, s.WatchEvent w event) (hstill : s.Still w) :
    Inv (s.removeDBusWatch moves w) := by
  cases hpointer : (s.watches w).data with
  | none =>
    have hremove : s.removeDBusWatch moves w = s := by
      rw [removeDBusWatch, hpointer]
    rw [hremove]
    refine ⟨hbase, fun w' => ?_, htimeouts⟩
    by_cases hw : w' = w
    · rw [hw]
      refine ⟨fun hactive => absurd hactive hinactive, fun _ => hpointer, fun event he => ?_⟩
      exact absurd (hpointer.symm.trans (hevent event he)) (by simp)
    · exact hothers w' hw
  | some p =>
    obtain ⟨event, he⟩ := hdata p hpointer
    obtain rfl : (⟨s.block, event⟩ : IoEventPtr) = p := Option.some.inj ((hevent event he).symm.trans hpointer)
    have hremove : s.removeDBusWatch moves w = s.act moves (.removeIo event) := by
      rw [removeDBusWatch, hpointer]
      exact if_neg fun hne => hne rfl
    obtain ⟨hloop, hm⟩ := hbase.loop.act (hbase.allowed_removeIo he)
    have hgone : (s.loop.actMoves (.removeIo event)).ioGone = [event] := by
      refine if_neg fun hrun => ?_
      obtain ⟨event', hrun⟩ := Running.ioEvent_eq_some.mp hrun
      exact hstill event' _ hrun he.2
    have hspares : s.Spares (s.loop.actMoves (.removeIo event)) := by
      refine ⟨fun _ h => absurd h List.not_mem_nil, fun _ h => absurd h List.not_mem_nil,
        fun event' w' he' hask => ?_, ?_, (List.append_nil _).symm ▸ hbase.timeouts⟩
      · rw [hgone, hbase.loop.io.inj event' he'.1 event he.1 (List.mem_singleton.mp hask)]
        exact List.mem_singleton_self _
      · refine List.Nodup.append hbase.io (List.nodup_singleton _) fun e hin hask => hbase.asked event w he ?_
        rwa [List.mem_singleton.mp hask] at hin
    have hnotified : ∀ w', w' ∈ s.notified (s.loop.act (.removeIo event)) ↔ w' = w := by
      intro w'
      rw [hbase.mem_notified hloop hm, hgone]
      constructor
      · rintro ⟨event', he', hmem⟩
        rw [List.mem_singleton.mp hmem] at he'
        exact Option.some.inj (he'.2.symm.trans he.2)
      · rintro rfl
        exact ⟨event, he, List.mem_singleton_self _⟩
    rw [hremove]
    refine ⟨hbase.moved hloop hm hspares rfl rfl rfl rfl, fun w' => ?_, fun d => ?_⟩
    · by_cases hw : w' = w
      · rw [hw]
        have hwatch : (s.act moves (.removeIo event)).watches w = { s.watches w with data := none } :=
          if_pos ((hnotified w).mpr rfl)
        refine ⟨fun hactive => ?_, fun _ => by rw [hwatch], fun event' he' => ?_⟩
        · rw [hwatch] at hactive
          exact absurd hactive hinactive
        · obtain ⟨hold, hstays⟩ :=
            (hbase.watchEvent_iff hm (show (s.act moves (.removeIo event)).loop = _ from rfl) rfl).mp he'
          have heq : event' = event := congrArg IoEventPtr.event
            (Option.some.inj ((hevent event' hold).symm.trans hpointer))
          exact absurd (by rw [hgone, heq]; exact List.mem_singleton_self _) hstays
      · have hwatch : (s.act moves (.removeIo event)).watches w' = s.watches w' :=
          if_neg fun hmem => hw ((hnotified w').mp hmem)
        refine (hothers w' hw).moved hbase hm rfl rfl hwatch (fun event' he' hmem => ?_) (Or.inl rfl)
        rw [hgone, List.mem_singleton] at hmem
        rw [hmem] at he'
        exact hw (Option.some.inj (he'.2.symm.trans he.2))
    · exact (htimeouts d).moved hbase hm hspares rfl rfl rfl

/-- **Attaching an event** to a timeout that has none. -/
theorem attachTimeout_inv {event : ℕ} (hbase : Base s) (hwatches : ∀ w, WatchInv s w)
    (hothers : ∀ d' ≠ d, TimeoutInv s d') (hnone : ∀ e, ¬ s.TimeoutEvent d e) (hactive : (s.timeouts d).Active)
    (hlive : event ∈ s.loop.timeouts.timeouts) (hfree : s.timeoutOf event = none)
    (hrepeats : (s.loop.timeouts.eventAt event).repeats = true) (hasked : event ∉ removals s.loop.timeouts.log) :
    Inv (s.attachTimeout d event) := by
  have htimeoutOf : ∀ e, (s.attachTimeout d event).timeoutOf e = if e = event then some d else s.timeoutOf e :=
    fun e => Function.update_apply ..
  have hevent : ∀ d' e, (s.attachTimeout d event).TimeoutEvent d' e ↔ s.TimeoutEvent d' e ∨ d' = d ∧ e = event := by
    intro d' e
    unfold TimeoutEvent
    rw [htimeoutOf]
    show e ∈ s.loop.timeouts.timeouts ∧ (if e = event then some d else s.timeoutOf e) = some d' ↔ _
    by_cases heq : e = event
    · rw [if_pos heq, heq, hfree]
      constructor
      · rintro ⟨-, hd'⟩
        exact Or.inr ⟨(Option.some.inj hd').symm, rfl⟩
      · rintro (⟨-, hno⟩ | ⟨rfl, -⟩)
        · exact absurd hno (by simp)
        · exact ⟨hlive, rfl⟩
    · rw [if_neg heq]
      exact (or_iff_left fun hno => heq hno.2).symm
  refine ⟨⟨hbase.loop, hbase.io, hbase.timeouts, hbase.defined, hbase.watch_lt, hbase.notifies, hbase.asked,
    fun e d' he => ?_, fun e d' he => ?_, fun e d' he => ?_⟩, fun w => ?_, fun d' => ?_⟩
  · rw [htimeoutOf] at he
    split at he
    · next heq =>
      rw [heq]
      exact hbase.loop.timeouts.lt event hlive
    · exact hbase.timeout_lt e d' he
  · rw [htimeoutOf] at he
    split at he
    · next heq =>
      rw [heq]
      exact hrepeats
    · exact hbase.repeats e d' he
  · rw [htimeoutOf] at he
    split at he
    · next heq =>
      rw [heq]
      exact hasked
    · exact hbase.timeout_asked e d' he
  · exact ⟨(hwatches w).active, (hwatches w).null, (hwatches w).owned⟩
  · by_cases hd : d' = d
    · rw [hd]
      have htimeout : (s.attachTimeout d event).timeouts d = { s.timeouts d with data := some event } :=
        Function.update_self ..
      refine ⟨fun _ => ⟨event, (hevent d event).mpr (Or.inr ⟨rfl, rfl⟩), by rw [htimeout]⟩, fun hno => ?_,
        fun e he => ?_⟩
      · rw [htimeout] at hno
        exact absurd hactive hno
      · rw [htimeout]
        rcases (hevent d e).mp he with hold | ⟨-, rfl⟩
        · exact absurd hold (hnone e)
        · exact ⟨hactive, rfl⟩
    · have htimeout : (s.attachTimeout d event).timeouts d' = s.timeouts d' := Function.update_of_ne hd ..
      have hsame : ∀ e, (s.attachTimeout d event).TimeoutEvent d' e ↔ s.TimeoutEvent d' e := fun e =>
        (hevent d' e).trans (or_iff_left fun hno => hd hno.1)
      obtain ⟨hact, hnull, howned⟩ := hothers d' hd
      refine ⟨fun hyes => ?_, fun hno => ?_, fun e he => ?_⟩
      · rw [htimeout] at hyes ⊢
        obtain ⟨e, he, hdata⟩ := hact hyes
        exact ⟨e, (hsame e).mpr he, hdata⟩
      · rw [htimeout] at hno ⊢
        exact hnull hno
      · rw [htimeout]
        exact howned e ((hsame e).mp he)

/-- **Adding a timeout** that has no event. -/
theorem addTimeout_inv (hbase : Base s) (hwatches : ∀ w, WatchInv s w) (hothers : ∀ d' ≠ d, TimeoutInv s d')
    (hnone : ∀ event, ¬ s.TimeoutEvent d event) (hphase : (s.timeouts d).phase = .added)
    (hdata : (s.timeouts d).data = none) : Inv (s.addTimeout moves d) := by
  rw [addTimeout]
  dsimp only
  by_cases henabled : (s.timeouts d).enabled = false
  · rw [if_pos henabled]
    have hinactive : ¬ (s.timeouts d).Active := fun hactive => absurd (henabled.symm.trans hactive.2) (by decide)
    refine ⟨hbase, hwatches, fun d' => ?_⟩
    by_cases hd : d' = d
    · rw [hd]
      exact ⟨fun hactive => absurd hactive hinactive, fun _ => hdata, fun event hevent => absurd hevent (hnone event)⟩
    · exact hothers d' hd
  rw [if_neg henabled]
  rw [Bool.not_eq_false] at henabled
  set a : LoopAction := .registerTimeout ((s.timeouts d).interval % 0x100000000).toNat true false with ha
  obtain ⟨hloop, hm⟩ := hbase.loop.act (s.loop.loop.allowed_registerTimeout _ true false)
  obtain ⟨-, -, hrepeats⟩ := hbase.loop.timeouts.moved_register hbase.loop.timeout_mem
    ((s.timeouts d).interval % 0x100000000).toNat true false
  have hspares : s.Spares (s.loop.actMoves a) := hbase.spares rfl rfl rfl
  have hnotified : ∀ w, (s.act moves a).watches w = s.watches w := fun _ =>
    hbase.onLoop_watches hloop hm fun _ _ => List.not_mem_nil
  have hremovals : removals (s.act moves a).loop.timeouts.log = removals s.loop.timeouts.log :=
    hm.timeouts.removals.trans (List.append_nil _)
  refine attachTimeout_inv (hbase.moved hloop hm hspares rfl rfl rfl rfl) (fun w => ?_) (fun d' hne => ?_)
    (fun event hevent => ?_) ⟨hphase, henabled⟩ ((hm.timeouts.mem _).mpr (Or.inr (List.mem_singleton_self _))) ?_
    hrepeats ?_
  · exact (hwatches w).moved hbase hm rfl rfl (hnotified w) (fun _ _ => List.not_mem_nil) (Or.inl rfl)
  · exact (hothers d' hne).moved hbase hm hspares rfl rfl rfl
  · exact hnone event
      ((hbase.timeoutEvent_iff hm hspares (show (s.act moves a).loop = _ from rfl) rfl).mp hevent)
  · refine Option.eq_none_iff_forall_ne_some.mpr fun d' hd' => ?_
    exact absurd (hbase.timeout_lt _ d' hd') (Nat.lt_irrefl _)
  · rw [hremovals]
    exact fun hask => Nat.lt_irrefl _ (hbase.loop.timeouts.removed_lt _ hask)

/-! ### Steps -/

theorem Inv.no_event (h : Inv s) (hinactive : ¬ (s.watches w).Active) (event : ℤ) : ¬ s.WatchEvent w event :=
  fun hevent => hinactive ((h.watch w).owned event hevent).1

theorem Inv.setWatch (h : Inv s) (watch : DBusWatch) :
    Base (s.setWatch w watch) ∧ (∀ w' ≠ w, WatchInv (s.setWatch w watch) w') ∧
      ∀ d, TimeoutInv (s.setWatch w watch) d := by
  obtain ⟨hbase, hwatch, htimeout⟩ := h
  refine ⟨⟨hbase.loop, hbase.io, hbase.timeouts, hbase.defined, hbase.watch_lt, hbase.notifies, hbase.asked,
    hbase.timeout_lt, hbase.repeats, hbase.timeout_asked⟩, fun w' hne => ?_, fun d => ?_⟩
  · have hsame : (s.setWatch w watch).watches w' = s.watches w' := Function.update_of_ne hne ..
    obtain ⟨hact, hnull, howned⟩ := hwatch w'
    refine ⟨fun hyes => ?_, fun hno => ?_, fun event he => ?_⟩
    · rw [hsame] at hyes ⊢
      exact hact hyes
    · rw [hsame] at hno ⊢
      exact hnull hno
    · rw [hsame]
      exact howned event he
  · exact ⟨(htimeout d).active, (htimeout d).null, (htimeout d).owned⟩

theorem Inv.setTimeout (h : Inv s) (timeout : DBusTimeout) :
    Base (s.setTimeout d timeout) ∧ (∀ w, WatchInv (s.setTimeout d timeout) w) ∧
      ∀ d' ≠ d, TimeoutInv (s.setTimeout d timeout) d' := by
  obtain ⟨hbase, hwatch, htimeout⟩ := h
  refine ⟨⟨hbase.loop, hbase.io, hbase.timeouts, hbase.defined, hbase.watch_lt, hbase.notifies, hbase.asked,
    hbase.timeout_lt, hbase.repeats, hbase.timeout_asked⟩, fun w => ?_, fun d' hne => ?_⟩
  · exact ⟨(hwatch w).active, (hwatch w).null, (hwatch w).owned⟩
  · have hsame : (s.setTimeout d timeout).timeouts d' = s.timeouts d' := Function.update_of_ne hne ..
    obtain ⟨hact, hnull, howned⟩ := htimeout d'
    refine ⟨fun hyes => ?_, fun hno => ?_, fun event he => ?_⟩
    · rw [hsame] at hyes ⊢
      exact hact hyes
    · rw [hsame] at hno ⊢
      exact hnull hno
    · rw [hsame]
      exact howned event he

theorem WatchInv.pointer (h : WatchInv s w) :
    (∀ event, s.WatchEvent w event → (s.watches w).data = some ⟨s.block, event⟩) ∧
      ∀ p, (s.watches w).data = some p → ∃ event, s.WatchEvent w event := by
  refine ⟨fun event hevent => (h.owned event hevent).2, fun p hp => ?_⟩
  by_cases hactive : (s.watches w).Active
  · obtain ⟨event, hevent, -⟩ := h.active hactive
    exact ⟨event, hevent⟩
  · exact absurd ((h.null hactive).symm.trans hp) (by simp)

theorem Inv.addWatch (h : Inv s) {fd : ℤ} {flags : ℕ} {enabled : Bool} {malloc : KeyPtr}
    (hok : s.Ok (.addWatch w fd flags enabled malloc)) (hclear : s.Clear moves (.addWatch w fd flags enabled malloc)) :
    Inv (s.step moves (.addWatch w fd flags enabled malloc)) := by
  obtain ⟨hphase, hroom⟩ := hok
  have hinactive : ¬ (s.watches w).Active := fun hactive => absurd (hphase.symm.trans hactive.1) (by decide)
  have hself : (s.setWatch w ⟨fd, flags, enabled, .added, none⟩).watches w = ⟨fd, flags, enabled, .added, none⟩ :=
    Function.update_self ..
  obtain ⟨hbase, hothers, htimeouts⟩ := h.setWatch (w := w) ⟨fd, flags, enabled, .added, none⟩
  refine addDBusWatch_inv hbase hothers htimeouts (h.no_event hinactive) (by rw [hself]) (by rw [hself]) ?_ ?_
  · rw [hself]
    exact hroom
  · rw [hself]
    intro henabled
    refine (hclear henabled).imp_right fun hno w' hne => ?_
    rw [show (s.setWatch w ⟨fd, flags, enabled, .added, none⟩).watches w' = s.watches w' from
      Function.update_of_ne hne ..]
    exact hno w'

theorem Inv.toggleWatch (h : Inv s) {malloc : KeyPtr} (hok : s.Ok (.toggleWatch w malloc))
    (hclear : s.Clear moves (.toggleWatch w malloc)) : Inv (s.step moves (.toggleWatch w malloc)) := by
  obtain ⟨hphase, hroom⟩ := hok
  set toggled : DBusWatch := { s.watches w with enabled := !(s.watches w).enabled } with htoggled
  have hself : (s.setWatch w toggled).watches w = toggled := Function.update_self ..
  obtain ⟨hbase, hothers, htimeouts⟩ := h.setWatch (w := w) toggled
  show Inv ((s.setWatch w toggled).toggleDBusWatch moves w malloc)
  rw [toggleDBusWatch, hself]
  rw [Clear] at hclear
  by_cases henabled : (s.watches w).enabled = true
  · rw [if_pos henabled] at hclear
    have hoff : toggled.enabled = false := by rw [htoggled, henabled]; rfl
    rw [if_neg (by rw [hoff]; decide)]
    obtain ⟨hevent, hdata⟩ := (h.watch w).pointer
    refine removeDBusWatch_inv hbase hothers htimeouts ?_ (fun event he => ?_) (fun p hp => ?_) hclear
    · rw [hself]
      exact fun hactive => absurd (hoff.symm.trans hactive.2) (by decide)
    · rw [hself]
      exact hevent event he
    · rw [hself] at hp
      exact hdata p hp
  · rw [if_neg henabled] at hclear
    have hinactive : ¬ (s.watches w).Active := fun hactive => henabled hactive.2
    rw [Bool.not_eq_true] at henabled
    have hon : toggled.enabled = true := by rw [htoggled, henabled]; rfl
    rw [if_pos hon]
    refine addDBusWatch_inv hbase hothers htimeouts (h.no_event hinactive) (by rw [hself]; exact hphase)
      (by rw [hself]; exact (h.watch w).null hinactive) ?_ ?_
    · rw [hself]
      exact fun _ => hroom henabled
    · rw [hself]
      refine fun _ => hclear.imp_right fun hno w' hne => ?_
      rw [show (s.setWatch w toggled).watches w' = s.watches w' from Function.update_of_ne hne ..]
      exact hno w'

theorem Inv.removeWatch (h : Inv s) (hclear : s.Clear moves (.removeWatch w)) :
    Inv (s.step moves (.removeWatch w)) := by
  set removed : DBusWatch := { s.watches w with phase := .removed } with hremoved
  have hself : (s.setWatch w removed).watches w = removed := Function.update_self ..
  obtain ⟨hbase, hothers, htimeouts⟩ := h.setWatch (w := w) removed
  obtain ⟨hevent, hdata⟩ := (h.watch w).pointer
  show Inv ((s.setWatch w removed).removeDBusWatch moves w)
  have hinactive : ¬ ((s.setWatch w removed).watches w).Active := by
    rw [hself]
    exact fun hactive => absurd hactive.1 (by simp [hremoved])
  refine removeDBusWatch_inv hbase hothers htimeouts hinactive (fun event he => ?_) (fun p hp => ?_) ?_
  · rw [hself]
    exact hevent event he
  · rw [hself] at hp
    exact hdata p hp
  · by_cases henabled : (s.watches w).enabled = true
    · exact hclear henabled
    · intro event r hrun hw
      obtain ⟨hlive, hserial⟩ := h.base.loop.ioLive event r hrun
      exact henabled ((h.watch w).owned event ⟨hlive, by rw [hserial]; exact hw⟩).1.2

/-- **One step** that releases what it should. -/
theorem Inv.step {op : DBusOp} (h : Inv s) (hok : s.Ok op) (hclear : s.Clear moves op) : Inv (s.step moves op) := by
  cases op with
  | addWatch w fd flags enabled malloc => exact h.addWatch hok hclear
  | toggleWatch w malloc => exact h.toggleWatch hok hclear
  | removeWatch w => exact h.removeWatch hclear
  | addTimeout d interval enabled =>
    have hphase : (s.timeouts d).phase = .fresh := hok
    have hinactive : ¬ (s.timeouts d).Active := fun hactive => absurd (hphase.symm.trans hactive.1) (by decide)
    have hself : (s.setTimeout d ⟨interval, enabled, .added, none⟩).timeouts d = ⟨interval, enabled, .added, none⟩ :=
      Function.update_self ..
    obtain ⟨hbase, hwatches, hothers⟩ := h.setTimeout (d := d) ⟨interval, enabled, .added, none⟩
    refine addTimeout_inv hbase hwatches hothers (fun event he => ?_) (by rw [hself]) (by rw [hself])
    exact hinactive ((h.timeout d).owned event he).1
  | toggleTimeout d =>
    have hphase : (s.timeouts d).phase = .added := hok
    have hoff : (s.timeouts d).enabled = false := hclear
    have hinactive : ¬ (s.timeouts d).Active := fun hactive => absurd (hoff.symm.trans hactive.2) (by decide)
    set toggled : DBusTimeout := { s.timeouts d with enabled := !(s.timeouts d).enabled } with htoggled
    have hself : (s.setTimeout d toggled).timeouts d = toggled := Function.update_self ..
    have hon : toggled.enabled = true := by rw [htoggled, hoff]; rfl
    obtain ⟨hbase, hwatches, hothers⟩ := h.setTimeout (d := d) toggled
    show Inv ((s.setTimeout d toggled).toggleTimeout moves d)
    rw [DBusLoop.toggleTimeout, hself, if_pos hon]
    refine addTimeout_inv hbase hwatches hothers (fun event he => ?_) (by rw [hself]; exact hphase)
      (by rw [hself]; exact (h.timeout d).null hinactive)
    exact hinactive ((h.timeout d).owned event he).1
  | removeTimeout d =>
    have hoff : (s.timeouts d).enabled = false := hclear
    have hinactive : ¬ (s.timeouts d).Active := fun hactive => absurd (hoff.symm.trans hactive.2) (by decide)
    have hnull := (h.timeout d).null hinactive
    set removed : DBusTimeout := { s.timeouts d with phase := .removed } with hremoved
    have hself : (s.setTimeout d removed).timeouts d = removed := Function.update_self ..
    obtain ⟨hbase, hwatches, hothers⟩ := h.setTimeout (d := d) removed
    show Inv ((s.setTimeout d removed).removeTimeout moves d)
    have hremove : (s.setTimeout d removed).removeTimeout moves d = s.setTimeout d removed := by
      rw [DBusLoop.removeTimeout, hself, show removed.data = none from hnull]
    rw [hremove]
    refine ⟨hbase, hwatches, fun d' => ?_⟩
    by_cases hd : d' = d
    · rw [hd]
      refine ⟨fun hactive => ?_, fun _ => by rw [hself]; exact hnull, fun event he => ?_⟩
      · rw [hself] at hactive
        exact absurd hactive.1 (by simp [hremoved])
      · exact absurd ((h.timeout d).owned event he).1 hinactive
    · exact hothers d' hd
  | other a =>
    obtain ⟨hallowed, htheirs⟩ := hok
    obtain ⟨hloop, hm⟩ := h.base.loop.act hallowed
    obtain ⟨hspares, hgone⟩ := h.base.spares_theirs hallowed htheirs
    refine h.frame hloop hm hspares hgone _ _ ?_
    exact hclear.imp_left fun hno => if_neg (by rw [hno]; decide)
  | enterTimeout event =>
    obtain ⟨hloop, hm⟩ := h.base.loop.enterTimeout hok.1 hok.2
    exact h.frame hloop hm (h.base.spares rfl rfl rfl) (fun _ _ _ => List.not_mem_nil) _ _ (Or.inl rfl)
  | enterIo event =>
    obtain ⟨hloop, hm⟩ := h.base.loop.enterIo hok.1 hok.2
    exact h.frame hloop hm (h.base.spares rfl rfl rfl) (fun _ _ _ => List.not_mem_nil) _ _ (Or.inl rfl)
  | leave =>
    obtain ⟨hloop, hm, -⟩ := h.base.loop.leave
    obtain ⟨hspares, hgone⟩ := h.base.spares_leave
    exact h.frame hloop hm hspares hgone _ _ (Or.inl rfl)

/-! ### What goes wrong otherwise -/

/-- An action keeps the state of a watch, and its data or clears it. -/
theorem act_watches (s : DBusLoop) (a : LoopAction) (w : ℕ) :
    (((s.act moves a).watches w).Active ↔ (s.watches w).Active) ∧
      (((s.act moves a).watches w).data = none ∨ ((s.act moves a).watches w).data = (s.watches w).data) := by
  have hwatch : (s.act moves a).watches w =
      if w ∈ s.notified (s.loop.act a) then { s.watches w with data := none } else s.watches w := rfl
  rw [hwatch]
  split
  · exact ⟨Iff.rfl, Or.inl rfl⟩
  · exact ⟨Iff.rfl, Or.inr rfl⟩

/-- When the pool moves, the data of an enabled watch is not its event any more. -/
theorem Inv.not_moved (h : Inv s) {a : LoopAction} (hmoves : (s.grows a && moves s.reallocs) = true)
    (hactive : (s.watches w).Active) (event : ℤ) :
    ((s.act moves a).watches w).data ≠ some ⟨(s.act moves a).block, event⟩ := by
  obtain ⟨event', -, hdata⟩ := (h.watch w).active hactive
  have hblock : (s.act moves a).block = s.block + 1 := if_pos hmoves
  rw [hblock]
  intro hnew
  rcases (act_watches s a w).2 with hnone | hsame
  · exact absurd (hnone.symm.trans hnew) (by simp)
  · rw [hsame, hdata] at hnew
    have heq := congrArg IoEventPtr.block (Option.some.inj hnew)
    exact absurd heq (Nat.ne_of_lt (Nat.lt_succ_self _))

/-- The step of another watch, or of somebody else, when the pool moves. -/
theorem Inv.stays (h : Inv s) {a : LoopAction} (hwatches : ∀ w, (s.watches w).Active →
      ∃ event, ((s.act moves a).watches w).data = some ⟨(s.act moves a).block, event⟩) : s.Stays moves a := by
  by_contra hno
  rw [Stays, not_or, Bool.not_eq_false] at hno
  obtain ⟨hmoves, hsome⟩ := hno
  refine hsome fun w hactive => ?_
  obtain ⟨event, hdata⟩ := hwatches w hactive
  exact h.not_moved hmoves hactive event hdata

/-- Removing the event that runs leaves the data of its watch. -/
theorem Inv.removes_late (h : Inv s) {watch : DBusWatch} (hsame : watch.data = (s.watches w).data)
    (hrun : ¬ s.Still w) :
    ((s.setWatch w watch).removeDBusWatch moves w).watches w = watch ∧ watch.data ≠ none := by
  unfold Still at hrun
  push Not at hrun
  obtain ⟨event, r, hrun, hw⟩ := hrun
  obtain ⟨hlive, hserial⟩ := h.base.loop.ioLive event r hrun
  have hevent : s.WatchEvent w event := ⟨hlive, by rw [hserial]; exact hw⟩
  obtain ⟨-, hdata⟩ := (h.watch w).owned event hevent
  have hself : (s.setWatch w watch).watches w = watch := Function.update_self ..
  obtain ⟨hbase, -, -⟩ := h.setWatch (w := w) watch
  have hremove : (s.setWatch w watch).removeDBusWatch moves w = (s.setWatch w watch).act moves (.removeIo event) := by
    rw [removeDBusWatch, hself, hsame, hdata]
    exact if_neg fun hne => hne rfl
  obtain ⟨hloop, hm⟩ := h.base.loop.act (h.base.allowed_removeIo hevent)
  have hgone : (s.loop.actMoves (.removeIo event)).ioGone = [] :=
    if_pos (Running.ioEvent_eq_some.mpr ⟨event, by rw [hrun]; exact congrArg _ hserial.symm⟩)
  refine ⟨?_, by rw [hsame, hdata]; simp⟩
  rw [hremove]
  refine (hbase.onLoop_watches hloop hm fun event' _ => ?_).trans hself
  rw [hgone]
  exact List.not_mem_nil

/-- Removing the event of a timeout leaves its data. -/
theorem Inv.removes_timeout (h : Inv s) {timeout : DBusTimeout} (hsame : timeout.data = (s.timeouts d).data)
    (hactive : (s.timeouts d).Active) :
    ((s.setTimeout d timeout).removeTimeout moves d).timeouts d = timeout ∧ timeout.data ≠ none := by
  obtain ⟨event, -, hdata⟩ := (h.timeout d).active hactive
  have hself : (s.setTimeout d timeout).timeouts d = timeout := Function.update_self ..
  refine ⟨?_, by rw [hsame, hdata]; simp⟩
  rw [removeTimeout, hself, hsame, hdata]
  exact hself

/-- Adding a watch while the pool moves the event of another one. -/
theorem Inv.stays_add (h : Inv s) {watch : DBusWatch} {malloc : KeyPtr} (henabled : watch.enabled = true)
    (hinactive : ¬ (s.watches w).Active)
    (hr : ReleasedOnce ((s.setWatch w watch).addDBusWatch moves w malloc)) :
    s.Stays moves (.registerIo watch.fd (watchFlags watch.flags) true malloc) := by
  set a : LoopAction := .registerIo watch.fd (watchFlags watch.flags) true malloc with ha
  have hself : (s.setWatch w watch).watches w = watch := Function.update_self ..
  have hadd : (s.setWatch w watch).addDBusWatch moves w malloc =
      ((s.setWatch w watch).act moves a).attachWatch w s.loop.io.fresh
        (s.loop.io.registerIoEvent watch.fd (watchFlags watch.flags) true malloc).1 := by
    rw [addDBusWatch, hself]
    exact if_neg (by simp [henabled])
  rw [hadd] at hr
  refine h.stays fun w' hactive => ?_
  have hne : w' ≠ w := fun heq => hinactive (heq ▸ hactive)
  have hother : (((s.setWatch w watch).act moves a).attachWatch w s.loop.io.fresh
      (s.loop.io.registerIoEvent watch.fd (watchFlags watch.flags) true malloc).1).watches w' =
        (s.act moves a).watches w' := by
    refine (Function.update_of_ne hne ..).trans ?_
    show (if w' ∈ s.notified (s.loop.act a) then { (s.setWatch w watch).watches w' with data := none }
      else (s.setWatch w watch).watches w') = _
    rw [show (s.setWatch w watch).watches w' = s.watches w' from Function.update_of_ne hne ..]
    rfl
  obtain ⟨event, -, hdata⟩ := hr.watch w' (by rw [hother]; exact (act_watches s a w').1.mpr hactive)
  rw [hother] at hdata
  exact ⟨event, hdata⟩

/-- **A step that breaks the rule** is one that does not release what it should. -/
theorem Inv.clear {op : DBusOp} (h : Inv s) (hok : s.Ok op) (hr : ReleasedOnce (s.step moves op)) :
    s.Clear moves op := by
  cases op with
  | addWatch w fd flags enabled malloc =>
    intro henabled
    have hinactive : ¬ (s.watches w).Active := fun hactive => absurd (hok.1.symm.trans hactive.1) (by decide)
    exact h.stays_add henabled hinactive hr
  | toggleWatch w malloc =>
    set toggled : DBusWatch := { s.watches w with enabled := !(s.watches w).enabled } with htoggled
    have hself : (s.setWatch w toggled).watches w = toggled := Function.update_self ..
    change ReleasedOnce ((s.setWatch w toggled).toggleDBusWatch moves w malloc) at hr
    rw [toggleDBusWatch, hself] at hr
    rw [Clear]
    by_cases henabled : (s.watches w).enabled = true
    · have hoff : toggled.enabled = false := by simp [htoggled, henabled]
      rw [if_neg (by simp [hoff])] at hr
      rw [if_pos henabled]
      by_contra hrun
      have hlate : ((s.setWatch w toggled).removeDBusWatch moves w).watches w = toggled ∧ toggled.data ≠ none :=
        h.removes_late rfl hrun
      obtain ⟨hwatch, hdata⟩ := hlate
      have hnull := hr.watchNull w
      rw [hwatch] at hnull
      exact hdata (hnull fun hactive => absurd (hoff.symm.trans hactive.2) (by decide))
    · have hon : toggled.enabled = true := by simp [htoggled, henabled]
      rw [if_pos hon] at hr
      rw [if_neg henabled]
      have hstays := h.stays_add hon (fun hactive => henabled hactive.2) hr
      exact hstays
  | removeWatch w =>
    intro henabled
    by_contra hrun
    set removed : DBusWatch := { s.watches w with phase := .removed } with hremoved
    have hlate : ((s.setWatch w removed).removeDBusWatch moves w).watches w = removed ∧ removed.data ≠ none :=
      h.removes_late rfl hrun
    obtain ⟨hwatch, hdata⟩ := hlate
    have hnull := hr.watchNull w
    change ¬ (((s.setWatch w removed).removeDBusWatch moves w).watches w).Active →
      (((s.setWatch w removed).removeDBusWatch moves w).watches w).data = none at hnull
    rw [hwatch] at hnull
    exact hdata (hnull fun hactive => absurd hactive.1 (by simp [hremoved]))
  | addTimeout d interval enabled => trivial
  | toggleTimeout d =>
    by_contra hon
    have hphase : (s.timeouts d).phase = .added := hok
    rw [Clear, Bool.not_eq_false] at hon
    set toggled : DBusTimeout := { s.timeouts d with enabled := !(s.timeouts d).enabled } with htoggled
    have hoff : toggled.enabled = false := by simp [htoggled, hon]
    have hself : (s.setTimeout d toggled).timeouts d = toggled := Function.update_self ..
    have hlate : ((s.setTimeout d toggled).removeTimeout moves d).timeouts d = toggled ∧ toggled.data ≠ none :=
      h.removes_timeout rfl ⟨hphase, hon⟩
    obtain ⟨htimeout, hdata⟩ := hlate
    change ReleasedOnce ((s.setTimeout d toggled).toggleTimeout moves d) at hr
    rw [DBusLoop.toggleTimeout, hself, if_neg (by simp [hoff])] at hr
    have hnull := hr.timeoutNull d
    rw [htimeout] at hnull
    exact hdata (hnull fun hactive => absurd (hoff.symm.trans hactive.2) (by decide))
  | removeTimeout d =>
    by_contra hon
    have hphase : (s.timeouts d).phase = .added := hok
    rw [Clear, Bool.not_eq_false] at hon
    set removed : DBusTimeout := { s.timeouts d with phase := .removed } with hremoved
    have hlate : ((s.setTimeout d removed).removeTimeout moves d).timeouts d = removed ∧ removed.data ≠ none :=
      h.removes_timeout rfl ⟨hphase, hon⟩
    obtain ⟨htimeout, hdata⟩ := hlate
    have hnull := hr.timeoutNull d
    change ¬ (((s.setTimeout d removed).removeTimeout moves d).timeouts d).Active →
      (((s.setTimeout d removed).removeTimeout moves d).timeouts d).data = none at hnull
    rw [htimeout] at hnull
    exact hdata (hnull fun hactive => absurd hactive.1 (by simp [hremoved]))
  | other a =>
    refine h.stays fun w hactive => ?_
    obtain ⟨event, -, hdata⟩ := hr.watch w ((act_watches s a w).1.mpr hactive)
    exact ⟨event, hdata⟩
  | enterTimeout event => trivial
  | enterIo event => trivial
  | leave => trivial

/-! ### Runs -/

section
variable (moves : ℕ → Bool) (clock : ℕ → ℤ) (array : ByteMem) (wakeupPipe : ℤ)

/-- The module when it was set up. -/
def start : DBusLoop := new (MainLoop.new clock array wakeupPipe)

theorem start_inv : Inv (start clock array wakeupPipe) :=
  new_inv (TimeoutLoop.new_holds clock).wellFormed (IoLoop.new_holds array) rfl rfl

/-- **Watches and timeouts are released once**, all the time, exactly if no step breaks the rule. -/
theorem releasedOnce_iff {ops : List DBusOp} (ha : Run.Admissible (step moves) Ok (start clock array wakeupPipe) ops) :
    (∀ before after, ops = before ++ after →
        ReleasedOnce (Run.exec (step moves) (start clock array wakeupPipe) before)) ↔
      Run.Admissible (step moves) (Clear moves) (start clock array wakeupPipe) ops :=
  Run.always_iff (fun _ h => h.releasedOnce) (fun _ _ h hok hclear => h.step hok hclear)
    (fun _ _ h hok hr => h.clear hok hr) (start_inv clock array wakeupPipe) ha

end

/-- A clock that goes on all the time. -/
def ticking (n : ℕ) : ℤ := n + 1

/-- A timeout that is toggled on, and a watch that is called. -/
def calledOnce : List DBusOp :=
  [.addTimeout 0 100 false, .toggleTimeout 0, .addWatch 0 7 1 true 0, .enterIo 0, .leave]

/-- Then the watch is toggled off; this is the state before. -/
theorem releasedOnce_calledOnce :
    ReleasedOnce (Run.exec (step fun _ => true) (start ticking (fun _ => 0) 3) calledOnce) := by
  have ha : Run.Admissible (step fun _ => true) Ok (start ticking (fun _ => 0) 3)
      (calledOnce ++ [.toggleWatch 0 0]) := by decide +kernel
  have hfirst : Run.Admissible (step fun _ => true) (Clear fun _ => true) (start ticking (fun _ => 0) 3) calledOnce :=
    ⟨trivial, rfl, fun _ => Or.inl (by decide +kernel), trivial, trivial, trivial⟩
  set s := Run.exec (step fun _ => true) (start ticking (fun _ => 0) 3) calledOnce with hs
  have hon : (s.watches 0).enabled = true := by rw [hs]; decide +kernel
  have hnobody : s.loop.running = .nobody := by rw [hs]; decide +kernel
  have hlast : s.Clear (fun _ => true) (.toggleWatch 0 0) := by
    rw [Clear, if_pos hon]
    exact fun event r hrun => absurd (hnobody.symm.trans hrun) (by simp)
  exact (releasedOnce_iff (fun _ => true) ticking (fun _ => 0) 3 ha).mpr
    (Run.admissible_append.mpr ⟨hfirst, hlast, trivial⟩) calledOnce [.toggleWatch 0 0] rfl

/-- A timeout that is added, toggled off and removed: its event is removed twice. -/
theorem not_releasedOnce_timeout :
    Run.Admissible (step fun _ => false) Ok (start ticking (fun _ => 0) 3)
        [.addTimeout 0 100 true, .toggleTimeout 0, .removeTimeout 0] ∧
      ¬ ReleasedOnce (Run.exec (step fun _ => false) (start ticking (fun _ => 0) 3)
        [.addTimeout 0 100 true, .toggleTimeout 0, .removeTimeout 0]) := by
  refine ⟨by decide +kernel, fun h => ?_⟩
  exact absurd h.timeouts (by decide +kernel)

end DBusLoop

end Fcitx
