/-
# Timeouts and IO events in one loop

The main loop has timeouts and IO events, and the callback of one may do what it
wants with the other kind. For the timeouts, a pass over them is a pass with a callback
that takes the actions on timeouts that were taken, and what the IO callbacks do is
done from outside; and the other way round. So what is known of either kind
holds for the loop that has both.

Key definitions: `MainLoop`, `LoopAction`, `Callbacks`, `MainLoop.dispatchTimeout`, `MainLoop.dispatchIo`.
Key theorems: `MainLoop.dispatchTimeout_refines`, `MainLoop.dispatchIo_refines`.
-/
import Fcitx.MainLoop.IoRun
import Fcitx.MainLoop.Prepare

namespace Fcitx

open Mark

/-- `FcitxMainLoop`. Each part has a copy of `quit`, which is the one of `io`. -/
structure MainLoop where
  timeouts : TimeoutLoop
  io : IoLoop
  nextTimeout : ℤ
  /-- `wakeupPipe[0]` -/
  wakeupPipe : ℤ

/-- What a program does with the main loop. -/
inductive LoopAction where
  | registerTimeout (timeout : ℕ) (repeats destroyNotify : Bool)
  | removeTimeout (event : ℕ)
  | registerIo (fd : ℤ) (flag : ℕ) (destroyNotify : Bool) (malloc : KeyPtr)
  | removeIo (event : ℤ)
  | quit
deriving DecidableEq

namespace LoopAction

/-- What an action does with the timeouts. -/
def timeouts : LoopAction → List TimeoutAction
  | .registerTimeout timeout repeats destroyNotify => [.register timeout repeats destroyNotify]
  | .removeTimeout event => [.remove event]
  | .registerIo .. | .removeIo _ => []
  | .quit => [.quit]

/-- What an action does with the IO events. -/
def io : LoopAction → List IoAction
  | .registerTimeout .. | .removeTimeout _ => []
  | .registerIo fd flag destroyNotify malloc => [.register fd flag destroyNotify malloc]
  | .removeIo event => [.remove event]
  | .quit => [.quit]

end LoopAction

namespace MainLoop

/-- `fcitx_mainloop_new` -/
def new (clock : ℕ → ℤ) (array : ByteMem) (wakeupPipe : ℤ) : MainLoop :=
  ⟨TimeoutLoop.new clock, IoLoop.new array, 0, wakeupPipe⟩

def quit (m : MainLoop) : Bool := m.io.quit

def onTimeouts (f : TimeoutLoop → TimeoutLoop) (m : MainLoop) : MainLoop := { m with timeouts := f m.timeouts }

def onIo (f : IoLoop → IoLoop) (m : MainLoop) : MainLoop := { m with io := f m.io }

/-- An action, taken by the callback of a timeout or of an IO event, or from outside. -/
def act (timeout io : Option ℕ) (m : MainLoop) (a : LoopAction) : MainLoop :=
  { m with
    timeouts := Run.exec (TimeoutLoop.act timeout) m.timeouts a.timeouts
    io := Run.exec (IoLoop.act io) m.io a.io }

/-- What a program promises for either kind of event. -/
def Allowed (m : MainLoop) (a : LoopAction) : Prop :=
  (∀ b ∈ a.timeouts, m.timeouts.Allowed b) ∧ ∀ b ∈ a.io, m.io.Allowed b

instance (m : MainLoop) (a : LoopAction) : Decidable (m.Allowed a) :=
  inferInstanceAs (Decidable ((∀ b ∈ _, _) ∧ ∀ b ∈ _, _))

theorem allowed_registerTimeout (m : MainLoop) (interval : ℕ) (repeats destroyNotify : Bool) :
    m.Allowed (.registerTimeout interval repeats destroyNotify) :=
  ⟨List.forall_mem_singleton.mpr trivial, fun _ hb => absurd hb List.not_mem_nil⟩

theorem allowed_removeTimeout {m : MainLoop} {event : ℕ} :
    m.Allowed (.removeTimeout event) ↔ m.timeouts.Allowed (.remove event) :=
  (and_iff_left fun _ hb => absurd hb List.not_mem_nil).trans List.forall_mem_singleton

theorem allowed_removeIo {m : MainLoop} {event : ℤ} : m.Allowed (.removeIo event) ↔ m.io.Allowed (.remove event) :=
  (and_iff_right fun _ hb => absurd hb List.not_mem_nil).trans List.forall_mem_singleton

end MainLoop

/-- The actions of the callbacks, given the event that is called, the flags that are ready and the loop they find. -/
structure Callbacks where
  timeout : ℕ → MainLoop → List LoopAction
  io : ℤ → ℕ → MainLoop → List LoopAction

/-- Callbacks that keep the promise. -/
structure Callbacks.Lawful (callbacks : Callbacks) : Prop where
  timeout : ∀ event m, Run.Admissible (MainLoop.act (some event) none) MainLoop.Allowed m (callbacks.timeout event m)
  io : ∀ event flags m,
    Run.Admissible (MainLoop.act none (some (m.io.serial event))) MainLoop.Allowed m (callbacks.io event flags m)

namespace MainLoop

/-- `event->callback(event, event->userdata)` of a timeout. -/
def invokeTimeout (callbacks : Callbacks) (m : MainLoop) (event : ℕ) : MainLoop :=
  let m := m.onTimeouts (·.mark (.called event))
  (Run.exec (act (some event) none) m (callbacks.timeout event m)).onTimeouts (·.mark (.returned event))

/-- `event->callback(event, event->fd, flags, event->userdata)` of an IO event. -/
def invokeIo (callbacks : Callbacks) (flags : ℕ) (m : MainLoop) (event : ℤ) : MainLoop :=
  let r := m.io.serial event
  let m := m.onIo (·.mark (.called r))
  (Run.exec (act none (some r)) m (callbacks.io event flags m)).onIo (·.mark (.returned r))

/-- The loop of `fcitx_mainloop_dispatch_timeout` from a node on. -/
def dispatchTimeoutFrom (callbacks : Callbacks) (now : ℤ) :
    ℕ → Option TimeoutNode → MainLoop → Option (Bool × MainLoop)
  | 0, _, _ => none
  | _ + 1, none, _ => none
  | _ + 1, some (.inl _), m => some (true, m)
  | fuel + 1, some (.inr event), m =>
    if m.quit then some (false, m)
    else if m.timeouts.allocated event = false then none
    else if (m.timeouts.eventAt event).time < now then
      let m := invokeTimeout callbacks (m.onTimeouts (·.ref event)) event
      let next := m.timeouts.timeoutHandler.next (.inr event)
      if m.timeouts.allocated event = false then none
      else dispatchTimeoutFrom callbacks now fuel next (m.onTimeouts (·.settle event))
    else dispatchTimeoutFrom callbacks now fuel (m.timeouts.timeoutHandler.next (.inr event)) m

/-- `fcitx_mainloop_dispatch_timeout` -/
def dispatchTimeout (callbacks : Callbacks) (m : MainLoop) : Option (Bool × MainLoop) :=
  let (now, timeouts) := m.timeouts.getTime
  dispatchTimeoutFrom callbacks now (timeouts.fresh + 1) (timeouts.timeoutHandler.next (.inl ()))
    { m with timeouts := timeouts }

/-- The events of one key from an id on, for `fuel` rounds at most. -/
def dispatchKey (callbacks : Callbacks) (flags : ℕ) : ℕ → ℤ → MainLoop → PassEnd × MainLoop
  | 0, _, m => (.unfinished, m)
  | fuel + 1, event, m =>
    if event = invalidId then (.finished, m)
    else
      let m := invokeIo callbacks flags (m.onIo (·.ref event)) event
      let next := (m.io.settle event).1
      let m := m.onIo fun io => (io.settle event).2
      if m.quit then (if next = invalidId then .finished else .stopped, m)
      else dispatchKey callbacks flags fuel next m

/-- The loop over the descriptors, `n` of which are still to be served. -/
def dispatchFds (callbacks : Callbacks) (fuel : ℕ) :
    List PollFd → ℤ → MainLoop → PassEnd × List PollFd × MainLoop
  | [], _, m => (.finished, [], m)
  | pfd :: pollfds, n, m =>
    if m.quit then (.stopped, pfd :: pollfds, m)
    else if n ≤ 0 then (.finished, pfd :: pollfds, m)
    else if pfd.revents = 0 then
      let (done, pollfds, m) := dispatchFds callbacks fuel pollfds n m
      (done, pfd :: pollfds, m)
    else
      match dispatchKey callbacks (flagFromLibc pfd.revents) fuel
          (m.io.ioHandler.firstId (pollKey pfd.fd pfd.events)) m with
      | (.unfinished, m) => (.unfinished, pfd :: pollfds, m)
      | (.stopped, m) => (.stopped, { pfd with revents := 0 } :: pollfds, m)
      | (.finished, m) =>
        let (done, pollfds, m) := dispatchFds callbacks fuel pollfds (n - 1) m
        (done, { pfd with revents := 0 } :: pollfds, m)

/-- `fcitx_mainloop_dispatch_io`, for `fuel` rounds at most on each descriptor. -/
def dispatchIo (callbacks : Callbacks) (fuel : ℕ) (m : MainLoop) : PassEnd × MainLoop :=
  if m.io.pollRet ≤ 0 then (.finished, m)
  else
    let (done, pollfds, m) := dispatchFds callbacks fuel m.io.pollfds m.io.pollRet m
    (done, m.onIo fun io => { io with pollfds := pollfds })

/-! ### Actions on both kinds -/

variable {m m' m₁ : MainLoop} {timeout io : Option ℕ} {as : List LoopAction} {callbacks : Callbacks}

/-- Actions do with each kind what they say for it. -/
theorem exec_act (timeout io : Option ℕ) (m : MainLoop) (as : List LoopAction) :
    Run.exec (act timeout io) m as = { m with
      timeouts := Run.exec (TimeoutLoop.act timeout) m.timeouts (as.flatMap LoopAction.timeouts)
      io := Run.exec (IoLoop.act io) m.io (as.flatMap LoopAction.io) } := by
  induction as generalizing m with
  | nil => rfl
  | cons a as ih =>
    rw [Run.exec_cons, ih, List.flatMap_cons, List.flatMap_cons, Run.exec_append, Run.exec_append]
    rfl

/-- What is allowed for the loop is allowed for the timeouts. -/
theorem admissible_timeouts (h : Run.Admissible (act timeout io) Allowed m as) :
    Run.Admissible (TimeoutLoop.act timeout) TimeoutLoop.Allowed m.timeouts (as.flatMap LoopAction.timeouts) := by
  induction as generalizing m with
  | nil => trivial
  | cons a as ih =>
    rw [List.flatMap_cons, Run.admissible_append]
    refine ⟨?_, ih h.2⟩
    have hall := h.1.1
    cases a with
    | registerIo | removeIo => trivial
    | registerTimeout | removeTimeout | quit => exact ⟨hall _ (List.mem_singleton_self _), trivial⟩

/-- What is allowed for the loop is allowed for the IO events. -/
theorem admissible_io (h : Run.Admissible (act timeout io) Allowed m as) :
    Run.Admissible (IoLoop.act io) IoLoop.Allowed m.io (as.flatMap LoopAction.io) := by
  induction as generalizing m with
  | nil => trivial
  | cons a as ih =>
    rw [List.flatMap_cons, Run.admissible_append]
    refine ⟨?_, ih h.2⟩
    have hall := h.1.2
    cases a with
    | registerTimeout | removeTimeout => trivial
    | registerIo | removeIo | quit => exact ⟨hall _ (List.mem_singleton_self _), trivial⟩

end MainLoop

/-! ### Callbacks that are known from what they did -/

namespace TimeoutLoop

variable {callback callback' : Callback} {s s₀ : TimeoutLoop} {event : ℕ} {as : List TimeoutAction}

open Classical in
/-- A callback that takes the actions `as` for this event in this loop, and is `callback` elsewhere. -/
noncomputable def Callback.once (event : ℕ) (s₀ : TimeoutLoop) (as : List TimeoutAction) (callback : Callback) :
    Callback := fun e s => if e = event ∧ s = s₀ then as else callback e s

theorem Callback.once_self : Callback.once event s₀ as callback event s₀ = as := if_pos ⟨rfl, rfl⟩

theorem Callback.once_of_ne {e : ℕ} (h : s ≠ s₀) : Callback.once event s₀ as callback e s = callback e s :=
  if_neg fun hboth => h hboth.2

theorem Lawful.once (hc : Lawful callback) (has : Run.Admissible (act (some event)) Allowed s₀ as) :
    Lawful (Callback.once event s₀ as callback) := by
  intro e s
  unfold Callback.once
  split_ifs with h
  · obtain ⟨rfl, rfl⟩ := h
    exact has
  · exact hc e s

/-- The log only grows. -/
theorem length_log_setTimeEvent (s : TimeoutLoop) (event : ℕ) :
    s.log.length ≤ (s.setTimeEvent event).log.length := by
  obtain ⟨u, ht, -⟩ := setTimeEvent_spec s event
  rw [ht.log, List.length_append]
  exact Nat.le_add_right _ _

theorem length_log_removeTimeoutEvent (s : TimeoutLoop) (event : ℕ) :
    s.log.length ≤ (s.removeTimeoutEvent event).log.length := by
  unfold removeTimeoutEvent
  dsimp only
  split
  · unfold release
    dsimp only
    split
    · exact Nat.le_of_lt (by simp [mark, unref, setEvent])
    · exact Nat.le_refl _
  · exact Nat.le_refl _

theorem length_log_act (running : Option ℕ) (s : TimeoutLoop) (a : TimeoutAction) :
    s.log.length ≤ (s.act running a).log.length := by
  cases a with
  | register timeout repeats destroyNotify =>
    refine Nat.le_trans (length_log_setTimeEvent (({ s with
      fresh := s.fresh + 1, allocated := Function.update s.allocated s.fresh true } : TimeoutLoop).setEvent s.fresh
        ⟨timeout, repeats, 0, destroyNotify, 1⟩) s.fresh) ?_
    simp [act, mark, registerTimeoutEvent]
  | remove event =>
    refine Nat.le_trans (Nat.le_of_lt ?_) (length_log_removeTimeoutEvent (s.mark (.removed running event)) event)
    simp [mark]
  | quit => exact Nat.le_refl _

theorem length_log_exec (running : Option ℕ) (s : TimeoutLoop) (as : List TimeoutAction) :
    s.log.length ≤ (Run.exec (act running) s as).log.length := by
  induction as generalizing s with
  | nil => exact Nat.le_refl _
  | cons a as ih => exact Nat.le_trans (length_log_act running s a) (ih _)

theorem length_log_settle (s : TimeoutLoop) (event : ℕ) : s.log.length ≤ (s.settle event).log.length := by
  unfold settle
  dsimp only
  split
  · exact length_log_removeTimeoutEvent ((s.unref event).2.ref event) event
  · split
    · exact length_log_setTimeEvent (s.unref event).2 event
    · exact length_log_removeTimeoutEvent (s.unref event).2 event

/-- A visit leaves marks. -/
theorem length_log_visit (callback : Callback) (s : TimeoutLoop) (event : ℕ) :
    ((s.ref event).mark (.called event)).log.length <
      (((s.ref event).invoke callback event).settle event).log.length := by
  refine Nat.lt_of_lt_of_le ?_ (length_log_settle _ event)
  have hexec := length_log_exec (some event) ((s.ref event).mark (.called event))
    (callback event ((s.ref event).mark (.called event)))
  unfold invoke
  simp only [mark, List.length_append, List.length_singleton] at hexec ⊢
  omega

/-- A pass depends on what a callback does in the loops that it meets. -/
theorem dispatchFrom_congr {now : ℤ} (fuel : ℕ) :
    ∀ node s, (∀ e s', s.log.length ≤ s'.log.length → callback e s' = callback' e s') →
      dispatchFrom callback now fuel node s = dispatchFrom callback' now fuel node s := by
  induction fuel with
  | zero => exact fun node s h => rfl
  | succ fuel ih =>
    intro node s h
    cases node with
    | none => rfl
    | some node =>
      cases node with
      | inl => rfl
      | inr event =>
        have hcall : (s.ref event).invoke callback event = (s.ref event).invoke callback' event := by
          unfold invoke
          dsimp only
          rw [h event ((s.ref event).mark (.called event)) (by simp [mark, ref, setEvent])]
        rw [dispatchFrom, dispatchFrom, hcall]
        dsimp only
        rw [ih _ s h, ih _ (((s.ref event).invoke callback' event).settle event) fun e s' hle => h e s' ?_]
        refine Nat.le_trans ?_ (Nat.le_trans (Nat.le_of_lt (length_log_visit callback' s event)) hle)
        simp [mark, ref, setEvent]

end TimeoutLoop

namespace IoLoop

variable {callback callback' : Callback} {s s₀ : IoLoop} {event : ℤ} {flags : ℕ} {as : List IoAction}

open Classical in
/-- A callback that takes the actions `as` for this event in this loop, and is `callback` elsewhere. -/
noncomputable def Callback.once (event : ℤ) (s₀ : IoLoop) (as : List IoAction) (callback : Callback) : Callback :=
  fun e flags s => if e = event ∧ s = s₀ then as else callback e flags s

/-- A callback that does nothing. -/
def idle : Callback := fun _ _ _ => []

theorem idle_lawful : Lawful idle := fun _ _ _ => trivial

theorem Callback.once_self : Callback.once event s₀ as callback event flags s₀ = as := if_pos ⟨rfl, rfl⟩

theorem Callback.once_of_ne {e : ℤ} (h : s ≠ s₀) :
    Callback.once event s₀ as callback e flags s = callback e flags s :=
  if_neg fun hboth => h hboth.2

theorem Lawful.once (hc : Lawful callback)
    (has : Run.Admissible (act (some (s₀.serial event))) Allowed s₀ as) :
    Lawful (Callback.once event s₀ as callback) := by
  intro e flags s
  unfold Callback.once
  split_ifs with h
  · obtain ⟨rfl, rfl⟩ := h
    exact has
  · exact hc e flags s

theorem length_log_removeIoEvent (s : IoLoop) (event : ℤ) : s.log.length ≤ (s.removeIoEvent event).log.length := by
  unfold removeIoEvent
  dsimp only
  split
  · unfold removeByIdFull
    dsimp only
    rw [List.length_append]
    exact Nat.le_add_right _ _
  · exact Nat.le_refl _

theorem length_log_act (running : Option ℕ) (s : IoLoop) (a : IoAction) :
    s.log.length ≤ (s.act running a).log.length := by
  cases a with
  | register fd flag destroyNotify malloc => simp [act, mark, registerIoEvent, setEvent]
  | remove event =>
    refine Nat.le_trans (Nat.le_of_lt ?_) (length_log_removeIoEvent (s.mark (.removed running (s.serial event))) event)
    simp [mark]
  | quit => exact Nat.le_refl _

theorem length_log_exec (running : Option ℕ) (s : IoLoop) (as : List IoAction) :
    s.log.length ≤ (Run.exec (act running) s as).log.length := by
  induction as generalizing s with
  | nil => exact Nat.le_refl _
  | cons a as ih => exact Nat.le_trans (length_log_act running s a) (ih _)

theorem length_log_settle (s : IoLoop) (event : ℤ) : s.log.length ≤ (s.settle event).2.log.length := by
  unfold settle
  dsimp only
  split
  · exact length_log_removeIoEvent ((s.unref event).2.ref event) event
  · exact Nat.le_refl _

/-- A visit leaves marks. -/
theorem length_log_visit (callback : Callback) (flags : ℕ) (s : IoLoop) (event : ℤ) :
    ((s.ref event).mark (.called (s.serial event))).log.length <
      (((s.ref event).invoke callback flags event).settle event).2.log.length := by
  refine Nat.lt_of_lt_of_le ?_ (length_log_settle _ event)
  have hserial : (s.ref event).serial event = s.serial event := (ref_touched s event).serial event
  have hexec := length_log_exec (some (s.serial event)) ((s.ref event).mark (.called (s.serial event)))
    (callback event flags ((s.ref event).mark (.called (s.serial event))))
  unfold invoke
  rw [hserial]
  simp only [mark, List.length_append, List.length_singleton] at hexec ⊢
  omega

/-- Two callbacks that do the same in all loops from here on. -/
def SameFrom (n : ℕ) (callback callback' : Callback) : Prop :=
  ∀ e flags s, n ≤ s.log.length → callback e flags s = callback' e flags s

theorem SameFrom.mono {n n' : ℕ} (h : SameFrom n callback callback') (hle : n ≤ n') :
    SameFrom n' callback callback' := fun e flags s hs => h e flags s (Nat.le_trans hle hs)

/-- What a called event does. -/
theorem invoke_congr (h : SameFrom s.log.length callback callback') (flags : ℕ) (event : ℤ) :
    (s.ref event).invoke callback flags event = (s.ref event).invoke callback' flags event := by
  unfold invoke
  dsimp only
  rw [h event flags _ (by simp [mark, ref, setEvent])]

/-- A walk over a key depends on what a callback does in the loops that it meets. -/
theorem dispatchKey_congr (flags fuel : ℕ) :
    ∀ event s, SameFrom s.log.length callback callback' →
      dispatchKey callback flags fuel event s = dispatchKey callback' flags fuel event s ∧
        s.log.length ≤ (dispatchKey callback flags fuel event s).2.log.length := by
  induction fuel with
  | zero => exact fun event s h => ⟨rfl, Nat.le_refl _⟩
  | succ fuel ih =>
    intro event s h
    have hcall := invoke_congr h flags event
    have hlt := length_log_visit callback flags s event
    have hle : s.log.length ≤ (((s.ref event).invoke callback flags event).settle event).2.log.length := by
      refine Nat.le_trans ?_ (Nat.le_of_lt hlt)
      simp [mark, ref, setEvent]
    obtain ⟨hsame, hmore⟩ := ih (((s.ref event).invoke callback flags event).settle event).1
      (((s.ref event).invoke callback flags event).settle event).2 (h.mono hle)
    rw [dispatchKey, dispatchKey, ← hcall]
    dsimp only
    rw [← hsame]
    refine ⟨rfl, ?_⟩
    split
    · exact Nat.le_refl _
    · split
      · exact hle
      · exact Nat.le_trans hle hmore

theorem dispatchFds_congr (fuel : ℕ) (pollfds : List PollFd) :
    ∀ n s, SameFrom s.log.length callback callback' →
      dispatchFds callback fuel pollfds n s = dispatchFds callback' fuel pollfds n s := by
  induction pollfds with
  | nil => exact fun n s h => rfl
  | cons pfd pollfds ih =>
    intro n s h
    obtain ⟨hsame, hle⟩ := dispatchKey_congr (flagFromLibc pfd.revents) fuel
      (s.ioHandler.firstId (pollKey pfd.fd pfd.events)) s h
    rw [dispatchFds, dispatchFds, ih n s h, ← hsame]
    rcases hres : dispatchKey callback (flagFromLibc pfd.revents) fuel
      (s.ioHandler.firstId (pollKey pfd.fd pfd.events)) s with ⟨done, s₁⟩
    rw [hres] at hle
    cases done with
    | unfinished => rfl
    | stopped => rfl
    | finished =>
      dsimp only
      rw [ih (n - 1) s₁ (h.mono hle)]

end IoLoop

/-! ### One `quit` -/

namespace TimeoutLoop

theorem setTimeEvent_quit (s : TimeoutLoop) (event : ℕ) : (s.setTimeEvent event).quit = s.quit := by
  unfold setTimeEvent
  split <;> rfl

theorem removeTimeoutEvent_quit (s : TimeoutLoop) (event : ℕ) : (s.removeTimeoutEvent event).quit = s.quit := by
  unfold removeTimeoutEvent
  dsimp only
  split
  · unfold release
    dsimp only
    split <;> rfl
  · rfl

theorem settle_quit (s : TimeoutLoop) (event : ℕ) : (s.settle event).quit = s.quit := by
  unfold settle
  dsimp only
  split
  · exact removeTimeoutEvent_quit ((s.unref event).2.ref event) event
  · split
    · exact setTimeEvent_quit (s.unref event).2 event
    · exact removeTimeoutEvent_quit (s.unref event).2 event

end TimeoutLoop

namespace MainLoop

variable {m m' m₁ m₂ : MainLoop} {callbacks : Callbacks}

/-- Both copies of `quit` are the same. -/
def Synced (m : MainLoop) : Prop := m.timeouts.quit = m.io.quit

theorem Synced.act (h : Synced m) (timeout io : Option ℕ) (a : LoopAction) : Synced (m.act timeout io a) := by
  cases a with
  | registerTimeout => exact (TimeoutLoop.setTimeEvent_quit _ _).trans h
  | removeTimeout event => exact (TimeoutLoop.removeTimeoutEvent_quit _ event).trans h
  | registerIo => exact h
  | removeIo event =>
    exact h.trans (IoLoop.removeIoEvent_quit (m.io.mark (.removed io (m.io.serial event))) event).symm
  | quit => rfl

theorem Synced.exec (h : Synced m) (timeout io : Option ℕ) (as : List LoopAction) :
    Synced (Run.exec (MainLoop.act timeout io) m as) := by
  induction as generalizing m with
  | nil => exact h
  | cons a as ih => exact ih (h.act timeout io a)

/-! ### The passes -/

/-- What became of the IO events was done from outside of their callbacks. -/
def OutsideIo (m m' : MainLoop) : Prop :=
  ∃ as, Run.Admissible (IoLoop.act none) IoLoop.Allowed m.io as ∧ m'.io = Run.exec (IoLoop.act none) m.io as

/-- What became of the timeouts was done from outside of their callbacks. -/
def OutsideTimeouts (m m' : MainLoop) : Prop :=
  ∃ as, Run.Admissible (TimeoutLoop.act none) TimeoutLoop.Allowed m.timeouts as ∧
    m'.timeouts = Run.exec (TimeoutLoop.act none) m.timeouts as

theorem OutsideIo.of_eq (h : m'.io = m.io) : OutsideIo m m' := ⟨[], trivial, h⟩

theorem OutsideTimeouts.of_eq (h : m'.timeouts = m.timeouts) : OutsideTimeouts m m' := ⟨[], trivial, h⟩

theorem OutsideIo.trans (h : OutsideIo m m₁) (h' : OutsideIo m₁ m₂) : OutsideIo m m₂ := by
  obtain ⟨as, has, heq⟩ := h
  obtain ⟨bs, hbs, heq'⟩ := h'
  rw [heq] at hbs heq'
  exact ⟨as ++ bs, Run.admissible_append.mpr ⟨has, hbs⟩, by rw [heq', Run.exec_append]⟩

theorem OutsideTimeouts.trans (h : OutsideTimeouts m m₁) (h' : OutsideTimeouts m₁ m₂) : OutsideTimeouts m m₂ := by
  obtain ⟨as, has, heq⟩ := h
  obtain ⟨bs, hbs, heq'⟩ := h'
  rw [heq] at hbs heq'
  exact ⟨as ++ bs, Run.admissible_append.mpr ⟨has, hbs⟩, by rw [heq', Run.exec_append]⟩

/-- What a pass leaves alone. -/
structure SameRest (m m' : MainLoop) : Prop where
  synced : Synced m'
  nextTimeout : m'.nextTimeout = m.nextTimeout
  wakeupPipe : m'.wakeupPipe = m.wakeupPipe

theorem SameRest.trans (h : SameRest m m₁) (h' : SameRest m₁ m₂) : SameRest m m₂ :=
  ⟨h'.synced, h'.nextTimeout.trans h.nextTimeout, h'.wakeupPipe.trans h.wakeupPipe⟩

/-- **The call of a timeout**, for the timeouts and for the IO events. -/
theorem invokeTimeout_refines (hc : callbacks.Lawful) (h : Synced m) (event : ℕ) :
    ∃ as, Run.Admissible (TimeoutLoop.act (some event)) TimeoutLoop.Allowed
        ((m.timeouts.ref event).mark (.called event)) as ∧
      (∀ callback, (invokeTimeout callbacks (m.onTimeouts (·.ref event)) event).timeouts =
        (m.timeouts.ref event).invoke
          (TimeoutLoop.Callback.once event ((m.timeouts.ref event).mark (.called event)) as callback) event) ∧
      OutsideIo m (invokeTimeout callbacks (m.onTimeouts (·.ref event)) event) ∧
      SameRest m (invokeTimeout callbacks (m.onTimeouts (·.ref event)) event) := by
  set m₀ := (m.onTimeouts (·.ref event)).onTimeouts (·.mark (.called event)) with hm₀
  have hadm := hc.timeout event m₀
  have hio : Run.Admissible _ _ m₀.io _ := admissible_io hadm
  have hstart : Synced m₀ := h
  have hsynced := hstart.exec (some event) none (callbacks.timeout event m₀)
  have hexec := exec_act (some event) none m₀ (callbacks.timeout event m₀)
  have hinvoke : invokeTimeout callbacks (m.onTimeouts (·.ref event)) event =
      (Run.exec (act (some event) none) m₀ (callbacks.timeout event m₀)).onTimeouts (·.mark (.returned event)) := rfl
  refine ⟨(callbacks.timeout event m₀).flatMap LoopAction.timeouts, admissible_timeouts hadm, fun callback => ?_,
    ⟨(callbacks.timeout event m₀).flatMap LoopAction.io, hio, ?_⟩, hsynced, ?_, ?_⟩
  · rw [hinvoke, hexec, TimeoutLoop.invoke, TimeoutLoop.Callback.once_self]
    rfl
  · rw [hinvoke, hexec]
    rfl
  · rw [hinvoke, hexec]
    rfl
  · rw [hinvoke, hexec]
    rfl

/-- **A pass over the timeouts** is one of their own, and what it does to the IO events is done from outside. -/
theorem dispatchTimeoutFrom_refines (hc : callbacks.Lawful) (now : ℤ) (fuel : ℕ) :
    ∀ node m, Synced m → ∃ callback, TimeoutLoop.Lawful callback ∧
      TimeoutLoop.dispatchFrom callback now fuel node m.timeouts =
        (dispatchTimeoutFrom callbacks now fuel node m).map (fun r => (r.1, r.2.timeouts)) ∧
      ∀ r, dispatchTimeoutFrom callbacks now fuel node m = some r → OutsideIo m r.2 ∧ SameRest m r.2 := by
  induction fuel with
  | zero =>
    exact fun node m h =>
      ⟨_, TimeoutLoop.idle_lawful, rfl, fun r hr => absurd hr (by simp [dispatchTimeoutFrom])⟩
  | succ fuel ih =>
    intro node m h
    have hquit : m.timeouts.quit = m.quit := h
    match node with
    | none => exact ⟨_, TimeoutLoop.idle_lawful, rfl, fun r hr => absurd hr (by simp [dispatchTimeoutFrom])⟩
    | some (.inl _) =>
      refine ⟨_, TimeoutLoop.idle_lawful, rfl, fun r hr => ?_⟩
      obtain rfl := Option.some.inj hr
      exact ⟨OutsideIo.of_eq rfl, h, rfl, rfl⟩
    | some (.inr event) =>
      rw [dispatchTimeoutFrom]
      by_cases hstop : m.quit = true
      · rw [if_pos hstop]
        refine ⟨_, TimeoutLoop.idle_lawful, ?_, fun r hr => ?_⟩
        · rw [TimeoutLoop.dispatchFrom, hquit, if_pos hstop]
          rfl
        · obtain rfl := Option.some.inj hr
          exact ⟨OutsideIo.of_eq rfl, h, rfl, rfl⟩
      rw [if_neg hstop]
      by_cases hfreed : m.timeouts.allocated event = false
      · rw [if_pos hfreed]
        refine ⟨_, TimeoutLoop.idle_lawful, ?_, fun r hr => absurd hr (by simp)⟩
        rw [TimeoutLoop.dispatchFrom, hquit, if_neg hstop, if_pos hfreed]
        rfl
      rw [if_neg hfreed]
      by_cases hdue : (m.timeouts.eventAt event).time < now
      · rw [if_pos hdue]
        dsimp only
        obtain ⟨as, has, hinvoke, hout, hsame⟩ := invokeTimeout_refines hc h event
        set m₁ := invokeTimeout callbacks (m.onTimeouts (·.ref event)) event with hm₁
        set m₂ := m₁.onTimeouts (·.settle event) with hm₂
        have hsynced : Synced m₂ := (TimeoutLoop.settle_quit m₁.timeouts event).trans hsame.synced
        obtain ⟨callback, hlawful, hres, hrest⟩ := ih (m₁.timeouts.timeoutHandler.next (.inr event)) m₂ hsynced
        refine ⟨_, hlawful.once has, ?_, fun r hr => ?_⟩
        · rw [TimeoutLoop.dispatchFrom, hquit, if_neg hstop, if_neg hfreed, if_pos hdue, ← hinvoke callback]
          dsimp only
          by_cases hgone : m₁.timeouts.allocated event = false
          · rw [if_pos hgone, if_pos hgone]
            rfl
          rw [if_neg hgone, if_neg hgone, ← hres]
          -- the pass does not come back to the loop of this visit
          refine TimeoutLoop.dispatchFrom_congr fuel _ _ fun e s' hle => TimeoutLoop.Callback.once_of_ne ?_
          have hlt := TimeoutLoop.length_log_visit (TimeoutLoop.Callback.once event
            ((m.timeouts.ref event).mark (.called event)) as callback) m.timeouts event
          rw [← hinvoke callback] at hlt
          rintro rfl
          exact absurd hle (Nat.not_le.mpr hlt)
        · by_cases hgone : m₁.timeouts.allocated event = false
          · rw [if_pos hgone] at hr
            exact absurd hr (by simp)
          rw [if_neg hgone] at hr
          obtain ⟨hout', hsame'⟩ := hrest r hr
          exact ⟨hout.trans hout', hsame.trans ⟨hsame'.synced, hsame'.nextTimeout, hsame'.wakeupPipe⟩⟩
      · rw [if_neg hdue]
        obtain ⟨callback, hlawful, hres, hrest⟩ := ih (m.timeouts.timeoutHandler.next (.inr event)) m h
        refine ⟨callback, hlawful, ?_, hrest⟩
        rw [TimeoutLoop.dispatchFrom, hquit, if_neg hstop, if_neg hfreed, if_neg hdue, hres]

/-- **The call of an IO event**, for the IO events and for the timeouts. -/
theorem invokeIo_refines (hc : callbacks.Lawful) (h : Synced m) (flags : ℕ) (event : ℤ) :
    ∃ s₀ as, s₀ = (m.io.ref event).mark (.called (m.io.serial event)) ∧
      Run.Admissible (IoLoop.act (some (s₀.serial event))) IoLoop.Allowed s₀ as ∧
      (∀ callback, (invokeIo callbacks flags (m.onIo (·.ref event)) event).io =
        (m.io.ref event).invoke (IoLoop.Callback.once event s₀ as callback) flags event) ∧
      OutsideTimeouts m (invokeIo callbacks flags (m.onIo (·.ref event)) event) ∧
      SameRest m (invokeIo callbacks flags (m.onIo (·.ref event)) event) := by
  have hserial : (m.io.ref event).serial event = m.io.serial event := (IoLoop.ref_touched m.io event).serial event
  set m₀ := (m.onIo (·.ref event)).onIo (·.mark (.called (m.io.serial event))) with hm₀
  have hserial₀ : m₀.io.serial event = m.io.serial event := hserial
  have hadm := hc.io event flags m₀
  have htimeouts : Run.Admissible _ _ m₀.timeouts _ := admissible_timeouts hadm
  have hstart : Synced m₀ := h
  have hsynced := hstart.exec none (some (m₀.io.serial event)) (callbacks.io event flags m₀)
  have hexec := exec_act none (some (m₀.io.serial event)) m₀ (callbacks.io event flags m₀)
  have hinvoke : invokeIo callbacks flags (m.onIo (·.ref event)) event =
      (Run.exec (act none (some (m₀.io.serial event))) m₀ (callbacks.io event flags m₀)).onIo
        (·.mark (.returned (m.io.serial event))) := by
    rw [hserial₀]
    unfold invokeIo
    dsimp only
    rw [show (m.onIo (·.ref event)).io.serial event = m.io.serial event from hserial]
  refine ⟨m₀.io, (callbacks.io event flags m₀).flatMap LoopAction.io, rfl, admissible_io hadm, fun callback => ?_,
    ⟨(callbacks.io event flags m₀).flatMap LoopAction.timeouts, htimeouts, ?_⟩, ?_, ?_, ?_⟩
  · have hcalled : (m.io.ref event).mark (.called (m.io.serial event)) = m₀.io := rfl
    rw [hinvoke, hexec, IoLoop.invoke, hserial]
    rw [hcalled, IoLoop.Callback.once_self, hserial₀]
    rfl
  · rw [hinvoke, hexec]
    rfl
  · rw [hinvoke]
    exact hsynced
  · rw [hinvoke, hexec]
    rfl
  · rw [hinvoke, hexec]
    rfl

/-- A walk over the events of a key; from where it ends on, the callback is `rest`. -/
theorem dispatchKey_refines (hc : callbacks.Lawful) (flags fuel : ℕ) :
    ∀ event m rest, Synced m → IoLoop.Lawful rest → ∃ callback, IoLoop.Lawful callback ∧
      IoLoop.SameFrom (dispatchKey callbacks flags fuel event m).2.io.log.length callback rest ∧
      IoLoop.dispatchKey callback flags fuel event m.io =
        ((dispatchKey callbacks flags fuel event m).1, (dispatchKey callbacks flags fuel event m).2.io) ∧
      m.io.log.length ≤ (dispatchKey callbacks flags fuel event m).2.io.log.length ∧
      OutsideTimeouts m (dispatchKey callbacks flags fuel event m).2 ∧
      SameRest m (dispatchKey callbacks flags fuel event m).2 := by
  induction fuel with
  | zero =>
    exact fun event m rest h hrest => ⟨rest, hrest, fun _ _ _ _ => rfl, rfl, Nat.le_refl _, OutsideTimeouts.of_eq rfl,
      h, rfl, rfl⟩
  | succ fuel ih =>
    intro event m rest h hrest
    rw [dispatchKey]
    by_cases hlast : event = invalidId
    · rw [if_pos hlast]
      refine ⟨rest, hrest, fun _ _ _ _ => rfl, ?_, Nat.le_refl _, OutsideTimeouts.of_eq rfl, h, rfl, rfl⟩
      rw [IoLoop.dispatchKey, if_pos hlast]
    rw [if_neg hlast]
    dsimp only
    obtain ⟨s₀, as, hs₀, has, hinvoke, hout, hsame⟩ := invokeIo_refines hc h flags event
    set m₁ := invokeIo callbacks flags (m.onIo (·.ref event)) event with hm₁
    set m₂ := m₁.onIo (fun io => (io.settle event).2) with hm₂
    have hsynced : Synced m₂ := hsame.synced.trans (IoLoop.settle_quit m₁.io event).symm
    have hsame₂ : SameRest m m₂ := ⟨hsynced, hsame.nextTimeout, hsame.wakeupPipe⟩
    have hlt : s₀.log.length < m₂.io.log.length := by
      have hgrow := IoLoop.length_log_visit (IoLoop.Callback.once event s₀ as rest) flags m.io event
      rw [← hinvoke rest, ← hs₀] at hgrow
      exact hgrow
    have hstart : m.io.log.length ≤ s₀.log.length := by
      rw [hs₀]
      simp [IoLoop.mark, IoLoop.ref, IoLoop.setEvent]
    have hlater : ∀ callback,
        IoLoop.SameFrom m₂.io.log.length (IoLoop.Callback.once event s₀ as callback) callback := by
      intro callback e f s hle
      refine IoLoop.Callback.once_of_ne ?_
      rintro rfl
      exact absurd hle (Nat.not_le.mpr hlt)
    by_cases hstop : m₂.quit = true
    · rw [if_pos hstop]
      refine ⟨_, hrest.once has, hlater rest, ?_, Nat.le_trans hstart (Nat.le_of_lt hlt), hout, hsame₂⟩
      rw [IoLoop.dispatchKey, if_neg hlast, ← hinvoke rest]
      exact if_pos hstop
    · rw [if_neg hstop]
      obtain ⟨callback, hlawful, hfrom, hres, hle, hout', hsame'⟩ := ih (m₁.io.settle event).1 m₂ rest hsynced hrest
      refine ⟨_, hlawful.once has, fun e f s hs => ?_, ?_,
        Nat.le_trans hstart (Nat.le_trans (Nat.le_of_lt hlt) hle), hout.trans hout', hsame₂.trans hsame'⟩
      · rw [hlater callback e f s (Nat.le_trans hle hs)]
        exact hfrom e f s hs
      · rw [← hres, IoLoop.dispatchKey, if_neg hlast, ← hinvoke callback]
        refine (if_neg hstop).trans ?_
        exact (IoLoop.dispatchKey_congr _ fuel _ _ (hlater callback)).1

/-- The loop over the descriptors. -/
theorem dispatchFds_refines (hc : callbacks.Lawful) (fuel : ℕ) (pollfds : List PollFd) :
    ∀ n m, Synced m → ∃ callback, IoLoop.Lawful callback ∧
      IoLoop.dispatchFds callback fuel pollfds n m.io =
        ((dispatchFds callbacks fuel pollfds n m).1, (dispatchFds callbacks fuel pollfds n m).2.1,
          (dispatchFds callbacks fuel pollfds n m).2.2.io) ∧
      OutsideTimeouts m (dispatchFds callbacks fuel pollfds n m).2.2 ∧
      SameRest m (dispatchFds callbacks fuel pollfds n m).2.2 := by
  induction pollfds with
  | nil => exact fun n m h => ⟨_, IoLoop.idle_lawful, rfl, OutsideTimeouts.of_eq rfl, h, rfl, rfl⟩
  | cons pfd pollfds ih =>
    intro n m h
    rw [dispatchFds]
    by_cases hstop : m.quit = true
    · rw [if_pos hstop]
      refine ⟨_, IoLoop.idle_lawful, ?_, OutsideTimeouts.of_eq rfl, h, rfl, rfl⟩
      rw [IoLoop.dispatchFds]
      exact if_pos hstop
    rw [if_neg hstop]
    by_cases hzero : n ≤ 0
    · rw [if_pos hzero]
      refine ⟨_, IoLoop.idle_lawful, ?_, OutsideTimeouts.of_eq rfl, h, rfl, rfl⟩
      rw [IoLoop.dispatchFds]
      exact (if_neg hstop).trans (if_pos hzero)
    rw [if_neg hzero]
    by_cases hready : pfd.revents = 0
    · obtain ⟨callback, hlawful, hres, hout, hsame⟩ := ih n m h
      rw [if_pos hready]
      refine ⟨callback, hlawful, ?_, hout, hsame⟩
      rw [IoLoop.dispatchFds, hres]
      exact (if_neg hstop).trans ((if_neg hzero).trans (if_pos hready))
    rw [if_neg hready]
    obtain ⟨done, m₁, hkey⟩ : ∃ done m₁, dispatchKey callbacks (flagFromLibc pfd.revents) fuel
        (m.io.ioHandler.firstId (pollKey pfd.fd pfd.events)) m = (done, m₁) := ⟨_, _, rfl⟩
    have hspec := dispatchKey_refines hc (flagFromLibc pfd.revents) fuel
      (m.io.ioHandler.firstId (pollKey pfd.fd pfd.events)) m
    rw [hkey] at hspec
    obtain ⟨-, -, -, -, -, -, hsame₁⟩ := hspec _ h IoLoop.idle_lawful
    obtain ⟨rest, hrest, hres, hout, hsame⟩ := ih (n - 1) m₁ hsame₁.synced
    obtain ⟨callback, hlawful, hfrom, hwalk, -, hout₁, -⟩ := hspec rest h hrest
    rw [hkey]
    refine ⟨callback, hlawful, ?_, ?_, ?_⟩
    · rw [IoLoop.dispatchFds]
      refine (if_neg hstop).trans ((if_neg hzero).trans ((if_neg hready).trans ?_))
      rw [hwalk]
      cases done with
      | unfinished => rfl
      | stopped => rfl
      | finished =>
        dsimp only
        rw [IoLoop.dispatchFds_congr fuel pollfds (n - 1) m₁.io hfrom, hres]
    · cases done with
      | unfinished => exact hout₁
      | stopped => exact hout₁
      | finished => exact hout₁.trans hout
    · cases done with
      | unfinished => exact hsame₁
      | stopped => exact hsame₁
      | finished => exact hsame₁.trans hsame

/-- **A pass over the timeouts.** -/
theorem dispatchTimeout_refines (hc : callbacks.Lawful) (h : Synced m) : ∃ callback, TimeoutLoop.Lawful callback ∧
    TimeoutLoop.dispatchTimeout callback m.timeouts =
      (dispatchTimeout callbacks m).map (fun r => (r.1, r.2.timeouts)) ∧
    ∀ r, dispatchTimeout callbacks m = some r → OutsideIo m r.2 ∧ SameRest m r.2 := by
  have hread : Synced { m with timeouts := m.timeouts.getTime.2 } := h
  obtain ⟨callback, hlawful, hres, hrest⟩ := dispatchTimeoutFrom_refines hc (m.timeouts.clock m.timeouts.ticks)
    (m.timeouts.getTime.2.fresh + 1) (m.timeouts.getTime.2.timeoutHandler.next (.inl ()))
    { m with timeouts := m.timeouts.getTime.2 } hread
  refine ⟨callback, hlawful, hres, fun r hr => ?_⟩
  obtain ⟨hout, hsame⟩ := hrest r hr
  exact ⟨hout, hsame.synced, hsame.nextTimeout, hsame.wakeupPipe⟩

/-- **A pass over the IO events** is one of their own, and what it does to the timeouts is done from outside. -/
theorem dispatchIo_refines (hc : callbacks.Lawful) (fuel : ℕ) (h : Synced m) : ∃ callback, IoLoop.Lawful callback ∧
    IoLoop.dispatchIo callback fuel m.io = ((dispatchIo callbacks fuel m).1, (dispatchIo callbacks fuel m).2.io) ∧
    OutsideTimeouts m (dispatchIo callbacks fuel m).2 ∧ SameRest m (dispatchIo callbacks fuel m).2 := by
  unfold dispatchIo
  by_cases hret : m.io.pollRet ≤ 0
  · rw [if_pos hret]
    refine ⟨_, IoLoop.idle_lawful, ?_, OutsideTimeouts.of_eq rfl, h, rfl, rfl⟩
    rw [IoLoop.dispatchIo, if_pos hret]
  · obtain ⟨callback, hlawful, hres, hout, hsame⟩ := dispatchFds_refines hc fuel m.io.pollfds m.io.pollRet m h
    rw [if_neg hret]
    refine ⟨callback, hlawful, ?_, hout, hsame.synced, hsame.nextTimeout, hsame.wakeupPipe⟩
    rw [IoLoop.dispatchIo, if_neg hret, hres]
    rfl

end MainLoop

end Fcitx
