/-
# The main loop while a callback runs

A dispatch calls an event, the callback does what it wants with the main loop, and
when it has returned the dispatch settles the event. Here these are steps of their own,
so that whoever holds events can be followed through any order of actions, calls and
returns. A step moves events: some leave the loop, some join it, and the others stay.

Key definitions: `Running`, `RunningLoop`, `RunningLoop.Holds`, `IoLoop.Moved`, `TimeoutLoop.Moved`.
Key theorems: `RunningLoop.visit_timeout`, `RunningLoop.visit_io`, `RunningLoop.Holds.act`,
`RunningLoop.Holds.enterTimeout`, `RunningLoop.Holds.enterIo`, `RunningLoop.Holds.leave`.
-/
import Fcitx.MainLoop.Combined

namespace Fcitx

open Mark

/-- The event whose callback runs. -/
inductive Running where
  | nobody
  | timeout (event : ℕ)
  /-- the id of an IO event, and which registration it comes from -/
  | io (event : ℤ) (r : ℕ)
deriving DecidableEq

namespace Running

def timeoutEvent : Running → Option ℕ
  | .timeout event => some event
  | .nobody | .io .. => none

def ioEvent : Running → Option ℕ
  | .io _ r => some r
  | .nobody | .timeout _ => none

@[simp] theorem timeoutEvent_eq_some {running : Running} {event : ℕ} :
    running.timeoutEvent = some event ↔ running = .timeout event := by
  cases running with
  | nobody | io => simp [timeoutEvent]
  | timeout e => simp [timeoutEvent]

@[simp] theorem ioEvent_eq_some {running : Running} {r : ℕ} :
    running.ioEvent = some r ↔ ∃ event, running = .io event r := by
  cases running with
  | nobody | timeout => simp [ioEvent]
  | io event r' => simp [ioEvent]

end Running

/-- The main loop with the event whose callback runs. -/
structure RunningLoop where
  loop : MainLoop
  running : Running

namespace RunningLoop

def timeouts (s : RunningLoop) : TimeoutLoop := s.loop.timeouts

def io (s : RunningLoop) : IoLoop := s.loop.io

/-- An action, taken by the callback that runs or from outside. -/
def act (s : RunningLoop) (a : LoopAction) : RunningLoop :=
  { s with loop := s.loop.act s.running.timeoutEvent s.running.ioEvent a }

/-- The dispatch calls a timeout. -/
def enterTimeout (s : RunningLoop) (event : ℕ) : RunningLoop where
  loop := s.loop.onTimeouts fun timeouts => (timeouts.ref event).mark (.called event)
  running := .timeout event

/-- The dispatch calls an IO event. -/
def enterIo (s : RunningLoop) (event : ℤ) : RunningLoop where
  loop := s.loop.onIo fun io => (io.ref event).mark (.called (io.serial event))
  running := .io event (s.loop.io.serial event)

/-- The callback returns, and the dispatch settles its event. -/
def leave (s : RunningLoop) : RunningLoop :=
  match s.running with
  | .nobody => s
  | .timeout event =>
    ⟨s.loop.onTimeouts fun timeouts => (timeouts.mark (.returned event)).settle event, .nobody⟩
  | .io event r => ⟨s.loop.onIo fun io => ((io.mark (.returned r)).settle event).2, .nobody⟩

variable {s s' : RunningLoop} {callbacks : Callbacks}

theorem exec_act (s : RunningLoop) (as : List LoopAction) :
    Run.exec act s as =
      ⟨Run.exec (MainLoop.act s.running.timeoutEvent s.running.ioEvent) s.loop as, s.running⟩ := by
  induction as generalizing s with
  | nil => rfl
  | cons a as ih => exact ih (s.act a)

/-- **A visit of the pass over the timeouts** in steps. -/
theorem visit_timeout (callbacks : Callbacks) (m : MainLoop) (event : ℕ) :
    let s := enterTimeout ⟨m, .nobody⟩ event
    (MainLoop.invokeTimeout callbacks (m.onTimeouts (·.ref event)) event).onTimeouts (·.settle event) =
      (Run.exec act s (callbacks.timeout event s.loop)).leave.loop := by
  dsimp only
  rw [exec_act]
  rfl

/-- **A visit of the pass over the IO events** in steps. -/
theorem visit_io (callbacks : Callbacks) (flags : ℕ) (m : MainLoop) (event : ℤ) :
    let s := enterIo ⟨m, .nobody⟩ event
    (MainLoop.invokeIo callbacks flags (m.onIo (·.ref event)) event).onIo (fun io => (io.settle event).2) =
      (Run.exec act s (callbacks.io event flags s.loop)).leave.loop := by
  have hserial : (m.onIo (·.ref event)).io.serial event = m.io.serial event :=
    (IoLoop.ref_touched m.io event).serial event
  dsimp only
  rw [exec_act, MainLoop.invokeIo, hserial]
  rfl

end RunningLoop

/-! ### The events that stay -/

namespace TimeoutLoop

variable {s s' : TimeoutLoop} {running : Option ℕ} {event e : ℕ}

/-- The events `gone` left the list, `new` joined it, and `asked` are those whose removal was asked for. -/
structure Moved (s s' : TimeoutLoop) (gone new asked : List ℕ) : Prop where
  mem : ∀ e, e ∈ s'.timeouts ↔ e ∈ s.timeouts ∧ e ∉ gone ∨ e ∈ new
  fresh : s'.fresh = s.fresh + new.length
  new_eq : ∀ e ∈ new, e = s.fresh
  repeats : ∀ e < s.fresh, (s'.eventAt e).repeats = (s.eventAt e).repeats
  removals : removals s'.log = removals s.log ++ asked

theorem Moved.refl (s : TimeoutLoop) : Moved s s [] [] [] where
  mem e := by simp
  fresh := rfl
  new_eq _ he := absurd he List.not_mem_nil
  repeats _ _ := rfl
  removals := (List.append_nil _).symm

theorem Moved.fresh_le {gone new asked : List ℕ} (h : Moved s s' gone new asked) : s.fresh ≤ s'.fresh := by
  rw [h.fresh]
  exact Nat.le_add_right _ _

theorem moved_quit (s : TimeoutLoop) (running : Option ℕ) : Moved s (s.act running .quit) [] [] [] :=
  ⟨(Moved.refl s).mem, rfl, (Moved.refl s).new_eq, fun _ _ => rfl, (Moved.refl s).removals⟩

theorem repeats_of_fields {v w : TimeoutEvent} (h : { v with refcount := 0 } = { w with refcount := 0 }) :
    v.repeats = w.repeats := congrArg (·.repeats) h

theorem Holds.moved_register (h : Holds s running s.timeouts) (hrun : ∀ r, running = some r → r ∈ s.timeouts)
    (timeout : ℕ) (repeats destroyNotify : Bool) :
    Holds (s.act running (.register timeout repeats destroyNotify)) running
        (s.act running (.register timeout repeats destroyNotify)).timeouts ∧
      Moved s (s.act running (.register timeout repeats destroyNotify)) [] [s.fresh] [] ∧
      ((s.act running (.register timeout repeats destroyNotify)).eventAt s.fresh).repeats = repeats := by
  obtain ⟨t, hs', hacted⟩ := h.register hrun timeout repeats destroyNotify
  obtain ⟨u, htouch, htimed, -⟩ := setTimeEvent_spec (({ s with
    fresh := s.fresh + 1, allocated := Function.update s.allocated s.fresh true } : TimeoutLoop).setEvent
      s.fresh ⟨timeout, repeats, 0, destroyNotify, 1⟩) s.fresh
  have hlist := hs'.timeouts_eq
  refine ⟨by rw [hlist]; exact hs', ⟨fun e => ?_, htouch.fresh, fun e he => List.mem_singleton.mp he,
    fun e he => repeats_of_fields (hacted.fields e he), ?_⟩, ?_⟩
  · rw [hlist, List.mem_cons, List.mem_singleton]
    simp [or_comm]
  · have hu : Mark.removals u = [] := by
      rcases htimed with ⟨-, -, rfl⟩ | ⟨-, now, -, rfl⟩ <;> rfl
    show Mark.removals (_ ++ [.registered _]) = _
    rw [removals_append]
    refine (List.append_nil _).trans ?_
    show Mark.removals (TimeoutLoop.setTimeEvent _ _).log = _
    rw [htouch.log, removals_append, hu]
    rfl
  · refine htouch.repeats.trans ?_
    rw [setEvent_eventAt, if_pos rfl]

/-- Removing an event: it leaves, unless its callback runs. -/
theorem Holds.moved_remove (h : Holds s running s.timeouts) (hok : s.Allowed (.remove event)) :
    Holds (s.act running (.remove event)) running (s.act running (.remove event)).timeouts ∧
      Moved s (s.act running (.remove event)) (if running = some event then [] else [event]) [] [event] := by
  obtain ⟨ys, t, hs', hacted⟩ := h.remove hok
  have hlist := hs'.timeouts_eq
  have hfresh : (s.act running (.remove event)).fresh = s.fresh := by
    show (TimeoutLoop.removeTimeoutEvent _ event).fresh = _
    unfold removeTimeoutEvent
    dsimp only
    split
    · exact (release_eq _ event).2.2.1
    · rfl
  have hremovals : Mark.removals (s.act running (.remove event)).log = Mark.removals s.log ++ [event] := by
    show Mark.removals (TimeoutLoop.removeTimeoutEvent _ event).log = _
    unfold removeTimeoutEvent
    dsimp only
    split
    · rw [(release_eq _ event).2.2.2.2, removals_append]
      show Mark.removals (s.log ++ [.removed running event]) ++ _ = _
      rw [removals_append]
      split <;> exact List.append_nil _
    · exact removals_append s.log [.removed running event]
  have ht : Mark.removals t = [event] := by
    rw [hacted.log, removals_append] at hremovals
    exact List.append_cancel_left hremovals
  refine ⟨by rw [hlist]; exact hs', ⟨fun e => ?_, hfresh, fun e he => absurd he List.not_mem_nil,
    fun e he => repeats_of_fields (hacted.fields e he), hremovals⟩⟩
  rw [hlist]
  by_cases hlt : e < s.fresh
  · rw [hacted.mem e hlt, ht, List.mem_singleton]
    split
    · next hrun => simp [hrun, eq_comm]
    · next hrun =>
      have hne : (e = event → running = some e) ↔ e ≠ event :=
        ⟨fun himp he => hrun (he ▸ himp he), fun hne he => absurd he hne⟩
      simp [hne]
  · refine iff_of_false (fun he => ?_) (fun he => ?_)
    · exact hlt (hfresh ▸ hs'.lt e he)
    · rcases he with ⟨he, -⟩ | he
      · exact hlt (h.lt e he)
      · exact absurd he List.not_mem_nil

/-- **Calling an event** moves none. -/
theorem Holds.moved_enter (h : Holds s none s.timeouts) (hmem : event ∈ s.timeouts) :
    Holds ((s.ref event).mark (.called event)) (some event) ((s.ref event).mark (.called event)).timeouts ∧
      Moved s ((s.ref event).mark (.called event)) [] [] [] := by
  have ht := (ref_touched s event).trans (mark_touched (s.ref event) event (.called event))
  have hlist : ((s.ref event).mark (.called event)).timeouts = s.timeouts := rfl
  refine ⟨by rw [hlist]; exact h.start hmem, ⟨fun e => by rw [hlist]; simp, rfl,
    fun e he => absurd he List.not_mem_nil, fun e _ => ?_, ?_⟩⟩
  · by_cases he : e = event
    · rw [he]
      exact ht.repeats
    · rw [ht.others e he]
  · rw [ht.log, removals_append]
    rfl

/-- **Settling an event**: it leaves when its removal was asked for, or when it does not repeat. -/
theorem Holds.moved_settle (h : Holds s (some event) s.timeouts) (hmem : event ∈ s.timeouts) :
    Holds ((s.mark (.returned event)).settle event) none ((s.mark (.returned event)).settle event).timeouts ∧
      Moved s ((s.mark (.returned event)).settle event)
        (if event ∉ Mark.removals s.log ∧ (s.eventAt event).repeats = true then [] else [event]) [] [] := by
  obtain ⟨ys, u, hs', hsettled⟩ := (h.mark (.returned event) ⟨rfl, fun e => by simp⟩).settle hmem
  have hlist := hs'.timeouts_eq
  have hremovals : Mark.removals (s.mark (.returned event)).log = Mark.removals s.log :=
    (removals_append s.log [.returned event]).trans (List.append_nil _)
  have hmemIff := hsettled.mem_iff h.nodup
  rw [hremovals] at hmemIff
  refine ⟨by rw [hlist]; exact hs', ⟨fun e => ?_, hsettled.fresh, fun e he => absurd he List.not_mem_nil,
    fun e _ => ?_, ?_⟩⟩
  · rw [hlist, hmemIff]
    show e ∈ s.timeouts ∧ (e = event → event ∉ Mark.removals s.log ∧ (s.eventAt event).repeats = true) ↔ _
    split
    · next hstays =>
      simp only [hstays, not_false_eq_true, and_self, implies_true, and_true, List.not_mem_nil, or_false]
    · next hgoes =>
      have hne : (e = event → event ∉ Mark.removals s.log ∧ (s.eventAt event).repeats = true) ↔ e ≠ event :=
        ⟨fun himp he => hgoes (himp he), fun hne he => absurd he hne⟩
      rw [hne, List.mem_singleton]
      simp
  · by_cases he : e = event
    · rw [he]
      exact hsettled.repeats
    · rw [hsettled.others e he]
      rfl
  · rw [hsettled.log, removals_append, hsettled.marks.2.1, hremovals]

end TimeoutLoop

namespace IoLoop

variable {s s' : IoLoop} {running : Option ℕ} {event : ℤ} {e r : ℕ} {t : List Mark}

/-- The events `gone` left the table, `new` joined it, and `asked` are those whose removal was asked for. -/
structure Moved (s s' : IoLoop) (gone new : List ℤ) (asked : List ℕ) : Prop where
  mem : ∀ i, i ∈ s'.ioHandler.live ↔ i ∈ s.ioHandler.live ∧ i ∉ gone ∨ i ∈ new
  serial : ∀ i ∈ s.ioHandler.live, s'.serial i = s.serial i
  fresh : s'.fresh = s.fresh + new.length
  out : ∀ i ∈ new, i ∉ s.ioHandler.live
  new_serial : ∀ i ∈ new, s'.serial i = s.fresh
  notifies : ∀ e < s.fresh, s'.notifies e = s.notifies e
  removals : removals s'.log = removals s.log ++ asked
  log : ∃ t, s'.log = s.log ++ t

theorem Moved.refl (s : IoLoop) : Moved s s [] [] [] where
  mem i := by simp
  serial _ _ := rfl
  fresh := rfl
  out _ hi := absurd hi List.not_mem_nil
  new_serial _ hi := absurd hi List.not_mem_nil
  notifies _ _ := rfl
  removals := (List.append_nil _).symm
  log := ⟨[], (List.append_nil _).symm⟩

theorem Moved.fresh_le {gone new : List ℤ} {asked : List ℕ} (h : Moved s s' gone new asked) :
    s.fresh ≤ s'.fresh := by
  rw [h.fresh]
  exact Nat.le_add_right _ _

theorem moved_quit (s : IoLoop) (running : Option ℕ) : Moved s (s.act running .quit) [] [] [] :=
  ⟨(Moved.refl s).mem, fun _ _ => rfl, rfl, (Moved.refl s).out, (Moved.refl s).new_serial, fun _ _ => rfl,
    (Moved.refl s).removals, (Moved.refl s).log⟩

/-- **Registering an event.** -/
theorem Holds.moved_register (h : Holds s running) (hrun : ∀ r, running = some r → r < s.fresh) {fd : ℤ}
    {flag : ℕ} {destroyNotify : Bool} {malloc : KeyPtr}
    (hok : s.Allowed (.register fd flag destroyNotify malloc)) :
    Holds (s.act running (.register fd flag destroyNotify malloc)) running ∧
      Moved s (s.act running (.register fd flag destroyNotify malloc)) []
        [(s.registerIoEvent fd flag destroyNotify malloc).1] [] ∧
      (s.act running (.register fd flag destroyNotify malloc)).notifies s.fresh = destroyNotify := by
  obtain ⟨hs', hacted⟩ := h.register hrun hok
  set id := (s.registerIoEvent fd flag destroyNotify malloc).1 with hid
  have hok' : s.ioHandler.Ok (.append (pollKey fd (flagToLibc flag)) (List.replicate sizeofIoEvent 0) malloc) := hok
  obtain ⟨-, hout, -, -⟩ := HandlerTable.append_ids h.table hok'
  have hevents : ∀ i, (s.act running (.register fd flag destroyNotify malloc)).eventAt i =
      if i = id then ⟨fd, destroyNotify, id, 1, s.fresh⟩ else s.eventAt i := fun i => Function.update_apply ..
  refine ⟨hs', ⟨fun i => ?_, fun i hi => ?_, rfl, fun i hi => ?_, fun i hi => ?_, hacted.notifies, ?_,
    ⟨_, hacted.log⟩⟩, ?_⟩
  · rw [List.mem_singleton]
    simp only [List.not_mem_nil, not_false_eq_true, and_true]
    exact HandlerTable.mem_live_append h.table hok'
  · rw [serial, hevents, if_neg fun heq : i = id => hout (show id ∈ s.ioHandler.live from heq ▸ hi)]
    rfl
  · rw [List.mem_singleton.mp hi]
    exact hout
  · rw [List.mem_singleton.mp hi, serial, hevents, if_pos rfl]
  · rw [hacted.log, removals_append]
    rfl
  · exact Function.update_self ..

/-- Removing an event: it leaves, unless its callback runs. -/
theorem Holds.moved_remove (h : Holds s running) (hok : s.Allowed (.remove event)) :
    Holds (s.act running (.remove event)) running ∧
      Moved s (s.act running (.remove event)) (if running = some (s.serial event) then [] else [event]) []
        [s.serial event] := by
  have ⟨hlive, hask⟩ := hok
  obtain ⟨t, hs', hacted⟩ := h.remove hok
  set s₁ := ((s.mark (.removed running (s.serial event))).unref event).2 with hs₁
  have htouch : Touched s s₁ event [.removed running (s.serial event)] :=
    (mark_touched s event _).trans (unref_touched _ event)
  refine ⟨hs', ?_⟩
  by_cases hrun : running = some (s.serial event)
  · have hact : s.act running (.remove event) = s₁ := by
      rw [hs₁, hrun]
      exact (hrun ▸ h).removeSelf hok
    rw [if_pos hrun, hact]
    refine ⟨fun i => by rw [htouch.table]; simp, fun i _ => htouch.serial i, htouch.fresh,
      fun i hi => absurd hi List.not_mem_nil, fun i hi => absurd hi List.not_mem_nil,
      fun e _ => by rw [htouch.notifies], ?_, ⟨_, htouch.log⟩⟩
    rw [htouch.log, removals_append]
    rfl
  · have hbefore := h.refcount event hlive
    rw [if_neg hrun, if_neg hask, Int.sub_zero] at hbefore
    have hid : (s₁.eventAt event).id = event :=
      (congrArg (·.id) (htouch.fields event)).trans (h.id_eq event hlive)
    have hact : s.act running (.remove event) = s₁.removeByIdFull event := by
      show (if (s.eventAt event).refcount = 1 then s₁.removeByIdFull (s₁.eventAt event).id else s₁) = _
      rw [hbefore, hid]
      exact if_pos rfl
    have hu : About (s.serial event) [.removed running (s.serial event)] :=
      ⟨fun e he => List.mem_singleton.mp he, fun _ => by simp, fun _ => by simp⟩
    obtain ⟨-, -, hserial, hlive'⟩ := h.release htouch hu hlive fun e _ => Iff.refl (running = some e)
    obtain ⟨-, -, hfresh, hnotifies, hlog⟩ := removeByIdFull_eq (s := s₁) (i := event)
      (by rw [htouch.table]; exact h.table) (by rw [htouch.table]; exact h.freeFunc)
      (by rw [htouch.table]; exact hlive)
    rw [if_neg hrun]
    refine ⟨fun i => ?_, fun i _ => ?_, ?_, fun i hi => absurd hi List.not_mem_nil,
      fun i hi => absurd hi List.not_mem_nil, hacted.notifies, ?_, ⟨_, hacted.log⟩⟩
    · rw [hact, hlive', List.mem_singleton]
      simp
    · rw [hact, hserial]
    · rw [hact, hfresh, htouch.fresh]
      rfl
    · rw [hact, hlog, htouch.log, removals_append, removals_append, (ioeventFree_marks s₁ event).2.1, List.append_nil]
      rfl

/-- **Calling an event** moves none. -/
theorem Holds.moved_enter (h : Holds s none) (hi : event ∈ s.ioHandler.live) :
    Holds ((s.ref event).mark (.called (s.serial event))) (some (s.serial event)) ∧
      Moved s ((s.ref event).mark (.called (s.serial event))) [] [] [] := by
  obtain ⟨hs', ht⟩ := h.start hi
  refine ⟨hs', ⟨fun i => by rw [ht.table]; simp, fun i _ => ht.serial i, ht.fresh,
    fun i hi => absurd hi List.not_mem_nil, fun i hi => absurd hi List.not_mem_nil,
    fun e _ => by rw [ht.notifies], ?_, ⟨_, ht.log⟩⟩⟩
  rw [ht.log, removals_append]
  rfl

/-- **Settling an event**: it leaves when its removal was asked for. -/
theorem Holds.moved_settle (h : Holds s (some r)) (hi : event ∈ s.ioHandler.live) (hr : s.serial event = r) :
    Holds ((s.mark (.returned r)).settle event).2 none ∧
      Moved s ((s.mark (.returned r)).settle event).2 (if r ∈ Mark.removals s.log then [event] else []) [] [] := by
  subst hr
  have hmarked := h.mark (.returned (s.serial event)) ⟨rfl, fun e => by simp, fun e => by simp⟩
  obtain ⟨-, u, hsettled⟩ := settle_spec (s := s.mark (.returned (s.serial event))) hmarked hi
  have hremovals : Mark.removals (s.mark (.returned (s.serial event))).log = Mark.removals s.log :=
    (removals_append s.log [.returned (s.serial event)]).trans (List.append_nil _)
  refine ⟨hsettled.holds, ⟨fun i => ?_, fun i _ => hsettled.serial i, hsettled.fresh,
    fun i hi => absurd hi List.not_mem_nil, fun i hi => absurd hi List.not_mem_nil,
    fun e _ => by rw [hsettled.notifies]; rfl, ?_, ⟨[.returned (s.serial event)] ++ u, ?_⟩⟩⟩
  · split
    · next hask =>
      have hask' : (s.mark (.returned (s.serial event))).serial event ∈
          Mark.removals (s.mark (.returned (s.serial event))).log := by
        rw [hremovals]
        exact hask
      rw [(hsettled.gone hask').2]
      rw [List.mem_singleton]
      simp only [List.not_mem_nil, or_false]
      exact HandlerTable.mem_live_remove h.table hi
    · next hask =>
      have hask' : (s.mark (.returned (s.serial event))).serial event ∉
          Mark.removals (s.mark (.returned (s.serial event))).log := by
        rw [hremovals]
        exact hask
      rw [hsettled.stays hask']
      simp [IoLoop.mark]
  · rw [hsettled.log, removals_append, hsettled.marks.2.1, hremovals]
  · rw [hsettled.log, ← List.append_assoc]
    rfl

/-- **Who is notified**: an event with a `destroyNotify` that leaves the table. -/
theorem Holds.destroyed_iff {running' : Option ℕ} (h : Holds s running) (h' : Holds s' running')
    (ht : s'.log = s.log ++ t) (hlt : e < s.fresh) (hfresh : s.fresh ≤ s'.fresh) (hn : s.notifies e = true)
    (hn' : s'.notifies e = true) : .destroyed e ∈ t ↔ e ∈ s.serials ∧ e ∉ s'.serials := by
  have hbefore := h.destroyed e
  have hafter := h'.destroyed e
  have hlt' : e < s'.fresh := Nat.lt_of_lt_of_le hlt hfresh
  rw [ht, List.count_append, hbefore] at hafter
  rw [← List.count_pos_iff]
  by_cases hin : e ∈ s.serials
  · by_cases hin' : e ∈ s'.serials
    · rw [if_neg (by simp [hin]), if_neg (by simp [hin'])] at hafter
      exact iff_of_false (by omega) (by simp [hin'])
    · rw [if_neg (by simp [hin]), if_pos ⟨hlt', hin', hn'⟩] at hafter
      exact iff_of_true (by omega) ⟨hin, hin'⟩
  · rw [if_pos ⟨hlt, hin, hn⟩] at hafter
    refine iff_of_false ?_ (by simp [hin])
    split at hafter <;> omega

end IoLoop

namespace RunningLoop

variable {s s' : RunningLoop} {a : LoopAction} {e : ℕ} {event : ℤ}

/-- What is known of the loop at any moment; the event that runs is there. -/
structure Holds (s : RunningLoop) : Prop where
  timeouts : s.timeouts.Holds s.running.timeoutEvent s.timeouts.timeouts
  io : s.io.Holds s.running.ioEvent
  timeoutLive : ∀ e, s.running = .timeout e → e ∈ s.timeouts.timeouts
  ioLive : ∀ event r, s.running = .io event r → event ∈ s.io.ioHandler.live ∧ s.io.serial event = r

/-- The events that leave the loop or join it, and those whose removal is asked for. -/
structure Moves where
  timeoutsGone : List ℕ := []
  timeoutsNew : List ℕ := []
  timeoutsAsked : List ℕ := []
  ioGone : List ℤ := []
  ioNew : List ℤ := []
  ioAsked : List ℕ := []

structure Moved (s s' : RunningLoop) (moves : Moves) : Prop where
  timeouts : TimeoutLoop.Moved s.timeouts s'.timeouts moves.timeoutsGone moves.timeoutsNew moves.timeoutsAsked
  io : IoLoop.Moved s.io s'.io moves.ioGone moves.ioNew moves.ioAsked

/-- What an action moves. -/
def actMoves (s : RunningLoop) : LoopAction → Moves
  | .registerTimeout .. => { timeoutsNew := [s.timeouts.fresh] }
  | .removeTimeout event =>
    { timeoutsGone := if s.running.timeoutEvent = some event then [] else [event], timeoutsAsked := [event] }
  | .registerIo fd flag destroyNotify malloc =>
    { ioNew := [(s.io.registerIoEvent fd flag destroyNotify malloc).1] }
  | .removeIo event =>
    { ioGone := if s.running.ioEvent = some (s.io.serial event) then [] else [event]
      ioAsked := [s.io.serial event] }
  | .quit => {}

/-- What the return of the callback moves. -/
def leaveMoves (s : RunningLoop) : Moves :=
  match s.running with
  | .nobody => {}
  | .timeout event =>
    { timeoutsGone :=
        if event ∉ removals s.timeouts.log ∧ (s.timeouts.eventAt event).repeats = true then [] else [event] }
  | .io event r => { ioGone := if r ∈ removals s.io.log then [event] else [] }

theorem Holds.timeout_mem (h : Holds s) : ∀ r, s.running.timeoutEvent = some r → r ∈ s.timeouts.timeouts :=
  fun r hr => h.timeoutLive r (Running.timeoutEvent_eq_some.mp hr)

theorem Holds.io_lt (h : Holds s) : ∀ r, s.running.ioEvent = some r → r < s.io.fresh := by
  intro r hr
  obtain ⟨event, hrun⟩ := Running.ioEvent_eq_some.mp hr
  obtain ⟨hlive, rfl⟩ := h.ioLive event r hrun
  exact h.io.lt event hlive

/-- The event that runs stays, unless it is among those that leave. -/
theorem Holds.of_moved (h : Holds s) {moves : Moves} (hm : Moved s s' moves) (hrun : s'.running = s.running)
    (htimeouts : s'.timeouts.Holds s'.running.timeoutEvent s'.timeouts.timeouts) (hio : s'.io.Holds s'.running.ioEvent)
    (hgone : ∀ e ∈ moves.timeoutsGone, s.running ≠ .timeout e)
    (hgone' : ∀ event ∈ moves.ioGone, ∀ r, s.io.serial event = r → s.running ≠ .io event r) : Holds s' := by
  refine ⟨htimeouts, hio, fun e he => ?_, fun event r hr => ?_⟩
  · rw [hrun] at he
    exact (hm.timeouts.mem e).mpr (Or.inl ⟨h.timeoutLive e he, fun hmem => hgone e hmem he⟩)
  · rw [hrun] at hr
    obtain ⟨hlive, hserial⟩ := h.ioLive event r hr
    exact ⟨(hm.io.mem event).mpr (Or.inl ⟨hlive, fun hmem => hgone' event hmem r hserial hr⟩),
      (hm.io.serial event hlive).trans hserial⟩

/-- **An action** moves what it says. -/
theorem Holds.act (h : Holds s) (hok : s.loop.Allowed a) : Holds (s.act a) ∧ Moved s (s.act a) (s.actMoves a) := by
  cases a with
  | registerTimeout timeout repeats destroyNotify =>
    obtain ⟨htimeouts, hmoved, -⟩ := h.timeouts.moved_register h.timeout_mem timeout repeats destroyNotify
    have hm : Moved s (s.act (.registerTimeout timeout repeats destroyNotify)) { timeoutsNew := [s.timeouts.fresh] } :=
      ⟨hmoved, IoLoop.Moved.refl _⟩
    exact ⟨h.of_moved hm rfl htimeouts h.io (fun _ he => absurd he List.not_mem_nil)
      (fun _ he => absurd he List.not_mem_nil), hm⟩
  | removeTimeout event =>
    have hallowed : s.timeouts.Allowed (.remove event) := hok.1 _ (List.mem_singleton_self _)
    obtain ⟨htimeouts, hmoved⟩ := h.timeouts.moved_remove hallowed
    have hm : Moved s (s.act (.removeTimeout event)) (s.actMoves (.removeTimeout event)) :=
      ⟨hmoved, IoLoop.Moved.refl _⟩
    refine ⟨h.of_moved hm rfl htimeouts h.io (fun e he hrun => ?_) (fun _ he => absurd he List.not_mem_nil), hm⟩
    change e ∈ (if s.running.timeoutEvent = some event then [] else [event]) at he
    split at he
    · exact absurd he List.not_mem_nil
    · next hne =>
      rw [List.mem_singleton.mp he] at hrun
      exact hne (Running.timeoutEvent_eq_some.mpr hrun)
  | registerIo fd flag destroyNotify malloc =>
    obtain ⟨hio, hmoved, -⟩ := h.io.moved_register h.io_lt (hok.2 _ (List.mem_singleton_self _))
    have hm : Moved s (s.act (.registerIo fd flag destroyNotify malloc))
        (s.actMoves (.registerIo fd flag destroyNotify malloc)) := ⟨TimeoutLoop.Moved.refl _, hmoved⟩
    exact ⟨h.of_moved hm rfl h.timeouts hio (fun _ he => absurd he List.not_mem_nil)
      (fun _ he => absurd he List.not_mem_nil), hm⟩
  | removeIo event =>
    have hallowed : s.io.Allowed (.remove event) := hok.2 _ (List.mem_singleton_self _)
    obtain ⟨hio, hmoved⟩ := h.io.moved_remove hallowed
    have hm : Moved s (s.act (.removeIo event)) (s.actMoves (.removeIo event)) := ⟨TimeoutLoop.Moved.refl _, hmoved⟩
    refine ⟨h.of_moved hm rfl h.timeouts hio (fun _ he => absurd he List.not_mem_nil) (fun e he r hr hrun => ?_), hm⟩
    change e ∈ (if s.running.ioEvent = some (s.io.serial event) then [] else [event]) at he
    split at he
    · exact absurd he List.not_mem_nil
    · next hne =>
      rw [List.mem_singleton.mp he] at hr hrun
      exact hne (Running.ioEvent_eq_some.mpr ⟨event, by rw [hrun, hr]⟩)
  | quit =>
    have hm : Moved s (s.act .quit) {} := ⟨TimeoutLoop.moved_quit _ none, IoLoop.moved_quit _ none⟩
    obtain ⟨ys, t, htimeouts, -⟩ := h.timeouts.act (a := .quit) h.timeout_mem trivial
    obtain ⟨u, hio, -⟩ := h.io.act (a := .quit) h.io_lt trivial
    refine ⟨h.of_moved hm rfl ?_ hio (fun _ he => absurd he List.not_mem_nil)
      (fun _ he => absurd he List.not_mem_nil), hm⟩
    rw [show (s.act .quit).timeouts.timeouts = ys from htimeouts.timeouts_eq]
    exact htimeouts

theorem Holds.nobody (h : Holds s) (hrun : s.running = .nobody) :
    s.timeouts.Holds none s.timeouts.timeouts ∧ s.io.Holds none := by
  obtain ⟨htimeouts, hio, -, -⟩ := h
  rw [hrun] at htimeouts hio
  exact ⟨htimeouts, hio⟩

/-- **A call** moves no event. -/
theorem Holds.enterTimeout (h : Holds s) (hrun : s.running = .nobody) (he : e ∈ s.timeouts.timeouts) :
    Holds (s.enterTimeout e) ∧ Moved s (s.enterTimeout e) {} := by
  obtain ⟨hstart, hio⟩ := h.nobody hrun
  obtain ⟨htimeouts, hmoved⟩ := hstart.moved_enter he
  refine ⟨⟨htimeouts, hio, fun e' heq => ?_, fun event r hr => absurd hr (by simp [RunningLoop.enterTimeout])⟩,
    hmoved, IoLoop.Moved.refl _⟩
  obtain rfl := Running.timeout.inj heq
  exact (hmoved.mem e).mpr (Or.inl ⟨he, List.not_mem_nil⟩)

theorem Holds.enterIo (h : Holds s) (hrun : s.running = .nobody) (he : event ∈ s.io.ioHandler.live) :
    Holds (s.enterIo event) ∧ Moved s (s.enterIo event) {} := by
  obtain ⟨htimeouts, hstart⟩ := h.nobody hrun
  obtain ⟨hio, hmoved⟩ := hstart.moved_enter he
  refine ⟨⟨htimeouts, hio, fun e' heq => absurd heq (by simp [RunningLoop.enterIo]), fun event' r hr => ?_⟩,
    TimeoutLoop.Moved.refl _, hmoved⟩
  obtain ⟨rfl, rfl⟩ := Running.io.inj hr
  exact ⟨(hmoved.mem event).mpr (Or.inl ⟨he, List.not_mem_nil⟩), hmoved.serial event he⟩

/-- **The return of a callback** moves what it says. -/
theorem Holds.leave (h : Holds s) : Holds s.leave ∧ Moved s s.leave s.leaveMoves ∧ s.leave.running = .nobody := by
  obtain ⟨loop, running⟩ := s
  cases running with
  | nobody => exact ⟨h, ⟨TimeoutLoop.Moved.refl _, IoLoop.Moved.refl _⟩, rfl⟩
  | timeout event =>
    have hheld : TimeoutLoop.Holds loop.timeouts (some event) loop.timeouts.timeouts := h.timeouts
    obtain ⟨htimeouts, hmoved⟩ := hheld.moved_settle (h.timeoutLive event rfl)
    exact ⟨⟨htimeouts, h.io, fun e he => absurd he (by simp [RunningLoop.leave]),
      fun event r hr => absurd hr (by simp [RunningLoop.leave])⟩, ⟨hmoved, IoLoop.Moved.refl _⟩, rfl⟩
  | io event r =>
    obtain ⟨hlive, hserial⟩ := h.ioLive event r rfl
    have hheld : IoLoop.Holds loop.io (some r) := h.io
    obtain ⟨hio, hmoved⟩ := hheld.moved_settle hlive hserial
    exact ⟨⟨h.timeouts, hio, fun e he => absurd he (by simp [RunningLoop.leave]),
      fun event r hr => absurd hr (by simp [RunningLoop.leave])⟩, ⟨TimeoutLoop.Moved.refl _, hmoved⟩, rfl⟩

end RunningLoop

end Fcitx
