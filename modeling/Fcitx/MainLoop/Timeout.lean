/-
# The timeouts of the main loop

`fcitx-utils/mainloop.c`: the timeout events lie in a circular list of the main
loop, each with a reference count that says who releases it, the one who
removes it or the dispatch that is calling it. Events are numbered as they are
allocated; what the program does from outside is a list of actions, and a
callback is the list of actions it takes.

Key definitions: `TimeoutEvent`, `TimeoutLoop`,
`TimeoutLoop.registerTimeoutEvent`, `TimeoutLoop.removeTimeoutEvent`,
`TimeoutLoop.dispatchTimeout`, `TimeoutLoop.Holds`.
Key theorems: `TimeoutLoop.Holds.act`, `TimeoutLoop.Holds.acts`.
-/
import Fcitx.Lib.RingHeap
import Fcitx.Lib.Run
import Fcitx.Lib.Visits

namespace Fcitx

open Mark

/-- `FcitxTimeoutEvent`; its callback is a parameter of the dispatch. -/
structure TimeoutEvent where
  timeout : ℕ
  repeats : Bool
  time : ℤ
  /-- whether there is a `destroyNotify` -/
  destroyNotify : Bool
  refcount : ℤ

/-- The head of `timeoutHandler` or the `list` of an event. -/
abbrev TimeoutNode := Unit ⊕ ℕ

/-- The part of `FcitxMainLoop` that the timeouts use, with the memory of the
events, the readings of the clock and the log. -/
structure TimeoutLoop where
  timeoutHandler : Links TimeoutNode
  eventAt : ℕ → TimeoutEvent
  allocated : ℕ → Bool
  /-- the number of the next event -/
  fresh : ℕ
  quit : Bool
  /-- what `get_time` reads, and how often it was read -/
  clock : ℕ → ℤ
  ticks : ℕ
  log : List Mark

/-- What a program does with the timeouts. -/
inductive TimeoutAction where
  | register (timeout : ℕ) (repeats destroyNotify : Bool)
  | remove (event : ℕ)
  | quit
deriving DecidableEq

namespace TimeoutLoop

/-- The loop of `fcitx_mainloop_new`. -/
def new (clock : ℕ → ℤ) : TimeoutLoop where
  timeoutHandler := Links.null.init (.inl ())
  eventAt := fun _ => ⟨0, false, 0, false, 0⟩
  allocated := fun _ => false
  fresh := 0
  quit := false
  clock := clock
  ticks := 0
  log := []

/-- The events of the list, from its head on. -/
def timeouts (s : TimeoutLoop) : List ℕ := s.timeoutHandler.entries () (s.fresh + 1)

def mark (s : TimeoutLoop) (m : Mark) : TimeoutLoop := { s with log := s.log ++ [m] }

def setEvent (s : TimeoutLoop) (event : ℕ) (v : TimeoutEvent) : TimeoutLoop :=
  { s with eventAt := Function.update s.eventAt event v }

/-- `get_time` -/
def getTime (s : TimeoutLoop) : ℤ × TimeoutLoop :=
  (s.clock s.ticks, { s with ticks := s.ticks + 1 }.mark (.clock (s.clock s.ticks)))

/-- `fcitx_timeout_event_ref` -/
def ref (s : TimeoutLoop) (event : ℕ) : TimeoutLoop :=
  s.setEvent event { s.eventAt event with refcount := (s.eventAt event).refcount + 1 }

/-- `fcitx_timeout_event_unref`: the count before. -/
def unref (s : TimeoutLoop) (event : ℕ) : ℤ × TimeoutLoop :=
  ((s.eventAt event).refcount,
    s.setEvent event { s.eventAt event with refcount := (s.eventAt event).refcount - 1 })

/-- `set_time_event` -/
def setTimeEvent (s : TimeoutLoop) (event : ℕ) : TimeoutLoop :=
  if (s.eventAt event).timeout = 0 then s.setEvent event { s.eventAt event with time := 0 }
  else
    let (time, s) := s.getTime
    s.setEvent event { s.eventAt event with time := time + (s.eventAt event).timeout }

/-- `fcitx_mainloop_register_timeout_event` -/
def registerTimeoutEvent (s : TimeoutLoop) (timeout : ℕ) (repeats destroyNotify : Bool) :
    ℕ × TimeoutLoop :=
  let event := s.fresh
  let s := { s with fresh := event + 1, allocated := Function.update s.allocated event true }
  let s := (s.setEvent event ⟨timeout, repeats, 0, destroyNotify, 1⟩).setTimeEvent event
  (event, { s with timeoutHandler := s.timeoutHandler.prepend (.inr event) (.inl ()) })

/-- The end of `fcitx_mainloop_remove_timeout_event`: unlink the event, call its
`destroyNotify` and free it. -/
def release (s : TimeoutLoop) (event : ℕ) : TimeoutLoop :=
  let s := { s with timeoutHandler := s.timeoutHandler.remove (.inr event) }
  let s := if (s.eventAt event).destroyNotify then s.mark (.destroyed event) else s
  { s with allocated := Function.update s.allocated event false }

/-- `fcitx_mainloop_remove_timeout_event` -/
def removeTimeoutEvent (s : TimeoutLoop) (event : ℕ) : TimeoutLoop :=
  let (old, s) := s.unref event
  if old = 1 then s.release event else s

/-- An action, taken by the callback of `running`. -/
def act (running : Option ℕ) (s : TimeoutLoop) : TimeoutAction → TimeoutLoop
  | .register timeout repeats destroyNotify =>
    let (event, s) := s.registerTimeoutEvent timeout repeats destroyNotify
    s.mark (.registered event)
  | .remove event => (s.mark (.removed running event)).removeTimeoutEvent event
  | .quit => { s with quit := true }

/-- What a program promises: it removes live events only, each at most once. -/
def Allowed (s : TimeoutLoop) : TimeoutAction → Prop
  | .remove event => s.allocated event = true ∧ event ∉ removals s.log
  | _ => True

instance (s : TimeoutLoop) : ∀ a, Decidable (s.Allowed a)
  | .remove _ => inferInstanceAs (Decidable (_ ∧ _))
  | .register .. | .quit => .isTrue trivial

/-- The actions of a callback, given the event that is called and the loop it finds. -/
abbrev Callback := ℕ → TimeoutLoop → List TimeoutAction

/-- Callbacks that keep the promise. -/
def Lawful (callback : Callback) : Prop :=
  ∀ event s, Run.Admissible (act (some event)) Allowed s (callback event s)

/-- `event->callback(event, event->userdata)` -/
def invoke (callback : Callback) (s : TimeoutLoop) (event : ℕ) : TimeoutLoop :=
  let s := s.mark (.called event)
  (Run.exec (act (some event)) s (callback event s)).mark (.returned event)

/-- What `fcitx_mainloop_dispatch_timeout` does when a callback has returned. -/
def settle (s : TimeoutLoop) (event : ℕ) : TimeoutLoop :=
  let (old, s) := s.unref event
  if old = 1 then (s.ref event).removeTimeoutEvent event
  else if (s.eventAt event).repeats then s.setTimeEvent event
  else s.removeTimeoutEvent event

/-- The loop of `fcitx_mainloop_dispatch_timeout` from a node on, with whether it
came to the end of the list. It has no result when it reads a null link or an
event that was freed, or when it is not over after `fuel` rounds. -/
def dispatchFrom (callback : Callback) (now : ℤ) :
    ℕ → Option TimeoutNode → TimeoutLoop → Option (Bool × TimeoutLoop)
  | 0, _, _ => none
  | _ + 1, none, _ => none
  | _ + 1, some (.inl _), s => some (true, s)
  | fuel + 1, some (.inr event), s =>
    if s.quit then some (false, s)
    else if s.allocated event = false then none
    else if (s.eventAt event).time < now then
      let s := (s.ref event).invoke callback event
      let next := s.timeoutHandler.next (.inr event)
      if s.allocated event = false then none
      else dispatchFrom callback now fuel next (s.settle event)
    else dispatchFrom callback now fuel (s.timeoutHandler.next (.inr event)) s

/-- `fcitx_mainloop_dispatch_timeout`; the list has no more events than were allocated. -/
def dispatchTimeout (callback : Callback) (s : TimeoutLoop) : Option (Bool × TimeoutLoop) :=
  let (now, s) := s.getTime
  dispatchFrom callback now (s.fresh + 1) (s.timeoutHandler.next (.inl ())) s

/-! ### What the operations write -/

/-- Two loops that differ in the count and the time of one event, in the clock
and in the marks `u`. -/
structure Touched (s s' : TimeoutLoop) (event : ℕ) (u : List Mark) : Prop where
  handler : s'.timeoutHandler = s.timeoutHandler
  allocated : s'.allocated = s.allocated
  fresh : s'.fresh = s.fresh
  others : ∀ e, e ≠ event → s'.eventAt e = s.eventAt e
  timeout : (s'.eventAt event).timeout = (s.eventAt event).timeout
  repeats : (s'.eventAt event).repeats = (s.eventAt event).repeats
  destroyNotify : (s'.eventAt event).destroyNotify = (s.eventAt event).destroyNotify
  log : s'.log = s.log ++ u

variable {s s' s₁ s₂ : TimeoutLoop} {event : ℕ} {u v : List Mark}

theorem Touched.trans (h₁ : Touched s s₁ event u) (h₂ : Touched s₁ s₂ event v) :
    Touched s s₂ event (u ++ v) where
  handler := h₂.handler.trans h₁.handler
  allocated := h₂.allocated.trans h₁.allocated
  fresh := h₂.fresh.trans h₁.fresh
  others e he := (h₂.others e he).trans (h₁.others e he)
  timeout := h₂.timeout.trans h₁.timeout
  repeats := h₂.repeats.trans h₁.repeats
  destroyNotify := h₂.destroyNotify.trans h₁.destroyNotify
  log := by rw [h₂.log, h₁.log, List.append_assoc]

theorem setEvent_eventAt (s : TimeoutLoop) (event : ℕ) (w : TimeoutEvent) (e : ℕ) :
    (s.setEvent event w).eventAt e = if e = event then w else s.eventAt e := by
  exact Function.update_apply ..

theorem setEvent_touched (s : TimeoutLoop) (event : ℕ) {w : TimeoutEvent}
    (ht : w.timeout = (s.eventAt event).timeout) (hr : w.repeats = (s.eventAt event).repeats)
    (hd : w.destroyNotify = (s.eventAt event).destroyNotify) :
    Touched s (s.setEvent event w) event [] where
  handler := rfl
  allocated := rfl
  fresh := rfl
  others e he := by rw [setEvent_eventAt, if_neg he]
  timeout := by rw [setEvent_eventAt, if_pos rfl, ht]
  repeats := by rw [setEvent_eventAt, if_pos rfl, hr]
  destroyNotify := by rw [setEvent_eventAt, if_pos rfl, hd]
  log := (List.append_nil _).symm

theorem mark_touched (s : TimeoutLoop) (event : ℕ) (m : Mark) : Touched s (s.mark m) event [m] :=
  ⟨rfl, rfl, rfl, fun _ _ => rfl, rfl, rfl, rfl, rfl⟩

theorem ref_touched (s : TimeoutLoop) (event : ℕ) : Touched s (s.ref event) event [] :=
  setEvent_touched s event rfl rfl rfl

theorem unref_touched (s : TimeoutLoop) (event : ℕ) : Touched s (s.unref event).2 event [] :=
  setEvent_touched s event rfl rfl rfl

theorem unref_refcount (s : TimeoutLoop) (event : ℕ) :
    ((s.unref event).2.eventAt event).refcount = (s.eventAt event).refcount - 1 := by
  rw [unref]
  dsimp only
  rw [setEvent_eventAt, if_pos rfl]

/-- The count is the only field that `unref` writes. -/
theorem unref_fields (s : TimeoutLoop) (event e : ℕ) :
    { (s.unref event).2.eventAt e with refcount := 0 } = { s.eventAt e with refcount := 0 } := by
  rw [unref]
  dsimp only
  rw [setEvent_eventAt]
  split
  · next he => rw [he]
  · rfl

/-- The time that `set_time_event` leaves, after a reading of the clock. -/
def Timed (v : TimeoutEvent) (u : List Mark) : Prop :=
  (v.timeout = 0 ∧ v.time = 0 ∧ u = []) ∨
    (v.timeout ≠ 0 ∧ ∃ now, v.time = now + v.timeout ∧ u = [.clock now])

/-- **Setting the time of an event.** -/
theorem setTimeEvent_spec (s : TimeoutLoop) (event : ℕ) :
    ∃ u, Touched s (s.setTimeEvent event) event u ∧ Timed ((s.setTimeEvent event).eventAt event) u ∧
      ((s.setTimeEvent event).eventAt event).refcount = (s.eventAt event).refcount := by
  rw [setTimeEvent]
  split
  · next hzero =>
    refine ⟨[], setEvent_touched s event rfl rfl rfl, Or.inl ?_, ?_⟩
    · rw [setEvent_eventAt, if_pos rfl]
      exact ⟨hzero, rfl, rfl⟩
    · rw [setEvent_eventAt, if_pos rfl]
  · next hzero =>
    have hread : Touched s s.getTime.2 event [.clock (s.clock s.ticks)] :=
      ⟨rfl, rfl, rfl, fun _ _ => rfl, rfl, rfl, rfl, rfl⟩
    have hset := hread.trans (setEvent_touched s.getTime.2 event
      (w := { s.eventAt event with time := s.clock s.ticks + (s.eventAt event).timeout }) rfl rfl rfl)
    rw [List.append_nil] at hset
    refine ⟨_, hset, Or.inr ?_, ?_⟩
    · dsimp only
      rw [setEvent_eventAt, if_pos rfl]
      exact ⟨hzero, s.clock s.ticks, rfl, rfl⟩
    · dsimp only
      rw [setEvent_eventAt, if_pos rfl]
      rfl

/-! ### The invariant -/

/-- The list of the loop is `xs`; `running` is the event whose callback runs. An
event of the list is counted once, once more while its callback runs and once less
when its removal was asked for, which only the running one outlives; the others
are gone and were destroyed once. -/
structure Holds (s : TimeoutLoop) (running : Option ℕ) (xs : List ℕ) : Prop where
  ring : LinkRing s.timeoutHandler (.inl ()) (xs.map .inr)
  live : ∀ e, s.allocated e = true ↔ e ∈ xs
  lt : ∀ e ∈ xs, e < s.fresh
  refcount : ∀ e ∈ xs, (s.eventAt e).refcount =
    (if running = some e then 2 else 1) - if e ∈ removals s.log then 1 else 0
  asked : ∀ e ∈ xs, e ∈ removals s.log → running = some e
  removed_lt : ∀ e ∈ removals s.log, e < s.fresh
  destroyed : ∀ e, s.log.count (.destroyed e) =
    if e < s.fresh ∧ e ∉ xs ∧ (s.eventAt e).destroyNotify = true then 1 else 0

variable {running running' : Option ℕ} {xs ys zs : List ℕ} {e : ℕ} {t t' : List Mark}

theorem Holds.nodup (h : Holds s running xs) : xs.Nodup := List.Nodup.of_map _ h.ring.nodup_elems

/-- A new loop has no timeouts. -/
theorem new_holds (clock : ℕ → ℤ) : Holds (new clock) none [] where
  ring := LinkRing.init _ _
  live e := by simp [new]
  lt e he := absurd he List.not_mem_nil
  refcount e he := absurd he List.not_mem_nil
  asked e he := absurd he List.not_mem_nil
  removed_lt e he := absurd he List.not_mem_nil
  destroyed e := by simp [new]

/-- The list can be read off the links. -/
theorem Holds.timeouts_eq (h : Holds s running xs) : s.timeouts = xs := by
  have hle : xs.length ≤ s.fresh := length_le_of_nodup_lt h.nodup h.lt
  rw [timeouts, Links.entries, h.ring.toList_eq _ (by rw [List.length_map]; omega), List.filterMap_map]
  exact List.filterMap_some

/-- Marks that neither ask for the removal of another event nor destroy one. -/
def About (event : ℕ) (u : List Mark) : Prop :=
  (∀ e ∈ removals u, e = event) ∧ ∀ e, u.count (.destroyed e) = 0

theorem destroyNotify_eq (ht : Touched s s' event u) (e : ℕ) :
    (s'.eventAt e).destroyNotify = (s.eventAt e).destroyNotify := by
  by_cases he : e = event
  · rw [he, ht.destroyNotify]
  · rw [ht.others e he]

theorem mem_removals_touched (ht : Touched s s' event u) (hu : About event u) (he : e ≠ event) :
    e ∈ removals s'.log ↔ e ∈ removals s.log := by
  rw [ht.log, removals_append, List.mem_append]
  exact or_iff_left fun hmem => he (hu.1 e hmem)

/-- **The invariant when only the count of one event changes.** -/
theorem Holds.touch (h : Holds s running xs) (ht : Touched s s' event u) (hu : About event u)
    (hlt : event < s.fresh) (hrun : ∀ e, e ≠ event → (running' = some e ↔ running = some e))
    (href : event ∈ xs → (s'.eventAt event).refcount =
      (if running' = some event then 2 else 1) - if event ∈ removals s'.log then 1 else 0)
    (hasked : event ∈ xs → event ∈ removals s'.log → running' = some event) :
    Holds s' running' xs where
  ring := by
    rw [ht.handler]
    exact h.ring
  live e := by
    rw [ht.allocated]
    exact h.live e
  lt e he := by
    rw [ht.fresh]
    exact h.lt e he
  refcount e he := by
    by_cases hev : e = event
    · rw [hev] at he ⊢
      exact href he
    · rw [ht.others e hev, h.refcount e he]
      simp only [hrun e hev, mem_removals_touched ht hu hev]
  asked e he hmem := by
    by_cases hev : e = event
    · rw [hev] at he hmem ⊢
      exact hasked he hmem
    · rw [mem_removals_touched ht hu hev] at hmem
      exact (hrun e hev).mpr (h.asked e he hmem)
  removed_lt e he := by
    rw [ht.fresh]
    by_cases hev : e = event
    · rw [hev]
      exact hlt
    · exact h.removed_lt e ((mem_removals_touched ht hu hev).mp he)
  destroyed e := by
    rw [ht.log, List.count_append, hu.2, Nat.add_zero, h.destroyed, ht.fresh, destroyNotify_eq ht]

/-- What `release` does. -/
theorem release_eq (s : TimeoutLoop) (event : ℕ) :
    (s.release event).timeoutHandler = s.timeoutHandler.remove (.inr event) ∧
      (s.release event).eventAt = s.eventAt ∧ (s.release event).fresh = s.fresh ∧
      (s.release event).allocated = Function.update s.allocated event false ∧
      (s.release event).log =
        s.log ++ if (s.eventAt event).destroyNotify then [.destroyed event] else [] := by
  rw [TimeoutLoop.release]
  dsimp only
  split
  · exact ⟨rfl, rfl, rfl, rfl, rfl⟩
  · exact ⟨rfl, rfl, rfl, rfl, (List.append_nil _).symm⟩

/-- **The invariant when an event is released.** -/
theorem Holds.release (h : Holds s running xs) (ht : Touched s s' event u) (hu : About event u)
    (hmem : event ∈ xs) (hrun : ∀ e, e ≠ event → (running' = some e ↔ running = some e)) :
    Holds (s'.release event) running' (xs.erase event) := by
  have hne : ∀ e ∈ xs.erase event, e ≠ event := fun e he => ((h.nodup.mem_erase_iff).mp he).1
  have hin : ∀ e ∈ xs.erase event, e ∈ xs := fun e he => List.mem_of_mem_erase he
  obtain ⟨hhandler, hevents, hfresh, hallocated, hlog⟩ := release_eq s' event
  rw [ht.handler] at hhandler
  rw [ht.fresh] at hfresh
  rw [ht.allocated] at hallocated
  have hremovals : removals (s'.release event).log = removals s'.log := by
    rw [hlog, removals_append]
    split
    · exact List.append_nil _
    · exact List.append_nil _
  refine ⟨?_, fun e => ?_, fun e he => ?_, fun e he => ?_, fun e he hask => ?_, fun e he => ?_, fun e => ?_⟩
  · rw [hhandler]
    exact h.ring.remove_entry hmem
  · rw [hallocated, Function.update_apply, h.nodup.mem_erase_iff]
    split
    · next hev => simp [hev]
    · next hev => simp [hev, h.live e]
  · rw [hfresh]
    exact h.lt e (hin e he)
  · rw [hevents, hremovals, ht.others e (hne e he), h.refcount e (hin e he)]
    simp only [hrun e (hne e he), mem_removals_touched ht hu (hne e he)]
  · rw [hremovals, mem_removals_touched ht hu (hne e he)] at hask
    exact (hrun e (hne e he)).mpr (h.asked e (hin e he) hask)
  · rw [hfresh]
    rw [hremovals] at he
    by_cases hev : e = event
    · rw [hev]
      exact h.lt event hmem
    · exact h.removed_lt e ((mem_removals_touched ht hu hev).mp he)
  · rw [hlog, ht.log, List.count_append, List.count_append, hu.2, Nat.add_zero, h.destroyed, hfresh,
      hevents, destroyNotify_eq ht, destroyNotify_eq ht]
    have hlt := h.lt event hmem
    have hout : event ∉ xs.erase event := fun he => (hne event he) rfl
    by_cases hev : e = event
    · rw [hev]
      by_cases hd : (s.eventAt event).destroyNotify = true
      · simp [hd, hmem, hlt, hout]
      · simp [hd]
    · have hcount : List.count (Mark.destroyed e)
          (if (s.eventAt event).destroyNotify = true then [Mark.destroyed event] else []) = 0 := by
        split
        · exact List.count_eq_zero.mpr (by simpa using hev)
        · rfl
      simp only [hcount, Nat.add_zero, h.nodup.mem_erase_iff, ne_eq, hev, not_false_eq_true, true_and]

/-! ### Actions -/

/-- What actions of the callback of `running` do to the list `xs` of the loop and
to the events known before. -/
structure Acted (running : Option ℕ) (s s' : TimeoutLoop) (xs ys : List ℕ) (t : List Mark) : Prop where
  log : s'.log = s.log ++ t
  fresh : s.fresh ≤ s'.fresh
  fields : ∀ e < s.fresh, { s'.eventAt e with refcount := 0 } = { s.eventAt e with refcount := 0 }
  mem : ∀ e < s.fresh, e ∈ ys ↔ e ∈ xs ∧ (e ∈ removals t → running = some e)
  removed : ∀ b e, .removed b e ∈ t → b = running ∧ e < s'.fresh ∧ (e ∈ xs ∨ s.fresh ≤ e)
  registered : ∀ e, .registered e ∈ t → s.fresh ≤ e
  calls : calls t = []
  /-- the running event keeps its place, and what is removed after it leaves -/
  suffix : ∀ r done rest, running = some r → xs = done ++ r :: rest →
    ∃ done', ys = done' ++ r :: rest.filter (· ∉ removals t)

theorem Acted.refl (running : Option ℕ) (s : TimeoutLoop) (xs : List ℕ) : Acted running s s xs xs [] where
  log := (List.append_nil _).symm
  fresh := Nat.le_refl _
  fields _ _ := rfl
  mem e _ := by simp
  removed _ _ h := absurd h List.not_mem_nil
  registered _ h := absurd h List.not_mem_nil
  calls := rfl
  suffix r done rest _ hxs := ⟨done, by simpa using hxs⟩

theorem Acted.trans (h₁ : Acted running s s₁ xs ys t) (h₂ : Acted running s₁ s₂ ys zs t') :
    Acted running s s₂ xs zs (t ++ t') where
  log := by rw [h₂.log, h₁.log, List.append_assoc]
  fresh := Nat.le_trans h₁.fresh h₂.fresh
  fields e he := (h₂.fields e (Nat.lt_of_lt_of_le he h₁.fresh)).trans (h₁.fields e he)
  mem e he := by
    rw [h₂.mem e (Nat.lt_of_lt_of_le he h₁.fresh), h₁.mem e he, removals_append, List.mem_append,
      or_imp, and_assoc]
  removed b e he := by
    rcases List.mem_append.mp he with he | he
    · obtain ⟨hb, hlt, hmem⟩ := h₁.removed b e he
      exact ⟨hb, Nat.lt_of_lt_of_le hlt h₂.fresh, hmem⟩
    · obtain ⟨hb, hlt, hmem⟩ := h₂.removed b e he
      refine ⟨hb, hlt, ?_⟩
      by_cases hold : e < s.fresh
      · exact Or.inl ((h₁.mem e hold).mp (hmem.resolve_right fun hle =>
          absurd (Nat.lt_of_lt_of_le hold h₁.fresh) (Nat.not_lt.mpr hle))).1
      · exact Or.inr (Nat.not_lt.mp hold)
  registered e he := by
    rcases List.mem_append.mp he with he | he
    · exact h₁.registered e he
    · exact Nat.le_trans h₁.fresh (h₂.registered e he)
  calls := by rw [calls_append, h₁.calls, h₂.calls, List.append_nil]
  suffix r done rest hr hxs := by
    obtain ⟨done₁, hys⟩ := h₁.suffix r done rest hr hxs
    obtain ⟨done₂, hzs⟩ := h₂.suffix r done₁ _ hr hys
    refine ⟨done₂, ?_⟩
    rw [hzs, List.filter_filter]
    refine congrArg (fun l => done₂ ++ r :: l) (List.filter_congr fun x _ => ?_)
    rw [← Bool.decide_and, removals_append]
    refine decide_eq_decide.mpr ?_
    rw [List.mem_append, not_or, and_comm]

/-- Registering an event puts it at the start of the list. -/
theorem Holds.register (h : Holds s running xs) (hrun : ∀ r, running = some r → r ∈ xs) (timeout : ℕ)
    (repeats destroyNotify : Bool) :
    ∃ t, Holds (s.act running (.register timeout repeats destroyNotify)) running (s.fresh :: xs) ∧
      Acted running s (s.act running (.register timeout repeats destroyNotify)) xs (s.fresh :: xs) t := by
  set s₁ : TimeoutLoop := ({ s with
    fresh := s.fresh + 1, allocated := Function.update s.allocated s.fresh true } : TimeoutLoop).setEvent
      s.fresh ⟨timeout, repeats, 0, destroyNotify, 1⟩ with hs₁
  obtain ⟨u, htouch, htimed, hcount⟩ := setTimeEvent_spec s₁ s.fresh
  have hu : calls u = [] ∧ removals u = [] ∧ (∀ e, u.count (.destroyed e) = 0) ∧
      ∀ e, .registered e ∉ u := by
    rcases htimed with ⟨-, -, rfl⟩ | ⟨-, now, -, rfl⟩
    · exact ⟨rfl, rfl, fun _ => rfl, fun _ => List.not_mem_nil⟩
    · exact ⟨rfl, rfl, fun _ => by simp, fun _ => by simp⟩
  obtain ⟨hcalls, hremovals, hdestroyed, hregistered⟩ := hu
  set s₂ := s.act running (.register timeout repeats destroyNotify) with hs₂
  have hhandler : s₂.timeoutHandler = s.timeoutHandler.prepend (.inr s.fresh) (.inl ()) := by
    show (s₁.setTimeEvent s.fresh).timeoutHandler.prepend _ _ = _
    rw [htouch.handler]
    rfl
  have hallocated : s₂.allocated = Function.update s.allocated s.fresh true := htouch.allocated
  have hfresh : s₂.fresh = s.fresh + 1 := htouch.fresh
  have hlog : s₂.log = s.log ++ (u ++ [.registered s.fresh]) := by
    show (s₁.setTimeEvent s.fresh).log ++ [.registered s.fresh] = _
    rw [htouch.log, List.append_assoc]
    rfl
  have hold : ∀ e, e ≠ s.fresh → s₂.eventAt e = s.eventAt e := by
    intro e he
    show (s₁.setTimeEvent s.fresh).eventAt e = _
    rw [htouch.others e he, hs₁, setEvent_eventAt, if_neg he]
  have hnew : (s₂.eventAt s.fresh).refcount = 1 := by
    show ((s₁.setTimeEvent s.fresh).eventAt s.fresh).refcount = 1
    rw [hcount, hs₁, setEvent_eventAt, if_pos rfl]
  have hout : s.fresh ∉ xs := fun hmem => Nat.lt_irrefl _ (h.lt _ hmem)
  have hask : removals s₂.log = removals s.log := by
    rw [hlog, removals_append, removals_append, hremovals]
    exact List.append_nil _
  have hfreshRemoved : s.fresh ∉ removals s.log := fun hmem => Nat.lt_irrefl _ (h.removed_lt _ hmem)
  have hne : ∀ e ∈ xs, e ≠ s.fresh := fun e he heq => hout (heq ▸ he)
  refine ⟨u ++ [.registered s.fresh], ⟨?_, fun e => ?_, fun e he => ?_, fun e he => ?_, fun e he hmem => ?_,
    fun e he => ?_, fun e => ?_⟩, ⟨hlog, ?_, fun e he => ?_, fun e he => ?_, fun b e he => ?_, fun e he => ?_, ?_,
    fun r done rest hr hxs => ?_⟩⟩
  · rw [hhandler]
    exact h.ring.prepend (by simpa using hout)
  · rw [hallocated, Function.update_apply, List.mem_cons]
    split
    · next he => simp [he]
    · next he => simp [he, h.live e]
  · rw [hfresh]
    rcases List.mem_cons.mp he with rfl | he
    · exact Nat.lt_succ_self _
    · exact Nat.lt_succ_of_lt (h.lt e he)
  · rw [hask]
    rcases List.mem_cons.mp he with rfl | he
    · have hnot : ¬ running = some s.fresh := fun hr => hout (hrun _ hr)
      rw [hnew, if_neg hnot, if_neg hfreshRemoved]
      rfl
    · rw [hold e (hne e he), h.refcount e he]
  · rw [hask] at hmem
    rcases List.mem_cons.mp he with rfl | he
    · exact absurd hmem hfreshRemoved
    · exact h.asked e he hmem
  · rw [hask] at he
    rw [hfresh]
    exact Nat.lt_succ_of_lt (h.removed_lt e he)
  · have hcount : (u ++ [Mark.registered s.fresh]).count (.destroyed e) = 0 := by
      rw [List.count_append, hdestroyed]
      simp
    rw [hlog, List.count_append, hcount, Nat.add_zero, h.destroyed, hfresh]
    by_cases he : e = s.fresh
    · rw [he]
      simp
    · have hlt : e < s.fresh + 1 ↔ e < s.fresh := by omega
      simp only [hold e he, hlt, List.mem_cons, he, false_or]
  · rw [hfresh]
    exact Nat.le_succ _
  · rw [hold e (Nat.ne_of_lt he)]
  · rw [removals_append, hremovals, List.mem_cons]
    simp [removals, Nat.ne_of_lt he]
  · have hmem : e ∈ removals (u ++ [Mark.registered s.fresh]) := mem_removals.mpr ⟨b, he⟩
    rw [removals_append, hremovals] at hmem
    exact absurd hmem List.not_mem_nil
  · rcases List.mem_append.mp he with he | he
    · exact absurd he (hregistered e)
    · rw [Mark.registered.inj (List.mem_singleton.mp he)]
  · rw [calls_append, hcalls]
    rfl
  · refine ⟨s.fresh :: done, ?_⟩
    have hnone : removals (u ++ [Mark.registered s.fresh]) = [] := by
      rw [removals_append, hremovals]
      rfl
    rw [hxs, hnone]
    simp

/-- Removing an event takes it out of the list, unless its callback runs. -/
theorem Holds.remove (h : Holds s running xs) (hok : s.Allowed (.remove event)) :
    ∃ ys t, Holds (s.act running (.remove event)) running ys ∧
      Acted running s (s.act running (.remove event)) xs ys t := by
  obtain ⟨hlive, hask⟩ := hok
  have hmem : event ∈ xs := (h.live event).mp hlive
  have hlt := h.lt event hmem
  set s₁ := ((s.mark (.removed running event)).unref event).2 with hs₁
  have htouch : Touched s s₁ event [.removed running event] :=
    (mark_touched s event _).trans (unref_touched _ event)
  have hu : About event [.removed running event] :=
    ⟨fun e he => List.mem_singleton.mp he, fun _ => by simp⟩
  have hcount : (s₁.eventAt event).refcount = (s.eventAt event).refcount - 1 := unref_refcount _ event
  have hbefore := h.refcount event hmem
  rw [if_neg hask, Int.sub_zero] at hbefore
  have hfields : ∀ e, { s₁.eventAt e with refcount := 0 } = { s.eventAt e with refcount := 0 } :=
    unref_fields _ event
  have hremovals : event ∈ removals s₁.log := by
    rw [htouch.log, removals_append]
    exact List.mem_append_right _ (List.mem_singleton.mpr rfl)
  by_cases hrun : running = some event
  · -- the dispatch that called it keeps a count
    have hact : s.act running (.remove event) = s₁ := by
      show (if (s.eventAt event).refcount = 1 then s₁.release event else s₁) = s₁
      rw [hbefore, if_pos hrun]
      exact if_neg (by decide)
    rw [hact]
    refine ⟨xs, [.removed running event], h.touch htouch hu hlt (fun _ _ => Iff.rfl) (fun _ => ?_)
      (fun _ _ => hrun), htouch.log, Nat.le_of_eq htouch.fresh.symm, fun e _ => hfields e, fun e _ => ?_,
      fun b e he => ?_, fun e he => ?_, rfl, fun r done rest hr hxs => ?_⟩
    · rw [hcount, hbefore, if_pos hrun, if_pos hremovals]
    · refine (and_iff_left fun he => ?_).symm
      rw [hrun, List.mem_singleton.mp he]
    · obtain ⟨rfl, rfl⟩ := Mark.removed.inj (List.mem_singleton.mp he)
      exact ⟨rfl, htouch.fresh ▸ hlt, Or.inl hmem⟩
    · exact absurd he (by simp)
    · have hev : r = event := Option.some.inj (hr.symm.trans hrun)
      have hout : r ∉ rest := by
        have hnd := h.nodup
        rw [hxs] at hnd
        exact (List.nodup_cons.mp (List.nodup_append.mp hnd).2.1).1
      refine ⟨done, ?_⟩
      rw [hxs, List.filter_eq_self.mpr]
      intro x hx
      exact decide_eq_true fun hm => hout (hev ▸ List.mem_singleton.mp hm ▸ hx)
  · have hact : s.act running (.remove event) = s₁.release event := by
      show (if (s.eventAt event).refcount = 1 then s₁.release event else s₁) = _
      rw [hbefore, if_neg hrun]
      exact if_pos rfl
    obtain ⟨-, hevents, hfresh, -, hlog⟩ := release_eq s₁ event
    rw [hact]
    set d : List Mark := if (s₁.eventAt event).destroyNotify then [.destroyed event] else [] with hd
    have hd' : calls d = [] ∧ removals d = [] ∧ ∀ e, .registered e ∉ d := by
      rw [hd]
      split
      · exact ⟨rfl, rfl, fun _ => by simp⟩
      · exact ⟨rfl, rfl, fun _ => List.not_mem_nil⟩
    have hrem : removals (Mark.removed running event :: d) = [event] := by
      show event :: removals d = _
      rw [hd'.2.1]
    refine ⟨xs.erase event, .removed running event :: d, h.release htouch hu hmem (fun _ _ => Iff.rfl), ?_,
      ?_, fun e _ => ?_, fun e _ => ?_, fun b e he => ?_, fun e he => ?_, hd'.1, fun r done rest hr hxs => ?_⟩
    · rw [hlog, htouch.log, List.append_assoc]
      rfl
    · rw [hfresh, htouch.fresh]
    · rw [hevents]
      exact hfields e
    · rw [h.nodup.mem_erase_iff, hrem, List.mem_singleton, and_comm]
      refine and_congr_right fun _ => ⟨fun hne he => absurd he hne, fun himp he => hrun ?_⟩
      rw [himp he, he]
    · have he' : e ∈ removals (Mark.removed running event :: d) := mem_removals.mpr ⟨b, he⟩
      rw [hrem] at he'
      rw [List.mem_singleton.mp he'] at he ⊢
      refine ⟨?_, by rw [hfresh, htouch.fresh]; exact hlt, Or.inl hmem⟩
      rcases List.mem_cons.mp he with he | he
      · exact (Mark.removed.inj he).1
      · have : event ∈ removals d := mem_removals.mpr ⟨b, he⟩
        rw [hd'.2.1] at this
        exact absurd this List.not_mem_nil
    · rcases List.mem_cons.mp he with he | he
      · exact absurd he (by simp)
      · exact absurd he (hd'.2.2 e)
    · have hne : ¬ r = event := fun he => hrun (he ▸ hr)
      have hnd := h.nodup
      rw [hxs] at hnd
      obtain ⟨-, hndr, hsep⟩ := List.nodup_append.mp hnd
      have hrest : rest.filter (· ∉ removals (Mark.removed running event :: d)) = rest.erase event := by
        rw [(List.nodup_cons.mp hndr).2.erase_eq_filter, hrem]
        refine List.filter_congr fun x _ => ?_
        by_cases hx : x = event
        · simp [hx]
        · simp [hx]
      rw [hrest, hxs]
      by_cases hdone : event ∈ done
      · refine ⟨done.erase event, ?_⟩
        have hout : event ∉ rest := fun hm => hsep event hdone event (List.mem_cons_of_mem _ hm) rfl
        rw [List.erase_append_left _ hdone, List.erase_of_not_mem hout]
      · refine ⟨done, ?_⟩
        rw [List.erase_append_right _ hdone, List.erase_cons_tail (by simpa using hne)]

/-- **One action.** -/
theorem Holds.act (h : Holds s running xs) (hrun : ∀ r, running = some r → r ∈ xs) {a : TimeoutAction}
    (hok : s.Allowed a) :
    ∃ ys t, Holds (s.act running a) running ys ∧ Acted running s (s.act running a) xs ys t := by
  cases a with
  | register timeout repeats destroyNotify =>
    obtain ⟨t, hholds, hacted⟩ := h.register hrun timeout repeats destroyNotify
    exact ⟨_, t, hholds, hacted⟩
  | remove event => exact h.remove hok
  | quit =>
    refine ⟨xs, [], ⟨h.ring, h.live, h.lt, h.refcount, h.asked, h.removed_lt, h.destroyed⟩, ?_⟩
    exact ⟨(List.append_nil _).symm, Nat.le_refl _, fun _ _ => rfl, fun _ _ => by simp,
      fun _ _ he => absurd he List.not_mem_nil, fun _ he => absurd he List.not_mem_nil, rfl,
      fun r done rest _ hxs => ⟨done, by simpa using hxs⟩⟩

/-- The event whose callback runs stays in the list. -/
theorem Acted.running_mem (h : Acted running s s' xs ys t) (hlt : ∀ e ∈ xs, e < s.fresh) {r : ℕ}
    (hr : running = some r) (hmem : r ∈ xs) : r ∈ ys :=
  (h.mem r (hlt r hmem)).mpr ⟨hmem, fun _ => hr⟩

/-- **All the actions of a callback.** -/
theorem Holds.acts (h : Holds s running xs) (hrun : ∀ r, running = some r → r ∈ xs)
    {as : List TimeoutAction} (hok : Run.Admissible (TimeoutLoop.act running) Allowed s as) :
    ∃ ys t, Holds (Run.exec (TimeoutLoop.act running) s as) running ys ∧
      Acted running s (Run.exec (TimeoutLoop.act running) s as) xs ys t := by
  induction as generalizing s xs with
  | nil => exact ⟨xs, [], h, Acted.refl running s xs⟩
  | cons a as ih =>
    obtain ⟨ys, t, hys, hacted⟩ := h.act hrun hok.1
    obtain ⟨zs, t', hzs, hacted'⟩ :=
      ih hys (fun r hr => hacted.running_mem h.lt hr (hrun r hr)) hok.2
    exact ⟨zs, t ++ t', hzs, hacted.trans hacted'⟩

end TimeoutLoop

end Fcitx
