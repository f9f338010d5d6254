/-
# Waking up the main loop

`module/dbus/dbusmodule.c`: libdbus calls `fcitx_dbus_wakeup_main` when it has something to
dispatch, and the module registers a timeout of 0 that does it. The module has one pointer for
these timeouts. A wake-up that comes while another is pending overwrites it, and then
the shutdown removes only the later one.

Key definitions: `WakeUpLoop`, `WakeUpLoop.wakeup`, `WakeUpLoop.dispatch`, `WakeUpLoop.destroy`,
`WakeUpLoop.Tracked`, `WakeUpLoop.Single`.
Key theorems: `WakeUpLoop.Inv.step`, `WakeUpLoop.tracked_iff`.
-/
import Fcitx.MainLoop.Running

namespace Fcitx

open Mark

/-- The part of `FcitxDBus` for the wake-ups, with the main loop. -/
structure WakeUpLoop where
  loop : RunningLoop
  /-- `wakeup_main` -/
  wakeupMain : Option ℕ
  shutdown : Bool
  /-- the timeouts whose callback is `fcitx_dbus_dispatch`, with the module and its connection as their data -/
  dispatches : ℕ → Bool

/-- What libdbus, the rest of the program and the dispatch of the main loop do. -/
inductive WakeUpOp where
  | wakeup
  | destroy
  /-- somebody else does something with the main loop -/
  | other (a : LoopAction)
  | enterTimeout (event : ℕ)
  | enterIo (event : ℤ)
  | leave
deriving DecidableEq

namespace WakeUpLoop

/-- `fcitx_dbus_init`, where the main loop is new. -/
def new (m : MainLoop) : WakeUpLoop := ⟨⟨m, .nobody⟩, none, false, fun _ => false⟩

def timeouts (s : WakeUpLoop) : TimeoutLoop := s.loop.timeouts

/-- `fcitx_dbus_wakeup_main` -/
def wakeup (s : WakeUpLoop) : WakeUpLoop :=
  if s.shutdown then s
  else
    let event := (s.timeouts.registerTimeoutEvent 0 false false).1
    { s with
      loop := s.loop.act (.registerTimeout 0 false false), wakeupMain := some event
      dispatches := Function.update s.dispatches event true }

/-- The part of `fcitx_dbus_dispatch` before libdbus is called. -/
def dispatch (s : WakeUpLoop) : WakeUpLoop := { s with wakeupMain := none }

/-- `fcitx_dbus_destroy` -/
def destroy (s : WakeUpLoop) : WakeUpLoop :=
  let s := { s with shutdown := true }
  match s.wakeupMain with
  | none => s
  | some event => { s with loop := s.loop.act (.removeTimeout event) }

/-- The dispatch of the main loop calls a timeout, which may be one of the module. -/
def enterTimeout (s : WakeUpLoop) (event : ℕ) : WakeUpLoop :=
  let s := { s with loop := s.loop.enterTimeout event }
  if s.dispatches event then s.dispatch else s

def step (s : WakeUpLoop) : WakeUpOp → WakeUpLoop
  | .wakeup => s.wakeup
  | .destroy => s.destroy
  | .other a => { s with loop := s.loop.act a }
  | .enterTimeout event => s.enterTimeout event
  | .enterIo event => { s with loop := s.loop.enterIo event }
  | .leave => { s with loop := s.loop.leave }

/-- Others remove no timeout of the module. -/
def Theirs (s : WakeUpLoop) : LoopAction → Prop
  | .removeTimeout event => s.dispatches event = false
  | _ => True

instance (s : WakeUpLoop) : ∀ a, Decidable (s.Theirs a)
  | .removeTimeout _ => inferInstanceAs (Decidable (_ = _))
  | .registerTimeout .. | .registerIo .. | .removeIo _ | .quit => .isTrue trivial

/-- The module is destroyed once, others remove what is theirs, and one callback runs at a time. -/
def Ok (s : WakeUpLoop) : WakeUpOp → Prop
  | .wakeup | .leave => True
  | .destroy => s.shutdown = false
  | .other a => s.loop.loop.Allowed a ∧ s.Theirs a
  | .enterTimeout event => s.loop.running = .nobody ∧ event ∈ s.timeouts.timeouts
  | .enterIo event => s.loop.running = .nobody ∧ event ∈ s.loop.io.ioHandler.live

instance (s : WakeUpLoop) : ∀ op, Decidable (s.Ok op)
  | .wakeup | .leave => .isTrue trivial
  | .destroy => inferInstanceAs (Decidable (_ = _))
  | .other _ | .enterTimeout _ | .enterIo _ => inferInstanceAs (Decidable (_ ∧ _))

/-- A wake-up that is still to come. -/
def Pending (s : WakeUpLoop) (event : ℕ) : Prop :=
  event ∈ s.timeouts.timeouts ∧ s.dispatches event = true ∧ s.loop.running ≠ .timeout event

/-- The pointer of the module is the wake-up that is pending, and there is no other; once the module is destroyed
there is none, but for one that is just being called. -/
structure Tracked (s : WakeUpLoop) : Prop where
  pending : s.shutdown = false → ∀ event, s.Pending event ↔ s.wakeupMain = some event
  released : s.shutdown = true →
    ∀ event ∈ s.timeouts.timeouts, s.dispatches event = true → s.loop.running = .timeout event

/-- A wake-up comes when no other is pending. -/
def Single (s : WakeUpLoop) : WakeUpOp → Prop
  | .wakeup => s.wakeupMain = none ∨ s.shutdown = true
  | _ => True

instance (s : WakeUpLoop) : ∀ op, Decidable (s.Single op)
  | .wakeup => inferInstanceAs (Decidable (_ ∨ _))
  | .destroy | .other _ | .enterTimeout _ | .enterIo _ | .leave => .isTrue trivial

structure Inv (s : WakeUpLoop) : Prop where
  loop : s.loop.Holds
  tracked : Tracked s
  lt : ∀ event, s.dispatches event = true → event < s.timeouts.fresh
  once : ∀ event, s.dispatches event = true → (s.timeouts.eventAt event).repeats = false
  asked : ∀ event ∈ s.timeouts.timeouts, s.dispatches event = true → event ∉ removals s.timeouts.log

variable {s s' : WakeUpLoop} {loop : RunningLoop} {moves : RunningLoop.Moves} {event e : ℕ}

theorem new_inv {m : MainLoop} (hm : m.timeouts.WellFormed) (hio : m.io.WellFormed) : Inv (new m) where
  loop := ⟨hm, hio, fun e he => absurd he (by simp [new]), fun e r he => absurd he (by simp [new])⟩
  tracked := ⟨fun _ event => by simp [Pending, new], fun h => absurd h (by simp [new])⟩
  lt event h := absurd h (by simp [new])
  once event h := absurd h (by simp [new])
  asked event _ h := absurd h (by simp [new])

/-- What the others do leaves the wake-ups alone. -/
theorem Inv.frame (h : Inv s) (hloop : loop.Holds) (hm : s.loop.Moved loop moves)
    (hrun : ∀ e, s.dispatches e = true → (loop.running = .timeout e ↔ s.loop.running = .timeout e))
    (hgone : ∀ e ∈ moves.timeoutsGone, s.dispatches e = false)
    (hasked : ∀ e ∈ moves.timeoutsAsked, s.dispatches e = false) : Inv { s with loop := loop } := by
  have hmem : ∀ e, s.dispatches e = true → (e ∈ loop.timeouts.timeouts ↔ e ∈ s.timeouts.timeouts) := by
    intro e he
    rw [hm.timeouts.mem e]
    constructor
    · rintro (⟨hin, -⟩ | hnew)
      · exact hin
      · exact absurd (hm.timeouts.new_eq e hnew) (Nat.ne_of_lt (h.lt e he))
    · intro hin
      exact Or.inl ⟨hin, fun hmem => absurd he (by rw [hgone e hmem]; decide)⟩
  refine ⟨hloop, ⟨fun hs e => ?_, fun hs e hin he => ?_⟩, fun e he => ?_, fun e he => ?_, fun e hin he => ?_⟩
  · rw [← h.tracked.pending hs e]
    by_cases he : s.dispatches e = true
    · exact and_congr (hmem e he) (and_congr_right fun _ => not_congr (hrun e he))
    · exact iff_of_false (fun hp => he hp.2.1) fun hp => he hp.2.1
  · exact (hrun e he).mpr (h.tracked.released hs e ((hmem e he).mp hin) he)
  · exact Nat.lt_of_lt_of_le (h.lt e he) hm.timeouts.fresh_le
  · exact (hm.timeouts.repeats e (h.lt e he)).trans (h.once e he)
  · show e ∉ removals loop.timeouts.log
    rw [hm.timeouts.removals, List.mem_append, not_or]
    exact ⟨h.asked e ((hmem e he).mp hin) he, fun hask => absurd he (by rw [hasked e hask]; decide)⟩

/-- A wake-up when no other is pending. -/
theorem Inv.wakeup (h : Inv s) (hsingle : s.Single .wakeup) : Inv s.wakeup := by
  by_cases hs : s.shutdown = true
  · rw [WakeUpLoop.wakeup, if_pos hs]
    exact h
  rw [WakeUpLoop.wakeup, if_neg hs]
  rw [Bool.not_eq_true] at hs
  have hnone : s.wakeupMain = none := hsingle.resolve_right (by rw [hs]; decide)
  obtain ⟨hloop, hm⟩ := h.loop.act (s.loop.loop.allowed_registerTimeout 0 false false)
  obtain ⟨-, -, hrepeats⟩ := h.loop.timeouts.moved_register h.loop.timeout_mem 0 false false
  set loop := s.loop.act (.registerTimeout 0 false false) with hloopEq
  have hold : ∀ e ∈ s.timeouts.timeouts, e < s.timeouts.fresh := h.loop.timeouts.lt
  have hmem : ∀ e, e ∈ loop.timeouts.timeouts ↔ e ∈ s.timeouts.timeouts ∨ e = s.timeouts.fresh := by
    intro e
    rw [hm.timeouts.mem e]
    simp [RunningLoop.actMoves, timeouts]
  have hnobody : ∀ e ∈ s.timeouts.timeouts, s.dispatches e = true → s.loop.running = .timeout e := by
    intro e he hd
    by_contra hrun
    have hp := (h.tracked.pending hs e).mp ⟨he, hd, hrun⟩
    rw [hnone] at hp
    exact absurd hp (by simp)
  have hdispatches : ∀ e, Function.update s.dispatches s.timeouts.fresh true e =
      if e = s.timeouts.fresh then true else s.dispatches e := fun e => Function.update_apply ..
  refine ⟨hloop, ⟨fun _ e => ?_, fun hs' => absurd (hs.symm.trans hs') (by decide)⟩, fun e he => ?_, fun e he => ?_,
    fun e hin he => ?_⟩
  · show (e ∈ loop.timeouts.timeouts ∧ Function.update s.dispatches s.timeouts.fresh true e = true ∧
      s.loop.running ≠ .timeout e) ↔ some s.timeouts.fresh = some e
    rw [hmem, hdispatches, Option.some.injEq]
    by_cases he : e = s.timeouts.fresh
    · rw [if_pos he]
      refine iff_of_true ⟨Or.inr he, rfl, fun hrun => ?_⟩ he.symm
      exact absurd (hold e (h.loop.timeoutLive e hrun)) (by rw [he]; exact Nat.lt_irrefl _)
    · rw [if_neg he]
      refine iff_of_false ?_ fun heq => he heq.symm
      rintro ⟨hin, hd, hrun⟩
      exact hrun (hnobody e (hin.resolve_right he) hd)
  · show e < loop.timeouts.fresh
    rw [hm.timeouts.fresh]
    change Function.update s.dispatches s.timeouts.fresh true e = true at he
    rw [hdispatches] at he
    split at he
    · next heq =>
      rw [heq]
      exact Nat.lt_succ_self _
    · exact Nat.lt_succ_of_lt (h.lt e he)
  · show (loop.timeouts.eventAt e).repeats = false
    change Function.update s.dispatches s.timeouts.fresh true e = true at he
    rw [hdispatches] at he
    split at he
    · next heq =>
      rw [heq]
      exact hrepeats
    · exact (hm.timeouts.repeats e (h.lt e he)).trans (h.once e he)
  · show e ∉ removals loop.timeouts.log
    change Function.update s.dispatches s.timeouts.fresh true e = true at he
    rw [hm.timeouts.removals]
    refine fun hask => ?_
    rw [show (s.loop.actMoves (.registerTimeout 0 false false)).timeoutsAsked = [] from rfl, List.append_nil] at hask
    rw [hdispatches] at he
    split at he
    · next heq => exact Nat.lt_irrefl _ (heq ▸ h.loop.timeouts.removed_lt e hask)
    · next hne => exact h.asked e (((hmem e).mp hin).resolve_right hne) he hask

/-- **The shutdown** removes the wake-up that is pending. -/
theorem Inv.destroy (h : Inv s) (hs : s.shutdown = false) : Inv s.destroy := by
  cases hmain : s.wakeupMain with
  | none =>
    have hdestroy : s.destroy = { s with shutdown := true } := by
      unfold WakeUpLoop.destroy
      rw [hmain]
    rw [hdestroy]
    refine ⟨h.loop, ⟨fun hs' => absurd hs' (by simp), fun _ e hin he => ?_⟩, h.lt, h.once, h.asked⟩
    by_contra hrun
    have hp := (h.tracked.pending hs e).mp ⟨hin, he, hrun⟩
    exact absurd (hmain.symm.trans hp) (by simp)
  | some event =>
    have hdestroy : s.destroy = { s with shutdown := true, loop := s.loop.act (.removeTimeout event) } := by
      unfold WakeUpLoop.destroy
      rw [hmain]
    obtain ⟨hin, hd, hrun⟩ := (h.tracked.pending hs event).mpr hmain
    have hok : s.loop.loop.Allowed (.removeTimeout event) :=
      MainLoop.allowed_removeTimeout.mpr ⟨(h.loop.timeouts.live event).mpr hin, h.asked event hin hd⟩
    obtain ⟨hloop, hm⟩ := h.loop.act hok
    have hgone : (s.loop.actMoves (.removeTimeout event)).timeoutsGone = [event] :=
      if_neg fun heq => hrun (Running.timeoutEvent_eq_some.mp heq)
    have hmem : ∀ e, e ∈ (s.loop.act (.removeTimeout event)).timeouts.timeouts ↔
        e ∈ s.timeouts.timeouts ∧ e ≠ event := by
      intro e
      rw [hm.timeouts.mem e, hgone, List.mem_singleton]
      exact or_iff_left List.not_mem_nil
    rw [hdestroy]
    refine ⟨hloop, ⟨fun hs' => absurd hs' (by simp), fun _ e hin' he => ?_⟩, fun e he => ?_, fun e he => ?_,
      fun e hin' he => ?_⟩
    · obtain ⟨hin', hne⟩ := (hmem e).mp hin'
      by_contra hrun'
      have hp := (h.tracked.pending hs e).mp ⟨hin', he, hrun'⟩
      exact hne (Option.some.inj (hp.symm.trans hmain))
    · exact Nat.lt_of_lt_of_le (h.lt e he) hm.timeouts.fresh_le
    · exact (hm.timeouts.repeats e (h.lt e he)).trans (h.once e he)
    · obtain ⟨hin', hne⟩ := (hmem e).mp hin'
      show e ∉ removals (s.loop.act (.removeTimeout event)).timeouts.log
      rw [hm.timeouts.removals, List.mem_append, not_or]
      exact ⟨h.asked e hin' he, fun hask => hne (List.mem_singleton.mp hask)⟩

/-- **A wake-up that fires** is not pending any more. -/
theorem Inv.enterTimeout (h : Inv s) (hrun : s.loop.running = .nobody) (hin : event ∈ s.timeouts.timeouts) :
    Inv (s.enterTimeout event) := by
  obtain ⟨hloop, hm⟩ := h.loop.enterTimeout hrun hin
  have hmem : ∀ e, e ∈ (s.loop.enterTimeout event).timeouts.timeouts ↔ e ∈ s.timeouts.timeouts := fun e =>
    (hm.timeouts.mem e).trans (by simp [timeouts])
  rw [WakeUpLoop.enterTimeout]
  dsimp only
  by_cases hd : s.dispatches event = true
  · rw [if_pos hd]
    refine ⟨hloop, ⟨fun hs e => ?_, fun hs e hin' he => ?_⟩, fun e he => ?_, fun e he => ?_, fun e hin' he => ?_⟩
    · refine iff_of_false ?_ (by simp [dispatch])
      rintro ⟨hin', he, hne⟩
      have hpending : ∀ d, d ∈ s.timeouts.timeouts → s.dispatches d = true → s.wakeupMain = some d := fun d hd hd' =>
        (h.tracked.pending hs d).mp ⟨hd, hd', by rw [hrun]; simp⟩
      have heq := (hpending e ((hmem e).mp hin') he).symm.trans (hpending event hin hd)
      rw [Option.some.inj heq] at hne
      exact hne rfl
    · exact absurd (h.tracked.released hs e ((hmem e).mp hin') he) (by rw [hrun]; simp)
    · exact Nat.lt_of_lt_of_le (h.lt e he) hm.timeouts.fresh_le
    · exact (hm.timeouts.repeats e (h.lt e he)).trans (h.once e he)
    · show e ∉ removals (s.loop.enterTimeout event).timeouts.log
      rw [hm.timeouts.removals, List.append_nil]
      exact h.asked e ((hmem e).mp hin') he
  · rw [if_neg hd]
    refine h.frame hloop hm (fun e he => ?_) (fun _ he => absurd he List.not_mem_nil)
      fun _ he => absurd he List.not_mem_nil
    rw [hrun]
    refine iff_of_false (fun heq => hd ?_) (by simp)
    rw [Running.timeout.inj heq]
    exact he

/-- **A wake-up that has fired** leaves the loop. -/
theorem Inv.leave (h : Inv s) : Inv { s with loop := s.loop.leave } := by
  obtain ⟨hloop, hm, hnobody⟩ := h.loop.leave
  have hgone : ∀ e, s.dispatches e = true → (e ∈ s.loop.leaveMoves.timeoutsGone ↔ s.loop.running = .timeout e) := by
    intro e he
    unfold RunningLoop.leaveMoves
    split
    · next hrun => simp [hrun]
    · next event hrun =>
      rw [hrun, Running.timeout.injEq]
      dsimp only
      split
      · next hstays =>
        refine iff_of_false List.not_mem_nil fun heq => ?_
        rw [heq, show (s.loop.timeouts.eventAt e).repeats = false from h.once e he] at hstays
        exact absurd hstays.2 (by decide)
      · rw [List.mem_singleton]
        exact eq_comm
    · next hrun => simp [hrun]
  have hasked : s.loop.leaveMoves.timeoutsAsked = [] := by
    unfold RunningLoop.leaveMoves
    split <;> rfl
  have hmem : ∀ e, s.dispatches e = true → (e ∈ s.loop.leave.timeouts.timeouts ↔
      e ∈ s.timeouts.timeouts ∧ s.loop.running ≠ .timeout e) := by
    intro e he
    rw [hm.timeouts.mem e, hgone e he]
    exact or_iff_left fun hnew => absurd (hm.timeouts.new_eq e hnew) (Nat.ne_of_lt (h.lt e he))
  refine ⟨hloop, ⟨fun hs e => ?_, fun hs e hin he => ?_⟩, fun e he => ?_, fun e he => ?_, fun e hin he => ?_⟩
  · rw [← h.tracked.pending hs e]
    by_cases he : s.dispatches e = true
    · have hrun : s.loop.leave.running ≠ .timeout e := by
        rw [hnobody]
        simp
      constructor
      · rintro ⟨hin, -, -⟩
        obtain ⟨hin, hne⟩ := (hmem e he).mp hin
        exact ⟨hin, he, hne⟩
      · rintro ⟨hin, -, hne⟩
        exact ⟨(hmem e he).mpr ⟨hin, hne⟩, he, hrun⟩
    · exact iff_of_false (fun hp => he hp.2.1) fun hp => he hp.2.1
  · obtain ⟨hin, hne⟩ := (hmem e he).mp hin
    exact absurd (h.tracked.released hs e hin he) hne
  · exact Nat.lt_of_lt_of_le (h.lt e he) hm.timeouts.fresh_le
  · exact (hm.timeouts.repeats e (h.lt e he)).trans (h.once e he)
  · show e ∉ removals s.loop.leave.timeouts.log
    rw [hm.timeouts.removals, hasked, List.append_nil]
    exact h.asked e ((hmem e he).mp hin).1 he

/-- **One step**, when no wake-up comes while another is pending. -/
theorem Inv.step {op : WakeUpOp} (h : Inv s) (hok : s.Ok op) (hsingle : s.Single op) : Inv (s.step op) := by
  cases op with
  | wakeup => exact h.wakeup hsingle
  | destroy => exact h.destroy hok
  | other a =>
    obtain ⟨hallowed, htheirs⟩ := hok
    obtain ⟨hloop, hm⟩ := h.loop.act hallowed
    refine h.frame hloop hm (fun _ _ => Iff.rfl) (fun e he => ?_) fun e he => ?_
    · cases a with
      | removeTimeout event =>
        change e ∈ (if s.loop.running.timeoutEvent = some event then [] else [event]) at he
        split at he
        · exact absurd he List.not_mem_nil
        · rw [List.mem_singleton.mp he]
          exact htheirs
      | registerTimeout | registerIo | removeIo | quit => exact absurd he List.not_mem_nil
    · cases a with
      | removeTimeout event =>
        rw [List.mem_singleton.mp he]
        exact htheirs
      | registerTimeout | registerIo | removeIo | quit => exact absurd he List.not_mem_nil
  | enterTimeout event => exact h.enterTimeout hok.1 hok.2
  | enterIo event =>
    obtain ⟨hloop, hm⟩ := h.loop.enterIo hok.1 hok.2
    refine h.frame hloop hm (fun e _ => ?_) (fun _ he => absurd he List.not_mem_nil)
      fun _ he => absurd he List.not_mem_nil
    rw [hok.1]
    simp [RunningLoop.enterIo]
  | leave => exact h.leave

/-- A wake-up while another is pending makes two of them. -/
theorem Inv.single {op : WakeUpOp} (h : Inv s) (ht : Tracked (s.step op)) : s.Single op := by
  cases op with
  | wakeup =>
    by_cases hs : s.shutdown = true
    · exact Or.inr hs
    refine Or.inl (Option.eq_none_iff_forall_ne_some.mpr fun event hmain => ?_)
    have hwakeup : s.step .wakeup = s.wakeup := rfl
    rw [hwakeup, WakeUpLoop.wakeup, if_neg hs] at ht
    rw [Bool.not_eq_true] at hs
    obtain ⟨hin, hd, hrun⟩ := (h.tracked.pending hs event).mpr hmain
    obtain ⟨-, hm⟩ := h.loop.act (s.loop.loop.allowed_registerTimeout 0 false false)
    have hstill : event ∈ (s.loop.act (.registerTimeout 0 false false)).timeouts.timeouts :=
      (hm.timeouts.mem event).mpr (Or.inl ⟨hin, List.not_mem_nil⟩)
    have hne : event ≠ s.timeouts.fresh := Nat.ne_of_lt (h.lt event hd)
    have hpointer := (ht.pending hs event).mp ⟨hstill, ?_, hrun⟩
    · exact hne (Option.some.inj hpointer).symm
    · show Function.update s.dispatches s.timeouts.fresh true event = true
      rw [Function.update_of_ne hne]
      exact hd
  | destroy | other | enterTimeout | enterIo | leave => trivial

/-- **The wake-ups are tracked** all the time exactly if each of them comes when no other is pending. -/
theorem tracked_iff (clock : ℕ → ℤ) (array : ByteMem) (wakeupPipe : ℤ) {ops : List WakeUpOp}
    (ha : Run.Admissible step Ok (new (MainLoop.new clock array wakeupPipe)) ops) :
    (∀ before after, ops = before ++ after →
        Tracked (Run.exec step (new (MainLoop.new clock array wakeupPipe)) before)) ↔
      Run.Admissible step Single (new (MainLoop.new clock array wakeupPipe)) ops :=
  Run.always_iff (fun _ h => h.tracked) (fun _ _ h hok hsingle => h.step hok hsingle) (fun _ _ h _ ht => h.single ht)
    (new_inv (TimeoutLoop.new_holds clock).wellFormed (IoLoop.new_holds array)) ha

/-- A wake-up that fires, and another one in its callback; then the module is destroyed. -/
def oneAfterAnother : List WakeUpOp := [.wakeup, .enterTimeout 0, .wakeup, .leave, .destroy]

theorem tracked_oneAfterAnother :
    Tracked (Run.exec step (new (MainLoop.new (fun n => n + 1) (fun _ => 0) 3)) oneAfterAnother) := by
  have ha : Run.Admissible step Ok (new (MainLoop.new (fun n => n + 1) (fun _ => 0) 3)) oneAfterAnother := by
    decide +kernel
  exact (tracked_iff (fun n => n + 1) (fun _ => 0) 3 ha).mpr (by decide +kernel) oneAfterAnother []
    (List.append_nil _).symm

/-- Two wake-ups before the loop runs; the first is still there when the module is destroyed. -/
theorem not_tracked_twice :
    Run.Admissible step Ok (new (MainLoop.new (fun n => n + 1) (fun _ => 0) 3)) [.wakeup, .wakeup, .destroy] ∧
      ¬ Tracked (Run.exec step (new (MainLoop.new (fun n => n + 1) (fun _ => 0) 3)) [.wakeup, .wakeup, .destroy]) := by
  refine ⟨by decide +kernel, fun h => ?_⟩
  exact absurd (h.released rfl 0 (by decide +kernel) rfl) (by decide)

end WakeUpLoop

end Fcitx
