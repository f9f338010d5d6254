/-
# Prepare and dispatch

`fcitx_mainloop_prepare` looks through the timeouts for how long the loop may
sleep, and `fcitx_mainloop_dispatch_timeout` for those to call. They do not mean
the same by being due: an event whose time is the reading of the clock is due for
the first one only.

Key definitions: `Sleeps`, `TimeoutLoop.prepareTimeouts`, `TimeoutLoop.PrepareAgrees`.
Key theorems: `TimeoutLoop.prepareTimeouts_spec`, `TimeoutLoop.dispatchTimeout_called`,
`TimeoutLoop.prepareAgrees_iff`.
-/
import Fcitx.MainLoop.TimeoutPass
import Mathlib.Order.Bounds.Basic

namespace Fcitx

open Mark

/-! ### How long to sleep -/

/-- What `nextTimeout` says of events that have the times `left` left. -/
inductive Sleeps (left : List ℤ) (nextTimeout : ℤ) : Prop where
  | never (hnone : left = []) (h : nextTimeout = -1)
  | due (hdue : ∃ d ∈ left, d ≤ 0) (h : nextTimeout = 0)
  | wait (hpos : ∀ d ∈ left, 0 < d) (h : IsLeast {d | d ∈ left} nextTimeout)

namespace Sleeps

variable {left rest : List ℤ} {d nextTimeout : ℤ}

theorem pos (h : IsLeast {d | d ∈ left} nextTimeout) (hpos : ∀ d ∈ left, 0 < d) : 0 < nextTimeout :=
  hpos nextTimeout h.1

theorem zero_iff (h : Sleeps left nextTimeout) : nextTimeout = 0 ↔ ∃ d ∈ left, d ≤ 0 := by
  cases h with
  | never hnone h => simp [hnone, h]
  | due hdue h => exact iff_of_true h hdue
  | wait hpos h =>
    refine iff_of_false (Int.ne_of_gt (pos h hpos)) ?_
    rintro ⟨d, hd, hle⟩
    exact absurd (hpos d hd) (Int.not_lt.mpr hle)

theorem neg_one_iff (h : Sleeps left nextTimeout) : nextTimeout = -1 ↔ left = [] := by
  cases h with
  | never hnone h => exact iff_of_true h hnone
  | due hdue h =>
    obtain ⟨d, hd, -⟩ := hdue
    exact iff_of_false (by omega) (List.ne_nil_of_mem hd)
  | wait hpos h =>
    have hgt := pos h hpos
    exact iff_of_false (by omega) (List.ne_nil_of_mem h.1)

theorem isLeast (h : Sleeps left nextTimeout) (hgt : 0 < nextTimeout) : IsLeast {d | d ∈ left} nextTimeout := by
  cases h with
  | never hnone h => omega
  | due hdue h => omega
  | wait hpos h => exact h

/-- One more event that is not due. -/
theorem later (h : Sleeps left nextTimeout) (hleft : ∀ x ∈ left, 0 < x) (hd : 0 < d) :
    Sleeps (left ++ [d]) (if nextTimeout = -1 ∨ d < nextTimeout then d else nextTimeout) := by
  have hall : ∀ x ∈ left ++ [d], 0 < x := by
    intro x hx
    rcases List.mem_append.mp hx with hx | hx
    · exact hleft x hx
    · rw [List.mem_singleton.mp hx]
      exact hd
  have hmem : d ∈ left ++ [d] := List.mem_append_right _ (List.mem_singleton_self d)
  have hbound : ∀ m, m ≤ d → (∀ x ∈ left, m ≤ x) → m ∈ lowerBounds {x | x ∈ left ++ [d]} := by
    intro m hm hle x hx
    rcases List.mem_append.mp hx with hx | hx
    · exact hle x hx
    · rw [List.mem_singleton.mp hx]
      exact hm
  refine wait hall ?_
  cases h with
  | never hnone h =>
    rw [if_pos (Or.inl h)]
    refine ⟨hmem, hbound d le_rfl fun x hx => ?_⟩
    rw [hnone] at hx
    exact absurd hx List.not_mem_nil
  | due hdue h =>
    obtain ⟨x, hx, hle⟩ := hdue
    exact absurd (hleft x hx) (Int.not_lt.mpr hle)
  | wait hpos h =>
    have hgt := pos h hpos
    split_ifs with hlt
    · have hless : d < nextTimeout := hlt.resolve_left (by omega)
      exact ⟨hmem, hbound d le_rfl fun x hx => hless.le.trans (h.2 hx)⟩
    · rw [not_or, not_lt] at hlt
      exact ⟨List.mem_append_left _ h.1, hbound nextTimeout hlt.2 fun x hx => h.2 hx⟩

end Sleeps

namespace TimeoutLoop

variable {callback : Callback} {s s' : TimeoutLoop} {xs : List ℕ}

/-- The loop of `fcitx_mainloop_prepare` over the events from a node on. It has no result
when it reads a null link or an event that was freed, or when it is not over after `fuel` rounds. -/
def nextTimeoutFrom (s : TimeoutLoop) (now : ℤ) : ℕ → Option TimeoutNode → ℤ → Option ℤ
  | 0, _, _ => none
  | _ + 1, none, _ => none
  | _ + 1, some (.inl _), nextTimeout => some nextTimeout
  | fuel + 1, some (.inr event), nextTimeout =>
    if s.allocated event = false then none
    else if (s.eventAt event).time ≤ now then some 0
    else if (s.eventAt event).time = 0 then some 0
    else
      let left := (s.eventAt event).time - now
      s.nextTimeoutFrom now fuel (s.timeoutHandler.next (.inr event))
        (if nextTimeout = -1 ∨ left < nextTimeout then left else nextTimeout)

/-- The part of `fcitx_mainloop_prepare` that is about the timeouts: `nextTimeout`, when `quit` is not set. -/
def prepareTimeouts (s : TimeoutLoop) : Option (ℤ × TimeoutLoop) :=
  let (now, s) := s.getTime
  (s.nextTimeoutFrom now (s.fresh + 1) (s.timeoutHandler.next (.inl ())) (-1)).map (·, s)

/-- How much time is left for events. -/
def timesLeft (s : TimeoutLoop) (now : ℤ) (events : List ℕ) : List ℤ :=
  events.map fun e => (s.eventAt e).time - now

theorem exists_mem_timesLeft {now : ℤ} :
    (∃ d ∈ s.timesLeft now xs, d ≤ 0) ↔ ∃ e ∈ xs, (s.eventAt e).time ≤ now := by
  simp only [timesLeft, List.mem_map, exists_exists_and_eq_and]
  refine exists_congr fun e => and_congr_right fun _ => ?_
  omega

theorem forall_mem_timesLeft {now : ℤ} :
    (∀ d ∈ s.timesLeft now xs, 0 < d) ↔ ∀ e ∈ xs, now < (s.eventAt e).time := by
  unfold timesLeft
  rw [List.forall_mem_map]
  exact forall₂_congr fun e _ => Int.sub_pos

/-- **The search** from a place of the list on. -/
theorem nextTimeoutFrom_spec {now : ℤ} (hnow : 0 ≤ now) (todo : List ℕ) :
    ∀ fuel done nextTimeout, Holds s none (done ++ todo) → todo.length < fuel →
      (∀ e ∈ done, now < (s.eventAt e).time) → Sleeps (s.timesLeft now done) nextTimeout →
      ∃ d, s.nextTimeoutFrom now fuel (some (firstNode todo)) nextTimeout = some d ∧
        Sleeps (s.timesLeft now (done ++ todo)) d := by
  induction todo with
  | nil =>
    intro fuel done nextTimeout h hfuel hdone hsleeps
    obtain ⟨fuel, rfl⟩ := Nat.exists_eq_succ_of_ne_zero (Nat.ne_of_gt hfuel)
    exact ⟨nextTimeout, rfl, by rwa [List.append_nil]⟩
  | cons event rest ih =>
    intro fuel done nextTimeout h hfuel hdone hsleeps
    obtain ⟨fuel, rfl⟩ := Nat.exists_eq_succ_of_ne_zero (Nat.ne_of_gt (Nat.zero_lt_of_lt hfuel))
    have hlive : s.allocated event = true := (h.live event).mpr (by simp)
    rw [firstNode, nextTimeoutFrom, if_neg (by rw [hlive]; decide)]
    by_cases hdue : (s.eventAt event).time ≤ now
    · rw [if_pos hdue]
      refine ⟨0, rfl, Sleeps.due ⟨(s.eventAt event).time - now, ?_, by omega⟩ rfl⟩
      exact List.mem_map_of_mem (by simp)
    · rw [if_neg hdue, if_neg (by omega), h.next_eq]
      dsimp only
      have hlist : done ++ event :: rest = done ++ [event] ++ rest := by simp
      rw [hlist] at h ⊢
      rw [List.length_cons] at hfuel
      refine ih fuel (done ++ [event]) _ h (by omega) (fun e he => ?_) ?_
      · rcases List.mem_append.mp he with he | he
        · exact hdone e he
        · rw [List.mem_singleton.mp he]
          omega
      · rw [timesLeft, List.map_append]
        exact hsleeps.later (forall_mem_timesLeft.mpr hdone) (Int.sub_pos.mpr (not_le.mp hdue))

/-- **Prepare**: how long the loop may sleep. -/
theorem prepareTimeouts_spec (h : WellFormed s) (hnow : 0 ≤ s.clock s.ticks) :
    ∃ d, s.prepareTimeouts = some (d, s.getTime.2) ∧ Sleeps (s.timesLeft (s.clock s.ticks) s.timeouts) d := by
  have hread := h.getTime
  obtain ⟨hfirst, hlen⟩ := hread.first
  obtain ⟨d, hd, hsleeps⟩ := nextTimeoutFrom_spec (s := s.getTime.2) hnow s.timeouts (s.getTime.2.fresh + 1) []
    (-1) hread hlen (fun e he => absurd he List.not_mem_nil) (Sleeps.never rfl rfl)
  refine ⟨d, ?_, hsleeps⟩
  rw [prepareTimeouts]
  show Option.map _ (s.getTime.2.nextTimeoutFrom _ _ (s.getTime.2.timeoutHandler.next _) _) = _
  rw [hfirst]
  exact congrArg (Option.map _) hd

/-! ### Who is called -/

/-- **A pass calls somebody** exactly if an event is due for it. -/
theorem dispatchFrom_called (hc : Lawful callback) (now : ℤ) (todo : List ℕ) :
    ∀ fuel done, Holds s none (done ++ todo) → todo.length < fuel → s.quit = false →
      ∃ completed s' t, dispatchFrom callback now fuel (some (firstNode todo)) s = some (completed, s') ∧
        s'.log = s.log ++ t ∧ ((∃ e, .called e ∈ t) ↔ ∃ e ∈ todo, (s.eventAt e).time < now) := by
  induction todo with
  | nil =>
    intro fuel done h hfuel hquit
    obtain ⟨fuel, rfl⟩ := Nat.exists_eq_succ_of_ne_zero (Nat.ne_of_gt hfuel)
    exact ⟨true, s, [], rfl, (List.append_nil _).symm, by simp⟩
  | cons event rest ih =>
    intro fuel done h hfuel hquit
    obtain ⟨fuel, rfl⟩ := Nat.exists_eq_succ_of_ne_zero (Nat.ne_of_gt (Nat.zero_lt_of_lt hfuel))
    have hlive : s.allocated event = true := (h.live event).mpr (by simp)
    rw [List.length_cons] at hfuel
    rw [firstNode, dispatchFrom, if_neg (by rw [hquit]; decide), if_neg (by rw [hlive]; decide)]
    by_cases hdue : (s.eventAt event).time < now
    · rw [if_pos hdue]
      dsimp only
      obtain ⟨done', t, hlive', hnext, hholds, hvisit, hpassed⟩ := visit_spec hc h rfl
      have hlen : (rest.filter (· ∉ removals t)).length < fuel := by
        have := List.length_filter_le (· ∉ removals t) rest
        omega
      obtain ⟨completed, s', ys, t', hres, -, hpassed', -⟩ :=
        dispatchFrom_spec hc now (fun e => ((((s.ref event).invoke callback event).settle event).eventAt
          e).time < now) fuel done' _ _ hholds hlen fun _ _ => Iff.rfl
      obtain ⟨u, hu, -⟩ := hvisit.head
      rw [if_neg (by rw [hlive']; decide), hnext]
      refine ⟨completed, s', t ++ t', hres, (hpassed.trans hpassed').log,
        iff_of_true ⟨event, List.mem_append_left _ ?_⟩ ⟨event, List.mem_cons_self, hdue⟩⟩
      rw [hu]
      exact List.mem_cons_self
    · rw [if_neg hdue, h.next_eq]
      have hlist : done ++ event :: rest = done ++ [event] ++ rest := by simp
      rw [hlist] at h
      obtain ⟨completed, s', t, hres, hlog, hcalled⟩ := ih fuel (done ++ [event]) h (by omega) hquit
      refine ⟨completed, s', t, hres, hlog, hcalled.trans ?_⟩
      rw [List.exists_mem_cons_iff]
      exact (or_iff_right hdue).symm

/-- **Dispatch**: whether it calls somebody. -/
theorem dispatchTimeout_called (hc : Lawful callback) (h : WellFormed s) (hquit : s.quit = false) :
    ∃ completed s' t, dispatchTimeout callback s = some (completed, s') ∧ s'.log = s.log ++ t ∧
      ((∃ e, .called e ∈ t) ↔ ∃ e ∈ s.timeouts, (s.eventAt e).time < s.clock s.ticks) := by
  have hread := h.getTime
  obtain ⟨completed, s', t, hres, hlog, hcalled⟩ := dispatchFrom_called (s := s.getTime.2)
    hc (s.clock s.ticks) s.timeouts (s.getTime.2.fresh + 1) [] hread hread.first.2 hquit
  refine ⟨completed, s', .clock (s.clock s.ticks) :: t, (dispatchTimeout_eq callback h).trans hres, ?_, ?_⟩
  · rw [hlog]
    show s.log ++ [_] ++ t = _
    rw [List.append_assoc]
    rfl
  · rw [← show (∃ e, .called e ∈ t) ↔ ∃ e ∈ s.timeouts, (s.eventAt e).time < s.clock s.ticks from hcalled]
    simp

/-! ### The agreement -/

/-- Prepare and a dispatch after it mean the same: when the first says that an event is due, the second
calls one; when it says how long to sleep, that is the least time that is left of any event; and it says to
sleep for ever when there is no event. -/
def PrepareAgrees (callback : Callback) (s : TimeoutLoop) : Prop :=
  ∃ nextTimeout s₁ completed s₂ t, s.prepareTimeouts = some (nextTimeout, s₁) ∧
    dispatchTimeout callback s₁ = some (completed, s₂) ∧ s₂.log = s₁.log ++ t ∧
    (nextTimeout = 0 → ∃ e, .called e ∈ t) ∧
    (0 < nextTimeout →
      IsLeast {d | ∃ e ∈ s.timeouts, (s.eventAt e).time - s.clock s.ticks = d} nextTimeout) ∧
    (nextTimeout = -1 ↔ s.timeouts = [])

/-- **Prepare and dispatch agree** exactly if the clock has gone on between them, or no event has just the time
that prepare has read, or one has an earlier time. -/
theorem prepareAgrees_iff (hc : Lawful callback) (h : WellFormed s) (hquit : s.quit = false)
    (hpos : 0 < s.clock s.ticks) (hle : s.clock s.ticks ≤ s.clock (s.ticks + 1)) :
    PrepareAgrees callback s ↔ s.clock s.ticks < s.clock (s.ticks + 1) ∨
      (∀ e ∈ s.timeouts, (s.eventAt e).time ≠ s.clock s.ticks) ∨
      ∃ e ∈ s.timeouts, (s.eventAt e).time < s.clock s.ticks := by
  obtain ⟨d, hprepare, hsleeps⟩ := prepareTimeouts_spec h hpos.le
  obtain ⟨completed, s₂, t, hdispatch, hlog, hcalled⟩ := dispatchTimeout_called hc h.getTime hquit
  have hcalled' : (∃ e, .called e ∈ t) ↔ ∃ e ∈ s.timeouts, (s.eventAt e).time < s.clock (s.ticks + 1) := hcalled
  have hzero : d = 0 ↔ ∃ e ∈ s.timeouts, (s.eventAt e).time ≤ s.clock s.ticks :=
    hsleeps.zero_iff.trans exists_mem_timesLeft
  have hset : {x | x ∈ s.timesLeft (s.clock s.ticks) s.timeouts} =
      {x | ∃ e ∈ s.timeouts, (s.eventAt e).time - s.clock s.ticks = x} := by
    ext x
    exact List.mem_map
  have hnone : d = -1 ↔ s.timeouts = [] := hsleeps.neg_one_iff.trans List.map_eq_nil_iff
  have hagrees : PrepareAgrees callback s ↔ (d = 0 → ∃ e, .called e ∈ t) := by
    constructor
    · rintro ⟨d', s₁, completed', s₂', t', hprepare', hdispatch', hlog', hdue, -⟩
      obtain ⟨rfl, rfl⟩ := Prod.mk.inj (Option.some.inj (hprepare.symm.trans hprepare'))
      obtain ⟨-, rfl⟩ := Prod.mk.inj (Option.some.inj (hdispatch.symm.trans hdispatch'))
      rwa [List.append_cancel_left (hlog.symm.trans hlog')]
    · intro hdue
      exact ⟨d, _, completed, s₂, t, hprepare, hdispatch, hlog, hdue, fun hgt => hset ▸ hsleeps.isLeast hgt, hnone⟩
  rw [hagrees, hzero, hcalled']
  constructor
  · intro himp
    by_contra hno
    simp only [not_or, not_lt, not_forall, not_exists, not_and, not_not] at hno
    obtain ⟨hsame, ⟨e, he, htime⟩, hnot⟩ := hno
    obtain ⟨e', he', hlt⟩ := himp ⟨e, he, htime.le⟩
    exact absurd (hnot e' he') (not_le.mpr (hlt.trans_le hsame))
  · rintro (hlt | hne | ⟨e, he, hlt⟩) ⟨e', he', hle'⟩
    · exact ⟨e', he', hle'.trans_lt hlt⟩
    · exact ⟨e', he', (lt_of_le_of_ne hle' (hne e' he')).trans_le hle⟩
    · exact ⟨e, he, hlt.trans_le hle⟩

/-- A callback that does nothing. -/
def idle : Callback := fun _ _ => []

theorem idle_lawful : Lawful idle := fun _ _ => trivial

/-- A loop with a timeout of 5 milliseconds. -/
def fiveLoop (clock : ℕ → ℤ) : TimeoutLoop := (new clock).act none (.register 5 false false)

theorem fiveLoop_wellFormed (clock : ℕ → ℤ) : WellFormed (fiveLoop clock) := by
  obtain ⟨ys, t, h, -⟩ := (new_holds clock).act (fun r hr => absurd hr (by simp)) (a := .register 5 false false)
    trivial
  exact h.wellFormed

/-- A clock that goes on all the time. -/
theorem prepareAgrees_fiveLoop : PrepareAgrees idle (fiveLoop fun n => n + 1) :=
  (prepareAgrees_iff idle_lawful (fiveLoop_wellFormed _) rfl (by decide) (by decide)).mpr (Or.inl (by decide))

/-- The event is registered at 5, and the next two readings are 10: it is due, and is not called. -/
theorem not_prepareAgrees_fiveLoop : ¬ PrepareAgrees idle (fiveLoop fun n => if n = 0 then 5 else 10) := by
  rintro ⟨nextTimeout, s₁, completed, s₂, t, hprepare, hdispatch, hlog, hdue, -⟩
  have hzero : (fiveLoop fun n => if n = 0 then 5 else 10).prepareTimeouts.map Prod.fst = some 0 := rfl
  have hcalls : ((fiveLoop fun n => if n = 0 then 5 else 10).prepareTimeouts.bind fun r =>
      dispatchTimeout idle r.2).map (fun r => calls r.2.log) = some [] := rfl
  rw [hprepare] at hzero hcalls
  rw [Option.bind_some, hdispatch, Option.map_some, hlog, calls_append, Option.some.injEq,
    List.append_eq_nil_iff] at hcalls
  obtain ⟨e, he⟩ := hdue (Option.some.inj hzero)
  have hmem : e ∈ calls t := mem_calls.mpr he
  rw [hcalls.2] at hmem
  exact absurd hmem List.not_mem_nil

end TimeoutLoop

end Fcitx
