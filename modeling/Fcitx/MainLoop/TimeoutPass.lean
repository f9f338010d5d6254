/-
# A dispatch pass over the timeouts

`fcitx_mainloop_dispatch_timeout` walks over the list of events while the
callbacks change it: it comes to the end without touching a freed event, and it
calls what was in the list and is still there when its turn comes. What a called
event becomes is decided after its callback: the pass releases it, or sets its
next time.

Key definitions: `TimeoutLoop.DispatchLaw`, `TimeoutLoop.Settled`.
Key theorems: `TimeoutLoop.visit_spec`, `TimeoutLoop.dispatchFrom_spec`,
`TimeoutLoop.dispatchTimeout_law`.
-/
import Fcitx.MainLoop.Timeout

namespace Fcitx

open Mark

namespace TimeoutLoop

variable {callback : Callback} {s s' s₁ s₂ : TimeoutLoop} {event e : ℕ} {xs ys zs : List ℕ}
  {t t' u : List Mark}

/-! ### After a callback -/

/-- What the dispatch does with an event whose callback has returned: the event
goes when its removal was asked for or when it does not repeat. -/
structure Settled (s s' : TimeoutLoop) (event : ℕ) (xs ys : List ℕ) (u : List Mark) : Prop where
  log : s'.log = s.log ++ u
  fresh : s'.fresh = s.fresh
  others : ∀ e, e ≠ event → s'.eventAt e = s.eventAt e
  timeout : (s'.eventAt event).timeout = (s.eventAt event).timeout
  repeats : (s'.eventAt event).repeats = (s.eventAt event).repeats
  destroyNotify : (s'.eventAt event).destroyNotify = (s.eventAt event).destroyNotify
  marks : calls u = [] ∧ removals u = [] ∧ ∀ e, .registered e ∉ u
  gone : event ∈ removals s.log ∨ (s.eventAt event).repeats = false → ys = xs.erase event
  stays : event ∉ removals s.log → (s.eventAt event).repeats = true →
    ys = xs ∧ Timed (s'.eventAt event) u

/-- Releasing the event after the dispatch gave its count up. -/
theorem Holds.settle_release (h : Holds s (some event) xs) (hmem : event ∈ xs)
    (ht : Touched s s₁ event []) (hgone : event ∈ removals s.log ∨ (s.eventAt event).repeats = false) :
    ∃ u, Holds (s₁.release event) none (xs.erase event) ∧
      Settled s (s₁.release event) event xs (xs.erase event) u := by
  have hu : About event [] := ⟨fun _ he => absurd he List.not_mem_nil, fun _ => rfl⟩
  have hholds : Holds (s₁.release event) none (xs.erase event) :=
    h.release ht hu hmem fun e he => by simp [Ne.symm he]
  obtain ⟨-, hevents, hfresh, -, hlog⟩ := release_eq s₁ event
  refine ⟨if (s₁.eventAt event).destroyNotify then [.destroyed event] else [], hholds,
    ⟨?_, ?_, fun e he => ?_, ?_, ?_, ?_, ?_, fun _ => rfl, fun hask hrep => ?_⟩⟩
  · rw [hlog, ht.log, List.append_nil]
  · rw [hfresh, ht.fresh]
  · rw [hevents, ht.others e he]
  · rw [hevents, ht.timeout]
  · rw [hevents, ht.repeats]
  · rw [hevents, ht.destroyNotify]
  · split
    · exact ⟨rfl, rfl, fun _ => by simp⟩
    · exact ⟨rfl, rfl, fun _ => List.not_mem_nil⟩
  · rcases hgone with hgone | hgone
    · exact absurd hgone hask
    · exact absurd (hrep.symm.trans hgone) (by decide)

/-- **After the callback of an event.** -/
theorem Holds.settle (h : Holds s (some event) xs) (hmem : event ∈ xs) :
    ∃ ys u, Holds (s.settle event) none ys ∧ Settled s (s.settle event) event xs ys u := by
  have hcount := h.refcount event hmem
  rw [if_pos rfl] at hcount
  have hunref := unref_touched s event
  have hunrefCount := unref_refcount s event
  rw [TimeoutLoop.settle]
  dsimp only
  by_cases hask : event ∈ removals s.log
  · -- its removal was asked for: the dispatch has the last count
    rw [if_pos hask] at hcount
    rw [if_pos (show (s.unref event).1 = 1 from hcount)]
    have href := hunref.trans (ref_touched (s.unref event).2 event)
    have hone : (((s.unref event).2.ref event).eventAt event).refcount = 1 := by
      rw [TimeoutLoop.ref, setEvent_eventAt, if_pos rfl]
      dsimp only
      rw [hunrefCount, hcount]
      rfl
    have hremove : ((s.unref event).2.ref event).removeTimeoutEvent event =
        (((s.unref event).2.ref event).unref event).2.release event := if_pos hone
    rw [hremove]
    have ht := href.trans (unref_touched ((s.unref event).2.ref event) event)
    obtain ⟨u, hholds, hsettled⟩ := h.settle_release hmem ht (Or.inl hask)
    exact ⟨_, u, hholds, hsettled⟩
  · rw [if_neg hask] at hcount
    have hne : ¬ (s.unref event).1 = 1 := by
      show ¬ (s.eventAt event).refcount = 1
      rw [hcount]
      decide
    rw [if_neg hne]
    by_cases hrep : (s.eventAt event).repeats = true
    · rw [if_pos (hunref.repeats.trans hrep)]
      obtain ⟨u, htime, htimed, hsame⟩ := setTimeEvent_spec (s.unref event).2 event
      have ht := hunref.trans htime
      rw [List.nil_append] at ht
      have hmarks : calls u = [] ∧ removals u = [] ∧ (∀ e, .registered e ∉ u) ∧
          ∀ e, u.count (.destroyed e) = 0 := by
        rcases htimed with ⟨-, -, rfl⟩ | ⟨-, now, -, rfl⟩
        · exact ⟨rfl, rfl, fun _ => List.not_mem_nil, fun _ => rfl⟩
        · exact ⟨rfl, rfl, fun _ => by simp, fun _ => by simp⟩
      obtain ⟨hcalls, hremovals, hregistered, hdestroyed⟩ := hmarks
      have hnone : event ∉ removals ((s.unref event).2.setTimeEvent event).log := by
        rw [ht.log, removals_append, hremovals, List.append_nil]
        exact hask
      refine ⟨xs, u, h.touch ht ⟨fun e he => ?_, hdestroyed⟩ (h.lt event hmem)
        (fun e he => by simp [Ne.symm he]) (fun _ => ?_) (fun _ hmem' => absurd hmem' hnone), ?_⟩
      · rw [hremovals] at he
        exact absurd he List.not_mem_nil
      · rw [hsame, hunrefCount, hcount, if_neg hnone]
        rfl
      · exact ⟨ht.log, ht.fresh, ht.others, ht.timeout, ht.repeats, ht.destroyNotify,
          ⟨hcalls, hremovals, hregistered⟩,
          fun hgone => hgone.elim (fun hgone => absurd hgone hask) fun hgone =>
            absurd (hrep.symm.trans hgone) (by decide),
          fun _ _ => ⟨rfl, htimed⟩⟩
    · -- the count of the loop is the last one
      rw [if_neg (fun hrep' => hrep (hunref.repeats.symm.trans hrep'))]
      have hone : ((s.unref event).2.eventAt event).refcount = 1 := by
        rw [hunrefCount, hcount]
        rfl
      have hremove : (s.unref event).2.removeTimeoutEvent event =
          ((s.unref event).2.unref event).2.release event := if_pos hone
      rw [hremove]
      have ht := hunref.trans (unref_touched (s.unref event).2 event)
      obtain ⟨u, hholds, hsettled⟩ := h.settle_release hmem ht (Or.inr (Bool.eq_false_iff.mpr hrep))
      exact ⟨_, u, hholds, hsettled⟩

/-! ### A visit -/

/-- The time of an event that was called and stays: set when its callback had returned. -/
def Retimed (v : TimeoutEvent) (event : ℕ) (t : List Mark) : Prop :=
  (v.timeout = 0 ∧ v.time = 0) ∨
    (v.timeout ≠ 0 ∧ ∃ now, [.returned event, .clock now] <:+: t ∧ v.time = now + v.timeout)

/-- What a part of a pass does to the list `xs` and to the events known before. -/
structure Passed (s s' : TimeoutLoop) (xs ys : List ℕ) (t : List Mark) : Prop where
  log : s'.log = s.log ++ t
  fresh : s.fresh ≤ s'.fresh
  repeats : ∀ e < s.fresh, (s'.eventAt e).repeats = (s.eventAt e).repeats
  timeout : ∀ e < s.fresh, (s'.eventAt e).timeout = (s.eventAt e).timeout
  time : ∀ e < s.fresh, e ∉ calls t → (s'.eventAt e).time = (s.eventAt e).time
  mem : ∀ e < s.fresh,
    e ∈ ys ↔ e ∈ xs ∧ e ∉ removals t ∧ (e ∈ calls t → (s.eventAt e).repeats = true)
  again : ∀ e ∈ calls t, e ∈ ys → Retimed (s'.eventAt e) e t
  called_lt : ∀ e ∈ calls t, e < s'.fresh
  removed : ∀ e ∈ removals t, e ∈ xs ∨ s.fresh ≤ e
  registered : ∀ e, .registered e ∈ t → s.fresh ≤ e

theorem Passed.refl (s : TimeoutLoop) (xs : List ℕ) : Passed s s xs xs [] where
  log := (List.append_nil _).symm
  fresh := Nat.le_refl _
  repeats _ _ := rfl
  timeout _ _ := rfl
  time _ _ _ := rfl
  mem _ _ := by simp
  again _ he := absurd he List.not_mem_nil
  called_lt _ he := absurd he List.not_mem_nil
  removed _ he := absurd he List.not_mem_nil
  registered _ he := absurd he List.not_mem_nil

theorem Passed.trans (h₁ : Passed s s₁ xs ys t) (h₂ : Passed s₁ s₂ ys zs t') :
    Passed s s₂ xs zs (t ++ t') where
  log := by rw [h₂.log, h₁.log, List.append_assoc]
  fresh := Nat.le_trans h₁.fresh h₂.fresh
  repeats e he := (h₂.repeats e (Nat.lt_of_lt_of_le he h₁.fresh)).trans (h₁.repeats e he)
  timeout e he := (h₂.timeout e (Nat.lt_of_lt_of_le he h₁.fresh)).trans (h₁.timeout e he)
  time e he hcalls := by
    rw [calls_append, List.mem_append, not_or] at hcalls
    exact (h₂.time e (Nat.lt_of_lt_of_le he h₁.fresh) hcalls.2).trans (h₁.time e he hcalls.1)
  mem e he := by
    rw [h₂.mem e (Nat.lt_of_lt_of_le he h₁.fresh), h₁.mem e he, h₁.repeats e he, removals_append,
      calls_append, List.mem_append, List.mem_append, not_or, or_imp]
    tauto
  again e he hmem := by
    by_cases hlater : e ∈ calls t'
    · rcases h₂.again e hlater hmem with hzero | ⟨hne, now, hin, htime⟩
      · exact Or.inl hzero
      · exact Or.inr ⟨hne, now, hin.trans (List.suffix_append t t').isInfix, htime⟩
    · rw [calls_append, List.mem_append] at he
      have hfirst := he.resolve_right hlater
      have hlt := h₁.called_lt e hfirst
      have hys := ((h₂.mem e hlt).mp hmem).1
      have htime := h₂.time e hlt hlater
      have htimeout := h₂.timeout e hlt
      rcases h₁.again e hfirst hys with hzero | ⟨hne, now, hin, hnow⟩
      · exact Or.inl ⟨htimeout.trans hzero.1, htime.trans hzero.2⟩
      · refine Or.inr ⟨fun heq => hne (htimeout.symm.trans heq), now,
          hin.trans (List.prefix_append t t').isInfix, ?_⟩
        rw [htime, htimeout, hnow]
  called_lt e he := by
    rw [calls_append, List.mem_append] at he
    rcases he with he | he
    · exact Nat.lt_of_lt_of_le (h₁.called_lt e he) h₂.fresh
    · exact h₂.called_lt e he
  removed e he := by
    rw [removals_append, List.mem_append] at he
    rcases he with he | he
    · exact h₁.removed e he
    · by_cases hold : e < s.fresh
      · refine Or.inl ((h₁.mem e hold).mp ((h₂.removed e he).resolve_right fun hle => ?_)).1
        exact absurd (Nat.lt_of_lt_of_le hold h₁.fresh) (Nat.not_lt.mpr hle)
      · exact Or.inr (Nat.not_lt.mp hold)
  registered e he := by
    rcases List.mem_append.mp he with he | he
    · exact h₁.registered e he
    · exact Nat.le_trans h₁.fresh (h₂.registered e he)

/-- The node where a list of events starts. -/
def firstNode : List ℕ → TimeoutNode
  | [] => .inl ()
  | e :: _ => .inr e

theorem Holds.next_eq {running : Option ℕ} (h : Holds s running (xs ++ event :: ys)) :
    s.timeoutHandler.next (.inr event) = some (firstNode ys) := by
  have hring := h.ring
  rw [List.map_append, List.map_cons] at hring
  rw [hring.next_elem]
  cases ys with
  | nil => rfl
  | cons y ys => rfl

/-- **Starting a callback**: the event is counted once more. -/
theorem Holds.start (h : Holds s none xs) (hmem : event ∈ xs) :
    Holds ((s.ref event).mark (.called event)) (some event) xs := by
  have hnot : event ∉ removals s.log := fun hask => absurd (h.asked event hmem hask) (by simp)
  have hcount := h.refcount event hmem
  rw [if_neg (by simp), if_neg hnot] at hcount
  have ht : Touched s ((s.ref event).mark (.called event)) event [.called event] :=
    (ref_touched s event).trans (mark_touched _ event _)
  have hnot' : event ∉ removals ((s.ref event).mark (.called event)).log := by
    rw [ht.log, removals_append]
    simpa [removals] using hnot
  refine h.touch ht ⟨fun e he => absurd he List.not_mem_nil, fun e => by simp⟩ (h.lt event hmem)
    (fun e he => by simp [Ne.symm he]) (fun _ => ?_) fun _ hask => absurd hask hnot'
  have href : ((s.ref event).eventAt event).refcount = (s.eventAt event).refcount + 1 := by
    rw [TimeoutLoop.ref, setEvent_eventAt, if_pos rfl]
  rw [if_pos rfl, if_neg hnot']
  show ((s.ref event).eventAt event).refcount = _
  rw [href, hcount]
  rfl

/-- A mark that is not about a removal or a release changes nothing. -/
theorem Holds.mark {running : Option ℕ} (h : Holds s running xs) (m : Mark)
    (hm : removals [m] = [] ∧ ∀ e, [m].count (.destroyed e) = 0) : Holds (s.mark m) running xs := by
  have hrem : removals (s.mark m).log = removals s.log := by
    show removals (s.log ++ [m]) = _
    rw [removals_append, hm.1, List.append_nil]
  refine ⟨h.ring, h.live, h.lt, fun e he => ?_, fun e he hask => ?_, fun e he => ?_, fun e => ?_⟩
  · rw [hrem]
    exact h.refcount e he
  · rw [hrem] at hask
    exact h.asked e he hask
  · rw [hrem] at he
    exact h.removed_lt e he
  · show (s.log ++ [m]).count _ = _
    rw [List.count_append, hm.2, Nat.add_zero]
    exact h.destroyed e

/-- What the call of an event does. -/
structure Invoked (s s₁ : TimeoutLoop) (event : ℕ) (xs ys : List ℕ) (t : List Mark) : Prop where
  holds : Holds s₁ (some event) ys
  log : s₁.log = s.log ++ (.called event :: t ++ [.returned event])
  fresh : s.fresh ≤ s₁.fresh
  fields : ∀ e < s.fresh, (s₁.eventAt e).repeats = (s.eventAt e).repeats ∧
    (s₁.eventAt e).timeout = (s.eventAt e).timeout ∧ (s₁.eventAt e).time = (s.eventAt e).time
  mem : ∀ e < s.fresh, e ∈ ys ↔ e ∈ xs ∧ (e ∈ removals t → event = e)
  removed : ∀ b e, .removed b e ∈ t → b = some event ∧ e < s₁.fresh ∧ (e ∈ xs ∨ s.fresh ≤ e)
  registered : ∀ e, .registered e ∈ t → s.fresh ≤ e
  calls : calls t = []
  suffix : ∀ done rest, xs = done ++ event :: rest →
    ∃ done', ys = done' ++ event :: rest.filter (· ∉ removals t)

/-- **The call of an event.** -/
theorem invoke_spec (hc : Lawful callback) (h : Holds s none xs) (hmem : event ∈ xs) :
    ∃ ys t, Invoked s ((s.ref event).invoke callback event) event xs ys t := by
  have hrun : ∀ r, some event = some r → r ∈ xs := fun r hr => Option.some.inj hr ▸ hmem
  set s₀ := (s.ref event).mark (.called event) with hs₀
  obtain ⟨ys, t, hys, hacted⟩ := (h.start hmem).acts hrun (hc event s₀)
  set s₁ := Run.exec (act (some event)) s₀ (callback event s₀) with hs₁
  have hinvoke : (s.ref event).invoke callback event = s₁.mark (.returned event) := rfl
  rw [hinvoke]
  refine ⟨ys, t, hys.mark (.returned event) ⟨rfl, fun e => by simp⟩, ?_, hacted.fresh, fun e he => ?_,
    fun e he => ?_, hacted.removed, hacted.registered, hacted.calls, fun done rest hxs => ?_⟩
  · show s₁.log ++ [.returned event] = _
    rw [hacted.log]
    show (s.log ++ [.called event]) ++ t ++ [.returned event] = _
    rw [List.append_assoc, List.append_assoc]
    rfl
  · have hsame : { s₁.eventAt e with refcount := 0 } = { s.eventAt e with refcount := 0 } := by
      refine (hacted.fields e he).trans ?_
      show { (s.ref event).eventAt e with refcount := 0 } = _
      rw [TimeoutLoop.ref, setEvent_eventAt]
      split
      · next hev => rw [hev]
      · rfl
    exact ⟨congrArg (·.repeats) hsame, congrArg (·.timeout) hsame, congrArg (·.time) hsame⟩
  · rw [hacted.mem e he, Option.some.injEq]
  · exact hacted.suffix event done rest rfl hxs

theorem Settled.mem_iff (h : Settled s s' event xs ys u) (hnd : xs.Nodup) (e : ℕ) :
    e ∈ ys ↔ e ∈ xs ∧ (e = event → event ∉ removals s.log ∧ (s.eventAt event).repeats = true) := by
  by_cases hgone : event ∈ removals s.log ∨ (s.eventAt event).repeats = false
  · rw [h.gone hgone, hnd.mem_erase_iff, and_comm]
    refine and_congr_right fun _ => ⟨fun hne he => absurd he hne, fun himp he => ?_⟩
    obtain ⟨hask, hrep⟩ := himp he
    exact hgone.elim hask fun hno => absurd (hrep.symm.trans hno) (by decide)
  · rw [not_or, Bool.not_eq_false] at hgone
    rw [(h.stays hgone.1 hgone.2).1]
    exact (and_iff_left fun _ => hgone).symm

/-- What comes after the event keeps its place. -/
theorem Settled.suffix (h : Settled s s' event xs ys u) (hnd : xs.Nodup) {done rest : List ℕ}
    (hxs : xs = done ++ event :: rest) : ∃ done', ys = done' ++ rest := by
  by_cases hgone : event ∈ removals s.log ∨ (s.eventAt event).repeats = false
  · have hout : event ∉ done := fun hm => by
      rw [hxs] at hnd
      exact (List.nodup_append.mp hnd).2.2 event hm event List.mem_cons_self rfl
    refine ⟨done, ?_⟩
    rw [h.gone hgone, hxs, List.erase_append_right _ hout, List.erase_cons_head]
  · rw [not_or, Bool.not_eq_false] at hgone
    refine ⟨done ++ [event], ?_⟩
    rw [(h.stays hgone.1 hgone.2).1, hxs, List.append_assoc]
    rfl

/-- The call of an event and what follows it, together. -/
theorem Invoked.passed (hi : Invoked s s₁ event xs ys t) (hs : Settled s₁ s' event ys zs u)
    (h : Holds s none xs) (hmem : event ∈ xs) : Passed s s' xs zs (visitMarks event t u) := by
  obtain ⟨hucalls, huremovals, huregistered⟩ := hs.marks
  have hremovals := removals_visitMarks (e := event) (t := t) huremovals
  have hcalls := calls_visitMarks (e := event) hi.calls hucalls
  have hlt := h.lt event hmem
  have hmem₁ : event ∈ ys := (hi.mem event hlt).mpr ⟨hmem, fun _ => rfl⟩
  have hask : event ∈ removals s₁.log ↔ event ∈ removals t := by
    have hbefore : event ∉ removals s.log := fun hask => absurd (h.asked event hmem hask) (by simp)
    rw [hi.log, removals_append, removals_append, List.mem_append]
    show _ ∨ event ∈ removals t ++ [] ↔ _
    rw [List.append_nil]
    exact or_iff_right hbefore
  have hothers : ∀ e, (s'.eventAt e).repeats = (s₁.eventAt e).repeats ∧
      (s'.eventAt e).timeout = (s₁.eventAt e).timeout := by
    intro e
    by_cases hev : e = event
    · rw [hev]
      exact ⟨hs.repeats, hs.timeout⟩
    · rw [hs.others e hev]
      exact ⟨rfl, rfl⟩
  refine ⟨?_, ?_, fun e he => ?_, fun e he => ?_, fun e he hcall => ?_, fun e he => ?_, fun e he hm => ?_,
    fun e he => ?_, fun e he => ?_, fun e he => ?_⟩
  · rw [hs.log, hi.log, List.append_assoc]
    rfl
  · rw [hs.fresh]
    exact hi.fresh
  · rw [(hothers e).1, (hi.fields e he).1]
  · rw [(hothers e).2, (hi.fields e he).2.1]
  · rw [hcalls, List.mem_singleton] at hcall
    rw [hs.others e hcall, (hi.fields e he).2.2]
  · rw [hs.mem_iff hi.holds.nodup, hi.mem e he, hremovals, hcalls, List.mem_singleton]
    by_cases hev : e = event
    · rw [hev, hask, (hi.fields event hlt).1]
      simp [hmem]
    · simp [hev, Ne.symm hev]
  · rw [hcalls, List.mem_singleton] at he
    rw [he] at hm ⊢
    obtain ⟨hkept, hrep⟩ := ((hs.mem_iff hi.holds.nodup event).mp hm).2 rfl
    rcases (hs.stays hkept hrep).2 with ⟨hzero, htime, -⟩ | ⟨hne, now, htime, hu⟩
    · exact Or.inl ⟨hzero, htime⟩
    · refine Or.inr ⟨hne, now, ⟨.called event :: t, [], ?_⟩, htime⟩
      rw [visitMarks, hu, List.append_nil, List.append_assoc]
      rfl
  · rw [hcalls, List.mem_singleton] at he
    rw [he, hs.fresh]
    exact Nat.lt_of_lt_of_le hlt hi.fresh
  · rw [hremovals, mem_removals] at he
    obtain ⟨b, hb⟩ := he
    exact (hi.removed b e hb).2.2
  · rcases mem_visitMarks he with he | he | he | he
    · exact absurd he (by simp)
    · exact hi.registered e he
    · exact absurd he (by simp)
    · exact absurd he (huregistered e)

/-- **One event of a pass**: its callback runs, and then it is settled. The link
that is read when the callback has returned leads to what is left of the list. -/
theorem visit_spec (hc : Lawful callback) {done rest : List ℕ}
    (h : Holds s none (done ++ event :: rest)) (hs₁ : s₁ = (s.ref event).invoke callback event) :
    ∃ done' t, s₁.allocated event = true ∧
      s₁.timeoutHandler.next (.inr event) = some (firstNode (rest.filter (· ∉ removals t))) ∧
      Holds (s₁.settle event) none (done' ++ rest.filter (· ∉ removals t)) ∧
      Visit s.fresh event t (s₁.settle event).fresh ∧
      Passed s (s₁.settle event) (done ++ event :: rest) (done' ++ rest.filter (· ∉ removals t)) t := by
  have hmem : event ∈ done ++ event :: rest := by simp
  obtain ⟨ys, t, hinv⟩ := invoke_spec hc h hmem
  rw [← hs₁] at hinv
  obtain ⟨done₁, hsuffix⟩ := hinv.suffix done rest rfl
  have hmem₁ : event ∈ ys := by
    rw [hsuffix]
    simp
  obtain ⟨zs, u, hzs, hset⟩ := hinv.holds.settle hmem₁
  obtain ⟨done', hdone'⟩ := hset.suffix hinv.holds.nodup hsuffix
  obtain ⟨hucalls, huremovals, huregistered⟩ := hset.marks
  have hremovals := removals_visitMarks (e := event) (t := t) huremovals
  refine ⟨done', visitMarks event t u, (hinv.holds.live event).mpr hmem₁, ?_, ?_,
    visit_visitMarks hinv.calls hucalls huremovals (fun b a hb => ?_) ?_, ?_⟩
  · have hholds := hinv.holds
    rw [hsuffix] at hholds
    rw [hholds.next_eq, hremovals]
  · rw [hremovals, ← hdone']
    exact hzs
  · obtain ⟨hrun, hlt, -⟩ := hinv.removed b a hb
    exact ⟨hrun, hset.fresh ▸ hlt⟩
  · rw [hset.fresh]
    exact hinv.fresh
  · rw [hremovals, ← hdone']
    exact hinv.passed hset h hmem

/-! ### The pass -/

/-- **The loop of the dispatch** from a place of the list on. With a round for
each event that is left it has a result; `due` is told from the times at the start. -/
theorem dispatchFrom_spec (hc : Lawful callback) (now : ℤ) (due : ℕ → Prop) :
    ∀ (fuel : ℕ) (done todo : List ℕ) (s : TimeoutLoop), Holds s none (done ++ todo) →
      todo.length < fuel → (∀ e ∈ todo, due e ↔ (s.eventAt e).time < now) →
      ∃ completed s' ys t, dispatchFrom callback now fuel (some (firstNode todo)) s = some (completed, s') ∧
        Holds s' none ys ∧ Passed s s' (done ++ todo) ys t ∧
        (completed = true → Walk due (fun _ => False) s.fresh todo t s'.fresh)
  | fuel + 1, done, [], s, h, _, _ =>
    ⟨true, s, done ++ [], [], rfl, h, Passed.refl s _, fun _ => Walk.done s.fresh⟩
  | fuel + 1, done, event :: rest, s, h, hfuel, hdue => by
    have hmem : event ∈ done ++ event :: rest := by simp
    rw [firstNode, dispatchFrom]
    by_cases hquit : s.quit = true
    · rw [if_pos hquit]
      exact ⟨false, s, _, [], rfl, h, Passed.refl s _, fun hno => absurd hno (by decide)⟩
    · rw [if_neg hquit, if_neg (by rw [(h.live event).mpr hmem]; decide)]
      by_cases htime : (s.eventAt event).time < now
      · rw [if_pos htime]
        dsimp only
        obtain ⟨done', t, hlive, hnext, hholds, hvisit, hpassed⟩ := visit_spec hc h rfl
        rw [if_neg (by rw [hlive]; decide), hnext]
        have hlen : (rest.filter (· ∉ removals t)).length < fuel := by
          have := List.length_filter_le (· ∉ removals t) rest
          rw [List.length_cons] at hfuel
          omega
        -- the times of the events that are left are those of the start
        have hdue' : ∀ e ∈ rest.filter (· ∉ removals t), due e ↔
            ((((s.ref event).invoke callback event).settle event).eventAt e).time < now := by
          intro e he
          have hrest := List.mem_of_mem_filter he
          have hnd := h.nodup
          have hne : e ∉ calls t := by
            rw [hvisit.calls_eq, List.mem_singleton]
            rintro rfl
            exact (List.nodup_cons.mp (List.nodup_append.mp hnd).2.1).1 hrest
          have hlt : e < s.fresh := h.lt e (by simp [hrest])
          rw [hdue e (List.mem_cons_of_mem _ hrest), hpassed.time e hlt hne]
        obtain ⟨completed, s', ys, t', hres, hys, hpassed', hwalk⟩ :=
          dispatchFrom_spec hc now due fuel done' _ _ hholds hlen hdue'
        refine ⟨completed, s', ys, t ++ t', hres, hys, hpassed.trans hpassed', fun hdone => ?_⟩
        refine Walk.visit ((hdue event List.mem_cons_self).mpr htime) hvisit List.nodup_nil
          (fun a ha => absurd ha List.not_mem_nil) ?_
        rw [List.append_nil]
        exact hwalk hdone
      · rw [if_neg htime, h.next_eq]
        have hlist : done ++ event :: rest = done ++ [event] ++ rest := by simp
        rw [hlist] at h
        rw [List.length_cons] at hfuel
        obtain ⟨completed, s', ys, t, hres, hys, hpassed, hwalk⟩ :=
          dispatchFrom_spec hc now due fuel (done ++ [event]) rest s h (by omega)
            (fun e he => hdue e (List.mem_cons_of_mem _ he))
        refine ⟨completed, s', ys, t, hres, hys, by rw [hlist]; exact hpassed, fun hdone => ?_⟩
        exact Walk.skip (fun hd => htime ((hdue event List.mem_cons_self).mp hd)) (hwalk hdone)

/-- Between two calls of the main loop no callback runs. -/
def WellFormed (s : TimeoutLoop) : Prop := Holds s none s.timeouts

theorem Holds.wellFormed (h : Holds s none xs) : WellFormed s := by
  rw [WellFormed, h.timeouts_eq]
  exact h

/-- What holds of a pass that came to the end of the list: `now` is the time it
read at its start, `t` the marks after that. -/
structure DispatchLaw (s s' : TimeoutLoop) (now : ℤ) (t : List Mark) : Prop where
  order : (calls t).Sublist s.timeouts
  once : ∀ e, t.count (.called e) ≤ 1
  due : ∀ e, .called e ∈ t → (s.eventAt e).time < now
  called : ∀ e ∈ s.timeouts, (s.eventAt e).time < now →
    (.called e ∈ t ↔ ¬ ∃ d, [d, e].Sublist s.timeouts ∧ .removed (some d) e ∈ t)
  afterRemoval : ∀ before after e, t = before ++ .called e :: after → ∀ b, .removed b e ∉ before
  registered : ∀ e, .registered e ∈ t → .called e ∉ t
  released : ∀ e, e ∈ removals t ∨ (.called e ∈ t ∧ (s.eventAt e).repeats = false) →
    t.count (.destroyed e) = (if (s'.eventAt e).destroyNotify then 1 else 0) ∧ e ∉ s'.timeouts
  again : ∀ e, .called e ∈ t → (s.eventAt e).repeats = true → e ∉ removals t →
    e ∈ s'.timeouts ∧
      (((s.eventAt e).timeout = 0 ∧ (s'.eventAt e).time = 0) ∨
        ((s.eventAt e).timeout ≠ 0 ∧ ∃ later, [.returned e, .clock later] <:+: t ∧
          (s'.eventAt e).time = later + (s.eventAt e).timeout))

/-- **From the walk to the law.** -/
theorem Passed.dispatchLaw {now : ℤ} (hp : Passed s s' xs ys t) (h : Holds s none xs)
    (h' : Holds s' none ys)
    (hw : Walk (fun e => (s.eventAt e).time < now) (fun _ => False) s.fresh xs t s'.fresh) :
    DispatchLaw s s' now t := by
  have hcalled : ∀ e, .called e ∈ t → e ∈ xs := fun e he =>
    (hw.mem_of_called he).resolve_right fun hno => hno.1
  have hall : (calls t).filter (· < s.fresh) = calls t :=
    List.filter_eq_self.mpr fun e he => decide_eq_true (h.lt e (hcalled e (mem_calls.mp he)))
  refine ⟨?_, fun e => ?_, fun e he => hw.due_of_called he, fun e he hdue => ?_,
    hw.orderedRemovals h.lt, fun e he hcall => ?_, fun e he => ?_,
    fun e he hrep hkept => ?_⟩
  · rw [h.timeouts_eq, ← hall]
    exact hw.order
  · by_cases he : e < s.fresh
    · exact hw.count_le h.nodup he
    · have hnot : Mark.called e ∉ t := fun hcall => he (h.lt e (hcalled e hcall))
      rw [List.count_eq_zero.mpr hnot]
      exact Nat.zero_le 1
  · rw [h.timeouts_eq] at he ⊢
    exact hw.called_iff h.nodup h.lt hdue he
  · exact absurd (h.lt e (hcalled e hcall)) (Nat.not_lt.mpr (hp.registered e he))
  · -- the event was there before or is new, and it is gone now
    have hgone : e ∉ ys := by
      intro hmem
      rcases he with he | ⟨hcall, hrep⟩
      · have hask : e ∈ removals s'.log := by
          rw [hp.log, removals_append]
          exact List.mem_append_right _ he
        exact absurd (h'.asked e hmem hask) (by simp)
      · have hlt := h.lt e (hcalled e hcall)
        have hkeep := ((hp.mem e hlt).mp hmem).2.2 (mem_calls.mpr hcall)
        exact absurd (hkeep.symm.trans hrep) (by decide)
    have hbefore : e ∈ xs ∨ s.fresh ≤ e := by
      rcases he with he | ⟨hcall, -⟩
      · exact hp.removed e he
      · exact Or.inl (hcalled e hcall)
    have hknown : e < s'.fresh := by
      rcases he with he | ⟨hcall, -⟩
      · exact h'.removed_lt e (by rw [hp.log, removals_append]; exact List.mem_append_right _ he)
      · exact hp.called_lt e (mem_calls.mpr hcall)
    have hzero : s.log.count (.destroyed e) = 0 := by
      rw [h.destroyed, if_neg]
      rintro ⟨hlt, hout, -⟩
      rcases hbefore with hmem | hle
      · exact hout hmem
      · exact Nat.not_lt.mpr hle hlt
    have hcount := h'.destroyed e
    rw [hp.log, List.count_append, hzero, Nat.zero_add] at hcount
    rw [hcount, h'.timeouts_eq]
    refine ⟨?_, hgone⟩
    simp [hknown, hgone]
  · have hlt := h.lt e (hcalled e he)
    have hmem : e ∈ ys := (hp.mem e hlt).mpr ⟨hcalled e he, hkept, fun _ => hrep⟩
    have htimed := hp.again e (mem_calls.mpr he) hmem
    rw [Retimed, hp.timeout e hlt] at htimed
    rw [h'.timeouts_eq]
    exact ⟨hmem, htimed⟩

theorem WellFormed.getTime (h : WellFormed s) : WellFormed s.getTime.2 := by
  have hticks : Holds { s with ticks := s.ticks + 1 } none s.timeouts :=
    ⟨h.ring, h.live, h.lt, h.refcount, h.asked, h.removed_lt, h.destroyed⟩
  exact hticks.mark (.clock (s.clock s.ticks)) ⟨rfl, fun e => by simp⟩

theorem WellFormed.first (h : WellFormed s) :
    s.timeoutHandler.next (.inl ()) = some (firstNode s.timeouts) ∧ s.timeouts.length < s.fresh + 1 := by
  refine ⟨?_, Nat.lt_succ_of_le (length_le_of_nodup_lt h.nodup h.lt)⟩
  rw [h.ring.next_head]
  cases s.timeouts with
  | nil => rfl
  | cons e es => rfl

/-- A pass starts at the first event, after the clock was read. -/
theorem dispatchTimeout_eq (callback : Callback) (h : WellFormed s) :
    dispatchTimeout callback s = dispatchFrom callback (s.clock s.ticks) (s.getTime.2.fresh + 1)
      (some (firstNode s.timeouts)) s.getTime.2 := by
  rw [dispatchTimeout]
  show dispatchFrom callback _ _ (s.getTime.2.timeoutHandler.next (.inl ())) _ = _
  rw [h.getTime.first.1]
  rfl

/-- **A dispatch pass.** -/
theorem dispatchTimeout_spec (hc : Lawful callback) (h : WellFormed s) :
    ∃ completed s', dispatchTimeout callback s = some (completed, s') ∧ WellFormed s' ∧
      (completed = true → ∃ t, s'.log = s.log ++ .clock (s.clock s.ticks) :: t ∧
        DispatchLaw s s' (s.clock s.ticks) t) := by
  set s₀ := s.getTime.2 with hs₀
  have hread : WellFormed s₀ := h.getTime
  obtain ⟨completed, s', ys, t, hres, hys, hpassed, hwalk⟩ :=
    dispatchFrom_spec hc (s.clock s.ticks) (fun e => (s₀.eventAt e).time < s.clock s.ticks) (s₀.fresh + 1) []
      s.timeouts s₀ hread hread.first.2 (fun e _ => Iff.rfl)
  rw [List.nil_append] at hpassed
  refine ⟨completed, s', (dispatchTimeout_eq callback h).trans hres, hys.wellFormed, fun hdone => ⟨t, ?_, ?_⟩⟩
  · rw [hpassed.log]
    show (s.log ++ [_]) ++ t = _
    rw [List.append_assoc]
    rfl
  · have hlaw := hpassed.dispatchLaw hread hys (hwalk hdone)
    have hsame : s₀.timeouts = s.timeouts := rfl
    exact ⟨hsame ▸ hlaw.order, hlaw.once, hlaw.due, hlaw.called, hlaw.afterRemoval, hlaw.registered,
      hlaw.released, hlaw.again⟩

/-! ### Runs of the main loop -/

/-- What a program does from outside: take actions, start the loop and let it dispatch. -/
inductive TimeoutOp where
  | act (a : TimeoutAction)
  | run
  | dispatch

def step (callback : Callback) (s : TimeoutLoop) : TimeoutOp → TimeoutLoop
  | .act a => s.act none a
  | .run => { s with quit := false }
  | .dispatch => ((dispatchTimeout callback s).map Prod.snd).getD s

def Ok (s : TimeoutLoop) : TimeoutOp → Prop
  | .act a => s.Allowed a
  | .run | .dispatch => True

instance (s : TimeoutLoop) : ∀ op, Decidable (s.Ok op)
  | .act a => inferInstanceAs (Decidable (s.Allowed a))
  | .run | .dispatch => .isTrue trivial

theorem step_wellFormed (hc : Lawful callback) (h : WellFormed s) {op : TimeoutOp} (hok : s.Ok op) :
    WellFormed (s.step callback op) := by
  cases op with
  | act a =>
    obtain ⟨ys, t, hys, -⟩ := h.act (fun r hr => absurd hr (by simp)) hok
    exact hys.wellFormed
  | run => exact ⟨h.ring, h.live, h.lt, h.refcount, h.asked, h.removed_lt, h.destroyed⟩
  | dispatch =>
    obtain ⟨completed, s', hres, hs', -⟩ := dispatchTimeout_spec hc h
    rw [step, hres]
    exact hs'

/-- Only `quit` stops a walk. -/
theorem dispatchFrom_stopped {now : ℤ} (fuel : ℕ) (node : Option TimeoutNode) (s : TimeoutLoop)
    (h : dispatchFrom callback now fuel node s = some (false, s')) : s'.quit = true := by
  induction fuel generalizing node s with
  | zero => exact absurd h.symm (Option.some_ne_none _)
  | succ fuel ih =>
    rcases node with _ | _ | event
    · exact absurd h.symm (Option.some_ne_none _)
    · exact Bool.noConfusion (congrArg Prod.fst (Option.some.inj h))
    · rw [dispatchFrom] at h
      split at h
      · next hquit =>
        obtain rfl := congrArg Prod.snd (Option.some.inj h)
        exact hquit
      split at h
      · exact absurd h.symm (Option.some_ne_none _)
      split at h
      · dsimp only at h
        split at h
        · exact absurd h.symm (Option.some_ne_none _)
        · exact ih _ _ h
      · exact ih _ _ h

/-- **The life of the timeouts.** With callbacks that keep the promise, every run
of the loop leaves a well-formed list, and from every such list a pass has a result;
if it was not stopped, it obeys the law, and only `quit` stops it. -/
theorem dispatchTimeout_law (hc : Lawful callback) :
    (∀ (clock : ℕ → ℤ) (ops : List TimeoutOp), Run.Admissible (step callback) Ok (new clock) ops →
      WellFormed (Run.exec (step callback) (new clock) ops)) ∧
      ∀ s, WellFormed s → ∃ completed s', dispatchTimeout callback s = some (completed, s') ∧
        (completed = true → ∃ t, s'.log = s.log ++ .clock (s.clock s.ticks) :: t ∧
          DispatchLaw s s' (s.clock s.ticks) t) ∧
        (completed = false → s'.quit = true) := by
  constructor
  · intro clock ops ha
    exact Run.invariant (P := WellFormed) (fun s op h hok => step_wellFormed hc h hok)
      (new_holds clock).wellFormed ha
  · intro s h
    obtain ⟨completed, s', hres, -, hlaw⟩ := dispatchTimeout_spec hc h
    refine ⟨completed, s', hres, hlaw, ?_⟩
    rintro rfl
    exact dispatchFrom_stopped _ _ _ hres

/-- A callback that removes its own event and registers another one. -/
def replaceSelf : Callback := fun event s =>
  if s.Allowed (.remove event) then [.remove event, .register 5 true true] else []

theorem replaceSelf_lawful : Lawful replaceSelf := by
  intro event s
  rw [replaceSelf]
  split
  · next hok => exact ⟨hok, trivial, trivial⟩
  · trivial

/-- Two timeouts, one pass in which each of them is replaced. -/
theorem dispatchTimeout_law_replaceSelf :
    WellFormed (Run.exec (step replaceSelf) (new fun n => n)
      [.act (.register 0 true true), .act (.register 0 false false), .dispatch]) :=
  (dispatchTimeout_law replaceSelf_lawful).1 (fun n => n)
    [.act (.register 0 true true), .act (.register 0 false false), .dispatch] (by decide)

end TimeoutLoop

end Fcitx
