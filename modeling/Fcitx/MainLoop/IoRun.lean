/-
# The passes of the main loop over its IO events

A pass goes through the descriptors that the poll found ready. When it comes to
its end, the events of each of them were called in their order, but for those
that were removed before their turn. A callback that replaces its own event by
a new one on the same descriptor keeps the pass from ending: the next
descriptor never gets its turn.

Key definitions: `IoLoop.FdsLaw`, `IoLoop.PassLaw`, `IoLoop.step`.
Key theorems: `IoLoop.dispatchFds_spec`, `IoLoop.dispatchIo_law`,
`IoLoop.respawn_never_ends`.
-/
import Fcitx.MainLoop.IoPass

namespace Fcitx

open Mark

namespace IoLoop

variable {callback : Callback} {s s' s₀ s₁ s₂ : IoLoop} {event i j : ℤ} {t t' u before : List Mark}
  {key : Bytes} {e r flags : ℕ}

/-! ### The descriptors -/

/-- `struct pollfd` entries that are ready. -/
def readyFds (pollfds : List PollFd) : List PollFd := pollfds.filter fun pfd => pfd.revents ≠ 0

/-- The events of each ready descriptor fare as `Served` says, one descriptor after the other. -/
def FdsLaw (s : IoLoop) : List PollFd → List Mark → List Mark → Prop
  | [], _, t => t = []
  | pfd :: pollfds, before, t => ∃ u v, t = u ++ v ∧
      Served s.fresh (s.chain (pollKey pfd.fd pfd.events)) before u ∧ FdsLaw s pollfds (before ++ u) v

/-- A key has no more events later than it had and than joined since. -/
theorem Passed.chain_length (h : Passed s s₁ t) (key : Bytes) :
    (s₁.chain key).length ≤ (s.chain key).length + (registrations t).length := by
  obtain ⟨added, hchain, hjoined⟩ := h.chain key
  have hfilter := List.length_filter_le (fun e => decide (e ∉ removals t)) (s.chain key)
  have hadded := hjoined.length_le
  rw [hchain, List.length_append]
  omega

/-- **One descriptor**: a walk over the events of its key. -/
theorem dispatchFd_spec (hc : Lawful callback) (h : Holds s none) (key : Bytes) (flags fuel : ℕ) :
    ∃ t, Holds (dispatchKey callback flags fuel (s.ioHandler.firstId key) s).2 none ∧
      Passed s (dispatchKey callback flags fuel (s.ioHandler.firstId key) s).2 t ∧
      ((dispatchKey callback flags fuel (s.ioHandler.firstId key) s).1 = .finished →
        Walk (fun _ => True) (fun _ => True) s.fresh (s.chain key) t
          (dispatchKey callback flags fuel (s.ioHandler.firstId key) s).2.fresh) ∧
      ((dispatchKey callback flags fuel (s.ioHandler.firstId key) s).1 = .unfinished →
        fuel ≤ (s.chain key).length + (registrations t).length) := by
  rw [h.table.firstId_eq key, chain, List.length_map]
  exact dispatchKey_spec hc fuel [] (s.ioHandler.ids key) s h rfl

/-- What the walk over one key says of the events that were there at the start of the pass. -/
theorem Passed.served (hp : Passed s₀ s before) (h₀ : Holds s₀ none)
    (hw : Walk (fun _ => True) (fun _ => True) s.fresh (s.chain key) t s'.fresh) :
    Served s₀.fresh (s₀.chain key) before t := by
  obtain ⟨added, hchain, hjoined⟩ := hp.chain key
  rw [hchain] at hw
  exact hw.served (fun _ => trivial) (h₀.chain_nodup key) (fun e he => h₀.lt_of_chain he) hp.fresh hjoined

/-- **The loop over the descriptors**, from one of them on: `before` is what the
pass did until then. -/
theorem dispatchFds_spec (hc : Lawful callback) (h₀ : Holds s₀ none) (fuel : ℕ) :
    ∀ (pollfds : List PollFd) (n : ℤ) (s : IoLoop) (before : List Mark), Holds s none →
      Passed s₀ s before → (readyFds pollfds).length ≤ n →
      ∃ t, Holds (dispatchFds callback fuel pollfds n s).2.2 none ∧
        Passed s (dispatchFds callback fuel pollfds n s).2.2 t ∧
        ((dispatchFds callback fuel pollfds n s).1 = .finished →
          FdsLaw s₀ (readyFds pollfds) before t ∧ OrderedRemovals t) ∧
        ((dispatchFds callback fuel pollfds n s).1 = .unfinished →
          ∃ key, fuel ≤ (s.chain key).length + (registrations t).length)
  | [], n, s, before, h, _, _ =>
    ⟨[], h, Passed.refl s, fun _ => ⟨rfl, OrderedRemovals.nil⟩, fun hno => absurd hno (by simp [dispatchFds])⟩
  | pfd :: pollfds, n, s, before, h, hp, hn => by
    rw [dispatchFds]
    by_cases hquit : s.quit = true
    · rw [if_pos hquit]
      exact ⟨[], h, Passed.refl s, fun hno => absurd hno (by simp), fun hno => absurd hno (by simp)⟩
    rw [if_neg hquit]
    by_cases hzero : n ≤ 0
    · -- no descriptor that is left is ready
      have hnil : readyFds (pfd :: pollfds) = [] := List.length_eq_zero_iff.mp (by omega)
      rw [if_pos hzero, hnil]
      exact ⟨[], h, Passed.refl s, fun _ => ⟨rfl, OrderedRemovals.nil⟩, fun hno => absurd hno (by simp)⟩
    rw [if_neg hzero]
    by_cases hready : pfd.revents = 0
    · have hskip : readyFds (pfd :: pollfds) = readyFds pollfds :=
        List.filter_cons_of_neg (by simpa using hready)
      rw [hskip] at hn ⊢
      rw [if_pos hready]
      exact dispatchFds_spec hc h₀ fuel pollfds n s before h hp hn
    · have hserve : readyFds (pfd :: pollfds) = pfd :: readyFds pollfds :=
        List.filter_cons_of_pos (by simpa using hready)
      rw [hserve, List.length_cons] at hn
      rw [hserve, if_neg hready]
      set key := pollKey pfd.fd pfd.events with hkey
      obtain ⟨u, hs₁, hpu, hwalk, hunf⟩ := dispatchFd_spec hc h key (flagFromLibc pfd.revents) fuel
      rcases hres : dispatchKey callback (flagFromLibc pfd.revents) fuel (s.ioHandler.firstId key) s
        with ⟨done, s₁⟩
      rw [hres] at hs₁ hpu hwalk hunf
      cases done with
      | unfinished =>
        exact ⟨u, hs₁, hpu, fun hno => absurd hno (by simp), fun _ => ⟨key, hunf rfl⟩⟩
      | stopped =>
        exact ⟨u, hs₁, hpu, fun hno => absurd hno (by simp), fun hno => absurd hno (by simp)⟩
      | finished =>
        obtain ⟨v, hs', hpv, hfin, hrest⟩ := dispatchFds_spec hc h₀ fuel pollfds (n - 1) s₁ (before ++ u) hs₁
          (hp.trans hpu h₀ h) (by omega)
        refine ⟨u ++ v, hs', hpu.trans hpv h hs₁, fun hdone => ?_, fun hno => ?_⟩
        · obtain ⟨hfds, hordered⟩ := hfin hdone
          have hfirst : OrderedRemovals u := (hwalk rfl).orderedRemovals fun e he => h.lt_of_chain he
          exact ⟨⟨u, v, rfl, hp.served h₀ (hwalk rfl), hfds⟩,
            hfirst.append hordered (hpu.not_called_later hpv hs₁)⟩
        · obtain ⟨key', hle⟩ := hrest hno
          have hlen : (s₁.chain key').length ≤ _ := hpu.chain_length key'
          refine ⟨key', ?_⟩
          rw [registrations_append, List.length_append]
          omega

/-! ### The pass -/

/-- Between two calls of the main loop no callback runs. -/
def WellFormed (s : IoLoop) : Prop := Holds s none

/-- A poll counts the entries that are ready, unless it failed or timed out. -/
def Polled (s : IoLoop) : Prop := s.pollRet ≤ 0 ∨ (readyFds s.pollfds).length ≤ s.pollRet

instance (s : IoLoop) : Decidable s.Polled := inferInstanceAs (Decidable (_ ∨ _))

/-- The descriptors a pass serves. -/
def served (s : IoLoop) : List PollFd := if s.pollRet ≤ 0 then [] else readyFds s.pollfds

/-- What holds of a pass that came to its end, with the marks `t` it left. -/
structure PassLaw (s s' : IoLoop) (t : List Mark) : Prop where
  fds : FdsLaw s s.served [] t
  afterRemoval : OrderedRemovals t
  selfRemoval : FreedAfterReturn t
  released : ∀ e ∈ removals t, t.count (.freed e) = 1 ∧
    t.count (.destroyed e) = (if s'.notifies e then 1 else 0) ∧ e ∉ s'.serials

/-- What was removed in a pass is released when the pass is over. -/
theorem Passed.released (hp : Passed s s' t) (h : Holds s none) (h' : Holds s' none) (he : e ∈ removals t) :
    t.count (.freed e) = 1 ∧ t.count (.destroyed e) = (if s'.notifies e then 1 else 0) ∧ e ∉ s'.serials := by
  have hgone : e ∉ s'.serials := by
    intro hmem
    obtain ⟨i, hi, rfl⟩ := IoLoop.mem_serials.mp hmem
    have hask : s'.serial i ∈ removals s'.log := by
      rw [hp.log, removals_append]
      exact List.mem_append_right _ he
    exact absurd (h'.asked i hi hask) (by simp)
  have hknown : e < s'.fresh := hp.removed_lt e he
  -- it was there before or is new, so that nothing was released before
  have hbefore : ¬ (e < s.fresh ∧ e ∉ s.serials) := by
    rintro ⟨hlt, hout⟩
    rcases hp.removed e he with hmem | hle
    · exact hout hmem
    · exact Nat.not_lt.mpr hle hlt
  have hfreed := h'.freed e
  rw [hp.log, List.count_append, h.freed, if_neg hbefore, if_pos ⟨hknown, hgone⟩, Nat.zero_add] at hfreed
  have hdestroyed := h'.destroyed e
  rw [hp.log, List.count_append, h.destroyed, if_neg fun hb => hbefore ⟨hb.1, hb.2.1⟩,
    Nat.zero_add] at hdestroyed
  refine ⟨hfreed, ?_, hgone⟩
  rw [hdestroyed]
  simp [hknown, hgone]

/-- The list of descriptors is not what the invariant is about. -/
theorem Holds.setPollfds (h : Holds s none) (pollfds : List PollFd) (pollRet : ℤ) (quit : Bool) :
    Holds { s with pollfds := pollfds, pollRet := pollRet, quit := quit } none :=
  ⟨h.table, h.freeFunc, h.id_eq, h.notifies, h.lt, h.inj, h.refcount, h.asked, h.removed_lt, h.freed,
    h.destroyed⟩

/-- **A dispatch pass.** -/
theorem dispatchIo_spec (hc : Lawful callback) (h : WellFormed s) (hpoll : s.Polled) (fuel : ℕ) :
    ∃ t, WellFormed (dispatchIo callback fuel s).2 ∧ (dispatchIo callback fuel s).2.log = s.log ++ t ∧
      ((dispatchIo callback fuel s).1 = .finished → PassLaw s (dispatchIo callback fuel s).2 t) ∧
      ((dispatchIo callback fuel s).1 = .unfinished → fuel ≤ s.fresh + (registrations t).length) := by
  rw [dispatchIo]
  by_cases hret : s.pollRet ≤ 0
  · have hnone : s.served = [] := if_pos hret
    rw [if_pos hret]
    refine ⟨[], h, (List.append_nil _).symm, fun _ => ⟨?_, OrderedRemovals.nil, (Passed.refl s).ends,
      fun e he => absurd he List.not_mem_nil⟩, fun hno => absurd hno (by simp)⟩
    rw [hnone]
    rfl
  · have hserved : s.served = readyFds s.pollfds := if_neg hret
    obtain ⟨t, hs', hp, hfin, hunf⟩ := dispatchFds_spec hc h fuel s.pollfds s.pollRet s [] h
      (Passed.refl s) (hpoll.resolve_left hret)
    rw [if_neg hret]
    refine ⟨t, hs'.setPollfds _ _ _, hp.log, fun hdone => ?_, fun hno => ?_⟩
    · obtain ⟨hfds, hordered⟩ := hfin hdone
      refine ⟨?_, hordered, hp.ends, fun e he => hp.released h hs' he⟩
      rw [hserved]
      exact hfds
    · obtain ⟨key, hle⟩ := hunf hno
      have hsub : s.chain key ⊆ List.range s.fresh := fun e he => List.mem_range.mpr (h.lt_of_chain he)
      have hlen := ((h.chain_nodup key).subperm hsub).length_le
      rw [List.length_range] at hlen
      omega

/-! ### The rounds of a pass -/

/-- A walk that has ended does not need more rounds. -/
theorem dispatchKey_stable {fuel fuel' : ℕ} (hle : fuel ≤ fuel') (event : ℤ) (s : IoLoop)
    (hend : (dispatchKey callback flags fuel event s).1 ≠ .unfinished) :
    dispatchKey callback flags fuel' event s = dispatchKey callback flags fuel event s := by
  induction fuel generalizing fuel' event s with
  | zero => exact absurd rfl hend
  | succ fuel ih =>
    obtain ⟨fuel', rfl⟩ := Nat.exists_eq_add_of_le' (Nat.le_trans (Nat.succ_le_succ (Nat.zero_le fuel)) hle)
    rw [dispatchKey] at hend ⊢
    rw [dispatchKey]
    split
    · rfl
    · next hne =>
      rw [if_neg hne] at hend
      dsimp only at hend ⊢
      split
      · rfl
      · next hquit =>
        rw [if_neg hquit] at hend
        exact ih (Nat.le_of_succ_le_succ hle) _ _ hend

theorem dispatchFds_stable {fuel fuel' : ℕ} (hle : fuel ≤ fuel') (pollfds : List PollFd) (n : ℤ) (s : IoLoop)
    (hend : (dispatchFds callback fuel pollfds n s).1 ≠ .unfinished) :
    dispatchFds callback fuel' pollfds n s = dispatchFds callback fuel pollfds n s := by
  induction pollfds generalizing n s with
  | nil => rfl
  | cons pfd pollfds ih =>
    rw [dispatchFds] at hend ⊢
    rw [dispatchFds]
    split
    · rfl
    next hquit =>
    split
    · rfl
    next hzero =>
    rw [if_neg hquit, if_neg hzero] at hend
    split
    · next hready =>
      rw [if_pos hready] at hend
      rw [ih n s hend]
    · next hready =>
      rw [if_neg hready] at hend
      have hkey : (dispatchKey callback (flagFromLibc pfd.revents) fuel
          (s.ioHandler.firstId (pollKey pfd.fd pfd.events)) s).1 ≠ .unfinished := by
        intro hno
        rcases hres : dispatchKey callback (flagFromLibc pfd.revents) fuel
          (s.ioHandler.firstId (pollKey pfd.fd pfd.events)) s with ⟨done, s₁⟩
        rw [hres] at hno hend
        obtain rfl : done = .unfinished := hno
        exact hend rfl
      rw [dispatchKey_stable hle _ _ hkey]
      rcases hres : dispatchKey callback (flagFromLibc pfd.revents) fuel
        (s.ioHandler.firstId (pollKey pfd.fd pfd.events)) s with ⟨done, s₁⟩
      rw [hres] at hend
      cases done with
      | unfinished => rfl
      | stopped => rfl
      | finished =>
        have hrest : (dispatchFds callback fuel pollfds (n - 1) s₁).1 ≠ .unfinished := hend
        dsimp only
        rw [ih (n - 1) s₁ hrest]

/-- **A pass that has ended does not need more rounds.** -/
theorem dispatchIo_stable {fuel fuel' : ℕ} (hle : fuel ≤ fuel')
    (hend : (dispatchIo callback fuel s).1 ≠ .unfinished) :
    dispatchIo callback fuel' s = dispatchIo callback fuel s := by
  rw [dispatchIo] at hend ⊢
  rw [dispatchIo]
  split
  · rfl
  · next hret =>
    rw [if_neg hret] at hend
    rw [dispatchFds_stable hle s.pollfds s.pollRet s hend]

/-! ### Runs of the main loop -/

/-- What a program does from outside: take actions, start the loop, let it poll and
let it dispatch, for `fuel` rounds at most on each descriptor. -/
inductive IoOp where
  | act (a : IoAction)
  | run
  | poll (pollfds : List PollFd) (pollRet : ℤ)
  | dispatch (fuel : ℕ)

def step (callback : Callback) (s : IoLoop) : IoOp → IoLoop
  | .act a => s.act none a
  | .run => { s with quit := false }
  | .poll pollfds pollRet => { s with pollfds := pollfds, pollRet := pollRet }
  | .dispatch fuel => (dispatchIo callback fuel s).2

/-- The loop goes on after a pass when the pass has ended. -/
def Ok (callback : Callback) (s : IoLoop) : IoOp → Prop
  | .act a => s.Allowed a
  | .run | .poll _ _ => True
  | .dispatch fuel => s.Polled ∧ (dispatchIo callback fuel s).1 ≠ .unfinished

instance (callback : Callback) (s : IoLoop) : ∀ op, Decidable (s.Ok callback op)
  | .act a => inferInstanceAs (Decidable (s.Allowed a))
  | .run | .poll _ _ => .isTrue trivial
  | .dispatch _ => inferInstanceAs (Decidable (_ ∧ _ ≠ _))

theorem step_wellFormed (hc : Lawful callback) (h : WellFormed s) {op : IoOp} (hok : s.Ok callback op) :
    WellFormed (s.step callback op) := by
  cases op with
  | act a =>
    obtain ⟨t, hs', -⟩ := h.act (fun r hr => absurd hr (by simp)) hok
    exact hs'
  | run => exact h.setPollfds s.pollfds s.pollRet false
  | poll pollfds pollRet => exact h.setPollfds pollfds pollRet s.quit
  | dispatch fuel =>
    obtain ⟨t, hs', -⟩ := dispatchIo_spec hc h hok.1 fuel
    exact hs'

/-- Only `quit` stops a walk. -/
theorem dispatchKey_stopped (flags fuel : ℕ) (event : ℤ) (s : IoLoop)
    (h : (dispatchKey callback flags fuel event s).1 = .stopped) :
    (dispatchKey callback flags fuel event s).2.quit = true := by
  induction fuel generalizing event s with
  | zero => exact absurd h (by simp [dispatchKey])
  | succ fuel ih =>
    rw [dispatchKey] at h ⊢
    split at h
    · exact absurd h (by simp)
    next hlast =>
    rw [if_neg hlast]
    dsimp only at h ⊢
    split at h
    · next hquit =>
      rw [if_pos hquit]
      exact hquit
    · next hquit =>
      rw [if_neg hquit]
      exact ih _ _ h

theorem dispatchFds_stopped (fuel : ℕ) (pollfds : List PollFd) (n : ℤ) (s : IoLoop)
    (h : (dispatchFds callback fuel pollfds n s).1 = .stopped) :
    (dispatchFds callback fuel pollfds n s).2.2.quit = true := by
  induction pollfds generalizing n s with
  | nil => exact absurd h (by simp [dispatchFds])
  | cons pfd pollfds ih =>
    rw [dispatchFds] at h ⊢
    split at h
    · next hquit =>
      rw [if_pos hquit]
      exact hquit
    next hquit =>
    rw [if_neg hquit]
    split at h
    · exact absurd h (by simp)
    next hzero =>
    rw [if_neg hzero]
    split at h
    · next hready =>
      rw [if_pos hready]
      exact ih n s h
    next hready =>
    rw [if_neg hready]
    have hkey := @dispatchKey_stopped callback (flagFromLibc pfd.revents) fuel
      (s.ioHandler.firstId (pollKey pfd.fd pfd.events)) s
    rcases hres : dispatchKey callback (flagFromLibc pfd.revents) fuel
      (s.ioHandler.firstId (pollKey pfd.fd pfd.events)) s with ⟨done, s₁⟩
    rw [hres] at h hkey
    cases done with
    | unfinished => exact absurd h (by simp)
    | stopped => exact hkey rfl
    | finished => exact ih (n - 1) s₁ h

theorem dispatchIo_stopped (fuel : ℕ) (s : IoLoop) (h : (dispatchIo callback fuel s).1 = .stopped) :
    (dispatchIo callback fuel s).2.quit = true := by
  rw [dispatchIo] at h ⊢
  split at h
  · exact absurd h (by simp)
  · next hret =>
    rw [if_neg hret]
    exact dispatchFds_stopped fuel s.pollfds s.pollRet s h

/-- **The life of the IO events.** With callbacks that keep the promise, every run
of the loop leaves a well-formed table. From every such table, a pass that comes to
its end obeys the law, and a pass whose callbacks register a bounded number of
events ends, with the same result for more rounds; only `quit` stops a pass. -/
theorem dispatchIo_law (hc : Lawful callback) :
    (∀ (array : ByteMem) (ops : List IoOp), Run.Admissible (step callback) (Ok callback) (new array) ops →
      WellFormed (Run.exec (step callback) (new array) ops)) ∧
      ∀ s, WellFormed s → s.Polled →
        (∀ fuel, (dispatchIo callback fuel s).1 = .finished → ∃ t,
          (dispatchIo callback fuel s).2.log = s.log ++ t ∧ PassLaw s (dispatchIo callback fuel s).2 t) ∧
        (∀ k, (∀ fuel, (registrations (dispatchIo callback fuel s).2.log).length ≤ k) →
          ∃ fuel, (dispatchIo callback fuel s).1 ≠ .unfinished ∧
            ∀ fuel' ≥ fuel, dispatchIo callback fuel' s = dispatchIo callback fuel s) ∧
        ∀ fuel, (dispatchIo callback fuel s).1 = .stopped → (dispatchIo callback fuel s).2.quit = true := by
  refine ⟨fun array ops ha => ?_, fun s h hpoll => ⟨fun fuel hdone => ?_, fun k hk => ?_, fun fuel =>
    dispatchIo_stopped fuel s⟩⟩
  · exact Run.invariant (P := WellFormed) (fun s op h hok => step_wellFormed hc h hok) (new_holds array) ha
  · obtain ⟨t, -, hlog, hlaw, -⟩ := dispatchIo_spec hc h hpoll fuel
    exact ⟨t, hlog, hlaw hdone⟩
  · have hend : (dispatchIo callback (s.fresh + k + 1) s).1 ≠ .unfinished := by
      intro hno
      obtain ⟨t, -, hlog, -, hunf⟩ := dispatchIo_spec hc h hpoll (s.fresh + k + 1)
      have hle := hunf hno
      have hregs := hk (s.fresh + k + 1)
      rw [hlog, registrations_append, List.length_append] at hregs
      omega
    exact ⟨s.fresh + k + 1, hend, fun fuel' hle => dispatchIo_stable hle hend⟩

/-! ### A callback that replaces its event -/

/-- A pointer that no key has. -/
def freshPtr (table : HandlerTable) : KeyPtr :=
  ((List.range (table.ptrs.length + 1)).find? (· ∉ table.ptrs)).getD 0

theorem freshPtr_spec (table : HandlerTable) :
    freshPtr table ∉ table.ptrs ∧ freshPtr table ≤ table.ptrs.length := by
  have hsome : ((List.range (table.ptrs.length + 1)).find? (· ∉ table.ptrs)).isSome := by
    rw [List.find?_isSome]
    by_contra hno
    have hsub : List.range (table.ptrs.length + 1) ⊆ table.ptrs := by
      intro p hp
      by_contra hout
      exact hno ⟨p, hp, decide_eq_true hout⟩
    have hle := (List.nodup_range.subperm hsub).length_le
    rw [List.length_range] at hle
    omega
  obtain ⟨p, hp⟩ := Option.isSome_iff_exists.mp hsome
  have hmem := List.mem_range.mp (List.mem_of_find?_eq_some hp)
  have hout : p ∉ table.ptrs := by simpa using List.find?_some hp
  rw [freshPtr, hp, Option.getD_some]
  exact ⟨hout, Nat.lt_succ_iff.mp hmem⟩

/-- A callback that replaces its event by a new one on descriptor 3. -/
def respawn : Callback := fun event _ s =>
  let again := IoAction.register 3 1 false (freshPtr s.ioHandler)
  if s.Allowed (.remove event) ∧ (s.act (some (s.serial event)) (.remove event)).Allowed again then
    [.remove event, again]
  else []

theorem respawn_lawful : Lawful respawn := by
  intro event flags s
  rw [respawn]
  split
  · next hok => exact ⟨hok.1, hok.2, trivial⟩
  · trivial

/-- One pass over descriptor 4, whose event is replaced by one on descriptor 3. -/
theorem dispatchIo_law_respawn :
    ∃ t, (dispatchIo respawn 2 (Run.exec (step respawn) (new fun _ => 0)
        [.act (.register 4 1 true 0), .poll [⟨4, 1, 1⟩] 1])).2.log = [.registered 0] ++ t ∧
      PassLaw (Run.exec (step respawn) (new fun _ => 0) [.act (.register 4 1 true 0), .poll [⟨4, 1, 1⟩] 1])
        (dispatchIo respawn 2 (Run.exec (step respawn) (new fun _ => 0)
          [.act (.register 4 1 true 0), .poll [⟨4, 1, 1⟩] 1])).2 t :=
  ((dispatchIo_law respawn_lawful).2
    (Run.exec (step respawn) (new fun _ => 0) [.act (.register 4 1 true 0), .poll [⟨4, 1, 1⟩] 1])
    ((dispatchIo_law respawn_lawful).1 (fun _ => 0) [.act (.register 4 1 true 0), .poll [⟨4, 1, 1⟩] 1]
      (by decide +kernel)) (by decide +kernel)).1 2 (by decide +kernel)

/-! ### A pass that does not end -/

/-- Two descriptors with one event each; the second one was never called. -/
structure Respawning (s : IoLoop) (event j : ℤ) : Prop where
  holds : Holds s none
  map : ∃ a b, s.ioHandler.toMap = [(pollKey 3 1, [(event, a)]), (pollKey 4 1, [(j, b)])]
  objSize : s.ioHandler.objSize = sizeofIoEvent
  eleSize : s.ioHandler.objs.eleSize = 60
  second : s.serial j = 1
  waiting : Mark.called 1 ∉ s.log
  quit : s.quit = false

namespace Respawning

theorem live_eq (h : Respawning s event j) : s.ioHandler.live = [event, j] := by
  obtain ⟨a, b, hmap⟩ := h.map
  rw [HandlerTable.live, hmap]
  rfl

theorem ne (h : Respawning s event j) : event ≠ j := by
  have hnd := h.holds.table.live_nodup
  rw [h.live_eq] at hnd
  simpa using hnd

theorem serial_ne (h : Respawning s event j) : s.serial event ≠ 1 := by
  intro heq
  have hlive := h.live_eq
  exact h.ne (h.holds.inj event (by simp [hlive]) j (by simp [hlive]) (heq.trans h.second.symm))

/-- There is room for another event, and `freshPtr` is a pointer for it. -/
theorem ok (h : Respawning s event j) :
    s.ioHandler.Ok (.append (pollKey 3 (flagToLibc 1)) (List.replicate sizeofIoEvent 0)
      (freshPtr s.ioHandler)) := by
  obtain ⟨a, b, hmap⟩ := h.map
  obtain ⟨hout, hle⟩ := freshPtr_spec s.ioHandler
  have hlen : s.ioHandler.ptrs.length = 2 := by
    have := congrArg List.length hmap
    rw [HandlerTable.toMap, List.length_map] at this
    rw [HandlerTable.ptrs, List.length_map]
    exact this
  have hlt : freshPtr s.ioHandler < 2 ^ 64 := Nat.lt_of_le_of_lt (hlen ▸ hle) (by decide)
  refine ⟨?_, hout, hlt, h.holds.table.room ?_⟩
  · rw [List.length_replicate, h.objSize]
  · rw [h.live_eq, h.eleSize, List.length_cons, List.length_singleton]
    decide

/-- What the callback does: its event stays for now, and the new one is behind it. -/
theorem invoke_eq (h : Respawning s event j) (flags : ℕ) :
    let s₀ := (s.ref event).mark (.called (s.serial event))
    let s₁ := ((s₀.mark (.removed (some (s.serial event)) (s.serial event))).unref event).2
    (s.ref event).invoke respawn flags event =
      (s₁.act (some (s.serial event)) (.register 3 1 false (freshPtr s.ioHandler))).mark
        (.returned (s.serial event)) := by
  intro s₀ s₁
  have hlive : event ∈ s.ioHandler.live := by simp [h.live_eq]
  obtain ⟨hstart, ht⟩ := h.holds.start hlive
  have hserial : s₀.serial event = s.serial event := ht.serial event
  have hallowed : s₀.Allowed (.remove event) := by
    refine ⟨by rw [ht.table]; exact hlive, ?_⟩
    rw [hserial, ht.log, removals_append, List.mem_append, not_or]
    exact ⟨fun hask => absurd (h.holds.asked event hlive hask) (by simp), List.not_mem_nil⟩
  have hremove : s₀.act (some (s.serial event)) (.remove event) = s₁ := by
    have hstart' : Holds s₀ (some (s₀.serial event)) := by
      rw [hserial]
      exact hstart
    have hself := hstart'.removeSelf hallowed
    rw [hserial] at hself
    exact hself
  have hagain : s₁.Allowed (.register 3 1 false (freshPtr s.ioHandler)) := h.ok
  have hcall : respawn event flags s₀ = [.remove event, .register 3 1 false (freshPtr s.ioHandler)] := by
    rw [respawn, hserial, hremove]
    exact if_pos ⟨hallowed, hagain⟩
  have hsame : (s.ref event).serial event = s.serial event := (ref_touched s event).serial event
  rw [invoke, hsame, hcall, Run.exec_cons, Run.exec_cons, Run.exec_nil, hremove]

end Respawning

theorem removeIoEvent_quit (s : IoLoop) (event : ℤ) : (s.removeIoEvent event).quit = s.quit := by
  rw [removeIoEvent]
  dsimp only
  split
  · rfl
  · rfl

theorem settle_quit (s : IoLoop) (event : ℤ) : (s.settle event).2.quit = s.quit := by
  rw [settle]
  dsimp only
  split
  · exact removeIoEvent_quit _ event
  · rfl

namespace Respawning

/-- **One round**: the event is called and gone, and the walk goes on with a new one. -/
theorem visit (h : Respawning s event j) (flags : ℕ) :
    (((s.ref event).invoke respawn flags event).settle event).1 ≠ invalidId ∧
      Respawning (((s.ref event).invoke respawn flags event).settle event).2
        (((s.ref event).invoke respawn flags event).settle event).1 j := by
  have hlive : event ∈ s.ioHandler.live := by simp [h.live_eq]
  have hlivej : j ∈ s.ioHandler.live := by simp [h.live_eq]
  obtain ⟨t, hi⟩ := invoke_spec respawn_lawful h.holds hlive flags
  have heq := h.invoke_eq flags
  dsimp only at heq
  set s₁ := (s.ref event).invoke respawn flags event with hs₁
  set r := s.serial event with hr
  -- the table after the callback
  set obj := List.replicate sizeofIoEvent (0 : UInt8) with hobj
  set table := (s.ioHandler.append (pollKey 3 1) obj (freshPtr s.ioHandler)).2 with htable
  set id := (s.ioHandler.append (pollKey 3 1) obj (freshPtr s.ioHandler)).1 with hid
  have hok : s.ioHandler.Ok (.append (pollKey 3 1) obj (freshPtr s.ioHandler)) := h.ok
  have htable₁ : s₁.ioHandler = table := by
    rw [heq]
    rfl
  obtain ⟨hinv, hout, hids, -⟩ := HandlerTable.append_ids h.holds.table hok
  obtain ⟨a, b, hmap⟩ := h.map
  have hidsBefore : s.ioHandler.ids (pollKey 3 1) = [event] := by
    rw [h.holds.table.ids_eq_find, hmap]
    rfl
  have hids₁ : table.ids (pollKey 3 1) = [] ++ event :: [id] := by
    rw [hids, if_pos rfl, hidsBefore]
    rfl
  have hmap₁ : table.toMap = [(pollKey 3 1, [(event, a), (id, obj)]), (pollKey 4 1, [(j, b)])] := by
    rw [htable, HandlerTable.append_map h.holds.table hok, hmap]
    rfl
  have hnew : ∀ i ∈ s.ioHandler.live, i ≠ id := by
    intro i hmem heq
    rw [heq] at hmem
    exact hout hmem
  have hevent := hnew event hlive
  have hj := hnew j hlivej
  -- its event goes when it has returned
  have hholds : Holds s₁ (some (s₁.serial event)) := by
    rw [hi.stays.2]
    exact hi.holds
  obtain ⟨hnext, u, hset⟩ := settle_spec hholds hi.stays.1
  have hnext' : (s₁.settle event).1 = id := by
    rw [hnext, htable₁, hinv.next_eq hids₁]
    rfl
  have hask : s₁.serial event ∈ removals s₁.log := by
    rw [hi.stays.2, heq]
    show _ ∈ removals (((s.log ++ [.called r]) ++ [.removed (some r) r]) ++ [.registered _] ++ [.returned r])
    simp only [removals_append, List.mem_append]
    exact Or.inl (Or.inl (Or.inr (List.mem_singleton.mpr rfl)))
  have htable₂ : (s₁.settle event).2.ioHandler = (table.removeByIdFull event).getD table := by
    rw [(hset.gone hask).2, htable₁]
  have hsame := (HandlerTable.append_same s.ioHandler (pollKey 3 1) obj (freshPtr s.ioHandler)).1.trans
    (HandlerTable.removeByIdFull_same table event).same
  have hlive₁ : event ∈ table.live := htable₁ ▸ hi.stays.1
  rw [hnext']
  refine ⟨?_, hset.holds, ⟨obj, b, ?_⟩, ?_, ?_, ?_, ?_, ?_⟩
  · have hidlive : id ∈ table.live := (HandlerTable.mem_live_append h.holds.table hok).mpr (Or.inr rfl)
    have hnonneg := hinv.nonneg hidlive
    rw [invalidId]
    omega
  · rw [htable₂, HandlerTable.removeByIdFull_map hinv hlive₁, hmap₁]
    have hne := h.ne
    simp [MultiMap.removeIdFull, MultiMap.removeId, hevent.symm, hne.symm]
  · rw [htable₂, hsame.objSize]
    exact h.objSize
  · rw [htable₂, hsame.eleSize]
    exact h.eleSize
  · rw [hset.serial, ← h.second, heq]
    have ht := (((ref_touched s event).trans (mark_touched _ event (.called r))).trans
      (mark_touched _ event (.removed (some r) r))).trans (unref_touched _ event)
    exact (congrArg IoEvent.serial (Function.update_of_ne hj _ _)).trans (ht.serial j)
  · have ht : Mark.called 1 ∉ t := by
      rw [← mem_calls, hi.calls]
      exact List.not_mem_nil
    have hu : Mark.called 1 ∉ u := by
      rw [← mem_calls, hset.marks.1]
      exact List.not_mem_nil
    have hne : (1 : ℕ) ≠ s.serial event := h.serial_ne.symm
    rw [hset.log, hi.log]
    simp [h.waiting, ht, hu, hne]
  · rw [settle_quit, heq]
    exact h.quit

end Respawning

/-- **The walk over the first descriptor does not end.** -/
theorem Respawning.dispatchKey_eq (h : Respawning s event j) (flags fuel : ℕ) :
    ∃ s' event', dispatchKey respawn flags fuel event s = (.unfinished, s') ∧ Respawning s' event' j := by
  induction fuel generalizing s event with
  | zero => exact ⟨s, event, rfl, h⟩
  | succ fuel ih =>
    obtain ⟨hne, hnext⟩ := h.visit flags
    have hevent : event ≠ invalidId := by
      have hnonneg := h.holds.table.nonneg (i := event) (by simp [h.live_eq])
      rw [invalidId]
      omega
    obtain ⟨s', event', hres, hs'⟩ := ih hnext
    refine ⟨s', event', ?_, hs'⟩
    rw [dispatchKey, if_neg hevent]
    dsimp only
    rw [if_neg (by rw [hnext.quit]; decide)]
    exact hres

/-- Two descriptors that are ready, with an event each. -/
def respawnLoop : IoLoop :=
  Run.exec (step respawn) (new fun _ => 0)
    [.act (.register 3 1 false 0), .act (.register 4 1 false 1), .poll [⟨3, 1, 1⟩, ⟨4, 1, 1⟩] 2]

theorem respawnLoop_respawning : Respawning respawnLoop 0 1 := by
  have hadm : Run.Admissible (step respawn) (Ok respawn) (new fun _ => 0)
      [.act (.register 3 1 false 0), .act (.register 4 1 false 1), .poll [⟨3, 1, 1⟩, ⟨4, 1, 1⟩] 2] := by
    decide +kernel
  have hholds : Holds respawnLoop none :=
    Run.invariant (P := WellFormed) (fun s op h hok => step_wellFormed respawn_lawful h hok)
      (new_holds fun _ => 0) hadm
  refine ⟨hholds, ⟨List.replicate sizeofIoEvent 0, List.replicate sizeofIoEvent 0, ?_⟩, ?_, ?_, ?_, ?_, ?_⟩
  · decide +kernel
  · decide +kernel
  · decide +kernel
  · decide +kernel
  · decide +kernel
  · decide +kernel

/-- **A pass that does not end**: the event of the second descriptor is never
called, though it is ready and nobody removes it. -/
theorem respawn_never_ends :
    Lawful respawn ∧ WellFormed respawnLoop ∧ respawnLoop.Polled ∧
      respawnLoop.served = [⟨3, 1, 1⟩, ⟨4, 1, 1⟩] ∧ respawnLoop.chain (pollKey 4 1) = [1] ∧
      ∀ fuel, (dispatchIo respawn fuel respawnLoop).1 = .unfinished ∧
        (dispatchIo respawn fuel respawnLoop).2.quit = false ∧
        1 ∈ (dispatchIo respawn fuel respawnLoop).2.serials ∧
        1 ∉ removals (dispatchIo respawn fuel respawnLoop).2.log ∧
        Mark.called 1 ∉ (dispatchIo respawn fuel respawnLoop).2.log := by
  have h := respawnLoop_respawning
  refine ⟨respawn_lawful, h.holds, by decide +kernel, by decide +kernel, by decide +kernel, fun fuel => ?_⟩
  obtain ⟨s', event', hres, hs'⟩ := h.dispatchKey_eq (flagFromLibc 1) fuel
  have hfirst : respawnLoop.ioHandler.firstId (pollKey 3 1) = 0 := by decide +kernel
  have hfds : dispatchFds respawn fuel respawnLoop.pollfds respawnLoop.pollRet respawnLoop =
      (.unfinished, [⟨3, 1, 1⟩, ⟨4, 1, 1⟩], s') := by
    show dispatchFds respawn fuel [⟨3, 1, 1⟩, ⟨4, 1, 1⟩] 2 respawnLoop = _
    rw [dispatchFds, h.quit, if_neg (by decide), if_neg (by decide), if_neg (by decide), hfirst, hres]
  have hpass : dispatchIo respawn fuel respawnLoop =
      (.unfinished, { s' with pollfds := [⟨3, 1, 1⟩, ⟨4, 1, 1⟩] }) := by
    rw [dispatchIo, if_neg (by decide +kernel), hfds]
  rw [hpass]
  have hmem : (1 : ℤ) ∈ s'.ioHandler.live := by simp [hs'.live_eq]
  refine ⟨rfl, hs'.quit, IoLoop.mem_serials.mpr ⟨1, hmem, hs'.second⟩, fun hask => ?_, hs'.waiting⟩
  have hask' : s'.serial 1 ∈ removals s'.log := by
    rw [hs'.second]
    exact hask
  exact absurd (hs'.holds.asked 1 hmem hask') (by simp)

end IoLoop

end Fcitx
