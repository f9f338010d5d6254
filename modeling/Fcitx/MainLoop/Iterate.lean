/-
# An iteration of the main loop

`fcitx_mainloop_iterate` prepares, polls and dispatches. When a timeout is due, the
poll is left out, and with it the IO events: no descriptor is found ready, and a
timeout that is due all the time keeps the IO events from ever being called.

Key definitions: `MainLoop.prepare`, `MainLoop.poll`, `MainLoop.iterate`, `MainLoop.ServesReady`.
Key theorems: `MainLoop.iterate_total`, `MainLoop.servesReady_iff`, `MainLoop.Starving.iterates`.
-/
import Fcitx.MainLoop.Combined

namespace Fcitx

open Mark

namespace MainLoop

/-- `foreach_poll_key`; the flags fit into the `short` of `events`. -/
def pollFdOf (key : Bytes) : PollFd :=
  ⟨(ByteMem.ofLeBytes (key.take 4) : ℤ).bmod 0x100000000, ByteMem.ofLeBytes ((key.drop 4).take 4), 0⟩

/-- `POLLIN` -/
def pollIn : ℕ := 1

/-- The `pollfds` that `fcitx_mainloop_prepare` makes. -/
def rebuilt (m : MainLoop) : List PollFd :=
  ⟨m.wakeupPipe, pollIn, 0⟩ :: m.io.ioHandler.keys.map fun entry => pollFdOf entry.1

/-- `fcitx_mainloop_prepare`; `rebuildPollfds` is set by `fcitx_mainloop_new`, and nothing clears it. -/
def prepare (m : MainLoop) : Option MainLoop :=
  if m.quit then some m
  else m.timeouts.prepareTimeouts.map fun r =>
    { m with timeouts := r.2, nextTimeout := r.1, io := { m.io with pollfds := m.rebuilt } }

/-- `fcitx_mainloop_poll`, where `ppoll` finds the `revents` that `ready` says for a descriptor and its events.
It does not fail: a signal ends it only while nothing is ready, and then the result is 0. -/
def poll (ready : ℤ → ℕ → ℕ) (m : MainLoop) : ℤ × MainLoop :=
  let m := m.onIo fun io => { io with pollRet := 0 }
  if m.quit then (-1, m)
  else if m.nextTimeout = 0 then (0, m)
  else
    let pollfds := m.io.pollfds.map fun pfd => { pfd with revents := ready pfd.fd pfd.events }
    let pollRet : ℤ := (IoLoop.readyFds pollfds).length
    (pollRet, m.onIo fun io => { io with pollfds := pollfds, pollRet := pollRet })

/-- `fcitx_mainloop_dispatch`: how the pass over the IO events ended. -/
def dispatch (callbacks : Callbacks) (fuel : ℕ) (m : MainLoop) : Option (PassEnd × MainLoop) :=
  if m.quit then some (.stopped, m)
  else (dispatchTimeout callbacks m).map fun r => dispatchIo callbacks fuel r.2

/-- `fcitx_mainloop_iterate` -/
def iterate (callbacks : Callbacks) (ready : ℤ → ℕ → ℕ) (fuel : ℕ) (m : MainLoop) : Option (PassEnd × MainLoop) :=
  m.prepare.bind fun m =>
    let (r, m) := m.poll ready
    if r < 0 then some (.stopped, m) else dispatch callbacks fuel m

/-- Between two calls of the main loop no callback runs. -/
structure WellFormed (m : MainLoop) : Prop where
  timeouts : m.timeouts.WellFormed
  io : m.io.WellFormed
  synced : Synced m

variable {m m' m₁ m₂ : MainLoop} {callbacks : Callbacks} {ready : ℤ → ℕ → ℕ} {fuel : ℕ}

/-! ### The descriptors -/

/-- The descriptor and the flags of a key. -/
theorem pollFdOf_pollKey {fd : ℤ} {flag : ℕ} (hfd : -0x80000000 ≤ fd) (hfd' : fd < 0x80000000)
    (hflag : flag < 0x100000000) : pollFdOf (pollKey fd flag) = ⟨fd, flag, 0⟩ := by
  have hlen : (ByteMem.leBytes 4 (fd % 0x100000000).toNat).length = 4 := ByteMem.length_leBytes _ _
  have hhead : (pollKey fd flag).take 4 = ByteMem.leBytes 4 (fd % 0x100000000).toNat := by
    rw [pollKey, List.take_left' hlen]
  have htail : ((pollKey fd flag).drop 4).take 4 = ByteMem.leBytes 4 flag := by
    rw [pollKey, List.drop_left' hlen, List.take_of_length_le (by rw [ByteMem.length_leBytes])]
  have hfdNat : ((fd % 0x100000000).toNat % 256 ^ 4 : ℕ) = (fd % 0x100000000).toNat := Nat.mod_eq_of_lt (by omega)
  have hfdInt : ((fd % 0x100000000).toNat : ℤ) = fd % 0x100000000 := Int.toNat_of_nonneg (by omega)
  unfold pollFdOf
  rw [hhead, htail, ByteMem.ofLeBytes_leBytes, ByteMem.ofLeBytes_leBytes, hfdNat, hfdInt,
    ByteMem.bmod_emod hfd hfd', Nat.mod_eq_of_lt (by omega)]

/-- The flags of libc are few. -/
theorem flagToLibc_lt (flag : ℕ) : flagToLibc flag < 0x100000000 := by
  unfold flagToLibc
  split_ifs <;> decide

/-- A descriptor with an event is polled. -/
theorem mem_rebuilt {fd : ℤ} {flag e : ℕ} (hfd : -0x80000000 ≤ fd) (hfd' : fd < 0x80000000)
    (he : e ∈ m.io.chain (pollKey fd (flagToLibc flag))) : ⟨fd, flagToLibc flag, 0⟩ ∈ m.rebuilt := by
  obtain ⟨i, hi, -⟩ := IoLoop.mem_chain.mp he
  have hkey : pollKey fd (flagToLibc flag) ∈ Assoc.keys m.io.ioHandler.keys := by
    by_contra hout
    rw [HandlerTable.ids_of_none (Assoc.lookup_eq_none_iff.mpr hout)] at hi
    exact absurd hi List.not_mem_nil
  obtain ⟨entry, hentry, hname⟩ := List.mem_map.mp hkey
  refine List.mem_cons_of_mem _ (List.mem_map.mpr ⟨entry, hentry, ?_⟩)
  rw [hname]
  exact pollFdOf_pollKey hfd hfd' (flagToLibc_lt flag)

end MainLoop

/-! ### Passes over the IO events -/

namespace IoLoop

variable {s : IoLoop} {callback : Callback} {e : ℕ}

/-- Actions leave what was polled alone. -/
theorem act_polled (running : Option ℕ) (s : IoLoop) (a : IoAction) :
    (s.act running a).pollfds = s.pollfds ∧ (s.act running a).pollRet = s.pollRet := by
  cases a with
  | register => exact ⟨rfl, rfl⟩
  | remove event =>
    unfold act removeIoEvent
    dsimp only
    split <;> exact ⟨rfl, rfl⟩
  | quit => exact ⟨rfl, rfl⟩

theorem exec_polled (running : Option ℕ) (s : IoLoop) (as : List IoAction) :
    (Run.exec (act running) s as).pollfds = s.pollfds ∧ (Run.exec (act running) s as).pollRet = s.pollRet := by
  induction as generalizing s with
  | nil => exact ⟨rfl, rfl⟩
  | cons a as ih =>
    obtain ⟨hfds, hret⟩ := ih (s.act running a)
    obtain ⟨hfds', hret'⟩ := act_polled running s a
    exact ⟨hfds.trans hfds', hret.trans hret'⟩

theorem registrations_ioeventFree (s : IoLoop) (event : ℤ) : registrations (s.ioeventFree event) = [] := by
  unfold ioeventFree
  split <;> rfl

/-- Each new number goes with a mark. -/
theorem act_registrations (running : Option ℕ) (s : IoLoop) (a : IoAction) :
    (s.act running a).fresh + (registrations s.log).length =
      s.fresh + (registrations (s.act running a).log).length := by
  cases a with
  | register fd flag destroyNotify malloc =>
    show s.fresh + 1 + _ = s.fresh + (registrations (s.log ++ [.registered _])).length
    rw [registrations_append, List.length_append, Nat.add_assoc, Nat.add_comm 1]
    rfl
  | remove event =>
    have hfreed : ∀ (s : IoLoop) (freed : List (ℤ × Bytes)),
        registrations (freed.flatMap fun e => s.ioeventFree e.1) = [] := by
      intro s freed
      induction freed with
      | nil => rfl
      | cons e freed ih => rw [List.flatMap_cons, registrations_append, registrations_ioeventFree, ih, List.append_nil]
    unfold act removeIoEvent
    dsimp only
    split
    · show s.fresh + _ = s.fresh + (registrations (s.log ++ [.removed running (s.serial event)] ++ _)).length
      rw [registrations_append, registrations_append, hfreed, List.append_nil]
      show _ = s.fresh + (registrations s.log ++ []).length
      rw [List.append_nil]
    · show s.fresh + _ = s.fresh + (registrations (s.log ++ [.removed running (s.serial event)])).length
      rw [registrations_append]
      show _ = s.fresh + (registrations s.log ++ []).length
      rw [List.append_nil]
  | quit => rfl

theorem exec_registrations (running : Option ℕ) (s : IoLoop) (as : List IoAction) :
    (Run.exec (act running) s as).fresh + (registrations s.log).length =
      s.fresh + (registrations (Run.exec (act running) s as).log).length := by
  induction as generalizing s with
  | nil => rfl
  | cons a as ih =>
    have hfirst := act_registrations running s a
    have hrest := ih (s.act running a)
    rw [Run.exec_cons]
    omega

/-- An event of a descriptor that is served is called, unless it is removed before its turn. -/
theorem FdsLaw.called_or_removed {pollfds : List PollFd} {before t : List Mark} (h : FdsLaw s pollfds before t)
    {pfd : PollFd} (hpfd : pfd ∈ pollfds) (he : e ∈ s.chain (pollKey pfd.fd pfd.events)) :
    .called e ∈ t ∨ e ∈ removals before ∨ e ∈ removals t := by
  induction pollfds generalizing before t with
  | nil => exact absurd hpfd List.not_mem_nil
  | cons first pollfds ih =>
    obtain ⟨u, v, rfl, hserved, hrest⟩ := h
    rw [List.mem_append, removals_append, List.mem_append]
    rcases List.mem_cons.mp hpfd with rfl | hpfd
    · by_cases hcalled : .called e ∈ u
      · exact Or.inl (Or.inl hcalled)
      · rw [hserved.called e he, not_and_or, not_not, not_not] at hcalled
        rcases hcalled with hbefore | ⟨d, -, hremoved⟩
        · exact Or.inr (Or.inl hbefore)
        · exact Or.inr (Or.inr (Or.inl (mem_removals.mpr ⟨_, hremoved⟩)))
    · have hlater := ih hrest hpfd
      rw [removals_append, List.mem_append] at hlater
      tauto

end IoLoop

namespace MainLoop

variable {m m' m₁ m₂ : MainLoop} {callbacks : Callbacks} {ready : ℤ → ℕ → ℕ} {fuel : ℕ}

/-! ### The passes of an iteration -/

/-- What was done from outside keeps the IO events well formed. -/
theorem OutsideIo.acted (h : OutsideIo m m') (hm : m.io.WellFormed) :
    ∃ t, m'.io.WellFormed ∧ IoLoop.Acted none m.io m'.io t := by
  obtain ⟨as, has, heq⟩ := h
  obtain ⟨t, hholds, hacted⟩ := IoLoop.Holds.acts hm (fun r hr => absurd hr (by simp)) has
  rw [← heq] at hholds hacted
  exact ⟨t, hholds, hacted⟩

theorem OutsideTimeouts.wellFormed (h : OutsideTimeouts m m') (hm : m.timeouts.WellFormed) :
    m'.timeouts.WellFormed := by
  obtain ⟨as, has, heq⟩ := h
  obtain ⟨ys, t, hholds, -⟩ := TimeoutLoop.Holds.acts hm (fun r hr => absurd hr (by simp)) has
  rw [← heq] at hholds
  exact hholds.wellFormed

/-- **The pass over the timeouts** comes back. -/
theorem dispatchTimeout_spec (hc : callbacks.Lawful) (h : WellFormed m) :
    ∃ completed m', dispatchTimeout callbacks m = some (completed, m') ∧ WellFormed m' ∧
      m'.io.pollfds = m.io.pollfds ∧ m'.io.pollRet = m.io.pollRet ∧
      ∃ t, IoLoop.Acted none m.io m'.io t ∧ m'.io.fresh = m.io.fresh + (registrations t).length := by
  obtain ⟨callback, hlawful, hres, hrest⟩ := dispatchTimeout_refines hc h.synced
  obtain ⟨completed, s', hcode, hs', -⟩ := TimeoutLoop.dispatchTimeout_spec hlawful h.timeouts
  rw [hcode] at hres
  obtain ⟨r, hr, heq⟩ := Option.map_eq_some_iff.mp hres.symm
  obtain ⟨rfl, rfl⟩ := Prod.mk.inj heq
  obtain ⟨hout, hsame⟩ := hrest r hr
  obtain ⟨t, hio, hacted⟩ := hout.acted h.io
  obtain ⟨as, -, hexec⟩ := hout
  obtain ⟨hfds, hret⟩ := IoLoop.exec_polled none m.io as
  have hfresh := IoLoop.exec_registrations none m.io as
  rw [← hexec] at hfds hret hfresh
  rw [hacted.log, registrations_append, List.length_append] at hfresh
  exact ⟨r.1, r.2, hr, ⟨hs', hio, hsame.synced⟩, hfds, hret, t, hacted, by omega⟩

/-- **The pass over the IO events.** -/
theorem dispatchIo_spec (hc : callbacks.Lawful) (fuel : ℕ) (h : WellFormed m) (hpoll : m.io.Polled) :
    WellFormed (dispatchIo callbacks fuel m).2 ∧
      ((dispatchIo callbacks fuel m).1 = .stopped → (dispatchIo callbacks fuel m).2.quit = true) ∧
      ∃ t, (dispatchIo callbacks fuel m).2.io.log = m.io.log ++ t ∧
        ((dispatchIo callbacks fuel m).1 = .finished → IoLoop.FdsLaw m.io m.io.served [] t) ∧
        ((dispatchIo callbacks fuel m).1 = .unfinished → fuel ≤ m.io.fresh + (registrations t).length) := by
  obtain ⟨callback, hlawful, hres, hout, hsame⟩ := dispatchIo_refines hc fuel h.synced
  obtain ⟨t, hio, hlog, hfin, hunf⟩ := IoLoop.dispatchIo_spec hlawful h.io hpoll fuel
  have hstop := @IoLoop.dispatchIo_stopped callback fuel m.io
  rw [hres] at hio hlog hfin hunf hstop
  exact ⟨⟨hout.wellFormed h.timeouts, hio, hsame.synced⟩, hstop, t, hlog, fun hdone => (hfin hdone).fds, hunf⟩

/-! ### The iteration -/

/-- The loop before its passes: what the poll has found. -/
structure Polls (ready : ℤ → ℕ → ℕ) (m m₁ : MainLoop) : Prop where
  wellFormed : WellFormed m₁
  quit : m₁.quit = false
  timeouts : m₁.timeouts = m.timeouts.getTime.2
  log : m₁.io.log = m.io.log
  fresh : m₁.io.fresh = m.io.fresh
  chain : ∀ key, m₁.io.chain key = m.io.chain key
  polled : m₁.io.Polled
  /-- a timeout that is due: the poll is left out -/
  due : (∃ e ∈ m.timeouts.timeouts, (m.timeouts.eventAt e).time ≤ m.timeouts.clock m.timeouts.ticks) →
    m₁.io.pollRet = 0
  idle : (¬ ∃ e ∈ m.timeouts.timeouts, (m.timeouts.eventAt e).time ≤ m.timeouts.clock m.timeouts.ticks) →
    m₁.io.pollfds = m.rebuilt.map (fun pfd => { pfd with revents := ready pfd.fd pfd.events }) ∧
      m₁.io.pollRet = (IoLoop.readyFds m₁.io.pollfds).length

/-- The loop after prepare and poll. -/
def waited (m : MainLoop) (nextTimeout : ℤ) (pollfds : List PollFd) (pollRet : ℤ) : MainLoop :=
  { m with
    timeouts := m.timeouts.getTime.2, nextTimeout := nextTimeout
    io := { m.io with pollfds := pollfds, pollRet := pollRet } }

theorem WellFormed.waited (h : WellFormed m) (nextTimeout : ℤ) (pollfds : List PollFd) (pollRet : ℤ) :
    WellFormed (m.waited nextTimeout pollfds pollRet) :=
  ⟨h.timeouts.getTime, IoLoop.Holds.setPollfds h.io pollfds pollRet m.io.quit, h.synced⟩

theorem poll_waited (ready : ℤ → ℕ → ℕ) (hquit : m.quit = false) (nextTimeout pollRet : ℤ) (pollfds : List PollFd) :
    (m.waited nextTimeout pollfds pollRet).poll ready =
      if nextTimeout = 0 then (0, m.waited nextTimeout pollfds 0)
      else
        let pollfds := pollfds.map fun pfd => { pfd with revents := ready pfd.fd pfd.events }
        (((IoLoop.readyFds pollfds).length : ℤ), m.waited nextTimeout pollfds (IoLoop.readyFds pollfds).length) := by
  have hstill : ((m.waited nextTimeout pollfds pollRet).onIo fun io => { io with pollRet := 0 }).quit = false := hquit
  unfold poll
  dsimp only
  rw [hstill, if_neg (by decide)]
  rfl

/-- **Prepare and poll.** -/
theorem exists_polls (ready : ℤ → ℕ → ℕ) (h : WellFormed m) (hquit : m.quit = false)
    (hnow : 0 ≤ m.timeouts.clock m.timeouts.ticks) :
    ∃ m₁, Polls ready m m₁ ∧ ∀ callbacks fuel,
      iterate callbacks ready fuel m = (dispatchTimeout callbacks m₁).map fun r => dispatchIo callbacks fuel r.2 := by
  obtain ⟨d, hprepare, hsleeps⟩ := TimeoutLoop.prepareTimeouts_spec h.timeouts hnow
  have hdue : d = 0 ↔ ∃ e ∈ m.timeouts.timeouts, (m.timeouts.eventAt e).time ≤ m.timeouts.clock m.timeouts.ticks :=
    hsleeps.zero_iff.trans TimeoutLoop.exists_mem_timesLeft
  have hprepared : m.prepare = some (m.waited d m.rebuilt m.io.pollRet) := by
    rw [prepare, hquit, if_neg (by decide), hprepare]
    rfl
  have hiterate : ∀ callbacks fuel pollfds pollRet, 0 ≤ pollRet →
      (m.waited d m.rebuilt m.io.pollRet).poll ready = (pollRet, m.waited d pollfds pollRet) →
      iterate callbacks ready fuel m =
        (dispatchTimeout callbacks (m.waited d pollfds pollRet)).map fun r => dispatchIo callbacks fuel r.2 := by
    intro callbacks fuel pollfds pollRet hret hpoll
    have hstill : (m.waited d pollfds pollRet).quit = false := hquit
    rw [iterate, hprepared, Option.bind_some, hpoll]
    dsimp only
    rw [if_neg (by omega), dispatch, hstill, if_neg (by decide)]
  have hpoll := poll_waited ready hquit d m.io.pollRet m.rebuilt
  by_cases hzero : d = 0
  · rw [if_pos hzero] at hpoll
    refine ⟨m.waited d m.rebuilt 0, ⟨h.waited _ _ _, hquit, rfl, rfl, rfl, fun _ => rfl, Or.inl le_rfl, fun _ => rfl,
      fun hno => absurd (hdue.mp hzero) hno⟩, fun callbacks fuel => hiterate callbacks fuel _ _ le_rfl hpoll⟩
  · rw [if_neg hzero] at hpoll
    set pollfds := m.rebuilt.map (fun pfd => { pfd with revents := ready pfd.fd pfd.events }) with hpollfds
    refine ⟨m.waited d pollfds (IoLoop.readyFds pollfds).length,
      ⟨h.waited _ _ _, hquit, rfl, rfl, rfl, fun _ => rfl, Or.inr le_rfl,
      fun hex => absurd (hdue.mpr hex) hzero, fun _ => ⟨rfl, rfl⟩⟩,
      fun callbacks fuel => hiterate callbacks fuel _ _ (Int.natCast_nonneg _) hpoll⟩

/-- **An iteration** from a loop that was polled: what it does to the IO events, when it comes to its end. -/
theorem Polls.passes (hp : Polls ready m m₁) (hc : callbacks.Lawful) (fuel : ℕ) :
    ∃ fin m', (dispatchTimeout callbacks m₁).map (fun r => dispatchIo callbacks fuel r.2) = some (fin, m') ∧
      WellFormed m' ∧ (fin = .stopped → m'.quit = true) ∧ ∃ t u, m'.io.log = m.io.log ++ (t ++ u) ∧
        (fin = .unfinished → fuel ≤ m.io.fresh + (registrations (t ++ u)).length) ∧
        (fin = .finished → 0 < m₁.io.pollRet → ∀ pfd ∈ IoLoop.readyFds m₁.io.pollfds,
          ∀ e ∈ m.io.chain (pollKey pfd.fd pfd.events), .called e ∈ t ++ u ∨ e ∈ removals (t ++ u)) := by
  obtain ⟨completed, m₂, hres, hm₂, hfds, hret, t, hacted, hfresh⟩ := dispatchTimeout_spec hc hp.wellFormed
  have hpolled : m₂.io.Polled := by
    unfold IoLoop.Polled
    rw [hfds, hret]
    exact hp.polled
  obtain ⟨hm', hstop, u, hlog, hfin, hunf⟩ := dispatchIo_spec hc fuel hm₂ hpolled
  refine ⟨_, _, by rw [hres]; rfl, hm', hstop, t, u, ?_, fun hno => ?_, fun hdone hpos pfd hpfd e he => ?_⟩
  · rw [hlog, hacted.log, hp.log, List.append_assoc]
  · have hle := hunf hno
    rw [hfresh, hp.fresh] at hle
    rw [registrations_append, List.length_append]
    omega
  · have hserved : m₂.io.served = IoLoop.readyFds m₁.io.pollfds := by
      rw [IoLoop.served, hret, hfds, if_neg (by omega)]
    obtain ⟨added, hchain, -⟩ := hacted.chain (pollKey pfd.fd pfd.events)
    rw [hp.chain] at hchain
    rw [List.mem_append, removals_append, List.mem_append]
    by_cases hgone : e ∈ removals t
    · exact Or.inr (Or.inl hgone)
    · have hstill : e ∈ m₂.io.chain (pollKey pfd.fd pfd.events) := by
        rw [hchain]
        exact List.mem_append_left _ (List.mem_filter.mpr ⟨he, decide_eq_true fun hmem => absurd hmem hgone⟩)
      have hlaw := hfin hdone
      rw [hserved] at hlaw
      rcases hlaw.called_or_removed hpfd hstill with hcalled | hbefore | hremoved
      · exact Or.inl (Or.inr hcalled)
      · exact absurd hbefore List.not_mem_nil
      · exact Or.inr (Or.inr hremoved)

end MainLoop

namespace TimeoutLoop

variable {callback : Callback} {s : TimeoutLoop}

theorem removals_removeTimeoutEvent (s : TimeoutLoop) (event : ℕ) :
    removals (s.removeTimeoutEvent event).log = removals s.log ∧ (s.removeTimeoutEvent event).clock = s.clock := by
  unfold removeTimeoutEvent
  dsimp only
  split
  · unfold release
    dsimp only
    split
    · exact ⟨by rw [mark, removals_append]; exact List.append_nil _, rfl⟩
    · exact ⟨rfl, rfl⟩
  · exact ⟨rfl, rfl⟩

theorem removals_setTimeEvent (s : TimeoutLoop) (event : ℕ) :
    removals (s.setTimeEvent event).log = removals s.log ∧ (s.setTimeEvent event).clock = s.clock := by
  unfold setTimeEvent
  split
  · exact ⟨rfl, rfl⟩
  · refine ⟨?_, rfl⟩
    show removals (s.log ++ [.clock _]) = _
    rw [removals_append]
    exact List.append_nil _

/-- Settling an event asks for no removal. -/
theorem removals_settle (s : TimeoutLoop) (event : ℕ) :
    removals (s.settle event).log = removals s.log ∧ (s.settle event).clock = s.clock := by
  unfold settle
  dsimp only
  split
  · exact removals_removeTimeoutEvent ((s.unref event).2.ref event) event
  · split
    · exact removals_setTimeEvent (s.unref event).2 event
    · exact removals_removeTimeoutEvent (s.unref event).2 event

/-- What a pass, completed or not, does to the events known before. -/
theorem dispatchTimeout_passed (hc : Lawful callback) (h : WellFormed s) :
    ∃ completed s' t, dispatchTimeout callback s = some (completed, s') ∧
      Passed s.getTime.2 s' s.timeouts s'.timeouts t := by
  have hread := h.getTime
  obtain ⟨completed, s', ys, t, hres, hys, hpassed, -⟩ := dispatchFrom_spec hc (s.clock s.ticks)
    (fun e => (s.getTime.2.eventAt e).time < s.clock s.ticks) (s.getTime.2.fresh + 1) [] s.timeouts s.getTime.2 hread
    hread.first.2 fun _ _ => Iff.rfl
  rw [← hys.timeouts_eq] at hpassed
  exact ⟨completed, s', t, (dispatchTimeout_eq callback h).trans hres, hpassed⟩

end TimeoutLoop

namespace MainLoop

variable {m m' m₁ m₂ : MainLoop} {callbacks : Callbacks} {ready : ℤ → ℕ → ℕ} {fuel : ℕ}

/-! ### Callbacks that do nothing -/

/-- Callbacks that do nothing. -/
def idle : Callbacks := ⟨fun _ _ => [], fun _ _ _ => []⟩

theorem idle_lawful : idle.Lawful := ⟨fun _ _ => trivial, fun _ _ _ => trivial⟩

/-- What a pass leaves when nobody does anything. -/
structure Idled (m m' : MainLoop) : Prop where
  io : m'.io = m.io
  removals : removals m'.timeouts.log = removals m.timeouts.log
  clock : m'.timeouts.clock = m.timeouts.clock

theorem dispatchTimeoutFrom_idle (now : ℤ) (fuel : ℕ) :
    ∀ node m r, dispatchTimeoutFrom idle now fuel node m = some r → Idled m r.2 := by
  induction fuel with
  | zero => exact fun node m r h => absurd h (by simp [dispatchTimeoutFrom])
  | succ fuel ih =>
    intro node m r h
    rcases node with _ | _ | event
    · exact absurd h (by simp [dispatchTimeoutFrom])
    · obtain rfl := Option.some.inj h
      exact ⟨rfl, rfl, rfl⟩
    · rw [dispatchTimeoutFrom] at h
      by_cases hquit : m.quit = true
      · rw [if_pos hquit] at h
        obtain rfl := Option.some.inj h
        exact ⟨rfl, rfl, rfl⟩
      rw [if_neg hquit] at h
      by_cases hfreed : m.timeouts.allocated event = false
      · rw [if_pos hfreed] at h
        exact absurd h (by simp)
      rw [if_neg hfreed] at h
      by_cases hdue : (m.timeouts.eventAt event).time < now
      · rw [if_pos hdue] at h
        dsimp only at h
        set m₁ := invokeTimeout idle (m.onTimeouts (·.ref event)) event with hm₁
        by_cases hgone : m₁.timeouts.allocated event = false
        · rw [if_pos hgone] at h
          exact absurd h (by simp)
        rw [if_neg hgone] at h
        obtain ⟨hio, hremovals, hclock⟩ := ih _ _ r h
        obtain ⟨hremovals', hclock'⟩ := TimeoutLoop.removals_settle m₁.timeouts event
        have hinvoked : removals m₁.timeouts.log = removals m.timeouts.log := by
          show removals (m.timeouts.log ++ [.called event] ++ [.returned event]) = _
          rw [removals_append, removals_append]
          exact (List.append_nil _).trans (List.append_nil _)
        exact ⟨hio, hremovals.trans (hremovals'.trans hinvoked), hclock.trans hclock'⟩
      · rw [if_neg hdue] at h
        exact ih _ m r h

/-- With a timeout that is due, no IO event is called. -/
theorem iterate_idle_of_due (ready : ℤ → ℕ → ℕ) (fuel : ℕ) (h : WellFormed m) (hquit : m.quit = false)
    (hnow : 0 ≤ m.timeouts.clock m.timeouts.ticks)
    (hdue : ∃ e ∈ m.timeouts.timeouts, (m.timeouts.eventAt e).time ≤ m.timeouts.clock m.timeouts.ticks) :
    ∃ m₁ completed m', Polls ready m m₁ ∧ dispatchTimeout idle m₁ = some (completed, m') ∧
      iterate idle ready fuel m = some (.finished, m') ∧ WellFormed m' ∧ m'.quit = false ∧
      m'.io.log = m.io.log := by
  obtain ⟨m₁, hp, hiterate⟩ := exists_polls ready h hquit hnow
  obtain ⟨completed, m', hres, hm', -⟩ := dispatchTimeout_spec idle_lawful hp.wellFormed
  have hio : m'.io = m₁.io := (dispatchTimeoutFrom_idle _ _ _ _ _ hres).io
  refine ⟨m₁, completed, m', hp, hres, ?_, hm', ?_, ?_⟩
  · have hret : m'.io.pollRet ≤ 0 := by rw [hio, hp.due hdue]
    rw [hiterate, hres, Option.map_some, dispatchIo, if_pos hret]
  · rw [quit, hio]
    exact hp.quit
  · rw [hio, hp.log]

/-! ### Who is served -/

/-- The events of each descriptor that is ready were called, but for those that were removed meanwhile. -/
def Serves (ready : ℤ → ℕ → ℕ) (m m' : MainLoop) : Prop :=
  ∃ t, m'.io.log = m.io.log ++ t ∧ ∀ (fd : ℤ) (flag : ℕ), -0x80000000 ≤ fd → fd < 0x80000000 →
    ready fd (flagToLibc flag) ≠ 0 →
      ∀ e ∈ m.io.chain (pollKey fd (flagToLibc flag)), .called e ∈ t ∨ e ∈ removals t

/-- Whatever the callbacks do, an iteration in which `quit` is not set serves what is ready; and it comes to its
end when they do not register IO events for ever. -/
def ServesReady (ready : ℤ → ℕ → ℕ) (m : MainLoop) : Prop :=
  ∀ callbacks : Callbacks, callbacks.Lawful →
    (∀ k, (∀ fuel fin m', iterate callbacks ready fuel m = some (fin, m') →
        (registrations m'.io.log).length ≤ k) →
      ∃ fuel fin m', iterate callbacks ready fuel m = some (fin, m') ∧ fin ≠ .unfinished) ∧
    ∀ fuel fin m', iterate callbacks ready fuel m = some (fin, m') → fin ≠ .unfinished → m'.quit = false →
      Serves ready m m'

theorem not_servesReady_of_due {fd : ℤ} {flag : ℕ} (h : WellFormed m) (hquit : m.quit = false)
    (hnow : 0 ≤ m.timeouts.clock m.timeouts.ticks)
    (hdue : ∃ e ∈ m.timeouts.timeouts, (m.timeouts.eventAt e).time ≤ m.timeouts.clock m.timeouts.ticks)
    (hfd : -0x80000000 ≤ fd) (hfd' : fd < 0x80000000) (hready : ready fd (flagToLibc flag) ≠ 0)
    (hevents : m.io.chain (pollKey fd (flagToLibc flag)) ≠ []) : ¬ ServesReady ready m := by
  intro hserves
  obtain ⟨e, he⟩ := List.exists_mem_of_ne_nil _ hevents
  obtain ⟨-, -, m', -, -, hiterate, -, hquit', hlog⟩ := iterate_idle_of_due ready 0 h hquit hnow hdue
  obtain ⟨t, ht, hall⟩ := (hserves idle idle_lawful).2 0 _ m' hiterate (by decide) hquit'
  obtain rfl : t = [] := List.append_cancel_left (by rw [← ht, hlog, List.append_nil])
  rcases hall fd flag hfd hfd' hready e he with hno | hno
  · exact absurd hno List.not_mem_nil
  · exact absurd hno List.not_mem_nil

/-- **An iteration serves what is ready** exactly if no timeout is due when it prepares, or no descriptor that is
ready has an event. -/
theorem servesReady_iff (ready : ℤ → ℕ → ℕ) (h : WellFormed m) (hquit : m.quit = false)
    (hnow : 0 ≤ m.timeouts.clock m.timeouts.ticks) :
    ServesReady ready m ↔
      (¬ ∃ e ∈ m.timeouts.timeouts, (m.timeouts.eventAt e).time ≤ m.timeouts.clock m.timeouts.ticks) ∨
      ∀ (fd : ℤ) (flag : ℕ), -0x80000000 ≤ fd → fd < 0x80000000 → ready fd (flagToLibc flag) ≠ 0 →
        m.io.chain (pollKey fd (flagToLibc flag)) = [] := by
  constructor
  · intro hserves
    by_contra hno
    rw [not_or, not_not] at hno
    obtain ⟨hdue, hno⟩ := hno
    refine hno fun fd flag hfd hfd' hready => ?_
    by_contra hevents
    exact not_servesReady_of_due h hquit hnow hdue hfd hfd' hready hevents hserves
  · intro hcond callbacks hc
    obtain ⟨m₁, hp, hiterate⟩ := exists_polls ready h hquit hnow
    refine ⟨fun k hk => ?_, fun fuel fin m' hres hfin hstill => ?_⟩
    · obtain ⟨fin, m', hres, -, -, t, u, hlog, hunf, -⟩ := hp.passes hc (m.io.fresh + k + 1)
      rw [← hiterate] at hres
      refine ⟨_, fin, m', hres, fun hno => ?_⟩
      have hle := hunf hno
      have hregs := hk _ fin m' hres
      rw [hlog, registrations_append, List.length_append] at hregs
      omega
    · obtain ⟨fin', m'', hres', -, hstop, t, u, hlog, -, hserved⟩ := hp.passes hc fuel
      rw [← hiterate, hres] at hres'
      obtain ⟨rfl, rfl⟩ := Prod.mk.inj (Option.some.inj hres')
      refine ⟨t ++ u, hlog, fun fd flag hfd hfd' hready e he => ?_⟩
      rcases hcond with hnone | hnone
      · obtain ⟨hpollfds, hret⟩ := hp.idle hnone
        have hpfd : (⟨fd, flagToLibc flag, ready fd (flagToLibc flag)⟩ : PollFd) ∈ IoLoop.readyFds m₁.io.pollfds := by
          refine List.mem_filter.mpr ⟨?_, decide_eq_true hready⟩
          rw [hpollfds]
          exact List.mem_map.mpr ⟨_, mem_rebuilt hfd hfd' he, rfl⟩
        have hdone : fin = .finished := by
          cases fin with
          | finished => rfl
          | stopped => exact absurd (hstop rfl) (by rw [hstill]; decide)
          | unfinished => exact absurd rfl hfin
        refine hserved hdone ?_ _ hpfd e he
        rw [hret]
        exact Int.natCast_pos.mpr (List.length_pos_of_mem hpfd)
      · rw [hnone fd flag hfd hfd' hready] at he
        exact absurd he List.not_mem_nil

/-! ### Starvation -/

/-- A loop with a timeout that is due in each iteration. -/
structure Starving (m : MainLoop) : Prop where
  wellFormed : WellFormed m
  quit : m.quit = false
  clock : ∀ n, 0 ≤ m.timeouts.clock n
  due : ∃ e ∈ m.timeouts.timeouts, (m.timeouts.eventAt e).timeout = 0 ∧ (m.timeouts.eventAt e).repeats = true ∧
    (m.timeouts.eventAt e).time = 0

/-- The timeout is there again after an iteration. -/
theorem Starving.iterate (h : Starving m) (ready : ℤ → ℕ → ℕ) (fuel : ℕ) :
    ∃ m', m.iterate idle ready fuel = some (.finished, m') ∧ Starving m' ∧ m'.io.log = m.io.log := by
  obtain ⟨e, he, htimeout, hrepeats, htime⟩ := h.due
  have hnow := h.clock m.timeouts.ticks
  have hdue : ∃ e ∈ m.timeouts.timeouts, (m.timeouts.eventAt e).time ≤ m.timeouts.clock m.timeouts.ticks :=
    ⟨e, he, by rw [htime]; exact hnow⟩
  obtain ⟨m₁, completed, m', hp, hres, hiterate, hm', hquit', hlog⟩ :=
    iterate_idle_of_due ready fuel h.wellFormed h.quit hnow hdue
  refine ⟨m', hiterate, ⟨hm', hquit', fun n => ?_, e, ?_⟩, hlog⟩
  · rw [(dispatchTimeoutFrom_idle _ _ _ _ _ hres).clock]
    show 0 ≤ m₁.timeouts.clock n
    rw [hp.timeouts]
    exact h.clock n
  -- the pass over the timeouts, as one of their own
  obtain ⟨callback, hlawful, hrefines, -⟩ := dispatchTimeout_refines idle_lawful hp.wellFormed.synced
  obtain ⟨completed', s', t, hcode, hpassed⟩ := TimeoutLoop.dispatchTimeout_passed hlawful hp.wellFormed.timeouts
  rw [hcode, hres] at hrefines
  obtain ⟨-, rfl⟩ := Prod.mk.inj (Option.some.inj hrefines)
  have hremovals : removals t = [] := by
    have hsame := (dispatchTimeoutFrom_idle _ _ _ _ _ hres).removals
    rw [hpassed.log, removals_append] at hsame
    exact List.append_cancel_left (hsame.trans (List.append_nil _).symm)
  have heq : ∀ e, m₁.timeouts.getTime.2.eventAt e = m.timeouts.eventAt e := by rw [hp.timeouts]; exact fun e => rfl
  have hmem : e ∈ m₁.timeouts.timeouts := by rw [hp.timeouts]; exact he
  have hlt : e < m₁.timeouts.getTime.2.fresh := hp.wellFormed.timeouts.lt e hmem
  have hstays : e ∈ m'.timeouts.timeouts :=
    (hpassed.mem e hlt).mpr ⟨hmem, by simp [hremovals], fun _ => by rw [heq, hrepeats]⟩
  have htimeout' : (m'.timeouts.eventAt e).timeout = 0 := by rw [hpassed.timeout e hlt, heq, htimeout]
  refine ⟨hstays, htimeout', by rw [hpassed.repeats e hlt, heq, hrepeats], ?_⟩
  by_cases hcalled : e ∈ calls t
  · rcases hpassed.again e hcalled hstays with ⟨-, hzero⟩ | ⟨hne, -⟩
    · exact hzero
    · exact absurd htimeout' hne
  · rw [hpassed.time e hlt hcalled, heq, htime]

/-- Some iterations one after the other. -/
def iterates (callbacks : Callbacks) (ready : ℤ → ℕ → ℕ) (fuel : ℕ) : ℕ → MainLoop → Option MainLoop
  | 0, m => some m
  | n + 1, m => (m.iterate callbacks ready fuel).bind fun r => iterates callbacks ready fuel n r.2

/-- **Starvation**: no number of iterations calls an IO event. -/
theorem Starving.iterates (h : Starving m) (ready : ℤ → ℕ → ℕ) (fuel n : ℕ) :
    ∃ m', m.iterates idle ready fuel n = some m' ∧ m'.io.log = m.io.log := by
  induction n generalizing m with
  | zero => exact ⟨m, rfl, rfl⟩
  | succ n ih =>
    obtain ⟨m₁, hfirst, hstarving, hlog⟩ := h.iterate ready fuel
    obtain ⟨m', hres, hlog'⟩ := ih hstarving
    refine ⟨m', ?_, hlog'.trans hlog⟩
    rw [MainLoop.iterates, hfirst]
    exact hres

/-! ### Runs of the main loop -/

/-- What a program does from outside: take actions, start the loop and let it iterate. -/
inductive LoopOp where
  | act (a : LoopAction)
  | run
  | iterate (ready : ℤ → ℕ → ℕ) (fuel : ℕ)

def step (callbacks : Callbacks) (m : MainLoop) : LoopOp → MainLoop
  | .act a => m.act none none a
  | .run => { m with timeouts := { m.timeouts with quit := false }, io := { m.io with quit := false } }
  | .iterate ready fuel => ((m.iterate callbacks ready fuel).map Prod.snd).getD m

/-- The clock does not go below zero, and the loop goes on after an iteration when that has ended. -/
def Ok (callbacks : Callbacks) (m : MainLoop) : LoopOp → Prop
  | .act a => m.Allowed a
  | .run => True
  | .iterate ready fuel => 0 ≤ m.timeouts.clock m.timeouts.ticks ∧
      ∀ r ∈ m.iterate callbacks ready fuel, r.1 ≠ .unfinished

instance (callbacks : Callbacks) (m : MainLoop) : ∀ op, Decidable (m.Ok callbacks op)
  | .act a => inferInstanceAs (Decidable (m.Allowed a))
  | .run => .isTrue trivial
  | .iterate ready fuel => inferInstanceAs (Decidable (_ ∧ ∀ r ∈ m.iterate callbacks ready fuel, _))

theorem new_wellFormed (clock : ℕ → ℤ) (array : ByteMem) (wakeupPipe : ℤ) : WellFormed (new clock array wakeupPipe) :=
  ⟨(TimeoutLoop.new_holds clock).wellFormed, IoLoop.new_holds array, rfl⟩

theorem WellFormed.act (h : WellFormed m) {a : LoopAction} (hok : m.Allowed a) : WellFormed (m.act none none a) := by
  have hall : Run.Admissible (MainLoop.act none none) Allowed m [a] := ⟨hok, trivial⟩
  have htimeouts : Run.Admissible (TimeoutLoop.act none) TimeoutLoop.Allowed m.timeouts a.timeouts := by
    simpa using admissible_timeouts hall
  have hio : Run.Admissible (IoLoop.act none) IoLoop.Allowed m.io a.io := by
    simpa using admissible_io hall
  obtain ⟨ys, t, hys, -⟩ := TimeoutLoop.Holds.acts h.timeouts (fun r hr => absurd hr (by simp)) htimeouts
  obtain ⟨u, hu, -⟩ := IoLoop.Holds.acts h.io (fun r hr => absurd hr (by simp)) hio
  exact ⟨hys.wellFormed, hu, h.synced.act none none a⟩

/-- **An iteration** has a result, and keeps the loop well formed. -/
theorem iterate_total (hc : callbacks.Lawful) (ready : ℤ → ℕ → ℕ) (fuel : ℕ) (h : WellFormed m)
    (hnow : 0 ≤ m.timeouts.clock m.timeouts.ticks) :
    ∃ fin m', m.iterate callbacks ready fuel = some (fin, m') ∧ WellFormed m' := by
  by_cases hquit : m.quit = true
  · refine ⟨.stopped, m.onIo fun io => { io with pollRet := 0 }, ?_,
      h.timeouts, IoLoop.Holds.setPollfds h.io m.io.pollfds 0 m.io.quit, h.synced⟩
    have hstill : (m.onIo fun io => { io with pollRet := 0 }).quit = true := hquit
    rw [MainLoop.iterate, prepare, if_pos hquit, Option.bind_some, poll]
    dsimp only
    rw [if_pos hstill]
    exact if_pos (show (-1 : ℤ) < 0 by decide)
  · obtain ⟨m₁, hp, hiterate⟩ := exists_polls ready h (by simpa using hquit) hnow
    obtain ⟨fin, m', hres, hm', -⟩ := hp.passes hc fuel
    exact ⟨fin, m', by rw [hiterate, hres], hm'⟩

theorem step_wellFormed (hc : callbacks.Lawful) (h : WellFormed m) {op : LoopOp} (hok : m.Ok callbacks op) :
    WellFormed (m.step callbacks op) := by
  cases op with
  | act a => exact h.act hok
  | run =>
    exact ⟨⟨h.timeouts.ring, h.timeouts.live, h.timeouts.lt, h.timeouts.refcount, h.timeouts.asked,
      h.timeouts.removed_lt, h.timeouts.destroyed⟩, IoLoop.Holds.setPollfds h.io m.io.pollfds m.io.pollRet false, rfl⟩
  | iterate ready fuel =>
    obtain ⟨fin, m', hres, hm'⟩ := iterate_total hc ready fuel h hok.1
    rw [step, hres]
    exact hm'

/-- **The life of the main loop.** With callbacks that keep the promise, every run leaves it well formed. In such
a loop, an iteration serves what is ready exactly if no timeout is due when it prepares, or no descriptor
that is ready has an event. -/
theorem iterate_law (callbacks : Callbacks) (hc : callbacks.Lawful) :
    (∀ clock array wakeupPipe ops,
      Run.Admissible (step callbacks) (Ok callbacks) (new clock array wakeupPipe) ops →
        WellFormed (Run.exec (step callbacks) (new clock array wakeupPipe) ops)) ∧
      ∀ m, WellFormed m → m.quit = false → 0 ≤ m.timeouts.clock m.timeouts.ticks → ∀ ready,
        (ServesReady ready m ↔
          (¬ ∃ e ∈ m.timeouts.timeouts, (m.timeouts.eventAt e).time ≤ m.timeouts.clock m.timeouts.ticks) ∨
          ∀ (fd : ℤ) (flag : ℕ), -0x80000000 ≤ fd → fd < 0x80000000 → ready fd (flagToLibc flag) ≠ 0 →
            m.io.chain (pollKey fd (flagToLibc flag)) = []) := by
  refine ⟨fun clock array wakeupPipe ops ha => ?_, fun m h hquit hnow ready =>
    servesReady_iff ready h hquit hnow⟩
  exact Run.invariant (P := WellFormed) (fun m op h hok => step_wellFormed hc h hok)
    (new_wellFormed clock array wakeupPipe) ha

/-- A loop with an IO event on descriptor 7, and no timeout. -/
def quietLoop : MainLoop :=
  Run.exec (step idle) (new (fun n => n + 1) (fun _ => 0) 3) [.act (.registerIo 7 1 false 0), .run]

theorem servesReady_quietLoop : ServesReady (fun _ _ => 1) quietLoop :=
  ((iterate_law idle idle_lawful).2 quietLoop
    ((iterate_law idle idle_lawful).1 (fun n => n + 1) (fun _ => 0) 3 [.act (.registerIo 7 1 false 0), .run]
      (by decide +kernel)) rfl (by decide) _).mpr (Or.inl (by decide +kernel))

/-- A loop with an IO event on descriptor 7, and a timeout of 0 that repeats. -/
def zeroLoop : MainLoop :=
  Run.exec (act none none) (new (fun n => n + 1) (fun _ => 0) 3)
    [.registerIo 7 1 false 0, .registerTimeout 0 true false]

theorem zeroLoop_starving : Starving zeroLoop where
  wellFormed := (new_wellFormed _ _ _).act (a := .registerIo 7 1 false 0) (by decide +kernel) |>.act
    (a := .registerTimeout 0 true false) (by decide +kernel)
  quit := rfl
  clock n := Int.le_of_lt (Int.natCast_succ_pos n)
  due := ⟨0, by decide +kernel, rfl, rfl, rfl⟩

/-- Descriptor 7 is ready all the time, and its event is not called in any number of iterations. -/
theorem zeroLoop_starves : ¬ ServesReady (fun _ _ => 1) zeroLoop ∧
    ∀ fuel n, ∃ m', zeroLoop.iterates idle (fun _ _ => 1) fuel n = some m' ∧ .called 0 ∉ m'.io.log := by
  refine ⟨?_, fun fuel n => ?_⟩
  · obtain ⟨e, he, -, -, htime⟩ := zeroLoop_starving.due
    have hevents : zeroLoop.io.chain (pollKey 7 (flagToLibc 1)) ≠ [] := by decide +kernel
    exact not_servesReady_of_due zeroLoop_starving.wellFormed rfl (zeroLoop_starving.clock _)
      ⟨e, he, by rw [htime]; exact zeroLoop_starving.clock _⟩ (by decide) (by decide) (by decide) hevents
  · obtain ⟨m', hres, hlog⟩ := zeroLoop_starving.iterates (fun _ _ => 1) fuel n
    refine ⟨m', hres, ?_⟩
    rw [hlog]
    decide +kernel

end MainLoop

end Fcitx
