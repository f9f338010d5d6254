/-
# A dispatch pass over the IO events

`fcitx_mainloop_dispatch_io` walks over the events of each descriptor that is
ready while the callbacks change the table: an event that removes itself stays in
its place until its callback has returned, the others go at once, and new ones
join at the end. This module follows one event, and then the events of one
descriptor.

Key definitions: `IoLoop.Invoked`, `IoLoop.Settled`, `IoLoop.Passed`.
Key theorems: `IoLoop.visit_spec`, `IoLoop.dispatchKey_spec`.
-/
import Fcitx.MainLoop.Io

namespace Fcitx

open Mark

namespace IoLoop

variable {callback : Callback} {s s' s₁ s₂ : IoLoop} {event i j : ℤ} {t t' u : List Mark} {key : Bytes}
  {e r flags : ℕ}

/-! ### Starting and settling a callback -/

/-- **Starting a callback**: the event is counted once more. -/
theorem Holds.start (h : Holds s none) (hi : event ∈ s.ioHandler.live) :
    Holds ((s.ref event).mark (.called (s.serial event))) (some (s.serial event)) ∧
      Touched s ((s.ref event).mark (.called (s.serial event))) event [.called (s.serial event)] := by
  have hnot : s.serial event ∉ removals s.log := fun hask => absurd (h.asked event hi hask) (by simp)
  have hcount := h.refcount event hi
  rw [if_neg (by simp), if_neg hnot] at hcount
  have ht : Touched s ((s.ref event).mark (.called (s.serial event))) event [.called (s.serial event)] :=
    (ref_touched s event).trans (mark_touched _ event _)
  have hnot' : s.serial event ∉ removals ((s.ref event).mark (.called (s.serial event))).log := by
    rw [ht.log, removals_append]
    simpa [removals] using hnot
  refine ⟨h.touch ht ⟨fun e he => absurd he List.not_mem_nil, fun e => by simp, fun e => by simp⟩ hi
    (fun e he => by simp [Ne.symm he]) ?_ fun hask => absurd hask hnot', ht⟩
  rw [if_pos rfl, if_neg hnot']
  show ((s.ref event).eventAt event).refcount = _
  rw [ref_refcount, hcount]
  rfl

/-- What the call of an event does. -/
structure Invoked (s s₁ : IoLoop) (event : ℤ) (t : List Mark) : Prop where
  holds : Holds s₁ (some (s.serial event))
  log : s₁.log = s.log ++ (.called (s.serial event) :: t ++ [.returned (s.serial event)])
  fresh : s.fresh ≤ s₁.fresh
  notifies : ∀ e < s.fresh, s₁.notifies e = s.notifies e
  chain : ∀ key, ∃ added, s₁.chain key =
    (s.chain key).filter (fun e => e ∈ removals t → s.serial event = e) ++ added ∧
      Joiners s.fresh s₁.fresh t added
  stays : event ∈ s₁.ioHandler.live ∧ s₁.serial event = s.serial event
  removed : ∀ b e, .removed b e ∈ t →
    b = some (s.serial event) ∧ e < s₁.fresh ∧ (e ∈ s.serials ∨ s.fresh ≤ e)
  registered : ∀ e, .registered e ∈ t → s.fresh ≤ e
  calls : calls t = []

/-- **The call of an event.** -/
theorem invoke_spec (hc : Lawful callback) (h : Holds s none) (hi : event ∈ s.ioHandler.live) (flags : ℕ) :
    ∃ t, Invoked s ((s.ref event).invoke callback flags event) event t := by
  obtain ⟨hstart, ht⟩ := h.start hi
  set r := s.serial event with hr
  set s₀ := (s.ref event).mark (.called r) with hs₀
  have hserial : s₀.serial event = r := ht.serial event
  have hrun : ∀ d, some r = some d → d < s₀.fresh := fun d hd =>
    Option.some.inj hd ▸ ht.fresh ▸ h.lt event hi
  have hadm := hc event flags s₀
  rw [hserial] at hadm
  obtain ⟨t, hs₁, hacted⟩ := hstart.acts hrun hadm
  set s₁ := Run.exec (act (some r)) s₀ (callback event flags s₀) with hs₁'
  have hinvoke : (s.ref event).invoke callback flags event = s₁.mark (.returned r) := by
    have hsame : (s.ref event).serial event = r := (ref_touched s event).serial event
    rw [invoke, hsame]
  have hlive : event ∈ s₀.ioHandler.live := by
    rw [ht.table]
    exact hi
  obtain ⟨hstays, hstays'⟩ := hacted.stays event hlive (by rw [hserial])
  rw [hinvoke]
  refine ⟨t, hs₁.mark (.returned r) ⟨rfl, fun e => by simp, fun e => by simp⟩, ?_, ?_, fun e he => ?_,
    fun key => ?_, ⟨hstays, hstays'.trans hserial⟩, fun b e he => ?_, fun e he => ?_, hacted.calls⟩
  · show s₁.log ++ [.returned r] = _
    rw [hacted.log, ht.log, List.append_assoc, List.append_assoc]
    rfl
  · show s.fresh ≤ s₁.fresh
    rw [← ht.fresh]
    exact hacted.fresh
  · show s₁.notifies e = _
    rw [hacted.notifies e (by rw [ht.fresh]; exact he), ht.notifies]
  · obtain ⟨added, hchain, hjoined⟩ := hacted.chain key
    rw [ht.chain, ht.fresh] at *
    simp only [Option.some.injEq] at hchain
    exact ⟨added, hchain, hjoined⟩
  · obtain ⟨hb, hlt, hmem⟩ := hacted.removed b e he
    rw [ht.serials, ht.fresh] at hmem
    exact ⟨hb, hlt, hmem⟩
  · rw [← ht.fresh]
    exact hacted.registered e he

/-- What the dispatch does with an event whose callback has returned. -/
structure Settled (s s' : IoLoop) (event : ℤ) (u : List Mark) : Prop where
  holds : Holds s' none
  log : s'.log = s.log ++ u
  fresh : s'.fresh = s.fresh
  notifies : s'.notifies = s.notifies
  serial : ∀ j, s'.serial j = s.serial j
  marks : calls u = [] ∧ removals u = [] ∧ ∀ e, .registered e ∉ u
  /-- its removal was asked for: it goes now -/
  gone : s.serial event ∈ removals s.log →
    .freed (s.serial event) ∈ u ∧ s'.ioHandler = (s.ioHandler.removeByIdFull event).getD s.ioHandler
  stays : s.serial event ∉ removals s.log → s'.ioHandler = s.ioHandler

/-- **After the callback of an event.** -/
theorem settle_spec (h : Holds s (some (s.serial event))) (hi : event ∈ s.ioHandler.live) :
    (s.settle event).1 = s.ioHandler.next event ∧ ∃ u, Settled s (s.settle event).2 event u := by
  have hcount := h.refcount event hi
  rw [if_pos rfl] at hcount
  have hunref := unref_touched s event
  have hunrefCount := unref_refcount s event
  have hu : About (s.serial event) [] :=
    ⟨fun _ he => absurd he List.not_mem_nil, fun _ => rfl, fun _ => rfl⟩
  have hrun : ∀ e, e ≠ s.serial event → (none = some e ↔ some (s.serial event) = some e) :=
    fun e he => by simp [Ne.symm he]
  rw [settle]
  dsimp only
  by_cases hask : s.serial event ∈ removals s.log
  · -- its removal was asked for: the dispatch has the last count
    rw [if_pos hask] at hcount
    rw [if_pos (show (s.unref event).1 = 1 from hcount)]
    set s₂ := (s.unref event).2.ref event with hs₂
    have href : Touched s s₂ event [] := hunref.trans (ref_touched (s.unref event).2 event)
    have hone : (s₂.eventAt event).refcount = 1 := by
      rw [hs₂, ref_refcount, hunrefCount, hcount]
      rfl
    have ht : Touched s (s₂.unref event).2 event [] := href.trans (unref_touched s₂ event)
    have hid : ((s₂.unref event).2.eventAt event).id = event :=
      (congrArg (·.id) (ht.fields event)).trans (h.id_eq event hi)
    have hremove : s₂.removeIoEvent event = (s₂.unref event).2.removeByIdFull event := by
      rw [removeIoEvent]
      dsimp only
      rw [hid]
      exact if_pos hone
    have htable : HandlerTable.Inv (s₂.unref event).2.ioHandler := by
      rw [ht.table]
      exact h.table
    obtain ⟨hholds, -, hserial, -⟩ := h.release ht hu hi hrun
    obtain ⟨htab, -, hfresh, hnotifies, hlog⟩ := removeByIdFull_eq htable
      (by rw [ht.table]; exact h.freeFunc) (i := event) (by rw [ht.table]; exact hi)
    obtain ⟨hcalls, hremovals, hregistered, hfreed, -⟩ := ioeventFree_marks (s₂.unref event).2 event
    refine ⟨by rw [href.table], (s₂.unref event).2.ioeventFree event, ?_⟩
    rw [hremove]
    refine ⟨hholds, by rw [hlog, ht.log, List.append_nil], hfresh.trans ht.fresh,
      hnotifies.trans ht.notifies, hserial, ⟨hcalls, hremovals, hregistered⟩, fun _ => ⟨?_, ?_⟩,
      fun hno => absurd hask hno⟩
    · rw [← List.count_pos_iff, hfreed, if_pos (ht.serial event).symm]
      exact Nat.one_pos
    · rw [htab, ht.table]
  · rw [if_neg hask] at hcount
    have hne : ¬ (s.unref event).1 = 1 := by
      show ¬ (s.eventAt event).refcount = 1
      rw [hcount]
      decide
    rw [if_neg hne]
    have hask' : s.serial event ∉ removals (s.unref event).2.log := by
      rw [hunref.log, List.append_nil]
      exact hask
    have hholds : Holds (s.unref event).2 none := by
      refine h.touch hunref hu hi hrun ?_ fun hm => absurd hm hask'
      rw [if_neg hask', hunrefCount, hcount]
      rfl
    refine ⟨by rw [hunref.table], [], hholds, hunref.log, hunref.fresh, hunref.notifies, hunref.serial,
      ⟨rfl, rfl, fun _ => List.not_mem_nil⟩, fun hm => absurd hm hask, fun _ => hunref.table⟩

/-! ### A visit -/

/-- An event that removed itself is freed once its callback has returned. -/
def FreedAfterReturn (t : List Mark) : Prop :=
  ∀ e, .removed (some e) e ∈ t →
    ∃ before during after, t = before ++ .removed (some e) e :: (during ++ .freed e :: after) ∧
      .returned e ∈ during

theorem FreedAfterReturn.append (h : FreedAfterReturn t) (h' : FreedAfterReturn t') :
    FreedAfterReturn (t ++ t') := by
  intro e he
  rcases List.mem_append.mp he with he | he
  · obtain ⟨before, during, after, ht, hr⟩ := h e he
    refine ⟨before, during, after ++ t', ?_, hr⟩
    rw [ht]
    simp
  · obtain ⟨before, during, after, ht, hr⟩ := h' e he
    refine ⟨t ++ before, during, after, ?_, hr⟩
    rw [ht]
    simp

/-- What a part of a pass does to the registrations known before. -/
structure Passed (s s' : IoLoop) (t : List Mark) : Prop where
  log : s'.log = s.log ++ t
  fresh : s.fresh ≤ s'.fresh
  notifies : ∀ e < s.fresh, s'.notifies e = s.notifies e
  chain : ∀ key, ∃ added, s'.chain key = (s.chain key).filter (· ∉ removals t) ++ added ∧
    Joiners s.fresh s'.fresh t added
  removed_lt : ∀ e ∈ removals t, e < s'.fresh
  removed : ∀ e ∈ removals t, e ∈ s.serials ∨ s.fresh ≤ e
  registered : ∀ e, .registered e ∈ t → s.fresh ≤ e
  called : ∀ e, .called e ∈ t → e ∈ s.serials ∨ s.fresh ≤ e
  ends : FreedAfterReturn t

theorem Passed.refl (s : IoLoop) : Passed s s [] where
  log := (List.append_nil _).symm
  fresh := Nat.le_refl _
  notifies _ _ := rfl
  chain key := ⟨[], by simp, Joiners.nil _ _ _⟩
  removed_lt _ he := absurd he List.not_mem_nil
  removed _ he := absurd he List.not_mem_nil
  registered _ he := absurd he List.not_mem_nil
  called _ he := absurd he List.not_mem_nil
  ends _ he := absurd he List.not_mem_nil

/-- What is in the table later is what was in it before or is new. -/
theorem Passed.mem_serials (h : Passed s s₁ t) (hs : Holds s none) (hs₁ : Holds s₁ none)
    (he : e ∈ s₁.serials ∨ s₁.fresh ≤ e) : e ∈ s.serials ∨ s.fresh ≤ e := by
  rcases he with he | he
  · obtain ⟨key, hkey⟩ := hs₁.mem_serials_iff.mp he
    obtain ⟨added, hchain, hjoined⟩ := h.chain key
    rw [hchain] at hkey
    rcases List.mem_append.mp hkey with hkey | hkey
    · exact Or.inl (hs.mem_serials_iff.mpr ⟨key, List.mem_of_mem_filter hkey⟩)
    · exact Or.inr (hjoined.mem e hkey).1
  · exact Or.inr (Nat.le_trans h.fresh he)

theorem Passed.trans (h₁ : Passed s s₁ t) (h₂ : Passed s₁ s₂ t') (hs : Holds s none)
    (hs₁ : Holds s₁ none) : Passed s s₂ (t ++ t') where
  log := by rw [h₂.log, h₁.log, List.append_assoc]
  fresh := Nat.le_trans h₁.fresh h₂.fresh
  notifies e he := (h₂.notifies e (Nat.lt_of_lt_of_le he h₁.fresh)).trans (h₁.notifies e he)
  chain key := by
    obtain ⟨added, hchain, hjoined⟩ := h₁.chain key
    obtain ⟨added', hchain', hjoined'⟩ := h₂.chain key
    refine ⟨_, ?_, hjoined.trans hjoined' h₁.fresh h₂.fresh h₁.removed_lt⟩
    rw [hchain', hchain, List.filter_append, List.filter_filter, List.append_assoc]
    refine congrArg (· ++ _) (List.filter_congr fun x _ => ?_)
    rw [← Bool.decide_and, removals_append]
    refine decide_eq_decide.mpr ?_
    rw [List.mem_append, not_or, and_comm]
  removed_lt e he := by
    rw [removals_append, List.mem_append] at he
    exact he.elim (fun he => Nat.lt_of_lt_of_le (h₁.removed_lt e he) h₂.fresh) (h₂.removed_lt e)
  removed e he := by
    rw [removals_append, List.mem_append] at he
    exact he.elim (h₁.removed e) fun he => h₁.mem_serials hs hs₁ (h₂.removed e he)
  registered e he := (List.mem_append.mp he).elim (h₁.registered e) fun he =>
    Nat.le_trans h₁.fresh (h₂.registered e he)
  called e he := (List.mem_append.mp he).elim (h₁.called e) fun he =>
    h₁.mem_serials hs hs₁ (h₂.called e he)
  ends := h₁.ends.append h₂.ends

/-- What was removed in a part of a pass is not in the table afterwards, nor called any more. -/
theorem Passed.not_called_later (h₁ : Passed s s₁ t) (h₂ : Passed s₁ s₂ t') (hs₁ : Holds s₁ none) :
    ∀ e, .called e ∈ t' → e ∉ removals t := by
  intro e he hm
  rcases h₂.called e he with hmem | hle
  · obtain ⟨i, hi, rfl⟩ := IoLoop.mem_serials.mp hmem
    have hask : s₁.serial i ∈ removals s₁.log := by
      rw [h₁.log, removals_append]
      exact List.mem_append_right _ hm
    exact absurd (hs₁.asked i hi hask) (by simp)
  · exact absurd (h₁.removed_lt e hm) (Nat.not_lt.mpr hle)

/-- The ids of a key after the call of one of them: the id is still there, and
behind it is what was not removed, followed by what joined the key. -/
theorem Invoked.ids_eq (hi : Invoked s s₁ event t) (h : Holds s none) {done rest : List ℤ}
    (hids : s.ioHandler.ids key = done ++ event :: rest) :
    ∃ done₁ rest₁ added, s₁.ioHandler.ids key = done₁ ++ event :: rest₁ ∧
      rest₁.map s₁.serial = (rest.map s.serial).filter (· ∉ removals t) ++ added ∧
      Joiners s.fresh s₁.fresh t added := by
  obtain ⟨added, hchain, hjoined⟩ := hi.chain key
  have hnd := h.chain_nodup key
  rw [IoLoop.chain, hids, List.map_append, List.map_cons] at hnd
  have hout : s.serial event ∉ rest.map s.serial :=
    (List.nodup_cons.mp (List.nodup_append.mp hnd).2.1).1
  -- the events behind it keep their place unless they were removed
  have hrest : (rest.map s.serial).filter (fun e => decide (e ∈ removals t → s.serial event = e)) =
      (rest.map s.serial).filter (· ∉ removals t) := by
    refine List.filter_congr fun e he => decide_eq_decide.mpr ⟨fun himp hm => ?_, fun hno hm => absurd hm hno⟩
    exact hout (himp hm ▸ he)
  rw [IoLoop.chain, IoLoop.chain, hids, List.map_append, List.map_cons, List.filter_append,
    List.filter_cons_of_pos (by simp), hrest, List.append_assoc, List.cons_append] at hchain
  obtain ⟨done₁, l, hl, -, hl'⟩ := List.map_eq_append_iff.mp hchain
  obtain ⟨j, rest₁, rfl, hj, hrest₁⟩ := List.map_eq_cons_iff.mp hl'
  have hjlive : j ∈ s₁.ioHandler.live := hi.holds.table.mem_live_iff.mpr ⟨key, by rw [hl]; simp⟩
  have hje : j = event := hi.holds.inj j hjlive event hi.stays.1 (hj.trans hi.stays.2.symm)
  rw [hje] at hl
  exact ⟨done₁, rest₁, added, hl, hrest₁, hjoined⟩

/-- What comes behind a settled event keeps its place. -/
theorem Settled.ids_eq (hset : Settled s s' event u) (h : HandlerTable.Inv s.ioHandler) {done rest : List ℤ}
    (hids : s.ioHandler.ids key = done ++ event :: rest) : ∃ done', s'.ioHandler.ids key = done' ++ rest := by
  have hlive : event ∈ s.ioHandler.live := h.mem_live_iff.mpr ⟨key, by rw [hids]; simp⟩
  by_cases hask : s.serial event ∈ removals s.log
  · have hnd := h.ids_nodup key
    rw [hids] at hnd
    have hout := (List.nodup_cons.mp (List.nodup_append.mp hnd).2.1).1
    have hrest : rest.filter (· ≠ event) = rest :=
      List.filter_eq_self.mpr fun x hx => decide_eq_true fun he : x = event => hout (he ▸ hx)
    refine ⟨done.filter (· ≠ event), ?_⟩
    rw [(hset.gone hask).2, (HandlerTable.removeByIdFull_ids h hlive).2.1, hids, List.filter_append,
      List.filter_cons_of_neg (by simp), hrest]
  · refine ⟨done ++ [event], ?_⟩
    rw [hset.stays hask, hids, List.append_assoc]
    rfl

/-- The call of an event and what follows it, together. -/
theorem Invoked.passed (hi : Invoked s s₁ event t) (hs : Settled s₁ s' event u) (h : Holds s none)
    (hlive : event ∈ s.ioHandler.live) : Passed s s' (visitMarks (s.serial event) t u) := by
  obtain ⟨hucalls, huremovals, huregistered⟩ := hs.marks
  set r := s.serial event with hr
  have hserial : s₁.serial event = r := hi.stays.2
  have hremovals := removals_visitMarks (e := r) (t := t) huremovals
  have hcalls := calls_visitMarks (e := r) hi.calls hucalls
  have hask : r ∈ removals s₁.log ↔ r ∈ removals t := by
    have hbefore : r ∉ removals s.log := fun hask => absurd (h.asked event hlive hask) (by simp)
    rw [hi.log, removals_append, removals_append, List.mem_append]
    show _ ∨ r ∈ removals t ++ [] ↔ _
    rw [List.append_nil]
    exact or_iff_right hbefore
  have hmem : ∀ e ∈ removals (visitMarks r t u), e < s₁.fresh ∧ (e ∈ s.serials ∨ s.fresh ≤ e) := by
    intro e he
    rw [hremovals, mem_removals] at he
    obtain ⟨b, hb⟩ := he
    exact (hi.removed b e hb).2
  refine ⟨?_, ?_, fun e he => ?_, fun key => ?_, fun e he => ?_, fun e he => (hmem e he).2, fun e he => ?_,
    fun e he => ?_, fun e he => ?_⟩
  · rw [hs.log, hi.log, List.append_assoc]
    rfl
  · rw [hs.fresh]
    exact hi.fresh
  · rw [hs.notifies, hi.notifies e he]
  · obtain ⟨added, hchain, hjoined⟩ := hi.chain key
    have hlen : (registrations t).length ≤ (registrations (visitMarks r t u)).length := by
      rw [visitMarks, registrations_append, registrations_append, List.length_append, List.length_append]
      show _ ≤ (registrations t).length + _ + _
      omega
    have hjoined' : Joiners s.fresh s'.fresh (visitMarks r t u) added := by
      refine ⟨hjoined.nodup, Nat.le_trans hjoined.length_le hlen, fun a ha => ?_⟩
      rw [hremovals, hs.fresh]
      exact hjoined.mem a ha
    refine ⟨added, ?_, hjoined'⟩
    have hadded : ∀ a ∈ added, a ≠ r := by
      intro a ha heq
      have hnew := (hjoined.mem a ha).1
      have hold : r < s.fresh := h.lt event hlive
      omega
    rw [hremovals]
    by_cases hgone : r ∈ removals t
    · -- the event itself goes at the end of its visit
      have htable := (hs.gone (by rw [hserial]; exact hask.mpr hgone)).2
      have hids := (HandlerTable.removeByIdFull_ids hi.holds.table hi.stays.1).2.1 key
      rw [← htable] at hids
      have hne : ∀ j ∈ s₁.ioHandler.ids key, j ≠ event ↔ s₁.serial j ≠ r := fun j hj => by
        rw [← hserial]
        have hj' := hi.holds.table.mem_live_iff.mpr ⟨key, hj⟩
        exact not_congr ⟨fun hje => hje ▸ rfl, fun hse => hi.holds.inj j hj' event hi.stays.1 hse⟩
      have hfilter : s'.chain key = (s₁.chain key).filter (· ≠ r) := by
        rw [IoLoop.chain, IoLoop.chain, hids, List.filter_map]
        refine (List.map_congr_left fun j _ => hs.serial j).trans
          (congrArg _ (List.filter_congr fun j hj => ?_))
        exact decide_eq_decide.mpr (hne j hj)
      rw [hfilter, hchain, List.filter_append, List.filter_filter,
        List.filter_eq_self.mpr fun a ha => decide_eq_true (hadded a ha)]
      refine congrArg (· ++ _) (List.filter_congr fun e _ => ?_)
      rw [← Bool.decide_and]
      refine decide_eq_decide.mpr ⟨fun hboth hm => hboth.1 (hboth.2 hm).symm, fun hno => ⟨?_, ?_⟩⟩
      · exact fun heq => hno (heq ▸ hgone)
      · exact fun hm => absurd hm hno
    · have hsame : s'.chain key = s₁.chain key := by
        rw [IoLoop.chain, IoLoop.chain, hs.stays (by rw [hserial]; exact fun hm => hgone (hask.mp hm))]
        exact List.map_congr_left fun j _ => hs.serial j
      rw [hsame, hchain]
      refine congrArg (· ++ _) (List.filter_congr fun e _ => decide_eq_decide.mpr ⟨fun himp hm => ?_, ?_⟩)
      · have her : e = r := (himp hm).symm
        exact hgone (her ▸ hm)
      · exact fun hno hm => absurd hm hno
  · rw [hs.fresh]
    exact (hmem e he).1
  · rcases mem_visitMarks he with he | he | he | he
    · exact absurd he (by simp)
    · exact hi.registered e he
    · exact absurd he (by simp)
    · exact absurd he (huregistered e)
  · have hcall : e ∈ Mark.calls (visitMarks r t u) := mem_calls.mpr he
    rw [hcalls, List.mem_singleton] at hcall
    rw [hcall]
    exact Or.inl (IoLoop.mem_serials.mpr ⟨event, hlive, rfl⟩)
  · -- only the event itself can have removed itself here
    have hin : Mark.removed (some e) e ∈ t := by
      rcases mem_visitMarks he with he | he | he | he
      · exact absurd he (by simp)
      · exact he
      · exact absurd he (by simp)
      · have hm : e ∈ removals u := mem_removals.mpr ⟨_, he⟩
        rw [huremovals] at hm
        exact absurd hm List.not_mem_nil
    obtain rfl : e = r := Option.some.inj (hi.removed _ e hin).1
    have hfreed := (hs.gone (by rw [hserial]; exact hask.mpr (mem_removals.mpr ⟨_, hin⟩))).1
    rw [hserial] at hfreed
    obtain ⟨t₁, t₂, ht⟩ := List.append_of_mem hin
    obtain ⟨u₁, u₂, hu⟩ := List.append_of_mem hfreed
    refine ⟨.called r :: t₁, t₂ ++ .returned r :: u₁, u₂, ?_, by simp⟩
    rw [visitMarks, ht, hu]
    simp

/-- **One event of a key**: its callback runs, and then it is settled. The next
event is read when the callback has returned. -/
theorem visit_spec (hc : Lawful callback) (h : Holds s none) {done rest : List ℤ}
    (hids : s.ioHandler.ids key = done ++ event :: rest)
    (hs₂ : s₂ = (((s.ref event).invoke callback flags event).settle event).2) :
    ∃ done' rest' added t, s₂.ioHandler.ids key = done' ++ rest' ∧
      (((s.ref event).invoke callback flags event).settle event).1 = rest'.headD invalidId ∧
      rest'.map s₂.serial = (rest.map s.serial).filter (· ∉ removals t) ++ added ∧
      Joiners s.fresh s₂.fresh t added ∧ Holds s₂ none ∧ Passed s s₂ t ∧
      Visit s.fresh (s.serial event) t s₂.fresh := by
  have hlive : event ∈ s.ioHandler.live := h.table.mem_live_iff.mpr ⟨key, by rw [hids]; simp⟩
  obtain ⟨t, hi⟩ := invoke_spec hc h hlive flags
  set s₁ := (s.ref event).invoke callback flags event with hs₁
  have hholds := hi.holds
  rw [← hi.stays.2] at hholds
  obtain ⟨hnext, u, hset⟩ := settle_spec hholds hi.stays.1
  rw [← hs₂] at hset
  obtain ⟨done₁, rest₁, added, hids₁, hrest₁, hjoined⟩ := hi.ids_eq h hids
  obtain ⟨done', hids₂⟩ := hset.ids_eq hi.holds.table hids₁
  obtain ⟨hucalls, huremovals, -⟩ := hset.marks
  have hremovals := removals_visitMarks (e := s.serial event) (t := t) huremovals
  have hpassed := hi.passed hset h hlive
  have hlen : (registrations t).length ≤ (registrations (visitMarks (s.serial event) t u)).length := by
    rw [visitMarks, registrations_append, registrations_append, List.length_append, List.length_append]
    show _ ≤ (registrations t).length + _ + _
    omega
  refine ⟨done', rest₁, added, visitMarks (s.serial event) t u, hids₂, ?_, ?_, ⟨hjoined.nodup, ?_, ?_⟩,
    hset.holds, hpassed, visit_visitMarks hi.calls hucalls huremovals (fun b a hb => ?_) hpassed.fresh⟩
  · rw [hnext, hi.holds.table.next_eq hids₁]
  · rw [hremovals, ← hrest₁]
    exact List.map_congr_left fun j _ => hset.serial j
  · exact Nat.le_trans hjoined.length_le hlen
  · intro a ha
    rw [hremovals, hset.fresh]
    exact hjoined.mem a ha
  · obtain ⟨hrun, hlt, -⟩ := hi.removed b a hb
    exact ⟨hrun, hset.fresh ▸ hlt⟩

/-! ### The events of one descriptor -/

/-- A list of ids is empty when its first id is the invalid one. -/
theorem headD_eq_invalid {l : List ℤ} (hl : ∀ i ∈ l, 0 ≤ i) : l.headD invalidId = invalidId ↔ l = [] := by
  cases l with
  | nil => simp
  | cons i l =>
    have hi := hl i List.mem_cons_self
    have hne : i ≠ invalidId := by
      rw [invalidId]
      omega
    simpa using hne

/-- **The walk over the events of one key** from a place on: it keeps the
invariant, when it comes to its end it is a walk over the list, and a round goes by for
every event that is left or joins. -/
theorem dispatchKey_spec (hc : Lawful callback) :
    ∀ (fuel : ℕ) (done todo : List ℤ) (s : IoLoop), Holds s none → s.ioHandler.ids key = done ++ todo →
      ∃ t, Holds (dispatchKey callback flags fuel (todo.headD invalidId) s).2 none ∧
        Passed s (dispatchKey callback flags fuel (todo.headD invalidId) s).2 t ∧
        ((dispatchKey callback flags fuel (todo.headD invalidId) s).1 = .finished →
          Walk (fun _ => True) (fun _ => True) s.fresh (todo.map s.serial) t
            (dispatchKey callback flags fuel (todo.headD invalidId) s).2.fresh) ∧
        ((dispatchKey callback flags fuel (todo.headD invalidId) s).1 = .unfinished →
          fuel ≤ todo.length + (registrations t).length)
  | 0, done, todo, s, h, _ =>
    ⟨[], h, Passed.refl s, fun hno => absurd hno (by simp [dispatchKey]), fun _ => Nat.zero_le _⟩
  | fuel + 1, done, [], s, h, _ => by
    refine ⟨[], h, Passed.refl s, fun _ => Walk.done s.fresh, fun hno => ?_⟩
    exact absurd hno (by simp [dispatchKey])
  | fuel + 1, done, event :: rest, s, h, hids => by
    have hlive : event ∈ s.ioHandler.live := h.table.mem_live_iff.mpr ⟨key, by rw [hids]; simp⟩
    have hne : event ≠ invalidId := by
      have := h.table.nonneg hlive
      rw [invalidId]
      omega
    set next := (((s.ref event).invoke callback flags event).settle event).1 with hnext'
    set s₂ := (((s.ref event).invoke callback flags event).settle event).2 with hs₂
    obtain ⟨done', rest', added, t, hids₂, hnext, hrest', hjoined, hholds, hpassed, hvisit⟩ :=
      visit_spec hc h hids hs₂
    have hrest₂ : ∀ i ∈ rest', 0 ≤ i := fun i hi =>
      hholds.table.nonneg (hholds.table.mem_live_iff.mpr ⟨key, by rw [hids₂]; exact List.mem_append_right _ hi⟩)
    have hstep : dispatchKey callback flags (fuel + 1) event s =
        if s₂.quit then (if next = invalidId then .finished else .stopped, s₂)
        else dispatchKey callback flags fuel next s₂ := by
      rw [dispatchKey, if_neg hne]
    rw [List.headD_cons, hstep]
    have hwalk : ∀ {t' : List Mark} {n' : ℕ},
        Walk (fun _ => True) (fun _ => True) s₂.fresh (rest'.map s₂.serial) t' n' →
        Walk (fun _ => True) (fun _ => True) s.fresh ((event :: rest).map s.serial) (t ++ t') n' := by
      intro t' n' hw
      rw [hrest'] at hw
      exact Walk.visit trivial hvisit hjoined.nodup (fun a ha => ⟨trivial, hjoined.mem a ha⟩) hw
    by_cases hquit : s₂.quit = true
    · rw [if_pos hquit]
      refine ⟨t, hholds, hpassed, fun hfin => ?_, fun hno => ?_⟩
      · by_cases hlast : next = invalidId
        · have hnil : rest' = [] := (headD_eq_invalid hrest₂).mp (hnext.symm.trans hlast)
          rw [← List.append_nil t]
          refine hwalk ?_
          rw [hnil]
          exact Walk.done s₂.fresh
        · rw [if_neg hlast] at hfin
          exact absurd hfin (by simp)
      · by_cases hlast : next = invalidId
        · rw [if_pos hlast] at hno
          exact absurd hno (by simp)
        · rw [if_neg hlast] at hno
          exact absurd hno (by simp)
    · have hnext₂ : next = rest'.headD invalidId := hnext
      rw [if_neg hquit, hnext₂]
      obtain ⟨t', hs', hpassed', hfin, hunf⟩ := dispatchKey_spec hc fuel done' rest' s₂ hholds hids₂
      refine ⟨t ++ t', hs', hpassed.trans hpassed' h hholds, fun hdone => hwalk (hfin hdone), fun hno => ?_⟩
      have hle := hunf hno
      have hlen := congrArg List.length hrest'
      rw [List.length_map, List.length_append] at hlen
      have hfilter := List.length_filter_le (fun e => decide (e ∉ removals t)) (rest.map s.serial)
      rw [List.length_map] at hfilter
      have hadded := hjoined.length_le
      rw [registrations_append, List.length_append, List.length_cons]
      omega

end IoLoop

end Fcitx
