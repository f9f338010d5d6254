/-
# The events of a context

What a consumer sees of one context is a word of event types. `History` says
what the word should look like: lives that are over, each from Created to
Destroyed with FocusIn and FocusOut alternating in between, and after them the
life that goes on, if there is one. The same is said by a machine with the
states gone, alive and focused (`history_iff`), and the machine is followed
along the operations.

One operation breaks the law: `fcitx_input_context_set_surrounding_text`
reports a changed text as ET_InputContextFocusIn. The law holds all along a run
exactly if no step does that.

Key definitions: `Phase`, `History`, `TraceLaw`, `IcOp.Misreports`.
Key theorems: `history_iff`, `follows_traceProperty`, `run_traceLaw_iff`.
-/
import Fcitx.InputContext.FocusRun

namespace Fcitx

open IcSystem

/-! ### The life of a context -/

/-- Whether there is a context and whether it is focused. -/
inductive Phase where
  | gone
  | alive (focused : Bool)
  deriving DecidableEq

/-- The phase after an event, if the event may come now. -/
def Phase.next : Phase → EventType → Option Phase
  | .gone, .inputContextCreated => some (.alive false)
  | .gone, _ => none
  | .alive _, .inputContextCreated => none
  | .alive focused, .inputContextDestroyed => if focused then none else some .gone
  | .alive focused, .inputContextFocusIn => if focused then none else some (.alive true)
  | .alive focused, .inputContextFocusOut => if focused then some (.alive false) else none
  | .alive focused, _ => some (.alive focused)

/-- The phase after the events `l`, if each came when it may. -/
def phaseFrom (p : Phase) (l : List EventType) : Option Phase := l.foldlM Phase.next p

@[simp] theorem phaseFrom_nil (p : Phase) : phaseFrom p [] = some p := rfl

@[simp] theorem phaseFrom_cons (p : Phase) (t : EventType) (l : List EventType) :
    phaseFrom p (t :: l) = (p.next t).bind (phaseFrom · l) := rfl

theorem phaseFrom_append (p : Phase) (l l' : List EventType) :
    phaseFrom p (l ++ l') = (phaseFrom p l).bind (phaseFrom · l') := by
  simp only [phaseFrom, List.foldlM_append]
  rfl

theorem phaseFrom_concat (p q : Phase) (l : List EventType) (t : EventType) :
    phaseFrom p (l ++ [t]) = some q ↔ ∃ r, phaseFrom p l = some r ∧ r.next t = some q := by
  rw [phaseFrom_append, Option.bind_eq_some_iff]
  simp

theorem Phase.next_alive_report {t : EventType} (ht : t.isLife = false) (focused : Bool) :
    (Phase.alive focused).next t = some (.alive focused) := by
  cases t <;> first | rfl | cases ht

/-! ### The same, in words -/

/-- The focus events among the events of a context. -/
def focusEvents (l : List EventType) : List EventType :=
  l.filter fun t => t = .inputContextFocusIn ∨ t = .inputContextFocusOut

/-- What happens in a life: its focus events alternate and begin with FocusIn;
the last one is FocusIn if and only if `focused`. -/
structure Body (focused : Bool) (l : List EventType) : Prop where
  inside : ∀ t ∈ l, t ≠ .inputContextCreated ∧ t ≠ .inputContextDestroyed
  alternate : (focusEvents l).IsChain (· ≠ ·)
  first : (focusEvents l).head? ≠ some .inputContextFocusOut
  last : (focusEvents l).getLast? = some .inputContextFocusIn ↔ focused = true

/-- A life that goes on. -/
def Current (focused : Bool) (l : List EventType) : Prop :=
  ∃ body, l = .inputContextCreated :: body ∧ Body focused body

/-- A life that is over; no focus is left open. -/
def Complete (l : List EventType) : Prop :=
  ∃ body, l = .inputContextCreated :: (body ++ [.inputContextDestroyed]) ∧ Body false body

/-- Lives that are over, and then the one that goes on, if any. -/
def History (l : List EventType) (p : Phase) : Prop :=
  ∃ past current, l = List.flatten past ++ current ∧ (∀ life ∈ past, Complete life) ∧
    match p with
    | .gone => current = []
    | .alive focused => Current focused current

theorem focusEvents_concat (l : List EventType) (t : EventType) :
    focusEvents (l ++ [t]) =
      if t = .inputContextFocusIn ∨ t = .inputContextFocusOut then focusEvents l ++ [t]
      else focusEvents l := by
  simp only [focusEvents, List.filter_append, List.filter_cons, List.filter_nil]
  by_cases ht : t = .inputContextFocusIn ∨ t = .inputContextFocusOut
  · simp [ht]
  · simp [ht]

/-- The last focus event is one of the two. -/
theorem getLast_focusEvents {l : List EventType} (h : focusEvents l ≠ [])
    (hout : (focusEvents l).getLast? ≠ some .inputContextFocusOut) :
    (focusEvents l).getLast? = some .inputContextFocusIn := by
  have hmem := List.getLast_mem h
  have hlast := List.getLast?_eq_some_getLast h
  obtain ⟨-, hkind⟩ := List.mem_filter.mp hmem
  rcases of_decide_eq_true hkind with hin | ho
  · rw [hlast, hin]
  · exact absurd (hlast.trans (congrArg some ho)) hout

theorem body_nil : Body false [] :=
  ⟨by simp, by simp [focusEvents], by simp [focusEvents], by simp [focusEvents]⟩

/-- **One more event of a life.** -/
theorem body_concat {focused : Bool} {l : List EventType} {t : EventType} :
    Body focused (l ++ [t]) ↔
      ∃ before, Body before l ∧ (Phase.alive before).next t = some (.alive focused) := by
  constructor
  · intro h
    have hin : ∀ u ∈ l, u ≠ .inputContextCreated ∧ u ≠ .inputContextDestroyed :=
      fun u hu => h.inside u (List.mem_append_left _ hu)
    obtain ⟨hc, hd⟩ := h.inside t (by simp)
    have hcat := focusEvents_concat l t
    by_cases ht : t = .inputContextFocusIn ∨ t = .inputContextFocusOut
    · rw [if_pos ht] at hcat
      have hchain := h.alternate
      have hfirst := h.first
      have hlast := h.last
      rw [hcat, List.isChain_append] at hchain
      rw [hcat, List.head?_append] at hfirst
      rw [hcat, List.getLast?_concat] at hlast
      have hfirst' : (focusEvents l).head? ≠ some .inputContextFocusOut := by
        intro e
        exact hfirst (by simp [e])
      rcases ht with rfl | rfl
      · -- FocusIn: the last one was not FocusIn
        have hne : (focusEvents l).getLast? ≠ some .inputContextFocusIn := fun e =>
          hchain.2.2 _ e _ rfl rfl
        refine ⟨false, ⟨hin, hchain.1, hfirst', by simp [hne]⟩, ?_⟩
        simp [Phase.next, hlast.mp rfl]
      · -- FocusOut: there was one, and it was FocusIn
        have hne : (focusEvents l).getLast? ≠ some .inputContextFocusOut := fun e =>
          hchain.2.2 _ e _ rfl rfl
        have hnil : focusEvents l ≠ [] := fun e => hfirst (by simp [e])
        have hlast' := getLast_focusEvents hnil hne
        refine ⟨true, ⟨hin, hchain.1, hfirst', by simp [hlast']⟩, ?_⟩
        have hf : focused = false := by
          rw [← Bool.not_eq_true, ← hlast]
          simp
        simp [Phase.next, hf]
    · rw [if_neg ht] at hcat
      refine ⟨focused, ⟨hin, hcat ▸ h.alternate, hcat ▸ h.first, hcat ▸ h.last⟩, ?_⟩
      rw [not_or] at ht
      refine Phase.next_alive_report ?_ focused
      cases t <;> first | rfl | exact absurd rfl hc | exact absurd rfl hd | exact absurd rfl ht.1 |
        exact absurd rfl ht.2
  · rintro ⟨before, h, hnext⟩
    have hcat := focusEvents_concat l t
    have hinside : t ≠ .inputContextCreated → t ≠ .inputContextDestroyed →
        ∀ u ∈ l ++ [t], u ≠ .inputContextCreated ∧ u ≠ .inputContextDestroyed := by
      intro hc hd u hu
      rcases List.mem_append.mp hu with hu | hu
      · exact h.inside u hu
      · rw [List.mem_singleton.mp hu]
        exact ⟨hc, hd⟩
    by_cases hlife : t.isLife = false
    · rw [Phase.next_alive_report hlife, Option.some.injEq, Phase.alive.injEq] at hnext
      subst hnext
      have ht : ¬ (t = .inputContextFocusIn ∨ t = .inputContextFocusOut) := by
        rintro (rfl | rfl) <;> cases hlife
      rw [if_neg ht] at hcat
      refine ⟨hinside ?_ ?_, hcat ▸ h.alternate, hcat ▸ h.first, hcat ▸ h.last⟩
      · rintro rfl
        cases hlife
      · rintro rfl
        cases hlife
    · have hkind : t = .inputContextCreated ∨ t = .inputContextDestroyed ∨
          t = .inputContextFocusIn ∨ t = .inputContextFocusOut := by
        cases t <;> simp [EventType.isLife] at hlife ⊢
      rcases hkind with rfl | rfl | rfl | rfl
      · cases hnext
      · cases before <;> simp [Phase.next] at hnext
      · cases before with
        | true => simp [Phase.next] at hnext
        | false =>
          simp only [Phase.next, Bool.false_eq_true, if_false, Option.some.injEq,
            Phase.alive.injEq] at hnext
          have hne : (focusEvents l).getLast? ≠ some .inputContextFocusIn := by
            rw [ne_eq, h.last]
            simp
          rw [if_pos (Or.inl rfl)] at hcat
          refine ⟨hinside (by decide) (by decide), ?_, ?_, ?_⟩
          · rw [hcat, List.isChain_append]
            refine ⟨h.alternate, .singleton _, ?_⟩
            intro x hx y hy hxy
            obtain rfl : EventType.inputContextFocusIn = y := Option.some.inj hy
            exact hne (hxy ▸ hx)
          · rw [hcat, List.head?_append]
            cases hh : (focusEvents l).head? with
            | none => simp
            | some x => simpa [hh] using h.first
          · rw [hcat, List.getLast?_concat]
            simp [hnext]
      · cases before with
        | false => simp [Phase.next] at hnext
        | true =>
          simp only [Phase.next, if_true, Option.some.injEq, Phase.alive.injEq] at hnext
          have hlast := h.last.mpr rfl
          have hnil : focusEvents l ≠ [] := fun e => by simp [e] at hlast
          rw [if_pos (Or.inr rfl)] at hcat
          refine ⟨hinside (by decide) (by decide), ?_, ?_, ?_⟩
          · rw [hcat, List.isChain_append]
            refine ⟨h.alternate, .singleton _, ?_⟩
            intro x hx y hy hxy
            obtain rfl : EventType.inputContextFocusOut = y := Option.some.inj hy
            rw [hlast, hxy] at hx
            cases hx
          · rw [hcat, List.head?_append_of_ne_nil _ hnil]
            exact h.first
          · rw [hcat, List.getLast?_concat]
            simp [← hnext]

/-- The machine follows a life. -/
theorem Body.phase {focused : Bool} {l : List EventType} (h : Body focused l) :
    phaseFrom (.alive false) l = some (.alive focused) := by
  induction l using List.reverseRecOn generalizing focused with
  | nil =>
    have hlast := h.last
    simp only [focusEvents, List.filter_nil, List.getLast?_nil, reduceCtorEq, false_iff,
      Bool.not_eq_true] at hlast
    rw [phaseFrom_nil, hlast]
  | append_singleton l t ih =>
    obtain ⟨before, hb, hnext⟩ := body_concat.mp h
    rw [phaseFrom_concat]
    exact ⟨_, ih hb, hnext⟩

theorem Complete.phase {l : List EventType} (h : Complete l) : phaseFrom .gone l = some .gone := by
  obtain ⟨body, rfl, hb⟩ := h
  rw [phaseFrom_cons]
  show phaseFrom (.alive false) (body ++ [.inputContextDestroyed]) = _
  rw [phaseFrom_concat]
  exact ⟨_, hb.phase, rfl⟩

theorem phaseFrom_flatten {past : List (List EventType)} (h : ∀ life ∈ past, Complete life) :
    phaseFrom .gone past.flatten = some .gone := by
  induction past with
  | nil => rfl
  | cons life past ih =>
    rw [List.flatten_cons, phaseFrom_append, (h life List.mem_cons_self).phase]
    exact ih fun l hl => h l (List.mem_cons_of_mem _ hl)

/-- **The machine accepts exactly the histories.** -/
theorem history_iff {l : List EventType} {p : Phase} :
    History l p ↔ phaseFrom .gone l = some p := by
  constructor
  · rintro ⟨past, current, rfl, hpast, hcurrent⟩
    rw [phaseFrom_append, phaseFrom_flatten hpast]
    cases p with
    | gone =>
      rw [show current = [] from hcurrent]
      rfl
    | alive focused =>
      obtain ⟨body, rfl, hb⟩ := hcurrent
      exact hb.phase
  · intro h
    induction l using List.reverseRecOn generalizing p with
    | nil =>
      obtain rfl : Phase.gone = p := Option.some.inj h
      exact ⟨[], [], rfl, by simp, rfl⟩
    | append_singleton l t ih =>
      obtain ⟨q, hq, hnext⟩ := (phaseFrom_concat _ _ _ _).mp h
      obtain ⟨past, current, rfl, hpast, hcurrent⟩ := ih hq
      cases q with
      | gone =>
        obtain rfl : current = [] := hcurrent
        -- only Created may come
        cases t <;> cases hnext
        exact ⟨past, [.inputContextCreated], by simp, hpast, [], rfl, body_nil⟩
      | alive before =>
        obtain ⟨body, rfl, hb⟩ := hcurrent
        cases p with
        | alive focused =>
          refine ⟨past, .inputContextCreated :: (body ++ [t]), by simp, hpast, body ++ [t], rfl, ?_⟩
          exact body_concat.mpr ⟨before, hb, hnext⟩
        | gone =>
          have ht : t = .inputContextDestroyed ∧ before = false := by
            cases t <;> cases before <;> simp [Phase.next] at hnext ⊢
          obtain ⟨rfl, rfl⟩ := ht
          refine ⟨past ++ [.inputContextCreated :: (body ++ [.inputContextDestroyed])], [], by simp,
            fun life hl => ?_, rfl⟩
          rcases List.mem_append.mp hl with hl | hl
          · exact hpast life hl
          · rw [List.mem_singleton.mp hl]
            exact ⟨body, rfl, hb⟩

/-! ### The events of a system -/

variable {V : Type}

namespace IcSystem

/-- The type of a call, if it is an event about `c`. -/
def eventOf (c : ContextPtr) (e : Emitted V) : Option EventType :=
  match e.call with
  | .event event => if event.inputContext = c then some event.type else none
  | .destroyNotify _ => none

/-- The events about `c` so far. -/
def events (s : IcSystem V) (c : ContextPtr) : List EventType := s.trace.filterMap (eventOf c)

/-- The phase of the cell `c`, as the manager knows it. -/
def phase (s : IcSystem V) (c : ContextPtr) : Phase :=
  if c ∈ s.ics then .alive (s.ctx c).focused else .gone

/-- **The law of the events**: of every context they are a history. -/
def TraceLaw (s : IcSystem V) : Prop := ∀ c, History (s.events c) (s.phase c)

/-- The same on the machine. -/
def Follows (s : IcSystem V) : Prop := ∀ c, phaseFrom .gone (s.events c) = some (s.phase c)

theorem traceLaw_iff (s : IcSystem V) : s.TraceLaw ↔ s.Follows :=
  forall_congr' fun _ => history_iff

theorem emit_events {s : IcSystem V} (hcb : s.callback = true) (type : EventType)
    (c d : ContextPtr) (detail : EventDetail) :
    (s.emit type c detail).events d = if c = d then s.events d ++ [type] else s.events d := by
  rw [events, emit_trace hcb, List.filterMap_append]
  by_cases hd : c = d
  · simp [eventOf, hd, events]
  · simp [eventOf, hd, events]

theorem notifyDestroy_events (s : IcSystem V) (c d : ContextPtr) :
    (s.notifyDestroy c).events d = s.events d := by
  rw [events, notifyDestroy_trace, List.filterMap_append]
  split
  · simp [eventOf, events]
  · simp [events]

/-- **An event about a live context at the right time**: the phase of `c` goes
on by one event, that of every other cell stays. -/
theorem Follows.next {s s' : IcSystem V} (h : s.Follows) (c : ContextPtr) (type : EventType)
    (hevents : ∀ d, s'.events d = if c = d then s.events d ++ [type] else s.events d)
    (hphase : (s.phase c).next type = some (s'.phase c))
    (hother : ∀ d, d ≠ c → s'.phase d = s.phase d) : s'.Follows := by
  intro d
  by_cases hd : c = d
  · subst hd
    rw [hevents, if_pos rfl, phaseFrom_concat]
    exact ⟨_, h c, hphase⟩
  · rw [hevents, if_neg hd, hother d (Ne.symm hd)]
    exact h d

theorem phase_congr {s s' : IcSystem V} {d : ContextPtr} (hmem : d ∈ s'.ics ↔ d ∈ s.ics)
    (hfocused : d ∈ s.ics → (s'.ctx d).focused = (s.ctx d).focused) : s'.phase d = s.phase d := by
  unfold phase
  by_cases hd : d ∈ s.ics
  · rw [if_pos hd, if_pos (hmem.mpr hd), hfocused hd]
  · rw [if_neg hd, if_neg fun h => hd (hmem.mp h)]

theorem phase_of_mem {s : IcSystem V} {c : ContextPtr} (hc : c ∈ s.ics) :
    s.phase c = .alive (s.ctx c).focused := if_pos hc

/-- **Every well-timed call follows the machine.** -/
theorem follows_traceProperty : TraceProperty (Follows : IcSystem V → Prop) where
  frame := by
    intro s s' htrace hics hfocused h c
    have hphase : s'.phase c = s.phase c := phase_congr (by rw [hics]) fun hc => hfocused c hc
    rw [events, htrace, hphase]
    exact h c
  focusIn := by
    intro s c hcb hc hf _ h
    have hmem : ∀ d, d ∈ (s._focusIn c).ics ↔ d ∈ s.ics := fun d => by
      rw [(s._focusIn_focusOnly c).ics]
    refine h.next _ _ (emit_events (s := s.modify c _) hcb .inputContextFocusIn c · .none) ?_
      fun d hd => phase_congr (hmem d) fun _ => ?_
    · rw [phase_of_mem hc, phase_of_mem ((hmem c).mpr hc), _focusIn_ctx, if_pos rfl, hf]
      rfl
    · rw [_focusIn_ctx, if_neg hd]
  focusOut := by
    intro s c hcb hc hf _ h
    have hmem : ∀ d, d ∈ (s._focusOut c).ics ↔ d ∈ s.ics := fun d => by
      rw [(s._focusOut_focusOnly c).ics]
    refine h.next _ _ (emit_events (s := s.modify c _) hcb .inputContextFocusOut c · .none) ?_
      fun d hd => phase_congr (hmem d) fun _ => ?_
    · rw [phase_of_mem hc, phase_of_mem ((hmem c).mpr hc), _focusOut_ctx, if_pos rfl, hf]
      rfl
    · rw [_focusOut_ctx, if_neg hd]
  report := by
    intro s c type detail hcb hc htype _ h
    have hsame : ∀ d, (s.emit type c detail).phase d = s.phase d := fun d =>
      phase_congr (by rw [emit_manager]) fun _ => by rw [emit_manager]
    refine h.next _ _ (emit_events hcb type c · detail) ?_ fun d _ => hsame d
    rw [hsame, phase_of_mem hc, Phase.next_alive_report htype]
  created := by
    intro s c id uuid frontend notify hcb hc _ h
    have hctx : ∀ d, d ≠ c → (s.enroll c id uuid frontend notify).ctx d = s.ctx d := fun d hd =>
      Function.update_of_ne hd _ _
    refine h.next _ _ (emit_events (s := s.enroll c id uuid frontend notify) hcb .inputContextCreated c ·
      .none) ?_ fun d hd => phase_congr ?_ fun _ => ?_
    · have hmem : c ∈ ((s.enroll c id uuid frontend notify).emit .inputContextCreated c .none).ics := by
        rw [emit_manager]
        simp [enroll]
      rw [phase, if_neg hc, phase_of_mem hmem, emit_manager]
      simp [Phase.next, enroll, InputContext.zero]
    · rw [emit_manager]
      simp [enroll, hd]
    · rw [emit_manager, hctx d hd]
  destroyed := by
    intro s s' c hcb hc hnd hf _ htrace hics hfocused h
    refine h.next c .inputContextDestroyed (fun d => ?_) ?_ fun d hd => ?_
    · rw [events, htrace]
      show ((s.emit .inputContextDestroyed c .none).notifyDestroy c).events d = _
      rw [notifyDestroy_events, emit_events hcb]
    · rw [phase_of_mem hc, hf, phase, hics, if_neg (List.Nodup.not_mem_erase hnd)]
      rfl
    · have hmem : d ∈ s'.ics ↔ d ∈ s.ics := by
        rw [hics]
        exact List.mem_erase_of_ne hd
      exact phase_congr hmem fun hm => hfocused d (hmem.mpr hm)

end IcSystem

/-! ### The operation that breaks the law -/

/-- The operation stores a surrounding text, cursor or anchor that differs. -/
def IcOp.Misreports (s : IcSystem V) : IcOp V → Prop
  | .setSurroundingText c str cursor anchor =>
    (s.ctx c).flags &&& capabilitySurroundingText ≠ 0 ∧
      surroundingTextChanges (s.ctx c) str cursor anchor = true
  | _ => False

namespace IcSystem

theorem setSurroundingText_misreports {s : IcSystem V} {c : ContextPtr} {str : Option Bytes}
    {cursor anchor : UInt32}
    (h : IcOp.Misreports s (.setSurroundingText c str cursor anchor)) :
    s.setSurroundingText c str cursor anchor =
      (s.modify c fun ic =>
        { ic with
          surroundingText := str.or ic.surroundingText
          cursor := cursor
          anchor := anchor }).emit .inputContextFocusIn c .none := by
  rw [setSurroundingText, if_neg h.1, if_pos h.2]

theorem setSurroundingText_quiet {s : IcSystem V} {c : ContextPtr} {str : Option Bytes}
    {cursor anchor : UInt32}
    (h : ¬ IcOp.Misreports s (.setSurroundingText c str cursor anchor)) :
    s.setSurroundingText c str cursor anchor = s := by
  unfold setSurroundingText
  split
  · rfl
  · next hflag => rw [if_neg fun hchange => h ⟨hflag, hchange⟩]

/-- The law does not hold before and after a step that misreports. -/
theorem not_follows_step {s : IcSystem V} (hcb : s.callback = true) {op : IcOp V} (hok : op.Ok s)
    (h : op.Misreports s) (hs : s.Follows) : ¬ (s.step op).Follows := by
  cases op with
  | setSurroundingText c str cursor anchor =>
    have hc : c ∈ s.ics := hok
    intro h'
    have hlaw := h' c
    simp only [step] at hlaw
    rw [setSurroundingText_misreports h] at hlaw
    rw [emit_events (s := s.modify c _) hcb, if_pos rfl, phaseFrom_concat] at hlaw
    obtain ⟨p, hp, hnext⟩ := hlaw
    obtain rfl : s.phase c = p := Option.some.inj ((hs c).symm.trans hp)
    rw [phase_of_mem hc, phase_of_mem (by rw [emit_manager]; exact hc), emit_manager, modify_ctx,
      if_pos rfl] at hnext
    -- a second FocusIn, or one that leaves no focus
    cases hf : (s.ctx c).focused <;> simp [hf, Phase.next] at hnext
  | _ => exact h.elim

/-- The invariant of a run in which no step misreports. -/
theorem run_follows (ops : List (IcOp V))
    (h : Run.Admissible step (fun s op => op.Ok s ∧ ¬ op.Misreports s) initial ops) :
    ∃ gs L, IcInv Follows (run ops) gs L :=
  IcInv.run _ follows_traceProperty (fun _ => rfl)
    (fun s c str cursor anchor _ _ _ hcond hs => by rwa [setSurroundingText_quiet hcond]) h

/-- **The events of a context.** All along a run on live contexts and groups
they follow the law if and only if no step misreports a surrounding text. -/
theorem run_traceLaw_iff (ops : List (IcOp V)) (h : IcOp.AllOk ops) :
    (∀ before, before <+: ops → (run before).TraceLaw) ↔
      Run.Admissible step (fun s op => ¬ op.Misreports s) initial ops := by
  constructor
  · intro hlaw
    rw [Run.admissible_iff]
    rintro before op after rfl hmis
    have hok := (Run.admissible_iff.mp h) before op after rfl
    have hbefore : IcOp.AllOk before := (Run.admissible_append.mp h).1
    have hcb : (run before).callback = true := by
      obtain ⟨gs, L, hinv⟩ := IcInv.run (fun _ _ => True) (Φ := CalledExclusive)
        calledExclusive_traceProperty (fun e he => by cases he)
        (fun s c str cursor anchor _ _ hex _ hs => hs.setSurroundingText hex c str cursor anchor)
        (hbefore.mono fun s op hok => ⟨hok, trivial⟩)
      exact hinv.callback
    have h1 := (traceLaw_iff _).mp (hlaw before ⟨op :: after, rfl⟩)
    have h2 := (traceLaw_iff _).mp (hlaw (before ++ [op]) ⟨after, by simp⟩)
    rw [run, Run.exec_append] at h2
    exact not_follows_step hcb hok hmis h1 h2
  · rintro hquiet before ⟨after, rfl⟩
    obtain ⟨gs, L, hinv⟩ := run_follows before
      ((Run.admissible_append.mp h).1.and (Run.admissible_append.mp hquiet).1)
    exact (traceLaw_iff _).mpr hinv.trace

/-- A run in which the surrounding text is set on a context without the capability. -/
theorem run_traceLaw_iff_quiet :
    let ops : List (IcOp ℕ) :=
      [.new 0 0 false, .setFocusGroup 0 .global none, .focusIn 0,
        .setSurroundingText 0 (some [97]) 0 0, .commitString 0 [97], .destroy 0, .new 1 0 false]
    IcOp.AllOk ops ∧ ∀ before, before <+: ops → (run before).TraceLaw := by
  intro ops
  have hok : IcOp.AllOk ops := by decide
  exact ⟨hok, (run_traceLaw_iff ops hok).mpr
    ⟨id, id, id, fun h => absurd rfl h.1, id, id, id, trivial⟩⟩

/-- An unfocused context whose frontend sends a surrounding text: the last focus
event is FocusIn, and the context is not focused. -/
theorem not_traceLaw_setSurroundingText :
    let ops : List (IcOp ℕ) :=
      [.new 0 0 false, .setCapabilityFlags 0 capabilitySurroundingText,
        .setSurroundingText 0 (some [97]) 0 0]
    IcOp.AllOk ops ∧ ¬ (run ops).TraceLaw := by
  intro ops
  refine ⟨by decide, fun h => ?_⟩
  have := history_iff.mp (h 0)
  revert this
  decide

end IcSystem

end Fcitx
