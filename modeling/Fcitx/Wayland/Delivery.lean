/-
# What the handlers of the globals are told

Whatever the compositor announces and takes back while handlers come and go, a handler is
told of every global of its interface, those that were there when it was registered
first, once and in order (`Wayland.run_delivered`). So one that keeps book of its calls
has the globals that are there at any time (`Wayland.run_known`).

Key definitions: `WaylandOp`, `Wayland.step`, `Wayland.Allowed`, `Wayland.delivered`,
`Wayland.noteCalls`.
Key theorems: `Wayland.step_spec`, `Wayland.exec_delivered`, `Wayland.run_delivered`,
`Wayland.noteCalls_delivered`, `Wayland.run_known`.
-/
import Fcitx.Wayland.Registry

namespace Fcitx

/-- What happens to the registry; the pointers are for new keys. -/
inductive WaylandOp where
  | globalAdded (name : UInt32) (iface : Bytes) (ver : UInt32) (malloc malloc' : KeyPtr)
  | globalRemoved (name : UInt32) (malloc : KeyPtr)
  | regGlobalHandler (iface : Bytes) (handler : GlobalHandler) (runExists : Bool) (malloc : KeyPtr)
  | removeGlobalHandler (id : ℤ)
deriving DecidableEq

namespace Wayland

open HandlerTable

/-- One thing that happens. -/
def apply (wl : Wayland) : WaylandOp → Option Wayland
  | .globalAdded name iface ver malloc malloc' => some (wl.globalAdded name iface ver malloc malloc')
  | .globalRemoved name malloc => wl.globalRemoved name malloc
  | .regGlobalHandler iface handler runExists malloc => some (wl.regGlobalHandler iface handler runExists malloc).2
  | .removeGlobalHandler id => some (wl.removeGlobalHandler id)

/-- The functions of the handlers that are called do not call back into the module: what they would do to it is left
out. -/
def step (wl : Option Wayland) (op : WaylandOp) : Option Wayland := wl.bind (·.apply op)

/-- What the compositor, the callers and the allocator promise: a name is used for one global at a time, a global that
is taken back is there, an interface has a name, a handler that is removed is live or has no id, and `malloc` gives
memory that is not in use. -/
def AllowedAt (wl : Wayland) : WaylandOp → Prop
  | .globalAdded name iface _ malloc malloc' =>
    iface ≠ [] ∧ name ∉ wl.globals.map Global.name ∧ malloc ∉ wl.globalHandlers.ptrs ∧ malloc < 2 ^ 64 ∧
      malloc' ∉ wl.globalHandlers.ptrs ∧ malloc' < 2 ^ 64 ∧ malloc' ≠ malloc
  | .globalRemoved name malloc =>
    name ∈ wl.globals.map Global.name ∧ malloc ∉ wl.globalHandlers.ptrs ∧ malloc < 2 ^ 64
  | .regGlobalHandler _ handler _ malloc =>
    handler.Fits ∧ malloc ∉ wl.globalHandlers.ptrs ∧ malloc < 2 ^ 64 ∧ wl.globalHandlers.Room
  | .removeGlobalHandler id => id < 0 ∨ id ∈ wl.globalHandlers.live

def Allowed (wl : Option Wayland) (op : WaylandOp) : Prop := ∀ w ∈ wl, w.AllowedAt op

instance (wl : Wayland) : ∀ op, Decidable (wl.AllowedAt op)
  | .globalAdded .. => inferInstanceAs (Decidable (_ ∧ _ ∧ _ ∧ _ ∧ _ ∧ _ ∧ _))
  | .globalRemoved .. => inferInstanceAs (Decidable (_ ∧ _ ∧ _))
  | .regGlobalHandler .. => inferInstanceAs (Decidable (_ ∧ _ ∧ _ ∧ _))
  | .removeGlobalHandler _ => inferInstanceAs (Decidable (_ ∨ _))

instance : ∀ (wl : Option Wayland) (op : WaylandOp), Decidable (Allowed wl op)
  | none, _ => .isTrue fun _ h => absurd h (Option.not_mem_none _)
  | some w, op => decidable_of_iff (w.AllowedAt op) ⟨fun h _ hw => Option.mem_some.mp hw ▸ h, fun h => h w rfl⟩

/-! ### What one handler is told -/

/-- A handler of `iface` is told of this global. -/
def Concerns (iface : Bytes) (g : Global) : Prop := iface = [] ∨ g.iface = iface

instance (iface : Bytes) (g : Global) : Decidable (Concerns iface g) := inferInstanceAs (Decidable (_ ∨ _))

/-- The call of a handler for a global; a general handler gets the empty name. -/
def callFor (func : GlobalHandler → ℕ) (handler : GlobalHandler) (iface : Bytes) (g : Global) : GlobalCall :=
  ⟨func handler, handler.data, g.name, iface, g.version⟩

/-- The calls of a handler for an event: none if it has no such function. -/
def told (func : GlobalHandler → ℕ) (handler : GlobalHandler) (iface : Bytes) (g : Global) : List GlobalCall :=
  if Concerns iface g ∧ func handler ≠ 0 then [callFor func handler iface g] else []

/-- The globals after an operation. -/
def globalsAfter (gs : List Global) : WaylandOp → List Global
  | .globalAdded name iface ver _ _ => gs ++ [⟨name, iface, ver⟩]
  | .globalRemoved name _ => (gs.find? (·.name == name)).elim gs gs.erase
  | .regGlobalHandler .. | .removeGlobalHandler _ => gs

/-- The calls a handler gets for an operation. -/
def toldOf (handler : GlobalHandler) (iface : Bytes) (gs : List Global) : WaylandOp → List GlobalCall
  | .globalAdded name iface' ver _ _ => told GlobalHandler.added handler iface ⟨name, iface', ver⟩
  | .globalRemoved name _ => (gs.find? (·.name == name)).toList.flatMap (told GlobalHandler.removed handler iface)
  | .regGlobalHandler .. | .removeGlobalHandler _ => []

/-- The calls a handler gets in a run, with the globals that are there before it. -/
def delivered (handler : GlobalHandler) (iface : Bytes) : List Global → List WaylandOp → List GlobalCall
  | _, [] => []
  | gs, op :: ops => toldOf handler iface gs op ++ delivered handler iface (globalsAfter gs op) ops

/-- The calls of the handler of an id from the `n`th call on. -/
def callsOf (wl : Wayland) (n : ℕ) (id : ℤ) : List GlobalCall :=
  ((wl.calls.drop n).filter (·.1 = id)).map Prod.snd

variable {wl wl' : Wayland} {iface iface' : Bytes} {handler : GlobalHandler} {func : GlobalHandler → ℕ} {id : ℤ}
  {n : ℕ} {gs : List Global} {cs : List (ℤ × GlobalCall)} {op : WaylandOp} {g : Global}

theorem handlers_ids (wl : Wayland) (k : Bytes) :
    (wl.handlers k).map Prod.fst = (MultiMap.find wl.globalHandlers.toMap k).map Prod.fst := by
  rw [handlers, List.map_map]
  rfl

theorem filterMap_notify_of_notMem {l : List (ℤ × GlobalHandler)} (hout : id ∉ l.map Prod.fst) (name : UInt32)
    (k : Bytes) (ver : UInt32) : ((l.filterMap (notify func name k ver)).filter (·.1 = id)).map Prod.snd = [] := by
  rw [List.map_eq_nil_iff, List.filter_eq_nil_iff]
  intro c hc
  obtain ⟨e, he, hec⟩ := List.mem_filterMap.mp hc
  rw [notify] at hec
  split at hec
  · obtain rfl := Option.some.inj hec
    have hne : e.1 ≠ id := fun h => hout (h ▸ List.mem_map_of_mem he)
    simpa using hne
  · exact absurd hec.symm (Option.some_ne_none c)

/-- One handler of a list is called once. -/
theorem filterMap_notify {l : List (ℤ × GlobalHandler)} (hnd : (l.map Prod.fst).Nodup) (hmem : (id, handler) ∈ l)
    (name : UInt32) (k : Bytes) (ver : UInt32) :
    ((l.filterMap (notify func name k ver)).filter (·.1 = id)).map Prod.snd =
      if func handler ≠ 0 then [⟨func handler, handler.data, name, k, ver⟩] else [] := by
  induction l with
  | nil => exact absurd hmem List.not_mem_nil
  | cons e l ih =>
    obtain ⟨hout, hnd'⟩ := List.nodup_cons.mp hnd
    rw [List.filterMap_cons, notify]
    rcases List.mem_cons.mp hmem with rfl | hmem
    · by_cases hfunc : func handler ≠ 0
      · simp only [if_pos hfunc]
        rw [List.filter_cons_of_pos (by simp), List.map_cons, filterMap_notify_of_notMem hout]
      · simp only [if_neg hfunc]
        exact filterMap_notify_of_notMem hout name k ver
    · have hne : e.1 ≠ id := fun h => hout (h ▸ List.mem_map_of_mem hmem)
      by_cases hfunc : func e.2 ≠ 0
      · simp only [if_pos hfunc]
        rw [List.filter_cons_of_neg (by simpa using hne)]
        exact ih hnd' hmem
      · simp only [if_neg hfunc]
        exact ih hnd' hmem

/-- **One handler is told once** of a global that concerns it: by its interface or as a general one. -/
theorem told_eq (I : Inv wl) (hmem : (id, handler) ∈ wl.handlers iface) (hne : g.iface ≠ []) :
    (((wl.handlers g.iface).filterMap (notify func g.name g.iface g.version) ++
      (wl.handlers []).filterMap (notify func g.name [] g.version)).filter (·.1 = id)).map Prod.snd =
      told func handler iface g := by
  have hids : (MultiMap.ids wl.globalHandlers.toMap).Nodup := I.table.live_nodup
  have hnd : ∀ k, ((wl.handlers k).map Prod.fst).Nodup := fun k => by
    rw [handlers_ids]
    exact MultiMap.find_nodup hids k
  have hout : ∀ k, k ≠ iface → id ∉ (wl.handlers k).map Prod.fst := fun k hk hmem' => by
    rw [handlers_ids] at hmem'
    refine MultiMap.find_disjoint hids hk hmem' ?_
    rw [← handlers_ids]
    exact List.mem_map_of_mem hmem
  rw [List.filter_append, List.map_append, told]
  by_cases hiface : iface = []
  · subst hiface
    rw [filterMap_notify_of_notMem (hout _ hne), filterMap_notify (hnd []) hmem, List.nil_append]
    simp [Concerns, callFor]
  · rw [filterMap_notify_of_notMem (hout [] (Ne.symm hiface)), List.append_nil]
    by_cases hg : g.iface = iface
    · subst hg
      rw [filterMap_notify (hnd _) hmem]
      simp [Concerns, callFor]
    · rw [filterMap_notify_of_notMem (hout _ hg)]
      simp [Concerns, hiface, hg]

/-! ### Steps and runs -/

theorem globals_names (wl : Wayland) : wl.globals.map Global.name = wl.wlObjs.map WaylandObject.name := by
  rw [globals, List.map_map]
  rfl

theorem find?_global (hnd : (gs.map Global.name).Nodup) (hg : g ∈ gs) : gs.find? (·.name == g.name) = some g := by
  cases hfind : gs.find? (·.name == g.name) with
  | none =>
    rw [List.find?_eq_none] at hfind
    exact absurd (beq_self_eq_true _) (hfind g hg)
  | some g' =>
    have hbeq := List.find?_some hfind
    rw [List.inj_on_of_nodup_map hnd (List.mem_of_find?_eq_some hfind) hg (eq_of_beq hbeq)]

/-- What an operation does to the globals and the handlers that stay. -/
structure Stepped (wl wl' : Wayland) (op : WaylandOp) : Prop where
  inv : Inv wl'
  globals : wl'.globals = globalsAfter wl.globals op
  calls : ∃ cs, wl'.calls = wl.calls ++ cs ∧ ∀ id handler iface, (id, handler) ∈ wl.handlers iface →
    (cs.filter (·.1 = id)).map Prod.snd = toldOf handler iface wl.globals op
  keep : ∀ id handler iface, (id, handler) ∈ wl.handlers iface → op ≠ .removeGlobalHandler id →
    (id, handler) ∈ wl'.handlers iface

theorem step_spec (I : Inv wl) (ha : wl.AllowedAt op) : ∃ wl', wl.apply op = some wl' ∧ Stepped wl wl' op := by
  cases op with
  | globalAdded name iface ver malloc malloc' =>
    obtain ⟨hiface, hname, hptr, hlt, hptr', hlt', hne⟩ := ha
    have E := globalAdded_spec I ver hiface hname hptr hlt hptr' hlt' hne
    refine ⟨_, rfl, E.inv, E.globals, ⟨_, E.calls, fun id handler k hmem => ?_⟩, fun id handler k hmem _ => ?_⟩
    · exact told_eq (g := ⟨name, iface, ver⟩) I hmem hiface
    · rw [E.handlers]
      exact hmem
  | globalRemoved name malloc =>
    obtain ⟨hname, hptr, hlt⟩ := ha
    obtain ⟨g, hg, rfl⟩ := List.mem_map.mp hname
    obtain ⟨wl', hwl', E⟩ := globalRemoved_spec I hg hptr hlt
    have hfind := find?_global (globals_names wl ▸ I.names) hg
    refine ⟨wl', hwl', E.inv, ?_, ⟨_, E.calls, fun id handler k hmem => ?_⟩, fun id handler k hmem _ => ?_⟩
    · rw [E.globals, globalsAfter, hfind]
      rfl
    · have hne : g.iface ≠ [] := by
        obtain ⟨obj, hobj, rfl⟩ := List.mem_map.mp hg
        obtain ⟨k, hk, hkey⟩ := I.keys obj hobj
        exact fun h => hk ((I.table.name hkey).symm.trans h)
      rw [toldOf, hfind, told_eq I hmem hne]
      simp
    · rw [E.handlers]
      exact hmem
  | regGlobalHandler iface handler runExists malloc =>
    obtain ⟨hfits, hptr, hlt, hroom⟩ := ha
    obtain ⟨I', hfresh, hhandlers, hglobals, hcalls⟩ :=
      regGlobalHandler_spec I hfits hptr hlt hroom iface runExists
    refine ⟨_, rfl, I', hglobals, ⟨_, hcalls, fun id handler' k hmem => ?_⟩, fun id handler' k hmem _ => ?_⟩
    · -- the calls are all for the new handler
      have hne : (wl.regGlobalHandler iface handler runExists malloc).1 ≠ id := fun h =>
        hfresh k (h ▸ List.mem_map_of_mem hmem)
      rw [toldOf, List.map_eq_nil_iff, List.filter_eq_nil_iff]
      intro c hc
      split at hc
      · obtain ⟨g, -, rfl⟩ := List.mem_map.mp hc
        simpa using hne
      · exact absurd hc List.not_mem_nil
    · rw [hhandlers]
      split
      · next hk => exact List.mem_cons_of_mem _ (hk ▸ hmem)
      · exact hmem
  | removeGlobalHandler id =>
    obtain ⟨I', hhandlers, hglobals, hcalls⟩ := removeGlobalHandler_spec I ha
    refine ⟨_, rfl, I', hglobals, ⟨[], hcalls.trans (List.append_nil _).symm, fun _ _ _ _ => rfl⟩,
      fun id' handler k hmem hop => ?_⟩
    rw [hhandlers]
    exact List.mem_filter.mpr ⟨hmem, decide_eq_true fun h => hop (h ▸ rfl)⟩

theorem exec_some_cons {op : WaylandOp} {ops : List WaylandOp} (happly : wl.apply op = some wl') :
    Run.exec step (some wl) (op :: ops) = Run.exec step (some wl') ops := by
  rw [Run.exec_cons, step, Option.bind_some, happly]

/-- **A run from any state** of the registry, for a handler that stays. -/
theorem exec_delivered {ops : List WaylandOp} (I : Inv wl) (hmem : (id, handler) ∈ wl.handlers iface)
    (ha : Run.Admissible step Allowed (some wl) ops) (hkeep : .removeGlobalHandler id ∉ ops) :
    ∃ wl', Run.exec step (some wl) ops = some wl' ∧ Inv wl' ∧ (id, handler) ∈ wl'.handlers iface ∧
      wl'.globals = ops.foldl globalsAfter wl.globals ∧
      ∃ cs, wl'.calls = wl.calls ++ cs ∧
        (cs.filter (·.1 = id)).map Prod.snd = delivered handler iface wl.globals ops := by
  induction ops generalizing wl with
  | nil => exact ⟨wl, rfl, I, hmem, rfl, [], (List.append_nil _).symm, rfl⟩
  | cons op ops ih =>
    obtain ⟨hop, hrest⟩ := ha
    rw [List.mem_cons, not_or] at hkeep
    obtain ⟨wl₁, happly, S⟩ := step_spec I (hop wl rfl)
    rw [step, Option.bind_some, happly] at hrest
    obtain ⟨cs₁, hcalls₁, htold⟩ := S.calls
    obtain ⟨wl', hexec, I', hmem', hglobals, cs, hcalls, hdelivered⟩ :=
      ih S.inv (S.keep id handler iface hmem (Ne.symm hkeep.1)) hrest hkeep.2
    refine ⟨wl', (exec_some_cons happly).trans hexec, I', hmem', ?_, cs₁ ++ cs, ?_, ?_⟩
    · rw [hglobals, S.globals]
      rfl
    · rw [hcalls, hcalls₁, List.append_assoc]
    · rw [List.filter_append, List.map_append, htold id handler iface hmem, hdelivered, S.globals]
      rfl

theorem exec_inv {ops : List WaylandOp} (I : Inv wl) (ha : Run.Admissible step Allowed (some wl) ops) :
    ∃ wl', Run.exec step (some wl) ops = some wl' ∧ Inv wl' := by
  induction ops generalizing wl with
  | nil => exact ⟨wl, rfl, I⟩
  | cons op ops ih =>
    obtain ⟨wl₁, happly, S⟩ := step_spec I (ha.1 wl rfl)
    have hrest := ha.2
    rw [step, Option.bind_some, happly] at hrest
    obtain ⟨wl', hexec, I'⟩ := ih S.inv hrest
    exact ⟨wl', (exec_some_cons happly).trans hexec, I'⟩

/-- The registration of a handler in a run. -/
theorem exec_registration {array : ByteMem} {before after : List WaylandOp} {runExists : Bool} {malloc : KeyPtr}
    (ha : Run.Admissible step Allowed (some (new array))
      (before ++ .regGlobalHandler iface handler runExists malloc :: after)) :
    ∃ wl, Run.exec step (some (new array)) before = some wl ∧ Inv wl ∧
      wl.AllowedAt (.regGlobalHandler iface handler runExists malloc) ∧
      Run.Admissible step Allowed (some (wl.regGlobalHandler iface handler runExists malloc).2) after ∧
      Run.exec step (some (new array)) (before ++ .regGlobalHandler iface handler runExists malloc :: after) =
        Run.exec step (some (wl.regGlobalHandler iface handler runExists malloc).2) after := by
  obtain ⟨hbefore, hop, hafter⟩ := Run.admissible_append.mp ha
  obtain ⟨wl, hwl, I⟩ := exec_inv (new_inv array) hbefore
  rw [hwl] at hop hafter
  refine ⟨wl, hwl, I, hop wl rfl, hafter, ?_⟩
  rw [Run.exec_append, hwl]
  exact exec_some_cons rfl

/-- What a handler is told from its registration on. -/
theorem registered_delivered {runExists : Bool} {malloc : KeyPtr} {after : List WaylandOp} (I : Inv wl)
    (hop : wl.AllowedAt (.regGlobalHandler iface handler runExists malloc))
    (hafter : Run.Admissible step Allowed (some (wl.regGlobalHandler iface handler runExists malloc).2) after)
    (hkeep : .removeGlobalHandler (wl.regGlobalHandler iface handler runExists malloc).1 ∉ after) :
    ∃ wl', Run.exec step (some (wl.regGlobalHandler iface handler runExists malloc).2) after = some wl' ∧
      wl'.globals = after.foldl globalsAfter wl.globals ∧
      wl'.callsOf wl.calls.length (wl.regGlobalHandler iface handler runExists malloc).1 =
        (if runExists ∧ handler.added ≠ 0 then
          (wl.existing iface).map (callFor GlobalHandler.added handler iface) else []) ++
        delivered handler iface wl.globals after := by
  obtain ⟨hfits, hptr, hlt, hroom⟩ := hop
  obtain ⟨I', hfresh, hhandlers, hglobals, hcalls⟩ := regGlobalHandler_spec I hfits hptr hlt hroom iface runExists
  set r := wl.regGlobalHandler iface handler runExists malloc with hr
  have hmem : (r.1, handler) ∈ r.2.handlers iface := by
    rw [hhandlers, if_pos rfl]
    exact List.mem_cons_self
  obtain ⟨wl', hexec, -, -, hglobals', cs, hcalls', hdelivered⟩ := exec_delivered I' hmem hafter hkeep
  refine ⟨wl', hexec, hglobals'.trans (by rw [hglobals]), ?_⟩
  rw [callsOf, hcalls', hcalls, List.append_assoc, List.drop_left, List.filter_append, List.map_append, hdelivered,
    hglobals]
  congr 1
  split
  · rw [List.filter_map, List.filter_eq_self.mpr (fun g _ => by simp), List.map_map]
    rfl
  · rfl

/-- **What a handler is told**, over any run that does not remove it: of what is there when it is registered, if it
asks for it, and then of every event that concerns it, in order. -/
theorem run_delivered (array : ByteMem) (before after : List WaylandOp) (iface : Bytes) (handler : GlobalHandler)
    (runExists : Bool) (malloc : KeyPtr)
    (ha : Run.Admissible step Allowed (some (new array))
      (before ++ .regGlobalHandler iface handler runExists malloc :: after)) :
    ∃ wl, Run.exec step (some (new array)) before = some wl ∧
      (.removeGlobalHandler (wl.regGlobalHandler iface handler runExists malloc).1 ∉ after →
        ∃ wl', Run.exec step (some (new array))
            (before ++ .regGlobalHandler iface handler runExists malloc :: after) = some wl' ∧
          wl'.globals = after.foldl globalsAfter wl.globals ∧
          wl'.callsOf wl.calls.length (wl.regGlobalHandler iface handler runExists malloc).1 =
            (if runExists ∧ handler.added ≠ 0 then
              (wl.existing iface).map (callFor GlobalHandler.added handler iface) else []) ++
            delivered handler iface wl.globals after) := by
  obtain ⟨wl, hwl, I, hop, hafter, hexec⟩ := exec_registration ha
  exact ⟨wl, hwl, fun hkeep => hexec ▸ registered_delivered I hop hafter hkeep⟩

/-- A global is there before the handler, and another comes and the first goes after it. -/
def sampleBefore : List WaylandOp := [.globalAdded 1 [115] 5 8 16]

def sampleAfter : List WaylandOp :=
  [.globalAdded 2 [115] 5 24 32, .globalAdded 3 [116] 1 24 32, .globalRemoved 1 40]

theorem run_delivered_sample :
    ∃ wl, Run.exec step (some (new fun _ => 0)) sampleBefore = some wl ∧
      (.removeGlobalHandler (wl.regGlobalHandler [115] ⟨1, 2, 3⟩ true 48).1 ∉ sampleAfter →
        ∃ wl', Run.exec step (some (new fun _ => 0))
            (sampleBefore ++ .regGlobalHandler [115] ⟨1, 2, 3⟩ true 48 :: sampleAfter) = some wl' ∧
          wl'.globals = sampleAfter.foldl globalsAfter wl.globals ∧
          wl'.callsOf wl.calls.length (wl.regGlobalHandler [115] ⟨1, 2, 3⟩ true 48).1 =
            (if true ∧ (1 : ℕ) ≠ 0 then
              (wl.existing [115]).map (callFor GlobalHandler.added ⟨1, 2, 3⟩ [115]) else []) ++
            delivered ⟨1, 2, 3⟩ [115] wl.globals sampleAfter) :=
  run_delivered (fun _ => 0) sampleBefore sampleAfter [115] ⟨1, 2, 3⟩ true 48 (by decide +kernel)

/-! ### A handler that keeps book -/

/-- A call in the book of the globals that are there; a global that is there already, or that is taken back and is not
there, does not fit in. -/
def noteCall (handler : GlobalHandler) (known : List (UInt32 × UInt32)) (call : GlobalCall) :
    Option (List (UInt32 × UInt32)) :=
  if call.func = handler.added then
    if call.name ∈ known.map Prod.fst then none else some (known ++ [(call.name, call.version)])
  else if call.func = handler.removed ∧ (call.name, call.version) ∈ known then
    some (known.erase (call.name, call.version))
  else none

def noteCalls (handler : GlobalHandler) (known : List (UInt32 × UInt32)) (calls : List GlobalCall) :
    Option (List (UInt32 × UInt32)) :=
  calls.foldlM (noteCall handler) known

/-- The globals that concern a handler. -/
def concerning (iface : Bytes) (gs : List Global) : List (UInt32 × UInt32) :=
  (gs.filter fun g => Concerns iface g).map fun g => (g.name, g.version)

/-- The operation has a name that is not there, or one that is. -/
def Fresh (gs : List Global) : WaylandOp → Prop
  | .globalAdded name _ _ _ _ => name ∉ gs.map Global.name
  | .globalRemoved name _ => name ∈ gs.map Global.name
  | .regGlobalHandler .. | .removeGlobalHandler _ => True

theorem AllowedAt.fresh (ha : wl.AllowedAt op) : Fresh wl.globals op := by
  cases op with
  | globalAdded name iface ver malloc malloc' => exact ha.2.1
  | globalRemoved name malloc => exact ha.1
  | regGlobalHandler iface handler runExists malloc => exact trivial
  | removeGlobalHandler id => exact trivial

theorem fst_concerning (h : name ∈ (concerning iface gs).map Prod.fst) : name ∈ gs.map Global.name := by
  rw [concerning, List.map_map] at h
  obtain ⟨g, hg, rfl⟩ := List.mem_map.mp h
  exact List.mem_map_of_mem (List.mem_of_mem_filter hg)

theorem concerning_erase (hnd : (gs.map Global.name).Nodup) (hg : g ∈ gs) :
    concerning iface (gs.erase g) = if Concerns iface g then (concerning iface gs).erase (g.name, g.version)
      else concerning iface gs := by
  have hgs : gs.Nodup := hnd.of_map
  have hfilter : (gs.erase g).filter (fun g => Concerns iface g) = (gs.filter fun g => Concerns iface g).erase g := by
    rw [hgs.erase_eq_filter, List.filter_comm, ← (hgs.filter _).erase_eq_filter]
  rw [concerning, hfilter]
  split
  · have hinj : ∀ g' ∈ gs.filter (fun g => Concerns iface g), (g'.name, g'.version) = (g.name, g.version) → g' = g :=
      fun g' hg' he => List.inj_on_of_nodup_map hnd (List.mem_of_mem_filter hg') hg (congrArg Prod.fst he)
    exact map_erase_of_inj (f := fun g : Global => (g.name, g.version)) hinj
  · next hout => rw [List.erase_of_not_mem (by simp [hout]), concerning]

/-- **A book that has the globals that are there** has them after an operation. -/
theorem noteCalls_toldOf {known : List (UInt32 × UInt32)} (hadded : handler.added ≠ 0) (hremoved : handler.removed ≠ 0)
    (hne : handler.removed ≠ handler.added) (hnd : (gs.map Global.name).Nodup) (hop : Fresh gs op)
    (hknown : known.Perm (concerning iface gs)) :
    ∃ known', noteCalls handler known (toldOf handler iface gs op) = some known' ∧
      known'.Perm (concerning iface (globalsAfter gs op)) := by
  cases op with
  | globalAdded name iface' ver malloc malloc' =>
    rw [concerning] at hknown
    rw [toldOf, told, globalsAfter, concerning, List.filter_append, List.map_append]
    by_cases hc : Concerns iface ⟨name, iface', ver⟩
    · have hout : name ∉ known.map Prod.fst := fun h => hop (fst_concerning ((hknown.map Prod.fst).mem_iff.mp h))
      refine ⟨known ++ [(name, ver)], ?_, ?_⟩
      · rw [if_pos ⟨hc, hadded⟩, noteCalls, List.foldlM_cons, noteCall, callFor, if_pos rfl, if_neg hout]
        rfl
      · rw [List.filter_singleton]
        simpa [hc] using hknown.append_right [(name, ver)]
    · refine ⟨known, ?_, ?_⟩
      · rw [if_neg fun h => hc h.1]
        rfl
      · rw [List.filter_singleton]
        simpa [hc] using hknown
  | globalRemoved name malloc =>
    obtain ⟨g, hg, rfl⟩ := List.mem_map.mp hop
    rw [toldOf, globalsAfter, find?_global hnd hg, Option.elim_some, concerning_erase hnd hg]
    simp only [Option.toList_some, List.flatMap_cons, List.flatMap_nil, List.append_nil, told]
    by_cases hc : Concerns iface g
    · have hmem : (g.name, g.version) ∈ known := by
        rw [hknown.mem_iff]
        exact List.mem_map.mpr ⟨g, List.mem_filter.mpr ⟨hg, decide_eq_true hc⟩, rfl⟩
      refine ⟨known.erase (g.name, g.version), ?_, ?_⟩
      · rw [if_pos ⟨hc, hremoved⟩, noteCalls, List.foldlM_cons, noteCall, callFor, if_neg hne, if_pos ⟨rfl, hmem⟩]
        rfl
      · rw [if_pos hc]
        exact hknown.erase _
    · refine ⟨known, ?_, ?_⟩
      · rw [if_neg fun h => hc h.1]
        rfl
      · rw [if_neg hc]
        exact hknown
  | regGlobalHandler iface' handler' runExists malloc => exact ⟨known, rfl, hknown⟩
  | removeGlobalHandler id => exact ⟨known, rfl, hknown⟩

theorem noteCalls_append (known : List (UInt32 × UInt32)) (calls calls' : List GlobalCall) :
    noteCalls handler known (calls ++ calls') = (noteCalls handler known calls).bind (noteCalls handler · calls') := by
  rw [noteCalls, List.foldlM_append]
  rfl

theorem noteCalls_delivered (hadded : handler.added ≠ 0) (hremoved : handler.removed ≠ 0)
    (hne : handler.removed ≠ handler.added) {ops : List WaylandOp} {known : List (UInt32 × UInt32)} (I : Inv wl)
    (ha : Run.Admissible step Allowed (some wl) ops) (hknown : known.Perm (concerning iface wl.globals)) :
    ∃ known', noteCalls handler known (delivered handler iface wl.globals ops) = some known' ∧
      known'.Perm (concerning iface (ops.foldl globalsAfter wl.globals)) := by
  induction ops generalizing wl known with
  | nil => exact ⟨known, rfl, hknown⟩
  | cons op ops ih =>
    have hop := ha.1 wl rfl
    obtain ⟨wl₁, happly, S⟩ := step_spec I hop
    have hrest := ha.2
    rw [step, Option.bind_some, happly] at hrest
    have hnames : (wl.globals.map Global.name).Nodup := globals_names wl ▸ I.names
    obtain ⟨known₁, hnote, hknown₁⟩ := noteCalls_toldOf hadded hremoved hne hnames hop.fresh hknown
    rw [delivered, noteCalls_append, hnote, Option.bind_some, List.foldl_cons, ← S.globals]
    rw [← S.globals] at hknown₁
    exact ih S.inv hrest hknown₁

/-- What is there at the registration, in the book. -/
theorem noteCalls_existing (iface : Bytes) (handler : GlobalHandler) (gs : List Global)
    (known : List (UInt32 × UInt32)) (hnd : (known.map Prod.fst ++ gs.map Global.name).Nodup) :
    noteCalls handler known (gs.map (callFor GlobalHandler.added handler iface)) =
      some (known ++ gs.map fun g => (g.name, g.version)) := by
  induction gs generalizing known with
  | nil =>
    rw [List.map_nil, List.map_nil, List.append_nil]
    rfl
  | cons g gs ih =>
    have hout : g.name ∉ known.map Prod.fst := fun h =>
      List.disjoint_of_nodup_append hnd h (by simp)
    have hstep : noteCall handler known (callFor GlobalHandler.added handler iface g) =
        some (known ++ [(g.name, g.version)]) := by
      rw [noteCall, callFor, if_pos rfl, if_neg hout]
    have hrec := ih (known ++ [(g.name, g.version)]) (by simpa using hnd)
    rw [noteCalls] at hrec
    rw [List.map_cons, noteCalls, List.foldlM_cons, hstep]
    simpa using hrec

/-- What a handler with both functions knows from its registration on. -/
theorem registered_known {malloc : KeyPtr} {after : List WaylandOp} (hadded : handler.added ≠ 0)
    (hremoved : handler.removed ≠ 0) (hne : handler.removed ≠ handler.added) (I : Inv wl)
    (hop : wl.AllowedAt (.regGlobalHandler iface handler true malloc))
    (hafter : Run.Admissible step Allowed (some (wl.regGlobalHandler iface handler true malloc).2) after)
    (hkeep : .removeGlobalHandler (wl.regGlobalHandler iface handler true malloc).1 ∉ after) :
    ∃ wl' known, Run.exec step (some (wl.regGlobalHandler iface handler true malloc).2) after = some wl' ∧
      noteCalls handler [] (wl'.callsOf wl.calls.length (wl.regGlobalHandler iface handler true malloc).1) =
        some known ∧
      known.Perm (concerning iface wl'.globals) := by
  obtain ⟨wl', hwl', hglobals, hcalls⟩ := registered_delivered I hop hafter hkeep
  obtain ⟨hfits, hptr, hlt, hroom⟩ := hop
  obtain ⟨I', -, -, hsame, -⟩ := regGlobalHandler_spec I hfits hptr hlt hroom iface true
  have hnames : (wl.globals.map Global.name).Nodup := globals_names wl ▸ I.names
  have hperm : ((wl.existing iface).map fun g => (g.name, g.version)).Perm (concerning iface wl.globals) := by
    rw [existing, concerning]
    by_cases hiface : iface = []
    · rw [if_pos hiface]
      simp [Concerns, hiface]
    · rw [if_neg hiface, List.map_reverse]
      simp [Concerns, hiface]
  have hexisting : ((wl.existing iface).map Global.name).Nodup := by
    have hsub : ((concerning iface wl.globals).map Prod.fst).Nodup := by
      rw [concerning, List.map_map]
      exact hnames.sublist (List.filter_sublist.map _)
    have hmap := (hperm.map Prod.fst).nodup_iff.mpr hsub
    rwa [List.map_map] at hmap
  have hnote := noteCalls_existing iface handler (wl.existing iface) [] hexisting
  rw [List.nil_append] at hnote
  have hstart : (wl.regGlobalHandler iface handler true malloc).2.globals = wl.globals := hsame
  obtain ⟨known, hknown, hlast⟩ := noteCalls_delivered hadded hremoved hne I' hafter (hstart.symm ▸ hperm)
  rw [hstart] at hknown hlast
  refine ⟨wl', known, hwl', ?_, hglobals ▸ hlast⟩
  rw [hcalls, if_pos ⟨rfl, hadded⟩, noteCalls_append, hnote]
  exact hknown

/-- **What a handler knows.** If it has both functions and asks for what is there, it is at any time told of no global
twice and of none taken back that is not there, and knows those that concern it. -/
theorem run_known (array : ByteMem) (before after : List WaylandOp) (iface : Bytes) (handler : GlobalHandler)
    (malloc : KeyPtr) (hadded : handler.added ≠ 0) (hremoved : handler.removed ≠ 0)
    (hne : handler.removed ≠ handler.added)
    (ha : Run.Admissible step Allowed (some (new array))
      (before ++ .regGlobalHandler iface handler true malloc :: after)) :
    ∃ wl, Run.exec step (some (new array)) before = some wl ∧
      (.removeGlobalHandler (wl.regGlobalHandler iface handler true malloc).1 ∉ after →
        ∃ wl' known, Run.exec step (some (new array))
            (before ++ .regGlobalHandler iface handler true malloc :: after) = some wl' ∧
          noteCalls handler [] (wl'.callsOf wl.calls.length (wl.regGlobalHandler iface handler true malloc).1) =
            some known ∧
          known.Perm (concerning iface wl'.globals)) := by
  obtain ⟨wl, hwl, I, hop, hafter, hexec⟩ := exec_registration ha
  exact ⟨wl, hwl, fun hkeep => hexec ▸ registered_known hadded hremoved hne I hop hafter hkeep⟩

theorem run_known_sample :
    ∃ wl, Run.exec step (some (new fun _ => 0)) sampleBefore = some wl ∧
      (.removeGlobalHandler (wl.regGlobalHandler [] ⟨1, 2, 3⟩ true 48).1 ∉ sampleAfter →
        ∃ wl' known, Run.exec step (some (new fun _ => 0))
            (sampleBefore ++ .regGlobalHandler [] ⟨1, 2, 3⟩ true 48 :: sampleAfter) = some wl' ∧
          noteCalls ⟨1, 2, 3⟩ [] (wl'.callsOf wl.calls.length (wl.regGlobalHandler [] ⟨1, 2, 3⟩ true 48).1) =
            some known ∧
          known.Perm (concerning [] wl'.globals)) :=
  run_known (fun _ => 0) sampleBefore sampleAfter [] ⟨1, 2, 3⟩ 48 (by decide) (by decide) (by decide)
    (by decide +kernel)

end Wayland

end Fcitx
