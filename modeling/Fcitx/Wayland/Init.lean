/-
# The singletons and the seats

What `module/wayland/waylandmodule.c` and `wayland-input.c` do with the globals.
`fcitx_wayland_init` waits for four singletons: a handler binds the first global of its
interface and fails at a second, so the start succeeds exactly if each of them is
announced once (`Wayland.init_failed_iff`). Then the seats: an input is made for a seat
that is announced and freed for one that is taken back, and the list has those that are
there (`Wayland.run_seats`).

Key definitions: `SingletonListener`, `Wayland.singletons`, `Wayland.init`, `Wayland.handleSeat`.
Key theorems: `SingletonListener.foldl_failed`, `Wayland.length_delivered`,
`Wayland.init_failed_iff`, `Wayland.run_seats`.
-/
import Fcitx.Wayland.Delivery

namespace Fcitx

/-- `FxWaylandSingletonListener`; `ret` is the name of the global that is bound. -/
structure SingletonListener where
  ifaceName : Bytes
  ver : UInt32
  ret : Option UInt32
  failed : Bool
deriving DecidableEq

namespace SingletonListener

/-- `FXWL_DEF_SINGLETON` -/
def make (ifaceName : Bytes) (ver : UInt32) : SingletonListener := ⟨ifaceName, ver, none, true⟩

/-- `FxWaylandHandleSingletonAdded` -/
def handleAdded (singleton : SingletonListener) (call : GlobalCall) : SingletonListener :=
  if singleton.ret.isSome then { singleton with failed := true }
  else { singleton with ret := some call.name, failed := false }

theorem foldl_bound (calls : List GlobalCall) (singleton : SingletonListener) (hret : singleton.ret.isSome) :
    (calls.foldl handleAdded singleton).failed = (singleton.failed || !calls.isEmpty) := by
  induction calls generalizing singleton with
  | nil => simp
  | cons call calls ih =>
    rw [List.foldl_cons, handleAdded, if_pos hret, ih { singleton with failed := true } hret]
    simp

/-- **A singleton that is announced once** does not fail, and no other. -/
theorem foldl_failed (ifaceName : Bytes) (ver : UInt32) (calls : List GlobalCall) :
    (calls.foldl handleAdded (make ifaceName ver)).failed = false ↔ calls.length = 1 := by
  cases calls with
  | nil => simp [make]
  | cons call calls =>
    have hfirst : handleAdded (make ifaceName ver) call = ⟨ifaceName, ver, some call.name, false⟩ := rfl
    rw [List.foldl_cons, hfirst, foldl_bound calls _ rfl]
    cases calls with
    | nil => simp
    | cons call' calls => simp

end SingletonListener

namespace Wayland

open HandlerTable

/-- `singleton_listeners` of `fcitx_wayland_init` -/
def singletons : List SingletonListener :=
  [.make "wl_compositor".toUTF8.toList 2, .make "wl_shell".toUTF8.toList 1, .make "wl_shm".toUTF8.toList 1,
    .make "wl_data_device_manager".toUTF8.toList 1]

/-- The handler of a listener at `addr`: it has no `removed`. -/
def singletonHandler (func addr : ℕ) : GlobalHandler := ⟨func, 0, addr⟩

/-- The loop that registers the listeners, which are behind each other from `addr` on; with the id of each. -/
def regSingletons (func size : ℕ) : List SingletonListener → List KeyPtr → ℕ → Wayland →
    List (ℤ × SingletonListener) × Wayland
  | listener :: listeners, malloc :: mallocs, addr, wl =>
    let (id, wl) := wl.regGlobalHandler listener.ifaceName (singletonHandler func addr) true malloc
    let (regs, wl) := regSingletons func size listeners mallocs (addr + size) wl
    ((id, listener) :: regs, wl)
  | _, _, _, wl => ([], wl)

/-- `fcitx_wayland_init` up to the roundtrip: the registry, and the listeners after their calls. -/
def init (array : ByteMem) (func size addr : ℕ) (mallocs : List KeyPtr) (events : List WaylandOp) :
    Option (Wayland × List SingletonListener) :=
  let (regs, wl) := regSingletons func size singletons mallocs addr (new array)
  (Run.exec step (some wl) events).map fun wl =>
    (wl, regs.map fun (id, listener) => (wl.callsOf 0 id).foldl SingletonListener.handleAdded listener)

/-! ### The singletons -/

variable {wl : Wayland} {iface : Bytes} {handler : GlobalHandler} {id : ℤ} {array : ByteMem}

/-- The event announces a global of `iface`. -/
def Announces (iface : Bytes) : WaylandOp → Prop
  | .globalAdded _ iface' _ _ _ => iface' = iface
  | .globalRemoved _ _ | .regGlobalHandler _ _ _ _ | .removeGlobalHandler _ => False

instance (iface : Bytes) : ∀ op, Decidable (Announces iface op)
  | .globalAdded _ _ _ _ _ => inferInstanceAs (Decidable (_ = _))
  | .globalRemoved _ _ | .regGlobalHandler _ _ _ _ | .removeGlobalHandler _ => .isFalse not_false

/-- **A handler without `removed`** is told as often as a global of its interface is announced. -/
theorem length_delivered (hiface : iface ≠ []) (hadded : handler.added ≠ 0) (hremoved : handler.removed = 0)
    (gs : List Global) (ops : List WaylandOp) :
    (delivered handler iface gs ops).length = (ops.filter (Announces iface)).length := by
  induction ops generalizing gs with
  | nil => rfl
  | cons op ops ih =>
    rw [delivered, List.length_append, ih, List.filter_cons]
    cases op with
    | globalAdded name iface' ver malloc malloc' =>
      by_cases h : iface' = iface
      · simp [toldOf, told, Concerns, Announces, h, hadded, Nat.add_comm]
      · simp [toldOf, told, Concerns, Announces, h, hiface]
    | globalRemoved name malloc =>
      have hnone : ¬ Announces iface (.globalRemoved name malloc) := not_false
      simp [toldOf, told, hremoved, hnone]
    | regGlobalHandler iface' handler' runExists malloc =>
      have hnone : ¬ Announces iface (.regGlobalHandler iface' handler' runExists malloc) := not_false
      simp [toldOf, hnone]
    | removeGlobalHandler id =>
      have hnone : ¬ Announces iface (.removeGlobalHandler id) := not_false
      simp [toldOf, hnone]

/-- The pointers are new for the listeners that are registered one after the other. -/
def NewKeys (func size : ℕ) : List SingletonListener → List KeyPtr → ℕ → Wayland → Prop
  | [], _, _, _ => True
  | _ :: _, [], _, _ => False
  | listener :: listeners, malloc :: mallocs, addr, wl =>
    wl.AllowedAt (.regGlobalHandler listener.ifaceName (singletonHandler func addr) true malloc) ∧
      NewKeys func size listeners mallocs (addr + size)
        (wl.regGlobalHandler listener.ifaceName (singletonHandler func addr) true malloc).2

instance decidableNewKeys (func size : ℕ) : ∀ listeners mallocs addr wl,
    Decidable (NewKeys func size listeners mallocs addr wl)
  | [], _, _, _ => .isTrue trivial
  | _ :: _, [], _, _ => .isFalse not_false
  | _ :: listeners, _ :: mallocs, addr, _ =>
    @instDecidableAnd _ _ inferInstance (decidableNewKeys func size listeners mallocs (addr + size) _)

/-- **The listeners are registered** and told of nothing while there is nothing. -/
theorem regSingletons_spec {func size : ℕ} {listeners : List SingletonListener} {mallocs : List KeyPtr} {addr : ℕ}
    (I : Inv wl) (hglobals : wl.globals = []) (hcalls : wl.calls = [])
    (hnew : NewKeys func size listeners mallocs addr wl) :
    let r := regSingletons func size listeners mallocs addr wl
    Inv r.2 ∧ r.2.globals = [] ∧ r.2.calls = [] ∧ r.1.map Prod.snd = listeners ∧
      (∀ e ∈ r.1, ∃ addr, (e.1, singletonHandler func addr) ∈ r.2.handlers e.2.ifaceName) ∧
      ∀ id handler k, (id, handler) ∈ wl.handlers k → (id, handler) ∈ r.2.handlers k := by
  induction listeners generalizing mallocs addr wl with
  | nil =>
    cases mallocs with
    | nil => exact ⟨I, hglobals, hcalls, rfl, fun e he => absurd he List.not_mem_nil, fun _ _ _ h => h⟩
    | cons malloc mallocs =>
      exact ⟨I, hglobals, hcalls, rfl, fun e he => absurd he List.not_mem_nil, fun _ _ _ h => h⟩
  | cons listener listeners ih =>
    cases mallocs with
    | nil => exact absurd hnew not_false
    | cons malloc mallocs =>
      obtain ⟨⟨hfits, hptr, hlt, hroom⟩, hnew'⟩ := hnew
      obtain ⟨I₁, -, hhandlers, hglobals₁, hcalls₁⟩ :=
        regGlobalHandler_spec I hfits hptr hlt hroom listener.ifaceName true
      have hexisting : wl.existing listener.ifaceName = [] := by
        rw [existing, hglobals]
        split <;> rfl
      have hcalls₁' :
          (wl.regGlobalHandler listener.ifaceName (singletonHandler func addr) true malloc).2.calls = [] := by
        rw [hcalls₁, hcalls, hexisting]
        split <;> rfl
      obtain ⟨I₂, hglobals₂, hcalls₂, hsnd, hregs, hkeep⟩ := ih I₁ (hglobals₁.trans hglobals) hcalls₁' hnew'
      refine ⟨I₂, hglobals₂, hcalls₂, congrArg (listener :: ·) hsnd, fun e he => ?_, fun id handler k hmem => ?_⟩
      · rcases List.mem_cons.mp he with rfl | he
        · refine ⟨addr, hkeep _ _ _ ?_⟩
          rw [hhandlers, if_pos rfl]
          exact List.mem_cons_self
        · exact hregs e he
      · refine hkeep id handler k ?_
        rw [hhandlers]
        split
        · next hk => exact List.mem_cons_of_mem _ (hk ▸ hmem)
        · exact hmem

theorem singletons_ifaceName : ∀ listener ∈ singletons, listener.ifaceName ≠ [] ∧
    listener = .make listener.ifaceName listener.ver := by
  decide +kernel

/-- **The start of the module** fails for a singleton exactly if its interface is not announced once, whatever else the
compositor announces and takes back in the roundtrip. -/
theorem init_failed_iff (array : ByteMem) (func size addr : ℕ) (mallocs : List KeyPtr) (events : List WaylandOp)
    (hfunc : func ≠ 0) (hnew : NewKeys func size singletons mallocs addr (new array))
    (ha : Run.Admissible step Allowed (some (regSingletons func size singletons mallocs addr (new array)).2) events)
    (hkeep : ∀ id, .removeGlobalHandler id ∉ events) :
    ∃ wl listeners, init array func size addr mallocs events = some (wl, listeners) ∧
      List.Forall₂ (fun start listener => listener.failed = false ↔
        (events.filter (Announces start.ifaceName)).length = 1) singletons listeners := by
  obtain ⟨I, hglobals, hcalls, hsnd, hregs, -⟩ := regSingletons_spec (new_inv array) rfl rfl hnew
  set r := regSingletons func size singletons mallocs addr (new array) with hr
  obtain ⟨wl, hexec, -⟩ := exec_inv I ha
  refine ⟨wl, r.1.map fun e => (wl.callsOf 0 e.1).foldl SingletonListener.handleAdded e.2, ?_, ?_⟩
  · rw [init, ← hr]
    dsimp only
    rw [hexec]
    rfl
  · rw [← hsnd, List.forall₂_map_left_iff, List.forall₂_map_right_iff, List.forall₂_same]
    intro e he
    obtain ⟨addr', hmem⟩ := hregs e he
    obtain ⟨hiface, hmake⟩ := singletons_ifaceName e.2 (hsnd ▸ List.mem_map_of_mem he)
    obtain ⟨wl', hexec', -, -, -, cs, hcs, hdelivered⟩ := exec_delivered I hmem ha (hkeep e.1)
    obtain rfl := Option.some.inj (hexec'.symm.trans hexec)
    have hcalls' : wl'.callsOf 0 e.1 = delivered (singletonHandler func addr') e.2.ifaceName r.2.globals events := by
      rw [callsOf, List.drop_zero, hcs, hcalls, List.nil_append, hdelivered]
    have hlen := @length_delivered e.2.ifaceName (singletonHandler func addr') hiface hfunc rfl r.2.globals events
    have hfailed := SingletonListener.foldl_failed e.2.ifaceName e.2.ver
      (delivered (singletonHandler func addr') e.2.ifaceName r.2.globals events)
    rw [← hmake, hlen] at hfailed
    rw [hcalls']
    exact hfailed

/-- Two shells are announced, and the other three once. -/
def sampleEvents : List WaylandOp :=
  [.globalAdded 1 "wl_shell".toUTF8.toList 1 8 16, .globalAdded 2 "wl_compositor".toUTF8.toList 4 56 64,
    .globalAdded 3 "wl_shm".toUTF8.toList 1 56 64, .globalAdded 4 "wl_shell".toUTF8.toList 1 56 64,
    .globalAdded 5 "wl_data_device_manager".toUTF8.toList 3 56 64]

theorem init_failed_iff_sample :
    ∃ wl listeners, init (fun _ => 0) 1 72 1024 [24, 32, 40, 48] sampleEvents = some (wl, listeners) ∧
      List.Forall₂ (fun start listener => listener.failed = false ↔
        (sampleEvents.filter (Announces start.ifaceName)).length = 1) singletons listeners :=
  init_failed_iff (fun _ => 0) 1 72 1024 [24, 32, 40, 48] sampleEvents (by decide) (by decide +kernel)
    (by decide +kernel) (by simp [sampleEvents])

/-! ### The seats -/

/-- `FxWaylandHandleSeatAdded` and `FxWaylandHandleSeatRemoved` on `input_list`, with the `seat_id` of each input. -/
def handleSeat (handler : GlobalHandler) (inputList : List UInt32) (call : GlobalCall) : List UInt32 :=
  if call.func = handler.added then call.name :: inputList
  else if call.func = handler.removed then inputList.erase call.name
  else inputList

/-- The inputs are those of a book of the globals. -/
theorem foldl_handleSeat {calls : List GlobalCall} {known known' : List (UInt32 × UInt32)} {inputList : List UInt32}
    (hnote : noteCalls handler known calls = some known') (hinputs : inputList.Perm (known.map Prod.fst))
    (hnd : (known.map Prod.fst).Nodup) :
    (calls.foldl (handleSeat handler) inputList).Perm (known'.map Prod.fst) ∧ (known'.map Prod.fst).Nodup := by
  induction calls generalizing known inputList with
  | nil =>
    obtain rfl := Option.some.inj hnote
    exact ⟨hinputs, hnd⟩
  | cons call calls ih =>
    rw [noteCalls, List.foldlM_cons] at hnote
    obtain ⟨known₁, hcall, hnote⟩ := Option.bind_eq_some_iff.mp hnote
    rw [List.foldl_cons]
    rw [noteCall] at hcall
    rw [handleSeat]
    by_cases hadded : call.func = handler.added
    · rw [if_pos hadded] at hcall ⊢
      split at hcall
      · exact absurd hcall.symm (Option.some_ne_none known₁)
      · next hout =>
        obtain rfl := Option.some.inj hcall
        refine ih hnote ?_ ?_
        · rw [List.map_append]
          exact (hinputs.cons _).trans (List.perm_append_comm : List.Perm ([call.name] ++ _) _)
        · rw [List.map_append, List.map_singleton, ← List.concat_eq_append]
          exact hnd.concat hout
    · rw [if_neg hadded] at hcall ⊢
      split at hcall
      · next hremoved =>
        obtain rfl := Option.some.inj hcall
        have hmap : (known.erase (call.name, call.version)).map Prod.fst = (known.map Prod.fst).erase call.name :=
          map_erase_of_inj fun e he hfst => List.inj_on_of_nodup_map hnd he hremoved.2 hfst
        rw [if_pos hremoved.1]
        refine ih hnote ?_ ?_
        · rw [hmap]
          exact hinputs.erase call.name
        · rw [hmap]
          exact hnd.erase call.name
      · exact absurd hcall.symm (Option.some_ne_none known₁)

/-- The handler of `FxWaylandInputInit`. -/
def seatIface : Bytes := "wl_seat".toUTF8.toList

theorem seatIface_ne : seatIface ≠ [] := by decide +kernel

/-- **The inputs are the seats that are there**, after any run in which the handler of `FxWaylandInputInit` stays. -/
theorem run_seats (array : ByteMem) (before after : List WaylandOp) (handler : GlobalHandler) (malloc : KeyPtr)
    (hadded : handler.added ≠ 0) (hremoved : handler.removed ≠ 0) (hne : handler.removed ≠ handler.added)
    (ha : Run.Admissible step Allowed (some (new array))
      (before ++ .regGlobalHandler seatIface handler true malloc :: after)) :
    ∃ wl, Run.exec step (some (new array)) before = some wl ∧
      (.removeGlobalHandler (wl.regGlobalHandler seatIface handler true malloc).1 ∉ after →
        ∃ wl', Run.exec step (some (new array))
            (before ++ .regGlobalHandler seatIface handler true malloc :: after) = some wl' ∧
          ((wl'.callsOf wl.calls.length (wl.regGlobalHandler seatIface handler true malloc).1).foldl
            (handleSeat handler) []).Perm ((wl'.globals.filter (·.iface = seatIface)).map Global.name)) := by
  obtain ⟨wl, hwl, I, hop, hafter, hexec⟩ := exec_registration ha
  refine ⟨wl, hwl, fun hkeep => ?_⟩
  obtain ⟨wl', known, hwl', hnote, hperm⟩ := registered_known hadded hremoved hne I hop hafter hkeep
  obtain ⟨hinputs, -⟩ := foldl_handleSeat hnote (List.Perm.refl []) List.nodup_nil
  refine ⟨wl', hexec.trans hwl', hinputs.trans ?_⟩
  have hfst := hperm.map Prod.fst
  rw [concerning, List.map_map] at hfst
  simpa [Concerns, seatIface_ne, Function.comp_def] using hfst

/-- A seat comes and another one goes. -/
def sampleSeats : List WaylandOp := [.globalAdded 2 seatIface 5 24 32, .globalRemoved 1 40]

theorem run_seats_sample :
    ∃ wl, Run.exec step (some (new fun _ => 0)) [.globalAdded 1 seatIface 5 8 16] = some wl ∧
      (.removeGlobalHandler (wl.regGlobalHandler seatIface ⟨1, 2, 3⟩ true 48).1 ∉ sampleSeats →
        ∃ wl', Run.exec step (some (new fun _ => 0)) ([.globalAdded 1 seatIface 5 8 16] ++
            .regGlobalHandler seatIface ⟨1, 2, 3⟩ true 48 :: sampleSeats) = some wl' ∧
          ((wl'.callsOf wl.calls.length (wl.regGlobalHandler seatIface ⟨1, 2, 3⟩ true 48).1).foldl
            (handleSeat ⟨1, 2, 3⟩) []).Perm ((wl'.globals.filter (·.iface = seatIface)).map Global.name)) :=
  run_seats (fun _ => 0) [.globalAdded 1 seatIface 5 8 16] sampleSeats ⟨1, 2, 3⟩ 48 (by decide) (by decide)
    (by decide) (by decide +kernel)

end Wayland

end Fcitx
