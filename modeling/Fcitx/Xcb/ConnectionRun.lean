/-
# Runs of the X module

While connections are opened and closed and callbacks and filters come and go, a client that
has a callback for both is told of each connection once, and once that it is closed, and
knows at any time which connections there are (`XcbModule.run_told`).

Key definitions: `XcbOp`, `XcbModule.step`, `XcbModule.Allowed`, `XcbModule.noteCalls`.
Key theorems: `XcbModule.step_spec`, `XcbModule.Knows.effect`, `XcbModule.run_told`.
-/
import Fcitx.Xcb.Connections

namespace Fcitx

/-- What happens to the module, or to the IO events of other parts of the program; the pointers are for what is new. -/
inductive XcbOp where
  | openConnection (env name : Option Bytes) (x : XcbConnect) (fconn group : ℕ) (malloc eventKey : KeyPtr)
  | onConnectionCreated (closure : XcbClosure) (malloc : KeyPtr)
  | onConnectionClosed (closure : XcbClosure) (malloc : KeyPtr)
  | addEventFilter (name : Bytes) (closure : XcbClosure) (malloc : KeyPtr)
  | removeWatcher (id : ℤ)
  | io (name : Bytes) (hasError : Bool) (takes : ℕ → XcbClosure → Bool) (events : List ℕ)
  | other (op : HandleOp)

namespace XcbModule

/-- One thing that happens. -/
def apply (moves : ℕ → Bool) (self : XcbModule) : XcbOp → Option XcbModule
  | .openConnection env name x fconn group malloc eventKey =>
    some (self.openConnection moves env name x fconn group malloc eventKey)
  | .onConnectionCreated closure malloc => some (self.onConnectionCreated closure malloc).2
  | .onConnectionClosed closure malloc => some (self.onConnectionClosed closure malloc).2
  | .addEventFilter name closure malloc => some (self.addEventFilter name closure malloc).2
  | .removeWatcher id => self.removeWatcher id
  | .io name hasError takes events => some (self.ioCallback name hasError takes events)
  | .other op => some { self with mainloop := self.mainloop.step moves op }

/-- The callbacks and filters that are called do not call back into the module: what they would do to it is left
out. -/
def step (moves : ℕ → Bool) (self : Option XcbModule) (op : XcbOp) : Option XcbModule := self.bind (·.apply moves op)

/-- An operation of another part of the program on the main loop, which leaves the events of the module alone. -/
def Foreign (self : XcbModule) : HandleOp → Prop
  | .register callback .. => callback ≠ self.functions.ioCallback
  | .remove k => ∀ e ∈ self.mainloop.held[k]?, e.callback ≠ self.functions.ioCallback

instance (self : XcbModule) : ∀ op, Decidable (self.Foreign op)
  | .register .. => inferInstanceAs (Decidable (_ ≠ _))
  | .remove k => inferInstanceAs (Decidable (∀ e ∈ self.mainloop.held[k]?, _ ≠ _))

/-- What the X library, the callers and the allocator promise: what is new is not in use, closures fit into the table,
and an id that is removed is live. -/
def AllowedAt (self : XcbModule) : XcbOp → Prop
  | .openConnection _ _ (.connected conn _ _) fconn group malloc _ => self.Fresh conn fconn group ∧ self.Room malloc
  | .openConnection _ _ .null _ _ _ _ => True
  | .openConnection _ _ (.error _) _ _ _ _ => True
  | .openConnection _ _ (.noAtom _) _ _ _ _ => True
  | .onConnectionCreated closure malloc => closure.Fits ∧ self.Room malloc
  | .onConnectionClosed closure malloc => closure.Fits ∧ self.Room malloc
  | .addEventFilter _ closure malloc => closure.Fits ∧ self.Room malloc
  | .removeWatcher id => id ∈ self.table.live
  | .io .. => True
  | .other op => self.Foreign op

def Allowed (self : Option XcbModule) (op : XcbOp) : Prop := ∀ m ∈ self, m.AllowedAt op

instance (self : XcbModule) : ∀ op, Decidable (self.AllowedAt op)
  | .openConnection _ _ (.connected ..) _ _ _ _ => inferInstanceAs (Decidable (_ ∧ _))
  | .openConnection _ _ .null _ _ _ _ => inferInstanceAs (Decidable True)
  | .openConnection _ _ (.error _) _ _ _ _ => inferInstanceAs (Decidable True)
  | .openConnection _ _ (.noAtom _) _ _ _ _ => inferInstanceAs (Decidable True)
  | .onConnectionCreated .. => inferInstanceAs (Decidable (_ ∧ _))
  | .onConnectionClosed .. => inferInstanceAs (Decidable (_ ∧ _))
  | .addEventFilter .. => inferInstanceAs (Decidable (_ ∧ _))
  | .removeWatcher id => inferInstanceAs (Decidable (id ∈ self.table.live))
  | .io .. => inferInstanceAs (Decidable True)
  | .other op => inferInstanceAs (Decidable (self.Foreign op))

instance : ∀ (self : Option XcbModule) (op : XcbOp), Decidable (Allowed self op)
  | none, _ => .isTrue fun _ h => absurd h (Option.not_mem_none _)
  | some m, op => decidable_of_iff (m.AllowedAt op) ⟨fun h _ hm => Option.mem_some.mp hm ▸ h, fun h => h m rfl⟩

/-! ### A client that keeps book -/

/-- A call in the book of the connections that are there; one that is there already, or that is closed and is not
there, does not fit in. -/
def noteCall (known : List (Bytes × ℕ)) : XcbCall → Option (List (Bytes × ℕ))
  | .created _ name conn _ _ => if name ∈ Assoc.keys known then none else some (known ++ [(name, conn)])
  | .closed _ name conn => if (name, conn) ∈ known then some (Assoc.erase known name) else none
  | .event .. => none

def noteCalls (known : List (Bytes × ℕ)) (calls : List XcbCall) : Option (List (Bytes × ℕ)) :=
  calls.foldlM noteCall known

/-- The calls of the closures of two ids from the `n`th call on. -/
def callsOf (self : XcbModule) (n : ℕ) (c d : ℤ) : List XcbCall :=
  ((self.calls.drop n).filter fun e => e.1 = c ∨ e.1 = d).map Prod.snd

/-- The connections of the X library by the name of their display. -/
def displays (self : XcbModule) : List (Bytes × ℕ) := self.conns.map fun e => (e.1, e.2.conn)

/-- A client with a callback for connections that are opened and one for those that are closed. -/
structure Client (xcb : XcbModule) (c d : ℤ) : Prop where
  created : c ∈ (xcb.closures (connKey xcb.functions.created)).map Prod.fst
  closed : d ∈ (xcb.closures (connKey xcb.functions.closed)).map Prod.fst

variable {self self' : XcbModule} {name : Bytes} {closure : XcbClosure} {malloc : KeyPtr} {key k : Bytes} {id c d : ℤ}
  {op : XcbOp} {moves : ℕ → Bool}

theorem noteCalls_append (known : List (Bytes × ℕ)) (calls calls' : List XcbCall) :
    noteCalls known (calls ++ calls') = (noteCalls known calls).bind (noteCalls · calls') := by
  rw [noteCalls, List.foldlM_append]
  rfl

theorem keys_displays (self : XcbModule) : Assoc.keys self.displays = Assoc.keys self.conns := by
  rw [displays, Assoc.keys, Assoc.keys, List.map_map]
  rfl

theorem closures_ids (self : XcbModule) (key : Bytes) :
    (self.closures key).map Prod.fst = (MultiMap.find self.table.toMap key).map Prod.fst := by
  rw [closures, List.map_map]
  rfl

theorem Inv.ids_nodup (I : Inv self) (key : Bytes) : ((self.closures key).map Prod.fst).Nodup := by
  rw [closures_ids]
  exact MultiMap.find_nodup I.table.live_nodup key

/-- An id is under one key. -/
theorem Inv.ids_apart (I : Inv self) (hne : key ≠ k) (hid : id ∈ (self.closures key).map Prod.fst) :
    id ∉ (self.closures k).map Prod.fst := by
  rw [closures_ids] at hid ⊢
  exact MultiMap.find_disjoint I.table.live_nodup hne hid

theorem Inv.created_ne (_ : Inv self) : connKey self.functions.created ≠ connKey self.functions.closed := fun h =>
  self.functions.ne (connKey_inj self.functions.created_lt self.functions.closed_lt h)

/-! ### The calls of a client -/

section calls

variable {es : List (ℤ × XcbClosure)} (p : ℤ → Bool) (call : XcbClosure → XcbCall)

theorem filter_none (hp : ∀ j ∈ es.map Prod.fst, p j = false) :
    ((es.map fun e => (e.1, call e.2)).filter fun e => p e.1).map Prod.snd = [] := by
  rw [List.map_eq_nil_iff, List.filter_eq_nil_iff]
  intro e he
  obtain ⟨e', he', rfl⟩ := List.mem_map.mp he
  rw [hp e'.1 (List.mem_map_of_mem he')]
  exact Bool.false_ne_true

/-- One closure of a list is called once. -/
theorem filter_one (hnd : (es.map Prod.fst).Nodup) {i : ℤ} (hi : i ∈ es.map Prod.fst)
    (hp : ∀ j ∈ es.map Prod.fst, p j = true ↔ j = i) :
    ∃ closure, ((es.map fun e => (e.1, call e.2)).filter fun e => p e.1).map Prod.snd = [call closure] := by
  induction es with
  | nil => exact absurd hi List.not_mem_nil
  | cons e es ih =>
    obtain ⟨hout, hnd'⟩ := List.nodup_cons.mp hnd
    obtain ⟨he, hes⟩ := List.forall_mem_cons.mp hp
    rw [List.map_cons, List.filter_cons]
    by_cases hei : e.1 = i
    · have hnone : ∀ j ∈ es.map Prod.fst, p j = false := fun j hj => by
        rw [← Bool.not_eq_true, hes j hj]
        rintro rfl
        exact hout (hei ▸ hj)
      rw [if_pos (he.mpr hei), List.map_cons, filter_none p call hnone]
      exact ⟨e.2, rfl⟩
    · rw [if_neg fun h => hei (he.mp h)]
      exact ih hnd' ((List.mem_cons.mp hi).resolve_left (Ne.symm hei)) hes

theorem offered_sublist (takes : XcbClosure → Bool) (es : List (ℤ × XcbClosure)) :
    (offered takes es).Sublist es := by
  induction es with
  | nil => exact List.Sublist.refl _
  | cons e es ih =>
    rw [offered]
    split
    · exact (List.nil_sublist es).cons_cons e
    · exact ih.cons_cons e

end calls

/-- **The events of a connection** are offered to its filters, each up to the first that takes it. -/
theorem foldl_callAll (h : self.table.Inv) (key : Bytes) (takes : ℕ → XcbClosure → Bool)
    (call : ℕ → XcbClosure → XcbCall) (events : List ℕ) :
    events.foldl (fun self event => self.callAll key (takes event) (call event)) self =
      { self with
        calls := self.calls ++ events.flatMap fun event =>
          (offered (takes event) (self.closures key)).map fun e => (e.1, call event e.2) } := by
  induction events generalizing self with
  | nil =>
    rw [List.flatMap_nil, List.append_nil]
    rfl
  | cons event events ih =>
    rw [List.foldl_cons, callAll_eq h, List.flatMap_cons, ← List.append_assoc]
    exact ih h

/-! ### Steps -/

/-- What an operation does: it keeps the other closures, and tells a client what becomes of the connections. -/
structure Effect (xcb xcb' : XcbModule) (op : XcbOp) : Prop where
  inv : Inv xcb'
  functions : xcb'.functions = xcb.functions
  keep : ∀ key id, id ∈ (xcb.closures key).map Prod.fst → op ≠ .removeWatcher id →
    id ∈ (xcb'.closures key).map Prod.fst
  calls : ∃ cs, xcb'.calls = xcb.calls ++ cs ∧ ∀ c d, Client xcb c d →
    noteCalls xcb.displays ((cs.filter fun e => e.1 = c ∨ e.1 = d).map Prod.snd) = some xcb'.displays

theorem Effect.refl (I : Inv self) (op : XcbOp) : Effect self self op :=
  ⟨I, rfl, fun _ _ hid _ => hid, [], (List.append_nil _).symm, fun _ _ _ => rfl⟩

/-- A new object of the table keeps the others. -/
theorem append_keep (I : Inv self) (hroom : self.Room malloc) (hfits : closure.Fits) (key : Bytes)
    (hid : id ∈ (self.closures k).map Prod.fst) :
    id ∈ (closures { self with table := (self.table.append key closure.bytes malloc).2 } k).map Prod.fst := by
  obtain ⟨-, -, -, hclosures⟩ := append_spec I hroom hfits key
  rw [hclosures]
  split
  · next hk =>
    rw [List.map_append]
    exact List.mem_append_left _ (hk ▸ hid)
  · exact hid

/-- A client's callbacks are under different keys. -/
theorem Client.apart (I : Inv self) (C : Client self c d) :
    c ∉ (self.closures (connKey self.functions.closed)).map Prod.fst ∧
      d ∉ (self.closures (connKey self.functions.created)).map Prod.fst :=
  ⟨I.ids_apart I.created_ne C.created, I.ids_apart I.created_ne.symm C.closed⟩

/-- Without a connection of the X library nothing happens. -/
theorem openConnection_failed (self : XcbModule) (env name : Option Bytes) (x : XcbConnect) (fconn group : ℕ)
    (eventKey : KeyPtr) (hx : ∀ conn screen fd, x ≠ .connected conn screen fd) :
    self.openConnection moves env name x fconn group malloc eventKey = self := by
  rw [openConnection]
  cases name.or env with
  | none => rfl
  | some name =>
    dsimp only
    split
    · rfl
    · cases x with
      | null => rfl
      | error conn => rfl
      | noAtom conn => rfl
      | connected conn screen fd => exact absurd rfl (hx conn screen fd)

theorem openConnection_effect (I : Inv self) {env name' : Option Bytes} {conn fconn group : ℕ} {screen fd : ℤ}
    {eventKey : KeyPtr} (hfresh : self.Fresh conn fconn group) (hroom : self.Room malloc) (op : XcbOp) :
    Effect self (self.openConnection moves env name' (.connected conn screen fd) fconn group malloc eventKey) op := by
  cases hname : name'.or env with
  | none =>
    rw [openConnection, hname]
    exact Effect.refl I _
  | some name =>
    cases hnew : self.conns.lookup name with
    | some c =>
      rw [openConnection, hname]
      dsimp only
      rw [if_pos (by rw [hnew]; rfl)]
      exact Effect.refl I _
    | none =>
      obtain ⟨S, htable⟩ := openConnection_spec moves I screen fd eventKey hname hnew hfresh hroom
      have hfits : XcbClosure.Fits ⟨self.functions.filterEvent, fconn⟩ :=
        ⟨self.functions.filterEvent_lt, hfresh.2.2.2.1⟩
      refine ⟨S.inv, S.functions, fun key id hid _ => ?_, _, S.calls, fun c d C => ?_⟩
      · have hkeep := append_keep I hroom hfits (connKey fconn) hid
        rw [closures_ids] at hkeep ⊢
        rw [htable]
        exact hkeep
      · obtain ⟨-, hd⟩ := C.apart I
        obtain ⟨closure, hcalls⟩ := filter_one (fun j => decide (j = c ∨ j = d))
          (fun closure => .created closure name conn screen group) (I.ids_nodup _) C.created fun j hj => by
            rw [decide_eq_true_iff, or_iff_left fun h : j = d => hd (h ▸ hj)]
        have hout : name ∉ Assoc.keys self.displays := by
          rw [keys_displays, ← Assoc.lookup_eq_none_iff, hnew]
        rw [hcalls, noteCalls, List.foldlM_cons, noteCall, if_neg hout, displays, displays, S.conns, List.map_append]
        rfl

theorem removeConnection_effect (I : Inv self) {x : XcbConnection} (hname : self.conns.lookup name = some x)
    (op : XcbOp) : Effect self (self.removeConnection name) op := by
  obtain ⟨S, htable⟩ := removeConnection_spec I hname
  have hmem : (name, x) ∈ self.conns := (Assoc.lookup_eq_some_iff I.names).mp hname
  refine ⟨S.inv, S.functions, fun key id hid _ => ?_, _, S.calls, fun c d C => ?_⟩
  · rw [closures_ids] at hid ⊢
    rwa [htable]
  · obtain ⟨hc, -⟩ := C.apart I
    obtain ⟨closure, hcalls⟩ := filter_one (fun j => decide (j = c ∨ j = d))
      (fun closure => .closed closure name x.conn) (I.ids_nodup _) C.closed fun j hj => by
        rw [decide_eq_true_iff, or_iff_right fun h : j = c => hc (h ▸ hj)]
    have hin : (name, x.conn) ∈ self.displays := List.mem_map.mpr ⟨(name, x), hmem, rfl⟩
    have herase : Assoc.erase self.displays name = (Assoc.erase self.conns name).map fun e => (e.1, e.2.conn) := by
      rw [Assoc.erase, Assoc.erase, displays, List.eraseP_map]
      rfl
    rw [hcalls, noteCalls, List.foldlM_cons, noteCall, if_pos hin, herase, displays, S.conns]
    rfl

/-- A callback for connections that are opened is told of those that are there; no other is. -/
theorem onConnectionCreated_effect (I : Inv self) (hfits : closure.Fits) (hroom : self.Room malloc) (op : XcbOp) :
    Effect self (self.onConnectionCreated closure malloc).2 op := by
  obtain ⟨htable, hsize, hfresh, -⟩ := append_spec I hroom hfits (connKey self.functions.created)
  refine ⟨(I.of_table htable hsize).of_calls _, rfl, fun k id hid _ => append_keep I hroom hfits _ hid, _, rfl,
    fun c d C => ?_⟩
  have hlive : ∀ key, (self.onConnectionCreated closure malloc).1 ∉ (self.closures key).map Prod.fst := by
    intro key hmem
    rw [closures_ids] at hmem
    exact hfresh (MultiMap.mem_ids_of_find hmem)
  have hnone : ((self.conns.map fun e => ((self.onConnectionCreated closure malloc).1,
      XcbCall.created closure e.1 e.2.conn e.2.screen e.2.group)).filter fun e => e.1 = c ∨ e.1 = d) = [] := by
    rw [List.filter_eq_nil_iff]
    intro e he
    obtain ⟨x, -, rfl⟩ := List.mem_map.mp he
    rw [decide_eq_true_iff]
    rintro (rfl | rfl)
    · exact hlive _ C.created
    · exact hlive _ C.closed
  exact (congrArg (fun cs => noteCalls self.displays (cs.map Prod.snd)) hnone).trans rfl

theorem ioCallback_effect (I : Inv self) (hasError : Bool) (takes : ℕ → XcbClosure → Bool) (events : List ℕ)
    (op : XcbOp) : Effect self (self.ioCallback name hasError takes events) op := by
  rw [ioCallback]
  cases hname : self.conns.lookup name with
  | none => exact Effect.refl I op
  | some x =>
    dsimp only
    split
    · exact removeConnection_effect I hname op
    · have hmem : (name, x) ∈ self.conns := (Assoc.lookup_eq_some_iff I.names).mp hname
      obtain ⟨hlt, hcreated, hclosed⟩ := I.fconn x.fconn (List.mem_map.mpr ⟨(name, x), hmem, rfl⟩)
      have hkeyCreated : connKey self.functions.created ≠ connKey x.fconn := fun h =>
        hcreated (connKey_inj self.functions.created_lt hlt h).symm
      have hkeyClosed : connKey self.functions.closed ≠ connKey x.fconn := fun h =>
        hclosed (connKey_inj self.functions.closed_lt hlt h).symm
      rw [foldl_callAll I.table]
      refine ⟨I.of_calls _, rfl, fun _ _ hid _ => hid, _, rfl, fun c d C => ?_⟩
      have hc := I.ids_apart hkeyCreated C.created
      have hd := I.ids_apart hkeyClosed C.closed
      have hnone : ((events.flatMap fun event => (offered (takes event) (self.closures (connKey x.fconn))).map fun e =>
          (e.1, XcbCall.event e.2 x.conn event)).filter fun e => e.1 = c ∨ e.1 = d) = [] := by
        rw [List.filter_eq_nil_iff]
        intro e he
        obtain ⟨event, -, he⟩ := List.mem_flatMap.mp he
        obtain ⟨y, hy, rfl⟩ := List.mem_map.mp he
        have hid : y.1 ∈ (self.closures (connKey x.fconn)).map Prod.fst :=
          List.mem_map_of_mem ((offered_sublist _ _).subset hy)
        rw [decide_eq_true_iff]
        rintro (rfl | rfl)
        · exact hc hid
        · exact hd hid
      exact (congrArg (fun cs => noteCalls self.displays (cs.map Prod.snd)) hnone).trans rfl

theorem step_spec (moves : ℕ → Bool) (I : Inv self) (ha : self.AllowedAt op) :
    ∃ self', self.apply moves op = some self' ∧ Effect self self' op := by
  cases op with
  | openConnection env name x fconn group malloc eventKey =>
    refine ⟨_, rfl, ?_⟩
    cases x with
    | null =>
      exact (openConnection_failed self env name .null fconn group eventKey (by simp)).symm ▸ Effect.refl I _
    | error conn =>
      exact (openConnection_failed self env name (.error conn) fconn group eventKey (by simp)).symm ▸ Effect.refl I _
    | noAtom conn =>
      exact (openConnection_failed self env name (.noAtom conn) fconn group eventKey (by simp)).symm ▸ Effect.refl I _
    | connected conn screen fd => exact openConnection_effect I ha.1 ha.2 _
  | onConnectionCreated closure malloc => exact ⟨_, rfl, onConnectionCreated_effect I ha.1 ha.2 _⟩
  | onConnectionClosed closure malloc =>
    obtain ⟨htable, hsize, -, -⟩ := append_spec I ha.2 ha.1 (connKey self.functions.closed)
    exact ⟨_, rfl, I.of_table htable hsize, rfl, fun k id hid _ => append_keep I ha.2 ha.1 _ hid, [],
      (List.append_nil _).symm, fun _ _ _ => rfl⟩
  | addEventFilter name closure malloc =>
    refine ⟨_, rfl, ?_⟩
    rw [addEventFilter]
    cases self.conns.lookup name with
    | none => exact Effect.refl I _
    | some x =>
      obtain ⟨htable, hsize, -, -⟩ := append_spec I ha.2 ha.1 (connKey x.fconn)
      exact ⟨I.of_table htable hsize, rfl, fun k id hid _ => append_keep I ha.2 ha.1 _ hid, [],
        (List.append_nil _).symm, fun _ _ _ => rfl⟩
  | removeWatcher id =>
    have hne : id ≠ invalidId := by
      have hpos := I.table.nonneg ha
      rw [invalidId]
      omega
    obtain ⟨htable, -, -⟩ := HandlerTable.removeByIdFull_ids I.table ha
    refine ⟨_, by rw [apply, removeWatcher, HandlerTable.removeByIdFull_of_ne hne]; rfl,
      I.of_table htable ?_, rfl, fun key id' hid hop => ?_, [], (List.append_nil _).symm, fun _ _ _ => rfl⟩
    · exact (HandlerTable.removeByIdFull_same self.table id).same.objSize.trans I.size
    · rw [closures_ids] at hid ⊢
      show id' ∈ (MultiMap.find ((self.table.removeByIdFull id).getD self.table).toMap key).map Prod.fst
      rw [HandlerTable.removeByIdFull_map I.table ha, MultiMap.find_removeIdFull I.table.keys_nodup]
      obtain ⟨e, he, rfl⟩ := List.mem_map.mp hid
      exact List.mem_map_of_mem (List.mem_filter.mpr ⟨he, decide_eq_true fun h => hop (by rw [h])⟩)
  | io name hasError takes events => exact ⟨_, rfl, ioCallback_effect I hasError takes events _⟩
  | other op =>
    exact ⟨_, rfl, I.of_mainloop _, rfl, fun _ _ hid _ => hid, [], (List.append_nil _).symm, fun _ _ _ => rfl⟩

/-! ### Runs -/

theorem new_inv (functions : XcbFunctions) (array loopArray : ByteMem) : Inv (new functions array loopArray) where
  table := (Watching.Reachable.inv ⟨array, [], trivial, rfl⟩).1
  size := rfl
  names := List.nodup_nil
  opened := rfl
  groups := rfl
  conn_nodup := List.nodup_nil
  group_nodup := List.nodup_nil
  fconn_nodup := List.nodup_nil
  fconn _ hp := absurd hp List.not_mem_nil

/-- What a client was told up to now fits the connections that are there. -/
structure Knows (xcb : XcbModule) (n : ℕ) (c d : ℤ) : Prop where
  client : Client xcb c d
  start : n ≤ xcb.calls.length
  known : noteCalls [] (xcb.callsOf n c d) = some xcb.displays

theorem Knows.effect {n : ℕ} (K : Knows self n c d) (E : Effect self self' op) (hc : op ≠ .removeWatcher c)
    (hd : op ≠ .removeWatcher d) : Knows self' n c d := by
  obtain ⟨cs, hcalls, htold⟩ := E.calls
  refine ⟨⟨?_, ?_⟩, ?_, ?_⟩
  · rw [E.functions]
    exact E.keep _ c K.client.created hc
  · rw [E.functions]
    exact E.keep _ d K.client.closed hd
  · rw [hcalls, List.length_append]
    exact Nat.le_add_right_of_le K.start
  · have hsplit : self'.callsOf n c d =
        self.callsOf n c d ++ (cs.filter fun e => e.1 = c ∨ e.1 = d).map Prod.snd := by
      rw [callsOf, hcalls, List.drop_append_of_le_length K.start, List.filter_append, List.map_append, callsOf]
    rw [hsplit, noteCalls_append, K.known, Option.bind_some, htold c d K.client]

theorem exec_some_cons {ops : List XcbOp} (happly : self.apply moves op = some self') :
    Run.exec (step moves) (some self) (op :: ops) = Run.exec (step moves) (some self') ops := by
  rw [Run.exec_cons, XcbModule.step, Option.bind_some, happly]

/-- A run from any state, for a client that stays. -/
theorem exec_spec {ops : List XcbOp} (I : Inv self) (ha : Run.Admissible (step moves) Allowed (some self) ops) :
    ∃ self', Run.exec (step moves) (some self) ops = some self' ∧ Inv self' ∧
      ∀ n c d, Knows self n c d → (∀ op ∈ ops, op ≠ .removeWatcher c ∧ op ≠ .removeWatcher d) → Knows self' n c d := by
  induction ops generalizing self with
  | nil => exact ⟨self, rfl, I, fun _ _ _ K _ => K⟩
  | cons op ops ih =>
    obtain ⟨next, happly, E⟩ := step_spec moves I (ha.1 self rfl)
    have hrest := ha.2
    rw [XcbModule.step, Option.bind_some, happly] at hrest
    obtain ⟨last, hexec, hinv, hknows⟩ := ih E.inv hrest
    refine ⟨last, (exec_some_cons happly).trans hexec, hinv, fun n c d K hstay => ?_⟩
    obtain ⟨⟨hc, hd⟩, hstay'⟩ := List.forall_mem_cons.mp hstay
    exact hknows n c d (K.effect E hc hd) hstay'

/-- **Closing all connections** leaves none, and keeps what closing one keeps. -/
theorem destroyConnections_spec {P : XcbModule → Prop} (I : Inv self) (h : P self)
    (hclose : ∀ (xcb : XcbModule) (name : Bytes) (c : XcbConnection), Inv xcb → xcb.conns.lookup name = some c →
      P xcb → P (xcb.removeConnection name)) :
    Inv self.destroyConnections ∧ self.destroyConnections.conns = [] ∧ P self.destroyConnections := by
  have hloop : ∀ (rest : List (Bytes × XcbConnection)) (xcb : XcbModule), Inv xcb → P xcb → xcb.conns = rest →
      Inv (rest.foldl (fun self e => self.removeConnection e.1) xcb) ∧
        (rest.foldl (fun self e => self.removeConnection e.1) xcb).conns = [] ∧
        P (rest.foldl (fun self e => self.removeConnection e.1) xcb) := by
    intro rest
    induction rest with
    | nil => exact fun xcb I h hconns => ⟨I, hconns, h⟩
    | cons e rest ih =>
      intro xcb I h hconns
      have hname : xcb.conns.lookup e.1 = some e.2 :=
        (Assoc.lookup_eq_some_iff I.names).mpr (hconns ▸ List.mem_cons_self)
      have S := (removeConnection_spec I hname).1
      have hrest : (xcb.removeConnection e.1).conns = rest := by
        rw [S.conns, hconns, Assoc.erase, List.eraseP_cons, beq_self_eq_true, cond_true]
      exact ih _ S.inv (hclose xcb e.1 e.2 I hname h) hrest
  exact hloop self.conns self I h rfl

/-- A connection that fails, two that are opened, and one that is closed. -/
def sampleOps : List XcbOp :=
  [.openConnection (some [58, 48]) none (.connected 16 0 5) 24 32 8 8,
    .openConnection none (some [58, 49]) (.error 40) 48 56 64 64,
    .openConnection none (some [58, 50]) (.connected 72 1 6) 80 88 96 96,
    .io [58, 48] true (fun _ _ => false) []]

/-- Functions somewhere. -/
def sampleFunctions : XcbFunctions := ⟨1000, 1001, 1002, 1003, by decide, by decide, by decide, by decide⟩

/-- What is there at the registration, in the book. -/
theorem noteCalls_existing (closure : XcbClosure) (conns : List (Bytes × XcbConnection)) (known : List (Bytes × ℕ))
    (hnd : (Assoc.keys known ++ Assoc.keys conns).Nodup) :
    noteCalls known (conns.map fun e => .created closure e.1 e.2.conn e.2.screen e.2.group) =
      some (known ++ conns.map fun e => (e.1, e.2.conn)) := by
  induction conns generalizing known with
  | nil =>
    rw [List.map_nil, List.map_nil, List.append_nil]
    rfl
  | cons e conns ih =>
    have hout : e.1 ∉ Assoc.keys known := fun h =>
      List.disjoint_of_nodup_append hnd h List.mem_cons_self
    have hrec := ih (known ++ [(e.1, e.2.conn)]) (by
      rw [Assoc.keys_concat, List.append_assoc]
      exact hnd)
    rw [noteCalls] at hrec
    rw [List.map_cons, List.map_cons, noteCalls, List.foldlM_cons, noteCall, if_neg hout]
    show List.foldlM noteCall (known ++ [(e.1, e.2.conn)]) _ = _
    rw [hrec, List.append_assoc, List.singleton_append]

/-- A client that registers both callbacks knows the connections that are there. -/
theorem knows_registered (I : Inv self) {closure' : XcbClosure} {malloc' : KeyPtr} (hfits : closure.Fits)
    (hroom : self.Room malloc) (hfits' : closure'.Fits)
    (hroom' : (self.onConnectionCreated closure malloc).2.Room malloc') :
    Knows ((self.onConnectionCreated closure malloc).2.onConnectionClosed closure' malloc').2 self.calls.length
      (self.onConnectionCreated closure malloc).1
      ((self.onConnectionCreated closure malloc).2.onConnectionClosed closure' malloc').1 := by
  have E := onConnectionCreated_effect I hfits hroom (.io [] false (fun _ _ => false) [])
  obtain ⟨-, -, -, hclosures⟩ := append_spec I hroom hfits (connKey self.functions.created)
  obtain ⟨-, -, -, hclosures'⟩ := append_spec E.inv hroom' hfits' (connKey self.functions.closed)
  set next := (self.onConnectionCreated closure malloc).2 with hnext
  set c := (self.onConnectionCreated closure malloc).1 with hc
  have hcreated : c ∈ (next.closures (connKey self.functions.created)).map Prod.fst := by
    have hmem := hclosures (connKey self.functions.created)
    rw [if_pos rfl] at hmem
    show c ∈ (closures { self with
      table := (self.table.append (connKey self.functions.created) closure.bytes malloc).2 } _).map Prod.fst
    rw [hmem, List.map_append]
    exact List.mem_append_right _ List.mem_cons_self
  have hclosed := hclosures' (connKey self.functions.closed)
  rw [if_pos rfl] at hclosed
  refine ⟨⟨append_keep E.inv hroom' hfits' _ hcreated, ?_⟩, ?_, ?_⟩
  · show _ ∈ (closures { next with
      table := (next.table.append (connKey self.functions.closed) closure'.bytes malloc').2 } _).map Prod.fst
    exact hclosed ▸ List.mem_map_of_mem (List.mem_append_right _ List.mem_cons_self)
  · show self.calls.length ≤ (self.calls ++ _).length
    rw [List.length_append]
    exact Nat.le_add_right _ _
  · have hall : ∀ d, (((self.conns.map fun e =>
        (c, XcbCall.created closure e.1 e.2.conn e.2.screen e.2.group)).filter fun e => e.1 = c ∨ e.1 = d).map
          Prod.snd) = self.conns.map fun e => .created closure e.1 e.2.conn e.2.screen e.2.group := by
      intro d
      rw [List.filter_eq_self.mpr, List.map_map]
      · rfl
      · intro e he
        obtain ⟨x, -, rfl⟩ := List.mem_map.mp he
        exact decide_eq_true (Or.inl rfl)
    have hcalls : (next.onConnectionClosed closure' malloc').2.calls = self.calls ++ self.conns.map fun e =>
        (c, XcbCall.created closure e.1 e.2.conn e.2.screen e.2.group) := rfl
    rw [callsOf, hcalls, List.drop_left, hall, noteCalls_existing closure self.conns [] I.names, List.nil_append]
    rfl

/-- **What a client knows.** If it registers a callback for connections that are opened and one for those that are
closed, and keeps both, it is told of no connection twice and of none closed that is not there, and knows those
that are there; in the end it is told that all are closed. The handles of the IO events have no part in this. -/
theorem run_told (functions : XcbFunctions) (array loopArray : ByteMem) (moves : ℕ → Bool) (before after : List XcbOp)
    (closure closure' : XcbClosure) (malloc malloc' : KeyPtr)
    (ha : Run.Admissible (step moves) Allowed (some (new functions array loopArray))
      (before ++ .onConnectionCreated closure malloc :: .onConnectionClosed closure' malloc' :: after)) :
    ∃ xcb, Run.exec (step moves) (some (new functions array loopArray)) before = some xcb ∧
      ∀ c d, c = (xcb.onConnectionCreated closure malloc).1 →
        d = ((xcb.onConnectionCreated closure malloc).2.onConnectionClosed closure' malloc').1 →
        (∀ op ∈ after, op ≠ .removeWatcher c ∧ op ≠ .removeWatcher d) →
        ∃ xcb', Run.exec (step moves) (some (new functions array loopArray))
            (before ++ .onConnectionCreated closure malloc :: .onConnectionClosed closure' malloc' :: after) =
              some xcb' ∧
          noteCalls [] (xcb'.callsOf xcb.calls.length c d) = some xcb'.displays ∧
          noteCalls [] (xcb'.destroyConnections.callsOf xcb.calls.length c d) = some [] := by
  obtain ⟨hbefore, hcreated, hclosed, hafter⟩ := Run.admissible_append.mp ha
  obtain ⟨xcb, hxcb, I, -⟩ := exec_spec (new_inv functions array loopArray) hbefore
  refine ⟨xcb, hxcb, ?_⟩
  rintro c d rfl rfl hstay
  rw [hxcb] at hcreated hclosed hafter
  obtain ⟨hfits, hroom⟩ := hcreated xcb rfl
  obtain ⟨hfits', hroom'⟩ := hclosed _ rfl
  have K := knows_registered I hfits hroom hfits' hroom'
  have I₁ := (onConnectionCreated_effect I hfits hroom (.io [] false (fun _ _ => false) [])).inv
  have I₂ : Inv ((xcb.onConnectionCreated closure malloc).2.onConnectionClosed closure' malloc').2 := by
    obtain ⟨htable, hsize, -, -⟩ := append_spec I₁ hroom' hfits' (connKey xcb.functions.closed)
    exact I₁.of_table htable hsize
  obtain ⟨xcb', hexec, I', hknows⟩ := exec_spec I₂ hafter
  have K' := hknows _ _ _ K hstay
  obtain ⟨-, hnone, K''⟩ := destroyConnections_spec (P := fun m => Knows m xcb.calls.length _ _) I' K'
    fun xcb name c I hname K =>
      K.effect (removeConnection_effect I hname (.io name true (fun _ _ => false) [])) (by simp) (by simp)
  refine ⟨xcb', ?_, K'.known, ?_⟩
  · rw [Run.exec_append, hxcb, exec_some_cons rfl, exec_some_cons rfl]
    exact hexec
  · rw [K''.known, displays, hnone]
    rfl

theorem run_told_sample :
    ∃ xcb, Run.exec (step fun _ => true) (some (new sampleFunctions (fun _ => 0) fun _ => 0)) (sampleOps.take 2) =
        some xcb ∧
      ∀ c d, c = (xcb.onConnectionCreated ⟨1, 2⟩ 104).1 →
        d = ((xcb.onConnectionCreated ⟨1, 2⟩ 104).2.onConnectionClosed ⟨3, 4⟩ 112).1 →
        (∀ op ∈ sampleOps.drop 2, op ≠ .removeWatcher c ∧ op ≠ .removeWatcher d) →
        ∃ xcb', Run.exec (step fun _ => true) (some (new sampleFunctions (fun _ => 0) fun _ => 0))
            (sampleOps.take 2 ++ .onConnectionCreated ⟨1, 2⟩ 104 :: .onConnectionClosed ⟨3, 4⟩ 112 ::
              sampleOps.drop 2) = some xcb' ∧
          noteCalls [] (xcb'.callsOf xcb.calls.length c d) = some xcb'.displays ∧
          noteCalls [] (xcb'.destroyConnections.callsOf xcb.calls.length c d) = some [] :=
  run_told sampleFunctions (fun _ => 0) (fun _ => 0) (fun _ => true) (sampleOps.take 2) (sampleOps.drop 2) ⟨1, 2⟩
    ⟨3, 4⟩ 104 112
    (by decide +kernel)

end XcbModule

end Fcitx
