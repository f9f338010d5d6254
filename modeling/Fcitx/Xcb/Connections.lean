/-
# The X connections

`module/xcb/xcbmodule.c`. A connection is opened for a display and closed when it has an
error or the module goes; it holds a connection of the X library, a focus group and an
event of the main loop, by its handle. The callbacks for connections that are opened and
closed and the event filters are objects of one handler table, the filters under the
pointer of their connection.

Key definitions: `XcbModule`, `XcbModule.openConnection`, `XcbModule.removeConnection`,
`XcbModule.ioCallback`, `XcbModule.Inv`.
Key theorems: `XcbModule.callLoop_eq`, `XcbModule.openConnection_spec`, `XcbModule.removeConnection_spec`.
-/
import Fcitx.MainLoop.IoHandle
import Fcitx.Xcb.Watchers

namespace Fcitx

namespace XcbClosure

/-- The closure in an object of the table. -/
def ofBytes (obj : Bytes) : XcbClosure where
  callback := ByteMem.ofLeBytes (obj.take 8)
  userData := ByteMem.ofLeBytes (obj.drop 8)

/-- Both are pointers. -/
def Fits (closure : XcbClosure) : Prop := closure.callback < 2 ^ 64 ∧ closure.userData < 2 ^ 64

instance (closure : XcbClosure) : Decidable closure.Fits := inferInstanceAs (Decidable (_ ∧ _))

theorem ofBytes_bytes {closure : XcbClosure} (h : closure.Fits) : ofBytes closure.bytes = closure := by
  obtain ⟨hcallback, huserData⟩ := h
  have htake : closure.bytes.take 8 = ByteMem.leBytes 8 closure.callback :=
    List.take_left' (ByteMem.length_leBytes 8 _)
  have hdrop : closure.bytes.drop 8 = ByteMem.leBytes 8 closure.userData :=
    List.drop_left' (ByteMem.length_leBytes 8 _)
  simp only [ofBytes, htake, hdrop, ByteMem.ofLeBytes_leBytes]
  rw [Nat.mod_eq_of_lt (by simpa using hcallback), Nat.mod_eq_of_lt (by simpa using huserData)]

end XcbClosure

/-- `FcitxXCBConnection`, with its address. -/
structure XcbConnection where
  fconn : ℕ
  conn : ℕ
  screen : ℤ
  event : Handle
  group : ℕ
deriving DecidableEq

/-- A call of a callback. -/
inductive XcbCall where
  | created (closure : XcbClosure) (name : Bytes) (conn : ℕ) (screen : ℤ) (group : ℕ)
  | closed (closure : XcbClosure) (name : Bytes) (conn : ℕ)
  | event (closure : XcbClosure) (conn event : ℕ)
deriving DecidableEq

/-- What the X library gives: no memory, a connection with an error, one that does not answer, or one with a screen
and a descriptor. -/
inductive XcbConnect where
  | null
  | error (conn : ℕ)
  | noAtom (conn : ℕ)
  | connected (conn : ℕ) (screen fd : ℤ)
deriving DecidableEq

/-- `connection_created`, `connection_closed`, `fcitx_xcb_fitler_event` and `fcitx_xcb_io_callback` -/
structure XcbFunctions where
  created : ℕ
  closed : ℕ
  filterEvent : ℕ
  ioCallback : ℕ
  created_lt : created < 2 ^ 64
  closed_lt : closed < 2 ^ 64
  filterEvent_lt : filterEvent < 2 ^ 64
  ne : created ≠ closed

/-- `FcitxXCB`, with the connections of the X library that are open, the focus groups, the IO events of the main loop,
and the calls so far, each with the id of its closure. -/
structure XcbModule where
  functions : XcbFunctions
  conns : List (Bytes × XcbConnection)
  table : HandlerTable
  opened : List ℕ
  groups : List ℕ
  mainloop : HandleLoop
  calls : List (ℤ × XcbCall)

namespace XcbModule

/-- `FIOEF_IN` -/
def fioefIn : ℕ := 1

/-- The module before the first connection in `fcitx_xcb_init`, with a new main loop; the memory is that of the table
and of the pool of the loop. -/
def new (functions : XcbFunctions) (array loopArray : ByteMem) : XcbModule where
  functions := functions
  conns := []
  table := Xcb.newTable array
  opened := []
  groups := []
  mainloop := .new loopArray
  calls := []

/-- The loops over the closures of a key, for `fuel` closures at most; the one over the event filters ends where a
filter `takes` the event. -/
def callLoop (table : HandlerTable) (takes : XcbClosure → Bool) (call : XcbClosure → XcbCall) :
    ℕ → ℤ → List (ℤ × XcbCall)
  | 0, _ => []
  | fuel + 1, id =>
    match table.getById id with
    | none => []
    | some obj =>
      let nextid := table.next id
      (id, call (.ofBytes obj)) ::
        if takes (.ofBytes obj) then [] else callLoop table takes call fuel nextid

/-- A loop from `fcitx_handler_table_first_id` on. -/
def callAll (self : XcbModule) (key : Bytes) (takes : XcbClosure → Bool) (call : XcbClosure → XcbCall) : XcbModule :=
  { self with
    calls := self.calls ++
      callLoop self.table takes call (self.table.objs.capacity + 1) (self.table.firstId key) }

/-- `fcitx_xcb_add_event_filter` -/
def addEventFilter (self : XcbModule) (name : Bytes) (closure : XcbClosure) (malloc : KeyPtr) : ℤ × XcbModule :=
  match self.conns.lookup name with
  | none => (invalidId, self)
  | some fconn =>
    let (id, table) := self.table.append (connKey fconn.fconn) closure.bytes malloc
    (id, { self with table := table })

/-- The registration of the event of a connection. -/
def ioEvent (self : XcbModule) (fd : ℤ) (fconn : ℕ) (eventKey : KeyPtr) : HandleOp :=
  .register self.functions.ioCallback fd fioefIn 0 fconn eventKey

/-- `fcitx_xcb_open_connection`; `env` is `DISPLAY`, and the pointers are for the connection, its group, the key of its
filter and the key of its event. `moves` is about the pool of the main loop. -/
def openConnection (moves : ℕ → Bool) (self : XcbModule) (env name : Option Bytes) (x : XcbConnect)
    (fconn group : ℕ) (malloc eventKey : KeyPtr) : XcbModule :=
  match name.or env with
  | none => self
  | some name =>
    if (self.conns.lookup name).isSome then self
    else
      match x with
      | .null => self
      -- disconnected again
      | .error _ => self
      | .noAtom _ => self
      | .connected conn screen fd =>
        let event := (self.mainloop.registerIoEvent moves self.functions.ioCallback fd fioefIn 0 fconn eventKey).1
        let c : XcbConnection := ⟨fconn, conn, screen, event, group⟩
        let self := { self with
          opened := self.opened ++ [conn]
          mainloop := self.mainloop.step moves (self.ioEvent fd fconn eventKey)
          conns := self.conns ++ [(name, c)]
          groups := self.groups ++ [group] }
        let self := (self.addEventFilter name ⟨self.functions.filterEvent, fconn⟩ malloc).2
        self.callAll (connKey self.functions.created) (fun _ => false) fun closure =>
          .created closure name conn screen group

/-- `fcitx_xcb_on_connection_created` -/
def onConnectionCreated (self : XcbModule) (closure : XcbClosure) (malloc : KeyPtr) : ℤ × XcbModule :=
  let (result, table) := self.table.append (connKey self.functions.created) closure.bytes malloc
  (result, { self with
    table := table
    calls := self.calls ++ self.conns.map fun e =>
      (result, .created closure e.1 e.2.conn e.2.screen e.2.group) })

/-- `fcitx_xcb_on_connection_closed` -/
def onConnectionClosed (self : XcbModule) (closure : XcbClosure) (malloc : KeyPtr) : ℤ × XcbModule :=
  let (result, table) := self.table.append (connKey self.functions.closed) closure.bytes malloc
  (result, { self with table := table })

/-- `fcitx_xcb_remove_watcher`; `none` is a read through NULL. -/
def removeWatcher (self : XcbModule) (id : ℤ) : Option XcbModule :=
  (self.table.removeByIdFull id).map fun table => { self with table := table }

/-- `fcitx_xcb_connection_close`, with `fcitx_mainloop_remove_io_event` through the handle of the connection. -/
def connectionClose (self : XcbModule) (name : Bytes) (fconn : XcbConnection) : XcbModule :=
  let self := self.callAll (connKey self.functions.closed) (fun _ => false) fun closure =>
    .closed closure name fconn.conn
  { self with
    groups := self.groups.erase fconn.group
    mainloop := self.mainloop.unregister fconn.event
    opened := self.opened.erase fconn.conn }

/-- `fcitx_dict_remove_by_str(self->conns, name, NULL)` -/
def removeConnection (self : XcbModule) (name : Bytes) : XcbModule :=
  match self.conns.lookup name with
  | none => self
  | some fconn => connectionClose { self with conns := Assoc.erase self.conns name } name fconn

/-- `fcitx_xcb_io_callback` for the connection of a display, with the events that are there. The dispatch has a
reference on the IO event meanwhile, so one that is removed goes right after the callback. -/
def ioCallback (self : XcbModule) (name : Bytes) (hasError : Bool) (takes : ℕ → XcbClosure → Bool)
    (events : List ℕ) : XcbModule :=
  match self.conns.lookup name with
  | none => self
  | some fconn =>
    if hasError then self.removeConnection name
    else events.foldl (fun self event =>
      self.callAll (connKey fconn.fconn) (takes event) fun closure => .event closure fconn.conn event) self

/-- `fcitx_dict_free(xcb->conns)` in `fcitx_xcb_destroy` -/
def destroyConnections (self : XcbModule) : XcbModule :=
  self.conns.foldl (fun self e => self.removeConnection e.1) self

/-! ### What the module knows -/

/-- The closures under a key, in the order they are called. -/
def closures (self : XcbModule) (key : Bytes) : List (ℤ × XcbClosure) :=
  (MultiMap.find self.table.toMap key).map fun e => (e.1, .ofBytes e.2)

/-- The closures up to the one that takes the event. -/
def offered (takes : XcbClosure → Bool) : List (ℤ × XcbClosure) → List (ℤ × XcbClosure)
  | [] => []
  | e :: es => e :: if takes e.2 then [] else offered takes es

/-- The events of the main loop that the module registered, by the pointer of their connection. -/
def ioEvents (self : XcbModule) : List (ℕ × Handle) :=
  (self.mainloop.held.filter fun e => e.callback = self.functions.ioCallback).map fun e => (e.userdata, e.handle)

/-- The events of the main loop that are of other parts of the program. -/
def otherEvents (self : XcbModule) : List Held :=
  self.mainloop.held.filter fun e => e.callback ≠ self.functions.ioCallback

/-- The pointers of the connections are those that are held, and no two connections share one. -/
structure Inv (xcb : XcbModule) : Prop where
  table : xcb.table.Inv
  size : xcb.table.objSize = XcbClosure.size
  names : (Assoc.keys xcb.conns).Nodup
  opened : xcb.opened = xcb.conns.map fun e => e.2.conn
  groups : xcb.groups = xcb.conns.map fun e => e.2.group
  conn_nodup : xcb.opened.Nodup
  group_nodup : xcb.groups.Nodup
  fconn_nodup : (xcb.conns.map fun e => e.2.fconn).Nodup
  fconn : ∀ p ∈ xcb.conns.map (fun e => e.2.fconn), p < 2 ^ 64 ∧ p ≠ xcb.functions.created ∧ p ≠ xcb.functions.closed

variable {self : XcbModule} {name : Bytes} {closure : XcbClosure} {malloc : KeyPtr} {key : Bytes} {id : ℤ}
  {takes : XcbClosure → Bool} {call : XcbClosure → XcbCall} {moves : ℕ → Bool}

theorem offered_none (es : List (ℤ × XcbClosure)) : offered (fun _ => false) es = es := by
  induction es with
  | nil => rfl
  | cons e es ih =>
    rw [offered, if_neg Bool.false_ne_true, ih]

theorem callLoop_eq (table : HandlerTable) (takes : XcbClosure → Bool) (call : XcbClosure → XcbCall)
    (fuel : ℕ) (id : ℤ) :
    callLoop table takes call fuel id =
      (offered takes (((IdList.walk table.next fuel id).map table.entry).map fun e => (e.1, .ofBytes e.2))).map
        fun e => (e.1, call e.2) := by
  induction fuel generalizing id with
  | zero => rfl
  | succ fuel ih =>
    rw [callLoop, IdList.walk, HandlerTable.getById]
    by_cases hid : id = invalidId
    · rw [if_pos hid, if_pos (show id = -1 from hid)]
      rfl
    · rw [if_neg hid, if_neg (show ¬ id = -1 from hid), List.map_cons, List.map_cons, offered]
      dsimp only
      rw [ih, List.map_cons]
      congr 1
      by_cases htakes : takes (.ofBytes (table.obj id)) = true
      · rw [if_pos htakes, if_pos (show takes (.ofBytes (table.entry id).2) = true from htakes)]
        rfl
      · rw [if_neg htakes, if_neg (show ¬ takes (.ofBytes (table.entry id).2) = true from htakes)]

/-- **Going through a key** calls its closures in their order, up to the one that takes the event. -/
theorem callAll_eq (h : self.table.Inv) (key : Bytes) (takes : XcbClosure → Bool) (call : XcbClosure → XcbCall) :
    self.callAll key takes call =
      { self with calls := self.calls ++ (offered takes (self.closures key)).map fun e => (e.1, call e.2) } := by
  have hforward := h.forward_eq key
  rw [HandlerTable.forward] at hforward
  rw [callAll, callLoop_eq, hforward, closures]

/-- The bytes of a pointer are its own. -/
theorem connKey_inj {p q : ℕ} (hp : p < 2 ^ 64) (hq : q < 2 ^ 64) (h : connKey p = connKey q) : p = q := by
  have heq := congrArg ByteMem.ofLeBytes h
  rwa [connKey, connKey, ByteMem.ofLeBytes_leBytes, ByteMem.ofLeBytes_leBytes, Nat.mod_eq_of_lt (by simpa using hp),
    Nat.mod_eq_of_lt (by simpa using hq)] at heq

/-- What is promised for a new object of the table. -/
def Room (self : XcbModule) (malloc : KeyPtr) : Prop :=
  malloc ∉ self.table.ptrs ∧ malloc < 2 ^ 64 ∧ self.table.Room

instance (self : XcbModule) (malloc : KeyPtr) : Decidable (self.Room malloc) := inferInstanceAs (Decidable (_ ∧ _ ∧ _))

theorem Inv.append_ok (I : Inv self) (hroom : self.Room malloc) (closure : XcbClosure) (key : Bytes) :
    self.table.Ok (.append key closure.bytes malloc) :=
  ⟨by rw [XcbClosure.length_bytes, I.size], hroom⟩

/-- A new closure is the last one under its key, with a fresh id. -/
theorem append_spec (I : Inv self) (hroom : self.Room malloc) (hfits : closure.Fits) (key : Bytes) :
    (self.table.append key closure.bytes malloc).2.Inv ∧
      (self.table.append key closure.bytes malloc).2.objSize = XcbClosure.size ∧
      (self.table.append key closure.bytes malloc).1 ∉ self.table.live ∧
      ∀ k, closures { self with table := (self.table.append key closure.bytes malloc).2 } k =
        if k = key then self.closures key ++ [((self.table.append key closure.bytes malloc).1, closure)]
        else self.closures k := by
  have hok := I.append_ok hroom closure key
  obtain ⟨hinv, hfresh, -, -⟩ := HandlerTable.append_ids I.table hok
  refine ⟨hinv, ((HandlerTable.append_same _ _ _ _).1.objSize).trans I.size, hfresh, fun k => ?_⟩
  rw [closures, HandlerTable.append_map I.table hok, MultiMap.find_append, closures, closures]
  split
  · rw [List.map_append, List.map_singleton, XcbClosure.ofBytes_bytes hfits]
  · rfl

/-- What a new connection needs: pointers that are not in use. -/
def Fresh (self : XcbModule) (conn fconn group : ℕ) : Prop :=
  conn ∉ self.opened ∧ group ∉ self.groups ∧ fconn ∉ (self.conns.map fun e => e.2.fconn) ∧ fconn < 2 ^ 64 ∧
    fconn ≠ self.functions.created ∧ fconn ≠ self.functions.closed

instance (self : XcbModule) (conn fconn group : ℕ) : Decidable (self.Fresh conn fconn group) :=
  inferInstanceAs (Decidable (_ ∧ _ ∧ _ ∧ _ ∧ _ ∧ _))

/-- What a call does: to the connections, to the events of the main loop, and to the calls. -/
structure Stepped (xcb xcb' : XcbModule) (conns : List (Bytes × XcbConnection)) (mainloop : HandleLoop)
    (cs : List (ℤ × XcbCall)) : Prop where
  inv : Inv xcb'
  functions : xcb'.functions = xcb.functions
  conns : xcb'.conns = conns
  mainloop : xcb'.mainloop = mainloop
  calls : xcb'.calls = xcb.calls ++ cs

/-- Only calls. -/
theorem Inv.of_calls (I : Inv self) (calls : List (ℤ × XcbCall)) : Inv { self with calls := calls } :=
  ⟨I.table, I.size, I.names, I.opened, I.groups, I.conn_nodup, I.group_nodup, I.fconn_nodup, I.fconn⟩

/-- Another table. -/
theorem Inv.of_table (I : Inv self) {table : HandlerTable} (htable : table.Inv)
    (hsize : table.objSize = XcbClosure.size) : Inv { self with table := table } :=
  ⟨htable, hsize, I.names, I.opened, I.groups, I.conn_nodup, I.group_nodup, I.fconn_nodup, I.fconn⟩

/-- Other events of the main loop. -/
theorem Inv.of_mainloop (I : Inv self) (mainloop : HandleLoop) : Inv { self with mainloop := mainloop } :=
  ⟨I.table, I.size, I.names, I.opened, I.groups, I.conn_nodup, I.group_nodup, I.fconn_nodup, I.fconn⟩

/-- The handle of the event of a new connection. -/
def newEvent (moves : ℕ → Bool) (self : XcbModule) (fd : ℤ) (fconn : ℕ) (eventKey : KeyPtr) : Handle :=
  (self.mainloop.registerIoEvent moves self.functions.ioCallback fd fioefIn 0 fconn eventKey).1

/-- **A connection that is opened**: its event is registered, its filter is added, and the callbacks are called. -/
theorem openConnection_spec (moves : ℕ → Bool) (I : Inv self) {env name' : Option Bytes} {conn fconn group : ℕ}
    (screen fd : ℤ) (eventKey : KeyPtr) (hname : name'.or env = some name) (hnew : self.conns.lookup name = none)
    (hfresh : self.Fresh conn fconn group) (hroom : self.Room malloc) :
    Stepped self (self.openConnection moves env name' (.connected conn screen fd) fconn group malloc eventKey)
        (self.conns ++ [(name, ⟨fconn, conn, screen, newEvent moves self fd fconn eventKey, group⟩)])
        (self.mainloop.step moves (self.ioEvent fd fconn eventKey))
        ((self.closures (connKey self.functions.created)).map fun e => (e.1, .created e.2 name conn screen group)) ∧
      (self.openConnection moves env name' (.connected conn screen fd) fconn group malloc eventKey).table =
        (self.table.append (connKey fconn) (XcbClosure.bytes ⟨self.functions.filterEvent, fconn⟩) malloc).2 := by
  obtain ⟨hconn, hgroup, hfconn, hlt, hcreated, hclosed⟩ := hfresh
  have hfits : XcbClosure.Fits ⟨self.functions.filterEvent, fconn⟩ := ⟨self.functions.filterEvent_lt, hlt⟩
  obtain ⟨htable, hsize, -, hclosures⟩ := append_spec I hroom hfits (connKey fconn)
  set table := (self.table.append (connKey fconn) (XcbClosure.bytes ⟨self.functions.filterEvent, fconn⟩) malloc).2
    with hdef
  set c : XcbConnection := ⟨fconn, conn, screen, newEvent moves self fd fconn eventKey, group⟩ with hc
  set next : XcbModule := { self with
    opened := self.opened ++ [conn]
    mainloop := self.mainloop.step moves (self.ioEvent fd fconn eventKey)
    conns := self.conns ++ [(name, c)]
    groups := self.groups ++ [group]
    table := table } with hnext
  have hstep : self.openConnection moves env name' (.connected conn screen fd) fconn group malloc eventKey =
      next.callAll (connKey self.functions.created) (fun _ => false) fun closure =>
        .created closure name conn screen group := by
    rw [openConnection, hname]
    dsimp only
    rw [if_neg (by rw [hnew]; exact Bool.false_ne_true), addEventFilter, Assoc.lookup_concat hnew, if_pos rfl]
    rfl
  have hconcat : ∀ {l : List ℕ} {a : ℕ}, l.Nodup → a ∉ l → (l ++ [a]).Nodup := fun hl ha => by
    rw [← List.concat_eq_append]
    exact hl.concat ha
  have hfconns : next.conns.map (fun e => e.2.fconn) = (self.conns.map fun e => e.2.fconn) ++ [fconn] :=
    List.map_append
  have hI : Inv next := by
    refine ⟨htable, hsize, Assoc.keys_concat_nodup I.names hnew, ?_, ?_, ?_, ?_, ?_, ?_⟩
    · show self.opened ++ [conn] = _
      rw [I.opened, List.map_append]
      rfl
    · show self.groups ++ [group] = _
      rw [I.groups, List.map_append]
      rfl
    · exact hconcat I.conn_nodup hconn
    · exact hconcat I.group_nodup hgroup
    · rw [hfconns]
      exact hconcat I.fconn_nodup hfconn
    · intro p hp
      rw [hfconns] at hp
      rcases List.mem_append.mp hp with hp | hp
      · exact I.fconn p hp
      · rw [List.mem_singleton.mp hp]
        exact ⟨hlt, hcreated, hclosed⟩
  have hkeys : next.closures (connKey self.functions.created) = self.closures (connKey self.functions.created) := by
    have hne : connKey self.functions.created ≠ connKey fconn := fun h =>
      hcreated (connKey_inj hlt self.functions.created_lt h.symm)
    exact (hclosures _).trans (if_neg hne)
  rw [hstep, callAll_eq htable, offered_none, hkeys]
  exact ⟨⟨hI.of_calls _, rfl, rfl, rfl, rfl⟩, rfl⟩

/-- **A connection that is closed** lets go of what it holds, and the callbacks are called. -/
theorem removeConnection_spec (I : Inv self) {c : XcbConnection} (hname : self.conns.lookup name = some c) :
    Stepped self (self.removeConnection name) (Assoc.erase self.conns name) (self.mainloop.unregister c.event)
        ((self.closures (connKey self.functions.closed)).map fun e => (e.1, .closed e.2 name c.conn)) ∧
      (self.removeConnection name).table = self.table := by
  have hmem : (name, c) ∈ self.conns := (Assoc.lookup_eq_some_iff I.names).mp hname
  set next : XcbModule := { self with conns := Assoc.erase self.conns name } with hnext
  have hstep : self.removeConnection name = next.connectionClose name c := by rw [removeConnection, hname]
  have hconn : (Assoc.erase self.conns name).map (fun e => e.2.conn) = self.opened.erase c.conn := by
    rw [I.opened]
    exact Assoc.map_erase I.names (I.opened ▸ I.conn_nodup) hmem
  have hgroup : (Assoc.erase self.conns name).map (fun e => e.2.group) = self.groups.erase c.group := by
    rw [I.groups]
    exact Assoc.map_erase I.names (I.groups ▸ I.group_nodup) hmem
  have hfconn : (Assoc.erase self.conns name).map (fun e => e.2.fconn) =
      (self.conns.map fun e => e.2.fconn).erase c.fconn :=
    Assoc.map_erase I.names I.fconn_nodup hmem
  rw [hstep, connectionClose, callAll_eq (show next.table.Inv from I.table), offered_none]
  refine ⟨⟨⟨I.table, I.size, Assoc.keys_erase_nodup I.names, hconn.symm, hgroup.symm, I.conn_nodup.erase _,
    I.group_nodup.erase _, ?_, fun p hp => ?_⟩, rfl, rfl, rfl, rfl⟩, rfl⟩
  · exact hfconn ▸ I.fconn_nodup.erase _
  · exact I.fconn p (List.mem_of_mem_erase (hfconn ▸ hp))

end XcbModule

end Fcitx
