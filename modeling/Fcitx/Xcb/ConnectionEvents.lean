/-
# What the X module holds

Each connection holds the handle of an IO event of the main loop, and closing it
removes the event through that handle. Other parts of the program register and remove
IO events meanwhile. The handle is good as long as no registration moves the pool of
the events (`HandleLoop.handles_valid_iff`); in a run without one the module holds one
connection of the X library, one focus group and one event for each of its connections,
and the end of the module lets go of all, and of nothing else.

Key definitions: `XcbModule.Registered`, `XcbModule.StaysAt`, `XcbModule.Holds`.
Key theorems: `XcbModule.openConnection_registered`, `XcbModule.removeConnection_registered`,
`XcbModule.step_registered`, `XcbModule.run_holds`.
-/
import Fcitx.Xcb.ConnectionRun

namespace Fcitx

namespace XcbModule

/-- Each connection has its own event of the main loop, and all handles are good. -/
structure Registered (xcb : XcbModule) : Prop where
  tracks : HandleLoop.Tracks xcb.mainloop
  events : xcb.ioEvents = xcb.conns.map fun e => (e.2.fconn, e.2.event)

/-- What the allocator promises for a new IO event, and that the pool of the events stays where it is. -/
def StaysAt (moves : ℕ → Bool) (self : XcbModule) : XcbOp → Prop
  | .openConnection _ _ (.connected _ _ fd) fconn _ _ eventKey =>
    self.mainloop.Ok (self.ioEvent fd fconn eventKey) ∧ self.mainloop.Stays moves (self.ioEvent fd fconn eventKey)
  | .openConnection _ _ .null _ _ _ _ => True
  | .openConnection _ _ (.error _) _ _ _ _ => True
  | .openConnection _ _ (.noAtom _) _ _ _ _ => True
  | .onConnectionCreated .. => True
  | .onConnectionClosed .. => True
  | .addEventFilter .. => True
  | .removeWatcher _ => True
  | .io .. => True
  | .other op => self.mainloop.Ok op ∧ self.mainloop.Stays moves op

def Stays (moves : ℕ → Bool) (self : Option XcbModule) (op : XcbOp) : Prop := ∀ m ∈ self, m.StaysAt moves op

instance (moves : ℕ → Bool) (self : XcbModule) : ∀ op, Decidable (self.StaysAt moves op)
  | .openConnection _ _ (.connected ..) _ _ _ _ => inferInstanceAs (Decidable (_ ∧ _))
  | .openConnection _ _ .null _ _ _ _ => inferInstanceAs (Decidable True)
  | .openConnection _ _ (.error _) _ _ _ _ => inferInstanceAs (Decidable True)
  | .openConnection _ _ (.noAtom _) _ _ _ _ => inferInstanceAs (Decidable True)
  | .onConnectionCreated .. => inferInstanceAs (Decidable True)
  | .onConnectionClosed .. => inferInstanceAs (Decidable True)
  | .addEventFilter .. => inferInstanceAs (Decidable True)
  | .removeWatcher _ => inferInstanceAs (Decidable True)
  | .io .. => inferInstanceAs (Decidable True)
  | .other _ => inferInstanceAs (Decidable (_ ∧ _))

instance (moves : ℕ → Bool) : ∀ (self : Option XcbModule) (op : XcbOp), Decidable (Stays moves self op)
  | none, _ => .isTrue fun _ h => absurd h (Option.not_mem_none _)
  | some m, op => decidable_of_iff (m.StaysAt moves op) ⟨fun h _ hm => Option.mem_some.mp hm ▸ h, fun h => h m rfl⟩

/-- One connection of the X library, one group and one good event of the main loop for each connection, and no display
twice. -/
structure Holds (xcb : XcbModule) : Prop where
  names : (Assoc.keys xcb.conns).Nodup
  opened : xcb.opened = xcb.conns.map fun e => e.2.conn
  opened_nodup : xcb.opened.Nodup
  groups : xcb.groups = xcb.conns.map fun e => e.2.group
  groups_nodup : xcb.groups.Nodup
  ioEvents : xcb.ioEvents = xcb.conns.map fun e => (e.2.fconn, e.2.event)
  ioEvents_nodup : xcb.ioEvents.Nodup
  valid : HandleLoop.Valid xcb.mainloop

variable {self self' : XcbModule} {name : Bytes} {op : XcbOp} {moves : ℕ → Bool}

/-- The events of connections that are not the same are not. -/
theorem Inv.events_nodup (I : Inv self) : (self.conns.map fun e => (e.2.fconn, e.2.event)).Nodup := by
  refine List.Nodup.of_map Prod.fst ?_
  rw [List.map_map]
  exact I.fconn_nodup

theorem Registered.holds (R : Registered self) (I : Inv self) : Holds self :=
  ⟨I.names, I.opened, I.conn_nodup, I.groups, I.group_nodup, R.events, R.events ▸ I.events_nodup, R.tracks.valid⟩

/-- What leaves the connections and the events alone. -/
theorem Registered.congr (R : Registered self) (hfunctions : self'.functions = self.functions)
    (hmainloop : self'.mainloop = self.mainloop) (hconns : self'.conns = self.conns) : Registered self' := by
  refine ⟨hmainloop ▸ R.tracks, ?_⟩
  rw [ioEvents, hfunctions, hmainloop, hconns]
  exact R.events

theorem new_registered (functions : XcbFunctions) (array loopArray : ByteMem) :
    Registered (new functions array loopArray) :=
  ⟨HandleLoop.new_tracks loopArray, rfl⟩

/-- **A connection that is opened** has the newest event of the main loop. -/
theorem openConnection_registered (I : Inv self) (R : Registered self) {env name' : Option Bytes}
    {conn fconn group : ℕ} {screen fd : ℤ} {malloc eventKey : KeyPtr} (hfresh : self.Fresh conn fconn group)
    (hroom : self.Room malloc) (hok : self.mainloop.Ok (self.ioEvent fd fconn eventKey))
    (hstays : self.mainloop.Stays moves (self.ioEvent fd fconn eventKey)) :
    Registered (self.openConnection moves env name' (.connected conn screen fd) fconn group malloc eventKey) ∧
      (self.openConnection moves env name' (.connected conn screen fd) fconn group malloc eventKey).otherEvents =
        self.otherEvents := by
  cases hname : name'.or env with
  | none =>
    rw [openConnection, hname]
    exact ⟨R, rfl⟩
  | some name =>
    cases hnew : self.conns.lookup name with
    | some c =>
      rw [openConnection, hname]
      dsimp only
      rw [if_pos (by rw [hnew]; rfl)]
      exact ⟨R, rfl⟩
    | none =>
      have S := (openConnection_spec moves I screen fd eventKey hname hnew hfresh hroom).1
      have hheld : ∃ id, (self.mainloop.step moves (self.ioEvent fd fconn eventKey)).held = self.mainloop.held ++
          [⟨newEvent moves self fd fconn eventKey, self.functions.ioCallback, fd, 0, fconn, id⟩] := ⟨_, rfl⟩
      obtain ⟨id, hheld⟩ := hheld
      refine ⟨⟨S.mainloop ▸ R.tracks.step hok hstays, ?_⟩, ?_⟩
      · have hevents := R.events
        rw [ioEvents] at hevents
        rw [ioEvents, S.functions, S.mainloop, S.conns, hheld, List.filter_append, List.map_append, hevents,
          List.map_append, List.filter_cons_of_pos (by simp)]
        rfl
      · rw [otherEvents, S.functions, S.mainloop, hheld, List.filter_append, List.filter_cons_of_neg (by simp),
          List.filter_nil, List.append_nil, otherEvents]

/-- **A connection that is closed** removes its own event, through a handle that is good. -/
theorem removeConnection_registered (I : Inv self) (R : Registered self) {c : XcbConnection}
    (hname : self.conns.lookup name = some c) :
    Registered (self.removeConnection name) ∧ (self.removeConnection name).otherEvents = self.otherEvents := by
  have S := (removeConnection_spec I hname).1
  have hmem : (name, c) ∈ self.conns := (Assoc.lookup_eq_some_iff I.names).mp hname
  have hevent : (c.fconn, c.event) ∈ self.ioEvents := R.events ▸ List.mem_map.mpr ⟨(name, c), hmem, rfl⟩
  obtain ⟨e, he, hpair⟩ := List.mem_map.mp hevent
  obtain ⟨hheld, hours⟩ := List.mem_filter.mp he
  have hhandle : e.handle = c.event := congrArg Prod.snd hpair
  obtain ⟨front, back, hsplit⟩ := List.append_of_mem hheld
  obtain ⟨htracks, hrest⟩ := R.tracks.unregister hsplit
  rw [hhandle, ← S.mainloop] at htracks hrest
  refine ⟨⟨htracks, ?_⟩, ?_⟩
  · obtain ⟨before, after, hconns, herase⟩ := Assoc.exists_erase I.names hmem
    have hevents := R.events
    have hnodup := I.events_nodup
    rw [hconns, List.map_append, List.map_cons] at hnodup hevents
    rw [ioEvents, hsplit, List.filter_append, List.map_append, List.filter_cons_of_pos (by exact hours), List.map_cons,
      hpair] at hevents
    rw [← hevents] at hnodup
    obtain ⟨-, hback, hfront⟩ := List.nodup_append.mp hnodup
    -- the event is at the place of the connection
    obtain ⟨hfront, -, hback⟩ := (List.append_cons_inj_of_notMem (fun h => hfront _ h _ List.mem_cons_self rfl)
      (List.nodup_cons.mp hback).1).mp hevents
    rw [ioEvents, S.functions, S.conns, hrest, herase, List.filter_append, List.map_append, List.map_append, hfront,
      hback]
  · rw [otherEvents, otherEvents, S.functions, hrest, hsplit, List.filter_append, List.filter_append,
      List.filter_cons_of_neg (by simpa using hours)]

/-- Other parts of the program leave the events of the module alone. -/
theorem other_registered (R : Registered self) {op : HandleOp} (hforeign : self.Foreign op)
    (hok : self.mainloop.Ok op) (hstays : self.mainloop.Stays moves op) :
    Registered { self with mainloop := self.mainloop.step moves op } := by
  refine ⟨R.tracks.step hok hstays, Eq.trans ?_ R.events⟩
  refine congrArg (List.map fun e : Held => (e.userdata, e.handle)) ?_
  cases op with
  | register callback fd flag destroyNotify userdata malloc =>
    have hne : callback ≠ self.functions.ioCallback := hforeign
    have hheld : ∃ handle id,
        (self.mainloop.step moves (.register callback fd flag destroyNotify userdata malloc)).held =
          self.mainloop.held ++ [⟨handle, callback, fd, destroyNotify, userdata, id⟩] := ⟨_, _, rfl⟩
    obtain ⟨handle, id, hheld⟩ := hheld
    rw [hheld, List.filter_append, List.filter_cons_of_neg (by simpa using hne), List.filter_nil, List.append_nil]
  | remove k =>
    have hk : k < self.mainloop.held.length := hok
    have hget : self.mainloop.held[k]? = some self.mainloop.held[k] := List.getElem?_eq_getElem hk
    have hne : (self.mainloop.held[k]).callback ≠ self.functions.ioCallback := hforeign _ hget
    have hheld : (self.mainloop.step moves (.remove k)).held = self.mainloop.held.eraseIdx k := by
      rw [HandleLoop.step, hget]
    have hsplit : self.mainloop.held =
        self.mainloop.held.take k ++ self.mainloop.held[k] :: self.mainloop.held.drop (k + 1) := by
      rw [List.getElem_cons_drop, List.take_append_drop]
    rw [hheld, List.eraseIdx_eq_take_drop_succ, List.filter_append]
    conv_rhs => rw [hsplit, List.filter_append, List.filter_cons_of_neg (by simpa using hne)]

theorem step_registered (I : Inv self) (R : Registered self) (ha : self.AllowedAt op) (hs : self.StaysAt moves op)
    (happly : self.apply moves op = some self') : Registered self' := by
  cases op with
  | openConnection env name' x fconn group malloc eventKey =>
    rw [← Option.some.inj happly]
    cases x with
    | connected conn screen fd => exact (openConnection_registered I R ha.1 ha.2 hs.1 hs.2).1
    | null =>
      exact (openConnection_failed self env name' .null fconn group eventKey (by simp)).symm ▸ R
    | error conn =>
      exact (openConnection_failed self env name' (.error conn) fconn group eventKey (by simp)).symm ▸ R
    | noAtom conn =>
      exact (openConnection_failed self env name' (.noAtom conn) fconn group eventKey (by simp)).symm ▸ R
  | onConnectionCreated closure malloc =>
    rw [← Option.some.inj happly]
    exact R.congr rfl rfl rfl
  | onConnectionClosed closure malloc =>
    rw [← Option.some.inj happly]
    exact R.congr rfl rfl rfl
  | addEventFilter name' closure malloc =>
    rw [← Option.some.inj happly, addEventFilter]
    cases self.conns.lookup name' with
    | none => exact R
    | some x => exact R.congr rfl rfl rfl
  | removeWatcher id =>
    obtain ⟨table, -, htable⟩ := Option.map_eq_some_iff.mp happly
    exact htable ▸ R.congr rfl rfl rfl
  | io name' hasError takes events =>
    rw [← Option.some.inj happly, ioCallback]
    cases hname : self.conns.lookup name' with
    | none => exact R
    | some x =>
      dsimp only
      split
      · exact (removeConnection_registered I R hname).1
      · rw [foldl_callAll I.table]
        exact R.congr rfl rfl rfl
  | other op => exact Option.some.inj happly ▸ other_registered R ha hs.1 hs.2

/-- A run in which the events stay where they are. -/
theorem exec_registered {ops : List XcbOp} (I : Inv self) (R : Registered self)
    (ha : Run.Admissible (step moves) Allowed (some self) ops)
    (hs : Run.Admissible (step moves) (Stays moves) (some self) ops) :
    ∃ self', Run.exec (step moves) (some self) ops = some self' ∧ Inv self' ∧ Registered self' := by
  induction ops generalizing self with
  | nil => exact ⟨self, rfl, I, R⟩
  | cons op ops ih =>
    obtain ⟨next, happly, E⟩ := step_spec moves I (ha.1 self rfl)
    have R' := step_registered I R (ha.1 self rfl) (hs.1 self rfl) happly
    obtain ⟨-, ha'⟩ := ha
    obtain ⟨-, hs'⟩ := hs
    rw [XcbModule.step, Option.bind_some, happly] at ha' hs'
    obtain ⟨last, hexec, hlast⟩ := ih E.inv R' ha' hs'
    exact ⟨last, (exec_some_cons happly).trans hexec, hlast⟩

/-- **The module holds what its connections need**, after every run in which the pool of the events of the main loop
stays where it is: one connection of the X library, one group and one event each, through a good handle, and no display
twice. When the module goes it lets go of all, and of no event of other parts of the program. -/
theorem run_holds (functions : XcbFunctions) (array loopArray : ByteMem) (moves : ℕ → Bool) (ops : List XcbOp)
    (ha : Run.Admissible (step moves) Allowed (some (new functions array loopArray)) ops)
    (hs : Run.Admissible (step moves) (Stays moves) (some (new functions array loopArray)) ops) :
    ∃ xcb, Run.exec (step moves) (some (new functions array loopArray)) ops = some xcb ∧ Holds xcb ∧
      Holds xcb.destroyConnections ∧ xcb.destroyConnections.opened = [] ∧ xcb.destroyConnections.groups = [] ∧
      xcb.destroyConnections.ioEvents = [] ∧ xcb.destroyConnections.otherEvents = xcb.otherEvents := by
  obtain ⟨xcb, hexec, I, R⟩ := exec_registered (new_inv functions array loopArray)
    (new_registered functions array loopArray) ha hs
  have hclose : ∀ (m : XcbModule) (name : Bytes) (c : XcbConnection), Inv m → m.conns.lookup name = some c →
      Registered m ∧ m.otherEvents = xcb.otherEvents →
      Registered (m.removeConnection name) ∧ (m.removeConnection name).otherEvents = xcb.otherEvents := by
    rintro m name c I hname ⟨R, hothers⟩
    obtain ⟨R', hsame⟩ := removeConnection_registered I R hname
    exact ⟨R', hsame.trans hothers⟩
  obtain ⟨I', hnone, R', hothers⟩ := destroyConnections_spec I ⟨R, rfl⟩ hclose
  have H := R'.holds I'
  refine ⟨xcb, hexec, R.holds I, H, ?_, ?_, ?_, hothers⟩
  · rw [H.opened, hnone]
    rfl
  · rw [H.groups, hnone]
    rfl
  · rw [H.ioEvents, hnone]
    rfl

theorem run_holds_sample :
    ∃ xcb, Run.exec (step fun _ => true) (some (new sampleFunctions (fun _ => 0) fun _ => 0))
        (.other (.register 8 3 1 0 0 0) :: sampleOps) = some xcb ∧ Holds xcb ∧
      Holds xcb.destroyConnections ∧ xcb.destroyConnections.opened = [] ∧ xcb.destroyConnections.groups = [] ∧
      xcb.destroyConnections.ioEvents = [] ∧ xcb.destroyConnections.otherEvents = xcb.otherEvents :=
  run_holds sampleFunctions (fun _ => 0) (fun _ => 0) (fun _ => true) (.other (.register 8 3 1 0 0 0) :: sampleOps)
    (by decide +kernel) (by decide +kernel)

/-- Five displays whose connections have the pool of the events moved. -/
def fiveDisplays : List XcbOp :=
  (List.range 5).map fun k =>
    .openConnection none (some [58, UInt8.ofNat k]) (.connected (16 + k) 0 k) (24 + k) (32 + k) (40 + k) (48 + k)

-- the first handles are gone with the old block
example : (Run.exec (step fun _ => true) (some (new sampleFunctions (fun _ => 0) fun _ => 0)) fiveDisplays).map
    (fun xcb => xcb.destroyConnections.mainloop.undefined) = some true := by
  decide +kernel

end XcbModule

end Fcitx
