/-
# The watchers of the X connections

`fcitx_xcb_add_event_filter` and `fcitx_xcb_remove_watcher` of `module/xcb/xcbmodule.c`.
The filters are objects of a handler table, under the pointer of their connection. For a
display that is not connected the id is `FCITX_OBJECT_POOL_INVALID_ID`, which
`fcitx_handler_table_remove_by_id` leaves alone, but `fcitx_handler_table_remove_by_id_full`
looks for its key behind NULL.

Key definitions: `Xcb`, `Xcb.addEventFilter`, `Xcb.removeWatcher`, `Watching`,
`Watching.HoldsExactly`.
Key theorems: `HandlerTable.removeByIdFull_eq_none_iff`, `Watching.step_inv`,
`Watching.run_holdsExactly_iff`.
-/
import Fcitx.Utils.Dict
import Fcitx.Utils.HandlerChain

namespace Fcitx

/-- `FcitxXCBCallbackClosure`: two pointers. -/
structure XcbClosure where
  callback : ℕ
  userData : ℕ
deriving DecidableEq

namespace XcbClosure

def bytes (closure : XcbClosure) : Bytes :=
  ByteMem.leBytes 8 closure.callback ++ ByteMem.leBytes 8 closure.userData

/-- `sizeof(FcitxXCBCallbackClosure)` -/
def size : ℕ := 16

@[simp] theorem length_bytes (closure : XcbClosure) : closure.bytes.length = size := by
  rw [bytes, List.length_append, ByteMem.length_leBytes, ByteMem.length_leBytes, size]

end XcbClosure

/-- `FcitxXCB`: the connections by the name of their display, and the table of the watchers. -/
structure Xcb where
  conns : Dict ℕ
  table : HandlerTable

/-- The bytes of `&fconn`. -/
def connKey (fconn : ℕ) : Bytes := ByteMem.leBytes 8 fconn

namespace Xcb

/-- `fcitx_xcb_add_event_filter` -/
def addEventFilter (self : Xcb) (name : Bytes) (closure : XcbClosure) (malloc : KeyPtr) : ℤ × Xcb :=
  match self.conns.lookup name with
  | none => (invalidId, self)
  | some fconn =>
    let (id, table) := self.table.append (connKey fconn) closure.bytes malloc
    (id, { self with table := table })

/-- `fcitx_xcb_remove_watcher`; `none` is a read through NULL. -/
def removeWatcher (self : Xcb) (id : ℤ) : Option Xcb :=
  (self.table.removeByIdFull id).map fun table => { self with table := table }

/-- The table of `fcitx_xcb_init`. -/
def newTable (array : ByteMem) : HandlerTable := .new array XcbClosure.size false false false

end Xcb

namespace HandlerTable

variable {table : HandlerTable}

/-- **Only the invalid id has no key.** -/
theorem removeByIdFull_eq_none_iff {id : ℤ} : table.removeByIdFull id = none ↔ id = invalidId := by
  rw [removeByIdFull, Option.map_eq_none_iff, getKeyById]
  by_cases hid : id = invalidId
  · simp [hid]
  · simp [hid]

theorem removeByIdFull_of_ne {id : ℤ} (hid : id ≠ invalidId) :
    table.removeByIdFull id = some ((table.removeByIdFull id).getD table) := by
  cases hres : table.removeByIdFull id with
  | none => exact absurd (removeByIdFull_eq_none_iff.mp hres) hid
  | some table' => rfl

end HandlerTable

/-- An event filter: its key in the table, its id and its closure. -/
structure EventFilter where
  key : Bytes
  id : ℤ
  closure : Bytes
deriving DecidableEq

/-- The module with the filters that were added and not removed, and the ids that were returned and not
removed. -/
structure Watching where
  xcb : Xcb
  filters : List EventFilter
  returned : List ℤ

/-- `malloc` is the pointer a new key gets. -/
inductive WatcherOp where
  | addEventFilter (name : Bytes) (closure : XcbClosure) (malloc : KeyPtr)
  | removeWatcher (id : ℤ)
deriving DecidableEq

namespace Watching

/-- The filter that is added. -/
def added (s : Watching) (name : Bytes) (closure : XcbClosure) (malloc : KeyPtr) : List EventFilter :=
  match s.xcb.conns.lookup name with
  | none => []
  | some fconn => [⟨connKey fconn, (s.xcb.addEventFilter name closure malloc).1, closure.bytes⟩]

/-- A call; `none` is a fault. -/
def call (s : Watching) : WatcherOp → Option Watching
  | .addEventFilter name closure malloc =>
    some { xcb := (s.xcb.addEventFilter name closure malloc).2
           filters := s.filters ++ s.added name closure malloc
           returned := s.returned ++ [(s.xcb.addEventFilter name closure malloc).1] }
  | .removeWatcher id =>
    (s.xcb.removeWatcher id).map fun xcb =>
      { xcb := xcb
        filters := s.filters.filter fun filter => filter.id ≠ id
        returned := s.returned.erase id }

/-- Nothing follows a fault. -/
def step (s : Option Watching) (op : WatcherOp) : Option Watching := s.bind fun s => s.call op

/-- What the allocator and a caller promise: there is memory for what is added, and only an id that was
returned is removed, once. -/
def Ok (s : Option Watching) (op : WatcherOp) : Prop :=
  match s, op with
  | none, _ => True
  | some s, .addEventFilter name _ malloc =>
    (s.xcb.conns.lookup name).isSome → malloc ∉ s.xcb.table.ptrs ∧ malloc < 2 ^ 64 ∧ s.xcb.table.Room
  | some s, .removeWatcher id => id ∈ s.returned

instance (s : Option Watching) (op : WatcherOp) : Decidable (Ok s op) :=
  match s, op with
  | none, _ => inferInstanceAs (Decidable True)
  | some _, .addEventFilter .. => inferInstanceAs (Decidable (_ → _))
  | some s, .removeWatcher id => inferInstanceAs (Decidable (id ∈ s.returned))

/-- The entries of the filters of a key. -/
def entries (s : Watching) (key : Bytes) : List (ℤ × Bytes) :=
  (s.filters.filter fun filter => filter.key = key).map fun filter => (filter.id, filter.closure)

/-- There was no fault, and behind what it had before the table has the filters that were not removed, in the
order in which they were added. -/
def HoldsExactly (before : HandlerTable) (s : Option Watching) : Prop :=
  ∃ s', s = some s' ∧ ∀ key, s'.xcb.table.forward key = before.forward key ++ s'.entries key

/-- A table that the module may have. -/
def Reachable (table : HandlerTable) : Prop :=
  ∃ array ops, Run.Admissible HandlerTable.step HandlerTable.Ok (Xcb.newTable array) ops ∧
    table = Run.exec HandlerTable.step (Xcb.newTable array) ops

/-- The invariant of a run. -/
structure Inv (before : HandlerTable) (s : Watching) : Prop where
  table : s.xcb.table.Inv
  objSize : s.xcb.table.objSize = XcbClosure.size
  holds : ∀ key, s.xcb.table.forward key = before.forward key ++ s.entries key
  returned : (s.returned.filter fun id => id ≠ invalidId) = s.filters.map EventFilter.id
  nodup : (s.filters.map EventFilter.id).Nodup
  apart : ∀ filter ∈ s.filters, ∀ key, filter.id ∉ (before.forward key).map Prod.fst

variable {before : HandlerTable} {s : Watching}

theorem mem_entries {filter : EventFilter} (h : filter ∈ s.filters) :
    (filter.id, filter.closure) ∈ s.entries filter.key :=
  List.mem_map.mpr ⟨filter, List.mem_filter.mpr ⟨h, decide_eq_true rfl⟩, rfl⟩

/-- One filter more. -/
theorem entries_concat (xcb : Xcb) (filters : List EventFilter) (filter : EventFilter) (returned : List ℤ)
    (key : Bytes) :
    entries ⟨xcb, filters ++ [filter], returned⟩ key = entries ⟨xcb, filters, returned⟩ key ++
      if key = filter.key then [(filter.id, filter.closure)] else [] := by
  rw [entries, entries, List.filter_append, List.map_append]
  congr 1
  by_cases hkey : filter.key = key
  · simp [hkey]
  · simp [hkey, Ne.symm hkey]

namespace Inv

/-- The filters and what was there before are in the table. -/
theorem mem_live (h : Inv before s) {filter : EventFilter} (hf : filter ∈ s.filters) :
    filter.id ∈ s.xcb.table.live := by
  refine h.table.mem_live_iff.mpr ⟨filter.key, ?_⟩
  rw [HandlerTable.ids, h.holds, List.map_append]
  exact List.mem_append_right _ (List.mem_map_of_mem (mem_entries hf))

theorem mem_live_before (h : Inv before s) {id : ℤ} {key : Bytes} (hid : id ∈ (before.forward key).map Prod.fst) :
    id ∈ s.xcb.table.live := by
  refine h.table.mem_live_iff.mpr ⟨key, ?_⟩
  rw [HandlerTable.ids, h.holds, List.map_append]
  exact List.mem_append_left _ hid

end Inv

/-! ### The calls -/

/-- **A filter for a display that is not connected** is not added. -/
theorem add_unknown (h : Inv before s) {name : Bytes} {closure : XcbClosure} {malloc : KeyPtr}
    (hname : s.xcb.conns.lookup name = none) :
    ∃ s', s.call (.addEventFilter name closure malloc) = some s' ∧ Inv before s' := by
  have hres : s.xcb.addEventFilter name closure malloc = (invalidId, s.xcb) := by rw [Xcb.addEventFilter, hname]
  have hadded : s.added name closure malloc = [] := by rw [added, hname]
  refine ⟨_, rfl, ?_⟩
  rw [hres, hadded, List.append_nil]
  refine ⟨h.table, h.objSize, h.holds, ?_, h.nodup, h.apart⟩
  show ((s.returned ++ [invalidId]).filter fun id => id ≠ invalidId) = _
  rw [List.filter_append, h.returned]
  simp

/-- **A filter for a connection** is added under a new id. -/
theorem add_known (h : Inv before s) {name : Bytes} {closure : XcbClosure} {malloc : KeyPtr} {fconn : ℕ}
    (hname : s.xcb.conns.lookup name = some fconn)
    (hok : malloc ∉ s.xcb.table.ptrs ∧ malloc < 2 ^ 64 ∧ s.xcb.table.Room) :
    ∃ s', s.call (.addEventFilter name closure malloc) = some s' ∧ Inv before s' := by
  have hok' : s.xcb.table.Ok (.append (connKey fconn) closure.bytes malloc) :=
    ⟨by rw [XcbClosure.length_bytes, h.objSize], hok⟩
  set res := s.xcb.table.append (connKey fconn) closure.bytes malloc with hres
  have hxcb : s.xcb.addEventFilter name closure malloc = (res.1, { s.xcb with table := res.2 }) := by
    rw [Xcb.addEventFilter, hname]
  have hadded : s.added name closure malloc = [⟨connKey fconn, res.1, closure.bytes⟩] := by
    rw [added, hname, hxcb]
  obtain ⟨hinv, hout, -, -⟩ := HandlerTable.append_ids h.table hok'
  have hsame := (HandlerTable.append_same s.xcb.table (connKey fconn) closure.bytes malloc).1
  have hne : res.1 ≠ invalidId := by
    obtain ⟨L, free, htable⟩ := h.table
    have hfresh := ((HandlerTable.append_stepLaw htable hok').2.fresh rfl).1
    intro heq
    have hneg : (0 : ℤ) ≤ res.1 := hfresh
    rw [heq, invalidId] at hneg
    omega
  refine ⟨_, rfl, ?_⟩
  rw [hxcb, hadded]
  refine ⟨hinv, hsame.objSize.trans h.objSize, fun key => ?_, ?_, ?_, ?_⟩
  · show res.2.forward key =
      before.forward key ++ entries ⟨_, s.filters ++ [⟨connKey fconn, res.1, closure.bytes⟩], _⟩ key
    rw [hinv.forward_eq, HandlerTable.append_map h.table hok', MultiMap.find_append, entries_concat,
      ← List.append_assoc]
    split_ifs with hkey
    · rw [← h.table.forward_eq, h.holds, hkey]
      rfl
    · rw [← h.table.forward_eq, h.holds, List.append_nil]
      rfl
  · show ((s.returned ++ [res.1]).filter fun id => id ≠ invalidId) = _
    rw [List.filter_append, h.returned, List.map_append]
    simp [hne]
  · rw [List.map_append, List.map_singleton, List.nodup_append]
    refine ⟨h.nodup, List.nodup_singleton _, fun id hid id' hid' heq => ?_⟩
    obtain ⟨filter, hf, rfl⟩ := List.mem_map.mp hid
    have heq' : filter.id = res.1 := heq.trans (List.mem_singleton.mp hid')
    exact hout (heq' ▸ h.mem_live hf)
  · intro filter hf key
    rcases List.mem_append.mp hf with hold | hnew
    · exact h.apart filter hold key
    · rw [List.mem_singleton.mp hnew]
      exact fun hid => hout (h.mem_live_before hid)

/-- An id that was returned and is valid is that of a filter. -/
theorem Inv.exists_filter (h : Inv before s) {id : ℤ} (hid : id ∈ s.returned) (hne : id ≠ invalidId) :
    ∃ filter ∈ s.filters, filter.id = id := by
  have hmem : id ∈ s.filters.map EventFilter.id := by
    rw [← h.returned]
    exact List.mem_filter.mpr ⟨hid, decide_eq_true hne⟩
  exact List.mem_map.mp hmem

/-- The entries without the filter of an id. -/
theorem entries_filter (s : Watching) (xcb : Xcb) (returned : List ℤ) (id : ℤ) (key : Bytes) :
    entries ⟨xcb, s.filters.filter fun filter => filter.id ≠ id, returned⟩ key =
      (s.entries key).filter fun e => e.1 ≠ id := by
  rw [entries, entries, List.filter_map, List.filter_filter, List.filter_filter]
  congr 1
  refine List.filter_congr fun filter _ => ?_
  rw [Bool.and_comm]
  rfl

/-- **A filter that is removed** is no longer in the table, and the others are. -/
theorem remove_known (h : Inv before s) {id : ℤ} (hid : id ∈ s.returned) (hne : id ≠ invalidId) :
    ∃ s', s.call (.removeWatcher id) = some s' ∧ Inv before s' := by
  obtain ⟨filter, hf, rfl⟩ := h.exists_filter hid hne
  have hlive := h.mem_live hf
  set table := (s.xcb.table.removeByIdFull filter.id).getD s.xcb.table with htable
  obtain ⟨hinv, -, -⟩ := HandlerTable.removeByIdFull_ids h.table hlive
  have hxcb : s.xcb.removeWatcher filter.id = some { s.xcb with table := table } := by
    rw [Xcb.removeWatcher, HandlerTable.removeByIdFull_of_ne hne, Option.map_some]
  refine ⟨_, by rw [call, hxcb, Option.map_some], hinv, ?_, fun key => ?_, ?_, ?_, ?_⟩
  · exact (HandlerTable.removeByIdFull_same s.xcb.table filter.id).same.objSize.trans h.objSize
  · show table.forward key = _
    rw [entries_filter, hinv.forward_eq, HandlerTable.removeByIdFull_map h.table hlive,
      MultiMap.find_removeIdFull h.table.keys_nodup, ← h.table.forward_eq, h.holds, List.filter_append]
    congr 1
    refine List.filter_eq_self.mpr fun e he => decide_eq_true fun heq => ?_
    exact h.apart filter hf key (List.mem_map.mpr ⟨e, he, heq⟩)
  · show ((s.returned.erase filter.id).filter fun id => id ≠ invalidId) =
      (s.filters.filter fun other => other.id ≠ filter.id).map EventFilter.id
    rw [← List.erase_filter, h.returned, h.nodup.erase_eq_filter, List.filter_map]
    congr 1
    refine List.filter_congr fun other _ => ?_
    by_cases heq : other.id = filter.id
    · simp [heq]
    · simp [heq]
  · exact h.nodup.sublist (List.filter_sublist.map _)
  · intro other ho
    exact h.apart other (List.mem_filter.mp ho).1

theorem step_inv (h : Inv before s) {op : WatcherOp} (hok : Ok (some s) op) (hop : op ≠ .removeWatcher invalidId) :
    ∃ s', step (some s) op = some s' ∧ Inv before s' := by
  cases op with
  | addEventFilter name closure malloc =>
    cases hname : s.xcb.conns.lookup name with
    | none => exact add_unknown h hname
    | some fconn => exact add_known h hname (hok (by rw [hname]; rfl))
  | removeWatcher id => exact remove_known h hok fun hid => hop (by rw [hid])

/-- Removing the invalid id is a fault. -/
theorem step_invalid (s : Watching) : step (some s) (.removeWatcher invalidId) = none := by
  have hnone : s.xcb.table.removeByIdFull invalidId = none := HandlerTable.removeByIdFull_eq_none_iff.mpr rfl
  show s.call (.removeWatcher invalidId) = none
  rw [call, Xcb.removeWatcher, hnone]
  rfl

/-! ### Runs -/

theorem Reachable.inv {table : HandlerTable} (h : Reachable table) :
    table.Inv ∧ table.objSize = XcbClosure.size := by
  obtain ⟨array, ops, ha, rfl⟩ := h
  exact HandlerTable.run_inv array XcbClosure.size false false false (by decide) ha

/-- A module whose callers have added nothing yet. -/
def start (xcb : Xcb) : Watching := ⟨xcb, [], []⟩

theorem start_inv {xcb : Xcb} (h : Reachable xcb.table) : Inv xcb.table (start xcb) where
  table := h.inv.1
  objSize := h.inv.2
  holds _ := (List.append_nil _).symm
  returned := rfl
  nodup := List.nodup_nil
  apart _ hf := absurd hf List.not_mem_nil

/-- **The invalid id.** From every reachable table `remove_by_id` leaves it alone and `remove_by_id_full` faults
with it; so a run has no fault and the table holds exactly the filters that were not removed exactly if it never
removes the invalid id. -/
theorem run_holdsExactly_iff (xcb : Xcb) (hreach : Reachable xcb.table) (ops : List WatcherOp)
    (ha : Run.Admissible step Ok (some (start xcb)) ops) :
    xcb.table.removeById invalidId = xcb.table ∧ xcb.table.removeByIdFull invalidId = none ∧
      ((∀ before after, ops = before ++ after → HoldsExactly xcb.table (Run.exec step (some (start xcb)) before)) ↔
        ∀ op ∈ ops, op ≠ .removeWatcher invalidId) := by
  refine ⟨if_pos rfl, HandlerTable.removeByIdFull_eq_none_iff.mpr rfl, ?_⟩
  have hops : Run.Admissible step (fun _ op => op ≠ .removeWatcher invalidId) (some (start xcb)) ops ↔
      ∀ op ∈ ops, op ≠ .removeWatcher invalidId := Run.admissible_of_op
  rw [← hops]
  refine Run.always_iff (I := fun s => ∃ s', s = some s' ∧ Inv xcb.table s') ?_ ?_ ?_ ⟨_, rfl, start_inv hreach⟩ ha
  · rintro _ ⟨s, rfl, h⟩
    exact ⟨s, rfl, h.holds⟩
  · rintro _ op ⟨s, rfl, h⟩ hok hop
    exact step_inv h hok hop
  · rintro _ op ⟨s, rfl, -⟩ - ⟨s', hs', -⟩ rfl
    rw [step_invalid] at hs'
    cases hs'

/-- A module that is connected to the display `:0`. -/
def sampleXcb : Xcb := ⟨⟨[([58, 48], 0x1000)], 1⟩, Xcb.newTable fun _ => 0⟩

/-- A filter for `:0` that is removed, and one for `:1` that is refused. -/
theorem run_holdsExactly_iff_removed :
    HoldsExactly sampleXcb.table (Run.exec step (some (start sampleXcb))
      [.addEventFilter [58, 48] ⟨0x10, 0x20⟩ 0x5000, .addEventFilter [58, 49] ⟨0x30, 0x40⟩ 0x6000,
        .removeWatcher 0]) :=
  (run_holdsExactly_iff sampleXcb ⟨fun _ => 0, [], trivial, rfl⟩
    [.addEventFilter [58, 48] ⟨0x10, 0x20⟩ 0x5000, .addEventFilter [58, 49] ⟨0x30, 0x40⟩ 0x6000, .removeWatcher 0]
    (by decide +kernel)).2.2.mpr (by decide) _ [] (List.append_nil _).symm

/-- The id of the one that was refused, which its caller removes. -/
theorem not_holdsExactly_refused :
    Run.Admissible step Ok (some (start sampleXcb))
        [.addEventFilter [58, 49] ⟨0x30, 0x40⟩ 0x6000, .removeWatcher invalidId] ∧
      ¬ HoldsExactly sampleXcb.table (Run.exec step (some (start sampleXcb))
        [.addEventFilter [58, 49] ⟨0x30, 0x40⟩ 0x6000, .removeWatcher invalidId]) := by
  refine ⟨by decide +kernel, fun ⟨s, hs, _⟩ => ?_⟩
  have hfault : Run.exec step (some (start sampleXcb))
      [.addEventFilter [58, 49] ⟨0x30, 0x40⟩ 0x6000, .removeWatcher invalidId] = none :=
    step_invalid ⟨sampleXcb, [], [invalidId]⟩
  rw [hfault] at hs
  cases hs

end Watching

end Fcitx
