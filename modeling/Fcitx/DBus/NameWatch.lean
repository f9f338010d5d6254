/-
# Watching names on the bus

`module/dbus/dbusmodule.c`: the watches of a service are the objects of its key
in a handler table, and the filter calls them in turn when the owner of the
service changes. The link to the next watch is read from the current one after
its call. A watch that removes itself leaves the link as it was at that moment:
a watch it then removes too is called all the same.

Key definitions: `DBus`, `DBus.filter`, `Dispatch.loop`, `WatchLaw`, `Spares`, `Careful`.
Key theorems: `Dispatch.notify_next`, `Dispatch.loop_spec`, `filter_watchLaw_iff`.
-/
import Fcitx.Lib.Run
import Fcitx.Utils.HandlerChain
import Mathlib.Data.List.TakeWhile

namespace Fcitx

/-- What happens while a signal is handled. -/
inductive WatchMark where
  /-- `notify->func` of the watch is called -/
  | called (id : ℤ)
  /-- a callback calls `fcitx_dbus_remove_watch` -/
  | removed (id : ℤ)
  deriving DecidableEq

/-- The arguments of a `NameOwnerChanged` signal. -/
structure NameOwnerChanged where
  service : Bytes
  oldOwner : Bytes
  newOwner : Bytes

/-- A message as the filter tells them apart; a signal whose arguments
`dbus_message_get_args` does not find has `none`. -/
inductive BusMessage where
  | disconnected
  | nameLost (name : Option Bytes)
  | nameOwnerChanged (args : Option NameOwnerChanged)
  | other

/-- `DBusHandlerResult` -/
inductive HandlerResult where
  | handled
  | notYetHandled
  deriving DecidableEq

/-- `FcitxDBus`, and whether it called `fcitx_instance_shutdown`. -/
structure DBus where
  handler : HandlerTable
  shutdown : Bool

/-- `sizeof(FcitxDBusWatchNameNotify)` -/
def sizeofWatchNameNotify : ℕ := 24

/-- What the callbacks do: the watches the last one called removes, in order, given what has
happened since the signal came. -/
abbrev WatchCallback := NameOwnerChanged → List WatchMark → List ℤ

namespace DBus

/-- The watches of a new connection; `array` is the memory of the pool. -/
def new (array : ByteMem) : DBus := ⟨HandlerTable.new array sizeofWatchNameNotify true true true, false⟩

/-- `fcitx_dbus_watch_name` -/
def watchName (s : DBus) (name notify : Bytes) (malloc : KeyPtr) : ℤ × DBus :=
  let (id, handler) := s.handler.append name notify malloc
  (id, { s with handler })

/-- `fcitx_dbus_remove_watch` -/
def removeWatch (s : DBus) (id : ℤ) : DBus :=
  { s with handler := (s.handler.removeByIdFull id).getD s.handler }

end DBus

/-- The connection while it handles a signal. -/
structure Dispatch where
  dbus : DBus
  log : List WatchMark

namespace Dispatch

/-- `fcitx_dbus_remove_watch` in a callback. -/
def remove (s : Dispatch) (id : ℤ) : Dispatch := ⟨s.dbus.removeWatch id, s.log ++ [.removed id]⟩

/-- `notify->func` of the watch `id`. -/
def notify (callback : List WatchMark → List ℤ) (s : Dispatch) (id : ℤ) : Dispatch :=
  let log := s.log ++ [.called id]
  (callback log).foldl remove { s with log := log }

/-- The loop of `fcitx_dbus_filter`, for `fuel` watches at most. -/
def loop (callback : List WatchMark → List ℤ) : ℕ → Dispatch → ℤ → Dispatch
  | 0, s, _ => s
  | fuel + 1, s, id =>
    if id = invalidId then s
    else
      let s := s.notify callback id
      loop callback fuel s (s.dbus.handler.next id)

end Dispatch

/-- `fcitx_dbus_filter` -/
def DBus.filter (callback : WatchCallback) (s : DBus) : BusMessage → HandlerResult × Dispatch
  | .disconnected => (.handled, ⟨{ s with shutdown := true }, []⟩)
  | .nameLost none => (.notYetHandled, ⟨s, []⟩)
  | .nameLost (some name) =>
    if name = "org.fcitx.Fcitx".toUTF8.toList then (.handled, ⟨{ s with shutdown := true }, []⟩)
    else (.notYetHandled, ⟨s, []⟩)
  | .nameOwnerChanged none => (.notYetHandled, ⟨s, []⟩)
  | .nameOwnerChanged (some args) =>
    let notify := s.handler.firstId args.service
    if notify = invalidId then (.notYetHandled, ⟨s, []⟩)
    else (.handled, Dispatch.loop (callback args) (s.handler.objs.capacity + 1) ⟨s, []⟩ notify)
  | .other => (.notYetHandled, ⟨s, []⟩)

/-! ### What is asked of the loop -/

namespace WatchMark

/-- The watches that were called. -/
def calls (log : List WatchMark) : List ℤ :=
  log.filterMap fun
    | called id => some id
    | removed _ => none

/-- The watches that were removed. -/
def removals (log : List WatchMark) : List ℤ :=
  log.filterMap fun
    | called _ => none
    | removed id => some id

@[simp] theorem calls_append (log log' : List WatchMark) : calls (log ++ log') = calls log ++ calls log' :=
  List.filterMap_append

@[simp] theorem removals_append (log log' : List WatchMark) :
    removals (log ++ log') = removals log ++ removals log' :=
  List.filterMap_append

@[simp] theorem calls_removed (ids : List ℤ) : calls (ids.map removed) = [] := by
  induction ids with
  | nil => rfl
  | cons id ids ih => exact ih

@[simp] theorem removals_removed (ids : List ℤ) : removals (ids.map removed) = ids := by
  induction ids with
  | nil => rfl
  | cons id ids ih => exact congrArg (id :: ·) ih

@[simp] theorem calls_called (id : ℤ) (log : List WatchMark) : calls (called id :: log) = id :: calls log := rfl

@[simp] theorem removals_called (id : ℤ) (log : List WatchMark) :
    removals (called id :: log) = removals log := rfl

theorem mem_removals {log : List WatchMark} {id : ℤ} : id ∈ removals log ↔ removed id ∈ log := by
  rw [removals, List.mem_filterMap]
  constructor
  · rintro ⟨m, hm, he⟩
    cases m with
    | called j => exact absurd he (by simp)
    | removed j => exact Option.some.inj he ▸ hm
  · exact fun h => ⟨removed id, h, rfl⟩

end WatchMark

open WatchMark

/-- **Name-watch dispatch.** The watches `ids` of the service, in the order they were registered,
are called in that order, each at most once; no watch is called that was removed; and a watch that
is not called was removed before its turn. -/
structure WatchLaw (ids : List ℤ) (log : List WatchMark) : Prop where
  order : (calls log).Sublist ids
  alive : ∀ before id after, log = before ++ called id :: after → removed id ∉ before
  due : ∀ earlier id later, ids = earlier ++ id :: later → id ∉ calls log →
    ∃ before after, log = before ++ removed id :: after ∧ ∀ j ∈ calls before, j ∈ earlier

/-- The callbacks remove watches that are live, each once. -/
structure ValidRemovals (handler : HandlerTable) (log : List WatchMark) : Prop where
  nodup : (removals log).Nodup
  live : ∀ id ∈ removals log, id ∈ handler.live

/-- What has happened once each of the watches `ids` has had its turn: those that are not
removed by then are called. -/
def dueLog (callback : List WatchMark → List ℤ) : List ℤ → List WatchMark → List WatchMark
  | [], log => log
  | id :: ids, log =>
    if removed id ∈ log then dueLog callback ids log
    else dueLog callback ids (log ++ called id :: (callback (log ++ [called id])).map removed)

/-- A call of `id` does not remove `id` and after that the watch that comes next then; `next` are
the watches that are still to come. -/
def Spares (next : List ℤ) (id : ℤ) (removals : List ℤ) : Prop :=
  let before := removals.takeWhile (· ≠ id)
  let after := removals.drop (before.length + 1)
  ∀ x ∈ (next.filter (· ∉ before)).head?, x ∉ after

instance sparesDecidable (next : List ℤ) (id : ℤ) (removals : List ℤ) :
    Decidable (Spares next id removals) := by
  unfold Spares
  infer_instance

/-- Every watch that has a turn spares the next one. -/
def Careful (callback : List WatchMark → List ℤ) : List ℤ → List WatchMark → Prop
  | [], _ => True
  | id :: ids, log =>
    if removed id ∈ log then Careful callback ids log
    else
      Spares (ids.filter fun j => removed j ∉ log) id (callback (log ++ [called id])) ∧
        Careful callback ids (log ++ called id :: (callback (log ++ [called id])).map removed)

instance carefulDecidable (callback : List WatchMark → List ℤ) :
    ∀ (ids : List ℤ) (log : List WatchMark), Decidable (Careful callback ids log)
  | [], _ => .isTrue trivial
  | id :: ids, log => by
    have := carefulDecidable callback ids
    unfold Careful
    infer_instance

/-! ### The law of the due calls -/

namespace WatchLaw

variable {ids : List ℤ} {log : List WatchMark} {id : ℤ}

theorem nil : WatchLaw [] [] :=
  ⟨List.Sublist.refl [], fun before id after h => absurd h (by simp), fun earlier id later h => absurd h (by simp)⟩

/-- A watch that was removed has its turn. -/
theorem skip (h : WatchLaw ids log) (hid : removed id ∈ log) : WatchLaw (ids ++ [id]) log := by
  refine ⟨h.order.trans (List.sublist_append_left ids [id]), h.alive, fun earlier j later hids hj => ?_⟩
  rcases List.eq_nil_or_concat later with rfl | ⟨later', x, rfl⟩
  · obtain ⟨rfl, he⟩ := List.append_inj' hids rfl
    obtain rfl : id = j := (List.cons.inj he).1
    obtain ⟨before, after, hlog⟩ := List.append_of_mem hid
    refine ⟨before, after, hlog, fun k hk => h.order.subset ?_⟩
    rw [hlog, calls_append]
    exact List.mem_append_left _ hk
  · rw [List.concat_eq_append, ← List.cons_append, ← List.append_assoc] at hids
    exact h.due earlier j later' (List.append_inj' hids rfl).1 hj

/-- A watch that was not removed has its turn, and removes the watches `ms`. -/
theorem call (h : WatchLaw ids log) (hid : removed id ∉ log) (ms : List ℤ) :
    WatchLaw (ids ++ [id]) (log ++ called id :: ms.map removed) := by
  refine ⟨?_, fun before j after hlog => ?_, fun earlier j later hids hj => ?_⟩
  · rw [calls_append, calls_called, calls_removed]
    exact h.order.append (List.Sublist.refl [id])
  · rcases List.append_eq_append_iff.mp hlog with ⟨as, rfl, has⟩ | ⟨as, rfl, has⟩
    · cases as with
      | nil =>
        obtain ⟨hj, -⟩ := List.cons.inj has
        obtain rfl : id = j := WatchMark.called.inj hj
        rw [List.append_nil]
        exact hid
      | cons m as =>
        -- no watch is called among the removals
        obtain ⟨-, hms⟩ := List.cons.inj has
        have hmem : called j ∈ ms.map removed := by
          rw [hms]
          simp
        simp at hmem
    · cases as with
      | nil =>
        obtain ⟨hj, -⟩ := List.cons.inj has
        obtain rfl : j = id := WatchMark.called.inj hj
        rw [List.append_nil] at hid
        exact hid
      | cons m as =>
        obtain ⟨rfl, -⟩ := List.cons.inj has
        exact h.alive before j as rfl
  · rw [calls_append, calls_called, calls_removed, List.mem_append, not_or] at hj
    rcases List.eq_nil_or_concat later with rfl | ⟨later', x, rfl⟩
    · obtain ⟨rfl, he⟩ := List.append_inj' hids rfl
      obtain rfl : id = j := (List.cons.inj he).1
      exact absurd (List.mem_singleton.mpr rfl) hj.2
    · rw [List.concat_eq_append, ← List.cons_append, ← List.append_assoc] at hids
      obtain ⟨before, after, rfl, hbefore⟩ := h.due earlier j later' (List.append_inj' hids rfl).1 hj.1
      exact ⟨before, after ++ called id :: ms.map removed, by simp, hbefore⟩

end WatchLaw

/-- **The due calls keep the law.** -/
theorem dueLog_law (callback : List WatchMark → List ℤ) (ids : List ℤ) {done : List ℤ}
    {log : List WatchMark} (h : WatchLaw done log) : WatchLaw (done ++ ids) (dueLog callback ids log) := by
  induction ids generalizing done log with
  | nil =>
    rw [List.append_nil]
    exact h
  | cons id ids ih =>
    rw [dueLog, List.append_cons]
    split
    · next hid => exact ih (h.skip hid)
    · next hid => exact ih (h.call hid _)

/-! ### What a callback does to the table -/

namespace Dispatch

/-- The watches of the table are those of `handler` that were not removed. -/
structure Tracks (handler : HandlerTable) (s : Dispatch) : Prop where
  inv : HandlerTable.Inv s.dbus.handler
  live : ∀ id, id ∈ s.dbus.handler.live ↔ id ∈ handler.live ∧ removed id ∉ s.log
  ids : ∀ key, s.dbus.handler.ids key = (handler.ids key).filter fun id => removed id ∉ s.log
  capacity : s.dbus.handler.objs.capacity = handler.objs.capacity

variable {handler : HandlerTable} {s : Dispatch} {id : ℤ}

theorem Tracks.start {dbus : DBus} (h : HandlerTable.Inv dbus.handler) : Tracks dbus.handler ⟨dbus, []⟩ :=
  ⟨h, fun id => by simp, fun key => by simp, rfl⟩

/-- A call that is noted changes nothing. -/
theorem Tracks.called (h : Tracks handler s) (id : ℤ) :
    Tracks handler { s with log := s.log ++ [.called id] } :=
  ⟨h.inv, fun j => by simpa using h.live j, fun key => by simpa using h.ids key, h.capacity⟩

theorem Tracks.remove (h : Tracks handler s) (hlive : id ∈ handler.live) (hid : removed id ∉ s.log) :
    Tracks handler (s.remove id) := by
  have hmem : id ∈ s.dbus.handler.live := (h.live id).mpr ⟨hlive, hid⟩
  obtain ⟨hinv, hids, -⟩ := HandlerTable.removeByIdFull_ids h.inv hmem
  refine ⟨hinv, fun j => ?_, fun key => ?_, ?_⟩
  · simp only [Dispatch.remove, DBus.removeWatch]
    rw [HandlerTable.mem_live_remove h.inv hmem, h.live, List.mem_append, not_or, List.mem_singleton,
      and_assoc, WatchMark.removed.injEq]
  · simp only [Dispatch.remove, DBus.removeWatch]
    rw [hids, h.ids, List.filter_filter]
    refine List.filter_congr fun j _ => ?_
    simp only [List.mem_append, List.mem_singleton, WatchMark.removed.injEq, not_or, ne_eq,
      Bool.decide_and]
    exact Bool.and_comm _ _
  · exact (HandlerTable.removeByIdFull_same s.dbus.handler id).capacity.trans h.capacity

/-- The watches `ms` can be removed, one after another. -/
structure Removable (handler : HandlerTable) (s : Dispatch) (ms : List ℤ) : Prop where
  nodup : ms.Nodup
  live : ∀ id ∈ ms, id ∈ handler.live
  fresh : ∀ id ∈ ms, removed id ∉ s.log

theorem Removable.cons {ms : List ℤ} (h : Removable handler s (id :: ms)) :
    (id ∈ handler.live ∧ removed id ∉ s.log) ∧ Removable handler (s.remove id) ms := by
  obtain ⟨hid, hnodup⟩ := List.nodup_cons.mp h.nodup
  refine ⟨⟨h.live id List.mem_cons_self, h.fresh id List.mem_cons_self⟩, hnodup,
    fun j hj => h.live j (List.mem_cons_of_mem id hj), fun j hj hmem => ?_⟩
  rcases List.mem_append.mp hmem with hmem | hmem
  · exact h.fresh j (List.mem_cons_of_mem id hj) hmem
  · rw [List.mem_singleton, WatchMark.removed.injEq] at hmem
    exact hid (hmem ▸ hj)

theorem log_foldl_remove (ms : List ℤ) (s : Dispatch) : (ms.foldl remove s).log = s.log ++ ms.map removed := by
  induction ms generalizing s with
  | nil => exact (List.append_nil s.log).symm
  | cons id ms ih =>
    rw [List.foldl_cons, ih, List.map_cons, List.append_cons]
    rfl

theorem Tracks.foldl_remove {ms : List ℤ} (h : Tracks handler s) (hms : Removable handler s ms) :
    Tracks handler (ms.foldl Dispatch.remove s) := by
  induction ms generalizing s with
  | nil => exact h
  | cons id ms ih =>
    obtain ⟨⟨hlive, hid⟩, hrest⟩ := hms.cons
    exact ih (h.remove hlive hid) hrest

/-- Some of the removals, and after them the others. -/
theorem Removable.append {before rest : List ℤ} (h : Removable handler s (before ++ rest)) :
    Removable handler s before ∧ Removable handler (before.foldl Dispatch.remove s) rest := by
  induction before generalizing s with
  | nil => exact ⟨⟨List.nodup_nil, fun _ hj => absurd hj List.not_mem_nil,
      fun _ hj => absurd hj List.not_mem_nil⟩, h⟩
  | cons id before ih =>
    obtain ⟨⟨hlive, hid⟩, hrest⟩ := h.cons
    obtain ⟨hbefore, hrest'⟩ := ih hrest
    refine ⟨⟨h.nodup.sublist (List.sublist_append_left ..), fun j hj => h.live j (List.mem_append_left rest hj),
      fun j hj => h.fresh j (List.mem_append_left rest hj)⟩, hrest'⟩

/-- The watches of a service that are left after some removals. -/
theorem Tracks.ids_foldl_remove {ms : List ℤ} (h : Tracks handler s) (hms : Removable handler s ms) (key : Bytes) :
    (ms.foldl Dispatch.remove s).dbus.handler.ids key = (s.dbus.handler.ids key).filter (· ∉ ms) := by
  have hkeep : ∀ j, removed j ∉ s.log ++ ms.map removed ↔ removed j ∉ s.log ∧ j ∉ ms := by
    intro j
    simp
  rw [(h.foldl_remove hms).ids, h.ids, List.filter_filter, log_foldl_remove]
  refine List.filter_congr fun j _ => ?_
  rw [decide_eq_decide.mpr (hkeep j), Bool.decide_and]
  exact Bool.and_comm _ _

/-- What is left of the removals of a call starts with the watch itself. -/
theorem eq_of_dropWhile {ms after : List ℤ} {x : ℤ} (hdrop : ms.dropWhile (· ≠ id) = x :: after) : x = id := by
  have hhead := List.head_dropWhile_not (fun j => decide (j ≠ id)) (l := ms)
    (by rw [hdrop]; exact List.cons_ne_nil x after)
  simp only [hdrop, List.head_cons, decide_eq_false_iff_not, not_not] at hhead
  exact hhead

/-- Removing others leaves the link of a watch that is gone. -/
theorem foldl_remove_next {ms : List ℤ} (h : Tracks handler s) (hms : Removable handler s ms) {j : ℕ}
    (hj : j < handler.objs.capacity) (hgone : (j : ℤ) ∉ s.dbus.handler.live) :
    (ms.foldl remove s).dbus.handler.next j = s.dbus.handler.next j := by
  induction ms generalizing s with
  | nil => rfl
  | cons id ms ih =>
    obtain ⟨⟨hlive, hid⟩, hrest⟩ := hms.cons
    have hmem : id ∈ s.dbus.handler.live := (h.live id).mpr ⟨hlive, hid⟩
    have hstep := HandlerTable.removeByIdFull_next h.inv hmem (h.capacity ▸ hj) (Or.inr hgone)
    refine (ih (h.remove hlive hid) hrest fun hgone' => hgone ?_).trans hstep
    exact ((HandlerTable.mem_live_remove h.inv hmem).mp hgone').1

/-- A live watch is a slot of the pool. -/
theorem exists_slot (h : HandlerTable.Inv handler) (hid : id ∈ handler.live) :
    ∃ n : ℕ, id = n ∧ n < handler.objs.capacity := by
  obtain ⟨L, free, h⟩ := h
  obtain ⟨p, hp, n, hn, rfl⟩ := h.mem_ids.mp hid
  exact ⟨n, rfl, (h.live hp hn).1⟩

/-- **The link that is read after a call**: to the first watch that is left of those that follow,
where only what the call removed before it removed its own watch counts. -/
theorem notify_next (callback : List WatchMark → List ℤ) (key : Bytes) (earlier next : List ℤ)
    (h : Tracks handler s) (hids : s.dbus.handler.ids key = earlier ++ id :: next)
    (hms : Removable handler s (callback (s.log ++ [.called id]))) :
    (s.notify callback id).dbus.handler.next id =
      (next.filter (· ∉ (callback (s.log ++ [.called id])).takeWhile (· ≠ id))).headD invalidId := by
  set ms := callback (s.log ++ [.called id]) with hmsdef
  set s₀ : Dispatch := { s with log := s.log ++ [.called id] } with hs₀
  have h₀ : Tracks handler s₀ := h.called id
  have hms₀ : Removable handler s₀ ms :=
    ⟨hms.nodup, hms.live, fun j hj hmem => hms.fresh j hj (by simpa [hs₀] using hmem)⟩
  set before := ms.takeWhile (· ≠ id) with hbefore
  have hsplit : before ++ ms.dropWhile (· ≠ id) = ms := List.takeWhile_append_dropWhile
  have hid : id ∉ before := fun hmem => by simpa using List.mem_takeWhile_imp hmem
  obtain ⟨hmsb, hrest⟩ := Removable.append (hsplit.symm ▸ hms₀)
  -- the removals before that of `id` itself
  have h₁ : Tracks handler (before.foldl Dispatch.remove s₀) := h₀.foldl_remove hmsb
  have hids₁ : (before.foldl Dispatch.remove s₀).dbus.handler.ids key =
      (earlier.filter (· ∉ before)) ++ id :: next.filter (· ∉ before) := by
    rw [h₀.ids_foldl_remove hmsb, hids, List.filter_append, List.filter_cons_of_pos (by simpa using hid)]
  have hnext := h₁.inv.next_eq hids₁
  have hnotify : s.notify callback id =
      (ms.dropWhile (· ≠ id)).foldl Dispatch.remove (before.foldl Dispatch.remove s₀) := by
    rw [← List.foldl_append, hsplit]
    rfl
  rw [hnotify]
  cases hdrop : ms.dropWhile (· ≠ id) with
  | nil => exact hnext
  | cons x after =>
    -- the watch removes itself, and its link stays
    obtain rfl := eq_of_dropWhile hdrop
    have hlive : x ∈ (before.foldl Dispatch.remove s₀).dbus.handler.live :=
      h₁.inv.mem_live_iff.mpr ⟨key, by rw [hids₁]; simp⟩
    obtain ⟨hlive₀, hfresh⟩ := (h₁.live x).mp hlive
    obtain ⟨n, rfl, hn⟩ := exists_slot h₁.inv hlive
    rw [hdrop] at hrest
    obtain ⟨-, hafter⟩ := hrest.cons
    have hgone : (n : ℤ) ∉ ((before.foldl Dispatch.remove s₀).remove n).dbus.handler.live := fun hmem =>
      ((HandlerTable.mem_live_remove h₁.inv hlive).mp hmem).2 rfl
    calc _ = _ := foldl_remove_next (h₁.remove hlive₀ hfresh) hafter (h₁.capacity ▸ hn) hgone
      _ = _ := HandlerTable.removeByIdFull_next h₁.inv hlive hn (Or.inl rfl)
      _ = _ := hnext

/-! ### The loop -/

theorem notify_log (callback : List WatchMark → List ℤ) (s : Dispatch) (id : ℤ) :
    (s.notify callback id).log = s.log ++ .called id :: (callback (s.log ++ [.called id])).map removed := by
  unfold notify
  rw [log_foldl_remove, List.append_assoc]
  rfl

/-- The log only grows. -/
theorem log_prefix_loop (callback : List WatchMark → List ℤ) (fuel : ℕ) (s : Dispatch) (id : ℤ) :
    s.log <+: (s.loop callback fuel id).log := by
  induction fuel generalizing s id with
  | zero => exact List.prefix_refl _
  | succ fuel ih =>
    unfold loop
    split
    · exact List.prefix_refl _
    · refine List.IsPrefix.trans ?_ (ih (s.notify callback id) _)
      rw [notify_log]
      exact List.prefix_append _ _

/-- What a valid log says of the call that comes next in it. -/
theorem removable_of_valid {callback : List WatchMark → List ℤ} {log : List WatchMark}
    (hvalid : ValidRemovals handler log) (hlog : (s.notify callback id).log <+: log) :
    Removable handler s (callback (s.log ++ [.called id])) := by
  obtain ⟨rest, rfl⟩ := hlog
  obtain ⟨hnodup, hlive⟩ := hvalid
  rw [notify_log, removals_append, removals_append, removals_called, removals_removed] at hnodup hlive
  obtain ⟨hnodup', -, -⟩ := List.nodup_append.mp hnodup
  obtain ⟨-, hms, hdisj⟩ := List.nodup_append.mp hnodup'
  refine ⟨hms, fun j hj => hlive j ?_, fun j hj hmem => hdisj j (mem_removals.mpr hmem) j hj rfl⟩
  exact List.mem_append_left _ (List.mem_append_right _ hj)

/-- Where the call spares the watch that comes next, the link leads to the first watch that is left. -/
theorem headD_filter_of_spares {next ms : List ℤ} (hid : id ∉ next) (hspares : Spares next id ms) :
    (next.filter (· ∉ ms.takeWhile (· ≠ id))).headD invalidId = (next.filter (· ∉ ms)).headD invalidId := by
  unfold Spares at hspares
  dsimp only at hspares
  have hms := List.takeWhile_append_dropWhile (p := fun j => decide (j ≠ id)) (l := ms)
  set before := ms.takeWhile (· ≠ id)
  have hsplit : ms = before ∨ ∃ x, ms = before ++ x :: ms.drop (before.length + 1) ∧ x ∉ next := by
    cases hdrop : ms.dropWhile (· ≠ id) with
    | nil =>
      rw [hdrop, List.append_nil] at hms
      exact Or.inl hms.symm
    | cons x after =>
      refine Or.inr ⟨x, ?_, eq_of_dropWhile hdrop ▸ hid⟩
      rw [hdrop] at hms
      rw [← hms, List.drop_append, List.drop_eq_nil_of_le (by simp), List.nil_append]
      simp
  rcases hsplit with hms | ⟨x, hms, hx⟩
  · rw [← hms]
  · set after := ms.drop (before.length + 1)
    have hfilter : next.filter (· ∉ ms) = (next.filter (· ∉ before)).filter (· ∉ after) := by
      rw [List.filter_filter]
      refine List.filter_congr fun j hj => ?_
      have hjx : j ≠ x := fun e => hx (e ▸ hj)
      rw [hms]
      simp [hjx, Bool.and_comm]
    rw [hfilter]
    cases hnext : next.filter (· ∉ before) with
    | nil => rfl
    | cons y ys =>
      have hy := hspares y (by rw [hnext]; rfl)
      rw [List.filter_cons_of_pos (by simpa using hy)]
      rfl

/-- **The loop calls the watches that are due** if each of them spares the next one, and otherwise
calls one that was removed. -/
theorem loop_spec (callback : List WatchMark → List ℤ) (key : Bytes) (ids done : List ℤ)
    {fuel : ℕ} (h : Tracks handler s) (hinv : HandlerTable.Inv handler) (hids : handler.ids key = done ++ ids)
    (hid : id = (ids.filter fun j => removed j ∉ s.log).headD invalidId)
    (hfuel : (ids.filter fun j => removed j ∉ s.log).length < fuel)
    (hvalid : ValidRemovals handler (s.loop callback fuel id).log) :
    (Careful callback ids s.log → (s.loop callback fuel id).log = dueLog callback ids s.log) ∧
      (¬ Careful callback ids s.log → ∃ before x after,
        (s.loop callback fuel id).log = before ++ called x :: after ∧ removed x ∈ before) := by
  induction ids generalizing done fuel s id with
  | nil =>
    obtain ⟨fuel, rfl⟩ := Nat.exists_eq_succ_of_ne_zero (Nat.ne_of_gt hfuel)
    have hloop : s.loop callback (fuel + 1) id = s := by
      have hinvalid : id = invalidId := hid
      rw [loop, if_pos hinvalid]
    rw [hloop]
    exact ⟨fun _ => rfl, fun hn => absurd trivial hn⟩
  | cons i ids ih =>
    have hids' : handler.ids key = (done ++ [i]) ++ ids := by rw [hids, List.append_cons]
    by_cases hi : removed i ∈ s.log
    · -- the watch is gone and the walk is past it
      rw [List.filter_cons_of_neg (by simpa using hi)] at hid hfuel
      rw [Careful, dueLog, if_pos hi, if_pos hi]
      exact ih _ h hids' hid hfuel hvalid
    · rw [List.filter_cons_of_pos (by simpa using hi)] at hid hfuel
      obtain rfl : id = i := hid
      obtain ⟨fuel, rfl⟩ := Nat.exists_eq_succ_of_ne_zero (Nat.ne_of_gt (Nat.zero_lt_of_lt hfuel))
      have hlive : id ∈ handler.live := hinv.mem_live_iff.mpr ⟨key, by rw [hids]; simp⟩
      have hne : id ≠ invalidId := by
        have := hinv.nonneg hlive
        rw [invalidId]
        omega
      have hloop : s.loop callback (fuel + 1) id =
          (s.notify callback id).loop callback fuel ((s.notify callback id).dbus.handler.next id) := by
        rw [loop, if_neg hne]
      rw [hloop] at hvalid ⊢
      set next := ids.filter fun j => removed j ∉ s.log with hnextdef
      have hms := removable_of_valid hvalid (log_prefix_loop callback fuel _ _)
      have hnext := notify_next callback key (done.filter fun j => removed j ∉ s.log) next h (by
          rw [h.ids, hids, List.filter_append, List.filter_cons_of_pos (by simpa using hi)]) hms
      have h' : Tracks handler (s.notify callback id) := by
        refine (h.called id).foldl_remove ⟨hms.nodup, hms.live, fun j hj hmem => hms.fresh j hj ?_⟩
        simpa using hmem
      set ms := callback (s.log ++ [.called id]) with hmsdef
      have hlog : (s.notify callback id).log = s.log ++ .called id :: ms.map removed := notify_log callback s id
      have hidnext : id ∉ next := by
        have hnodup := hinv.ids_nodup key
        rw [hids] at hnodup
        intro hmem
        exact (List.nodup_cons.mp (List.nodup_append.mp hnodup).2.1).1 (List.mem_filter.mp hmem).1
      have hfilter : ids.filter (fun j => removed j ∉ (s.notify callback id).log) = next.filter (· ∉ ms) := by
        rw [hnextdef, List.filter_filter, hlog]
        refine List.filter_congr fun j _ => ?_
        simp [and_comm]
      rw [Careful, dueLog, if_neg hi, if_neg hi, ← hlog]
      by_cases hspares : Spares next id ms
      · have hid' := hnext.trans (headD_filter_of_spares hidnext hspares)
        rw [← hfilter] at hid'
        have hfuel' : (ids.filter fun j => removed j ∉ (s.notify callback id).log).length < fuel := by
          rw [hfilter]
          have hle := List.length_filter_le (fun j => decide (j ∉ ms)) next
          simp only [List.length_cons] at hfuel
          omega
        obtain ⟨hdue, hbad⟩ := ih _ h' hids' hid' hfuel' hvalid
        exact ⟨fun hcareful => hdue hcareful.2, fun hn => hbad fun hcareful => hn ⟨hspares, hcareful⟩⟩
      · refine ⟨fun hcareful => absurd hcareful.1 hspares, fun _ => ?_⟩
        -- the link leads to a watch that the call removed
        simp only [Spares, not_forall, not_not] at hspares
        obtain ⟨x, hx, hafter⟩ := hspares
        have hxms : x ∈ ms := List.mem_of_mem_drop hafter
        have hxnext : (s.notify callback id).dbus.handler.next id = x := by
          rw [hnext, List.headD_eq_head?_getD, Option.mem_def.mp hx, Option.getD_some]
        obtain ⟨fuel, rfl⟩ : ∃ n, fuel = n + 1 := by
          have hxmem : x ∈ next := (List.mem_filter.mp (List.mem_of_mem_head? hx)).1
          have hpos := List.length_pos_of_mem hxmem
          simp only [List.length_cons] at hfuel
          exact ⟨fuel - 1, by omega⟩
        have hxne : x ≠ invalidId := by
          have := hinv.nonneg (hms.live x hxms)
          rw [invalidId]
          omega
        rw [hxnext, loop, if_neg hxne]
        obtain ⟨rest, hrest⟩ := log_prefix_loop callback fuel ((s.notify callback id).notify callback x)
          (((s.notify callback id).notify callback x).dbus.handler.next x)
        refine ⟨(s.notify callback id).log, x,
          (callback ((s.notify callback id).log ++ [.called x])).map removed ++ rest, hrest.symm.trans ?_, ?_⟩
        · rw [notify_log, List.append_assoc, List.cons_append]
        · rw [hlog]
          exact List.mem_append_right _ (List.mem_cons_of_mem _ (List.mem_map_of_mem hxms))

end Dispatch

/-! ### Signals -/

/-- The calls between signals. -/
inductive WatchOp where
  | watchName (name notify : Bytes) (malloc : KeyPtr)
  | removeWatch (id : ℤ)

namespace DBus

def step (s : DBus) : WatchOp → DBus
  | .watchName name notify malloc => (s.watchName name notify malloc).2
  | .removeWatch id => s.removeWatch id

/-- The allocator gives new keys fresh addresses, the pool has room, and a watch that is removed is live. -/
def Ok (s : DBus) : WatchOp → Prop
  | .watchName name notify malloc => s.handler.Ok (.append name notify malloc)
  | .removeWatch id => id ∈ s.handler.live

instance (s : DBus) : ∀ op, Decidable (s.Ok op)
  | .watchName name notify malloc => inferInstanceAs (Decidable (s.handler.Ok (.append name notify malloc)))
  | .removeWatch id => inferInstanceAs (Decidable (id ∈ s.handler.live))

theorem new_inv (array : ByteMem) : HandlerTable.Inv (new array).handler :=
  ⟨_, _, HandlerTable.new_inv array sizeofWatchNameNotify true true true (by decide)⟩

theorem step_inv (s : DBus) (op : WatchOp) (h : HandlerTable.Inv s.handler) (hok : s.Ok op) :
    HandlerTable.Inv (s.step op).handler := by
  cases op with
  | watchName name notify malloc => exact (HandlerTable.append_ids h hok).1
  | removeWatch id => exact (HandlerTable.removeByIdFull_ids h hok).1

/-- The watches of a service, in the order they were registered. -/
def watches (s : DBus) (service : Bytes) : List ℤ := s.handler.ids service

/-- The new watch is the last one of its service. -/
theorem watches_watchName {s : DBus} (h : HandlerTable.Inv s.handler) {name notify : Bytes} {malloc : KeyPtr}
    (hok : s.Ok (.watchName name notify malloc)) (service : Bytes) :
    (s.watchName name notify malloc).2.watches service =
      if service = name then s.watches name ++ [(s.watchName name notify malloc).1] else s.watches service :=
  (HandlerTable.append_ids h hok).2.2.1 service

/-- A service has no more watches than the pool has slots. -/
theorem length_watches_le {s : DBus} (h : HandlerTable.Inv s.handler) (service : Bytes) :
    (s.watches service).length < s.handler.objs.capacity + 1 := by
  have hnodup := h.ids_nodup service
  have hsub : s.watches service ⊆ (List.range s.handler.objs.capacity).map Nat.cast := by
    intro id hid
    obtain ⟨n, rfl, hn⟩ := Dispatch.exists_slot h (h.mem_live_iff.mpr ⟨service, hid⟩)
    exact List.mem_map.mpr ⟨n, List.mem_range.mpr hn, rfl⟩
  have hle := (hnodup.subperm hsub).length_le
  rw [List.length_map, List.length_range] at hle
  exact Nat.lt_succ_of_le hle

end DBus

open DBus

/-- **Name-watch dispatch under removals** is lawful exactly when no watch that has its turn removes
itself and then the watch that comes next. -/
theorem filter_watchLaw_iff (array : ByteMem) (ops : List WatchOp)
    (h : Run.Admissible DBus.step DBus.Ok (DBus.new array) ops) (callback : WatchCallback)
    (args : NameOwnerChanged)
    (hvalid : ValidRemovals (Run.exec DBus.step (DBus.new array) ops).handler
      ((Run.exec DBus.step (DBus.new array) ops).filter callback (.nameOwnerChanged (some args))).2.log) :
    WatchLaw ((Run.exec DBus.step (DBus.new array) ops).watches args.service)
        ((Run.exec DBus.step (DBus.new array) ops).filter callback (.nameOwnerChanged (some args))).2.log ↔
      Careful (callback args) ((Run.exec DBus.step (DBus.new array) ops).watches args.service) [] := by
  have hinv : HandlerTable.Inv (Run.exec DBus.step (DBus.new array) ops).handler :=
    Run.invariant DBus.step_inv (DBus.new_inv array) h
  set s := Run.exec DBus.step (DBus.new array) ops
  have hfirst : s.handler.firstId args.service = (s.watches args.service).headD invalidId :=
    hinv.firstId_eq args.service
  rw [DBus.filter] at hvalid ⊢
  split at hvalid
  · next hnone =>
    -- the service has no watches
    have hnil : s.watches args.service = [] := by
      cases hids : s.watches args.service with
      | nil => rfl
      | cons id ids =>
        have hlive : id ∈ s.handler.live := hinv.mem_live_iff.mpr ⟨args.service, by
          rw [show s.handler.ids args.service = id :: ids from hids]
          exact List.mem_cons_self⟩
        have hnonneg := hinv.nonneg hlive
        rw [hfirst, hids, List.headD_cons, invalidId] at hnone
        omega
    rw [if_pos hnone, hnil]
    exact iff_of_true WatchLaw.nil trivial
  · next hsome =>
    rw [if_neg hsome]
    have hall : ((s.watches args.service).filter fun j => removed j ∉ ([] : List WatchMark)) =
        s.watches args.service := by simp
    obtain ⟨hdue, hbad⟩ := Dispatch.loop_spec (callback args) args.service
      (s.watches args.service) [] (Dispatch.Tracks.start hinv) hinv rfl
      (by rw [hall]; exact hfirst) (by rw [hall]; exact length_watches_le hinv args.service) hvalid
    constructor
    · intro hlaw
      by_contra hn
      obtain ⟨before, x, after, hlog, hx⟩ := hbad hn
      exact hlaw.alive before x after hlog hx
    · intro hcareful
      rw [hdue hcareful]
      exact dueLog_law (callback args) (s.watches args.service) WatchLaw.nil

/-- Three watches of one service and one of another. -/
def fourWatches : List WatchOp :=
  let notify := List.replicate sizeofWatchNameNotify 0
  [.watchName [97] notify 8, .watchName [97] notify 24, .watchName [98] notify 16, .watchName [97] notify 32]

/-- The watch 0 removes the watches `ids`. -/
def removeAtFirst (ids : List ℤ) : WatchCallback := fun _ log =>
  if log.getLast? = some (.called 0) then ids else []

/-- The first watch removes itself and the others are called. -/
theorem filter_watchLaw_iff_four :
    WatchLaw ((Run.exec DBus.step (DBus.new fun _ => 0) fourWatches).watches [97])
      ((Run.exec DBus.step (DBus.new fun _ => 0) fourWatches).filter (removeAtFirst [0])
        (.nameOwnerChanged (some ⟨[97], [1], []⟩))).2.log :=
  (filter_watchLaw_iff (fun _ => 0) fourWatches (by decide +kernel) (removeAtFirst [0]) ⟨[97], [1], []⟩
    ⟨by decide +kernel, by decide +kernel⟩).mpr (by decide +kernel)

/-- The first watch removes itself and the second one, which is called all the same. -/
theorem not_watchLaw_removeNext :
    Run.Admissible DBus.step DBus.Ok (DBus.new fun _ => 0) fourWatches ∧
      ¬ WatchLaw ((Run.exec DBus.step (DBus.new fun _ => 0) fourWatches).watches [97])
        ((Run.exec DBus.step (DBus.new fun _ => 0) fourWatches).filter (removeAtFirst [0, 1])
          (.nameOwnerChanged (some ⟨[97], [1], []⟩))).2.log := by
  refine ⟨by decide +kernel, fun h => ?_⟩
  have hlog : ((Run.exec DBus.step (DBus.new fun _ => 0) fourWatches).filter (removeAtFirst [0, 1])
      (.nameOwnerChanged (some ⟨[97], [1], []⟩))).2.log =
        [.called 0, .removed 0, .removed 1] ++ .called 1 :: [.called 3] := by
    decide +kernel
  exact h.alive _ _ _ hlog (by decide)

end Fcitx
