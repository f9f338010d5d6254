/-
# The globals of the Wayland registry

`module/wayland/wayland-global.c`. The compositor announces globals and takes them
back; a handler is for the globals of one interface, or general for all of them, and is
told of each. The handlers are objects of a handler table under the name of their
interface, the general ones under the empty name, and the data of a key has the globals
of the interface.

Key definitions: `Wayland`, `Wayland.globalAdded`, `Wayland.globalRemoved`,
`Wayland.regGlobalHandler`, `Wayland.Inv`.
Key theorems: `Wayland.runLoop_eq`, `Wayland.globalAdded_spec`, `Wayland.globalRemoved_spec`,
`Wayland.regGlobalHandler_spec`.
-/
import Fcitx.Utils.HandlerChain

namespace Fcitx

/-- `FcitxWaylandGlobalHandler`: two functions and what they get; 0 is NULL. -/
structure GlobalHandler where
  added : ℕ
  removed : ℕ
  data : ℕ
deriving DecidableEq

namespace GlobalHandler

def bytes (handler : GlobalHandler) : Bytes :=
  ByteMem.leBytes 8 handler.added ++ (ByteMem.leBytes 8 handler.removed ++ ByteMem.leBytes 8 handler.data)

/-- The handler in an object of the table. -/
def ofBytes (obj : Bytes) : GlobalHandler where
  added := ByteMem.ofLeBytes (obj.take 8)
  removed := ByteMem.ofLeBytes ((obj.drop 8).take 8)
  data := ByteMem.ofLeBytes (obj.drop 16)

/-- `sizeof(FcitxWaylandGlobalHandler)` -/
def size : ℕ := 24

/-- All three are pointers. -/
def Fits (handler : GlobalHandler) : Prop :=
  handler.added < 2 ^ 64 ∧ handler.removed < 2 ^ 64 ∧ handler.data < 2 ^ 64

instance (handler : GlobalHandler) : Decidable handler.Fits := inferInstanceAs (Decidable (_ ∧ _))

@[simp] theorem length_bytes (handler : GlobalHandler) : handler.bytes.length = size := by
  simp [bytes, size]

theorem ofBytes_bytes {handler : GlobalHandler} (h : handler.Fits) : ofBytes handler.bytes = handler := by
  obtain ⟨hadded, hremoved, hdata⟩ := h
  have htake : handler.bytes.take 8 = ByteMem.leBytes 8 handler.added :=
    List.take_left' (ByteMem.length_leBytes 8 _)
  have hdrop : handler.bytes.drop 8 = ByteMem.leBytes 8 handler.removed ++ ByteMem.leBytes 8 handler.data :=
    List.drop_left' (ByteMem.length_leBytes 8 _)
  have hlast : handler.bytes.drop 16 = ByteMem.leBytes 8 handler.data := by
    rw [show (16 : ℕ) = 8 + 8 from rfl, ← List.drop_drop, hdrop]
    exact List.drop_left' (ByteMem.length_leBytes 8 _)
  have hmid : (handler.bytes.drop 8).take 8 = ByteMem.leBytes 8 handler.removed := by
    rw [hdrop]
    exact List.take_left' (ByteMem.length_leBytes 8 _)
  simp only [ofBytes, htake, hmid, hlast, ByteMem.ofLeBytes_leBytes]
  rw [Nat.mod_eq_of_lt (by simpa using hadded), Nat.mod_eq_of_lt (by simpa using hremoved),
    Nat.mod_eq_of_lt (by simpa using hdata)]

end GlobalHandler

/-- `FcitxWaylandObject` -/
structure WaylandObject where
  key : KeyPtr
  name : UInt32
  version : UInt32
deriving DecidableEq

/-- A call of a function of a handler. -/
structure GlobalCall where
  func : ℕ
  data : ℕ
  name : UInt32
  iface : Bytes
  version : UInt32
deriving DecidableEq

/-- The registry in `FcitxWayland`, with the data of the keys and the calls so far, each with the id of its handler.
The hash table and the lists of the keys are in the order in which they are gone through. -/
structure Wayland where
  globalHandlers : HandlerTable
  generalHandlers : Option KeyPtr
  wlObjs : List WaylandObject
  objList : KeyPtr → List WaylandObject
  calls : List (ℤ × GlobalCall)

namespace Wayland

/-- `FxWaylandGlobalInit` -/
def new (array : ByteMem) : Wayland where
  globalHandlers := .new array GlobalHandler.size true true true
  generalHandlers := none
  wlObjs := []
  objList := fun _ => []
  calls := []

/-- `fcitx_handler_table_find_strkey` with `create`; `FxWaylandIfaceDataInit` makes the list of a new key empty. -/
def findStrkey (wl : Wayland) (iface : Bytes) (malloc : KeyPtr) : KeyPtr × Wayland :=
  let (key, table) := wl.globalHandlers.findKey iface true malloc
  let key := key.getD malloc
  (key, { wl with
    globalHandlers := table
    objList := if (wl.globalHandlers.keys.lookup iface).isNone then Function.update wl.objList key []
      else wl.objList })

/-- `FxWaylandGetGeneralHandlers` -/
def getGeneralHandlers (wl : Wayland) (malloc : KeyPtr) : KeyPtr × Wayland :=
  match wl.generalHandlers with
  | some key => (key, wl)
  | none =>
    let (key, wl) := wl.findStrkey [] malloc
    (key, { wl with generalHandlers := some key })

/-- `FxWaylandAddGlobal` -/
def addGlobal (wl : Wayland) (name : UInt32) (iface : Bytes) (ver : UInt32) (malloc : KeyPtr) :
    WaylandObject × Wayland :=
  let (key, wl) := wl.findStrkey iface malloc
  let wlObj : WaylandObject := ⟨key, name, ver⟩
  (wlObj, { wl with
    wlObjs := wl.wlObjs ++ [wlObj]
    objList := Function.update wl.objList key (wlObj :: wl.objList key) })

/-- `FxWaylandRemoveGlobal` -/
def removeGlobal (wl : Wayland) (wlObj : WaylandObject) : Wayland :=
  { wl with
    wlObjs := wl.wlObjs.erase wlObj
    objList := Function.update wl.objList wlObj.key ((wl.objList wlObj.key).erase wlObj) }

/-- The loop over the handlers of a key, for `fuel` handlers at most; `func` is the function that is called. -/
def runLoop (table : HandlerTable) (func : GlobalHandler → ℕ) (wlObj : WaylandObject) (iface : Bytes) :
    ℕ → ℤ → List (ℤ × GlobalCall)
  | 0, _ => []
  | fuel + 1, id =>
    match table.getById id with
    | none => []
    | some obj =>
      let handler := GlobalHandler.ofBytes obj
      let nextId := table.next id
      if func handler ≠ 0 then
        (id, ⟨func handler, handler.data, wlObj.name, iface, wlObj.version⟩) ::
          runLoop table func wlObj iface fuel nextId
      else runLoop table func wlObj iface fuel nextId

/-- `FxWaylandRunGlobalAdded` and `FxWaylandRunGlobalRemoved`: the interface is the name of the key. -/
def runGlobal (func : GlobalHandler → ℕ) (wl : Wayland) (key : KeyPtr) (wlObj : WaylandObject) : Wayland :=
  let table := wl.globalHandlers
  let id := (table.keyAt key).first
  if id = invalidId then wl
  else
    let iface := (table.keyAt key).key
    { wl with calls := wl.calls ++ runLoop table func wlObj iface (table.objs.capacity + 1) id }

/-- `FxWaylandRunGlobalAdded` -/
def runGlobalAdded : Wayland → KeyPtr → WaylandObject → Wayland := runGlobal GlobalHandler.added

/-- `FxWaylandRunGlobalRemoved` -/
def runGlobalRemoved : Wayland → KeyPtr → WaylandObject → Wayland := runGlobal GlobalHandler.removed

/-- `FxWaylandGlobalAdded`; the two pointers are for new keys. -/
def globalAdded (wl : Wayland) (name : UInt32) (iface : Bytes) (ver : UInt32) (malloc malloc' : KeyPtr) : Wayland :=
  let (wlObj, wl) := wl.addGlobal name iface ver malloc
  let wl := wl.runGlobalAdded wlObj.key wlObj
  let (key, wl) := wl.getGeneralHandlers malloc'
  wl.runGlobalAdded key wlObj

/-- `FxWaylandGlobalRemoved`; a name that is not there is read through NULL. -/
def globalRemoved (wl : Wayland) (name : UInt32) (malloc : KeyPtr) : Option Wayland :=
  (wl.wlObjs.find? (·.name == name)).map fun wlObj =>
    let wl := wl.removeGlobal wlObj
    let wl := wl.runGlobalRemoved wlObj.key wlObj
    let (key, wl) := wl.getGeneralHandlers malloc
    wl.runGlobalRemoved key wlObj

/-- `FxWaylandRegGlobalHandler` and the id of the new handler; NULL for the interface is the empty name. -/
def regGlobalHandler (wl : Wayland) (iface : Bytes) (handler : GlobalHandler) (runExists : Bool) (malloc : KeyPtr) :
    ℤ × Wayland :=
  let (key, wl) := if iface = [] then wl.getGeneralHandlers malloc else wl.findStrkey iface malloc
  let (res, table) := wl.globalHandlers.keyPrepend key handler.bytes
  let wl := { wl with globalHandlers := table }
  if runExists ∧ handler.added ≠ 0 then
    let objs := if iface ≠ [] then wl.objList key else wl.wlObjs
    (res, { wl with
      calls := wl.calls ++ objs.map fun pos =>
        (res, ⟨handler.added, handler.data, pos.name, iface, pos.version⟩) })
  else (res, wl)

/-- What `FxWaylandRegGlobalHandler` returns: the id, as a `bool`. -/
def regResult (id : ℤ) : Bool := id ≠ 0

/-- `FxWaylandRemoveGlobalHandler` -/
def removeGlobalHandler (wl : Wayland) (id : ℤ) : Wayland :=
  if id < 0 then wl else { wl with globalHandlers := wl.globalHandlers.removeById id }

end Wayland

/-! ### The keys of the table -/

namespace HandlerTable

variable {table : HandlerTable} {key k : Bytes} {p malloc : KeyPtr}

theorem keys_addKey (table : HandlerTable) (key : Bytes) (malloc : KeyPtr) :
    ((table.addKey key malloc).call table.keyInit (.initKey key)).keys = table.keys ++ [(key, malloc)] := by
  rw [call_eq]
  rfl

theorem lookup_findKey (h : table.keys.lookup k = some p) (key : Bytes) (malloc : KeyPtr) :
    (table.findKey key true malloc).2.keys.lookup k = some p := by
  rw [findKey]
  cases hkey : table.keys.lookup key with
  | some q => exact h
  | none =>
    have hkeys := keys_addKey table key malloc
    have hne : k ≠ key := by
      rintro rfl
      exact Option.some_ne_none p (h.symm.trans hkey)
    show ((table.addKey key malloc).call table.keyInit (.initKey key)).keys.lookup k = some p
    rw [hkeys, Assoc.lookup_concat hkey, if_neg hne, h]

/-- A key is an old one or the new one. -/
theorem lookup_of_findKey (h : (table.findKey key true malloc).2.keys.lookup k = some p) :
    table.keys.lookup k = some p ∨ k = key ∧ table.keys.lookup key = none ∧ p = malloc := by
  rw [findKey] at h
  cases hkey : table.keys.lookup key with
  | some q =>
    rw [hkey] at h
    exact Or.inl h
  | none =>
    have hkeys := keys_addKey table key malloc
    rw [hkey] at h
    simp only [if_true, hkeys, Assoc.lookup_concat hkey] at h
    by_cases hk : k = key
    · rw [if_pos hk] at h
      exact Or.inr ⟨hk, rfl, (Option.some.inj h).symm⟩
    · rw [if_neg hk] at h
      exact Or.inl h

theorem keys_linkFirst (table : HandlerTable) (p : KeyPtr) (newId : ℤ) :
    (table.linkFirst p newId).keys = table.keys := by
  rw [linkFirst]
  split
  · rfl
  · rfl

theorem keys_keyPrepend (table : HandlerTable) (p : KeyPtr) (obj : Bytes) :
    (table.keyPrepend p obj).2.keys = table.keys := by
  rw [keyPrepend]
  exact keys_linkFirst _ p _

/-- Taking out an object leaves the keys. -/
theorem Inv.keys_removeById (h : table.Inv) {id : ℤ} (hid : id ∈ table.live) :
    (table.removeById id).keys = table.keys := by
  obtain ⟨L, free, h⟩ := h
  obtain ⟨key, p, i, xs, ys, rfl, hkey, hL⟩ := h.exists_of_id hid
  obtain ⟨-, hsame, -⟩ := removeById_spec h (h.mem_of_lookup hkey).2 hL
  exact hsame.keys

theorem Inv.name (h : table.Inv) (hkey : table.keys.lookup k = some p) : (table.keyAt p).key = k := by
  obtain ⟨L, free, h⟩ := h
  exact h.name (k, p) (h.mem_of_lookup hkey).1

/-- Each key has its own pointer. -/
theorem Inv.key_inj (h : table.Inv) (hkey : table.keys.lookup k = some p) (hkey' : table.keys.lookup key = some p) :
    k = key := (h.name hkey).symm.trans (h.name hkey')

theorem Inv.mem_ptrs (h : table.Inv) (hkey : table.keys.lookup k = some p) : p ∈ table.ptrs := by
  obtain ⟨L, free, h⟩ := h
  exact (h.mem_of_lookup hkey).2

end HandlerTable

namespace Wayland

open HandlerTable

variable {wl wl' : Wayland} {iface k : Bytes} {key malloc malloc' : KeyPtr} {handler : GlobalHandler}
  {func : GlobalHandler → ℕ} {name ver : UInt32} {wlObj : WaylandObject}

/-! ### What the registry knows -/

/-- A global, as the compositor announced it. -/
structure Global where
  name : UInt32
  iface : Bytes
  version : UInt32
deriving DecidableEq

/-- The interface of an object is the name of its key. -/
def globalOf (wl : Wayland) (wlObj : WaylandObject) : Global :=
  ⟨wlObj.name, (wl.globalHandlers.keyAt wlObj.key).key, wlObj.version⟩

/-- The globals that are there, in the order they were announced. -/
def globals (wl : Wayland) : List Global := wl.wlObjs.map wl.globalOf

/-- The handlers under a name, in the order they are called. -/
def handlers (wl : Wayland) (iface : Bytes) : List (ℤ × GlobalHandler) :=
  (MultiMap.find wl.globalHandlers.toMap iface).map fun e => (e.1, .ofBytes e.2)

/-- The call of a handler, if it has the function. -/
def notify (func : GlobalHandler → ℕ) (name : UInt32) (iface : Bytes) (ver : UInt32) (e : ℤ × GlobalHandler) :
    Option (ℤ × GlobalCall) :=
  if func e.2 ≠ 0 then some (e.1, ⟨func e.2, e.2.data, name, iface, ver⟩) else none

structure Inv (wl : Wayland) : Prop where
  table : wl.globalHandlers.Inv
  size : wl.globalHandlers.objSize = GlobalHandler.size
  general : ∀ key ∈ wl.generalHandlers, wl.globalHandlers.keys.lookup [] = some key
  keys : ∀ obj ∈ wl.wlObjs, ∃ iface, iface ≠ [] ∧ wl.globalHandlers.keys.lookup iface = some obj.key
  list : ∀ iface key, wl.globalHandlers.keys.lookup iface = some key → iface ≠ [] →
    wl.objList key = (wl.wlObjs.filter (·.key = key)).reverse
  names : (wl.wlObjs.map WaylandObject.name).Nodup

/-- Handlers may come and go as long as the keys stay. -/
theorem Inv.of_table (I : Inv wl) {table : HandlerTable} (hinv : table.Inv)
    (hsize : table.objSize = GlobalHandler.size) (hkeys : table.keys = wl.globalHandlers.keys) :
    Inv { wl with globalHandlers := table } where
  table := hinv
  size := hsize
  general key hk := by
    show table.keys.lookup [] = some key
    rw [hkeys]
    exact I.general key hk
  keys obj hobj := by
    obtain ⟨k, hne, hk⟩ := I.keys obj hobj
    refine ⟨k, hne, ?_⟩
    show table.keys.lookup k = some obj.key
    rw [hkeys]
    exact hk
  list k p hk hne := by
    refine I.list k p ?_ hne
    rw [← hkeys]
    exact hk
  names := I.names

theorem new_inv (array : ByteMem) : Inv (new array) where
  table := ⟨_, _, HandlerTable.new_inv array GlobalHandler.size true true true (by decide)⟩
  size := rfl
  general key h := absurd h (Option.not_mem_none key)
  keys _ h := absurd h List.not_mem_nil
  list _ _ h := absurd h.symm (Option.some_ne_none _)
  names := List.nodup_nil

/-! ### Calling the handlers -/

theorem runLoop_eq (table : HandlerTable) (func : GlobalHandler → ℕ) (wlObj : WaylandObject) (iface : Bytes)
    (fuel : ℕ) (id : ℤ) :
    runLoop table func wlObj iface fuel id = ((IdList.walk table.next fuel id).map table.entry).filterMap fun e =>
      notify func wlObj.name iface wlObj.version (e.1, .ofBytes e.2) := by
  induction fuel generalizing id with
  | zero => rfl
  | succ fuel ih =>
    rw [runLoop, IdList.walk, getById]
    by_cases hid : id = invalidId
    · rw [if_pos hid, if_pos (show id = -1 from hid)]
      rfl
    · rw [if_neg hid, if_neg (show ¬ id = -1 from hid), List.map_cons, List.filterMap_cons]
      simp only [entry, notify]
      rw [ih]
      by_cases hfunc : func (.ofBytes (table.obj id)) = 0
      · simp only [hfunc, ne_eq, not_true_eq_false, if_false]
        rfl
      · simp only [hfunc, ne_eq, not_false_eq_true, if_true]
        rfl

/-- **Going through a key** calls its handlers in their order. -/
theorem runGlobal_eq (I : Inv wl) (hkey : wl.globalHandlers.keys.lookup iface = some key) (func : GlobalHandler → ℕ)
    (wlObj : WaylandObject) :
    runGlobal func wl key wlObj =
      { wl with calls := wl.calls ++ (wl.handlers iface).filterMap (notify func wlObj.name iface wlObj.version) } := by
  have hforward := I.table.forward_eq iface
  rw [HandlerTable.forward, firstId, hkey] at hforward
  have hcalls : (wl.handlers iface).filterMap (notify func wlObj.name iface wlObj.version) =
      runLoop wl.globalHandlers func wlObj iface (wl.globalHandlers.objs.capacity + 1)
        (wl.globalHandlers.keyAt key).first := by
    rw [runLoop_eq, hforward, handlers, List.filterMap_map]
    rfl
  rw [hcalls, runGlobal]
  dsimp only
  split
  · next hid =>
    rw [hid, runLoop, getById, if_pos rfl]
    show wl = { wl with calls := wl.calls ++ [] }
    rw [List.append_nil]
  · rw [I.table.name hkey]

/-! ### Keys that are made -/

/-- What a new key changes: the old keys, handlers and globals stay. -/
structure Grows (malloc : KeyPtr) (wl wl' : Wayland) : Prop where
  lookup : ∀ k p, wl.globalHandlers.keys.lookup k = some p → wl'.globalHandlers.keys.lookup k = some p
  handlers : ∀ k, wl'.handlers k = wl.handlers k
  live : wl'.globalHandlers.live = wl.globalHandlers.live
  wlObjs : wl'.wlObjs = wl.wlObjs
  calls : wl'.calls = wl.calls
  ptrs : ∀ p ∈ wl'.globalHandlers.ptrs, p = malloc ∨ p ∈ wl.globalHandlers.ptrs

theorem Grows.refl (malloc : KeyPtr) (wl : Wayland) : Grows malloc wl wl :=
  ⟨fun _ _ h => h, fun _ => rfl, rfl, rfl, rfl, fun _ => Or.inr⟩

/-- The globals are as they were where the objects and the names of their keys are. -/
theorem globals_congr (I : Inv wl) (I' : Inv wl') (hobjs : wl'.wlObjs = wl.wlObjs)
    (hlookup : ∀ k p, wl.globalHandlers.keys.lookup k = some p → wl'.globalHandlers.keys.lookup k = some p) :
    wl'.globals = wl.globals := by
  rw [globals, globals, hobjs]
  refine List.map_congr_left fun obj hobj => ?_
  obtain ⟨iface, -, hkey⟩ := I.keys obj hobj
  rw [globalOf, globalOf, I.table.name hkey, I'.table.name (hlookup iface obj.key hkey)]

theorem touch_live (m : HandlerMap) (k : Bytes) : MultiMap.ids (MultiMap.touch m k) = MultiMap.ids m := by
  rw [MultiMap.touch]
  split
  · rw [MultiMap.ids, List.flatMap_append]
    exact List.append_nil _
  · rfl

/-- **Finding a key** gives the pointer of its name. -/
theorem findStrkey_spec (I : Inv wl) (iface : Bytes) (hptr : malloc ∉ wl.globalHandlers.ptrs) (hlt : malloc < 2 ^ 64) :
    Inv (wl.findStrkey iface malloc).2 ∧ Grows malloc wl (wl.findStrkey iface malloc).2 ∧
      (wl.findStrkey iface malloc).2.globalHandlers = (wl.globalHandlers.findKey iface true malloc).2 ∧
      (wl.globalHandlers.findKey iface true malloc).1 = some (wl.findStrkey iface malloc).1 ∧
      (wl.findStrkey iface malloc).2.globalHandlers.keys.lookup iface = some (wl.findStrkey iface malloc).1 ∧
      (wl.findStrkey iface malloc).2.generalHandlers = wl.generalHandlers := by
  obtain ⟨L, free, h⟩ := I.table
  obtain ⟨p, L', hp, h', hkey, hmap, -, -, hsize⟩ := findKey_spec h iface hptr hlt
  have hfst : (wl.findStrkey iface malloc).1 = p := by
    rw [findStrkey]
    exact congrArg (·.getD malloc) hp
  have hold : ∀ k q, wl.globalHandlers.keys.lookup k = some q →
      (wl.findStrkey iface malloc).2.globalHandlers.keys.lookup k = some q := fun k q hk =>
    lookup_findKey hk iface malloc
  have htable : (wl.findStrkey iface malloc).2.globalHandlers = (wl.globalHandlers.findKey iface true malloc).2 := rfl
  refine ⟨⟨⟨L', free, h'⟩, hsize.trans I.size, fun key hk => hold _ _ (I.general key hk), fun obj hobj => ?_,
    fun k q hk hne => ?_, I.names⟩, ⟨hold, fun k => ?_, ?_, rfl, rfl, fun q hq => ?_⟩, rfl, ?_, ?_, rfl⟩
  · obtain ⟨k, hk, hkobj⟩ := I.keys obj hobj
    exact ⟨k, hk, hold _ _ hkobj⟩
  · -- a new key has no globals: its pointer is new
    show (if (wl.globalHandlers.keys.lookup iface).isNone then
      Function.update wl.objList ((wl.globalHandlers.findKey iface true malloc).1.getD malloc) []
      else wl.objList) q = _
    rw [hp, Option.getD_some]
    obtain hk | ⟨rfl, hnone, rfl⟩ := lookup_of_findKey hk
    · have hne : (wl.globalHandlers.keys.lookup iface).isNone → q ≠ p := by
        rintro hnone rfl
        have hk' : k = iface := HandlerTable.Inv.key_inj ⟨L', free, h'⟩ (hold k q hk) hkey
        rw [← hk', hk] at hnone
        exact absurd hnone Bool.false_ne_true
      split
      · next hnone =>
        rw [Function.update_of_ne (hne hnone)]
        exact I.list k q hk ‹_›
      · exact I.list k q hk ‹_›
    · have hq : p = q := by
        rw [HandlerTable.findKey, hnone] at hp
        exact (Option.some.inj hp).symm
      have hno : wl.wlObjs.filter (·.key = q) = [] := by
        rw [List.filter_eq_nil_iff]
        intro obj hobj
        obtain ⟨k', -, hk'⟩ := I.keys obj hobj
        have hmem := I.table.mem_ptrs hk'
        exact fun heq => hptr (of_decide_eq_true heq ▸ hmem)
      rw [if_pos (by rw [hnone]; rfl), hq, Function.update_self]
      show [] = (wl.wlObjs.filter (·.key = q)).reverse
      rw [hno, List.reverse_nil]
  · rw [Wayland.handlers, Wayland.handlers, htable, hmap, MultiMap.find_touch]
  · rw [live, live, htable, hmap, touch_live]
  · obtain ⟨e, he, rfl⟩ := List.mem_map.mp hq
    have hk := (Assoc.lookup_eq_some_iff h'.keys_nodup).mpr he
    obtain hk | ⟨-, -, hm⟩ := lookup_of_findKey hk
    · exact Or.inr (h.mem_of_lookup hk).2
    · exact Or.inl hm
  · rw [hfst, hp]
  · rw [hfst]
    exact hkey

theorem getGeneralHandlers_spec (I : Inv wl) (hptr : malloc ∉ wl.globalHandlers.ptrs) (hlt : malloc < 2 ^ 64) :
    Inv (wl.getGeneralHandlers malloc).2 ∧ Grows malloc wl (wl.getGeneralHandlers malloc).2 ∧
      (wl.getGeneralHandlers malloc).2.globalHandlers = (wl.globalHandlers.findKey [] true malloc).2 ∧
      (wl.globalHandlers.findKey [] true malloc).1 = some (wl.getGeneralHandlers malloc).1 ∧
      (wl.getGeneralHandlers malloc).2.globalHandlers.keys.lookup [] = some (wl.getGeneralHandlers malloc).1 := by
  rw [getGeneralHandlers]
  cases hgen : wl.generalHandlers with
  | some key =>
    have hkey := I.general key hgen
    have hfind : wl.globalHandlers.findKey [] true malloc = (some key, wl.globalHandlers) := by
      rw [HandlerTable.findKey, hkey]
    rw [hfind]
    exact ⟨I, Grows.refl malloc wl, rfl, rfl, hkey⟩
  | none =>
    obtain ⟨I', G, htable, hfst, hkey, -⟩ := findStrkey_spec I [] hptr hlt
    refine ⟨⟨I'.table, I'.size, fun key hk => ?_, I'.keys, I'.list, I'.names⟩,
      ⟨G.lookup, G.handlers, G.live, G.wlObjs, G.calls, G.ptrs⟩, htable, hfst, hkey⟩
    obtain rfl := Option.mem_some.mp hk
    exact hkey

/-! ### The events of the compositor -/

/-- What an event changes: the globals, and the calls that are made. -/
structure Event (wl wl' : Wayland) (gs : List Global) (cs : List (ℤ × GlobalCall)) : Prop where
  inv : Inv wl'
  handlers : ∀ k, wl'.handlers k = wl.handlers k
  globals : wl'.globals = gs
  calls : wl'.calls = wl.calls ++ cs

/-- The calls are not part of the invariant. -/
theorem Inv.of_calls (I : Inv wl) (calls : List (ℤ × GlobalCall)) : Inv { wl with calls := calls } :=
  ⟨I.table, I.size, I.general, I.keys, I.list, I.names⟩

/-- **Telling the handlers** of the interface, and then the general ones under the empty name. -/
theorem tell_spec (I : Inv wl) (wlObj : WaylandObject) (hkey : wl.globalHandlers.keys.lookup iface = some wlObj.key)
    (hptr : malloc ∉ wl.globalHandlers.ptrs) (hlt : malloc < 2 ^ 64) (func : GlobalHandler → ℕ) :
    Event wl
      (runGlobal func ((runGlobal func wl wlObj.key wlObj).getGeneralHandlers malloc).2
        ((runGlobal func wl wlObj.key wlObj).getGeneralHandlers malloc).1 wlObj)
      wl.globals
      ((wl.handlers iface).filterMap (notify func wlObj.name iface wlObj.version) ++
        (wl.handlers []).filterMap (notify func wlObj.name [] wlObj.version)) := by
  rw [runGlobal_eq I hkey]
  set calls := wl.calls ++ (wl.handlers iface).filterMap (notify func wlObj.name iface wlObj.version) with hcalls
  have I₁ : Inv { wl with calls := calls } := I.of_calls calls
  obtain ⟨I₂, G, -, -, hgen⟩ := getGeneralHandlers_spec I₁ hptr hlt
  rw [runGlobal_eq I₂ hgen]
  refine ⟨I₂.of_calls _, G.handlers, globals_congr I (I₂.of_calls _) G.wlObjs G.lookup, ?_⟩
  show (getGeneralHandlers { wl with calls := calls } malloc).2.calls ++ _ = _
  rw [G.calls, G.handlers, hcalls, List.append_assoc]
  rfl

/-- **A global that is announced.** -/
theorem globalAdded_spec (I : Inv wl) (ver : UInt32) (hiface : iface ≠ []) (hname : name ∉ wl.globals.map Global.name)
    (hptr : malloc ∉ wl.globalHandlers.ptrs) (hlt : malloc < 2 ^ 64) (hptr' : malloc' ∉ wl.globalHandlers.ptrs)
    (hlt' : malloc' < 2 ^ 64) (hne : malloc' ≠ malloc) :
    Event wl (wl.globalAdded name iface ver malloc malloc') (wl.globals ++ [⟨name, iface, ver⟩])
      ((wl.handlers iface).filterMap (notify GlobalHandler.added name iface ver) ++
        (wl.handlers []).filterMap (notify GlobalHandler.added name [] ver)) := by
  obtain ⟨I₁, G, -, -, hkey, -⟩ := findStrkey_spec I iface hptr hlt
  set wl₁ := (wl.findStrkey iface malloc).2 with hwl₁
  set wlObj : WaylandObject := ⟨(wl.findStrkey iface malloc).1, name, ver⟩ with hwlObj
  set wl₂ : Wayland := { wl₁ with
    wlObjs := wl₁.wlObjs ++ [wlObj]
    objList := Function.update wl₁.objList wlObj.key (wlObj :: wl₁.objList wlObj.key) } with hwl₂
  have hnames : wl₁.wlObjs.map WaylandObject.name = wl.globals.map Global.name := by
    rw [G.wlObjs, globals, List.map_map]
    rfl
  have I₂ : Inv wl₂ := by
    refine ⟨I₁.table, I₁.size, I₁.general, fun obj hobj => ?_, fun k p hk hne => ?_, ?_⟩
    · rcases List.mem_append.mp hobj with hobj | hobj
      · exact I₁.keys obj hobj
      · rw [List.mem_singleton] at hobj
        exact ⟨iface, hiface, hobj ▸ hkey⟩
    · show Function.update wl₁.objList wlObj.key (wlObj :: wl₁.objList wlObj.key) p = _
      have hlist := I₁.list k p hk hne
      rw [List.filter_append, List.reverse_append]
      by_cases hp : p = wlObj.key
      · subst hp
        rw [Function.update_self, hlist, List.filter_singleton]
        simp
      · have hno : [wlObj].filter (·.key = p) = [] := by
          rw [List.filter_singleton]
          simp [Ne.symm hp]
        rw [Function.update_of_ne hp, hno, hlist]
        rfl
    · show ((wl₁.wlObjs ++ [wlObj]).map WaylandObject.name).Nodup
      rw [List.map_append, List.map_singleton, ← List.concat_eq_append]
      exact List.Nodup.concat (hnames ▸ hname) I₁.names
  have hglobals : wl₂.globals = wl.globals ++ [⟨name, iface, ver⟩] := by
    rw [← globals_congr I I₁ G.wlObjs G.lookup]
    show (wl₁.wlObjs ++ [wlObj]).map wl₁.globalOf = _
    rw [List.map_append, List.map_singleton, globalOf, I₁.table.name hkey]
    rfl
  have hptr₂ : malloc' ∉ wl₂.globalHandlers.ptrs := fun hmem => (G.ptrs malloc' hmem).elim hne hptr'
  have E := tell_spec I₂ wlObj hkey hptr₂ hlt' GlobalHandler.added
  have hhandlers : ∀ k, wl₂.handlers k = wl.handlers k := G.handlers
  refine ⟨E.inv, fun k => (E.handlers k).trans (hhandlers k), E.globals.trans hglobals, ?_⟩
  have hcalls := E.calls
  rw [hhandlers, hhandlers] at hcalls
  exact hcalls.trans (congrArg (· ++ _) G.calls)

/-- Taking out an element of a list in which no other has the same image. -/
theorem map_erase_of_inj {A B : Type} [BEq A] [LawfulBEq A] [BEq B] [LawfulBEq B] {f : A → B} {b : A} {l : List A}
    (h : ∀ a ∈ l, f a = f b → a = b) : (l.erase b).map f = (l.map f).erase (f b) := by
  induction l with
  | nil => rfl
  | cons a l ih =>
    rw [List.map_cons, List.erase_cons, List.erase_cons]
    by_cases hab : a = b
    · rw [if_pos (by simpa using hab), if_pos (by simp [hab])]
    · have hf : f a ≠ f b := fun he => hab (h a (by simp) he)
      rw [if_neg (by simpa using hab), if_neg (by simpa using hf), List.map_cons,
        ih fun a' ha' => h a' (List.mem_cons_of_mem a ha')]

theorem find?_name (I : Inv wl) {g : Global} (hg : g ∈ wl.globals) :
    ∃ obj ∈ wl.wlObjs, wl.wlObjs.find? (·.name == g.name) = some obj ∧ wl.globalOf obj = g := by
  obtain ⟨obj, hobj, rfl⟩ := List.mem_map.mp hg
  refine ⟨obj, hobj, ?_, rfl⟩
  cases hfind : wl.wlObjs.find? (·.name == (wl.globalOf obj).name) with
  | none =>
    rw [List.find?_eq_none] at hfind
    exact absurd (beq_self_eq_true _) (hfind obj hobj)
  | some obj' =>
    have hbeq := List.find?_some hfind
    have hname : obj'.name = obj.name := eq_of_beq hbeq
    rw [List.inj_on_of_nodup_map I.names (List.mem_of_find?_eq_some hfind) hobj hname]

/-- **A global that is taken back.** -/
theorem globalRemoved_spec (I : Inv wl) {g : Global} (hg : g ∈ wl.globals) (hptr : malloc ∉ wl.globalHandlers.ptrs)
    (hlt : malloc < 2 ^ 64) :
    ∃ wl', wl.globalRemoved g.name malloc = some wl' ∧ Event wl wl' (wl.globals.erase g)
      ((wl.handlers g.iface).filterMap (notify GlobalHandler.removed g.name g.iface g.version) ++
        (wl.handlers []).filterMap (notify GlobalHandler.removed g.name [] g.version)) := by
  obtain ⟨wlObj, hobj, hfind, rfl⟩ := find?_name I hg
  obtain ⟨iface, hiface, hkey⟩ := I.keys wlObj hobj
  have hnd : wl.wlObjs.Nodup := I.names.of_map
  have I₁ : Inv (wl.removeGlobal wlObj) := by
    refine ⟨I.table, I.size, I.general, fun obj h => I.keys obj (List.mem_of_mem_erase h), fun k p hk hne => ?_, ?_⟩
    · show Function.update wl.objList wlObj.key ((wl.objList wlObj.key).erase wlObj) p =
        ((wl.wlObjs.erase wlObj).filter (·.key = p)).reverse
      have hfilter : (wl.wlObjs.erase wlObj).filter (·.key = p) = (wl.wlObjs.filter (·.key = p)).erase wlObj := by
        rw [hnd.erase_eq_filter, List.filter_comm, ← (hnd.filter _).erase_eq_filter]
      rw [hfilter]
      have hlist := I.list k p hk hne
      by_cases hp : p = wlObj.key
      · subst hp
        rw [Function.update_self, hlist, (List.nodup_reverse.mpr (hnd.filter _)).erase_eq_filter,
          (hnd.filter _).erase_eq_filter, List.filter_reverse]
      · have hout : wlObj ∉ wl.wlObjs.filter (·.key = p) := by
          simp [List.mem_filter, Ne.symm hp]
        rw [Function.update_of_ne hp, hlist, List.erase_of_not_mem hout]
    · exact I.names.sublist (List.erase_sublist.map _)
  have hglobals : (wl.removeGlobal wlObj).globals = wl.globals.erase (wl.globalOf wlObj) :=
    map_erase_of_inj fun obj h he => List.inj_on_of_nodup_map I.names h hobj (congrArg Global.name he)
  refine ⟨_, by rw [globalRemoved, hfind]; rfl, ?_⟩
  have hname : (wl.globalOf wlObj).iface = iface := I.table.name hkey
  have E := tell_spec I₁ wlObj hkey hptr hlt GlobalHandler.removed
  rw [hname]
  exact ⟨E.inv, E.handlers, E.globals.trans hglobals, E.calls⟩

/-! ### Handlers that come and go -/

/-- The globals a new handler is told of, in this order. -/
def existing (wl : Wayland) (iface : Bytes) : List Global :=
  if iface = [] then wl.globals else (wl.globals.filter (·.iface = iface)).reverse

theorem mem_live (I : Inv wl) {e : ℤ × GlobalHandler} (he : e ∈ wl.handlers k) : e.1 ∈ wl.globalHandlers.live := by
  obtain ⟨v, hv, rfl⟩ := List.mem_map.mp he
  have hids := I.table.ids_eq_find k
  exact I.table.mem_live_iff.mpr ⟨k, hids ▸ List.mem_map_of_mem hv⟩

/-- The list of a key has the globals of its interface. -/
theorem objList_globals (I : Inv wl) (hkey : wl.globalHandlers.keys.lookup iface = some key) (hne : iface ≠ []) :
    (wl.objList key).map wl.globalOf = (wl.globals.filter (·.iface = iface)).reverse := by
  rw [I.list iface key hkey hne, List.map_reverse, globals, List.filter_map]
  refine congrArg (fun l => (l.map wl.globalOf).reverse) (List.filter_congr fun obj hobj => ?_)
  obtain ⟨k, -, hk⟩ := I.keys obj hobj
  have hname : (wl.globalOf obj).iface = k := I.table.name hk
  rw [Function.comp_apply, hname, decide_eq_decide]
  constructor
  · intro he
    exact I.table.key_inj (he ▸ hk) hkey
  · rintro rfl
    exact Option.some.inj (hk.symm.trans hkey)

/-- **A new handler** is the first of its interface, and told of what is there if it asks for it. -/
theorem regGlobalHandler_spec (I : Inv wl) (hfits : handler.Fits) (hptr : malloc ∉ wl.globalHandlers.ptrs)
    (hlt : malloc < 2 ^ 64) (hroom : wl.globalHandlers.Room) (iface : Bytes) (runExists : Bool) :
    let r := wl.regGlobalHandler iface handler runExists malloc
    Inv r.2 ∧ (∀ k, r.1 ∉ (wl.handlers k).map Prod.fst) ∧
      (∀ k, r.2.handlers k = if k = iface then (r.1, handler) :: wl.handlers iface else wl.handlers k) ∧
      r.2.globals = wl.globals ∧
      r.2.calls = wl.calls ++ if runExists ∧ handler.added ≠ 0 then (wl.existing iface).map fun g =>
        (r.1, ⟨handler.added, handler.data, g.name, iface, g.version⟩) else [] := by
  intro r
  obtain ⟨wl₁, hwl₁, I₁, G, htable, hfst, hkey⟩ : ∃ q : KeyPtr × Wayland,
      (if iface = [] then wl.getGeneralHandlers malloc else wl.findStrkey iface malloc) = q ∧ Inv q.2 ∧
        Grows malloc wl q.2 ∧ q.2.globalHandlers = (wl.globalHandlers.findKey iface true malloc).2 ∧
        (wl.globalHandlers.findKey iface true malloc).1 = some q.1 ∧
        q.2.globalHandlers.keys.lookup iface = some q.1 := by
    by_cases hiface : iface = []
    · subst hiface
      obtain ⟨I', G, htable, hfst, hkey⟩ := getGeneralHandlers_spec I hptr hlt
      exact ⟨_, if_pos rfl, I', G, htable, hfst, hkey⟩
    · obtain ⟨I', G, htable, hfst, hkey, -⟩ := findStrkey_spec I iface hptr hlt
      exact ⟨_, if_neg hiface, I', G, htable, hfst, hkey⟩
  obtain ⟨key, wl₁⟩ := wl₁
  dsimp only at I₁ G htable hfst hkey
  have hprepend : wl₁.globalHandlers.keyPrepend key handler.bytes =
      wl.globalHandlers.prepend iface handler.bytes malloc := by
    rw [htable]
    show _ = HandlerTable.keyPrepend _ ((wl.globalHandlers.findKey iface true malloc).1.getD malloc) _
    rw [hfst]
    rfl
  have hkeys : (wl.globalHandlers.prepend iface handler.bytes malloc).2.keys = wl₁.globalHandlers.keys := by
    rw [← hprepend, keys_keyPrepend]
  have hok : wl.globalHandlers.Ok (.prepend iface handler.bytes malloc) :=
    ⟨(GlobalHandler.length_bytes handler).trans I.size.symm, hptr, hlt, hroom⟩
  have hsize := (prepend_same wl.globalHandlers iface handler.bytes malloc).objSize.trans I.size
  obtain ⟨L, free, h⟩ := I.table
  obtain ⟨hinv, hlaw⟩ := prepend_stepLaw h hok
  have hmap : (wl.globalHandlers.prepend iface handler.bytes malloc).2.toMap = MultiMap.prepend wl.globalHandlers.toMap
      iface ((wl.globalHandlers.prepend iface handler.bytes malloc).1, handler.bytes) := hlaw.map
  have hfresh : (wl.globalHandlers.prepend iface handler.bytes malloc).1 ∉ wl.globalHandlers.live :=
    (hlaw.fresh rfl).2
  set res := (wl.globalHandlers.prepend iface handler.bytes malloc).1 with hres
  set table := (wl.globalHandlers.prepend iface handler.bytes malloc).2 with htab
  have I₂ : Inv { wl₁ with globalHandlers := table } := I₁.of_table hinv hsize hkeys
  have hlookup : ∀ k p, wl.globalHandlers.keys.lookup k = some p → table.keys.lookup k = some p := by
    intro k p hk
    rw [hkeys]
    exact G.lookup k p hk
  have hglobals : ({ wl₁ with globalHandlers := table } : Wayland).globals = wl.globals :=
    globals_congr I I₂ G.wlObjs hlookup
  have hhandlers : ∀ k, ({ wl₁ with globalHandlers := table } : Wayland).handlers k =
      if k = iface then (res, handler) :: wl.handlers iface else wl.handlers k := by
    intro k
    rw [Wayland.handlers, hmap, MultiMap.find_prepend]
    split
    · rw [List.map_cons, GlobalHandler.ofBytes_bytes hfits]
      rfl
    · rfl
  have hr : r = if runExists ∧ handler.added ≠ 0 then
      (res, { wl₁ with
        globalHandlers := table
        calls := wl₁.calls ++ (if iface ≠ [] then wl₁.objList key else wl₁.wlObjs).map fun pos =>
          (res, ⟨handler.added, handler.data, pos.name, iface, pos.version⟩) })
      else (res, { wl₁ with globalHandlers := table }) := by
    show wl.regGlobalHandler iface handler runExists malloc = _
    rw [regGlobalHandler, hwl₁]
    dsimp only
    rw [hprepend]
  have hfresh' : ∀ k, res ∉ (wl.handlers k).map Prod.fst := by
    intro k hmem
    obtain ⟨e, he, heq⟩ := List.mem_map.mp hmem
    exact hfresh (heq ▸ mem_live I he)
  by_cases hrun : runExists ∧ handler.added ≠ 0
  · rw [if_pos hrun] at hr ⊢
    rw [hr]
    refine ⟨I₂.of_calls _, hfresh', hhandlers, hglobals, ?_⟩
    have hexisting : ((if iface ≠ [] then wl₁.objList key else wl₁.wlObjs).map wl₁.globalOf) = wl.existing iface := by
      have hsame : wl₁.globals = wl.globals := globals_congr I I₁ G.wlObjs G.lookup
      rw [existing, ← hsame]
      by_cases hiface : iface = []
      · rw [if_pos hiface, if_neg (not_not_intro hiface)]
        rfl
      · rw [if_neg hiface, if_pos hiface]
        exact objList_globals I₁ hkey hiface
    rw [← hexisting, List.map_map]
    exact congrArg (· ++ _) G.calls
  · rw [if_neg hrun] at hr ⊢
    rw [hr, List.append_nil]
    exact ⟨I₂, hfresh', hhandlers, hglobals, G.calls⟩

/-- **Removing a handler.** -/
theorem removeGlobalHandler_spec (I : Inv wl) {id : ℤ} (hid : id < 0 ∨ id ∈ wl.globalHandlers.live) :
    Inv (wl.removeGlobalHandler id) ∧
      (∀ k, (wl.removeGlobalHandler id).handlers k = (wl.handlers k).filter (·.1 ≠ id)) ∧
      (wl.removeGlobalHandler id).globals = wl.globals ∧ (wl.removeGlobalHandler id).calls = wl.calls := by
  rw [removeGlobalHandler]
  by_cases hneg : id < 0
  · rw [if_pos hneg]
    refine ⟨I, fun k => (List.filter_eq_self.mpr fun e he => ?_).symm, rfl, rfl⟩
    have hnonneg := I.table.nonneg (mem_live I he)
    exact decide_eq_true (by omega)
  · have hid := hid.resolve_left hneg
    rw [if_neg hneg]
    have hkeys := I.table.keys_removeById hid
    have hsize := (removeById_same wl.globalHandlers id).same.objSize.trans I.size
    obtain ⟨L, free, h⟩ := I.table
    obtain ⟨hinv, hlaw⟩ := removeById_stepLaw h (Or.inr hid)
    have hmap : (wl.globalHandlers.removeById id).toMap = MultiMap.removeId wl.globalHandlers.toMap id := hlaw.map
    have I' : Inv { wl with globalHandlers := wl.globalHandlers.removeById id } := I.of_table hinv hsize hkeys
    refine ⟨I', fun k => ?_, globals_congr I I' rfl fun k p hk => ?_, rfl⟩
    · rw [Wayland.handlers, hmap, MultiMap.find_removeId, Wayland.handlers, List.filter_map]
      rfl
    · show (wl.globalHandlers.removeById id).keys.lookup k = some p
      rw [hkeys]
      exact hk

end Wayland

end Fcitx
