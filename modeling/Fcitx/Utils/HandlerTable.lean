/-
# The handler table

`fcitx-utils/handler-table.c`: a hash of keys, each with the first and the last
id of its objects. The objects lie in an object pool, each behind the ids of its
neighbours and the pointer to its key. The hash is an insertion-ordered map from
the bytes of a key to the pointer of its structure; `malloc` is the pointer a
new structure gets.

Key definitions: `HandlerTable`, `HandlerTable.findKey`,
`HandlerTable.keyAppend`, `HandlerTable.keyPrepend`, `HandlerTable.removeById`,
`HandlerTable.freeKey`, `HandlerTable.removeByIdFull`, `HandlerTable.removeKey`.
-/
import Fcitx.Lib.Assoc
import Fcitx.Lib.IdList
import Fcitx.Utils.ObjPool
import Fcitx.Utils.Utf8

namespace Fcitx

/-- `FcitxHandlerKey`, with the bytes of its `hh.key`. -/
structure HandlerKey where
  first : ℤ
  last : ℤ
  key : Bytes
deriving DecidableEq

abbrev KeyPtr := ℕ

/-- `sizeof(FcitxHandlerObj)`: two `int`s and a pointer. -/
def sizeofHandlerObj : ℕ := 16

/-- A call of one of the functions the table was given. -/
inductive HandlerCall where
  /-- `key_vtable.init` -/
  | initKey (key : Bytes)
  /-- `free_func` on the object of an id -/
  | freeObj (id : ℤ) (obj : Bytes)
  /-- `key_vtable.free` -/
  | freeKey (key : Bytes)
deriving DecidableEq

/-- `FcitxHandlerTable`, with the memory of its keys and the calls it made. The
three flags say which functions it was given. -/
structure HandlerTable where
  objSize : ℕ
  freeFunc : Bool
  keyInit : Bool
  keyFree : Bool
  keys : List (Bytes × KeyPtr)
  keyAt : KeyPtr → HandlerKey
  objs : ObjPool
  calls : List HandlerCall

namespace HandlerTable

/-- `fcitx_handler_table_new_with_keydata`; `array` is the memory of the pool. -/
def new (array : ByteMem) (objSize : ℕ) (freeFunc keyInit keyFree : Bool) : HandlerTable :=
  { objSize, freeFunc, keyInit, keyFree, keys := [], keyAt := fun _ => ⟨invalidId, invalidId, []⟩,
    objs := ObjPool.new array (objSize + sizeofHandlerObj), calls := [] }

def call (table : HandlerTable) (given : Bool) (c : HandlerCall) : HandlerTable :=
  if given then { table with calls := table.calls ++ [c] } else table

theorem call_eq (table : HandlerTable) (given : Bool) (c : HandlerCall) : table.call given c =
    { table with calls := table.calls ++ if given then [c] else [] } := by
  rw [call]
  split
  · rfl
  · rw [List.append_nil]

/-! ### The fields of an object -/

/-- `fcitx_handler_table_get_obj`, as an offset in the array. -/
def getObj (table : HandlerTable) (id : ℤ) : ℕ := table.objs.get id

def prev (table : HandlerTable) (id : ℤ) : ℤ := table.objs.array.readInt (table.getObj id)

def next (table : HandlerTable) (id : ℤ) : ℤ := table.objs.array.readInt (table.getObj id + 4)

def key (table : HandlerTable) (id : ℤ) : KeyPtr := table.objs.array.readPtr (table.getObj id + 8)

/-- The bytes behind the `FcitxHandlerObj`. -/
def obj (table : HandlerTable) (id : ℤ) : Bytes :=
  table.objs.array.load (table.getObj id + sizeofHandlerObj) table.objSize

def setArray (table : HandlerTable) (array : ByteMem) : HandlerTable :=
  { table with objs := { table.objs with array := array } }

def setPrev (table : HandlerTable) (id z : ℤ) : HandlerTable :=
  table.setArray (table.objs.array.writeInt (table.getObj id) z)

def setNext (table : HandlerTable) (id z : ℤ) : HandlerTable :=
  table.setArray (table.objs.array.writeInt (table.getObj id + 4) z)

def setKey (table : HandlerTable) (id : ℤ) (p : KeyPtr) : HandlerTable :=
  table.setArray (table.objs.array.writePtr (table.getObj id + 8) p)

/-- `memcpy(obj_struct + 1, obj, table->obj_size)` -/
def setObj (table : HandlerTable) (id : ℤ) (obj : Bytes) : HandlerTable :=
  table.setArray (table.objs.array.store (table.getObj id + sizeofHandlerObj)
    (obj.take table.objSize))

def setFirst (table : HandlerTable) (p : KeyPtr) (id : ℤ) : HandlerTable :=
  { table with keyAt := Function.update table.keyAt p { table.keyAt p with first := id } }

def setLast (table : HandlerTable) (p : KeyPtr) (id : ℤ) : HandlerTable :=
  { table with keyAt := Function.update table.keyAt p { table.keyAt p with last := id } }

/-! ### Keys and objects -/

/-- The table with a new key structure. -/
def addKey (table : HandlerTable) (key : Bytes) (malloc : KeyPtr) : HandlerTable :=
  { table with
    keys := table.keys ++ [(key, malloc)]
    keyAt := Function.update table.keyAt malloc ⟨invalidId, invalidId, key⟩ }

/-- `fcitx_handler_table_find_key` -/
def findKey (table : HandlerTable) (key : Bytes) (create : Bool) (malloc : KeyPtr) :
    Option KeyPtr × HandlerTable :=
  match table.keys.lookup key with
  | some p => (some p, table)
  | none =>
    if create then (some malloc, (table.addKey key malloc).call table.keyInit (.initKey key))
    else (none, table)

/-- The end of `fcitx_handler_key_append`: the object of `newId` becomes the last of its key. -/
def linkLast (table : HandlerTable) (p : KeyPtr) (newId : ℤ) : HandlerTable :=
  let id := (table.keyAt p).last
  if id = invalidId then ((table.setFirst p newId).setLast p newId).setPrev newId invalidId
  else ((table.setLast p newId).setPrev newId id).setNext id newId

/-- The end of `fcitx_handler_key_prepend`: the object of `newId` becomes the first of its key. -/
def linkFirst (table : HandlerTable) (p : KeyPtr) (newId : ℤ) : HandlerTable :=
  let id := (table.keyAt p).first
  if id = invalidId then ((table.setFirst p newId).setLast p newId).setNext newId invalidId
  else ((table.setFirst p newId).setNext newId id).setPrev id newId

/-- `fcitx_handler_key_append` -/
def keyAppend (table : HandlerTable) (p : KeyPtr) (obj : Bytes) : ℤ × HandlerTable :=
  let newId := table.objs.allocId.1
  let table := { table with objs := table.objs.allocId.2 }
  (newId, (((table.setKey newId p).setNext newId invalidId).setObj newId obj).linkLast p newId)

/-- `fcitx_handler_key_prepend` -/
def keyPrepend (table : HandlerTable) (p : KeyPtr) (obj : Bytes) : ℤ × HandlerTable :=
  let newId := table.objs.allocId.1
  let table := { table with objs := table.objs.allocId.2 }
  (newId, (((table.setKey newId p).setPrev newId invalidId).setObj newId obj).linkFirst p newId)

/-- `fcitx_handler_table_append` -/
def append (table : HandlerTable) (key obj : Bytes) (malloc : KeyPtr) : ℤ × HandlerTable :=
  let (p, table) := table.findKey key true malloc
  table.keyAppend (p.getD malloc) obj

/-- `fcitx_handler_table_prepend` -/
def prepend (table : HandlerTable) (key obj : Bytes) (malloc : KeyPtr) : ℤ × HandlerTable :=
  let (p, table) := table.findKey key true malloc
  table.keyPrepend (p.getD malloc) obj

/-- `fcitx_handler_key_is_empty` -/
def keyIsEmpty (table : HandlerTable) (p : KeyPtr) : Bool :=
  (table.keyAt p).last = invalidId && (table.keyAt p).first = invalidId

/-- `fcitx_handler_table_get_by_id`; `none` is NULL. -/
def getById (table : HandlerTable) (id : ℤ) : Option Bytes :=
  if id = invalidId then none else some (table.obj id)

/-- `fcitx_handler_table_get_key_by_id` -/
def getKeyById (table : HandlerTable) (id : ℤ) : Option KeyPtr :=
  if id = invalidId then none else some (table.key id)

/-- `fcitx_handler_table_first_id` -/
def firstId (table : HandlerTable) (key : Bytes) : ℤ :=
  match table.keys.lookup key with
  | none => invalidId
  | some p => (table.keyAt p).first

/-- `fcitx_handler_table_last_id` -/
def lastId (table : HandlerTable) (key : Bytes) : ℤ :=
  match table.keys.lookup key with
  | none => invalidId
  | some p => (table.keyAt p).last

/-- Unlinking an object from its neighbours and its key. -/
def unlink (table : HandlerTable) (id : ℤ) : HandlerTable :=
  let prev := table.prev id
  let next := table.next id
  let table := if prev = invalidId then table.setFirst (table.key id) next else table.setNext prev next
  if next = invalidId then table.setLast (table.key id) prev else table.setPrev next prev

/-- Releasing an object: `free_func` and `fcitx_obj_pool_free_id`. -/
def release (table : HandlerTable) (id : ℤ) : HandlerTable :=
  let table := table.call table.freeFunc (.freeObj id (table.obj id))
  { table with objs := (table.objs.freeId id).2 }

/-- `fcitx_handler_table_remove_by_id` -/
def removeById (table : HandlerTable) (id : ℤ) : HandlerTable :=
  if id = invalidId then table else (table.unlink id).release id

/-- The loop of `fcitx_handler_table_free_key`, for `fuel` objects at most. -/
def freeObjs : ℕ → HandlerTable → ℤ → HandlerTable
  | 0, table, _ => table
  | fuel + 1, table, id =>
    if id = invalidId then table else freeObjs fuel (table.release id) (table.next id)

/-- `fcitx_handler_table_free_key`; a key has no more objects than the pool has slots. -/
def freeKey (table : HandlerTable) (p : KeyPtr) : HandlerTable :=
  let table := freeObjs (table.objs.capacity + 1) table (table.keyAt p).first
  let key := (table.keyAt p).key
  ({ table with keys := Assoc.erase table.keys key } : HandlerTable).call table.keyFree (.freeKey key)

/-- `fcitx_handler_table_remove_by_id_full`; without a key it reads through NULL. -/
def removeByIdFull (table : HandlerTable) (id : ℤ) : Option HandlerTable :=
  let key := table.getKeyById id
  let table := table.removeById id
  key.map fun p => if table.keyIsEmpty p then table.freeKey p else table

/-- `fcitx_handler_table_remove_key` -/
def removeKey (table : HandlerTable) (key : Bytes) : HandlerTable :=
  match table.keys.lookup key with
  | none => table
  | some p => table.freeKey p

/-! ### Going through a key -/

/-- An id with its object. -/
def entry (table : HandlerTable) (id : ℤ) : ℤ × Bytes := (id, table.obj id)

/-- `for (p = first; p; p = next(p))` over the objects of a key. -/
def forward (table : HandlerTable) (key : Bytes) : List (ℤ × Bytes) :=
  (IdList.walk table.next (table.objs.capacity + 1) (table.firstId key)).map table.entry

/-- `for (p = last; p; p = prev(p))` over the objects of a key. -/
def backward (table : HandlerTable) (key : Bytes) : List (ℤ × Bytes) :=
  (IdList.walk table.prev (table.objs.capacity + 1) (table.lastId key)).map table.entry

end HandlerTable

end Fcitx
