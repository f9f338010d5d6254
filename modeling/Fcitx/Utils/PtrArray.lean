/-
# Arrays of pointers

`fcitx-utils/array.c`: an array keeps its elements at the start of a block of
memory, which has room for `size` pointers and is made larger by doubling. The
elements behind a position are moved one by one when one is put in or taken out.

An operation gives `none` where it reads or writes outside the block, stores to
NULL, does not come to an end, or aborts because it gets no memory. A pointer is
a number, and NULL is `0`; what was stored through `steal` is part of the result.

Key definitions: `PtrArray`, `PtrArray.insert`, `PtrArray.remove`, `PtrArray.removeFast`,
`PtrArray.set`, `PtrArray.resize`, `ArrayOp.onList`, `PtrArray.Law`, `PtrArray.FastLaw`.
Key theorems: `PtrArray.law_iff`, `PtrArray.fastLaw_iff`.
-/
import Mathlib.Algebra.Ring.Nat
import Mathlib.Data.List.Basic
import Mathlib.Data.List.Perm.Basic

namespace Fcitx

/-- The values of a `size_t`. -/
def sizeModulus : ℕ := 2 ^ 64

/-- `sizeof(void*)` -/
def sizeofPtr : ℕ := 8

/-- A call of one of the destroy functions. -/
inductive DestroyCall where
  | destoryNotify2 (data : ℕ)
  | freeFunc (data : ℕ)
deriving DecidableEq

/-- `FcitxPtrArray` with `FcitxPtrArrayPrivate`; the log has the calls of the destroy functions. -/
structure PtrArray where
  /-- the block behind `data` -/
  block : List ℕ
  len : ℕ
  size : ℕ
  sizeGrowFunc : Option (ℕ → ℕ)
  hasFreeFunc : Bool
  hasDestoryNotify2 : Bool
  log : List DestroyCall

/-- A call of one of the operations. -/
inductive ArrayOp where
  | insert (data position : ℕ)
  | remove (position steal : ℕ)
  | set (index data : ℕ)
  | pop (steal : ℕ)
  | resize (size : ℕ) (callback : Option (ℕ → ℕ))

/-- Store to a block. -/
def storeAt (block : List ℕ) (i data : ℕ) : Option (List ℕ) :=
  if i < block.length then some (block.set i data) else none

/-- `data[i + 1] = data[i]` for every `i` from below `i` down to `position`. -/
def shiftUp (position : ℕ) : ℕ → List ℕ → Option (List ℕ)
  | 0, block => some block
  | i + 1, block =>
    if position < i + 1 then
      block[i]?.bind fun data => (storeAt block (i + 1) data).bind (shiftUp position i)
    else some block

/-- `data[i] = data[i + 1]` for `n` positions from `i` on. -/
def shiftDown : ℕ → ℕ → List ℕ → Option (List ℕ)
  | _, 0, block => some block
  | i, n + 1, block => block[i + 1]?.bind fun data => (storeAt block i data).bind (shiftDown (i + 1) n)

namespace PtrArray

/-- `fcitx_ptr_array_new_full` -/
def newFull (sizeGrowFunc : Option (ℕ → ℕ)) (hasFreeFunc hasDestoryNotify2 : Bool) : PtrArray :=
  ⟨[], 0, 0, sizeGrowFunc, hasFreeFunc, hasDestoryNotify2, []⟩

/-- The elements. -/
def elems (s : PtrArray) : List ℕ := s.block.take s.len

/-- What the destroy functions are called with for an element. -/
def destroyCalls (s : PtrArray) (data : ℕ) : List DestroyCall :=
  (if s.hasDestoryNotify2 then [.destoryNotify2 data] else []) ++ if s.hasFreeFunc then [.freeFunc data] else []

/-- Call the destroy functions. -/
def destroy (s : PtrArray) (data : ℕ) : PtrArray := { s with log := s.log ++ s.destroyCalls data }

/-- The next size that `_fcitx_ptr_array_grow` tries. -/
def nextSize (sizeGrowFunc : Option (ℕ → ℕ)) (size : ℕ) : ℕ :=
  match sizeGrowFunc with
  | some grow => grow size % sizeModulus
  | none => if size ≠ 0 then size * 2 % sizeModulus else 1

/-- The loop of `_fcitx_ptr_array_grow`. -/
def growSize (sizeGrowFunc : Option (ℕ → ℕ)) (target : ℕ) : ℕ → ℕ → Option ℕ
  | 0, _ => none
  | rounds + 1, size =>
    if size < target then growSize sizeGrowFunc target rounds (nextSize sizeGrowFunc size) else some size

/-- More rounds than there are sizes: after so many a size has come up twice. -/
def growRounds : ℕ := sizeModulus + 1

/-- `_fcitx_ptr_array_grow`; the allocator gives the numbers of bytes in `gives`. -/
def grow (gives : ℕ → Bool) (s : PtrArray) (target : ℕ) : Option PtrArray :=
  match growSize s.sizeGrowFunc target growRounds s.size with
  | none => none
  | some size =>
    if s.size ≠ size then
      let bytes := size * sizeofPtr % sizeModulus
      if gives bytes then
        let old := s.block.take (bytes / sizeofPtr)
        some { s with block := old ++ List.replicate (bytes / sizeofPtr - old.length) 0, size := size }
      else none
    else some s

/-- `fcitx_ptr_array_insert` -/
def insert (gives : ℕ → Bool) (s : PtrArray) (data position : ℕ) : Option PtrArray :=
  if s.len < position then some s
  else
    (if s.size < s.len + 1 then s.grow gives (s.len + 1) else some s).bind fun s =>
      (shiftUp position s.len s.block).bind fun block =>
        (storeAt block position data).map fun block => { s with block := block, len := s.len + 1 }

/-- `array->len --` -/
def lenLess (s : PtrArray) : ℕ := (s.len + (sizeModulus - 1)) % sizeModulus

/-- `fcitx_ptr_array_remove` -/
def remove (s : PtrArray) (position steal : ℕ) : Option (PtrArray × Option ℕ) :=
  if s.len < position then some (s, none)
  else
    s.block[position]?.bind fun data =>
      (shiftDown position (s.lenLess - position) s.block).map fun block =>
        let t := { s with block := block, len := s.lenLess }
        if steal ≠ 0 then (t, some data) else (t.destroy data, none)

/-- `fcitx_ptr_array_remove_fast` -/
def removeFast (s : PtrArray) (position steal : ℕ) : Option (PtrArray × Option ℕ) :=
  if s.len < position then some (s, none)
  else
    s.block[position]?.bind fun data =>
      s.block[s.lenLess]?.bind fun last =>
        (storeAt s.block position last).bind fun block =>
          let t := { s with block := block, len := s.lenLess }
          if steal = data then
            if steal = 0 then none else some (t, some data)
          else some (t.destroy data, none)

/-- `fcitx_ptr_array_pop` -/
def pop (s : PtrArray) (steal : ℕ) : Option (PtrArray × Option ℕ) := s.remove s.lenLess steal

/-- `fcitx_ptr_array_append` -/
def append (gives : ℕ → Bool) (s : PtrArray) (data : ℕ) : Option PtrArray := s.insert gives data s.len

/-- `fcitx_ptr_array_set` -/
def set (s : PtrArray) (index data : ℕ) : Option PtrArray :=
  if s.len ≤ index then some s
  else
    s.block[index]?.bind fun old =>
      (storeAt s.block index data).map fun block => { s.destroy old with block := block }

/-- The first loop of `fcitx_ptr_array_resize`. -/
def shrink (size : ℕ) : ℕ → PtrArray → Option PtrArray
  | 0, _ => none
  | rounds + 1, s => if size < s.len then (s.pop 0).bind fun r => shrink size rounds r.1 else some s

/-- The second loop of `fcitx_ptr_array_resize`. -/
def extend (gives : ℕ → Bool) (size : ℕ) (callback : Option (ℕ → ℕ)) : ℕ → PtrArray → Option PtrArray
  | 0, _ => none
  | rounds + 1, s =>
    if s.len < size then
      (s.append gives (callback.elim 0 fun f => f s.len)).bind (extend gives size callback rounds)
    else some s

/-- `fcitx_ptr_array_resize` -/
def resize (gives : ℕ → Bool) (s : PtrArray) (size : ℕ) (callback : Option (ℕ → ℕ)) : Option PtrArray :=
  (shrink size (s.len + 1) s).bind fun s =>
    (s.grow gives size).bind fun s => extend gives size callback (size - s.len + 1) s

/-- A call, with what it stored through `steal`. -/
def apply (gives : ℕ → Bool) (s : PtrArray) : ArrayOp → Option (PtrArray × Option ℕ)
  | .insert data position => (s.insert gives data position).map (·, none)
  | .remove position steal => s.remove position steal
  | .set index data => (s.set index data).map (·, none)
  | .pop steal => s.pop steal
  | .resize size callback => (s.resize gives size callback).map (·, none)

end PtrArray

/-! ### What a call is meant to do -/

/-- What a call leaves of a list, what it destroys, and what it gives away. -/
structure ListResult where
  elems : List ℕ
  destroyed : List ℕ
  stolen : Option ℕ

/-- Taking an element away: it is stolen or destroyed. -/
def ListResult.without (elems : List ℕ) (data steal : ℕ) : ListResult :=
  if steal ≠ 0 then ⟨elems, [], some data⟩ else ⟨elems, [data], none⟩

/-- The calls on lists. -/
def ArrayOp.onList (l : List ℕ) : ArrayOp → ListResult
  | .insert data position => ⟨if position ≤ l.length then l.insertIdx position data else l, [], none⟩
  | .remove position steal =>
    match l[position]? with
    | some data => .without (l.eraseIdx position) data steal
    | none => ⟨l, [], none⟩
  | .set index data =>
    match l[index]? with
    | some old => ⟨l.set index data, [old], none⟩
    | none => ⟨l, [], none⟩
  | .pop steal =>
    match l.getLast? with
    | some data => .without l.dropLast data steal
    | none => ⟨l, [], none⟩
  | .resize size callback =>
    ⟨l.take size ++ (List.range' l.length (size - l.length)).map fun i => callback.elim 0 fun f => f i,
      (l.drop size).reverse, none⟩

/-- Taking an element away and putting the last one in its place. -/
def fastOnList (l : List ℕ) (position steal : ℕ) : ListResult :=
  match l[position]? with
  | some data => .without (l.set position (l.getLast?.getD 0)).dropLast data steal
  | none => ⟨l, [], none⟩

/-! ### Moving elements -/

theorem storeAt_eq {block : List ℕ} {i : ℕ} (h : i < block.length) (data : ℕ) :
    storeAt block i data = some (block.set i data) := if_pos h

/-- Moving up makes room at a position. -/
theorem shiftUp_spec (position i : ℕ) (block : List ℕ) (h : i < block.length) :
    ∃ t, shiftUp position i block = some t ∧ t.length = block.length ∧
      ∀ j, t[j]? = if position < j ∧ j ≤ i then block[j - 1]? else block[j]? := by
  induction i generalizing block with
  | zero => exact ⟨block, rfl, rfl, fun j => by rw [if_neg (by omega)]⟩
  | succ i ih =>
    unfold shiftUp
    by_cases hpos : position < i + 1
    · have hi : i < block.length := by omega
      rw [if_pos hpos, List.getElem?_eq_getElem hi, Option.bind_some, storeAt_eq h, Option.bind_some]
      obtain ⟨t, ht, hlen, hget⟩ := ih (block.set (i + 1) block[i]) (by rw [List.length_set]; exact hi)
      refine ⟨t, ht, hlen.trans List.length_set, fun j => ?_⟩
      rw [hget, List.getElem?_set, List.getElem?_set]
      by_cases htop : j = i + 1
      · subst htop
        rw [if_neg (by omega), if_pos rfl, if_pos h, if_pos (by omega), Nat.add_sub_cancel,
          List.getElem?_eq_getElem hi]
      · rw [if_neg (Ne.symm htop)]
        by_cases hj : position < j ∧ j ≤ i
        · rw [if_pos hj, if_neg (by omega), if_pos (by omega)]
        · rw [if_neg hj, if_neg (by omega)]
    · rw [if_neg hpos]
      exact ⟨block, rfl, rfl, fun j => by rw [if_neg (by omega)]⟩

/-- Moving down closes the hole at a position. -/
theorem shiftDown_spec (i n : ℕ) (block : List ℕ) (h : i + n < block.length) :
    ∃ t, shiftDown i n block = some t ∧ t.length = block.length ∧
      ∀ j, t[j]? = if i ≤ j ∧ j < i + n then block[j + 1]? else block[j]? := by
  induction n generalizing i block with
  | zero => exact ⟨block, rfl, rfl, fun j => by rw [if_neg (by omega)]⟩
  | succ n ih =>
    unfold shiftDown
    have hi : i + 1 < block.length := by omega
    rw [List.getElem?_eq_getElem hi, Option.bind_some, storeAt_eq (by omega), Option.bind_some]
    obtain ⟨t, ht, hlen, hget⟩ := ih (i + 1) (block.set i block[i + 1]) (by
      rw [List.length_set]
      omega)
    refine ⟨t, ht, hlen.trans List.length_set, fun j => ?_⟩
    rw [hget, List.getElem?_set, List.getElem?_set]
    by_cases hbottom : j = i
    · subst hbottom
      rw [if_neg (by omega), if_pos rfl, if_pos (by omega), if_pos (by omega), List.getElem?_eq_getElem hi]
    · by_cases hj : i + 1 ≤ j ∧ j < i + 1 + n
      · rw [if_pos hj, if_neg (by omega), if_pos (by omega)]
      · rw [if_neg hj, if_neg (Ne.symm hbottom), if_neg (by omega)]

namespace PtrArray

variable {gives : ℕ → Bool} {s t : PtrArray}

/-! ### Well-formed arrays -/

/-- The block has room for `size` pointers, and the elements are in it. -/
structure Holds (s : PtrArray) : Prop where
  block : s.block.length = s.size
  len_le : s.len ≤ s.size
  bytes : s.size * sizeofPtr < sizeModulus

theorem newFull_holds (sizeGrowFunc : Option (ℕ → ℕ)) (hasFreeFunc hasDestoryNotify2 : Bool) :
    Holds (newFull sizeGrowFunc hasFreeFunc hasDestoryNotify2) :=
  ⟨rfl, Nat.le_refl 0, show 0 * sizeofPtr < sizeModulus by decide⟩

theorem Holds.length_elems (h : Holds s) : s.elems.length = s.len := by
  rw [elems, List.length_take, h.block, Nat.min_eq_left h.len_le]

theorem getElem?_elems (s : PtrArray) (j : ℕ) : s.elems[j]? = if j < s.len then s.block[j]? else none :=
  List.getElem?_take ..

/-- A position in the block. -/
theorem Holds.getElem? (h : Holds s) {j : ℕ} (hj : j < s.size) : ∃ data, s.block[j]? = some data := by
  rw [← h.block] at hj
  exact ⟨_, List.getElem?_eq_getElem hj⟩

/-- The element at a position. -/
theorem Holds.getElem?_eq (h : Holds s) {j : ℕ} (hj : j < s.len) :
    ∃ data, s.block[j]? = some data ∧ s.elems[j]? = some data := by
  obtain ⟨data, hdata⟩ := h.getElem? (Nat.lt_of_lt_of_le hj h.len_le)
  exact ⟨data, hdata, by rw [getElem?_elems, if_pos hj, hdata]⟩

theorem Holds.lenLess (h : Holds s) : s.lenLess = if s.len = 0 then sizeModulus - 1 else s.len - 1 := by
  have hle := h.len_le
  have hbytes := h.bytes
  unfold PtrArray.lenLess
  unfold sizeModulus sizeofPtr at *
  split_ifs with hzero
  · omega
  · omega

theorem Holds.lenLess_ne (h : Holds s) : s.lenLess ≠ s.len := by
  have hle := h.len_le
  have hbytes := h.bytes
  unfold PtrArray.lenLess
  unfold sizeModulus sizeofPtr at *
  omega

/-- The functions of an array. -/
structure SameFuncs (s t : PtrArray) : Prop where
  growFunc : t.sizeGrowFunc = s.sizeGrowFunc
  freeFunc : t.hasFreeFunc = s.hasFreeFunc
  notify : t.hasDestoryNotify2 = s.hasDestoryNotify2

theorem SameFuncs.destroyCalls (h : SameFuncs s t) : t.destroyCalls = s.destroyCalls := by
  funext data
  rw [PtrArray.destroyCalls, PtrArray.destroyCalls, h.freeFunc, h.notify]

theorem SameFuncs.trans {u : PtrArray} (h : SameFuncs s t) (h' : SameFuncs t u) : SameFuncs s u :=
  ⟨h'.growFunc.trans h.growFunc, h'.freeFunc.trans h.freeFunc, h'.notify.trans h.notify⟩

/-! ### Growing -/

/-- There can be room for `target` pointers: the size is reached, it is no larger than memory, and the
allocator gives the bytes. -/
def CanGrow (gives : ℕ → Bool) (s : PtrArray) (target : ℕ) : Prop :=
  ∃ size, growSize s.sizeGrowFunc target growRounds s.size = some size ∧ size * sizeofPtr < sizeModulus ∧
    (s.size ≠ size → gives (size * sizeofPtr) = true)

theorem growSize_eq {sizeGrowFunc : Option (ℕ → ℕ)} {target size : ℕ} (h : target ≤ size) :
    growSize sizeGrowFunc target growRounds size = some size := by
  unfold growRounds growSize
  exact if_neg (Nat.not_lt.mpr h)

theorem le_growSize {sizeGrowFunc : Option (ℕ → ℕ)} {target rounds size size' : ℕ}
    (h : growSize sizeGrowFunc target rounds size = some size') : target ≤ size' := by
  induction rounds generalizing size with
  | zero => cases h
  | succ rounds ih =>
    unfold growSize at h
    split_ifs at h with hlt
    · exact ih h
    · obtain rfl := Option.some.inj h
      exact Nat.le_of_not_lt hlt

/-- Where there is room already nothing is allocated. -/
theorem Holds.canGrow (h : Holds s) {target : ℕ} (hle : target ≤ s.size) : CanGrow gives s target :=
  ⟨s.size, growSize_eq hle, h.bytes, fun hne => absurd rfl hne⟩

theorem grow_eq_self {target : ℕ} (hle : target ≤ s.size) : s.grow gives target = some s := by
  rw [grow, growSize_eq hle]
  exact if_neg fun hne => hne rfl

/-- An array with the elements of another one, and room for `target`. -/
structure Grown (s t : PtrArray) (target : ℕ) : Prop where
  holds : Holds t
  room : target ≤ t.size
  len : t.len = s.len
  elems : t.elems = s.elems
  log : t.log = s.log
  funcs : SameFuncs s t

/-- **Growing** where it is possible keeps the elements. -/
theorem Holds.grow (h : Holds s) {target : ℕ} (hcan : CanGrow gives s target) :
    ∃ t, s.grow gives target = some t ∧ Grown s t target := by
  obtain ⟨size, hsize, hbytes, hgives⟩ := hcan
  have hroom := le_growSize hsize
  by_cases hle : target ≤ s.size
  · exact ⟨s, grow_eq_self hle, h, hle, rfl, rfl, rfl, rfl, rfl, rfl⟩
  · have hne : s.size ≠ size := by omega
    have hmod : size * sizeofPtr % sizeModulus / sizeofPtr = size := by
      rw [Nat.mod_eq_of_lt hbytes, Nat.mul_div_cancel _ (by decide)]
    have hold : s.block.take size = s.block := List.take_of_length_le (by rw [h.block]; omega)
    refine ⟨{ s with block := s.block ++ List.replicate (size - s.block.length) 0, size := size }, ?_, ?_⟩
    · rw [PtrArray.grow, hsize]
      dsimp only
      rw [if_pos hne, Nat.mod_eq_of_lt hbytes, if_pos (hgives hne), ← Nat.mod_eq_of_lt hbytes, hmod, hold]
    · have hlen := h.len_le
      refine ⟨⟨?_, ?_, hbytes⟩, hroom, rfl, ?_, rfl, rfl, rfl, rfl⟩
      · rw [List.length_append, List.length_replicate, h.block]
        show s.size + (size - s.size) = size
        omega
      · show s.len ≤ size
        omega
      · exact List.take_append_of_le_length (by rw [h.block]; exact hlen)

/-- Growing where it is not possible leaves no well-formed array. -/
theorem not_holds_grow {target : ℕ} (hcan : ¬ CanGrow gives s target) (ht : s.grow gives target = some t) :
    sizeModulus ≤ t.size * sizeofPtr ∧ target ≤ t.size := by
  rw [PtrArray.grow] at ht
  cases hsize : growSize s.sizeGrowFunc target growRounds s.size with
  | none =>
    rw [hsize] at ht
    cases ht
  | some size =>
    rw [hsize] at ht
    dsimp only at ht
    have hroom := le_growSize hsize
    have hlarge : s.size ≠ size → gives (size * sizeofPtr % sizeModulus) = true →
        sizeModulus ≤ size * sizeofPtr := by
      intro hne hgives
      by_contra hlt
      rw [Nat.mod_eq_of_lt (Nat.lt_of_not_le hlt)] at hgives
      exact hcan ⟨size, hsize, Nat.lt_of_not_le hlt, fun _ => hgives⟩
    split_ifs at ht with hne hgives
    · obtain rfl := Option.some.inj ht
      exact ⟨hlarge hne hgives, hroom⟩
    · have heq : s.size = size := not_not.mp hne
      obtain rfl := Option.some.inj ht
      refine ⟨?_, heq ▸ hroom⟩
      by_contra hlt
      exact hcan ⟨size, hsize, heq ▸ Nat.lt_of_not_le hlt, fun hne => absurd heq hne⟩

/-! ### The single calls -/

/-- What a call made of an array, against what it makes of a list. -/
structure Does (s t : PtrArray) (stolen : Option ℕ) (r : ListResult) : Prop where
  holds : Holds t
  elems : t.elems = r.elems
  log : t.log = s.log ++ r.destroyed.flatMap s.destroyCalls
  stolen : stolen = r.stolen
  funcs : SameFuncs s t

/-- A call that does nothing. -/
theorem Holds.does_self (h : Holds s) : Does s s none ⟨s.elems, [], none⟩ :=
  ⟨h, rfl, (List.append_nil _).symm, rfl, rfl, rfl, rfl⟩

theorem Holds.grow_for (h : Holds s) (hcan : CanGrow gives s (s.len + 1)) :
    ∃ t, (if s.size < s.len + 1 then s.grow gives (s.len + 1) else some s) = some t ∧ Grown s t (s.len + 1) := by
  split_ifs with hfull
  · exact h.grow hcan
  · exact ⟨s, rfl, h, Nat.le_of_not_lt hfull, rfl, rfl, rfl, rfl, rfl, rfl⟩

/-- **Inserting**. -/
theorem Holds.insert (h : Holds s) {position : ℕ} (hpos : position ≤ s.len) (hcan : CanGrow gives s (s.len + 1))
    (data : ℕ) : ∃ t, s.insert gives data position = some t ∧
      Does s t none ⟨s.elems.insertIdx position data, [], none⟩ ∧ t.len = s.len + 1 := by
  obtain ⟨g, hg, hgrown⟩ := h.grow_for hcan
  have hblock := hgrown.holds.block
  have hroom := hgrown.room
  obtain ⟨block, hshift, hlen, hget⟩ := shiftUp_spec position g.len g.block (by
    rw [hgrown.len, hblock]
    exact hroom)
  have hstore : position < block.length := by
    rw [hlen, hblock]
    omega
  refine ⟨{ g with block := block.set position data, len := g.len + 1 }, ?_, ⟨⟨?_, ?_, hgrown.holds.bytes⟩, ?_,
    ?_, rfl, hgrown.funcs.growFunc, hgrown.funcs.freeFunc, hgrown.funcs.notify⟩, congrArg (· + 1) hgrown.len⟩
  · unfold PtrArray.insert
    rw [if_neg (Nat.not_lt.mpr hpos), hg, Option.bind_some, hshift, Option.bind_some, storeAt_eq hstore]
    rfl
  · exact List.length_set.trans (hlen.trans hblock)
  · show g.len + 1 ≤ g.size
    rw [hgrown.len]
    exact hroom
  · refine List.ext_getElem? fun j => ?_
    have hold : ∀ j, s.elems[j]? = if j < s.len then g.block[j]? else none := fun j => by
      rw [← hgrown.elems, getElem?_elems, hgrown.len]
    rw [getElem?_elems, List.getElem?_set, List.getElem?_insertIdx, h.length_elems, hget]
    simp only [hgrown.len]
    rcases Nat.lt_trichotomy j position with hlt | rfl | hgt
    · rw [if_pos (by omega), if_neg (by omega), if_neg (by omega), if_pos hlt, hold, if_pos (by omega)]
    · rw [if_pos (by omega), if_pos rfl, if_pos hstore, if_neg (by omega), if_pos rfl, if_pos hpos]
    · rw [if_neg (Nat.ne_of_lt hgt), if_neg (Nat.not_lt.mpr (Nat.le_of_lt hgt)), if_neg (Nat.ne_of_gt hgt), hold]
      by_cases hin : j < s.len + 1
      · rw [if_pos hin, if_pos ⟨hgt, by omega⟩, if_pos (by omega)]
      · rw [if_neg hin, if_neg (by omega)]
  · exact hgrown.log.trans (List.append_nil _).symm

/-- The size of an array with room for one more does not change. -/
theorem insert_size {data position : ℕ} (hroom : s.len + 1 ≤ s.size) (hpos : position ≤ s.len)
    (ht : s.insert gives data position = some t) : t.size = s.size ∧ t.len = s.len + 1 := by
  unfold PtrArray.insert at ht
  rw [if_neg (Nat.not_lt.mpr hpos), if_neg (Nat.not_lt.mpr hroom), Option.bind_some] at ht
  obtain ⟨block, -, ht⟩ := Option.bind_eq_some_iff.mp ht
  obtain ⟨block', -, rfl⟩ := Option.map_eq_some_iff.mp ht
  exact ⟨rfl, rfl⟩

/-- Inserting where there can be no room leaves no well-formed array. -/
theorem not_holds_insert {data position : ℕ} (hpos : position ≤ s.len) (h : Holds s)
    (hcan : ¬ CanGrow gives s (s.len + 1)) (ht : s.insert gives data position = some t) : ¬ Holds t := by
  have hfull : s.size < s.len + 1 := by
    by_contra hroom
    exact hcan (h.canGrow (Nat.le_of_not_lt hroom))
  unfold PtrArray.insert at ht
  rw [if_neg (Nat.not_lt.mpr hpos), if_pos hfull] at ht
  obtain ⟨g, hg, ht⟩ := Option.bind_eq_some_iff.mp ht
  obtain ⟨block, -, ht⟩ := Option.bind_eq_some_iff.mp ht
  obtain ⟨block', -, rfl⟩ := Option.map_eq_some_iff.mp ht
  exact fun hno => Nat.not_lt.mpr (not_holds_grow hcan hg).1 hno.bytes

/-- What becomes of an element that is taken out. -/
theorem Does.without {r : List ℕ} (h : Does s t none ⟨r, [], none⟩) (data steal : ℕ) :
    Does s (if steal ≠ 0 then (t, some data) else (t.destroy data, none)).1
      (if steal ≠ 0 then (t, some data) else (t.destroy data, none)).2 (.without r data steal) := by
  unfold ListResult.without
  split_ifs with hsteal
  · exact ⟨h.holds, h.elems, h.log, rfl, h.funcs⟩
  · refine ⟨⟨h.holds.block, h.holds.len_le, h.holds.bytes⟩, h.elems, ?_, rfl, h.funcs.growFunc, h.funcs.freeFunc,
      h.funcs.notify⟩
    show t.log ++ t.destroyCalls data = s.log ++ [data].flatMap s.destroyCalls
    rw [h.log, h.funcs.destroyCalls]
    simp

/-- **Removing** an element. -/
theorem Holds.remove (h : Holds s) (position : ℕ) (hpos : position < s.len) (steal : ℕ) :
    ∃ data t stolen, s.elems[position]? = some data ∧ s.remove position steal = some (t, stolen) ∧
      Does s t stolen (.without (s.elems.eraseIdx position) data steal) ∧ t.len = s.len - 1 ∧ t.size = s.size := by
  obtain ⟨data, hdata, helem⟩ := h.getElem?_eq hpos
  have hle := h.len_le
  have hless : s.lenLess = s.len - 1 := by rw [h.lenLess, if_neg (by omega)]
  obtain ⟨block, hshift, hlen, hget⟩ := shiftDown_spec position (s.lenLess - position)
    s.block (by
      rw [hless, h.block]
      omega)
  have hdoes : Does s { s with block := block, len := s.lenLess } none ⟨s.elems.eraseIdx position, [], none⟩ := by
    refine ⟨⟨hlen.trans h.block, ?_, h.bytes⟩, List.ext_getElem? fun j => ?_, (List.append_nil _).symm, rfl, rfl,
      rfl, rfl⟩
    · show s.lenLess ≤ s.size
      omega
    · rw [getElem?_elems, List.getElem?_eraseIdx, getElem?_elems, getElem?_elems, hget]
      simp only [hless]
      by_cases hj : j < s.len - 1
      · rw [if_pos hj]
        by_cases hbefore : j < position
        · rw [if_neg (by omega), if_pos hbefore, if_pos (by omega)]
        · rw [if_pos (by omega), if_neg hbefore, if_pos (by omega)]
      · rw [if_neg hj, if_neg (by omega), if_neg (by omega)]
  refine ⟨data, _, _, helem, ?_, hdoes.without _ steal, ?_, ?_⟩
  · unfold PtrArray.remove
    rw [if_neg (by omega), hdata, Option.bind_some, hshift]
    rfl
  · split_ifs
    · exact hless
    · exact hless
  · split_ifs <;> rfl

/-- A position that is too large. -/
theorem remove_eq_self {position : ℕ} (hpos : s.len < position) (steal : ℕ) :
    s.remove position steal = some (s, none) := if_pos hpos

/-- **The position behind the last element** is let through: there is no result, or an element less. -/
theorem Holds.remove_len (h : Holds s) {steal : ℕ} {stolen : Option ℕ}
    (ht : s.remove s.len steal = some (t, stolen)) : t.len ≠ s.len := by
  unfold PtrArray.remove at ht
  rw [if_neg (Nat.lt_irrefl _)] at ht
  obtain ⟨data, hdata, ht⟩ := Option.bind_eq_some_iff.mp ht
  obtain ⟨block, hshift, ht⟩ := Option.map_eq_some_iff.mp ht
  have hne := h.lenLess_ne
  dsimp only at ht
  split_ifs at ht
  · obtain ⟨rfl, -⟩ := Prod.mk.inj ht
    exact hne
  · obtain ⟨rfl, -⟩ := Prod.mk.inj ht
    exact hne

/-- **Popping** the last element. -/
theorem Holds.pop (h : Holds s) (hne : s.len ≠ 0) (steal : ℕ) :
    ∃ data t stolen, s.elems.getLast? = some data ∧ s.pop steal = some (t, stolen) ∧
      Does s t stolen (.without s.elems.dropLast data steal) ∧ t.len = s.len - 1 ∧ t.size = s.size := by
  have hless : s.lenLess = s.len - 1 := by rw [h.lenLess, if_neg hne]
  obtain ⟨data, t, stolen, hdata, ht, hdoes, hlen, hsize⟩ := h.remove (s.len - 1) (by omega) steal
  refine ⟨data, t, stolen, ?_, ?_, ?_, hlen, hsize⟩
  · rw [List.getLast?_eq_getElem?, h.length_elems, hdata]
  · rw [PtrArray.pop, hless, ht]
  · have hdrop : s.elems.dropLast = s.elems.eraseIdx (s.len - 1) := by
      exact List.dropLast_eq_eraseIdx (by rw [h.length_elems]; omega)
    rwa [hdrop]

/-- Popping from an empty array: the position is the largest there is. -/
theorem Holds.pop_empty (h : Holds s) (hzero : s.len = 0) (steal : ℕ) : s.pop steal = some (s, none) := by
  refine remove_eq_self ?_ steal
  rw [h.lenLess, if_pos hzero, hzero]
  decide

/-- **Setting** an element destroys the old one. -/
theorem Holds.set (h : Holds s) {index : ℕ} (hindex : index < s.len) (data : ℕ) :
    ∃ old t, s.elems[index]? = some old ∧ s.set index data = some t ∧
      Does s t none ⟨s.elems.set index data, [old], none⟩ := by
  obtain ⟨old, hold, helem⟩ := h.getElem?_eq hindex
  have hstore : index < s.block.length := by
    rw [h.block]
    exact Nat.lt_of_lt_of_le hindex h.len_le
  refine ⟨old, { s.destroy old with block := s.block.set index data }, helem, ?_, ⟨?_, h.len_le, h.bytes⟩, ?_, ?_,
    rfl, rfl, rfl, rfl⟩
  · unfold PtrArray.set
    rw [if_neg (Nat.not_le.mpr hindex), hold, Option.bind_some, storeAt_eq hstore]
    rfl
  · exact List.length_set.trans h.block
  · exact List.take_set
  · show s.log ++ s.destroyCalls old = _
    rw [List.flatMap_singleton]

/-! ### Resizing -/

theorem Does.trans {u : PtrArray} {l l' destroyed destroyed' : List ℕ} (h : Does s t none ⟨l, destroyed, none⟩)
    (h' : Does t u none ⟨l', destroyed', none⟩) : Does s u none ⟨l', destroyed ++ destroyed', none⟩ where
  holds := h'.holds
  elems := h'.elems
  log := by rw [h'.log, h.log, h.funcs.destroyCalls, List.flatMap_append, List.append_assoc]
  stolen := rfl
  funcs := h.funcs.trans h'.funcs

/-- **The first loop** drops elements from the end. -/
theorem Holds.shrink (size rounds : ℕ) (h : Holds s) (hrounds : s.len - size < rounds) :
    ∃ t, shrink size rounds s = some t ∧ Does s t none ⟨s.elems.take size, (s.elems.drop size).reverse, none⟩ ∧
      t.size = s.size ∧ t.len = min size s.len := by
  induction rounds generalizing s with
  | zero => omega
  | succ rounds ih =>
    unfold PtrArray.shrink
    have hlen := h.length_elems
    by_cases hlarge : size < s.len
    · rw [if_pos hlarge]
      obtain ⟨data, t, stolen, hdata, ht, hdoes, htlen, htsize⟩ := h.pop (by omega) 0
      have hfirst : Does s t none ⟨s.elems.dropLast, [data], none⟩ :=
        ⟨hdoes.holds, hdoes.elems, hdoes.log, rfl, hdoes.funcs⟩
      obtain ⟨u, hu, hrest, husize, hulen⟩ := ih hdoes.holds (by omega)
      have hsplit : s.elems = s.elems.dropLast ++ [data] :=
        (List.dropLast_append_getLast? data hdata).symm
      have helems : t.elems = s.elems.dropLast := hfirst.elems
      have hshort : size ≤ s.elems.dropLast.length := by
        rw [List.length_dropLast, hlen]
        omega
      rw [ht, Option.bind_some]
      refine ⟨u, hu, ?_, husize.trans htsize, by rw [hulen, htlen]; omega⟩
      have hboth := hfirst.trans hrest
      rw [helems] at hboth
      have htake : s.elems.take size = s.elems.dropLast.take size := by
        conv_lhs => rw [hsplit]
        exact List.take_append_of_le_length hshort
      have hdrop : (s.elems.drop size).reverse = [data] ++ (s.elems.dropLast.drop size).reverse := by
        conv_lhs => rw [hsplit]
        rw [List.drop_append_of_le_length hshort, List.reverse_append, List.reverse_singleton]
      rw [htake, hdrop]
      exact hboth
    · rw [if_neg hlarge]
      have hall : s.elems.length ≤ size := by omega
      refine ⟨s, rfl, ?_, rfl, by omega⟩
      rw [List.take_of_length_le hall, List.drop_eq_nil_of_le hall]
      exact h.does_self

/-- What the callback gives for the new elements. -/
def fill (callback : Option (ℕ → ℕ)) (start n : ℕ) : List ℕ :=
  (List.range' start n).map fun i => callback.elim 0 fun f => f i

variable (gives) in
/-- **The second loop** appends what the callback gives. -/
theorem Holds.extend (size : ℕ) (callback : Option (ℕ → ℕ)) {rounds : ℕ} (h : Holds s) (hroom : size ≤ s.size)
    (hrounds : size - s.len < rounds) :
    ∃ t, extend gives size callback rounds s = some t ∧
      Does s t none ⟨s.elems ++ fill callback s.len (size - s.len), [], none⟩ := by
  induction rounds generalizing s with
  | zero => omega
  | succ rounds ih =>
    unfold PtrArray.extend
    by_cases hsmall : s.len < size
    · rw [if_pos hsmall]
      obtain ⟨t, ht, hdoes, htlen⟩ := h.insert (Nat.le_refl s.len) (h.canGrow (by omega) : CanGrow gives s (s.len + 1))
        (callback.elim 0 fun f => f s.len)
      have htsize := (insert_size (by omega) (Nat.le_refl _) ht).1
      obtain ⟨u, hu, hrest⟩ := ih hdoes.holds (by omega) (by omega)
      rw [PtrArray.append, ht, Option.bind_some]
      refine ⟨u, hu, ?_⟩
      have hboth := hdoes.trans hrest
      have hlast : s.elems.insertIdx s.len (callback.elim 0 fun f => f s.len) =
          s.elems ++ [callback.elim 0 fun f => f s.len] := by
        rw [← h.length_elems]
        exact List.insertIdx_length_self ..
      have hfill : fill callback s.len (size - s.len) =
          (callback.elim 0 fun f => f s.len) :: fill callback (s.len + 1) (size - (s.len + 1)) := by
        have hcount : size - s.len = (size - (s.len + 1)) + 1 := by omega
        rw [hcount, fill, List.range'_succ, List.map_cons]
        rfl
      rw [hdoes.elems] at hboth
      dsimp only at hboth
      rw [hlast, htlen, List.append_assoc, List.singleton_append, ← hfill] at hboth
      exact hboth
    · rw [if_neg hsmall, Nat.sub_eq_zero_of_le (Nat.le_of_not_lt hsmall)]
      refine ⟨s, rfl, ?_⟩
      rw [fill, List.range'_zero, List.map_nil, List.append_nil]
      exact h.does_self

theorem extend_size (size : ℕ) (callback : Option (ℕ → ℕ)) {rounds : ℕ} (hroom : size ≤ s.size)
    (ht : extend gives size callback rounds s = some t) : t.size = s.size := by
  induction rounds generalizing s with
  | zero => cases ht
  | succ rounds ih =>
    unfold PtrArray.extend at ht
    split_ifs at ht with hsmall
    · obtain ⟨u, hu, ht⟩ := Option.bind_eq_some_iff.mp ht
      have husize := (insert_size (Nat.lt_of_lt_of_le hsmall hroom) (Nat.le_refl _) hu).1
      exact (ih (husize ▸ hroom) ht).trans husize
    · obtain rfl := Option.some.inj ht
      rfl

/-- An array whose size and function are the same has the same chances to grow. -/
theorem canGrow_congr (hsize : t.size = s.size) (hfuncs : SameFuncs s t) {target : ℕ} :
    CanGrow gives t target ↔ CanGrow gives s target := by
  unfold CanGrow
  rw [hsize, hfuncs.growFunc]

/-- **Resizing** where there can be room. -/
theorem Holds.resize (h : Holds s) {size : ℕ} (callback : Option (ℕ → ℕ)) (hcan : CanGrow gives s size) :
    ∃ t, s.resize gives size callback = some t ∧ Does s t none ((ArrayOp.resize size callback).onList s.elems) := by
  obtain ⟨u, hu, hshrunk, husize, hulen⟩ := h.shrink size (s.len + 1) (by omega)
  obtain ⟨g, hg, hgrown⟩ := hshrunk.holds.grow ((canGrow_congr husize hshrunk.funcs).mpr hcan)
  obtain ⟨t, ht, hextended⟩ := hgrown.holds.extend gives size callback hgrown.room (Nat.lt_succ_self _)
  unfold PtrArray.resize
  rw [hu, Option.bind_some, hg, Option.bind_some]
  refine ⟨t, ht, ?_⟩
  have hgrow : Does u g none ⟨s.elems.take size, [], none⟩ :=
    ⟨hgrown.holds, hgrown.elems.trans hshrunk.elems, hgrown.log.trans (List.append_nil _).symm, rfl, hgrown.funcs⟩
  have hall := (hshrunk.trans hgrow).trans hextended
  have hlen : g.len = min size s.len := hgrown.len.trans hulen
  have hfill : fill callback g.len (size - g.len) = fill callback s.elems.length (size - s.elems.length) := by
    rw [h.length_elems, hlen]
    rcases Nat.le_total size s.len with hle | hle
    · rw [Nat.min_eq_left hle, Nat.sub_self, Nat.sub_eq_zero_of_le hle]
      rfl
    · rw [Nat.min_eq_right hle]
  rw [hgrow.elems, hfill, List.append_nil, List.append_nil] at hall
  exact hall

/-- Resizing where there can be no room leaves no well-formed array. -/
theorem not_holds_resize (h : Holds s) {size : ℕ} (callback : Option (ℕ → ℕ)) (hcan : ¬ CanGrow gives s size)
    (ht : s.resize gives size callback = some t) : ¬ Holds t := by
  obtain ⟨u, hu, hshrunk, husize, -⟩ := h.shrink size (s.len + 1) (by omega)
  unfold PtrArray.resize at ht
  rw [hu, Option.bind_some] at ht
  obtain ⟨g, hg, ht⟩ := Option.bind_eq_some_iff.mp ht
  obtain ⟨hbytes, hroom⟩ := not_holds_grow (fun hno => hcan ((canGrow_congr husize hshrunk.funcs).mp hno)) hg
  have htsize := extend_size size callback hroom ht
  intro hno
  have hlt := hno.bytes
  rw [htsize] at hlt
  exact Nat.not_lt.mpr hbytes hlt

/-! ### All calls -/

/-- **The law of the calls**: a call leaves a well-formed array, and does what it does on the list of the
elements. -/
def Law (gives : ℕ → Bool) (s : PtrArray) (op : ArrayOp) : Prop :=
  ∃ t stolen, s.apply gives op = some (t, stolen) ∧ Does s t stolen (op.onList s.elems)

/-- The calls that obey the law: no removal of the position behind the last element, and no growth
without memory. -/
def Meets (gives : ℕ → Bool) (s : PtrArray) : ArrayOp → Prop
  | .insert _ position => position ≤ s.len → CanGrow gives s (s.len + 1)
  | .remove position _ => position ≠ s.len
  | .resize size _ => CanGrow gives s size
  | .set .. | .pop _ => True

/-- **The arrays of pointers** obey the law exactly in these calls. -/
theorem law_iff (h : Holds s) (op : ArrayOp) : Law gives s op ↔ Meets gives s op := by
  have hlen := h.length_elems
  cases op with
  | insert data position =>
    simp only [Law, Meets, PtrArray.apply, ArrayOp.onList, hlen]
    by_cases hpos : position ≤ s.len
    · rw [if_pos hpos]
      refine ⟨?_, fun hcan => ?_⟩
      · rintro ⟨t, stolen, ht, hdoes⟩ -
        by_contra hcan
        obtain ⟨t', ht', heq⟩ := Option.map_eq_some_iff.mp ht
        obtain ⟨rfl, -⟩ := Prod.mk.inj heq
        exact not_holds_insert hpos h hcan ht' hdoes.holds
      · obtain ⟨t, ht, hdoes, -⟩ := h.insert hpos (hcan hpos) data
        exact ⟨t, none, by rw [ht, Option.map_some], hdoes⟩
    · refine iff_of_true ⟨s, none, ?_, ?_⟩ fun hno => absurd hno hpos
      · rw [PtrArray.insert, if_pos (Nat.lt_of_not_le hpos), Option.map_some]
      · rw [if_neg hpos]
        exact h.does_self
  | remove position steal =>
    simp only [Law, Meets, PtrArray.apply, ArrayOp.onList]
    rcases Nat.lt_trichotomy position s.len with hlt | rfl | hgt
    · obtain ⟨data, t, stolen, hdata, ht, hdoes, -⟩ := h.remove _ hlt steal
      refine iff_of_true ⟨t, stolen, ht, ?_⟩ (Nat.ne_of_lt hlt)
      rw [hdata]
      exact hdoes
    · refine iff_of_false ?_ fun hno => hno rfl
      rintro ⟨t, stolen, ht, hdoes⟩
      refine h.remove_len ht ?_
      have helems := hdoes.elems
      rw [List.getElem?_eq_none (Nat.le_of_eq hlen)] at helems
      rw [← hdoes.holds.length_elems, helems, hlen]
    · refine iff_of_true ⟨s, none, remove_eq_self hgt steal, ?_⟩ (Nat.ne_of_gt hgt)
      rw [List.getElem?_eq_none (by omega)]
      exact h.does_self
  | set index data =>
    simp only [Law, Meets, PtrArray.apply, ArrayOp.onList]
    refine iff_of_true ?_ trivial
    by_cases hindex : index < s.len
    · obtain ⟨old, t, hold, ht, hdoes⟩ := h.set hindex data
      refine ⟨t, none, by rw [ht, Option.map_some], ?_⟩
      rw [hold]
      exact hdoes
    · refine ⟨s, none, ?_, ?_⟩
      · rw [PtrArray.set, if_pos (Nat.le_of_not_lt hindex), Option.map_some]
      · rw [List.getElem?_eq_none (by omega)]
        exact h.does_self
  | pop steal =>
    simp only [Law, Meets, PtrArray.apply, ArrayOp.onList]
    refine iff_of_true ?_ trivial
    by_cases hzero : s.len = 0
    · refine ⟨s, none, h.pop_empty hzero steal, ?_⟩
      have hnil : s.elems = [] := List.length_eq_zero_iff.mp (hlen.trans hzero)
      have hlast : s.elems.getLast? = none := List.getLast?_eq_none_iff.mpr hnil
      rw [hlast]
      exact h.does_self
    · obtain ⟨data, t, stolen, hdata, ht, hdoes, -⟩ := h.pop hzero steal
      refine ⟨t, stolen, ht, ?_⟩
      rw [hdata]
      exact hdoes
  | resize size callback =>
    simp only [Law, Meets, PtrArray.apply]
    refine ⟨?_, fun hcan => ?_⟩
    · rintro ⟨t, stolen, ht, hdoes⟩
      by_contra hcan
      obtain ⟨t', ht', heq⟩ := Option.map_eq_some_iff.mp ht
      obtain ⟨rfl, -⟩ := Prod.mk.inj heq
      exact not_holds_resize h callback hcan ht' hdoes.holds
    · obtain ⟨t, ht, hdoes⟩ := h.resize callback hcan
      exact ⟨t, none, by rw [ht, Option.map_some], hdoes⟩

/-- An array with the element 7, which had another one. -/
def oneOfTwo : PtrArray := ⟨[7, 8], 1, 2, none, true, false, []⟩

theorem oneOfTwo_holds : Holds oneOfTwo := ⟨rfl, by decide, by decide⟩

/-- There is room for another element in front. -/
theorem law_oneOfTwo : Law (fun _ => true) oneOfTwo (.insert 9 0) :=
  (law_iff oneOfTwo_holds _).mpr fun _ => oneOfTwo_holds.canGrow (by decide)

/-- Removing behind the last element: what was there once is destroyed again, and the element is lost. -/
theorem not_law_oneOfTwo :
    oneOfTwo.remove 1 0 = some ({ oneOfTwo with len := 0, log := [.freeFunc 8] }, none) ∧
      ¬ Law (fun _ => true) oneOfTwo (.remove 1 0) := by
  have hless : oneOfTwo.lenLess = 0 := by decide
  refine ⟨by rw [PtrArray.remove, hless]; rfl, ?_⟩
  rintro ⟨t, stolen, ht, hdoes⟩
  have hlen : t.elems.length = 1 := by rw [hdoes.elems]; decide
  rw [hdoes.holds.length_elems] at hlen
  exact oneOfTwo_holds.remove_len ht hlen

/-! ### Fast removal -/

/-- What is left after a fast removal, in another order. -/
theorem fast_perm {l : List ℕ} {position last : ℕ} (hpos : position < l.length) (hlast : l.getLast? = some last) :
    (l.set position last).dropLast.Perm (l.eraseIdx position) := by
  have hsplit : l.dropLast ++ [last] = l := List.dropLast_append_getLast? last hlast
  rw [← hsplit] at hpos ⊢
  generalize l.dropLast = front at hpos ⊢
  rw [List.length_append, List.length_singleton] at hpos
  rcases Nat.lt_or_ge position front.length with hlt | hge
  · rw [List.set_append_left _ _ hlt, List.dropLast_concat, List.eraseIdx_append_of_lt_length hlt]
    calc
      (front.set position last).Perm (last :: front.eraseIdx position) := List.set_perm_cons_eraseIdx hlt last
      _ |>.Perm (front.eraseIdx position ++ [last]) := (List.perm_append_singleton last _).symm
  · have heq : position = front.length := by omega
    rw [heq, List.set_append_right _ _ (Nat.le_refl _), List.eraseIdx_append_of_length_le (Nat.le_refl _),
      Nat.sub_self]
    simp

/-- **The law of fast removal**: the last element takes the place of the removed one, which is stolen or
destroyed; where there is nothing to remove nothing happens. -/
def FastLaw (s : PtrArray) (position steal : ℕ) : Prop :=
  ∃ t stolen, s.removeFast position steal = some (t, stolen) ∧ Does s t stolen (fastOnList s.elems position steal) ∧
    (position < s.elems.length → t.elems.Perm (s.elems.eraseIdx position))

/-- The block of a fast removal. -/
theorem Holds.fill_hole (h : Holds s) {position : ℕ} (hpos : position < s.len) (last : ℕ) :
    Does s { s with block := s.block.set position last, len := s.lenLess } none
      ⟨(s.elems.set position last).dropLast, [], none⟩ := by
  have hle := h.len_le
  have hless : s.lenLess = s.len - 1 := by rw [h.lenLess, if_neg (by omega)]
  refine ⟨⟨List.length_set.trans h.block, ?_, h.bytes⟩, ?_, (List.append_nil _).symm, rfl, rfl, rfl, rfl⟩
  · show s.lenLess ≤ s.size
    omega
  · show (s.block.set position last).take s.lenLess = _
    rw [List.dropLast_eq_take, List.length_set, h.length_elems, elems, ← List.take_set, List.take_take, hless,
      Nat.min_eq_left (Nat.sub_le _ _)]

/-- **Fast removal** obeys the law exactly where it is not asked for the position behind the last element, and
`steal` is the element itself where it is not NULL, and the element is not NULL where `steal` is. -/
theorem fastLaw_iff (h : Holds s) (position steal : ℕ) :
    FastLaw s position steal ↔
      position ≠ s.len ∧ ∀ data, s.elems[position]? = some data → (steal ≠ 0 ↔ steal = data) := by
  have hlen := h.length_elems
  unfold FastLaw fastOnList
  rcases Nat.lt_trichotomy position s.len with hlt | rfl | hgt
  · obtain ⟨data, hdata, helem⟩ := h.getElem?_eq hlt
    have hless : s.lenLess = s.len - 1 := by rw [h.lenLess, if_neg (by omega)]
    obtain ⟨last, hlast, hend⟩ := h.getElem?_eq (j := s.len - 1) (by omega)
    have hgetLast : s.elems.getLast? = some last := by rw [List.getLast?_eq_getElem?, hlen, hend]
    have hstore : position < s.block.length := by
      rw [h.block]
      exact Nat.lt_of_lt_of_le hlt h.len_le
    have hdoes := h.fill_hole hlt last
    have hperm := fast_perm (by rw [hlen]; exact hlt) hgetLast
    set t : PtrArray := { s with block := s.block.set position last, len := s.lenLess } with ht
    have htperm : t.elems.Perm (s.elems.eraseIdx position) := by
      rw [hdoes.elems]
      exact hperm
    have hcode : s.removeFast position steal =
        if steal = data then if steal = 0 then none else some (t, some data) else some (t.destroy data, none) := by
      unfold removeFast
      rw [if_neg (Nat.not_lt.mpr (Nat.le_of_lt hlt)), hdata, Option.bind_some, hless, hlast, Option.bind_some,
        storeAt_eq hstore, Option.bind_some, ht, hless]
    have hmeets : (position ≠ s.len ∧ ∀ data, s.elems[position]? = some data → (steal ≠ 0 ↔ steal = data)) ↔
        (steal ≠ 0 ↔ steal = data) := by
      rw [helem]
      exact ⟨fun hall => hall.2 data rfl, fun hiff => ⟨Nat.ne_of_lt hlt, fun _ heq => Option.some.inj heq ▸ hiff⟩⟩
    rw [hmeets, hcode, helem, hgetLast, Option.getD_some]
    dsimp only
    have hresult := hdoes.without data steal
    by_cases hsteal : steal = 0
    · rw [if_neg (not_not.mpr hsteal)] at hresult
      by_cases hdata0 : steal = data
      · rw [if_pos hdata0, if_pos hsteal]
        refine iff_of_false ?_ fun hiff => hiff.mpr hdata0 hsteal
        rintro ⟨_, _, hno, -⟩
        cases hno
      · rw [if_neg hdata0]
        refine iff_of_true ⟨_, _, rfl, hresult, fun _ => ?_⟩ (iff_of_false (not_not.mpr hsteal) hdata0)
        exact htperm
    · rw [if_pos hsteal] at hresult
      by_cases hdata0 : steal = data
      · rw [if_pos hdata0, if_neg hsteal]
        refine iff_of_true ⟨_, _, rfl, hresult, fun _ => ?_⟩ (iff_of_true hsteal hdata0)
        exact htperm
      · rw [if_neg hdata0]
        refine iff_of_false ?_ fun hiff => hdata0 (hiff.mp hsteal)
        rintro ⟨_, _, heq, hno, -⟩
        obtain ⟨-, rfl⟩ := Prod.mk.inj (Option.some.inj heq)
        have hstolen := hno.stolen
        rw [ListResult.without, if_pos hsteal] at hstolen
        cases hstolen
  · -- the array loses its last element, or memory is read that is not there
    refine iff_of_false ?_ fun hno => hno.1 rfl
    rintro ⟨t, stolen, ht, hdoes, -⟩
    have helems := hdoes.elems
    rw [List.getElem?_eq_none (Nat.le_of_eq hlen)] at helems
    have htlen : t.len = s.len := by rw [← hdoes.holds.length_elems, helems, hlen]
    unfold removeFast at ht
    rw [if_neg (Nat.lt_irrefl _)] at ht
    obtain ⟨data, -, ht⟩ := Option.bind_eq_some_iff.mp ht
    obtain ⟨last, -, ht⟩ := Option.bind_eq_some_iff.mp ht
    obtain ⟨block, -, ht⟩ := Option.bind_eq_some_iff.mp ht
    have hne := h.lenLess_ne
    dsimp only at ht
    have hless : t.len = s.lenLess := by
      split_ifs at ht
      · rw [← (Prod.mk.inj (Option.some.inj ht)).1]
      · rw [← (Prod.mk.inj (Option.some.inj ht)).1]
        rfl
    exact hne (hless.symm.trans htlen)
  · refine iff_of_true ⟨s, none, if_pos hgt, ?_, fun hno => absurd hno (by omega)⟩ ⟨Nat.ne_of_gt hgt, ?_⟩
    · rw [List.getElem?_eq_none (by omega)]
      exact h.does_self
    · intro data hdata
      rw [List.getElem?_eq_none (by omega)] at hdata
      cases hdata

/-- Without a place for it the element is destroyed. -/
theorem fastLaw_oneOfTwo : FastLaw oneOfTwo 0 0 := by
  refine (fastLaw_iff oneOfTwo_holds 0 0).mpr ⟨by decide, fun data hdata => ?_⟩
  obtain rfl := Option.some.inj hdata
  decide

/-- With a place for it the element is destroyed, too, and nothing is stored there. -/
theorem not_fastLaw_oneOfTwo :
    oneOfTwo.removeFast 0 100 = some ({ oneOfTwo with len := 0, log := [.freeFunc 7] }, none) ∧
      ¬ FastLaw oneOfTwo 0 100 := by
  have hcode : oneOfTwo.removeFast 0 100 = some ({ oneOfTwo with len := 0, log := [.freeFunc 7] }, none) := rfl
  refine ⟨hcode, ?_⟩
  rintro ⟨t, stolen, ht, hdoes, -⟩
  obtain ⟨-, rfl⟩ := Prod.mk.inj (Option.some.inj (hcode.symm.trans ht))
  exact absurd hdoes.stolen (by decide)

end PtrArray
end Fcitx
