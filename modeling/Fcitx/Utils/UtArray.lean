/-
# Arrays of elements

`fcitx-utils/utarray.h`: an array keeps its elements one behind the other at the start of a
block of memory, which is made larger by doubling. The functions of its `icd` fill a slot, fill
it from an element of the caller, or let go of what is in a slot; without them the bytes are
zeroed, copied, and left. An operation works on the bytes as the one on the list of the elements
does, and writes nothing behind the block (`UtArray.step_spec`).

An operation gives `none` where it hands NULL to a function. The sources of elements lie outside
of the array, and what a slot is filled with may depend on how many calls there were before. The
number of the slots is a `size_t` and wraps around; what is proved is about sizes for which it
does not (`UtArray.HasRoom`).

Key definitions: `UtIcd`, `UtArray`, `UtOp`, `UtArray.apply`, `UtArray.HasRoom`, `UtOp.onList`.
Key theorems: `UtArray.reserve_spec`, `UtArray.gap_spec`, `UtArray.step_spec`.
-/
import Fcitx.Utils.MsortR

namespace Fcitx

open MsortR

/-- `UT_icd` for elements of `s` bytes; the number is that of the calls before. -/
structure UtIcd (s : ℕ) where
  init : Option (ℕ → Elem s)
  copy : Option (ℕ → Elem s → Elem s)
  dtor : Bool

/-- A call of one of the functions. -/
inductive UtCall (s : ℕ) where
  | init (dst : Elem s)
  | copy (dst src : Elem s)
  | dtor (elt : Elem s)
deriving DecidableEq

/-- `UT_array`, with the calls that were made. -/
structure UtArray (s : ℕ) where
  i : ℕ
  n : ℕ
  icd : UtIcd s
  d : ByteMem
  calls : List (UtCall s)

variable {s : ℕ}

/-- Bytes that are zero. -/
def zeroElem (s : ℕ) : Elem s := List.Vector.replicate s 0

namespace UtIcd

/-- What a slot gets from an element of the caller. -/
def copied (icd : UtIcd s) (k : ℕ) (p : Elem s) : Elem s :=
  match icd.copy with
  | some copy => copy k p
  | none => p

/-- The call that a copy makes. -/
def copyCalls (icd : UtIcd s) (k : ℕ) (p : Elem s) : List (UtCall s) :=
  match icd.copy with
  | some copy => [.copy (copy k p) p]
  | none => []

/-- What slots get from elements of the caller, one after the other. -/
def copiedAll (icd : UtIcd s) : ℕ → List (Elem s) → List (Elem s)
  | _, [] => []
  | k, p :: ps => icd.copied k p :: copiedAll icd (k + 1) ps

def copyCallsAll (icd : UtIcd s) : ℕ → List (Elem s) → List (UtCall s)
  | _, [] => []
  | k, p :: ps => icd.copyCalls k p ++ copyCallsAll icd (k + 1) ps

end UtIcd

namespace UtArray

/-- `utarray_new`; the block is what `realloc` will give. -/
def new (icd : UtIcd s) (d : ByteMem) : UtArray s := ⟨0, 0, icd, d, []⟩

/-- The elements. -/
def contents (a : UtArray s) : List (Elem s) := elems s a.d 0 a.i

/-- `utarray_eltptr`, as an offset; `none` is NULL. -/
def eltptr (a : UtArray s) (j : ℕ) : Option ℕ := if j < a.i then some (j * s) else none

/-- `a->i -= len` -/
def lessen (i len : ℕ) : ℕ := if len ≤ i then i - len else i + 2 ^ 64 - len

/-- The loop of `utarray_reserve`, for `rounds` rounds at most; the size grows in each one that does not wrap. -/
def growLoop (need : ℕ) : ℕ → ℕ → ℕ
  | 0, n => n
  | rounds + 1, n => if need > n then growLoop need rounds (if n ≠ 0 then 2 * n % 2 ^ 64 else 8) else n

/-- `utarray_reserve`; the block has `n * s` bytes modulo `2 ^ 64`. -/
def reserve (a : UtArray s) (by' : ℕ) : UtArray s :=
  let need := (a.i + by') % 2 ^ 64
  { a with n := growLoop need need a.n }

/-- `memmove` of `count` elements to the slot `j` from the slot `k`. -/
def move (a : UtArray s) (j k count : ℕ) : UtArray s :=
  { a with d := memcpy a.d (j * s) a.d (k * s) (count * s) }

/-- `memcpy` to the slot `j`. -/
def put (a : UtArray s) (j : ℕ) (e : Elem s) : UtArray s := { a with d := a.d.store (j * s) e.1 }

/-- `icd->copy` to the slot `j`, or `memcpy`. -/
def copyTo (a : UtArray s) (j : ℕ) (p : Elem s) : UtArray s :=
  match a.icd.copy with
  | some copy =>
    let e := copy a.calls.length p
    { a.put j e with calls := a.calls ++ [.copy e p] }
  | none => a.put j p

/-- `icd->init` on the slot `j`. -/
def initAt (a : UtArray s) (init : ℕ → Elem s) (j : ℕ) : UtArray s :=
  let e := init a.calls.length
  { a.put j e with calls := a.calls ++ [.init e] }

/-- `icd->dtor` on what `utarray_eltptr` gives for `count` slots from `j` on. -/
def dtorLoop : ℕ → ℕ → UtArray s → Option (UtArray s)
  | 0, _, a => some a
  | count + 1, j, a => (a.eltptr j).bind fun p =>
    dtorLoop count (j + 1) { a with calls := a.calls ++ [.dtor (elemAt s a.d p)] }

/-- `icd->dtor`, if there is one. -/
def dtors (a : UtArray s) (j count : ℕ) : Option (UtArray s) :=
  if a.icd.dtor then dtorLoop count j a else some a

/-- `utarray_push_back` -/
def pushBack (a : UtArray s) (p : Elem s) : UtArray s :=
  let a := a.reserve 1
  { a.copyTo a.i p with i := a.i + 1 }

/-- `utarray_pop_back`; in an empty array it reads before the block. -/
def popBack (a : UtArray s) : Option (UtArray s) :=
  if a.icd.dtor then
    if a.i = 0 then none
    else some { a with i := a.i - 1, calls := a.calls ++ [.dtor (elemAt s a.d ((a.i - 1) * s))] }
  else some { a with i := lessen a.i 1 }

/-- `utarray_extend_back` -/
def extendBack (a : UtArray s) : UtArray s :=
  let a := a.reserve 1
  match a.icd.init with
  | some init => { a.initAt init a.i with i := a.i + 1 }
  | none => { a.put a.i (zeroElem s) with i := a.i + 1 }

/-- Makes room for `k` elements at `j`. -/
def gap (a : UtArray s) (j k : ℕ) : UtArray s := if j < a.i then a.move (j + k) j (a.i - j) else a

/-- `utarray_push_front` -/
def pushFront (a : UtArray s) (p : Elem s) : UtArray s :=
  let a := (a.reserve 1).gap 0 1
  { a.copyTo 0 p with i := a.i + 1 }

/-- `utarray_insert` -/
def insert (a : UtArray s) (p : Elem s) (j : ℕ) : UtArray s :=
  let a := a.reserve 1
  if j > a.i then a
  else
    let a := a.gap j 1
    { a.copyTo j p with i := a.i + 1 }

/-- `utarray_move`; what is between is moved by one. -/
def moveElt (a : UtArray s) (f t : ℕ) : UtArray s :=
  if f ≥ a.i then a
  else if t ≥ a.i then a
  else if f = t then a
  else
    let temp := elemAt s a.d (f * s)
    if f > t then (a.move (t + 1) t (f - t)).put t temp else (a.move f (f + 1) (t - f)).put t temp

/-- The loop of `utarray_inserta` and `utarray_clone`: copies `count` elements of `w` from `k` on. -/
def copyLoop (w : UtArray s) (j : ℕ) : ℕ → ℕ → UtArray s → UtArray s
  | 0, _, a => a
  | count + 1, k, a => copyLoop w j count (k + 1) (a.copyTo (j + k) (elemAt s w.d (k * s)))

/-- `icd->copy` of the elements of `w`, or `memcpy`. -/
def copyAll (a : UtArray s) (w : UtArray s) (j : ℕ) : UtArray s :=
  if a.icd.copy.isSome then copyLoop w j w.i 0 a
  else { a with d := memcpy a.d (j * s) w.d (0 * s) (w.i * s) }

/-- `utarray_inserta` -/
def inserta (a w : UtArray s) (j : ℕ) : UtArray s :=
  if w.i = 0 then a
  else if j > a.i then a
  else
    let a := (a.reserve w.i).gap j w.i
    { a.copyAll w j with i := a.i + w.i }

/-- `utarray_resize`; `init` is given NULL, for the new slots are not counted yet. -/
def resize (dst : UtArray s) (num : ℕ) : Option (UtArray s) :=
  if dst.i > num then (dst.dtors num (dst.i - num)).map fun dst => { dst with i := num }
  else if dst.i < num then
    let dst := dst.reserve (num - dst.i)
    match dst.icd.init with
    | some _ => none
    | none =>
      some { dst with
        d := dst.d.store (dst.i * s) (List.replicate (s * (num - dst.i)) 0)
        i := num }
  else some dst

/-- `utarray_erase` -/
def erase (a : UtArray s) (pos len : ℕ) : Option (UtArray s) :=
  (a.dtors pos len).map fun a =>
    let a := if a.i > pos + len then a.move pos (pos + len) (a.i - (pos + len)) else a
    { a with i := lessen a.i len }

/-- `utarray_remove_quick` -/
def removeQuick (a : UtArray s) (pos : ℕ) : UtArray s :=
  let a := if lessen a.i 1 ≠ pos then a.move pos (lessen a.i 1) 1 else a
  { a with i := lessen a.i 1 }

/-- `utarray_remove_quick_full` -/
def removeQuickFull (a : UtArray s) (pos : ℕ) : Option (UtArray s) := (a.dtors pos 1).map (·.removeQuick pos)

/-- `utarray_clear` -/
def clear (a : UtArray s) : Option (UtArray s) :=
  if a.i > 0 then (a.dtors 0 a.i).map fun a => { a with i := 0 } else some a

/-- `utarray_done` -/
def done (a : UtArray s) : Option (UtArray s) :=
  if a.n ≠ 0 then (a.dtors 0 a.i).map fun a => { a with n := 0 } else some { a with n := 0 }

/-- `utarray_clone`; `d` is what `realloc` gives. -/
def clone (source : UtArray s) (d : ByteMem) : UtArray s :=
  let dest := new source.icd d
  if source.i = 0 then dest
  else { (dest.reserve source.i).copyAll source 0 with i := source.i }

end UtArray

/-! ### Lists of elements -/

section lists

variable {m m' : ByteMem} {b n k : ℕ}

theorem insertIdx_of_le {A : Type} {l : List A} {j : ℕ} (hj : j ≤ l.length) (x : A) :
    l.insertIdx j x = l.take j ++ [x] ++ l.drop j := by
  induction l generalizing j with
  | nil =>
    obtain rfl := Nat.le_zero.mp hj
    rfl
  | cons y l ih =>
    cases j with
    | zero => rfl
    | succ j =>
      rw [List.insertIdx_succ_cons, ih (Nat.le_of_succ_le_succ hj), List.take_succ_cons, List.drop_succ_cons]
      rfl

theorem elems_take (s : ℕ) (m : ByteMem) (b : ℕ) (h : k ≤ n) : (elems s m b n).take k = elems s m b k := by
  obtain ⟨r, rfl⟩ := Nat.exists_eq_add_of_le h
  rw [elems_add, List.take_left' (length_elems ..)]

theorem elems_drop (s : ℕ) (m : ByteMem) (b : ℕ) (h : k ≤ n) :
    (elems s m b n).drop k = elems s m (b + k * s) (n - k) := by
  obtain ⟨r, rfl⟩ := Nat.exists_eq_add_of_le h
  rw [elems_add, List.drop_left' (length_elems ..), Nat.add_sub_cancel_left]

theorem elemAt_store (m : ByteMem) (p : ℕ) (e : Elem s) : elemAt s (m.store p e.1) p = e :=
  Subtype.ext (ByteMem.load_store e.2.symm)

theorem sameOutside_store (m : ByteMem) {bs : List UInt8} (hlen : bs.length = n * s) :
    SameOutside s b n m (m.store b bs) := fun a ha => by
  refine ByteMem.store_of_notMem ?_
  rw [hlen]
  exact ha

theorem sameOutside_memcpy (m src : ByteMem) (b q n : ℕ) :
    SameOutside s b n m (memcpy m b src q (n * s)) := fun a ha => by
  rw [memcpy_apply, if_neg (by omega)]

end lists

namespace UtArray

variable {a a' : UtArray s} {l es : List (Elem s)} {d₀ : ByteMem} {j k n : ℕ} {e p : Elem s}

/-- The array has the elements of the list, in its block, whose size did not wrap. -/
structure Holds (d₀ : ByteMem) (a : UtArray s) (l : List (Elem s)) : Prop where
  contents : a.contents = l
  room : a.i ≤ a.n
  slots_lt : a.n < 2 ^ 64
  bytes_lt : a.n * s < 2 ^ 64
  outside : ∀ x, a.n * s ≤ x → a.d x = d₀ x

theorem Holds.length (H : Holds d₀ a l) : l.length = a.i := by
  rw [← H.contents, UtArray.contents, length_elems]

theorem Holds.take (H : Holds d₀ a l) (hj : j ≤ a.i) : elems s a.d 0 j = l.take j := by
  rw [← H.contents, UtArray.contents, elems_take s a.d 0 hj]

theorem Holds.drop (H : Holds d₀ a l) (hj : j ≤ a.i) : elems s a.d (j * s) (a.i - j) = l.drop j := by
  rw [← H.contents, UtArray.contents, elems_drop s a.d 0 hj, Nat.zero_add]

theorem Holds.slot (H : Holds d₀ a l) (hj : j < l.length) : l[j]? = some (elemAt s a.d (j * s)) := by
  have hi : j < a.i := H.length ▸ hj
  rw [← H.contents, UtArray.contents, elems, List.getElem?_map, List.getElem?_range hi, Option.map_some, Nat.zero_add]

theorem new_holds (icd : UtIcd s) (d : ByteMem) : Holds d (new icd d) [] :=
  have hbytes : (new icd d).n * s = 0 := Nat.zero_mul s
  ⟨rfl, Nat.le_refl 0, Nat.two_pow_pos 64, hbytes ▸ Nat.two_pow_pos 64, fun _ _ => rfl⟩

/-! ### Room -/

/-- Slots for `need` elements, also if they are doubled, fit into a `size_t`, and so do their bytes. -/
def HasRoom (s need : ℕ) : Prop := max 8 (2 * need) < 2 ^ 64 ∧ max 8 (2 * need) * s < 2 ^ 64

instance (s need : ℕ) : Decidable (HasRoom s need) := inferInstanceAs (Decidable (_ ∧ _))

/-- Doubling goes on to what is asked for, and less than twice as far. -/
theorem growLoop_spec {need : ℕ} (hneed : max 8 (2 * need) < 2 ^ 64) (rounds n : ℕ) :
    n ≤ growLoop need rounds n ∧ growLoop need rounds n ≤ max n (max 8 (2 * need)) ∧
      (need ≤ n + rounds → need ≤ growLoop need rounds n) := by
  induction rounds generalizing n with
  | zero => exact ⟨Nat.le_refl n, Nat.le_max_left _ _, fun h => h⟩
  | succ rounds ih =>
    rw [growLoop]
    split
    · next hmore =>
      have hnext : (if n ≠ 0 then 2 * n % 2 ^ 64 else 8) = if n ≠ 0 then 2 * n else 8 := by
        rw [Nat.mod_eq_of_lt (by omega)]
      rw [hnext]
      obtain ⟨hle, hmax, hreach⟩ := ih (if n ≠ 0 then 2 * n else 8)
      have hgrow : n + 1 ≤ if n ≠ 0 then 2 * n else 8 := by split <;> omega
      have htop : (if n ≠ 0 then 2 * n else 8) ≤ max 8 (2 * need) := by split <;> omega
      exact ⟨by omega, by omega, fun h => hreach (by omega)⟩
    · exact ⟨Nat.le_refl n, Nat.le_max_left _ _, fun _ => by omega⟩

/-- **There is room** for the elements that were asked for, and its size did not wrap. -/
theorem reserve_spec (H : Holds d₀ a l) {by' : ℕ} (hroom : HasRoom s (l.length + by')) :
    Holds d₀ (a.reserve by') l ∧ a.i + by' ≤ (a.reserve by').n := by
  obtain ⟨hslots, hbytes⟩ := hroom
  rw [H.length] at hslots hbytes
  have hneed : (a.i + by') % 2 ^ 64 = a.i + by' := Nat.mod_eq_of_lt (by omega)
  have hn : (a.reserve by').n = growLoop (a.i + by') (a.i + by') a.n := by
    rw [reserve, hneed]
  obtain ⟨hle, hmax, hreach⟩ := growLoop_spec hslots (a.i + by') a.n
  rw [← hn] at hle hmax hreach
  refine ⟨⟨H.contents, H.room.trans hle, ?_, ?_, fun x hx => H.outside x ?_⟩, hreach (Nat.le_add_left _ _)⟩
  · have hslots' := H.slots_lt
    omega
  · rcases le_max_iff.mp hmax with hold | hnew
    · exact (Nat.mul_le_mul_right s hold).trans_lt H.bytes_lt
    · exact (Nat.mul_le_mul_right s hnew).trans_lt hbytes
  · exact (Nat.mul_le_mul_right s hle).trans hx

/-- **A gap** of `k` slots: what is before and what was behind it. -/
theorem gap_spec (H : Holds d₀ a l) (hj : j ≤ a.i) (k : ℕ) :
    elems s (a.gap j k).d 0 j = l.take j ∧ elems s (a.gap j k).d ((j + k) * s) (a.i - j) = l.drop j ∧
      SameOutside s ((j + k) * s) (a.i - j) a.d (a.gap j k).d := by
  rw [gap]
  split
  · have hout := sameOutside_memcpy (s := s) a.d a.d ((j + k) * s) (j * s) (a.i - j)
    refine ⟨?_, ?_, hout⟩
    · have hle : j * s ≤ (j + k) * s := Nat.mul_le_mul_right s (Nat.le_add_right j k)
      rw [← H.take hj]
      exact hout.elems_eq (Or.inl (by omega))
    · rw [← H.drop hj]
      exact elems_memcpy a.d a.d _ _ _
  · next hlt =>
    have hzero : a.i - j = 0 := by omega
    rw [hzero]
    refine ⟨H.take hj, ?_, SameOutside.refl s _ 0 a.d⟩
    rw [elems_zero, List.drop_eq_nil_of_le (by rw [H.length]; omega)]

/-- **Filling the gap** puts the elements into the list. -/
theorem Holds.filled (H : Holds d₀ a l) (hj : j ≤ a.i) (hroom : a.i + k ≤ a.n) (hn : a'.n = a.n) (hi : a'.i = a.i + k)
    (hout : SameOutside s (j * s) k (a.gap j k).d a'.d) (hes : elems s a'.d (j * s) k = es) :
    Holds d₀ a' (l.take j ++ es ++ l.drop j) := by
  obtain ⟨htake, hdrop, hgap⟩ := gap_spec H hj k
  have hsplit : a.i + k = j + k + (a.i - j) := by omega
  have hend : (a.i + k) * s = (j + k) * s + (a.i - j) * s := by rw [hsplit, Nat.add_mul (j + k)]
  have hmid : (j + k) * s = j * s + k * s := Nat.add_mul j k s
  have hblock : (a.i + k) * s ≤ a.n * s := Nat.mul_le_mul_right s hroom
  refine ⟨?_, by rw [hi, hn]; exact hroom, hn ▸ H.slots_lt, hn ▸ H.bytes_lt, fun x hx => ?_⟩
  · rw [UtArray.contents, hi, hsplit, elems_add, elems_add, Nat.zero_add, Nat.zero_add, hes,
      hout.elems_eq (Or.inl (by omega)), hout.elems_eq (Or.inr (by omega)), htake, hdrop]
  · rw [hn] at hx
    rw [hout x (Or.inr (by omega)), hgap x (Or.inr (by omega)), H.outside x hx]

/-- **Closing a gap** takes the elements out of the list. -/
theorem Holds.closed (H : Holds d₀ a l) {pos len : ℕ} (hpos : pos + len ≤ a.i) (hn : a'.n = a.n)
    (hi : a'.i = a.i - len) (hout : SameOutside s (pos * s) (a.i - (pos + len)) a.d a'.d)
    (hes : elems s a'.d (pos * s) (a.i - (pos + len)) = l.drop (pos + len)) :
    Holds d₀ a' (l.take pos ++ l.drop (pos + len)) := by
  have hsplit : a.i - len = pos + (a.i - (pos + len)) := by omega
  have hend : (a.i - len) * s = pos * s + (a.i - (pos + len)) * s := by rw [hsplit, Nat.add_mul]
  have hblock : (a.i - len) * s ≤ a.n * s := Nat.mul_le_mul_right s ((Nat.sub_le _ _).trans H.room)
  refine ⟨?_, by rw [hi, hn]; exact (Nat.sub_le _ _).trans H.room, hn ▸ H.slots_lt, hn ▸ H.bytes_lt, fun x hx => ?_⟩
  · rw [UtArray.contents, hi, hsplit, elems_add, Nat.zero_add, hes, hout.elems_eq (Or.inl (by omega)),
      H.take (by omega)]
  · rw [hn] at hx
    rw [hout x (Or.inr (by omega)), H.outside x hx]


/-! ### Filling slots -/

/-- A copy fills one slot, and is a call if there is a function for it. -/
theorem copyTo_eq (a : UtArray s) (j : ℕ) (p : Elem s) :
    a.copyTo j p = { a with
      d := a.d.store (j * s) (a.icd.copied a.calls.length p).1
      calls := a.calls ++ a.icd.copyCalls a.calls.length p } := by
  cases hcopy : a.icd.copy with
  | none => simp only [copyTo, UtIcd.copied, UtIcd.copyCalls, hcopy, put, List.append_nil]
  | some copy => simp only [copyTo, UtIcd.copied, UtIcd.copyCalls, hcopy, put]

theorem copiedAll_of_none {icd : UtIcd s} (h : icd.copy = none) (k : ℕ) (ps : List (Elem s)) :
    icd.copiedAll k ps = ps ∧ icd.copyCallsAll k ps = [] := by
  induction ps generalizing k with
  | nil => exact ⟨rfl, rfl⟩
  | cons p ps ih =>
    obtain ⟨hes, hcalls⟩ := ih (k + 1)
    simp only [UtIcd.copiedAll, UtIcd.copyCallsAll, hes, hcalls, UtIcd.copied, UtIcd.copyCalls, h, List.append_nil,
      and_self]

theorem length_copiedAll (icd : UtIcd s) (k : ℕ) (ps : List (Elem s)) : (icd.copiedAll k ps).length = ps.length := by
  induction ps generalizing k with
  | nil => rfl
  | cons p ps ih => rw [UtIcd.copiedAll, List.length_cons, List.length_cons, ih]

/-- What a fill does: it changes the slots from `j` on, and makes calls. -/
structure Fills (a a' : UtArray s) (j : ℕ) (es : List (Elem s)) (calls : List (UtCall s)) : Prop where
  i : a'.i = a.i
  n : a'.n = a.n
  icd : a'.icd = a.icd
  calls : a'.calls = a.calls ++ calls
  slots : elems s a'.d (j * s) es.length = es
  outside : SameOutside s (j * s) es.length a.d a'.d

theorem store_fills (a : UtArray s) (j : ℕ) (e : Elem s) (calls : List (UtCall s)) :
    Fills a { a with d := a.d.store (j * s) e.1, calls := a.calls ++ calls } j [e] calls := by
  refine ⟨rfl, rfl, rfl, rfl, ?_, sameOutside_store a.d ?_⟩
  · rw [List.length_singleton, elems_one, elemAt_store]
  · rw [List.length_singleton, Nat.one_mul]
    exact e.2

theorem copyTo_fills (a : UtArray s) (j : ℕ) (p : Elem s) :
    Fills a (a.copyTo j p) j [a.icd.copied a.calls.length p] (a.icd.copyCalls a.calls.length p) := by
  rw [copyTo_eq]
  exact store_fills a j _ _

/-- A fill behind another one. -/
theorem Fills.trans {a₁ a₂ : UtArray s} {es' : List (Elem s)} {calls calls' : List (UtCall s)}
    (F : Fills a a₁ j es calls) (F' : Fills a₁ a₂ (j + es.length) es' calls') :
    Fills a a₂ j (es ++ es') (calls ++ calls') := by
  have hmid : (j + es.length) * s = j * s + es.length * s := Nat.add_mul j es.length s
  have hend : (es.length + es'.length) * s = es.length * s + es'.length * s := Nat.add_mul _ _ s
  refine ⟨F'.i.trans F.i, F'.n.trans F.n, F'.icd.trans F.icd, ?_, ?_, ?_⟩
  · rw [F'.calls, F.calls, List.append_assoc]
  · rw [List.length_append, elems_add, ← hmid, F'.slots, F'.outside.elems_eq (Or.inl (by omega)), F.slots]
  · rw [List.length_append]
    exact (F.outside.mono (Nat.le_refl _) (by omega)).trans (F'.outside.mono (by omega) (by omega))

theorem copyLoop_fills (w : UtArray s) (j count k : ℕ) (a : UtArray s) (hcopy : a.icd.copy.isSome) :
    Fills a (copyLoop w j count k a) (j + k) (a.icd.copiedAll a.calls.length (elems s w.d (k * s) count))
      (a.icd.copyCallsAll a.calls.length (elems s w.d (k * s) count)) := by
  induction count generalizing k a with
  | zero =>
    rw [elems_zero, copyLoop, UtIcd.copiedAll, UtIcd.copyCallsAll]
    exact ⟨rfl, rfl, rfl, (List.append_nil _).symm, rfl, SameOutside.refl s _ 0 _⟩
  | succ count ih =>
    have F := copyTo_fills a (j + k) (elemAt s w.d (k * s))
    have hlen : (a.copyTo (j + k) (elemAt s w.d (k * s))).calls.length = a.calls.length + 1 := by
      obtain ⟨copy, hsome⟩ := Option.isSome_iff_exists.mp hcopy
      rw [F.calls, List.length_append, UtIcd.copyCalls, hsome]
      rfl
    have F' := ih (k + 1) (a.copyTo (j + k) (elemAt s w.d (k * s))) (F.icd ▸ hcopy)
    rw [F.icd, hlen, Nat.succ_mul] at F'
    rw [copyLoop, elems_succ_front, UtIcd.copiedAll, UtIcd.copyCallsAll, ← List.singleton_append]
    exact F.trans F'

/-- **The elements of another array** are copied one by one, or their bytes are. -/
theorem copyAll_fills (a w : UtArray s) (j : ℕ) :
    Fills a (a.copyAll w j) j (a.icd.copiedAll a.calls.length w.contents)
      (a.icd.copyCallsAll a.calls.length w.contents) := by
  rw [copyAll]
  split
  · next hcopy =>
    have F := copyLoop_fills w j w.i 0 a hcopy
    rw [Nat.zero_mul, Nat.add_zero] at F
    exact F
  · next hcopy =>
    obtain ⟨hes, hcalls⟩ := copiedAll_of_none (Option.not_isSome_iff_eq_none.mp hcopy) a.calls.length w.contents
    rw [hes, hcalls, Nat.zero_mul]
    refine ⟨rfl, rfl, rfl, (List.append_nil _).symm, ?_, ?_⟩
    · rw [contents, length_elems]
      exact elems_memcpy a.d w.d _ _ _
    · rw [contents, length_elems]
      exact sameOutside_memcpy a.d w.d _ _ _

/-- **A fill of a gap** puts the elements into the list. -/
theorem Fills.holds {calls : List (UtCall s)} (F : Fills (a.gap j k) a' j es calls) (hlen : es.length = k)
    (H : Holds d₀ a l) (hj : j ≤ a.i) (hroom : a.i + k ≤ a.n) :
    Holds d₀ { a' with i := a.i + k } (l.take j ++ es ++ l.drop j) := by
  subst hlen
  exact H.filled hj hroom (F.n.trans (by rw [gap]; split <;> rfl)) rfl F.outside F.slots

/-- **A clone** has the copies of the elements. -/
theorem clone_holds (source : UtArray s) (d : ByteMem) (hroom : HasRoom s source.i) :
    Holds d (source.clone d) (source.icd.copiedAll 0 source.contents) := by
  rw [clone]
  dsimp only
  by_cases hzero : source.i = 0
  · have hnil : source.contents = [] := by rw [contents, hzero, elems_zero]
    rw [if_pos hzero, hnil]
    exact new_holds source.icd d
  · obtain ⟨H, hroom⟩ := reserve_spec (new_holds source.icd d) (by simpa using hroom)
    have hgap : ((new source.icd d).reserve source.i).gap 0 source.i = (new source.icd d).reserve source.i :=
      if_neg (Nat.lt_irrefl 0)
    have F : Fills (((new source.icd d).reserve source.i).gap 0 source.i)
        (((new source.icd d).reserve source.i).copyAll source 0) 0 (source.icd.copiedAll 0 source.contents)
        (source.icd.copyCallsAll 0 source.contents) := by
      rw [hgap]
      exact copyAll_fills ((new source.icd d).reserve source.i) source 0
    have hlen : (source.icd.copiedAll 0 source.contents).length = source.i := by
      rw [length_copiedAll, contents, length_elems]
    have hold := F.holds hlen H (Nat.zero_le _) hroom
    rw [List.take_nil, List.drop_nil, List.nil_append, List.append_nil] at hold
    rw [if_neg hzero]
    rwa [show ((new source.icd d).reserve source.i).i + source.i = source.i from Nat.zero_add _] at hold

/-! ### Letting go -/

/-- The calls for elements that are let go. -/
def dtorCalls (icd : UtIcd s) (es : List (Elem s)) : List (UtCall s) := if icd.dtor then es.map .dtor else []

theorem dtorLoop_eq (count j : ℕ) (a : UtArray s) (hj : j + count ≤ a.i) :
    dtorLoop count j a = some { a with calls := a.calls ++ (elems s a.d (j * s) count).map .dtor } := by
  induction count generalizing j a with
  | zero => rw [dtorLoop, elems_zero, List.map_nil, List.append_nil]
  | succ count ih =>
    rw [dtorLoop, eltptr, if_pos (by omega), Option.bind_some, ih (j + 1) _ (by simpa using by omega),
      elems_succ_front, List.map_cons, Nat.succ_mul, List.append_assoc, List.singleton_append]

/-- **Slots that are let go** are those of the list. -/
theorem dtors_eq (H : Holds d₀ a l) {count : ℕ} (hj : j + count ≤ a.i) :
    a.dtors j count = some { a with calls := a.calls ++ dtorCalls a.icd ((l.drop j).take count) } := by
  have hslots : elems s a.d (j * s) count = (l.drop j).take count := by
    rw [← H.drop (by omega), elems_take s a.d _ (by omega)]
  rw [dtors, dtorCalls]
  split
  · rw [dtorLoop_eq count j a hj, hslots]
  · rw [List.append_nil]

/-! ### Operations -/

end UtArray

/-- An operation on the array. -/
inductive UtOp (s : ℕ) where
  | reserve (by' : ℕ)
  | pushBack (p : Elem s)
  | popBack
  | extendBack
  | pushFront (p : Elem s)
  | insert (p : Elem s) (j : ℕ)
  | inserta (w : UtArray s) (j : ℕ)
  | move (f t : ℕ)
  | resize (num : ℕ)
  | erase (pos len : ℕ)
  | removeQuick (pos : ℕ)
  | removeQuickFull (pos : ℕ)
  | clear

namespace UtArray

def apply (a : UtArray s) : UtOp s → Option (UtArray s)
  | .reserve by' => some (a.reserve by')
  | .pushBack p => some (a.pushBack p)
  | .popBack => a.popBack
  | .extendBack => some a.extendBack
  | .pushFront p => some (a.pushFront p)
  | .insert p j => some (a.insert p j)
  | .inserta w j => some (a.inserta w j)
  | .move f t => some (a.moveElt f t)
  | .resize num => a.resize num
  | .erase pos len => a.erase pos len
  | .removeQuick pos => some (a.removeQuick pos)
  | .removeQuickFull pos => a.removeQuickFull pos
  | .clear => a.clear

end UtArray

namespace UtIcd

/-- What a new slot gets. -/
def blank (icd : UtIcd s) (k : ℕ) : Elem s :=
  match icd.init with
  | some init => init k
  | none => zeroElem s

def blankCalls (icd : UtIcd s) (k : ℕ) : List (UtCall s) :=
  match icd.init with
  | some init => [.init (init k)]
  | none => []

end UtIcd

namespace UtOp

/-- The operation on the list of the elements, after `k` calls. -/
def onList (icd : UtIcd s) (k : ℕ) (l : List (Elem s)) : UtOp s → List (Elem s)
  | .reserve _ => l
  | .pushBack p => l ++ [icd.copied k p]
  | .popBack => l.dropLast
  | .extendBack => l ++ [icd.blank k]
  | .pushFront p => icd.copied k p :: l
  | .insert p j => l.insertIdx j (icd.copied k p)
  | .inserta w j => if j > l.length then l else l.take j ++ icd.copiedAll k w.contents ++ l.drop j
  | .move f t => if f < l.length ∧ t < l.length then (l.eraseIdx f).insertIdx t (l.getD f (zeroElem s)) else l
  | .resize num => l.take num ++ List.replicate (num - l.length) (zeroElem s)
  | .erase pos len => l.take pos ++ l.drop (pos + len)
  | .removeQuick pos | .removeQuickFull pos => (l.set pos (l.getLastD (zeroElem s))).dropLast
  | .clear => []

/-- The elements that slots are filled with. -/
def filled (icd : UtIcd s) (k : ℕ) (l : List (Elem s)) : UtOp s → List (Elem s)
  | .pushBack p | .pushFront p => [icd.copied k p]
  | .extendBack => [icd.blank k]
  | .insert p j => if j > l.length then [] else [icd.copied k p]
  | .inserta w j => if j > l.length then [] else icd.copiedAll k w.contents
  | .resize num => List.replicate (num - l.length) (zeroElem s)
  | _ => []

/-- The calls that fill slots. -/
def fillCalls (icd : UtIcd s) (k : ℕ) (l : List (Elem s)) : UtOp s → List (UtCall s)
  | .pushBack p | .pushFront p => icd.copyCalls k p
  | .extendBack => icd.blankCalls k
  | .insert p j => if j > l.length then [] else icd.copyCalls k p
  | .inserta w j => if j > l.length then [] else icd.copyCallsAll k w.contents
  | _ => []

/-- The elements that are let go. -/
def released (l : List (Elem s)) : UtOp s → List (Elem s)
  | .popBack => l.getLast?.toList
  | .resize num => l.drop num
  | .erase pos len => (l.drop pos).take len
  | .removeQuickFull pos => (l.drop pos).take 1
  | .clear => l
  | _ => []

/-- The elements that are left to the caller. -/
def taken (l : List (Elem s)) : UtOp s → List (Elem s)
  | .removeQuick pos => (l.drop pos).take 1
  | _ => []

/-- The caller gives places that are in the array, `init` is not there where slots are added by `resize`, and the sizes
fit. -/
def Allowed (icd : UtIcd s) (l : List (Elem s)) : UtOp s → Prop
  | .reserve by' => UtArray.HasRoom s (l.length + by')
  | .pushBack _ | .extendBack | .pushFront _ | .insert _ _ => UtArray.HasRoom s (l.length + 1)
  | .inserta w _ => UtArray.HasRoom s (l.length + w.i)
  | .resize num => (num ≤ l.length ∨ icd.init = none) ∧ UtArray.HasRoom s (max num l.length)
  | .popBack => l ≠ []
  | .erase pos len => pos + len ≤ l.length
  | .removeQuick pos | .removeQuickFull pos => pos < l.length
  | .move _ _ | .clear => True

end UtOp

namespace UtArray

variable {a a' : UtArray s} {l es : List (Elem s)} {d₀ : ByteMem} {j k n : ℕ} {e p : Elem s} {op : UtOp s}

/-- What an operation leaves. -/
structure Stepped (d₀ : ByteMem) (a : UtArray s) (l : List (Elem s)) (op : UtOp s) (a' : UtArray s) : Prop where
  holds : Holds d₀ a' (op.onList a.icd a.calls.length l)
  icd : a'.icd = a.icd
  calls : a'.calls = a.calls ++ op.fillCalls a.icd a.calls.length l ++ dtorCalls a.icd (op.released l)

theorem dtorCalls_nil (icd : UtIcd s) : dtorCalls icd [] = [] := by
  rw [dtorCalls]
  split <;> rfl

theorem gap_same (a : UtArray s) (j k : ℕ) :
    (a.gap j k).i = a.i ∧ (a.gap j k).icd = a.icd ∧ (a.gap j k).calls = a.calls := by
  rw [gap]
  split <;> exact ⟨rfl, rfl, rfl⟩

theorem gap_end (a : UtArray s) (k : ℕ) : a.gap a.i k = a := if_neg (Nat.lt_irrefl _)

/-- **Filling** is all that some operations do. -/
theorem Fills.stepped {calls : List (UtCall s)} (F : Fills (a.gap j k) a' j es calls) (hlen : es.length = k)
    (H : Holds d₀ a l) (hj : j ≤ a.i) (hroom : a.i + k ≤ a.n) (op : UtOp s)
    (hlist : op.onList a.icd a.calls.length l = l.take j ++ es ++ l.drop j)
    (hfill : op.fillCalls a.icd a.calls.length l = calls) (hno : op.released l = []) :
    Stepped d₀ a l op { a' with i := a.i + k } := by
  obtain ⟨-, hicd, hcalls⟩ := gap_same a j k
  refine ⟨?_, F.icd.trans hicd, ?_⟩
  · rw [hlist]
    exact F.holds hlen H hj hroom
  · show a'.calls = _
    rw [F.calls, hcalls, hfill, hno, dtorCalls_nil, List.append_nil]

/-- Some operations do nothing. -/
theorem Stepped.same (H : Holds d₀ a l) (op : UtOp s) (hlist : op.onList a.icd a.calls.length l = l)
    (hfill : op.fillCalls a.icd a.calls.length l = []) (hno : op.released l = []) : Stepped d₀ a l op a := by
  refine ⟨?_, rfl, ?_⟩
  · rw [hlist]
    exact H
  · rw [hfill, hno, dtorCalls_nil, List.append_nil, List.append_nil]

/-- Making room is no step of its own. -/
theorem Stepped.of_reserve (S : Stepped d₀ (a.reserve k) l op a') : Stepped d₀ a l op a' := ⟨S.holds, S.icd, S.calls⟩

/-- Filling the slot behind the last element. -/
theorem Fills.stepped_end {calls : List (UtCall s)} {e : Elem s} (F : Fills (a.reserve 1) a' a.i [e] calls)
    (H : Holds d₀ a l) (hroom : HasRoom s (l.length + 1)) (op : UtOp s)
    (hlist : op.onList a.icd a.calls.length l = l ++ [e]) (hfill : op.fillCalls a.icd a.calls.length l = calls)
    (hno : op.released l = []) :
    Stepped d₀ a l op { a' with i := a.i + 1 } := by
  obtain ⟨H', hroom⟩ := reserve_spec H hroom
  have F' : Fills ((a.reserve 1).gap a.i 1) a' a.i [e] calls := by
    rw [show (a.reserve 1).gap a.i 1 = a.reserve 1 from gap_end (a.reserve 1) 1]
    exact F
  have hsplit : op.onList a.icd a.calls.length l = l.take a.i ++ [e] ++ l.drop a.i := by
    rw [← H.length, List.take_length, List.drop_length, List.append_nil, hlist]
  exact (F'.stepped rfl H' (Nat.le_refl _) hroom op hsplit hfill hno).of_reserve

theorem pushBack_stepped (H : Holds d₀ a l) (hroom : HasRoom s (l.length + 1)) (p : Elem s) :
    Stepped d₀ a l (.pushBack p) (a.pushBack p) :=
  (copyTo_fills (a.reserve 1) a.i p).stepped_end H hroom (.pushBack p) rfl rfl rfl

theorem extendBack_stepped (H : Holds d₀ a l) (hroom : HasRoom s (l.length + 1)) :
    Stepped d₀ a l .extendBack a.extendBack := by
  have F := store_fills (a.reserve 1) a.i (a.icd.blank a.calls.length) (a.icd.blankCalls a.calls.length)
  have S := F.stepped_end H hroom .extendBack rfl rfl rfl
  rw [UtIcd.blank, UtIcd.blankCalls] at S
  rw [extendBack]
  dsimp only
  show Stepped d₀ a l .extendBack (match a.icd.init with | some init => _ | none => _)
  cases hinit : a.icd.init with
  | some init =>
    rw [hinit] at S
    exact S
  | none =>
    rw [hinit, List.append_nil] at S
    exact S

theorem pushFront_stepped (H : Holds d₀ a l) (hroom : HasRoom s (l.length + 1)) (p : Elem s) :
    Stepped d₀ a l (.pushFront p) (a.pushFront p) := by
  obtain ⟨H', hroom⟩ := reserve_spec H hroom
  have F := copyTo_fills ((a.reserve 1).gap 0 1) 0 p
  obtain ⟨hi, hicd, hcalls⟩ := gap_same (a.reserve 1) 0 1
  rw [hicd, hcalls] at F
  rw [pushFront, hi]
  exact (F.stepped rfl H' (Nat.zero_le _) hroom (.pushFront p) rfl rfl rfl).of_reserve

theorem insert_stepped (H : Holds d₀ a l) (hroom : HasRoom s (l.length + 1)) (p : Elem s) (j : ℕ) :
    Stepped d₀ a l (.insert p j) (a.insert p j) := by
  obtain ⟨H', hroom⟩ := reserve_spec H hroom
  rw [insert]
  dsimp only
  by_cases hj : j > (a.reserve 1).i
  · have hout : j > l.length := by rwa [H'.length]
    rw [if_pos hj]
    exact (Stepped.same H' (.insert p j) (List.insertIdx_of_length_lt hout) (if_pos hout) rfl).of_reserve
  · have hin : j ≤ l.length := by
      rw [H'.length]
      exact Nat.le_of_not_lt hj
    have F := copyTo_fills ((a.reserve 1).gap j 1) j p
    obtain ⟨hi, hicd, hcalls⟩ := gap_same (a.reserve 1) j 1
    rw [hicd, hcalls] at F
    rw [if_neg hj, hi]
    exact (F.stepped rfl H' (Nat.le_of_not_lt hj) hroom (.insert p j) (insertIdx_of_le hin _)
      (if_neg (Nat.not_lt.mpr hin)) rfl).of_reserve

theorem inserta_stepped (H : Holds d₀ a l) (w : UtArray s) (hroom : HasRoom s (l.length + w.i)) (j : ℕ) :
    Stepped d₀ a l (.inserta w j) (a.inserta w j) := by
  rw [inserta]
  by_cases hw : w.i = 0
  · have hnil : w.contents = [] := by rw [contents, hw, elems_zero]
    rw [if_pos hw]
    refine Stepped.same H (.inserta w j) ?_ ?_ rfl
    · rw [UtOp.onList, hnil, UtIcd.copiedAll, List.append_nil, List.take_append_drop, ite_self]
    · rw [UtOp.fillCalls, hnil, UtIcd.copyCallsAll, ite_self]
  · rw [if_neg hw]
    by_cases hj : j > a.i
    · have hout : j > l.length := by rwa [H.length]
      rw [if_pos hj]
      exact Stepped.same H (.inserta w j) (if_pos hout) (if_pos hout) rfl
    · have hin : ¬ j > l.length := by rwa [H.length]
      obtain ⟨H', hroom⟩ := reserve_spec H hroom
      have F := copyAll_fills ((a.reserve w.i).gap j w.i) w j
      obtain ⟨hi, hicd, hcalls⟩ := gap_same (a.reserve w.i) j w.i
      rw [hicd, hcalls] at F
      have hlen : (a.icd.copiedAll a.calls.length w.contents).length = w.i := by
        rw [length_copiedAll, contents, length_elems]
      rw [if_neg hj]
      dsimp only
      rw [hi]
      exact (F.stepped hlen H' (Nat.le_of_not_lt hj) hroom (.inserta w j) (if_neg hin) (if_neg hin) rfl).of_reserve

/-- What is left of the front of an array. -/
theorem Holds.front (H : Holds d₀ a l) (hk : k ≤ a.i) (calls : List (UtCall s)) :
    Holds d₀ { a with i := k, calls := calls } (l.take k) :=
  ⟨H.take hk, hk.trans H.room, H.slots_lt, H.bytes_lt, H.outside⟩

/-- Some operations only let go of elements. -/
theorem Stepped.letGo (op : UtOp s) (hlist : op.onList a.icd a.calls.length l = es) (H : Holds d₀ a' es)
    (hicd : a'.icd = a.icd) (hfill : op.fillCalls a.icd a.calls.length l = [])
    (hcalls : a'.calls = a.calls ++ dtorCalls a.icd (op.released l)) : Stepped d₀ a l op a' :=
  ⟨hlist ▸ H, hicd, by rw [hfill, List.append_nil, hcalls]⟩

theorem popBack_stepped (H : Holds d₀ a l) (hne : l ≠ []) :
    ∃ a', a.popBack = some a' ∧ Stepped d₀ a l .popBack a' := by
  have hlen := H.length
  have hpos : 0 < l.length := List.length_pos_iff.mpr hne
  have hless : lessen a.i 1 = a.i - 1 := if_pos (by omega)
  have hlist : l.dropLast = l.take (a.i - 1) := by rw [List.dropLast_eq_take, hlen]
  have hlast : l.getLast?.toList = [elemAt s a.d ((a.i - 1) * s)] := by
    rw [List.getLast?_eq_getElem?, H.slot (by omega), hlen]
    rfl
  rw [popBack]
  by_cases hdtor : a.icd.dtor = true
  · rw [if_pos hdtor, if_neg (by omega)]
    refine ⟨_, rfl, Stepped.letGo .popBack hlist (H.front (Nat.sub_le _ _) _) rfl rfl ?_⟩
    rw [UtOp.released, hlast, dtorCalls, if_pos hdtor, List.map_singleton]
  · rw [if_neg hdtor, hless]
    refine ⟨_, rfl, Stepped.letGo .popBack hlist (H.front (Nat.sub_le _ _) a.calls) rfl rfl ?_⟩
    rw [dtorCalls, if_neg hdtor, List.append_nil]

theorem clear_stepped (H : Holds d₀ a l) : ∃ a', a.clear = some a' ∧ Stepped d₀ a l .clear a' := by
  have hlen := H.length
  rw [clear]
  by_cases hpos : a.i > 0
  · rw [if_pos hpos, dtors_eq H (Nat.le_of_eq (Nat.zero_add a.i)), List.drop_zero, ← hlen, List.take_length]
    exact ⟨_, rfl, Stepped.letGo .clear rfl (H.front (Nat.zero_le _) _) rfl rfl rfl⟩
  · obtain rfl : l = [] := List.length_eq_zero_iff.mp (by omega)
    rw [if_neg hpos]
    exact ⟨a, rfl, Stepped.same H .clear rfl rfl rfl⟩

/-- Bytes that are zero are elements that are. -/
theorem elems_zeros (m : ByteMem) (b n : ℕ) :
    elems s (m.store b (List.replicate (s * n) 0)) b n = List.replicate n (zeroElem s) := by
  have hzero : elemAt s (fun _ => 0) 0 = zeroElem s :=
    Subtype.ext ((List.map_const' ..).trans (congrArg (List.replicate · 0) List.length_range))
  have heach : ∀ i ∈ List.range n, elemAt s (m.store b (List.replicate (s * n) 0)) (b + i * s) = zeroElem s := by
    intro i hi
    have hle := ByteMem.slot_end_le (List.mem_range.mp hi) s
    rw [← hzero]
    refine elemAt_congr fun r hr => ?_
    have hin : b + i * s + r - b < s * n := by
      rw [Nat.mul_comm s n]
      omega
    rw [ByteMem.store, if_pos (by omega), List.getElem?_replicate, if_pos hin, Option.getD_some]
  rw [elems, List.map_congr_left heach, List.map_const', List.length_range]

theorem resize_stepped (H : Holds d₀ a l) {num : ℕ} (hinit : num ≤ l.length ∨ a.icd.init = none)
    (hroom : HasRoom s (max num l.length)) :
    ∃ a', a.resize num = some a' ∧ Stepped d₀ a l (.resize num) a' := by
  have hlen := H.length
  rw [resize]
  by_cases hless : a.i > num
  · have hall : (l.drop num).take (a.i - num) = l.drop num := List.take_of_length_le (by rw [List.length_drop]; omega)
    have hlist : (UtOp.resize num).onList a.icd a.calls.length l = l.take num := by
      rw [UtOp.onList, Nat.sub_eq_zero_of_le (by omega), List.replicate_zero, List.append_nil]
    rw [if_pos hless, dtors_eq H (by omega), hall]
    exact ⟨_, rfl, Stepped.letGo (.resize num) hlist (H.front (Nat.le_of_lt hless) _) rfl rfl rfl⟩
  · have hno : (UtOp.resize num).released l = [] := List.drop_eq_nil_of_le (by omega)
    rw [if_neg hless]
    by_cases hmore : a.i < num
    · have hnone : (a.reserve (num - a.i)).icd.init = none := hinit.resolve_left (by omega)
      obtain ⟨H', hroom⟩ := reserve_spec H (show HasRoom s (l.length + (num - a.i)) by
        rwa [show l.length + (num - a.i) = max num l.length by omega])
      have hnum : a.i + (num - a.i) = num := by omega
      have hgap : (a.reserve (num - a.i)).gap a.i (num - a.i) = a.reserve (num - a.i) :=
        gap_end (a.reserve (num - a.i)) _
      have F : Fills ((a.reserve (num - a.i)).gap a.i (num - a.i)) { a.reserve (num - a.i) with
          d := (a.reserve (num - a.i)).d.store (a.i * s) (List.replicate (s * (num - a.i)) 0) } a.i
          (List.replicate (num - a.i) (zeroElem s)) [] := by
        rw [hgap]
        refine ⟨rfl, rfl, rfl, (List.append_nil _).symm, ?_, sameOutside_store _ ?_⟩
        · rw [List.length_replicate]
          exact elems_zeros _ _ _
        · rw [List.length_replicate, List.length_replicate, Nat.mul_comm]
      have hlist : (UtOp.resize num).onList a.icd a.calls.length l =
          l.take a.i ++ List.replicate (num - a.i) (zeroElem s) ++ l.drop a.i := by
        rw [UtOp.onList, List.take_of_length_le (by omega), ← hlen, List.take_length, List.drop_length,
          List.append_nil]
      have S := F.stepped List.length_replicate H' (Nat.le_refl _) hroom (.resize num) hlist rfl hno
      rw [show (a.reserve (num - a.i)).i + (num - a.i) = num from hnum] at S
      rw [if_pos hmore]
      dsimp only
      rw [hnone]
      exact ⟨_, rfl, S.of_reserve⟩
    · obtain rfl : num = l.length := by omega
      rw [if_neg hmore]
      refine ⟨a, rfl, Stepped.same H (.resize _) ?_ rfl hno⟩
      rw [UtOp.onList, Nat.sub_self, List.replicate_zero, List.append_nil, List.take_length]

/-- **With `init` an array does not get longer** by `utarray_resize`: `init` is given NULL. -/
theorem resize_eq_none_iff (H : Holds d₀ a l) (num : ℕ) :
    a.resize num = none ↔ a.i < num ∧ a.icd.init.isSome = true := by
  have hlen := H.length
  constructor
  · intro hnone
    rw [resize] at hnone
    by_cases hless : a.i > num
    · rw [if_pos hless, dtors_eq H (by omega)] at hnone
      exact absurd hnone (Option.some_ne_none _)
    · rw [if_neg hless] at hnone
      by_cases hmore : a.i < num
      · refine ⟨hmore, ?_⟩
        by_contra hnot
        rw [if_pos hmore] at hnone
        dsimp only at hnone
        rw [show (a.reserve (num - a.i)).icd.init = none from Option.not_isSome_iff_eq_none.mp hnot] at hnone
        exact absurd hnone (Option.some_ne_none _)
      · rw [if_neg hmore] at hnone
        exact absurd hnone (Option.some_ne_none _)
  · rintro ⟨hmore, hsome⟩
    obtain ⟨init, hinit⟩ := Option.isSome_iff_exists.mp hsome
    rw [resize, if_neg (by omega), if_pos hmore]
    dsimp only
    rw [show (a.reserve (num - a.i)).icd.init = some init from hinit]

theorem erase_stepped (H : Holds d₀ a l) {pos len : ℕ} (hpos : pos + len ≤ l.length) :
    ∃ a', a.erase pos len = some a' ∧ Stepped d₀ a l (.erase pos len) a' := by
  rw [H.length] at hpos
  have hless : lessen a.i len = a.i - len := if_pos (by omega)
  rw [erase, dtors_eq H hpos, Option.map_some]
  dsimp only
  by_cases hmore : a.i > pos + len
  · rw [if_pos hmore]
    refine ⟨_, rfl, Stepped.letGo (.erase pos len) rfl (H.closed hpos rfl hless ?_ ?_) rfl rfl rfl⟩
    · exact sameOutside_memcpy a.d a.d _ _ _
    · rw [← H.drop hpos]
      exact elems_memcpy a.d a.d _ _ _
  · have hend : a.i - (pos + len) = 0 := by omega
    rw [if_neg hmore]
    refine ⟨_, rfl, Stepped.letGo (.erase pos len) rfl (H.closed hpos rfl hless ?_ ?_) rfl rfl rfl⟩
    · exact fun _ _ => rfl
    · rw [hend, elems_zero, List.drop_eq_nil_of_le (by rw [H.length]; omega)]

/-! ### Elements one by one -/

/-- What is in a slot after a move. -/
theorem elemAt_move (a : UtArray s) (j k count r : ℕ) : elemAt s (a.move j k count).d (r * s) =
    if j ≤ r ∧ r < j + count then elemAt s a.d ((k + (r - j)) * s) else elemAt s a.d (r * s) := by
  split
  · next hin =>
    obtain ⟨q, rfl⟩ := Nat.exists_eq_add_of_le hin.1
    have hle := ByteMem.slot_end_le (show q < count by omega) s
    refine elemAt_congr fun i hi => ?_
    show memcpy a.d (j * s) a.d (k * s) (count * s) _ = _
    rw [memcpy_apply, Nat.add_sub_cancel_left, Nat.add_mul j, Nat.add_mul k, if_pos (by omega)]
    congr 1
    omega
  · next hout =>
    refine elemAt_congr fun i hi => ?_
    show memcpy a.d (j * s) a.d (k * s) (count * s) _ = _
    rw [memcpy_apply, if_neg]
    rcases Nat.lt_or_ge r j with hlt | hge
    · have hle := ByteMem.slot_end_le hlt s
      omega
    · have hle : (j + count) * s ≤ r * s := Nat.mul_le_mul_right s (by omega)
      rw [Nat.add_mul] at hle
      omega

theorem elemAt_put (a : UtArray s) (j : ℕ) (e : Elem s) (r : ℕ) :
    elemAt s (a.put j e).d (r * s) = if r = j then e else elemAt s a.d (r * s) := by
  split
  · next hr => rw [hr, put, elemAt_store]
  · next hne =>
    refine elemAt_congr fun i hi => ByteMem.store_of_notMem ?_
    rw [e.2]
    rcases Nat.lt_or_gt_of_ne hne with hlt | hgt
    · have hle := ByteMem.slot_end_le hlt s
      omega
    · have hle := ByteMem.slot_end_le hgt s
      omega

/-- An array that has the elements of a list, slot by slot. -/
theorem Holds.of_slots (H : Holds d₀ a l) (hn : a'.n = a.n) (hi : a'.i = es.length) (hle : es.length ≤ a.i)
    (hout : SameOutside s 0 a.i a.d a'.d) (hslots : ∀ r < es.length, es[r]? = some (elemAt s a'.d (r * s))) :
    Holds d₀ a' es := by
  have hblock : a.i * s ≤ a.n * s := Nat.mul_le_mul_right s H.room
  refine ⟨List.ext_getElem? fun r => ?_, ?_, hn ▸ H.slots_lt, hn ▸ H.bytes_lt, fun x hx => ?_⟩
  · rw [UtArray.contents, elems, hi, List.getElem?_map]
    rcases Nat.lt_or_ge r es.length with hr | hr
    · rw [List.getElem?_range hr, hslots r hr, Option.map_some, Nat.zero_add]
    · rw [List.getElem?_eq_none (by rwa [List.length_range]), List.getElem?_eq_none hr, Option.map_none]
  · rw [hn, hi]
    exact hle.trans H.room
  · rw [hn] at hx
    rw [hout x (Or.inr (by omega)), H.outside x hx]

theorem removeQuick_same (a : UtArray s) (pos : ℕ) :
    (a.removeQuick pos).icd = a.icd ∧ (a.removeQuick pos).calls = a.calls := by
  unfold removeQuick
  dsimp only
  split <;> exact ⟨rfl, rfl⟩

theorem removeQuick_holds (H : Holds d₀ a l) {pos : ℕ} (hpos : pos < l.length) :
    Holds d₀ (a.removeQuick pos) (l.set pos (l.getLastD (zeroElem s))).dropLast := by
  have hlen := H.length
  have hless : lessen a.i 1 = a.i - 1 := if_pos (by omega)
  have hlast : l.getLastD (zeroElem s) = elemAt s a.d ((a.i - 1) * s) := by
    rw [List.getLastD_eq_getLast?, List.getLast?_eq_getElem?, H.slot (by omega), hlen]
    rfl
  have hnew : (l.set pos (l.getLastD (zeroElem s))).dropLast.length = a.i - 1 := by
    rw [List.length_dropLast, List.length_set, hlen]
  have hget : ∀ r < a.i - 1, (l.set pos (l.getLastD (zeroElem s))).dropLast[r]? =
      if pos = r then some (elemAt s a.d ((a.i - 1) * s)) else some (elemAt s a.d (r * s)) := fun r hr => by
    rw [List.getElem?_dropLast, List.length_set, if_pos (by omega), List.getElem?_set,
      if_pos (by omega : pos < l.length), hlast, H.slot (by omega)]
  rw [removeQuick, hless]
  by_cases hmove : a.i - 1 ≠ pos
  · rw [if_pos hmove]
    refine H.of_slots rfl (hless.trans hnew.symm) (hnew ▸ Nat.sub_le _ _) ?_ fun r hr => ?_
    · have hle := ByteMem.slot_end_le (show pos < a.i by omega) s
      exact (sameOutside_memcpy a.d a.d _ _ 1).mono (Nat.zero_le _) (by omega)
    · show _ = some (elemAt s (a.move pos (a.i - 1) 1).d (r * s))
      rw [hget r (hnew ▸ hr), elemAt_move]
      by_cases hrp : pos = r
      · rw [if_pos hrp, if_pos (by omega), hrp, Nat.sub_self, Nat.add_zero]
      · rw [if_neg hrp, if_neg (by omega)]
  · rw [if_neg hmove]
    refine H.of_slots rfl (hless.trans hnew.symm) (hnew ▸ Nat.sub_le _ _) (SameOutside.refl _ _ _ _) fun r hr => ?_
    rw [hget r (hnew ▸ hr), if_neg (by omega)]

theorem removeQuickFull_stepped (H : Holds d₀ a l) {pos : ℕ} (hpos : pos < l.length) :
    ∃ a', a.removeQuickFull pos = some a' ∧ Stepped d₀ a l (.removeQuickFull pos) a' := by
  have hlen := H.length
  rw [removeQuickFull, dtors_eq H (show pos + 1 ≤ a.i by omega)]
  have H' : Holds d₀ { a with calls := a.calls ++ dtorCalls a.icd ((l.drop pos).take 1) } l :=
    ⟨H.contents, H.room, H.slots_lt, H.bytes_lt, H.outside⟩
  obtain ⟨hicd, hcalls⟩ := removeQuick_same { a with calls := a.calls ++ dtorCalls a.icd ((l.drop pos).take 1) } pos
  exact ⟨_, rfl, Stepped.letGo (.removeQuickFull pos) rfl (removeQuick_holds H' hpos) hicd rfl hcalls⟩

/-- The slots of a list in which an element was moved. -/
theorem Holds.moved (H : Holds d₀ a l) {f t r : ℕ} (hf : f < l.length) (ht : t < l.length) (hr : r < l.length) :
    ((l.eraseIdx f).insertIdx t (elemAt s a.d (f * s)))[r]? =
      some (if r < t then elemAt s a.d ((if r < f then r else r + 1) * s)
        else if r = t then elemAt s a.d (f * s) else elemAt s a.d ((if r - 1 < f then r - 1 else r) * s)) := by
  rw [List.getElem?_insertIdx]
  rcases Nat.lt_trichotomy r t with hlt | rfl | hgt
  · rw [if_pos hlt, if_pos hlt, List.getElem?_eraseIdx]
    by_cases hrf : r < f
    · rw [if_pos hrf, if_pos hrf, H.slot hr]
    · rw [if_neg hrf, if_neg hrf, H.slot (by omega)]
  · rw [if_neg (Nat.lt_irrefl r), if_neg (Nat.lt_irrefl r), if_pos rfl, if_pos rfl,
      if_pos (by rw [List.length_eraseIdx_of_lt hf]; omega)]
  · rw [if_neg (Nat.lt_asymm hgt), if_neg (Nat.lt_asymm hgt), if_neg hgt.ne', if_neg hgt.ne', List.getElem?_eraseIdx]
    by_cases hrf : r - 1 < f
    · rw [if_pos hrf, if_pos hrf, H.slot (by omega)]
    · rw [if_neg hrf, if_neg hrf, Nat.sub_add_cancel (by omega), H.slot hr]

/-- **Moving an element** to another place. -/
theorem moveElt_holds (H : Holds d₀ a l) (f t : ℕ) :
    Holds d₀ (a.moveElt f t)
      (if f < l.length ∧ t < l.length then (l.eraseIdx f).insertIdx t (l.getD f (zeroElem s)) else l) := by
  have hlen := H.length
  by_cases hin : f < l.length ∧ t < l.length
  · obtain ⟨hf, ht⟩ := hin
    have hx : l.getD f (zeroElem s) = elemAt s a.d (f * s) := by
      rw [List.getD_eq_getElem?_getD, H.slot hf, Option.getD_some]
    have hnew : ((l.eraseIdx f).insertIdx t (elemAt s a.d (f * s))).length = l.length := by
      rw [List.length_insertIdx, List.length_eraseIdx_of_lt hf, if_pos (by omega)]
      omega
    have hout : ∀ j k count, j + count ≤ a.i →
        SameOutside s 0 a.i a.d ((a.move j k count).put t (elemAt s a.d (f * s))).d := by
      intro j k count hcount
      have hle : (j + count) * s ≤ a.i * s := Nat.mul_le_mul_right s hcount
      have hend := ByteMem.slot_end_le (hlen ▸ ht) s
      rw [Nat.add_mul] at hle
      refine ((sameOutside_memcpy a.d a.d (j * s) (k * s) count).mono (Nat.zero_le _) (by omega)).trans ?_
      refine (sameOutside_store (n := 1) _ ?_).mono (Nat.zero_le _) (by omega)
      rw [Nat.one_mul]
      exact (elemAt s a.d (f * s)).2
    rw [if_pos ⟨hf, ht⟩, hx]
    unfold moveElt
    rw [if_neg (show ¬ f ≥ a.i by omega), if_neg (show ¬ t ≥ a.i by omega)]
    by_cases hft : f = t
    · rw [if_pos hft]
      refine H.of_slots rfl (hnew.trans hlen).symm (hnew.trans hlen).le (SameOutside.refl _ _ _ _) fun r hr => ?_
      rw [H.moved hf ht (hnew ▸ hr)]
      split_ifs <;> congr 3 <;> omega
    · rw [if_neg hft]
      dsimp only
      by_cases hgt : f > t
      · rw [if_pos hgt]
        refine H.of_slots rfl (hnew.trans hlen).symm (hnew.trans hlen).le (hout _ _ _ (by omega)) fun r hr => ?_
        rw [H.moved hf ht (hnew ▸ hr), elemAt_put, elemAt_move]
        split_ifs <;> congr 3 <;> omega
      · rw [if_neg hgt]
        refine H.of_slots rfl (hnew.trans hlen).symm (hnew.trans hlen).le (hout _ _ _ (by omega)) fun r hr => ?_
        rw [H.moved hf ht (hnew ▸ hr), elemAt_put, elemAt_move]
        split_ifs <;> congr 3 <;> omega
  · rw [if_neg hin]
    unfold moveElt
    by_cases hf : f ≥ a.i
    · rw [if_pos hf]
      exact H
    · rw [if_neg hf, if_pos (by omega)]
      exact H

theorem moveElt_same (a : UtArray s) (f t : ℕ) : (a.moveElt f t).icd = a.icd ∧ (a.moveElt f t).calls = a.calls := by
  unfold moveElt
  dsimp only
  split_ifs <;> exact ⟨rfl, rfl⟩

/-- **A step** works on the array as on the list. -/
theorem step_spec (H : Holds d₀ a l) (ha : op.Allowed a.icd l) :
    ∃ a', a.apply op = some a' ∧ Stepped d₀ a l op a' := by
  cases op with
  | reserve by' => exact ⟨_, rfl, (Stepped.same (reserve_spec H ha).1 (.reserve by') rfl rfl rfl).of_reserve⟩
  | pushBack p => exact ⟨_, rfl, pushBack_stepped H ha p⟩
  | popBack => exact popBack_stepped H ha
  | extendBack => exact ⟨_, rfl, extendBack_stepped H ha⟩
  | pushFront p => exact ⟨_, rfl, pushFront_stepped H ha p⟩
  | insert p j => exact ⟨_, rfl, insert_stepped H ha p j⟩
  | inserta w j => exact ⟨_, rfl, inserta_stepped H w ha j⟩
  | move f t =>
    obtain ⟨hicd, hcalls⟩ := moveElt_same a f t
    refine ⟨_, rfl, Stepped.letGo (.move f t) rfl (moveElt_holds H f t) hicd rfl ?_⟩
    rw [hcalls]
    exact (List.append_nil _).symm.trans (congrArg (a.calls ++ ·) (dtorCalls_nil a.icd).symm)
  | resize num => exact resize_stepped H ha.1 ha.2
  | erase pos len => exact erase_stepped H ha
  | removeQuick pos =>
    obtain ⟨hicd, hcalls⟩ := removeQuick_same a pos
    refine ⟨_, rfl, Stepped.letGo (.removeQuick pos) rfl (removeQuick_holds H ha) hicd rfl ?_⟩
    rw [hcalls]
    exact (List.append_nil _).symm.trans (congrArg (a.calls ++ ·) (dtorCalls_nil a.icd).symm)
  | removeQuickFull pos => exact removeQuickFull_stepped H ha
  | clear => exact clear_stepped H

end UtArray

end Fcitx
