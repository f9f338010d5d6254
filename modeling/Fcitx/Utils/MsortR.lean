/-
# Merge sort of an array of bytes

`fcitx-utils/msort_r.c` and `fcitx-utils/sort_common.h`: the elements are blocks
of bytes that are compared by a function of the caller, which is given an
argument of his. A few elements are sorted by insertion, where an element goes
down by being swapped; more are sorted in halves, which are merged in memory that
is shared by all calls. What is left of the right half when the left one is used up
is in its place already, and is not copied.

The array and the temporary memory are blocks of their own; a pointer is an
offset in its block.

Key definitions: `Elem`, `elems`, `MsortR.insertionSort`, `MsortR.mergeLoop`, `MsortR.msortRWithTmp`,
`MsortR.msortR`, `MsortR.SortsStably`.
Key theorems: `MsortR.load_swap`, `MsortR.insertionSort_spec`, `MsortR.mergeLoop_spec`, `MsortR.msortR_stable`.
-/
import Fcitx.Lib.ByteMem
import Fcitx.Lib.MergeSort
import Mathlib.Data.Vector.Defs

namespace Fcitx
namespace MsortR

/-- The contents of an element of `s` bytes. -/
abbrev Elem (s : ℕ) := List.Vector UInt8 s

/-- The element a pointer points to. -/
def elemAt (s : ℕ) (m : ByteMem) (p : ℕ) : Elem s := ⟨m.load p s, ByteMem.length_load m p s⟩

/-- The `n` elements from a pointer on. -/
def elems (s : ℕ) (m : ByteMem) (b n : ℕ) : List (Elem s) := (List.range n).map fun i => elemAt s m (b + i * s)

/-- `memcpy` between two blocks. -/
def memcpy (dst : ByteMem) (p : ℕ) (src : ByteMem) (q n : ℕ) : ByteMem := dst.store p (src.load q n)

/-- `MINIMUM_INSERT_SORT` -/
def minimumInsertSort : ℕ := 10

/-- `sizeof(long)` -/
def sizeofLong : ℕ := 8

/-- A loop of `swap`, which exchanges `w` bytes at a time. -/
def swapLoop (w : ℕ) : ℕ → ℕ → ℕ → ByteMem → ByteMem
  | 0, _, _, m => m
  | count + 1, a, b, m =>
    let c := m.load a w
    let m := m.store a (m.load b w)
    swapLoop w count (a + w) (b + w) (m.store b c)

/-- `swap` -/
def swap (a b size : ℕ) (m : ByteMem) : ByteMem :=
  if a = b then m
  else
    let nlong := size / sizeofLong
    swapLoop 1 (size % sizeofLong) (a + nlong * sizeofLong) (b + nlong * sizeofLong) (swapLoop sizeofLong nlong a b m)

section sorting

variable {s : ℕ} {T : Type} (cmp : Elem s → Elem s → T → ℤ) (thunk : T)

/-- The inner loop of `insertion_sort`, from `j` down. -/
def insertLoop (base : ℕ) : ℕ → ByteMem → ByteMem
  | 0, m => m
  | j + 1, m =>
    if cmp (elemAt s m (base + j * s)) (elemAt s m (base + (j + 1) * s)) thunk ≤ 0 then m
    else insertLoop base j (swap (base + j * s) (base + (j + 1) * s) s m)

/-- `insertion_sort` -/
def insertionSort (base nmemb : ℕ) (m : ByteMem) : ByteMem :=
  (List.range nmemb).foldl (fun m i => insertLoop cmp thunk base i m) m

/-- The loop that merges two halves: what is left of them, the pointers, and the temporary memory. -/
structure Merging where
  nA : ℕ
  nB : ℕ
  bA : ℕ
  bB : ℕ
  tmp : ℕ
  t : ByteMem

/-- The loop of `fcitx_msort_r_with_tmp`. -/
def mergeLoop (m : ByteMem) (r : Merging) : Merging :=
  if 0 < r.nA ∧ 0 < r.nB then
    if cmp (elemAt s m r.bA) (elemAt s m r.bB) thunk ≤ 0 then
      mergeLoop m { r with bA := r.bA + s, nA := r.nA - 1, tmp := r.tmp + s, t := memcpy r.t r.tmp m r.bA s }
    else
      mergeLoop m { r with bB := r.bB + s, nB := r.nB - 1, tmp := r.tmp + s, t := memcpy r.t r.tmp m r.bB s }
  else r
termination_by r.nA + r.nB
decreasing_by all_goals omega

/-- The end of `fcitx_msort_r_with_tmp`: merge the halves from `b` on, `n` elements. -/
def mergeHalves (n b : ℕ) (m t : ByteMem) : ByteMem × ByteMem :=
  let r := mergeLoop cmp thunk m ⟨n / 2, n - n / 2, b, b + n / 2 * s, 0, t⟩
  let t := if 0 < r.nA then memcpy r.t r.tmp m r.bA (r.nA * s) else r.t
  (memcpy m b t 0 ((n - r.nB) * s), t)

/-- `fcitx_msort_r_with_tmp`; the result has both blocks. -/
def msortRWithTmp (n b : ℕ) (m t : ByteMem) : ByteMem × ByteMem :=
  if n < minimumInsertSort then (insertionSort cmp thunk b n m, t)
  else
    let (m, t) := msortRWithTmp (n / 2) b m t
    let (m, t) := msortRWithTmp (n - n / 2) (b + n / 2 * s) m t
    mergeHalves cmp thunk n b m t
termination_by n
decreasing_by all_goals unfold minimumInsertSort at *; omega

/-- `fcitx_msort_r` where `fcitx_utils_malloc` gives the block `tmp`. -/
def msortR (n : ℕ) (m tmp : ByteMem) : ByteMem :=
  if n < minimumInsertSort then insertionSort cmp thunk 0 n m else (msortRWithTmp cmp thunk n 0 m tmp).1

end sorting

/-! ### Bytes and elements -/

variable {s : ℕ} {m m' t : ByteMem} {b n k p q : ℕ}

/-- What a copy leaves at an address. -/
theorem memcpy_apply (dst src : ByteMem) (p q n a : ℕ) :
    memcpy dst p src q n a = if p ≤ a ∧ a < p + n then src (q + (a - p)) else dst a := by
  unfold memcpy
  by_cases ha : p ≤ a ∧ a < p + n
  · rw [if_pos ha, ByteMem.store, if_pos ha.1, ByteMem.load, List.getElem?_map, List.getElem?_range (by omega)]
    rfl
  · rw [if_neg ha]
    refine ByteMem.store_of_notMem ?_
    rw [ByteMem.length_load]
    omega

theorem elemAt_congr (h : ∀ i < s, m (p + i) = m' (q + i)) : elemAt s m p = elemAt s m' q :=
  Subtype.ext (List.map_congr_left fun i hi => h i (List.mem_range.mp hi))

@[simp] theorem length_elems (s : ℕ) (m : ByteMem) (b n : ℕ) : (elems s m b n).length = n := by
  rw [elems, List.length_map, List.length_range]

theorem elems_zero (s : ℕ) (m : ByteMem) (b : ℕ) : elems s m b 0 = [] := rfl

theorem elems_add (s : ℕ) (m : ByteMem) (b k n : ℕ) :
    elems s m b (k + n) = elems s m b k ++ elems s m (b + k * s) n := by
  rw [elems, List.range_add, List.map_append, List.map_map, elems, elems]
  refine congrArg (_ ++ ·) (List.map_congr_left fun i _ => ?_)
  rw [Function.comp_apply, Nat.add_mul, Nat.add_assoc]

theorem elems_one (s : ℕ) (m : ByteMem) (b : ℕ) : elems s m b 1 = [elemAt s m b] := by
  rw [elems, List.range_one, List.map_singleton, Nat.zero_mul, Nat.add_zero]

/-- The last element. -/
theorem elems_succ (s : ℕ) (m : ByteMem) (b n : ℕ) :
    elems s m b (n + 1) = elems s m b n ++ [elemAt s m (b + n * s)] := by
  rw [elems_add, elems_one]

/-- The first element. -/
theorem elems_succ_front (s : ℕ) (m : ByteMem) (b n : ℕ) :
    elems s m b (n + 1) = elemAt s m b :: elems s m (b + s) n := by
  rw [Nat.add_comm, elems_add, elems_one, Nat.one_mul, List.singleton_append]

/-- Elements are the same where the bytes are. -/
theorem elems_congr (h : ∀ i < n * s, m (p + i) = m' (q + i)) : elems s m p n = elems s m' q n := by
  refine List.map_congr_left fun k hk => elemAt_congr fun i hi => ?_
  have hle := ByteMem.slot_end_le (List.mem_range.mp hk) s
  rw [Nat.add_assoc, Nat.add_assoc]
  exact h _ (by omega)

/-- Elements that are copied. -/
theorem elems_memcpy (dst src : ByteMem) (p q n : ℕ) :
    elems s (memcpy dst p src q (n * s)) p n = elems s src q n := by
  refine elems_congr fun i hi => ?_
  rw [memcpy_apply, if_pos (by omega), Nat.add_sub_cancel_left]

/-- Elements that a copy does not touch. -/
theorem elems_memcpy_of_disjoint {dst src : ByteMem} (h : b + n * s ≤ p ∨ p + k ≤ b) :
    elems s (memcpy dst p src q k) b n = elems s dst b n := by
  refine elems_congr fun i hi => ?_
  rw [memcpy_apply, if_neg (by omega)]

/-- Two blocks that are the same outside of the `n` elements from `b` on. -/
def SameOutside (s b n : ℕ) (m m' : ByteMem) : Prop := ∀ a, a < b ∨ b + n * s ≤ a → m' a = m a

theorem SameOutside.refl (s b n : ℕ) (m : ByteMem) : SameOutside s b n m m := fun _ _ => rfl

theorem SameOutside.trans {m'' : ByteMem} (h : SameOutside s b n m m') (h' : SameOutside s b n m' m'') :
    SameOutside s b n m m'' := fun a ha => (h' a ha).trans (h a ha)

/-- A part of the elements. -/
theorem SameOutside.mono {b' n' : ℕ} (h : SameOutside s b' n' m m') (hb : b ≤ b') (hn : b' + n' * s ≤ b + n * s) :
    SameOutside s b n m m' := fun a ha => h a (by omega)

/-- Elements outside are the same. -/
theorem SameOutside.elems_eq (h : SameOutside s b n m m') (hp : p + k * s ≤ b ∨ b + n * s ≤ p) :
    elems s m' p k = elems s m p k := elems_congr fun i hi => h _ (by omega)

/-! ### Swapping -/

/-- What a loop of `swap` leaves at an address. -/
theorem swapLoop_apply (w count a b : ℕ) (h : a + count * w ≤ b) (m : ByteMem) (x : ℕ) :
    swapLoop w count a b m x =
      if a ≤ x ∧ x < a + count * w then m (b + (x - a))
      else if b ≤ x ∧ x < b + count * w then m (a + (x - b)) else m x := by
  induction count generalizing a b m with
  | zero => rw [swapLoop, if_neg (by omega), if_neg (by omega)]
  | succ count ih =>
    rw [Nat.succ_mul] at h ⊢
    unfold swapLoop
    rw [ih (a + w) (b + w) (by omega)]
    have hstore : ∀ y, ((m.store a (m.load b w)).store b (m.load a w)) y =
        if b ≤ y ∧ y < b + w then m (a + (y - b))
        else if a ≤ y ∧ y < a + w then m (b + (y - a)) else m y := fun y => by
      rw [← memcpy, memcpy_apply, ← memcpy, memcpy_apply]
    rw [hstore, hstore, hstore]
    by_cases hleft : a ≤ x ∧ x < a + (count * w + w)
    · rw [if_pos hleft]
      by_cases hfirst : x < a + w
      · rw [if_neg (by omega), if_neg (by omega), if_neg (by omega), if_pos (by omega)]
      · rw [if_pos (by omega), if_neg (by omega), if_neg (by omega)]
        congr 1
        omega
    · rw [if_neg hleft, if_neg (by omega)]
      by_cases hright : b ≤ x ∧ x < b + (count * w + w)
      · rw [if_pos hright]
        by_cases hfirst : x < b + w
        · rw [if_neg (by omega), if_pos (by omega)]
        · rw [if_pos (by omega), if_neg (by omega), if_neg (by omega)]
          congr 1
          omega
      · rw [if_neg hright, if_neg (by omega), if_neg (by omega), if_neg (by omega)]

/-- **Swapping** two blocks. -/
theorem swap_apply {a b size : ℕ} (h : a + size ≤ b) (m : ByteMem) (x : ℕ) :
    swap a b size m x =
      if a ≤ x ∧ x < a + size then m (b + (x - a))
      else if b ≤ x ∧ x < b + size then m (a + (x - b)) else m x := by
  unfold swap
  by_cases hab : a = b
  · -- the blocks are empty
    rw [if_pos hab, if_neg (by omega), if_neg (by omega)]
  · rw [if_neg hab]
    have hsize : size / sizeofLong * sizeofLong + size % sizeofLong = size := by
      rw [Nat.mul_comm]
      exact Nat.div_add_mod size sizeofLong
    have hlong := swapLoop_apply sizeofLong (size / sizeofLong) a b (by omega) m
    generalize size / sizeofLong = nlong at hsize hlong ⊢
    generalize size % sizeofLong = rest at hsize ⊢
    rw [swapLoop_apply 1 _ _ _ (by omega), Nat.mul_one, hlong, hlong, hlong]
    by_cases hleft : a ≤ x ∧ x < a + size
    · rw [if_pos hleft]
      by_cases hlow : x < a + nlong * sizeofLong
      · rw [if_neg (by omega), if_neg (by omega), if_pos (by omega)]
      · rw [if_pos (by omega), if_neg (by omega), if_neg (by omega)]
        congr 1
        omega
    · rw [if_neg hleft, if_neg (by omega)]
      by_cases hright : b ≤ x ∧ x < b + size
      · rw [if_pos hright]
        by_cases hlow : x < b + nlong * sizeofLong
        · rw [if_neg (by omega), if_neg (by omega), if_pos (by omega)]
        · rw [if_pos (by omega), if_neg (by omega), if_neg (by omega)]
          congr 1
          omega
      · rw [if_neg hright, if_neg (by omega), if_neg (by omega), if_neg (by omega)]

/-- Swapping two neighbours. -/
theorem swap_neighbours (s : ℕ) (p : ℕ) (m : ByteMem) :
    elemAt s (swap p (p + s) s m) p = elemAt s m (p + s) ∧ elemAt s (swap p (p + s) s m) (p + s) = elemAt s m p ∧
      SameOutside s p 2 m (swap p (p + s) s m) := by
  have hswap := swap_apply (Nat.le_refl (p + s)) m
  refine ⟨elemAt_congr fun i hi => ?_, elemAt_congr fun i hi => ?_, fun a ha => ?_⟩
  · rw [hswap, if_pos (by omega), Nat.add_sub_cancel_left]
  · rw [hswap, if_neg (by omega), if_pos (by omega), Nat.add_sub_cancel_left]
  · rw [hswap, if_neg (by omega), if_neg (by omega)]

/-! ### Sorting by insertion -/

section sorting

variable {T : Type} {cmp : Elem s → Elem s → T → ℤ} {thunk : T}

/-- The left element goes first. -/
def leftFirst (cmp : Elem s → Elem s → T → ℤ) (thunk : T) (a b : Elem s) : Bool := cmp a b thunk ≤ 0

/-- The elements in the order they have from the end. -/
def insertBack (cmp : Elem s → Elem s → T → ℤ) (thunk : T) (x : Elem s) (l : List (Elem s)) : List (Elem s) :=
  (l.reverse.orderedInsert (fun a b => leftFirst cmp thunk b a) x).reverse

theorem insertBack_concat_of_le {x y : Elem s} (h : cmp y x thunk ≤ 0) (l : List (Elem s)) :
    insertBack cmp thunk x (l ++ [y]) = l ++ [y] ++ [x] := by
  have hle : leftFirst cmp thunk y x = true := decide_eq_true h
  rw [insertBack, List.reverse_append, List.reverse_singleton, List.singleton_append,
    List.orderedInsert_cons, if_pos hle]
  simp

theorem insertBack_concat_of_not_le {x y : Elem s} (h : ¬ cmp y x thunk ≤ 0) (l : List (Elem s)) :
    insertBack cmp thunk x (l ++ [y]) = insertBack cmp thunk x l ++ [y] := by
  have hle : ¬ leftFirst cmp thunk y x = true := fun hle => h (of_decide_eq_true hle)
  rw [insertBack, List.reverse_append, List.reverse_singleton, List.singleton_append,
    List.orderedInsert_cons, if_neg hle, List.reverse_cons, insertBack]

variable (cmp thunk) in
/-- **The inner loop** inserts the element `j` before the first ones. -/
theorem insertLoop_spec (base j : ℕ) (m : ByteMem) :
    elems s (insertLoop cmp thunk base j m) base (j + 1) =
        insertBack cmp thunk (elemAt s m (base + j * s)) (elems s m base j) ∧
      SameOutside s base (j + 1) m (insertLoop cmp thunk base j m) := by
  induction j generalizing m with
  | zero => exact ⟨elems_succ s m base 0, SameOutside.refl _ _ _ m⟩
  | succ j ih =>
    unfold insertLoop
    rw [elems_succ s m base j]
    by_cases hle : cmp (elemAt s m (base + j * s)) (elemAt s m (base + (j + 1) * s)) thunk ≤ 0
    · rw [if_pos hle, insertBack_concat_of_le hle, elems_succ, elems_succ]
      exact ⟨rfl, SameOutside.refl _ _ _ m⟩
    · rw [if_neg hle, insertBack_concat_of_not_le hle]
      have hnext : base + (j + 1) * s = base + j * s + s := by rw [Nat.succ_mul, Nat.add_assoc]
      rw [hnext]
      obtain ⟨hleft, hright, hout⟩ := swap_neighbours s (base + j * s) m
      set m₁ := swap (base + j * s) (base + j * s + s) s m with hm₁
      obtain ⟨helems, hrest⟩ := ih m₁
      have hbefore : elems s m₁ base j = elems s m base j := hout.elems_eq (Or.inl (Nat.le_refl _))
      have hbehind : elemAt s (insertLoop cmp thunk base j m₁) (base + j * s + s) = elemAt s m (base + j * s) := by
        rw [← hright]
        refine elemAt_congr fun i _ => hrest _ (Or.inr ?_)
        rw [Nat.succ_mul]
        omega
      rw [hbefore, hleft] at helems
      refine ⟨?_, ?_⟩
      · rw [elems_succ, helems, hnext, hbehind]
      · have hsucc : (j + 1 + 1) * s = j * s + 2 * s := by rw [Nat.add_assoc, Nat.add_mul]
        have hsucc' : (j + 1) * s = j * s + s := Nat.succ_mul j s
        exact (hout.mono (by omega) (by omega)).trans (hrest.mono (Nat.le_refl _) (by omega))

/-- The comparison of the caller, with its argument, is a total preorder. -/
structure TotalPreorder (cmp : Elem s → Elem s → T → ℤ) (thunk : T) : Prop where
  trans : ∀ a b c, cmp a b thunk ≤ 0 → cmp b c thunk ≤ 0 → cmp a c thunk ≤ 0
  total : ∀ a b, cmp a b thunk ≤ 0 ∨ cmp b a thunk ≤ 0

theorem TotalPreorder.order (h : TotalPreorder cmp thunk) : MergeSort.Order (leftFirst cmp thunk) where
  trans a b c hab hbc := decide_eq_true (h.trans a b c (of_decide_eq_true hab) (of_decide_eq_true hbc))
  total a b := by
    rw [Bool.or_eq_true]
    exact (h.total a b).imp decide_eq_true decide_eq_true

/-- A block in which `n` elements from `b` on are sorted, and the rest is the same. -/
structure Sorts (cmp : Elem s → Elem s → T → ℤ) (thunk : T) (b n : ℕ) (m m' : ByteMem) : Prop where
  sorted : MergeSort.StableSort (leftFirst cmp thunk) (elems s m b n) (elems s m' b n)
  outside : SameOutside s b n m m'

/-- **Sorting by insertion**. -/
theorem insertionSort_spec (h : TotalPreorder cmp thunk) (base n : ℕ) (m : ByteMem) :
    Sorts cmp thunk base n m (insertionSort cmp thunk base n m) := by
  induction n with
  | zero => exact ⟨MergeSort.StableSort.nil, SameOutside.refl _ _ _ m⟩
  | succ n ih =>
    unfold insertionSort at ih ⊢
    rw [List.range_succ, List.foldl_append]
    generalize (List.range n).foldl (fun m i => insertLoop cmp thunk base i m) m = m₁ at ih ⊢
    obtain ⟨helems, hrest⟩ := insertLoop_spec cmp thunk base n m₁
    have hlast : elemAt s m₁ (base + n * s) = elemAt s m (base + n * s) :=
      elemAt_congr fun i _ => ih.outside _ (Or.inr (by omega))
    refine ⟨?_, (ih.outside.mono (Nat.le_refl _) ?_).trans hrest⟩
    · show MergeSort.StableSort _ _ (elems s (insertLoop cmp thunk base n m₁) base (n + 1))
      rw [helems, elems_succ s m, hlast]
      exact ih.sorted.insert h.order _
    · rw [Nat.succ_mul]
      omega

/-! ### Merging -/

/-- What the merging loop has made of the halves: `w` is in the temporary memory. -/
structure Merged (cmp : Elem s → Elem s → T → ℤ) (thunk : T) (m : ByteMem) (r r' : Merging) (w : List (Elem s)) :
    Prop where
  merge : List.merge (elems s m r.bA r.nA) (elems s m r.bB r.nB) (leftFirst cmp thunk) =
    w ++ elems s m r'.bA r'.nA ++ elems s m r'.bB r'.nB
  written : elems s r'.t r.tmp w.length = w
  tmp : r'.tmp = r.tmp + w.length * s
  before : ∀ a < r.tmp, r'.t a = r.t a
  count : w.length + r'.nA + r'.nB = r.nA + r.nB
  ended : r'.nA = 0 ∨ r'.nB = 0
  behind : r'.bB + r'.nB * s = r.bB + r.nB * s

/-- An element is copied, and the loop goes on. -/
theorem Merged.copy {m : ByteMem} {r r₁ r' : Merging} {w : List (Elem s)} {p : ℕ}
    (h : Merged cmp thunk m r₁ r' w) (ht : r₁.t = memcpy r.t r.tmp m p s) (htmp : r₁.tmp = r.tmp + s)
    (hcount : r₁.nA + r₁.nB + 1 = r.nA + r.nB) (hbehind : r₁.bB + r₁.nB * s = r.bB + r.nB * s)
    (hmerge : List.merge (elems s m r.bA r.nA) (elems s m r.bB r.nB) (leftFirst cmp thunk) =
      elemAt s m p :: List.merge (elems s m r₁.bA r₁.nA) (elems s m r₁.bB r₁.nB) (leftFirst cmp thunk)) :
    Merged cmp thunk m r r' (elemAt s m p :: w) where
  merge := by rw [hmerge, h.merge]; rfl
  written := by
    have hfirst : elemAt s r'.t r.tmp = elemAt s m p := by
      refine elemAt_congr fun i hi => ?_
      rw [h.before _ (by omega), ht, memcpy_apply, if_pos (by omega), Nat.add_sub_cancel_left]
    rw [List.length_cons, elems_succ_front, hfirst, ← htmp, h.written]
  tmp := by
    rw [h.tmp, htmp, List.length_cons, Nat.succ_mul]
    omega
  before a ha := by rw [h.before a (by omega), ht, memcpy_apply, if_neg (by omega)]
  count := by
    have hrest := h.count
    rw [List.length_cons]
    omega
  ended := h.ended
  behind := h.behind.trans hbehind

variable (cmp thunk) in
/-- **The merging loop**. -/
theorem mergeLoop_spec (m : ByteMem) (r : Merging) : ∃ w, Merged cmp thunk m r (mergeLoop cmp thunk m r) w := by
  induction r using mergeLoop.induct cmp thunk m with
  | case1 r hpos hle ih =>
    obtain ⟨w, hw⟩ := ih
    obtain ⟨nA, hnA⟩ : ∃ nA, r.nA = nA + 1 := ⟨r.nA - 1, by omega⟩
    obtain ⟨nB, hnB⟩ : ∃ nB, r.nB = nB + 1 := ⟨r.nB - 1, by omega⟩
    rw [mergeLoop, if_pos hpos, if_pos hle]
    refine ⟨_, hw.copy rfl rfl (by dsimp only; omega) rfl ?_⟩
    dsimp only
    rw [hnA, hnB, elems_succ_front, elems_succ_front s m r.bB, List.cons_merge_cons,
      if_pos (show leftFirst cmp thunk _ _ = true from decide_eq_true hle), Nat.add_sub_cancel]
  | case2 r hpos hle ih =>
    obtain ⟨w, hw⟩ := ih
    obtain ⟨nA, hnA⟩ : ∃ nA, r.nA = nA + 1 := ⟨r.nA - 1, by omega⟩
    obtain ⟨nB, hnB⟩ : ∃ nB, r.nB = nB + 1 := ⟨r.nB - 1, by omega⟩
    rw [mergeLoop, if_pos hpos, if_neg hle]
    refine ⟨_, hw.copy rfl rfl (by dsimp only; omega) ?_ ?_⟩
    · dsimp only
      rw [hnB, Nat.add_sub_cancel, Nat.succ_mul]
      omega
    · dsimp only
      rw [hnA, hnB, elems_succ_front, elems_succ_front s m r.bB, List.cons_merge_cons,
        if_neg (show ¬ leftFirst cmp thunk _ _ = true from fun hno => hle (of_decide_eq_true hno)),
        Nat.add_sub_cancel]
  | case3 r hpos =>
    rw [mergeLoop, if_neg hpos]
    have hover : r.nA = 0 ∨ r.nB = 0 := by omega
    refine ⟨[], ?_, rfl, by simp, fun _ _ => rfl, by simp, hover, rfl⟩
    rcases hover with hzero | hzero
    · rw [hzero, elems_zero, List.nil_merge]
      rfl
    · rw [hzero, elems_zero, List.merge_right, List.nil_append, List.append_nil]

variable (cmp thunk) in
/-- **Merging the halves** in their place. -/
theorem mergeHalves_spec (n b : ℕ) (m t : ByteMem) :
    elems s (mergeHalves cmp thunk n b m t).1 b n =
        List.merge (elems s m b (n / 2)) (elems s m (b + n / 2 * s) (n - n / 2)) (leftFirst cmp thunk) ∧
      SameOutside s b n m (mergeHalves cmp thunk n b m t).1 := by
  obtain ⟨w, hw⟩ := mergeLoop_spec cmp thunk m ⟨n / 2, n - n / 2, b, b + n / 2 * s, 0, t⟩
  unfold mergeHalves
  dsimp only
  set r := mergeLoop cmp thunk m ⟨n / 2, n - n / 2, b, b + n / 2 * s, 0, t⟩ with hr
  have hcount := hw.count
  have htmp := hw.tmp
  dsimp only at hcount htmp
  have hleft : n - r.nB = w.length + r.nA := by omega
  -- the temporary memory has what was merged and what is left of the left half
  set t' := (if 0 < r.nA then memcpy r.t r.tmp m r.bA (r.nA * s) else r.t) with ht'
  have hwritten : elems s t' 0 (n - r.nB) = w ++ elems s m r.bA r.nA := by
    rw [hleft, elems_add, Nat.zero_add]
    by_cases hrest : 0 < r.nA
    · rw [ht', if_pos hrest, htmp, Nat.zero_add, elems_memcpy,
        elems_memcpy_of_disjoint (Or.inl (by rw [Nat.zero_add])), hw.written]
    · have hzero : r.nA = 0 := by omega
      rw [ht', if_neg hrest, hw.written, hzero, elems_zero, elems_zero]
  have hn : n = (n - r.nB) + r.nB := by omega
  have hbehind : b + (n - r.nB) * s = r.bB := by
    have hend := hw.behind
    dsimp only at hend
    have hall : (n - r.nB) * s + r.nB * s = n / 2 * s + (n - n / 2) * s := by
      rw [← Nat.add_mul, ← Nat.add_mul, ← hn]
      congr 1
      omega
    omega
  have hparts : ∀ m', elems s m' b n = elems s m' b (n - r.nB) ++ elems s m' r.bB r.nB := fun m' => by
    rw [← hbehind, ← elems_add, ← hn]
  refine ⟨?_, fun a ha => ?_⟩
  · rw [hparts, elems_memcpy, hwritten, elems_memcpy_of_disjoint (Or.inr (by rw [hbehind]))]
    exact hw.merge.symm
  · have hle : (n - r.nB) * s ≤ n * s := Nat.mul_le_mul_right s (Nat.sub_le _ _)
    rw [memcpy_apply, if_neg (by omega)]

/-- **Merge sort** of the elements from `b` on. -/
theorem msortRWithTmp_spec (h : TotalPreorder cmp thunk) (n b : ℕ) (m t : ByteMem) :
    Sorts cmp thunk b n m (msortRWithTmp cmp thunk n b m t).1 := by
  induction n, b, m, t using msortRWithTmp.induct cmp thunk with
  | case1 n b m t hsmall =>
    rw [msortRWithTmp, if_pos hsmall]
    exact insertionSort_spec h b n m
  | case2 n b m t hlarge m₁ t₁ hfirst m₂ t₂ hsecond ih₁ ih₂ =>
    rw [hfirst] at ih₁
    rw [hsecond] at ih₂
    rw [msortRWithTmp, if_neg hlarge, hfirst]
    dsimp only
    rw [hsecond]
    obtain ⟨hmerged, hout⟩ := mergeHalves_spec cmp thunk n b m₂ t₂
    have hhalves : n / 2 * s + (n - n / 2) * s = n * s := by
      rw [← Nat.add_mul]
      congr 1
      omega
    -- the halves do not see each other
    have hleft : elems s m₂ b (n / 2) = elems s m₁ b (n / 2) := ih₂.outside.elems_eq (Or.inl (Nat.le_refl _))
    have hright : elems s m₁ (b + n / 2 * s) (n - n / 2) = elems s m (b + n / 2 * s) (n - n / 2) :=
      ih₁.outside.elems_eq (Or.inr (Nat.le_refl _))
    have hold : elems s m b n = elems s m b (n / 2) ++ elems s m (b + n / 2 * s) (n - n / 2) := by
      rw [← elems_add]
      congr 1
      omega
    have hboth := ih₁.sorted.merge h.order ih₂.sorted
    rw [hright, ← hold, ← hleft] at hboth
    refine ⟨hmerged ▸ hboth, ?_⟩
    have hfirst : SameOutside s b n m m₁ := ih₁.outside.mono (Nat.le_refl _) (by omega)
    have hsecond : SameOutside s b n m₁ m₂ := ih₂.outside.mono (by omega) (by omega)
    exact (hfirst.trans hsecond).trans hout

/-! ### The result -/

/-- The elements are sorted, none is lost or made, and elements that compare equal stand as they stood. -/
structure SortsStably (cmp : Elem s → Elem s → T → ℤ) (thunk : T) (old new : List (Elem s)) : Prop where
  perm : new.Perm old
  sorted : new.Pairwise fun a b => cmp a b thunk ≤ 0
  stable : ∀ x, new.filter (fun y => cmp x y thunk ≤ 0 ∧ cmp y x thunk ≤ 0) =
    old.filter fun y => cmp x y thunk ≤ 0 ∧ cmp y x thunk ≤ 0

theorem Sorts.sortsStably (h : TotalPreorder cmp thunk) (hs : Sorts cmp thunk b n m m') :
    SortsStably cmp thunk (elems s m b n) (elems s m' b n) where
  perm := hs.sorted.perm
  sorted := hs.sorted.sorted.imp fun hle => of_decide_eq_true hle
  stable x := by
    have heq := hs.sorted.filter_eq h.order x
    simpa only [leftFirst, Bool.decide_and] using heq

/-- **Merge sort is a stable sort** of the array, and leaves what is behind it. -/
theorem msortR_stable (h : TotalPreorder cmp thunk) (n : ℕ) (m tmp : ByteMem) :
    SortsStably cmp thunk (elems s m 0 n) (elems s (msortR cmp thunk n m tmp) 0 n) ∧
      ∀ a, n * s ≤ a → msortR cmp thunk n m tmp a = m a := by
  have hsorts : Sorts cmp thunk 0 n m (msortR cmp thunk n m tmp) := by
    unfold msortR
    split_ifs
    · exact insertionSort_spec h 0 n m
    · exact msortRWithTmp_spec h n 0 m tmp
  exact ⟨hsorts.sortsStably h, fun a ha => hsorts.outside a (Or.inr (by omega))⟩

/-- Elements of two bytes that are compared by the first one; the argument says whether the order is turned round. -/
def compareFirst (a b : Elem 2) (thunk : Bool) : ℤ :=
  if thunk then (b.head.toNat : ℤ) - a.head.toNat else (a.head.toNat : ℤ) - b.head.toNat

theorem compareFirst_totalPreorder (thunk : Bool) : TotalPreorder compareFirst thunk where
  trans a b c := by
    unfold compareFirst
    cases thunk <;> simp <;> omega
  total a b := by
    unfold compareFirst
    cases thunk <;> simp <;> omega

/-- Twelve elements whose first bytes go down in pairs, with the number of the element as the second byte. -/
def pairsDown : ByteMem := fun a => if a % 2 = 0 then UInt8.ofNat (11 - a / 4) else UInt8.ofNat (a / 2)

theorem msortR_stable_pairsDown :
    SortsStably compareFirst false (elems 2 pairsDown 0 12)
        (elems 2 (msortR compareFirst false 12 pairsDown fun _ => 0) 0 12) ∧
      ∀ a, 12 * 2 ≤ a → msortR compareFirst false 12 pairsDown (fun _ => 0) a = pairsDown a :=
  msortR_stable (compareFirst_totalPreorder false) 12 pairsDown fun _ => 0

end sorting

end MsortR
end Fcitx
