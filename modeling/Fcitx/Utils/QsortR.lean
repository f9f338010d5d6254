/-
# Quicksort of an array of bytes

`fcitx-utils/qsort_r.c`: from ten elements on, the middle one of the first, the middle
and the last element goes to the end as the pivot, what is not behind it is swapped to
the front, and both sides are sorted again. Whatever the comparison says, the elements
are only moved around in their place (`QsortR.qsortR_spec`), and with an order they
come out sorted.

Key definitions: `QsortR.pivotIndex`, `QsortR.partition`, `QsortR.qsortR`, `QsortR.Moves`.
Key theorems: `QsortR.elemAt_swap`, `QsortR.partition_spec`, `QsortR.qsortR_moves`,
`QsortR.qsortR_spec`.
-/
import Fcitx.Utils.MsortR
import Mathlib.Logic.Equiv.Basic

namespace Fcitx
namespace QsortR

open MsortR

section sorting

variable {s : ℕ} {T : Type} (cmp : Elem s → Elem s → T → ℤ) (thunk : T)

/-- The median of the first, the middle and the last element. -/
def pivotIndex (base nmemb : ℕ) (m : ByteMem) : ℕ :=
  let a := elemAt s m base
  let b := elemAt s m (base + nmemb / 2 * s)
  let c := elemAt s m (base + (nmemb - 1) * s)
  if cmp a b thunk < 0 then
    if cmp b c thunk < 0 then nmemb / 2 else if cmp a c thunk < 0 then nmemb - 1 else 0
  else if cmp a c thunk < 0 then 0 else if cmp b c thunk < 0 then nmemb - 1 else nmemb / 2

/-- The body of the loop that partitions: `npart` and the array. -/
def partitionStep (base pivot : ℕ) (r : ℕ × ByteMem) (i : ℕ) : ℕ × ByteMem :=
  if cmp (elemAt s r.2 (base + i * s)) (elemAt s r.2 (base + pivot)) thunk ≤ 0 then
    (r.1 + 1, swap (base + i * s) (base + r.1 * s) s r.2)
  else r

/-- The array in two parts around the pivot. -/
def partition (base nmemb : ℕ) (m : ByteMem) : ℕ × ByteMem :=
  let pivot := pivotIndex cmp thunk base nmemb m
  let m := swap (base + pivot * s) (base + (nmemb - 1) * s) s m
  let pivot := (nmemb - 1) * s
  let (npart, m) := (List.range (nmemb - 1)).foldl (partitionStep cmp thunk base pivot) (0, m)
  (npart, swap (base + npart * s) (base + pivot) s m)

theorem foldl_npart_le (base pivot : ℕ) (is : List ℕ) (r : ℕ × ByteMem) :
    (is.foldl (partitionStep cmp thunk base pivot) r).1 ≤ r.1 + is.length := by
  induction is generalizing r with
  | nil => exact Nat.le_refl _
  | cons i is ih =>
    have hstep : (partitionStep cmp thunk base pivot r i).1 ≤ r.1 + 1 := by
      unfold partitionStep
      split
      · exact Nat.le_refl _
      · exact Nat.le_succ _
    calc _ ≤ (partitionStep cmp thunk base pivot r i).1 + is.length := ih _
      _ ≤ r.1 + (i :: is).length := by
        rw [List.length_cons]
        omega

/-- The pivot ends up in the array. -/
theorem partition_lt {nmemb : ℕ} (hn : 0 < nmemb) (base : ℕ) (m : ByteMem) :
    (partition cmp thunk base nmemb m).1 < nmemb := by
  have hle := foldl_npart_le cmp thunk base ((nmemb - 1) * s) (List.range (nmemb - 1))
    (0, swap (base + pivotIndex cmp thunk base nmemb m * s) (base + (nmemb - 1) * s) s m)
  rw [List.length_range, Nat.zero_add] at hle
  exact Nat.lt_of_le_of_lt hle (Nat.sub_lt hn Nat.one_pos)

/-- `fcitx_qsort_r` -/
def qsortR (nmemb base : ℕ) (m : ByteMem) : ByteMem :=
  if h : nmemb < 10 then insertionSort cmp thunk base nmemb m
  else
    let r := partition cmp thunk base nmemb m
    have hlt : r.1 < nmemb := partition_lt cmp thunk (by omega) base m
    let m := qsortR r.1 base r.2
    -- the pivot stays where it is
    qsortR (nmemb - (r.1 + 1)) (base + (r.1 + 1) * s) m
termination_by nmemb

end sorting

/-! ### Swapping -/

variable {s : ℕ} {m m' : ByteMem} {b n i j k : ℕ}

theorem swapLoop_comm (w : ℕ) : ∀ (count a b : ℕ), a + count * w ≤ b → ∀ m : ByteMem,
    swapLoop w count b a m = swapLoop w count a b m := by
  intro count
  induction count with
  | zero => exact fun _ _ _ _ => rfl
  | succ count ih =>
    intro a b h m
    rw [Nat.succ_mul] at h
    unfold swapLoop
    have hstore : (m.store b (m.load a w)).store a (m.load b w) = (m.store a (m.load b w)).store b (m.load a w) := by
      funext x
      rw [← memcpy, ← memcpy, ← memcpy, ← memcpy]
      simp only [memcpy_apply]
      split_ifs <;> first | rfl | omega
    dsimp only
    rw [hstore, ih (a + w) (b + w) (by omega)]

/-- Swapping does not know which of two blocks is which. -/
theorem swap_comm {a b size : ℕ} (h : a + size ≤ b) (m : ByteMem) : swap b a size m = swap a b size m := by
  unfold swap
  by_cases hab : a = b
  · rw [if_pos hab, if_pos hab.symm]
  · have hsize : size / sizeofLong * sizeofLong + size % sizeofLong = size := by
      rw [Nat.mul_comm]
      exact Nat.div_add_mod size sizeofLong
    rw [if_neg hab, if_neg fun he => hab he.symm]
    dsimp only
    rw [swapLoop_comm sizeofLong _ a b (by omega), swapLoop_comm 1 _ _ _ (by omega)]

/-- **Swapping two elements** of an array. -/
theorem elemAt_swap (m : ByteMem) (b i j k : ℕ) :
    elemAt s (swap (b + i * s) (b + j * s) s m) (b + k * s) = elemAt s m (b + Equiv.swap i j k * s) := by
  wlog hij : i < j generalizing i j
  · rcases Nat.lt_or_eq_of_le (Nat.le_of_not_lt hij) with hji | rfl
    · have hle := ByteMem.slot_end_le hji s
      rw [swap_comm (by omega), this j i hji, Equiv.swap_comm]
    · rw [Equiv.swap_self, swap, if_pos rfl]
      rfl
  · have hle := ByteMem.slot_end_le hij s
    have hswap := swap_apply (show b + i * s + s ≤ b + j * s by omega) m
    by_cases hki : k = i
    · subst hki
      rw [Equiv.swap_apply_left]
      refine elemAt_congr fun x hx => ?_
      rw [hswap, if_pos (by omega), Nat.add_sub_cancel_left]
    · by_cases hkj : k = j
      · subst hkj
        rw [Equiv.swap_apply_right]
        refine elemAt_congr fun x hx => ?_
        rw [hswap, if_neg (by omega), if_pos (by omega), Nat.add_sub_cancel_left]
      · rw [Equiv.swap_apply_of_ne_of_ne hki hkj]
        refine elemAt_congr fun x hx => ?_
        have hsep : ∀ c, k ≠ c → ¬ (b + c * s ≤ b + k * s + x ∧ b + k * s + x < b + c * s + s) := by
          intro c hkc
          rcases Nat.lt_or_gt_of_ne hkc with hlt | hlt
          · have hend := ByteMem.slot_end_le hlt s
            omega
          · have hend := ByteMem.slot_end_le hlt s
            omega
        rw [hswap, if_neg (hsep i hki), if_neg (hsep j hkj)]

theorem swap_outside (hi : i < n) (hj : j < n) (m : ByteMem) :
    SameOutside s b n m (swap (b + i * s) (b + j * s) s m) := by
  wlog hij : i < j generalizing i j
  · rcases Nat.lt_or_eq_of_le (Nat.le_of_not_lt hij) with hji | rfl
    · have hle := ByteMem.slot_end_le hji s
      rw [swap_comm (by omega)]
      exact this hj hi hji
    · rw [swap, if_pos rfl]
      exact SameOutside.refl _ _ _ _
  · intro a ha
    have hle := ByteMem.slot_end_le hij s
    have hend := ByteMem.slot_end_le hj s
    rw [swap_apply (by omega), if_neg (by omega), if_neg (by omega)]

/-! ### Moving elements around -/

/-- The elements are those from before in some order, and nothing else has changed. -/
structure Moves (s b n : ℕ) (m m' : ByteMem) : Prop where
  perm : (elems s m' b n).Perm (elems s m b n)
  outside : SameOutside s b n m m'

theorem Moves.refl (s b n : ℕ) (m : ByteMem) : Moves s b n m m := ⟨List.Perm.refl _, SameOutside.refl _ _ _ m⟩

theorem Moves.trans {m'' : ByteMem} (h : Moves s b n m m') (h' : Moves s b n m' m'') : Moves s b n m m'' :=
  ⟨h'.perm.trans h.perm, h.outside.trans h'.outside⟩

/-- Elements moved in a part of the array. -/
theorem Moves.mono {l k : ℕ} (h : Moves s (b + l * s) k m m') (hn : l + k ≤ n) : Moves s b n m m' := by
  have hsplit : ∀ m, elems s m b n = elems s m b l ++ elems s m (b + l * s) k ++
      elems s m (b + (l + k) * s) (n - (l + k)) := fun m => by
    rw [← elems_add, ← elems_add]
    congr 1
    omega
  have hl : (l + k) * s = l * s + k * s := Nat.add_mul _ _ _
  have hnk : (l + k) * s ≤ n * s := Nat.mul_le_mul_right s hn
  refine ⟨?_, h.outside.mono (Nat.le_add_right _ _) (by omega)⟩
  have hbefore : elems s m' b l = elems s m b l := h.outside.elems_eq (Or.inl (Nat.le_refl _))
  have hafter : elems s m' (b + (l + k) * s) (n - (l + k)) = elems s m (b + (l + k) * s) (n - (l + k)) :=
    h.outside.elems_eq (Or.inr (by omega))
  rw [hsplit, hsplit, hbefore, hafter]
  exact (h.perm.append_left _).append_right _

theorem swap_moves (hi : i < n) (hj : j < n) (m : ByteMem) :
    Moves s b n m (swap (b + i * s) (b + j * s) s m) := by
  refine ⟨?_, swap_outside hi hj m⟩
  have hmap : elems s (swap (b + i * s) (b + j * s) s m) b n =
      ((List.range n).map (Equiv.swap i j)).map fun k => elemAt s m (b + k * s) := by
    rw [elems, List.map_map]
    exact List.map_congr_left fun k _ => elemAt_swap m b i j k
  have hrange : ((List.range n).map (Equiv.swap i j)).Perm (List.range n) := by
    have hnd : ((List.range n).map (Equiv.swap i j)).Nodup := List.nodup_range.map (Equiv.injective _)
    refine (List.perm_ext_iff_of_nodup hnd List.nodup_range).mpr fun k => ?_
    have hlt : ∀ k, k < n → Equiv.swap i j k < n := by
      intro k hk
      rw [Equiv.swap_apply_def]
      split
      · exact hj
      · split
        · exact hi
        · exact hk
    simp only [List.mem_map, List.mem_range]
    constructor
    · rintro ⟨k', hk', rfl⟩
      exact hlt k' hk'
    · exact fun hk => ⟨Equiv.swap i j k, hlt k hk, Equiv.swap_apply_self i j k⟩
  rw [hmap]
  exact hrange.map _

/-! ### Partitioning -/

section partitioning

variable {T : Type} (cmp : Elem s → Elem s → T → ℤ) (thunk : T)

theorem pivotIndex_lt (hn : 0 < n) (b : ℕ) (m : ByteMem) : pivotIndex cmp thunk b n m < n := by
  have hhalf : n / 2 < n := Nat.div_lt_self hn (by decide)
  have hlast : n - 1 < n := Nat.sub_lt hn Nat.one_pos
  unfold pivotIndex
  dsimp only
  split_ifs <;> assumption

/-- The loop has seen the elements before `i`: the first `npart` ones are not behind the pivot, the others are. -/
structure Parting (b n i npart : ℕ) (x : Elem s) (m : ByteMem) : Prop where
  le : npart ≤ i
  pivot : elemAt s m (b + (n - 1) * s) = x
  front : ∀ k, k < npart → cmp (elemAt s m (b + k * s)) x thunk ≤ 0
  behind : ∀ k, npart ≤ k → k < i → ¬ cmp (elemAt s m (b + k * s)) x thunk ≤ 0

variable {cmp thunk} {x : Elem s} {npart : ℕ}

/-- **One element seen.** -/
theorem Parting.step (P : Parting cmp thunk b n i npart x m) (hi : i < n - 1) :
    ∃ r, partitionStep cmp thunk b ((n - 1) * s) (npart, m) i = r ∧ Parting cmp thunk b n (i + 1) r.1 x r.2 ∧
      Moves s b n m r.2 := by
  refine ⟨_, rfl, ?_⟩
  have hle := P.le
  unfold partitionStep
  rw [P.pivot]
  split
  · next hc =>
    refine ⟨⟨Nat.succ_le_succ P.le, ?_, fun k hk => ?_, fun k hk hki => ?_⟩, swap_moves (by omega) (by omega) m⟩
    · rw [elemAt_swap, Equiv.swap_apply_of_ne_of_ne (by omega) (by omega)]
      exact P.pivot
    · rw [elemAt_swap]
      by_cases hkn : k = npart
      · rw [hkn, Equiv.swap_apply_right]
        exact hc
      · rw [Equiv.swap_apply_of_ne_of_ne (by omega) hkn]
        exact P.front k (by omega)
    · rw [elemAt_swap]
      dsimp only at hk
      by_cases hkeq : k = i
      · rw [hkeq, Equiv.swap_apply_left]
        exact P.behind npart (Nat.le_refl _) (by omega)
      · rw [Equiv.swap_apply_of_ne_of_ne hkeq (by omega)]
        exact P.behind k (by omega) (by omega)
  · next hc =>
    refine ⟨⟨by omega, P.pivot, P.front, fun k hk hki => ?_⟩, Moves.refl _ _ _ m⟩
    by_cases hkeq : k = i
    · rw [hkeq]
      exact hc
    · exact P.behind k hk (by omega)

variable (cmp thunk) in
/-- **The partition.** -/
theorem partition_spec (hn : 0 < n) (b : ℕ) (m : ByteMem) :
    ∃ npart m', partition cmp thunk b n m = (npart, m') ∧ npart < n ∧ Moves s b n m m' ∧
      (∀ k, k < npart → cmp (elemAt s m' (b + k * s)) (elemAt s m' (b + npart * s)) thunk ≤ 0) ∧
      ∀ k, npart < k → k < n → ¬ cmp (elemAt s m' (b + k * s)) (elemAt s m' (b + npart * s)) thunk ≤ 0 := by
  set p := pivotIndex cmp thunk b n m with hp
  have hpn : p < n := pivotIndex_lt cmp thunk hn b m
  have hlast : n - 1 < n := Nat.sub_lt hn Nat.one_pos
  set m₁ := swap (b + p * s) (b + (n - 1) * s) s m with hm₁
  have hloop : ∀ i, i ≤ n - 1 → ∃ r, (List.range i).foldl (partitionStep cmp thunk b ((n - 1) * s)) (0, m₁) = r ∧
      Parting cmp thunk b n i r.1 (elemAt s m₁ (b + (n - 1) * s)) r.2 ∧ Moves s b n m₁ r.2 := by
    intro i
    induction i with
    | zero =>
      exact fun _ => ⟨_, rfl, ⟨Nat.le_refl _, rfl, fun k hk => absurd hk (Nat.not_lt_zero k),
        fun k _ hk => absurd hk (Nat.not_lt_zero k)⟩, Moves.refl _ _ _ _⟩
    | succ i ih =>
      intro hi
      obtain ⟨r, hr, P, hmoves⟩ := ih (by omega)
      obtain ⟨r', hr', P', hmoves'⟩ := P.step (by omega)
      refine ⟨r', ?_, P', hmoves.trans hmoves'⟩
      rw [List.range_succ, List.foldl_append, hr]
      exact hr'
  obtain ⟨⟨npart, m₂⟩, hr, P, hmoves⟩ := hloop (n - 1) (Nat.le_refl _)
  have hle := P.le
  dsimp only at P hmoves hle
  refine ⟨npart, swap (b + npart * s) (b + (n - 1) * s) s m₂, ?_, by omega, ?_, fun k hk => ?_, fun k hk hkn => ?_⟩
  · unfold partition
    dsimp only
    rw [← hp, ← hm₁, hr]
  · exact ((swap_moves hpn hlast m).trans hmoves).trans (swap_moves (by omega) hlast m₂)
  · rw [elemAt_swap, elemAt_swap, Equiv.swap_apply_left, P.pivot, Equiv.swap_apply_of_ne_of_ne (by omega) (by omega)]
    exact P.front k hk
  · rw [elemAt_swap, elemAt_swap, Equiv.swap_apply_left, P.pivot]
    by_cases hkl : k = n - 1
    · rw [hkl, Equiv.swap_apply_right]
      exact P.behind npart (Nat.le_refl _) (by omega)
    · rw [Equiv.swap_apply_of_ne_of_ne (by omega) hkl]
      exact P.behind k (by omega) (by omega)

/-! ### Sorting -/

/-- The array around the pivot. -/
theorem qsortR_of_partition {m' : ByteMem} (hn : ¬ n < 10) (hpart : partition cmp thunk b n m = (npart, m')) :
    qsortR cmp thunk n b m =
      qsortR cmp thunk (n - (npart + 1)) (b + (npart + 1) * s) (qsortR cmp thunk npart b m') := by
  rw [qsortR, dif_neg hn]
  simp only [hpart]

variable (cmp thunk) in
/-- Sorting by insertion moves elements around, whatever the comparison says. -/
theorem insertionSort_moves (b n : ℕ) (m : ByteMem) : Moves s b n m (insertionSort cmp thunk b n m) := by
  induction n with
  | zero => exact Moves.refl _ _ _ m
  | succ n ih =>
    unfold insertionSort at ih ⊢
    rw [List.range_succ, List.foldl_append]
    generalize (List.range n).foldl (fun m i => insertLoop cmp thunk b i m) m = m₁ at ih ⊢
    obtain ⟨helems, hrest⟩ := insertLoop_spec cmp thunk b n m₁
    have hmono : Moves s b (n + 1) m m₁ := by
      have h0 : Moves s (b + 0 * s) n m m₁ := by simpa using ih
      exact h0.mono (by omega)
    refine hmono.trans ⟨?_, hrest⟩
    show (elems s (insertLoop cmp thunk b n m₁) b (n + 1)).Perm _
    rw [helems, elems_succ, insertBack]
    calc ((elems s m₁ b n).reverse.orderedInsert _ (elemAt s m₁ (b + n * s))).reverse.Perm _ := List.reverse_perm _
      List.Perm _ (elemAt s m₁ (b + n * s) :: (elems s m₁ b n).reverse) := List.perm_orderedInsert _ _ _
      List.Perm _ (elemAt s m₁ (b + n * s) :: elems s m₁ b n) := (List.reverse_perm _).cons _
      List.Perm _ (elems s m₁ b n ++ [elemAt s m₁ (b + n * s)]) := (List.perm_append_singleton _ _).symm

variable (cmp thunk) in
/-- **Quicksort moves elements around**, whatever the comparison says. -/
theorem qsortR_moves (n b : ℕ) (m : ByteMem) : Moves s b n m (qsortR cmp thunk n b m) := by
  induction n using Nat.strong_induction_on generalizing b m with
  | h n ih =>
    by_cases hn : n < 10
    · rw [qsortR, dif_pos hn]
      exact insertionSort_moves cmp thunk b n m
    · obtain ⟨npart, m', hpart, hlt, hmoves, -, -⟩ := partition_spec cmp thunk (by omega : 0 < n) b m
      rw [qsortR_of_partition hn hpart]
      have hleft : Moves s (b + 0 * s) npart m' (qsortR cmp thunk npart b m') := by
        simpa using ih npart hlt b m'
      have hright := ih (n - (npart + 1)) (by omega) (b + (npart + 1) * s) (qsortR cmp thunk npart b m')
      exact (hmoves.trans (hleft.mono (by omega))).trans (hright.mono (by omega))

/-- **Quicksort sorts.** -/
theorem qsortR_pairwise (h : TotalPreorder cmp thunk) (n b : ℕ) (m : ByteMem) :
    (elems s (qsortR cmp thunk n b m) b n).Pairwise fun a c => cmp a c thunk ≤ 0 := by
  induction n using Nat.strong_induction_on generalizing b m with
  | h n ih =>
    by_cases hn : n < 10
    · rw [qsortR, dif_pos hn]
      exact ((insertionSort_spec h b n m).sortsStably h).sorted
    · obtain ⟨npart, m', hpart, hlt, -, hfront, hbehind⟩ := partition_spec cmp thunk (by omega : 0 < n) b m
      rw [qsortR_of_partition hn hpart]
      set m₁ := qsortR cmp thunk npart b m' with hm₁
      set m₂ := qsortR cmp thunk (n - (npart + 1)) (b + (npart + 1) * s) m₁ with hm₂
      have hmoves₁ : Moves s b npart m' m₁ := qsortR_moves cmp thunk npart b m'
      have hmoves₂ : Moves s (b + (npart + 1) * s) (n - (npart + 1)) m₁ m₂ := qsortR_moves cmp thunk _ _ m₁
      have hsucc : (npart + 1) * s = npart * s + s := Nat.succ_mul _ _
      -- the two sides and the pivot do not touch each other
      have hleft : elems s m₂ b npart = elems s m₁ b npart := hmoves₂.outside.elems_eq (Or.inl (by omega))
      have hright : elems s m₁ (b + (npart + 1) * s) (n - (npart + 1)) =
          elems s m' (b + (npart + 1) * s) (n - (npart + 1)) := hmoves₁.outside.elems_eq (Or.inr (by omega))
      have hpivot : elemAt s m₂ (b + npart * s) = elemAt s m' (b + npart * s) := by
        refine elemAt_congr fun i hi => ?_
        rw [hmoves₂.outside _ (Or.inl (by omega)), hmoves₁.outside _ (Or.inr (by omega))]
      have hsplit : elems s m₂ b n = elems s m₂ b npart ++
          elemAt s m₂ (b + npart * s) :: elems s m₂ (b + (npart + 1) * s) (n - (npart + 1)) := by
        have hnn : n = npart + (1 + (n - (npart + 1))) := by omega
        calc elems s m₂ b n = elems s m₂ b (npart + (1 + (n - (npart + 1)))) := by rw [← hnn]
          _ = _ := by rw [elems_add, elems_add, elems_one, Nat.one_mul, Nat.add_assoc, ← hsucc]; rfl
      have hfront' : ∀ a ∈ elems s m₂ b npart, cmp a (elemAt s m' (b + npart * s)) thunk ≤ 0 := by
        intro a ha
        rw [hleft, hmoves₁.perm.mem_iff, elems, List.mem_map] at ha
        obtain ⟨k, hk, rfl⟩ := ha
        exact hfront k (List.mem_range.mp hk)
      have hbehind' : ∀ c ∈ elems s m₂ (b + (npart + 1) * s) (n - (npart + 1)),
          cmp (elemAt s m' (b + npart * s)) c thunk ≤ 0 := by
        intro c hc
        rw [hmoves₂.perm.mem_iff, hright, elems, List.mem_map] at hc
        obtain ⟨k, hk, rfl⟩ := hc
        have hslot : b + (npart + 1) * s + k * s = b + (npart + 1 + k) * s := by rw [Nat.add_assoc, ← Nat.add_mul]
        rw [hslot]
        have hkn := List.mem_range.mp hk
        exact (h.total _ _).resolve_right (hbehind (npart + 1 + k) (by omega) (by omega))
      rw [hsplit, hpivot, List.pairwise_append, List.pairwise_cons]
      refine ⟨hleft ▸ ih npart hlt b m', ⟨hbehind', ih _ (by omega) _ m₁⟩, fun a ha c hc => ?_⟩
      rcases List.mem_cons.mp hc with rfl | hc
      · exact hfront' a ha
      · exact h.trans _ _ _ (hfront' a ha) (hbehind' c hc)

/-- **`fcitx_qsort_r`.** Whatever the comparison says, the elements are the old ones in some order and no other byte is
written; if it is a total preorder they are sorted. -/
theorem qsortR_spec (cmp : Elem s → Elem s → T → ℤ) (thunk : T) (n b : ℕ) (m : ByteMem) :
    (elems s (qsortR cmp thunk n b m) b n).Perm (elems s m b n) ∧
      (∀ a, a < b ∨ b + n * s ≤ a → qsortR cmp thunk n b m a = m a) ∧
      (TotalPreorder cmp thunk →
        (elems s (qsortR cmp thunk n b m) b n).Pairwise fun a c => cmp a c thunk ≤ 0) :=
  ⟨(qsortR_moves cmp thunk n b m).perm, (qsortR_moves cmp thunk n b m).outside, fun h => qsortR_pairwise h n b m⟩

end partitioning

end QsortR
end Fcitx
