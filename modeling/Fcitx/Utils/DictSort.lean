/-
# Sorting a dictionary

`fcitx_dict_sort` of `fcitx-utils/dict.c` and `HASH_SORT` of `uthash.h`: the
entries of the table get a new order. Without a comparison the keys are compared
as byte strings. The table is read through the dictionary, which may be NULL.

Key definitions: `StablySorted`, `HashSort`, `HashSort.uthash`, `dictSort`,
`itemDefaultCompare`.
Key theorems: `itemDefaultCompare_le_iff`, `StablySorted.keys`.
-/
import Fcitx.Lib.MergeSort
import Fcitx.Utils.Dict

namespace Fcitx

/-- `FcitxDictCompareFunc`, of which only the sign counts. -/
abbrev DictCompareFunc (A : Type) := Bytes → A → Bytes → A → ℤ

/-- A comparison that orders the entries; entries may be equal for it. -/
structure ConsistentOn {E : Type} (compare : E → E → ℤ) (l : List E) : Prop where
  trans : ∀ a ∈ l, ∀ b ∈ l, ∀ c ∈ l, compare a b ≤ 0 → compare b c ≤ 0 → compare a c ≤ 0
  total : ∀ a ∈ l, ∀ b ∈ l, compare a b ≤ 0 ∨ compare b a ≤ 0

/-- The entries in the order of the comparison; what was in order before is still so, as it stood. -/
structure StablySorted {E : Type} (compare : E → E → ℤ) (old new : List E) : Prop where
  perm : new.Perm old
  ordered : ConsistentOn compare old → new.Pairwise fun a b => compare a b ≤ 0
  stable : ConsistentOn compare old → ∀ c : List E, c.Sublist old → (c.Pairwise fun a b => compare a b ≤ 0) →
    c.Sublist new

/-- `HASH_SORT` of a table that is there: a stable sort. -/
structure HashSort (E : Type) where
  sort : (E → E → ℤ) → List E → List E
  sorted : ∀ compare l, StablySorted compare l (sort compare l)

section sorting

variable {E : Type}

/-- The left entry goes first in a merge. -/
def leftFirst (compare : E → E → ℤ) (a b : E) : Bool := compare a b ≤ 0

theorem ConsistentOn.orderOn {compare : E → E → ℤ} {l : List E} (h : ConsistentOn compare l) :
    MergeSort.OrderOn (leftFirst compare) l where
  trans a ha b hb c hc hab hbc :=
    decide_eq_true (h.trans a ha b hb c hc (of_decide_eq_true hab) (of_decide_eq_true hbc))
  total a ha b hb := by
    rw [Bool.or_eq_true]
    exact (h.total a ha b hb).imp decide_eq_true decide_eq_true

/-- The merge sort of `uthash.h`. -/
def HashSort.uthash : HashSort E where
  sort compare l := MergeSort.sort (leftFirst compare) l
  sorted _ _ :=
    { perm := MergeSort.sort_perm
      ordered := fun h => (MergeSort.sort_pairwise h.orderOn).imp of_decide_eq_true
      stable := fun h _ hc hsorted => MergeSort.sublist_sort h.orderOn hc (hsorted.imp decide_eq_true) }

end sorting

/-! ### The keys -/

/-- `memcmp`, with the difference of the first two bytes that differ. -/
def memcmp : Bytes → Bytes → ℕ → ℤ
  | a :: s, b :: t, n + 1 => if a = b then memcmp s t n else (a.toNat : ℤ) - b.toNat
  | _, _, _ => 0

section items

variable {A : Type}

/-- `fcitx_dict_item_default_compare` -/
def itemDefaultCompare : DictCompareFunc A := fun keyA _ keyB _ =>
  let size := if keyA.length < keyB.length then keyA.length else keyB.length
  let result := memcmp keyA keyB size
  if result = 0 then
    if keyA.length < keyB.length then -1
    else if keyA.length > keyB.length then 1
    else result
  else result

/-- `fcitx_dict_item_compare` -/
def itemCompare (compare : DictCompareFunc A) (a b : Bytes × A) : ℤ := compare a.1 a.2 b.1 b.2

/-- `fcitx_dict_sort`; `none` is a read through the NULL dictionary. -/
def dictSort (hashSort : HashSort (Bytes × A)) (dict : Option (List (Bytes × A)))
    (compare : Option (DictCompareFunc A)) : Option (List (Bytes × A)) :=
  dict.map (hashSort.sort (itemCompare (compare.getD itemDefaultCompare)))

theorem itemDefaultCompare_cons (a b : UInt8) (s t : Bytes) (x y : A) : itemDefaultCompare (a :: s) x (b :: t) y =
    if a = b then itemDefaultCompare s x t y else (a.toNat : ℤ) - b.toNat := by
  have hsize : (if s.length + 1 < t.length + 1 then s.length + 1 else t.length + 1) =
      (if s.length < t.length then s.length else t.length) + 1 := by
    split <;> split <;> omega
  have hfirst : ∀ n, memcmp (a :: s) (b :: t) (n + 1) =
      if a = b then memcmp s t n else (a.toNat : ℤ) - b.toNat := fun n => rfl
  unfold itemDefaultCompare
  dsimp only
  rw [List.length_cons, List.length_cons, hsize, hfirst]
  by_cases hab : a = b
  · simp only [if_pos hab, Nat.add_lt_add_iff_right, gt_iff_lt]
  · have hnat : a.toNat ≠ b.toNat := fun heq => hab (UInt8.toNat_inj.mp heq)
    rw [if_neg hab, if_neg (by omega), if_neg hab]

/-- **The keys are compared byte by byte**, and a key is before those it starts. -/
theorem itemDefaultCompare_le_iff (keyA keyB : Bytes) (x y : A) :
    itemDefaultCompare keyA x keyB y ≤ 0 ↔ keyA ≤ keyB := by
  induction keyA generalizing keyB with
  | nil =>
    cases keyB with
    | nil => simp [itemDefaultCompare, memcmp]
    | cons b t => simp [itemDefaultCompare, memcmp]
  | cons a s ih =>
    cases keyB with
    | nil => simp [itemDefaultCompare, memcmp]
    | cons b t =>
      rw [itemDefaultCompare_cons, List.cons_le_cons_iff]
      by_cases hab : a = b
      · simp [hab, ih]
      · have hlt : a < b ↔ a.toNat < b.toNat := Iff.rfl
        have hnat : a.toNat ≠ b.toNat := fun heq => hab (UInt8.toNat_inj.mp heq)
        simp only [hab, if_false, false_and, or_false, hlt]
        omega

/-- The order of the keys compares any two entries. -/
theorem consistentOn_itemDefaultCompare (l : List (Bytes × A)) :
    ConsistentOn (itemCompare itemDefaultCompare) l where
  trans a _ b _ c _ hab hbc := by
    unfold itemCompare at *
    rw [itemDefaultCompare_le_iff] at *
    exact List.le_trans hab hbc
  total a _ b _ := by
    unfold itemCompare
    rw [itemDefaultCompare_le_iff, itemDefaultCompare_le_iff]
    exact List.le_total a.1 b.1

/-- A table that is sorted without a comparison has its keys in order. -/
theorem StablySorted.keys {old new : List (Bytes × A)} (h : StablySorted (itemCompare itemDefaultCompare) old new) :
    (Assoc.keys new).Pairwise (· ≤ ·) := by
  refine List.pairwise_map.mpr ((h.ordered (consistentOn_itemDefaultCompare old)).imp fun {a b} hle => ?_)
  exact (itemDefaultCompare_le_iff a.1 b.1 a.2 b.2).mp hle

end items
end Fcitx
