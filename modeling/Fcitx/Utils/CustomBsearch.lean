/-
# The search for a place in a sorted array

`fcitx_utils_custom_bsearch` of `fcitx-utils/misc.c`. It compares the key with the
elements of an array in memory, which it reaches by their byte offset; unless an
accurate match is wanted, it looks for the first element that is not less than the key.

Key definitions: `MemArray`, `SortedFor`, `customBsearch`.
Key theorems: `boundary_findIdx`, `customBsearch_approximate`.
-/
import Fcitx.Lib.BinarySearch
import Mathlib.Algebra.Ring.Nat
import Mathlib.Order.Defs.LinearOrder

namespace Fcitx

/-- An array in memory. An object has at most `PTRDIFF_MAX` bytes. -/
structure MemArray (A : Type) where
  cells : List A
  /-- `sizeof` an element -/
  size : ℕ
  size_pos : 0 < size
  fits : cells.length * size < 2 ^ 63

/-- The element at a byte offset; there is none between two elements or outside the array. -/
def MemArray.read {A : Type} (base : MemArray A) (offset : ℕ) : Option A :=
  if offset % base.size = 0 then base.cells[offset / base.size]? else none

variable {K A : Type}

/-- `(*compar)(key, p)` for the element at index `idx` -/
def comparison (compar : K → A → ℤ) (key : K) (base : MemArray A) (idx : ℕ) : Option ℤ :=
  (base.read (idx * base.size % 2 ^ 64)).map (compar key)

/-- `(l + u) / 2` in `size_t` -/
def middle (l u : ℕ) : ℕ := (l + u) % 2 ^ 64 / 2

/-- `fcitx_utils_custom_bsearch`: the offset of the element, if any. A comparison outside the array
has no result. -/
def customBsearch (key : K) (base : MemArray A) (accurate : Bool) (compar : K → A → ℤ) : Option (Option ℕ) :=
  let nmemb := base.cells.length
  if accurate then
    let found := BinarySearch.search (fun idx => (comparison compar key base idx).getD 0) nmemb
    some (found.map fun idx => idx * base.size)
  else do
    let (l, u) ← BinarySearch.lowerLoop middle (comparison compar key base) nmemb 0 nmemb
    if u ≥ nmemb then some none
    else some (some (l * base.size % 2 ^ 64))

/-- The elements that are less than the key come before those that are not. -/
def SortedFor (compar : K → A → ℤ) (key : K) (cells : List A) : Prop :=
  cells.Pairwise fun a b => 0 < compar key b → 0 < compar key a

/-- An array in ascending order is sorted for every key, if the comparison is transitive. -/
theorem sortedFor_of_pairwise {compar : A → A → ℤ} {cells : List A}
    (htrans : ∀ a b c, compar a b ≤ 0 → 0 < compar c b → 0 < compar c a)
    (hsorted : cells.Pairwise fun a b => compar a b ≤ 0) (key : A) : SortedFor compar key cells :=
  hsorted.imp fun {a b} hab hkey => htrans a b key hab hkey

variable {compar : K → A → ℤ} {key : K} {base : MemArray A}

theorem MemArray.read_mul (base : MemArray A) (idx : ℕ) : base.read (idx * base.size) = base.cells[idx]? := by
  rw [MemArray.read, if_pos (Nat.mul_mod_left idx base.size), Nat.mul_div_cancel idx base.size_pos]

/-- No offset into the array wraps around. -/
theorem MemArray.offset_mod (base : MemArray A) {idx : ℕ} (h : idx < base.cells.length) :
    idx * base.size % 2 ^ 64 = idx * base.size := by
  apply Nat.mod_eq_of_lt
  calc idx * base.size ≤ base.cells.length * base.size := Nat.mul_le_mul_right _ (Nat.le_of_lt h)
    _ < 2 ^ 63 := base.fits
    _ < 2 ^ 64 := by decide

theorem MemArray.length_lt (base : MemArray A) : base.cells.length < 2 ^ 63 := by
  calc base.cells.length ≤ base.cells.length * base.size := Nat.le_mul_of_pos_right _ base.size_pos
    _ < 2 ^ 63 := base.fits

theorem comparison_eq {idx : ℕ} (h : idx < base.cells.length) :
    comparison compar key base idx = some (compar key base.cells[idx]) := by
  rw [comparison, base.offset_mod h, base.read_mul, List.getElem?_eq_getElem h, Option.map_some]

/-- The sum of two bounds does not wrap around, so the middle is between them. -/
theorem middle_between {l u nmemb : ℕ} (hn : nmemb < 2 ^ 63) (hlt : l < u) (hu : u ≤ nmemb) :
    l ≤ middle l u ∧ middle l u < u := by
  have hsum : (l + u) % 2 ^ 64 = l + u := Nat.mod_eq_of_lt (by omega)
  rw [middle, hsum]
  omega

/-- The first element that is not less than the key is where the elements change sides. -/
theorem boundary_findIdx (hsorted : SortedFor compar key base.cells) :
    BinarySearch.Boundary (comparison compar key base) base.cells.length
      (base.cells.findIdx fun a => compar key a ≤ 0) := by
  have hpair := List.pairwise_iff_getElem.mp hsorted
  constructor
  · exact List.findIdx_le_length
  · intro i hi
    have hlt : i < base.cells.length := Nat.lt_of_lt_of_le hi List.findIdx_le_length
    have hnot := List.not_of_lt_findIdx hi
    exact ⟨_, comparison_eq hlt, by simpa using hnot⟩
  · intro i hi hlt
    have hk : base.cells.findIdx (fun a => decide (compar key a ≤ 0)) < base.cells.length := by omega
    have hfirst : compar key base.cells[base.cells.findIdx fun a => decide (compar key a ≤ 0)] ≤ 0 := by
      simpa using List.findIdx_getElem (w := hk)
    refine ⟨_, comparison_eq hlt, ?_⟩
    rcases Nat.lt_or_eq_of_le hi with hbehind | heq
    · by_contra hpos
      have := hpair _ i hk hlt hbehind (by omega)
      omega
    · subst heq
      exact hfirst

/-- **The approximate search returns the first element that is not less than the key**, and NULL exactly if
every element is less; no comparison is outside the array. -/
theorem customBsearch_approximate (compar : K → A → ℤ) (key : K) (base : MemArray A)
    (hsorted : SortedFor compar key base.cells) :
    customBsearch key base false compar =
        some ((base.cells.findIdx? fun a => compar key a ≤ 0).map fun idx => idx * base.size) ∧
      (customBsearch key base false compar = some none ↔ ∀ a ∈ base.cells, 0 < compar key a) := by
  have hloop : BinarySearch.lowerLoop middle (comparison compar key base) base.cells.length 0 base.cells.length =
      some (base.cells.findIdx fun a => compar key a ≤ 0, base.cells.findIdx fun a => compar key a ≤ 0) :=
    BinarySearch.lowerLoop_eq (boundary_findIdx hsorted) (fun l u => middle_between base.length_lt)
      (Nat.zero_le _) List.findIdx_le_length (Nat.le_refl _) (by omega)
  have heq : customBsearch key base false compar =
      some ((base.cells.findIdx? fun a => compar key a ≤ 0).map fun idx => idx * base.size) := by
    simp only [customBsearch, Bool.false_eq_true, if_false, hloop, Option.bind_eq_bind, Option.bind_some]
    by_cases hend : base.cells.findIdx (fun a => decide (compar key a ≤ 0)) < base.cells.length
    · rw [if_neg (by omega), base.offset_mod hend, List.findIdx?_eq_some_iff_findIdx_eq.mpr ⟨hend, rfl⟩,
        Option.map_some]
    · have hlen : base.cells.findIdx (fun a => decide (compar key a ≤ 0)) = base.cells.length :=
        Nat.le_antisymm List.findIdx_le_length (by omega)
      rw [if_pos (by omega), List.findIdx?_eq_none_iff_findIdx_eq.mpr hlen, Option.map_none]
  refine ⟨heq, ?_⟩
  rw [heq]
  simp [List.findIdx?_eq_none_iff]

/-- In `1, 4, 4, 8` of four bytes each the first `4` is found. -/
theorem customBsearch_approximate_run :
    customBsearch 4 (⟨[1, 4, 4, 8], 4, by decide, by decide⟩ : MemArray ℤ) false (fun key a => key - a) =
      some (some 4) :=
  (customBsearch_approximate (fun key a => key - a) 4 (⟨[1, 4, 4, 8], 4, by decide, by decide⟩ : MemArray ℤ)
    (sortedFor_of_pairwise (by intro a b c; omega) (by decide) 4)).1

end Fcitx
