/-
# Merge sort from the bottom up

A list is sorted in passes: a pass merges the runs of a size in pairs, so that the
runs of twice the size are sorted. Of two elements that can stand either way the
first one stays first, so every sorted part of the list is a part of the result.

Key definitions: `MergeSort.pass`, `MergeSort.sort`, `MergeSort.Runs`, `MergeSort.StableSort`.
Key theorems: `MergeSort.runs_pass`, `MergeSort.sort_perm`,
`MergeSort.sort_pairwise`, `MergeSort.sublist_sort`, `MergeSort.StableSort.merge`,
`MergeSort.StableSort.insert`.
-/
import Mathlib.Data.List.Sort

namespace MergeSort

variable {A : Type} (le : A → A → Bool)

/-- Merge the runs of `size` in pairs, and count the merges. -/
def pass (size : ℕ) (hsize : 0 < size) (l : List A) : List A × ℕ :=
  if l = [] then ([], 0)
  else
    let rest := pass size hsize ((l.drop size).drop size)
    (List.merge (l.take size) ((l.drop size).take size) le ++ rest.1, rest.2 + 1)
termination_by l.length
decreasing_by
  have hlen : 0 < l.length := List.length_pos_iff.mpr ‹_›
  rw [List.length_drop, List.length_drop]
  omega

variable {le} {size : ℕ} {hsize : 0 < size} {l : List A}

theorem pass_nil : pass le size hsize [] = ([], 0) := by
  rw [pass, if_pos rfl]

theorem pass_of_ne_nil (h : l ≠ []) : pass le size hsize l =
    (List.merge (l.take size) ((l.drop size).take size) le ++ (pass le size hsize ((l.drop size).drop size)).1,
      (pass le size hsize ((l.drop size).drop size)).2 + 1) := by
  rw [pass, if_neg h]

/-- Two runs and what is behind them. -/
theorem take_take_drop (size : ℕ) (l : List A) :
    l.take size ++ (l.drop size).take size ++ (l.drop size).drop size = l := by
  rw [List.append_assoc, List.take_append_drop, List.take_append_drop]

theorem pass_perm : (pass le size hsize l).1.Perm l := by
  induction l using pass.induct le size hsize with
  | case1 => rw [pass_nil]
  | case2 l hne ih =>
    rw [pass_of_ne_nil hne]
    have hmerge : (List.merge (l.take size) ((l.drop size).take size) le).Perm
        (l.take size ++ (l.drop size).take size) := List.merge_perm_append le
    have hparts := hmerge.append ih
    rwa [take_take_drop] at hparts

/-- There is one merge at most if the list has two runs at most. -/
theorem pass_merges : (pass le size hsize l).2 ≤ 1 ↔ l.length ≤ 2 * size := by
  by_cases hne : l = []
  · rw [hne, pass_nil]
    simp
  · rw [pass_of_ne_nil hne]
    dsimp only
    have hlen : ((l.drop size).drop size).length = l.length - 2 * size := by
      rw [List.length_drop, List.length_drop]
      omega
    by_cases hrest : (l.drop size).drop size = []
    · rw [hrest, pass_nil]
      rw [hrest, List.length_nil] at hlen
      omega
    · rw [pass_of_ne_nil hrest]
      have hpos := List.length_pos_iff.mpr hrest
      omega

variable (le) in
/-- Passes with runs of twice the size, up to the one with one merge. -/
def sortFrom (size : ℕ) (hsize : 0 < size) (l : List A) : List A :=
  if (pass le size hsize l).2 ≤ 1 then (pass le size hsize l).1
  else sortFrom (2 * size) (Nat.mul_pos Nat.two_pos hsize) (pass le size hsize l).1
termination_by l.length - size
decreasing_by
  have hmore : ¬ l.length ≤ 2 * size := fun hle => absurd (pass_merges.mpr hle) ‹_›
  rw [pass_perm.length_eq]
  omega

variable (le) in
def sort (l : List A) : List A := sortFrom le 1 Nat.one_pos l

theorem sortFrom_last (h : (pass le size hsize l).2 ≤ 1) :
    sortFrom le size hsize l = (pass le size hsize l).1 := by
  rw [sortFrom, if_pos h]

theorem sortFrom_more (h : ¬ (pass le size hsize l).2 ≤ 1) : sortFrom le size hsize l =
    sortFrom le (2 * size) (Nat.mul_pos Nat.two_pos hsize) (pass le size hsize l).1 := by
  rw [sortFrom, if_neg h]

theorem sortFrom_perm : (sortFrom le size hsize l).Perm l := by
  induction size, hsize, l using sortFrom.induct le with
  | case1 size hsize l hlast =>
    rw [sortFrom_last hlast]
    exact pass_perm
  | case2 size hsize l hmore ih =>
    rw [sortFrom_more hmore]
    exact ih.trans pass_perm

/-- **Nothing is lost or made** by sorting, whatever the comparison is. -/
theorem sort_perm : (sort le l).Perm l := sortFrom_perm

/-! ### Orders -/

/-- An order that compares any two elements; they may be equal for it. -/
structure Order (le : A → A → Bool) : Prop where
  trans : ∀ a b c, le a b → le b c → le a c
  total : ∀ a b, le a b || le b a

theorem Order.refl (h : Order le) (a : A) : le a a := by simpa using h.total a a

/-- The runs of a size are sorted. -/
def Runs (le : A → A → Bool) (size : ℕ) (l : List A) : Prop :=
  ∀ k, ((l.drop (k * size)).take size).Pairwise fun a b => le a b

theorem runs_one (l : List A) : Runs le 1 l := by
  intro k
  cases l.drop (k * 1) with
  | nil => exact List.Pairwise.nil
  | cons a l => exact List.pairwise_singleton _ a

theorem Runs.drop (h : Runs le size l) : Runs le size (l.drop size) := by
  intro k
  have hk := h (k + 1)
  rw [Nat.succ_mul, Nat.add_comm, ← List.drop_drop] at hk
  exact hk

theorem Runs.head (h : Runs le size l) : (l.take size).Pairwise fun a b => le a b := by
  simpa using h 0

/-- **A pass sorts the runs of twice the size.** -/
theorem runs_pass (ho : Order le) (h : Runs le size l) : Runs le (2 * size) (pass le size hsize l).1 := by
  induction l using pass.induct le size hsize with
  | case1 =>
    intro k
    rw [pass_nil, List.drop_nil, List.take_nil]
    exact List.Pairwise.nil
  | case2 l hne ih =>
    have hmerge : (List.merge (l.take size) ((l.drop size).take size) le).Pairwise fun a b => le a b :=
      List.pairwise_merge ho.trans ho.total _ _ h.head h.drop.head
    have hrest := ih h.drop.drop
    have hlen : (List.merge (l.take size) ((l.drop size).take size) le).length = min (2 * size) l.length := by
      rw [List.length_merge, List.length_take, List.length_take, List.length_drop]
      omega
    rw [pass_of_ne_nil hne]
    dsimp only
    intro k
    by_cases hfull : 2 * size ≤ l.length
    · rw [Nat.min_eq_left hfull] at hlen
      cases k with
      | zero =>
        rw [Nat.zero_mul, List.drop_zero, List.take_left' hlen]
        exact hmerge
      | succ k =>
        rw [Nat.succ_mul k, Nat.add_comm (k * _), ← List.drop_drop, List.drop_left' hlen]
        exact hrest k
    · -- there is nothing behind the two runs
      have hnil : (l.drop size).drop size = [] := by
        rw [List.drop_drop]
        exact List.drop_eq_nil_of_le (by omega)
      rw [hnil, pass_nil, List.append_nil]
      exact hmerge.sublist ((List.take_sublist _ _).trans (List.drop_sublist _ _))

theorem sortFrom_pairwise (ho : Order le) (h : Runs le size l) :
    (sortFrom le size hsize l).Pairwise fun a b => le a b := by
  induction size, hsize, l using sortFrom.induct le with
  | case1 size hsize l hlast =>
    rw [sortFrom_last hlast]
    have hlen : (pass le size hsize l).1.length ≤ 2 * size := by
      rw [pass_perm.length_eq]
      exact pass_merges.mp hlast
    have hruns : Runs le (2 * size) (pass le size hsize l).1 := runs_pass ho h
    have hrun := hruns.head
    rwa [List.take_of_length_le hlen] at hrun
  | case2 size hsize l hmore ih =>
    rw [sortFrom_more hmore]
    exact ih (runs_pass ho h)


/-! ### Sorted parts -/

/-- A sorted part of two lists is a part of what they are merged to. -/
theorem sublist_merge (ho : Order le) {p q c d : List A} (hp : p.Pairwise fun a b => le a b) (hc : c.Sublist p)
    (hd : d.Sublist q) (hcd : (c ++ d).Pairwise fun a b => le a b) : (c ++ d).Sublist (List.merge p q le) := by
  induction p generalizing c d q with
  | nil =>
    rw [List.sublist_nil.mp hc, List.nil_append, List.nil_merge]
    exact hd
  | cons x p ihp =>
    induction q generalizing c d with
    | nil =>
      rw [List.sublist_nil.mp hd, List.append_nil, List.merge_right]
      exact hc
    | cons y q ihq =>
      have hxp := List.pairwise_cons.mp hp
      rw [List.cons_merge_cons]
      split
      · -- `x` goes first
        cases hc with
        | cons _ hc => exact (ihp hxp.2 hc hd hcd).cons x
        | cons_cons _ hc => exact (ihp hxp.2 hc hd (List.pairwise_cons.mp hcd).2).cons_cons x
      · next hxy =>
        cases hd with
        | cons _ hd => exact (ihq hc hd hcd).cons y
        | cons_cons _ hd =>
          -- what is before `y` in the sorted part would be before `x`
          have hcnil : c = [] := by
            cases c with
            | nil => rfl
            | cons a c =>
              have hay : le a y := (List.pairwise_cons.mp hcd).1 y (by simp)
              have hxa : le x a := by
                rcases List.mem_cons.mp (hc.mem List.mem_cons_self) with rfl | ha
                · exact ho.refl a
                · exact hxp.1 a ha
              exact absurd (ho.trans x a y hxa hay) hxy
          subst hcnil
          exact (ihq hc hd (List.pairwise_cons.mp hcd).2).cons_cons y

theorem sublist_pass (ho : Order le) (h : Runs le size l) {c : List A} (hc : c.Sublist l)
    (hsorted : c.Pairwise fun a b => le a b) : c.Sublist (pass le size hsize l).1 := by
  induction l using pass.induct le size hsize generalizing c with
  | case1 =>
    rw [pass_nil]
    exact hc
  | case2 l hne ih =>
    rw [pass_of_ne_nil hne]
    rw [← take_take_drop size l] at hc
    obtain ⟨front, back, rfl, hfront, hback⟩ := List.sublist_append_iff.mp hc
    obtain ⟨c, d, rfl, hc, hd⟩ := List.sublist_append_iff.mp hfront
    obtain ⟨hcd, hbacksorted, -⟩ := List.pairwise_append.mp hsorted
    exact (sublist_merge ho h.head hc hd hcd).append (ih h.drop.drop hback hbacksorted)

theorem sublist_sortFrom (ho : Order le) (h : Runs le size l) {c : List A} (hc : c.Sublist l)
    (hsorted : c.Pairwise fun a b => le a b) : c.Sublist (sortFrom le size hsize l) := by
  induction size, hsize, l using sortFrom.induct le with
  | case1 size hsize l hlast =>
    rw [sortFrom_last hlast]
    exact sublist_pass ho h hc hsorted
  | case2 size hsize l hmore ih =>
    rw [sortFrom_more hmore]
    exact ih (runs_pass ho h) (sublist_pass ho h hc hsorted)

/-! ### Stable sorts -/

/-- A sorted list of the same elements, in which every sorted part of the list is still one. -/
structure StableSort (le : A → A → Bool) (old new : List A) : Prop where
  perm : new.Perm old
  sorted : new.Pairwise fun a b => le a b
  sublist : ∀ c : List A, c.Sublist old → (c.Pairwise fun a b => le a b) → c.Sublist new

namespace StableSort

variable {old new old' new' : List A}

theorem nil : StableSort le [] [] := ⟨List.Perm.refl _, List.Pairwise.nil, fun _ hc _ => hc⟩

/-- Two sorted halves are merged. -/
theorem merge (ho : Order le) (h : StableSort le old new) (h' : StableSort le old' new') :
    StableSort le (old ++ old') (List.merge new new' le) where
  perm := (List.merge_perm_append le).trans (h.perm.append h'.perm)
  sorted := List.pairwise_merge ho.trans ho.total new new' h.sorted h'.sorted
  sublist c hc hsorted := by
    obtain ⟨front, back, rfl, hfront, hback⟩ := List.sublist_append_iff.mp hc
    obtain ⟨hfs, hbs, -⟩ := List.pairwise_append.mp hsorted
    exact sublist_merge ho h.sorted (h.sublist front hfront hfs) (h'.sublist back hback hbs) hsorted

/-- An element is moved from the end to its place. -/
theorem insert (ho : Order le) (h : StableSort le old new) (x : A) :
    StableSort le (old ++ [x]) (new.reverse.orderedInsert (fun a b => le b a) x).reverse where
  perm := by
    calc
      (new.reverse.orderedInsert (fun a b => le b a) x).reverse.Perm (x :: new.reverse) :=
        (List.reverse_perm _).trans (List.perm_orderedInsert _ x _)
      _ |>.Perm (x :: old) := ((List.reverse_perm new).trans h.perm).cons x
      _ |>.Perm (old ++ [x]) := (List.perm_append_singleton x old).symm
  sorted := by
    have htrans : IsTrans A fun a b => le b a := ⟨fun a b c hab hbc => ho.trans c b a hbc hab⟩
    have htotal : Std.Total fun a b : A => (le b a : Prop) := ⟨fun a b => by simpa using ho.total b a⟩
    exact List.pairwise_reverse.mpr (List.Pairwise.orderedInsert x _ (List.pairwise_reverse.mpr h.sorted))
  sublist c hc hsorted := by
    refine List.reverse_sublist.mp ?_
    rw [List.reverse_reverse]
    obtain ⟨front, back, rfl, hfront, hback⟩ := List.sublist_append_iff.mp hc
    obtain ⟨hfs, -, hbefore⟩ := List.pairwise_append.mp hsorted
    have hrest := List.reverse_sublist.mpr (h.sublist front hfront hfs)
    rcases List.sublist_singleton.mp hback with rfl | rfl
    · rw [List.append_nil]
      exact hrest.trans (List.sublist_orderedInsert x _)
    · rw [List.reverse_append, List.reverse_singleton, List.singleton_append]
      refine List.cons_sublist_orderedInsert hrest fun a ha => ?_
      exact hbefore a (List.mem_reverse.mp ha) x List.mem_cons_self

/-- **Elements that are equal for the order stay as they stood.** -/
theorem filter_eq (ho : Order le) (h : StableSort le old new) (x : A) :
    new.filter (fun y => le x y && le y x) = old.filter fun y => le x y && le y x := by
  have hequal : (old.filter fun y => le x y && le y x).Pairwise fun a b => le a b := by
    refine List.pairwise_of_forall_mem_list fun a ha b hb => ?_
    have ha := Bool.and_eq_true_iff.mp (List.mem_filter.mp ha).2
    have hb := Bool.and_eq_true_iff.mp (List.mem_filter.mp hb).2
    exact ho.trans a x b ha.2 hb.1
  have hsub := (h.sublist _ List.filter_sublist hequal).filter fun y => le x y && le y x
  rw [List.filter_filter] at hsub
  simp only [Bool.and_self] at hsub
  exact (hsub.eq_of_length (h.perm.filter _).length_eq.symm).symm

end StableSort

/-! ### Orders of the elements -/

/-- The order may only compare the elements of the list. -/
structure OrderOn (le : A → A → Bool) (l : List A) : Prop where
  trans : ∀ a ∈ l, ∀ b ∈ l, ∀ c ∈ l, le a b → le b c → le a c
  total : ∀ a ∈ l, ∀ b ∈ l, le a b || le b a

variable {B : Type} {f : B → A}

theorem pass_map {l : List B} : pass le size hsize (l.map f) =
    ((pass (fun a b => le (f a) (f b)) size hsize l).1.map f, (pass (fun a b => le (f a) (f b)) size hsize l).2) := by
  induction l using pass.induct (fun a b => le (f a) (f b)) size hsize with
  | case1 =>
    rw [List.map_nil, pass_nil, pass_nil]
    rfl
  | case2 l hne ih =>
    have hne' : l.map f ≠ [] := fun hnil => hne (List.map_eq_nil_iff.mp hnil)
    rw [pass_of_ne_nil hne, pass_of_ne_nil hne', ← List.map_drop, ← List.map_drop, ih, ← List.map_take,
      ← List.map_take, List.map_append, List.map_merge]
    exact fun a _ b _ => rfl

theorem sortFrom_map {l : List B} : sortFrom le size hsize (l.map f) =
    (sortFrom (fun a b => le (f a) (f b)) size hsize l).map f := by
  induction size, hsize, l using sortFrom.induct (fun a b => le (f a) (f b)) with
  | case1 size hsize l hlast =>
    have hlast' : (pass le size hsize (l.map f)).2 ≤ 1 := by rwa [pass_map]
    rw [sortFrom_last hlast, sortFrom_last hlast', pass_map]
  | case2 size hsize l hmore ih =>
    have hmore' : ¬ (pass le size hsize (l.map f)).2 ≤ 1 := by rwa [pass_map]
    rw [sortFrom_more hmore, sortFrom_more hmore', pass_map]
    exact ih

/-- Sorting a list is sorting its elements as such. -/
theorem sort_eq_attach (l : List A) :
    sort le l = (sort (fun a b : {a // a ∈ l} => le a b) l.attach).map Subtype.val := by
  have hmap : sort le (l.attach.map Subtype.val) = _ := sortFrom_map
  rw [List.attach_map_subtype_val] at hmap
  exact hmap

theorem OrderOn.attach (ho : OrderOn le l) : Order fun a b : {a // a ∈ l} => le a b where
  trans a b c := ho.trans a a.2 b b.2 c c.2
  total a b := ho.total a a.2 b b.2

/-- **The result is sorted.** -/
theorem sort_pairwise (ho : OrderOn le l) : (sort le l).Pairwise fun a b => le a b := by
  rw [sort_eq_attach, List.pairwise_map]
  exact sortFrom_pairwise ho.attach (runs_one _)

/-- **A sorted part of the list stays as it is**: sorting is stable. -/
theorem sublist_sort (ho : OrderOn le l) {c : List A} (hc : c.Sublist l) (hsorted : c.Pairwise fun a b => le a b) :
    c.Sublist (sort le l) := by
  rw [← List.attach_map_subtype_val l] at hc
  obtain ⟨part, hpart, rfl⟩ := List.sublist_map_iff.mp hc
  rw [sort_eq_attach]
  exact (sublist_sortFrom ho.attach (runs_one _) hpart (List.pairwise_map.mp hsorted)).map _

end MergeSort
