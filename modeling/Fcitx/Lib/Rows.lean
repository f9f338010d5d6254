/-
# Merging rows by key

A table is a list of rows with keys, which need not be unique. When a second table is
merged into it, a row goes to the first one with its key, which absorbs it; the rows
without one are added behind the table at the end.

Key definitions: `Rows.give`, `Rows.merged`.
Key theorems: `Rows.foldl_give`, `Rows.find?_merged`, `Rows.flatMap_merged_perm`, `Rows.length_merged`.
-/
import Mathlib.Data.List.Basic

namespace Fcitx
namespace Rows

variable {R K : Type} [DecidableEq K] (key : R → K) (absorb : R → R → R)

/-- A row goes to the first one with its key, or to those that are to be added. -/
def give (s : List R × List R) (row : R) : List R × List R :=
  match s.1.findIdx? fun r => key r = key row with
  | some i => (s.1.modify i fun r => absorb r row, s.2)
  | none => (s.1, s.2 ++ [row])

/-- A table with another one: the first row of a key takes all that have it. -/
def merged : List R → List R → List R
  | [], extra => extra
  | r :: base, extra =>
    (extra.filter fun row => key row = key r).foldl absorb r ::
      merged base (extra.filter fun row => key row ≠ key r)

variable {key absorb}

omit [DecidableEq K] in
theorem key_foldl (hkey : ∀ r row, key (absorb r row) = key r) (rows : List R) (r : R) :
    key (rows.foldl absorb r) = key r := by
  induction rows generalizing r with
  | nil => rfl
  | cons row rows ih => rw [List.foldl_cons, ih, hkey]

theorem give_cons (r : R) (base toAdd : List R) (row : R) :
    give key absorb (r :: base, toAdd) row =
      if key row = key r then (absorb r row :: base, toAdd)
      else (r :: (give key absorb (base, toAdd) row).1, (give key absorb (base, toAdd) row).2) := by
  unfold give
  dsimp only
  rw [List.findIdx?_cons]
  by_cases h : key row = key r
  · rw [if_pos h, if_pos (decide_eq_true h.symm)]
    rfl
  · rw [if_neg h, if_neg (fun hr => h (of_decide_eq_true hr).symm)]
    cases base.findIdx? fun r => key r = key row with
    | none => rfl
    | some i => rfl

/-- The keys stay. -/
theorem map_key_give (hkey : ∀ r row, key (absorb r row) = key r) (base toAdd : List R) (row : R) :
    (give key absorb (base, toAdd) row).1.map key = base.map key := by
  induction base with
  | nil => rfl
  | cons r base ih =>
    rw [give_cons]
    split
    · rw [List.map_cons, hkey, List.map_cons]
    · rw [List.map_cons, ih, List.map_cons]

/-- The first row takes its own, and the others go on. -/
theorem foldl_give_cons (hkey : ∀ r row, key (absorb r row) = key r) (extra : List R) (r : R) (base toAdd : List R) :
    extra.foldl (give key absorb) (r :: base, toAdd) =
      ((extra.filter fun row => key row = key r).foldl absorb r ::
        ((extra.filter fun row => key row ≠ key r).foldl (give key absorb) (base, toAdd)).1,
        ((extra.filter fun row => key row ≠ key r).foldl (give key absorb) (base, toAdd)).2) := by
  induction extra generalizing r base toAdd with
  | nil => rfl
  | cons row extra ih =>
    rw [List.foldl_cons, give_cons]
    by_cases h : key row = key r
    · have hown : ¬ decide (key row ≠ key r) = true := fun hne => absurd h (of_decide_eq_true hne)
      rw [if_pos h, ih, hkey, List.filter_cons, List.filter_cons, if_pos (decide_eq_true h), if_neg hown,
        List.foldl_cons]
    · rw [if_neg h, ih, List.filter_cons, List.filter_cons, if_neg fun heq => h (of_decide_eq_true heq),
        if_pos (decide_eq_true h), List.foldl_cons]

theorem foldl_give_nil (extra toAdd : List R) :
    extra.foldl (give key absorb) ([], toAdd) = ([], toAdd ++ extra) := by
  induction extra generalizing toAdd with
  | nil => rw [List.append_nil, List.foldl_nil]
  | cons row extra ih =>
    rw [List.foldl_cons]
    change extra.foldl (give key absorb) ([], toAdd ++ [row]) = _
    rw [ih, List.append_assoc, List.singleton_append]

/-- **Giving all rows, one after the other**, and adding what is left. -/
theorem foldl_give (hkey : ∀ r row, key (absorb r row) = key r) (base extra : List R) :
    (extra.foldl (give key absorb) (base, [])).1 ++ (extra.foldl (give key absorb) (base, [])).2 =
      merged key absorb base extra := by
  induction base generalizing extra with
  | nil => rw [foldl_give_nil, merged, List.nil_append, List.nil_append]
  | cons r base ih => rw [foldl_give_cons hkey, List.cons_append, ih, merged]

/-- **The first row of a key** has absorbed all rows with this key. -/
theorem find?_merged (hkey : ∀ r row, key (absorb r row) = key r) (base extra : List R) (k : K) :
    (merged key absorb base extra).find? (fun r => key r = k) =
      match base.find? fun r => key r = k with
      | some r => some ((extra.filter fun row => key row = k).foldl absorb r)
      | none => extra.find? fun row => key row = k := by
  induction base generalizing extra with
  | nil => rfl
  | cons r base ih =>
    rw [merged]
    by_cases hr : key r = k
    · rw [List.find?_cons, key_foldl hkey, List.find?_cons, decide_eq_true hr]
      dsimp only
      rw [hr]
    · have hown : ∀ row ∈ extra, (decide (key row = k) && decide (key row ≠ key r)) = decide (key row = k) := by
        intro row _
        by_cases hrow : key row = k
        · have hother : key row ≠ key r := fun heq => hr (heq.symm.trans hrow)
          rw [decide_eq_true hrow, decide_eq_true hother]
          rfl
        · rw [decide_eq_false hrow]
          rfl
      rw [List.find?_cons, key_foldl hkey, List.find?_cons, decide_eq_false hr]
      dsimp only
      rw [ih]
      cases base.find? fun r => key r = k with
      | some first =>
        dsimp only
        rw [List.filter_filter, List.filter_congr hown]
      | none =>
        dsimp only
        rw [← List.head?_filter, ← List.head?_filter, List.filter_filter, List.filter_congr hown]

/-- **Nothing is lost** when a row that absorbs another has the items of both. -/
theorem flatMap_merged_perm {X : Type} {items : R → List X} (hkey : ∀ r row, key (absorb r row) = key r)
    (hitems : ∀ r row, key row = key r → (items (absorb r row)).Perm (items r ++ items row)) (base extra : List R) :
    ((merged key absorb base extra).flatMap items).Perm (base.flatMap items ++ extra.flatMap items) := by
  have hfold : ∀ (rows : List R) (r : R), (∀ row ∈ rows, key row = key r) →
      (items (rows.foldl absorb r)).Perm (items r ++ rows.flatMap items) := by
    intro rows
    induction rows with
    | nil =>
      intro r _
      rw [List.flatMap_nil, List.append_nil, List.foldl_nil]
    | cons row rows ih =>
      intro r hrows
      obtain ⟨hrow, hrows'⟩ := List.forall_mem_cons.mp hrows
      rw [List.foldl_cons, List.flatMap_cons, ← List.append_assoc]
      exact (ih _ fun row' hmem => (hrows' row' hmem).trans (hkey r row).symm).trans
        ((hitems r row hrow).append_right _)
  induction base generalizing extra with
  | nil => exact List.Perm.refl _
  | cons r base ih =>
    have hparts :
        (extra.filter (fun row => key row = key r) ++ extra.filter (fun row => key row ≠ key r)).Perm extra := by
      have hneg : (extra.filter fun row => key row ≠ key r) = extra.filter fun row => !decide (key row = key r) :=
        List.filter_congr fun row _ => by rw [← decide_not]
      rw [hneg]
      exact List.filter_append_perm _ extra
    have hown := hfold (extra.filter fun row => key row = key r) r fun row hrow =>
      of_decide_eq_true (List.mem_filter.mp hrow).2
    rw [merged, List.flatMap_cons, List.flatMap_cons]
    set own := extra.filter fun row => key row = key r
    set others := extra.filter fun row => key row ≠ key r
    calc
      List.Perm (items (own.foldl absorb r) ++ (merged key absorb base others).flatMap items)
          ((items r ++ own.flatMap items) ++ (base.flatMap items ++ others.flatMap items)) := hown.append (ih _)
      List.Perm _ ((items r ++ base.flatMap items) ++ (own.flatMap items ++ others.flatMap items)) := by
        rw [List.append_assoc, List.append_assoc]
        exact (List.perm_append_comm_assoc _ _ _).append_left _
      List.Perm _ ((items r ++ base.flatMap items) ++ extra.flatMap items) := by
        rw [← List.flatMap_append]
        exact (hparts.flatMap_right items).append_left _

variable (key absorb) in
/-- The rows with new keys are added. -/
theorem length_merged (base extra : List R) :
    (merged key absorb base extra).length =
      base.length + (extra.filter fun row => key row ∉ base.map key).length := by
  induction base generalizing extra with
  | nil =>
    have hall : (extra.filter fun row => key row ∉ ([] : List R).map key) = extra :=
      List.filter_eq_self.mpr fun row _ => decide_eq_true List.not_mem_nil
    rw [hall, merged, List.length_nil, Nat.zero_add]
  | cons r base ih =>
    have hnew : ∀ row ∈ extra, (decide (key row ∉ base.map key) && decide (key row ≠ key r)) =
        decide (key row ∉ (r :: base).map key) := by
      intro row _
      rw [List.map_cons, ← Bool.decide_and, decide_eq_decide, List.mem_cons, not_or, and_comm]
    rw [merged, List.length_cons, ih, List.filter_filter, List.filter_congr hnew, List.length_cons]
    omega

end Rows
end Fcitx
