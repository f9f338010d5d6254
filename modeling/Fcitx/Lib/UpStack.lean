/-
# Lists with a step up

A list of steps is read with a stack: a name is pushed, a step up takes the
name on top away, and is kept where there is none. What is left is names over
steps up, and such a stack is read back as it is. The number of steps up that
are kept never goes down.

Key definitions: `UpStack.push`, `UpStack.normalise`, `UpStack.Normal`.
Key theorems: `UpStack.normal_push`, `UpStack.normalise_reverse`, `UpStack.count_le_push`.
-/
import Mathlib.Data.List.Induction

namespace UpStack

variable {α : Type*} {up x : α} {names stack : List α} {k : ℕ}

/-! ### Normal stacks -/

/-- Names over steps up. -/
def Normal (up : α) (stack : List α) : Prop := ∃ names k, stack = names ++ List.replicate k up ∧ up ∉ names

/-- On a normal stack a step up finds a name, or is kept. -/
theorem Normal.cases (h : Normal up stack) :
    (∃ t rest, stack = t :: rest ∧ t ≠ up) ∨ ∃ k, stack = List.replicate k up := by
  obtain ⟨names, k, rfl, hnames⟩ := h
  cases names with
  | nil => exact Or.inr ⟨k, rfl⟩
  | cons t names =>
    rw [List.mem_cons, not_or] at hnames
    exact Or.inl ⟨t, names ++ List.replicate k up, rfl, Ne.symm hnames.1⟩

theorem Normal.cons (h : Normal up stack) (hx : x ≠ up) : Normal up (x :: stack) := by
  obtain ⟨names, k, rfl, hnames⟩ := h
  refine ⟨x :: names, k, rfl, ?_⟩
  rw [List.mem_cons, not_or]
  exact ⟨Ne.symm hx, hnames⟩

theorem normal_replicate (up : α) (k : ℕ) : Normal up (List.replicate k up) :=
  ⟨[], k, rfl, List.not_mem_nil⟩

theorem Normal.tail {t : α} {rest : List α} (h : Normal up (t :: rest)) : Normal up rest := by
  obtain ⟨names, k, heq, hnames⟩ := h
  cases names with
  | nil =>
    cases k with
    | zero => cases heq
    | succ k =>
      rw [List.nil_append, List.replicate_succ, List.cons.injEq] at heq
      rw [heq.2]
      exact normal_replicate up k
  | cons n names =>
    rw [List.cons_append, List.cons.injEq] at heq
    rw [List.mem_cons, not_or] at hnames
    exact ⟨names, k, heq.2, hnames.2⟩

/-! ### Steps -/

variable [DecidableEq α]

/-- A step, with the top of the stack first. -/
def push (up : α) (stack : List α) (x : α) : List α :=
  if x = up then
    match stack with
    | [] => [up]
    | t :: rest => if t = up then up :: t :: rest else rest
  else x :: stack

/-- What is left of a list of steps, the last one first. -/
def normalise (up : α) (steps : List α) : List α := steps.foldl (push up) []

/-! ### One step -/

theorem push_of_ne (h : x ≠ up) : push up stack x = x :: stack := if_neg h

theorem push_up_name (h : x ≠ up) : push up (x :: stack) up = stack := by
  unfold push
  rw [if_pos rfl]
  exact if_neg h

theorem push_up_replicate (up : α) (k : ℕ) : push up (List.replicate k up) up = List.replicate (k + 1) up := by
  unfold push
  rw [if_pos rfl]
  cases k with
  | zero => rfl
  | succ k => exact if_pos rfl

/-- A step keeps the stack normal. -/
theorem normal_push (h : Normal up stack) (x : α) : Normal up (push up stack x) := by
  by_cases hx : x = up
  case neg =>
    rw [push_of_ne hx]
    exact h.cons hx
  case pos =>
    subst hx
    rcases h.cases with ⟨t, rest, rfl, ht⟩ | ⟨k, rfl⟩
    · rw [push_up_name ht]
      exact h.tail
    · rw [push_up_replicate]
      exact normal_replicate x (k + 1)

/-- A step takes no step up away. -/
theorem count_le_push [BEq α] [LawfulBEq α] (up : α) (stack : List α) (x : α) :
    stack.count up ≤ (push up stack x).count up := by
  unfold push
  split
  · split
    · exact Nat.zero_le _
    · next t rest =>
      split
      · exact List.count_le_count_cons
      · next ht => exact Nat.le_of_eq (List.count_cons_of_ne ht)
  · exact List.count_le_count_cons

/-! ### All steps -/

theorem normalise_append (up : α) (steps : List α) (x : α) :
    normalise up (steps ++ [x]) = push up (normalise up steps) x := by
  rw [normalise, normalise, List.foldl_append]
  rfl

theorem normal_normalise (up : α) (steps : List α) : Normal up (normalise up steps) := by
  induction steps using List.reverseRecOn with
  | nil => exact normal_replicate up 0
  | append_singleton steps x ih =>
    rw [normalise_append]
    exact normal_push ih x

/-- Names are pushed as they come. -/
theorem foldl_push_names (h : up ∉ names) : names.reverse.foldl (push up) stack = names ++ stack := by
  induction names with
  | nil => rfl
  | cons t names ih =>
    rw [List.mem_cons, not_or] at h
    rw [List.reverse_cons, List.foldl_append, ih h.2]
    exact push_of_ne (Ne.symm h.1)

theorem normalise_replicate (up : α) (k : ℕ) : normalise up (List.replicate k up) = List.replicate k up := by
  induction k with
  | zero => rfl
  | succ k ih =>
    rw [List.replicate_succ', normalise_append, ih, push_up_replicate, List.replicate_succ']

/-- **A normal stack** is read back as it is. -/
theorem normalise_reverse (h : Normal up stack) : normalise up stack.reverse = stack := by
  obtain ⟨names, k, rfl, hnames⟩ := h
  rw [List.reverse_append, List.reverse_replicate, normalise, List.foldl_append]
  have hups := normalise_replicate up k
  rw [normalise] at hups
  rw [hups]
  exact foldl_push_names hnames

/-- A step up behind the first name takes it away. -/
theorem normalise_name_up (hx : x ≠ up) (h : up ∉ names) : normalise up (names ++ [up, x]).reverse = names := by
  have hfirst : push up (push up [] x) up = [] := by
    rw [push_of_ne hx, push_up_name hx]
  rw [List.reverse_append, normalise, List.foldl_append]
  show names.reverse.foldl (push up) (push up (push up [] x) up) = names
  rw [hfirst, foldl_push_names h, List.append_nil]

end UpStack
