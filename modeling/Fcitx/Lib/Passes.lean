/-
# Loading in passes

Some items are tried in passes over a list. An item is tried once, when all it
depends on has been tried with success. What is tried within `k` passes is what
needs a dependency that is listed later at most `k - 1` times on every way down
(`ReadyIn`); with one or two passes this is a condition on the order alone.

Key definitions: `Passes.Graph`, `Passes.run`, `Passes.Loadable`,
`Passes.Ready`, `Passes.ReadyIn`, `Passes.Ordered`.
Key theorems: `Passes.run_ordered`, `Passes.mem_run`, `Passes.readyIn_one_iff`,
`Passes.readyIn_two_iff`.
-/
import Mathlib.Data.List.Induction
import Mathlib.Data.List.Nodup
import Mathlib.Logic.Relation

namespace Passes

variable {α : Type}

/-- What an item depends on, whether it takes part, and whether it succeeds. -/
structure Graph (α : Type) where
  good : α → Bool
  ok : α → Bool
  deps : α → List α

variable (G : Graph α) (order : List α)

section run

variable [DecidableEq α]

/-- The items that were tried, after `a` had its turn. -/
def visit (tried : List α) (a : α) : List α :=
  if G.good a ∧ a ∉ tried ∧ ∀ d ∈ G.deps a, d ∈ tried ∧ G.ok d then tried ++ [a] else tried

/-- The items that were tried after `k` passes. -/
def run : ℕ → List α
  | 0 => []
  | k + 1 => order.foldl (visit G) (run k)

end run

/-- The items that can be loaded, in whatever order. -/
inductive Loadable : α → Prop
  | mk {a : α} : a ∈ order → G.good a → G.ok a → (∀ d ∈ G.deps a, Loadable d) → Loadable a

/-- The items that should be tried. -/
def Ready (a : α) : Prop := a ∈ order ∧ G.good a ∧ ∀ d ∈ G.deps a, Loadable G order d

/-- The items that are tried within `k` passes: a dependency that is not listed
before has to be there a pass earlier. -/
inductive ReadyIn : ℕ → α → Prop
  | mk {k : ℕ} {a : α} {pre post : List α} : order = pre ++ a :: post → G.good a →
      (∀ d ∈ G.deps a, G.ok d) → (∀ d ∈ G.deps a, d ∈ pre → ReadyIn (k + 1) d) →
      (∀ d ∈ G.deps a, d ∉ pre → ReadyIn k d) → ReadyIn (k + 1) a

/-- `d` is listed before `a`. -/
def Before (d a : α) : Prop := ∃ pre post, order = pre ++ a :: post ∧ d ∈ pre

/-- Whatever `a` needs, however far down, is listed before what needs it. -/
def AllBefore (a : α) : Prop :=
  ∀ x, Relation.ReflTransGen (fun x y => y ∈ G.deps x) a x → ∀ y ∈ G.deps x, Before order y x

/-- Everything is tried once, after what it depends on. -/
structure Ordered (tried : List α) : Prop where
  nodup : tried.Nodup
  deps : ∀ pre a post, tried = pre ++ a :: post → G.good a ∧ ∀ d ∈ G.deps a, d ∈ pre ∧ G.ok d

variable {G order}

section ordered

variable [DecidableEq α] {tried : List α} {a : α}

theorem Ordered.visit (h : Ordered G tried) (a : α) : Ordered G (visit G tried a) := by
  rw [Passes.visit]
  split
  · next hc =>
    obtain ⟨hgood, hnew, hdeps⟩ := hc
    refine ⟨?_, fun pre b post hsplit => ?_⟩
    · rw [← List.concat_eq_append]
      exact h.nodup.concat hnew
    · rcases List.append_eq_append_iff.mp hsplit with ⟨as, rfl, has⟩ | ⟨bs, rfl, hbs⟩
      · cases as with
        | nil =>
          obtain ⟨rfl, rfl⟩ : a = b ∧ [] = post := by simpa using has
          simpa using ⟨hgood, hdeps⟩
        | cons c as => simp at has
      · cases bs with
        | nil =>
          obtain ⟨rfl, rfl⟩ : b = a ∧ post = [] := by simpa using hbs
          rw [List.append_nil] at hdeps
          exact ⟨hgood, hdeps⟩
        | cons c bs =>
          obtain ⟨rfl, -⟩ : b = c ∧ post = bs ++ [a] := by simpa using hbs
          exact h.deps pre b bs rfl
  · exact h

/-- **What is tried is tried once, after what it depends on.** -/
theorem run_ordered (k : ℕ) : Ordered G (run G order k) := by
  have hfold : ∀ (l : List α) (tried : List α), Ordered G tried → Ordered G (l.foldl (visit G) tried) := by
    intro l
    induction l with
    | nil => exact fun tried h => h
    | cons a l ih => exact fun tried h => ih _ (h.visit a)
  induction k with
  | zero => exact ⟨List.nodup_nil, fun pre a post h => by simp [run] at h⟩
  | succ k ih => exact hfold order _ ih

end ordered

/-! ### What is tried within `k` passes -/

section readyIn

variable {k : ℕ} {a : α}

theorem ReadyIn.mono (h : ReadyIn G order k a) : ReadyIn G order (k + 1) a := by
  induction h with
  | mk horder hgood hok _ _ ih₁ ih₂ => exact .mk horder hgood hok ih₁ ih₂

theorem ReadyIn.mem (h : ReadyIn G order k a) : a ∈ order := by
  cases h with
  | mk horder => simp [horder]

theorem ReadyIn.ready (h : ReadyIn G order k a) : Ready G order a := by
  induction h with
  | @mk k a pre post horder hgood hok _ _ ih₁ ih₂ =>
    refine ⟨by simp [horder], hgood, fun d hd => ?_⟩
    by_cases hpre : d ∈ pre
    · obtain ⟨hmem, hgood', hdeps⟩ := ih₁ d hd hpre
      exact .mk hmem hgood' (hok d hd) hdeps
    · obtain ⟨hmem, hgood', hdeps⟩ := ih₂ d hd hpre
      exact .mk hmem hgood' (hok d hd) hdeps

/-- An item has one place. -/
theorem split_unique {pre pre' post post' : List α} (h : a ∉ pre) (h' : a ∉ pre')
    (heq : pre ++ a :: post = pre' ++ a :: post') : pre = pre' := by
  rcases List.append_eq_append_iff.mp heq with ⟨as, rfl, has⟩ | ⟨bs, rfl, hbs⟩
  · cases as with
    | nil => rw [List.append_nil]
    | cons c as =>
      obtain ⟨rfl, -⟩ := List.cons.inj has
      exact absurd (by simp) h'
  · cases bs with
    | nil => rw [List.append_nil]
    | cons c bs =>
      obtain ⟨rfl, -⟩ := List.cons.inj hbs
      exact absurd (by simp) h

/-- One inversion of `ReadyIn` at the place of `a`. -/
theorem readyIn_succ_iff {pre post : List α} (hnd : order.Nodup) (horder : order = pre ++ a :: post) :
    ReadyIn G order (k + 1) a ↔ G.good a ∧ ∀ d ∈ G.deps a, G.ok d ∧
      (ReadyIn G order k d ∨ d ∈ pre ∧ ReadyIn G order (k + 1) d) := by
  constructor
  · intro h
    cases h with
    | @mk _ _ pre' post' horder' hgood hok h₁ h₂ =>
      have hpre : pre' = pre := by
        have hout : a ∉ pre := fun hmem =>
          (List.nodup_append.mp (horder ▸ hnd)).2.2 a hmem a List.mem_cons_self rfl
        have hout' : a ∉ pre' := fun hmem =>
          (List.nodup_append.mp (horder' ▸ hnd)).2.2 a hmem a List.mem_cons_self rfl
        exact split_unique hout' hout (horder'.symm.trans horder)
      subst hpre
      refine ⟨hgood, fun d hd => ⟨hok d hd, ?_⟩⟩
      by_cases hmem : d ∈ pre'
      · exact Or.inr ⟨hmem, h₁ d hd hmem⟩
      · exact Or.inl (h₂ d hd hmem)
  · rintro ⟨hgood, hdeps⟩
    refine .mk horder hgood (fun d hd => (hdeps d hd).1) (fun d hd _ => ?_) fun d hd hmem => ?_
    · rcases (hdeps d hd).2 with h | h
      · exact h.mono
      · exact h.2
    · rcases (hdeps d hd).2 with h | h
      · exact h
      · exact absurd h.1 hmem

variable [DecidableEq α]

/-- A pass, up to a place in the list. -/
theorem mem_foldl_visit (hnd : order.Nodup) (hrun : ∀ a, a ∈ run G order k ↔ ReadyIn G order k a)
    (pre post : List α) (horder : order = pre ++ post) (a : α) :
    a ∈ pre.foldl (visit G) (run G order k) ↔
      ReadyIn G order k a ∨ a ∈ pre ∧ ReadyIn G order (k + 1) a := by
  induction pre using List.reverseRecOn generalizing post a with
  | nil => simp [hrun]
  | append_singleton pre b ih =>
    have hsplit : order = pre ++ b :: post := by rw [horder]; simp
    have hmem := ih (b :: post) hsplit
    rw [List.foldl_append, List.foldl_cons, List.foldl_nil, visit]
    have hb := readyIn_succ_iff (k := k) (G := G) hnd hsplit
    have hcond : (∀ d ∈ G.deps b, d ∈ pre.foldl (visit G) (run G order k) ∧ G.ok d) ↔
        ∀ d ∈ G.deps b, G.ok d ∧ (ReadyIn G order k d ∨ d ∈ pre ∧ ReadyIn G order (k + 1) d) := by
      simp only [hmem, and_comm]
    have hbpre : b ∉ pre := by
      rw [hsplit] at hnd
      exact fun h => (List.nodup_append.mp hnd).2.2 b h b List.mem_cons_self rfl
    split
    · next hc =>
      have hready : ReadyIn G order (k + 1) b := hb.mpr ⟨hc.1, hcond.mp hc.2.2⟩
      rw [List.mem_append, hmem a, List.mem_singleton, List.mem_append, List.mem_singleton]
      constructor
      · rintro ((h | h) | rfl)
        · exact Or.inl h
        · exact Or.inr ⟨Or.inl h.1, h.2⟩
        · exact Or.inr ⟨Or.inr rfl, hready⟩
      · rintro (h | ⟨h | rfl, h'⟩)
        · exact Or.inl (Or.inl h)
        · exact Or.inl (Or.inr ⟨h, h'⟩)
        · exact Or.inr rfl
    · next hc =>
      rw [hmem a, List.mem_append, List.mem_singleton]
      constructor
      · rintro (h | h)
        · exact Or.inl h
        · exact Or.inr ⟨Or.inl h.1, h.2⟩
      · rintro (h | ⟨h | rfl, h'⟩)
        · exact Or.inl h
        · exact Or.inr ⟨h, h'⟩
        · -- `a` has its turn and is not tried now: it was tried before
          obtain ⟨hgood, hdeps⟩ := hb.mp h'
          by_cases htried : a ∈ pre.foldl (visit G) (run G order k)
          · exact (hmem a).mp htried
          · exact absurd ⟨hgood, htried, hcond.mpr hdeps⟩ hc

/-- **What is tried within `k` passes.** -/
theorem mem_run (hnd : order.Nodup) (k : ℕ) (a : α) : a ∈ run G order k ↔ ReadyIn G order k a := by
  induction k generalizing a with
  | zero =>
    constructor
    · intro h
      simp [run] at h
    · intro h
      cases h
  | succ k ih =>
    rw [run, mem_foldl_visit hnd ih order [] (List.append_nil _).symm]
    constructor
    · rintro (h | h)
      · exact h.mono
      · exact h.2
    · exact fun h => Or.inr ⟨h.mem, h⟩

end readyIn

/-! ### Nothing is left to try -/

/-- **Nothing is left to try** after `k` passes when all that should be tried is
tried within them. -/
theorem settled_iff [DecidableEq α] (hnd : order.Nodup) (k : ℕ) :
    (∀ a ∈ order, G.good a → (∀ d ∈ G.deps a, d ∈ run G order k ∧ G.ok d) → a ∈ run G order k) ↔
      ∀ a, Ready G order a → ReadyIn G order k a := by
  constructor
  · intro h
    have hload : ∀ d, Loadable G order d → d ∈ run G order k ∧ G.ok d := by
      intro d hd
      induction hd with
      | mk hmem hgood hok _ ih => exact ⟨h _ hmem hgood ih, hok⟩
    intro a ha
    exact (mem_run hnd k a).mp (h a ha.1 ha.2.1 fun d hd => hload d (ha.2.2 d hd))
  · intro h a hmem hgood hdeps
    refine (mem_run hnd k a).mpr (h a ⟨hmem, hgood, fun d hd => ?_⟩)
    obtain ⟨hrun, hok⟩ := hdeps d hd
    obtain ⟨hmem', hgood', hdeps'⟩ := ((mem_run hnd k d).mp hrun).ready
    exact .mk hmem' hgood' hok hdeps'

/-- What is loaded can be loaded. -/
theorem loadable_of_mem_run [DecidableEq α] (hnd : order.Nodup) {k : ℕ} {a : α} (h : a ∈ run G order k)
    (hok : G.ok a) : Loadable G order a := by
  obtain ⟨hmem, hgood, hdeps⟩ := ((mem_run hnd k a).mp h).ready
  exact .mk hmem hgood hok hdeps

/-! ### The order of the list -/

section order

variable {k : ℕ} {a : α}

theorem Loadable.ready (h : Loadable G order a) : Ready G order a := by
  cases h with
  | mk hmem hgood _ hdeps => exact ⟨hmem, hgood, hdeps⟩

theorem Loadable.ok (h : Loadable G order a) : G.ok a := by
  cases h with
  | mk _ _ hok _ => exact hok

theorem Ready.readyIn (h : Ready G order a) (hnd : order.Nodup)
    (hdeps : ∀ d ∈ G.deps a, ReadyIn G order k d ∨ Before order d a ∧ ReadyIn G order (k + 1) d) :
    ReadyIn G order (k + 1) a := by
  obtain ⟨hmem, hgood, hload⟩ := h
  obtain ⟨pre, post, horder⟩ := List.append_of_mem hmem
  refine (readyIn_succ_iff hnd horder).mpr ⟨hgood, fun d hd => ⟨(hload d hd).ok, ?_⟩⟩
  rcases hdeps d hd with h | ⟨⟨pre', post', horder', hpre'⟩, h⟩
  · exact Or.inl h
  · have hout : ∀ {pre post}, order = pre ++ a :: post → a ∉ pre := fun he hmem =>
      (List.nodup_append.mp (he ▸ hnd)).2.2 a hmem a List.mem_cons_self rfl
    rw [split_unique (hout horder') (hout horder) (horder'.symm.trans horder)] at hpre'
    exact Or.inr ⟨hpre', h⟩

/-- A dependency is listed before, or is there a pass earlier. -/
theorem ReadyIn.deps (h : ReadyIn G order (k + 1) a) :
    ∀ d ∈ G.deps a, Before order d a ∧ ReadyIn G order (k + 1) d ∨ ReadyIn G order k d := by
  cases h with
  | @mk _ _ pre post horder _ _ h₁ h₂ =>
    intro d hd
    by_cases hpre : d ∈ pre
    · exact Or.inl ⟨⟨pre, post, horder, hpre⟩, h₁ d hd hpre⟩
    · exact Or.inr (h₂ d hd hpre)

/-- Within one pass everything on the way down is listed before. -/
theorem ReadyIn.before (h : ReadyIn G order 1 a) :
    ∀ d ∈ G.deps a, Before order d a ∧ ReadyIn G order 1 d := by
  intro d hd
  rcases h.deps d hd with h' | h'
  · exact h'
  · cases h'

theorem ReadyIn.allBefore (h : ReadyIn G order 1 a) : AllBefore G order a := by
  intro x hx
  have hready : ReadyIn G order 1 x := by
    induction hx with
    | refl => exact h
    | tail _ hstep ih => exact (ih.before _ hstep).2
  exact fun y hy => (hready.before y hy).1

/-- **One pass is enough** when every item is listed after what it depends on. -/
theorem readyIn_one_iff (hnd : order.Nodup) :
    (∀ a, Ready G order a → ReadyIn G order 1 a) ↔
      ∀ a, Ready G order a → ∀ d ∈ G.deps a, Before order d a := by
  constructor
  · exact fun h a ha d hd => ((h a ha).before d hd).1
  · intro h
    have hload : ∀ d, Loadable G order d → ReadyIn G order 1 d := by
      intro d hd
      induction hd with
      | mk hmem hgood _ hdeps ih =>
        have hready : Ready G order _ := ⟨hmem, hgood, hdeps⟩
        exact hready.readyIn hnd fun d hd => Or.inr ⟨h _ hready d hd, ih d hd⟩
    exact fun a ha => ha.readyIn hnd fun d hd => Or.inr ⟨h a ha d hd, hload d (ha.2.2 d hd)⟩

theorem Loadable.readyIn_one (h : Loadable G order a) (hnd : order.Nodup) (hall : AllBefore G order a) :
    ReadyIn G order 1 a := by
  induction h with
  | @mk a hmem hgood _ hdeps ih =>
    have hready : Ready G order a := ⟨hmem, hgood, hdeps⟩
    refine hready.readyIn hnd fun d hd => Or.inr ⟨hall a .refl d hd, ih d hd fun x hx => ?_⟩
    exact hall x (.head hd hx)

/-- **Two passes are enough** when below a dependency that is listed later
everything is in order. -/
theorem readyIn_two_iff (hnd : order.Nodup) :
    (∀ a, Ready G order a → ReadyIn G order 2 a) ↔
      ∀ a, Ready G order a → ∀ d ∈ G.deps a, Before order d a ∨ AllBefore G order d := by
  constructor
  · intro h a ha d hd
    rcases (h a ha).deps d hd with h' | h'
    · exact Or.inl h'.1
    · exact Or.inr h'.allBefore
  · intro h
    have hload : ∀ d, Loadable G order d → ReadyIn G order 2 d := by
      intro d hd
      induction hd with
      | mk hmem hgood _ hdeps ih =>
        have hready : Ready G order _ := ⟨hmem, hgood, hdeps⟩
        refine hready.readyIn hnd fun d hd => ?_
        rcases h _ hready d hd with hb | hall
        · exact Or.inr ⟨hb, ih d hd⟩
        · exact Or.inl ((hdeps d hd).readyIn_one hnd hall)
    intro a ha
    refine ha.readyIn hnd fun d hd => ?_
    rcases h a ha d hd with hb | hall
    · exact Or.inr ⟨hb, hload d (ha.2.2 d hd)⟩
    · exact Or.inl ((ha.2.2 d hd).readyIn_one hnd hall)

end order

end Passes
