/-
# Runs of a system

A system takes operations one after another: `Run.exec step s ops` is the
state after `ops`. An operation need not be allowed in every state;
`Run.Admissible` says that each one is allowed where it is taken. What every
allowed step keeps holds after every admissible run (`Run.invariant`); a condition on
the steps that is enough and needed is one on the runs (`Run.each_iff`, `Run.always_iff`).

Key definitions: `Run.exec`, `Run.Admissible`.
Key theorems: `Run.invariant`, `Run.each_iff`, `Run.always_iff`, `Run.admissible_append`,
`Run.admissible_iff`.
-/
import Mathlib.Data.List.Basic

namespace Run

variable {σ ι : Type} (step : σ → ι → σ) (ok : σ → ι → Prop)

/-- The state after the operations `ops`. -/
def exec (s : σ) (ops : List ι) : σ := ops.foldl step s

/-- Each operation is allowed in the state it is taken in. -/
def Admissible : σ → List ι → Prop
  | _, [] => True
  | s, op :: ops => ok s op ∧ Admissible (step s op) ops

instance admissibleDecidable [∀ s op, Decidable (ok s op)] :
    ∀ (s : σ) (ops : List ι), Decidable (Admissible step ok s ops)
  | _, [] => .isTrue trivial
  | s, op :: ops =>
    @instDecidableAnd _ _ inferInstance (admissibleDecidable (step s op) ops)

@[simp] theorem exec_nil (s : σ) : exec step s [] = s := rfl

@[simp] theorem exec_cons (s : σ) (op : ι) (ops : List ι) :
    exec step s (op :: ops) = exec step (step s op) ops := rfl

theorem exec_append (s : σ) (ops ops' : List ι) :
    exec step s (ops ++ ops') = exec step (exec step s ops) ops' :=
  List.foldl_append

variable {step ok}

theorem admissible_append {s : σ} {ops ops' : List ι} :
    Admissible step ok s (ops ++ ops') ↔
      Admissible step ok s ops ∧ Admissible step ok (exec step s ops) ops' := by
  induction ops generalizing s with
  | nil => simp [Admissible]
  | cons op ops ih => simp [Admissible, ih, and_assoc]

theorem Admissible.mono {ok' : σ → ι → Prop} (h : ∀ s op, ok s op → ok' s op) {s : σ} {ops : List ι}
    (ha : Admissible step ok s ops) : Admissible step ok' s ops := by
  induction ops generalizing s with
  | nil => trivial
  | cons op ops ih => exact ⟨h s op ha.1, ih ha.2⟩

theorem Admissible.and {ok' : σ → ι → Prop} {s : σ} {ops : List ι} (ha : Admissible step ok s ops)
    (ha' : Admissible step ok' s ops) : Admissible step (fun s op => ok s op ∧ ok' s op) s ops := by
  induction ops generalizing s with
  | nil => trivial
  | cons op ops ih => exact ⟨⟨ha.1, ha'.1⟩, ih ha.2 ha'.2⟩

/-- Each operation is allowed where it is taken. -/
theorem admissible_iff {s : σ} {ops : List ι} :
    Admissible step ok s ops ↔
      ∀ before op after, ops = before ++ op :: after → ok (exec step s before) op := by
  constructor
  · rintro ha before op after rfl
    exact (admissible_append.mp ha).2.1
  · intro h
    induction ops generalizing s with
    | nil => trivial
    | cons op ops ih =>
      refine ⟨h [] op ops rfl, ih fun before op' after he => ?_⟩
      exact h (op :: before) op' after (by rw [he, List.cons_append])

/-- A condition on the operations alone. -/
theorem admissible_of_op {ok : ι → Prop} {s : σ} {ops : List ι} :
    Admissible step (fun _ => ok) s ops ↔ ∀ op ∈ ops, ok op := by
  induction ops generalizing s with
  | nil => simp [Admissible]
  | cons op ops ih => simp [Admissible, ih]

/-- **What every allowed step keeps holds after every admissible run.** -/
theorem invariant {P : σ → Prop} (hstep : ∀ s op, P s → ok s op → P (step s op)) {s : σ}
    {ops : List ι} (hs : P s) (ha : Admissible step ok s ops) : P (exec step s ops) := by
  induction ops generalizing s with
  | nil => exact hs
  | cons op ops ih => exact ih (hstep s op hs ha.1) ha.2

/-- **What holds of every step.** Where a condition is enough for a step to be good and to keep the invariant, and
needed for it to be good, the steps of a run are all good exactly if they all meet the condition. -/
theorem each_iff {I : σ → Prop} {P cond : σ → ι → Prop}
    (hkeep : ∀ s op, I s → ok s op → cond s op → P s op ∧ I (step s op))
    (hneed : ∀ s op, I s → ok s op → P s op → cond s op) {s : σ} {ops : List ι} (hs : I s)
    (ha : Admissible step ok s ops) : Admissible step P s ops ↔ Admissible step cond s ops := by
  induction ops generalizing s with
  | nil => exact Iff.rfl
  | cons op ops ih =>
    constructor
    · rintro ⟨hgood, hrest⟩
      have hcond := hneed s op hs ha.1 hgood
      exact ⟨hcond, (ih (hkeep s op hs ha.1 hcond).2 ha.2).mp hrest⟩
    · rintro ⟨hcond, hrest⟩
      obtain ⟨hgood, hs'⟩ := hkeep s op hs ha.1 hcond
      exact ⟨hgood, (ih hs' ha.2).mpr hrest⟩

/-- **What holds all the time.** Where a condition on the state and the operation is both enough for a step to keep
the invariant and needed for what follows from it, a run has that in each of its states exactly if each of its
operations meets the condition. -/
theorem always_iff {I P : σ → Prop} {cond : σ → ι → Prop} (hI : ∀ s, I s → P s)
    (hkeep : ∀ s op, I s → ok s op → cond s op → I (step s op))
    (hneed : ∀ s op, I s → ok s op → P (step s op) → cond s op) {s : σ} {ops : List ι} (hs : I s)
    (ha : Admissible step ok s ops) :
    (∀ before after, ops = before ++ after → P (exec step s before)) ↔ Admissible step cond s ops := by
  induction ops generalizing s with
  | nil =>
    refine iff_of_true (fun before after h => ?_) trivial
    rw [(List.append_eq_nil_iff.mp h.symm).1]
    exact hI s hs
  | cons op ops ih =>
    constructor
    · intro h
      have hcond : cond s op := hneed s op hs ha.1 (h [op] ops rfl)
      refine ⟨hcond, (ih (hkeep s op hs ha.1 hcond) ha.2).mp fun before after hsplit => ?_⟩
      exact h (op :: before) after (by rw [hsplit, List.cons_append])
    · rintro ⟨hcond, hrest⟩ before after hsplit
      cases before with
      | nil => exact hI s hs
      | cons op' before =>
        obtain ⟨rfl, htail⟩ := List.cons.inj hsplit
        exact (ih (hkeep s op hs ha.1 hcond) ha.2).mpr hrest before after htail

end Run
