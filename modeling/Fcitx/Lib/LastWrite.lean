/-
# The last write

After a run of writes a map holds at each key what the last write to the key
put there. Where some writers only write to a key before all others do, they
count only at the keys that no other one writes to.

Key definitions: `LastWrite.lastAt`.
Key theorems: `LastWrite.foldl_update_eq`, `LastWrite.lastAt_flatMap_early`.
-/
import Mathlib.Data.List.Basic
import Mathlib.Logic.Function.Basic

namespace LastWrite

variable {K V D : Type} [DecidableEq K] {k : K} {v : V} {ws : List (K × V)}

/-- What the last write to a key writes. -/
def lastAt : List (K × V) → K → Option V
  | [], _ => none
  | w :: ws, k => (lastAt ws k).or (if w.1 = k then some w.2 else none)

theorem lastAt_nil (k : K) : lastAt ([] : List (K × V)) k = none := rfl

theorem lastAt_append (ws ws' : List (K × V)) (k : K) :
    lastAt (ws ++ ws') k = (lastAt ws' k).or (lastAt ws k) := by
  induction ws with
  | nil => rw [List.nil_append, lastAt_nil, Option.or_none]
  | cons w ws ih => rw [List.cons_append, lastAt, lastAt, ih, Option.or_assoc]

theorem lastAt_eq_none_iff : lastAt ws k = none ↔ ∀ w ∈ ws, w.1 ≠ k := by
  induction ws with
  | nil => simp [lastAt]
  | cons w ws ih =>
    rw [lastAt, Option.or_eq_none_iff, ih, List.forall_mem_cons, and_comm]
    apply and_congr_left
    intro _
    simp

theorem mem_of_lastAt (h : lastAt ws k = some v) : (k, v) ∈ ws := by
  induction ws with
  | nil => cases h
  | cons w ws ih =>
    rw [lastAt, Option.or_eq_some_iff] at h
    rcases h with h | ⟨-, h⟩
    · exact List.mem_cons_of_mem _ (ih h)
    · split at h
      · next hw =>
        obtain rfl := Option.some.inj h
        rw [← hw]
        exact List.mem_cons_self
      · cases h

/-- **A run of writes** to a map leaves the last one at each key. -/
theorem foldl_update_eq (ws : List (K × V)) (m : K → V) (k : K) :
    ws.foldl (fun m w => Function.update m w.1 w.2) m k = (lastAt ws k).getD (m k) := by
  induction ws generalizing m with
  | nil => rfl
  | cons w ws ih =>
    rw [List.foldl_cons, ih, lastAt]
    cases lastAt ws k with
    | some v => rfl
    | none =>
      rw [Option.none_or, Function.update_apply]
      by_cases hk : w.1 = k
      · rw [if_pos hk, if_pos hk.symm]
        rfl
      · rw [if_neg hk, if_neg fun h => hk h.symm]

/-- **Early writers**: where none of them comes behind another writer to the same key, they count only at the keys
that no other one writes to. -/
theorem lastAt_flatMap_early (early : D → Prop) [DecidablePred early] (f g : D → List (K × V)) {ds : List D}
    (h : ds.Pairwise fun d e => ¬ early d → early e → ∀ w ∈ g d, ∀ w' ∈ f e, w.1 ≠ w'.1) (k : K) :
    lastAt (ds.flatMap fun d => if early d then f d else g d) k =
      (lastAt (ds.flatMap fun d => if early d then [] else g d) k).or
        (lastAt (ds.flatMap fun d => if early d then f d else []) k) := by
  induction ds with
  | nil => rfl
  | cons d ds ih =>
    obtain ⟨hd, hds⟩ := List.pairwise_cons.mp h
    simp only [List.flatMap_cons, lastAt_append, ih hds]
    by_cases hearly : early d
    · simp only [if_pos hearly, lastAt_nil, Option.or_none]
      rw [Option.or_assoc]
    · simp only [if_neg hearly, lastAt_nil, Option.or_none]
      cases hg : lastAt (g d) k with
      | none => rw [Option.or_none, Option.or_none]
      | some v =>
        -- no early writer behind it writes to the key
        have hnone : lastAt (ds.flatMap fun d => if early d then f d else []) k = none := by
          apply lastAt_eq_none_iff.mpr
          intro w hw
          obtain ⟨e, he, hw⟩ := List.mem_flatMap.mp hw
          split at hw
          · next hearly' => exact (hd e he hearly hearly' _ (mem_of_lastAt hg) w hw).symm
          · cases hw
        rw [hnone, Option.or_none, Option.or_none]

end LastWrite
