/-
# Walking over all nodes of any tree

The recursive walk of a tree where some nodes have an empty name: below the
root, and below such nodes one under the other, there is nothing before a name,
and the helper writes to NULL if the first one is empty. The path of a node
leaves out the empty names it starts with.

Key definitions: `Configuration.trimNames`.
Key theorems: `Configuration.foreachRecursive_walkable`, `Configuration.segments_walk`.
-/
import Fcitx.Config.Traversal

namespace Fcitx
namespace Configuration

open KeyTree

/-- A run with a step that never succeeds. -/
theorem foldlM_none_of_mem {ι S : Type} {l : List ι} {f : S → ι → Option S} {e : ι} (he : e ∈ l)
    (h : ∀ s, f s e = none) (s : S) : l.foldlM f s = none := by
  induction l generalizing s with
  | nil => cases he
  | cons e' l ih =>
    rw [List.foldlM_cons]
    rcases List.mem_cons.mp he with rfl | he
    · rw [h s]
      rfl
    · cases f s e' with
      | none => rfl
      | some s => exact ih he s

/-- The helper writes to NULL for a first subitem without a name. -/
theorem subitemsForeach_null {σ : Type} (callback : ForeachCallback σ) (s : σ) (config : Configuration) :
    subitemsForeach callback (⟨[], none, 0⟩, s) ([], config) = none := rfl

theorem foreachAll_null {σ : Type} (callback : NodeCallback σ) {config : Configuration} (hd : config.Distinct)
    (hnot : ¬ config.Walkable) (ptr : NodePtr) (s : σ) : foreachAll callback ptr config [] s = none := by
  induction config using induction_children generalizing ptr s with
  | h config ih =>
    by_cases hnull : (Assoc.keys config.entries).head? = some []
    · obtain ⟨data, _ | _ | ⟨⟨key, item⟩, subitems⟩⟩ := config
      · cases hnull
      · cases hnull
      · obtain rfl : key = [] := Option.some.inj hnull
        rw [foreachAll, subitemsForeachAll_eq, List.foldlM_cons, subitemsForeach_null]
        rfl
    · -- the node without a name is reached, and the walk below it ends
      rw [foreachAll_eq_foldlM callback ptr fun h => hnull h.2]
      obtain ⟨c, hc, hcnot⟩ : ∃ c : Configuration, config.child [] = some c ∧ ¬ c.Walkable := by
        by_contra hall
        refine hnot ((walkable_iff config).mpr ⟨hnull, ?_⟩)
        intro c hc
        by_contra hcnot
        exact hall ⟨c, hc, hcnot⟩
      have he : (([], c) : Bytes × Configuration) ∈ config.entries := (child_eq_some_iff hd.nodup).mp hc
      refine foldlM_none_of_mem he (fun s => ?_) s
      show (callback (ptr ++ [[]]) c [] s).bind (foreachAll callback (ptr ++ [[]]) c []) = none
      apply Option.bind_eq_none_iff.mpr
      intro s' _
      exact ih ([], c) he (hd.of_mem he) hcnot (ptr ++ [[]]) s'

/-- **Walking over a whole tree** without a prefix: the walk ends if and only if no buffer is missing. -/
theorem foreachRecursive_walkable {σ : Type} {root : Configuration} (h : root.WellFormed) (callback : NodeCallback σ)
    (s : σ) :
    (root.Walkable → root.foreachRecursive [] none callback s =
      root.descendants.foldlM (fun s d => callback d.1 d.2 (d.1.foldl subPath []) s) s) ∧
    (¬ root.Walkable → root.foreachRecursive [] none callback s = none) := by
  have hget : root.get [] = some [] := by
    rw [get_eq, segments_nil]
    rfl
  unfold foreachRecursive
  rw [hget, Option.bind_some, find_nil]
  constructor
  · intro hwalk
    exact foreachAll_walkable callback h.distinct h.segmentKeys [] List.not_mem_nil (fun _ => hwalk) s
  · intro hnot
    exact foreachAll_null callback h.distinct hnot [] s

/-! ### The paths of the walk -/

/-- The names of a node without the empty ones at the start. -/
def trimNames (ptr : NodePtr) : NodePtr := ptr.dropWhile (· = [])

theorem trimNames_nil_cons (ptr : NodePtr) : trimNames ([] :: ptr) = trimNames ptr := rfl

theorem trimNames_of_head {k : Bytes} (hk : k ≠ []) (ptr : NodePtr) : trimNames (k :: ptr) = k :: ptr := by
  unfold trimNames
  rw [List.dropWhile_cons, if_neg (by simpa using hk)]

theorem foldl_subPath_nil (ptr : NodePtr) : ptr.foldl subPath [] = (trimNames ptr).foldl subPath [] := by
  induction ptr with
  | nil => rfl
  | cons k ptr ih =>
    by_cases hk : k = []
    · rw [hk, trimNames_nil_cons, ← ih]
      rfl
    · rw [trimNames_of_head hk]

theorem segments_foldl_subPath_ne {ptr : NodePtr} (h : ∀ k ∈ ptr, slash ∉ k) {path : Bytes} (hpath : path ≠ []) :
    segments (ptr.foldl subPath path) = segments path ++ ptr ∧ ptr.foldl subPath path ≠ [] := by
  induction ptr generalizing path with
  | nil => exact ⟨(List.append_nil _).symm, hpath⟩
  | cons k ptr ih =>
    have hsub : subPath path k = path ++ slash :: k := if_neg hpath
    have hne : subPath path k ≠ [] := hsub ▸ List.append_ne_nil_of_right_ne_nil _ (List.cons_ne_nil _ _)
    obtain ⟨hsegments, hlong⟩ := ih (fun k hk => h k (List.mem_cons_of_mem _ hk)) hne
    refine ⟨?_, hlong⟩
    rw [List.foldl_cons, hsegments, hsub, segments_append_slash path (h k List.mem_cons_self), List.append_assoc]
    rfl

/-- **The path of a node** leads to its names without the empty ones at the start. -/
theorem segments_walk {ptr : NodePtr} (h : ∀ k ∈ ptr, slash ∉ k) :
    segments (ptr.foldl subPath []) = trimNames ptr := by
  rw [foldl_subPath_nil]
  have htrim : ∀ k ∈ trimNames ptr, slash ∉ k := fun k hk => h k ((List.dropWhile_suffix _).mem hk)
  cases hptr : trimNames ptr with
  | nil => exact segments_nil
  | cons k rest =>
    rw [hptr] at htrim
    have hk : k ≠ [] := by
      have hhead := List.head?_dropWhile_not (fun k : Bytes => decide (k = [])) ptr
      intro hk
      rw [show ptr.dropWhile (fun k => decide (k = [])) = k :: rest from hptr] at hhead
      simp [hk] at hhead
    have hfirst : subPath [] k = k := rfl
    rw [List.foldl_cons, hfirst, (segments_foldl_subPath_ne (fun k hk => htrim k (List.mem_cons_of_mem _ hk)) hk).1,
      segments_of_notMem hk (htrim k List.mem_cons_self)]
    rfl

end Configuration
end Fcitx
