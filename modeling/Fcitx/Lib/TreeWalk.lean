/-
# Walking down a tree

A walk goes through the nodes below a node: each before what is below it, the
children of a node in their order, and what is below a child before the next
child. It meets every address below the node once.

Key definitions: `KeyTree.descendants`.
Key theorems: `KeyTree.foldlM_descendants`, `KeyTree.mem_descendants`,
`KeyTree.descendants_parents_first`, `KeyTree.descendants_siblings`.
-/
import Fcitx.Lib.KeyTree

namespace KeyTree

variable {K A : Type}

/-- What holds of a node when it holds of its children holds of every node. -/
theorem induction_children {motive : KeyTree K A → Prop} (h : ∀ t, (∀ e ∈ t.entries, motive e.2) → motive t)
    (t : KeyTree K A) : motive t := by
  induction hn : t.height using Nat.strongRecOn generalizing t with
  | _ n ih =>
    apply h
    intro e he
    exact ih e.2.height (hn ▸ height_lt he) e.2 rfl

/-- The address from one node higher. -/
def lower (k : K) (d : List K × KeyTree K A) : List K × KeyTree K A := (k :: d.1, d.2)

mutual

/-- The nodes below a node, with their addresses. -/
def descendants : KeyTree K A → List (List K × KeyTree K A)
  | .node _ none => []
  | .node _ (some l) => descendantsOf l

/-- The nodes of a list, and what is below them. -/
def descendantsOf : List (K × KeyTree K A) → List (List K × KeyTree K A)
  | [] => []
  | (k, t) :: l => ([k], t) :: (descendants t).map (lower k) ++ descendantsOf l
termination_by structural l => l

end

/-- A child, and what is below it. -/
def childWalk (e : K × KeyTree K A) : List (List K × KeyTree K A) :=
  ([e.1], e.2) :: e.2.descendants.map (lower e.1)

theorem descendantsOf_eq (l : List (K × KeyTree K A)) : descendantsOf l = l.flatMap childWalk := by
  induction l with
  | nil => rfl
  | cons e l ih =>
    rw [descendantsOf, ih, List.flatMap_cons]
    rfl

theorem descendants_eq (t : KeyTree K A) : t.descendants = t.entries.flatMap childWalk := by
  obtain ⟨data, _ | l⟩ := t
  · rfl
  · rw [descendants, descendantsOf_eq]
    rfl

/-- What is met with a child starts with its key. -/
theorem mem_childWalk {e : K × KeyTree K A} {d : List K × KeyTree K A} (h : d ∈ childWalk e) :
    ∃ ks, d.1 = e.1 :: ks := by
  rcases List.mem_cons.mp h with rfl | h
  · exact ⟨[], rfl⟩
  · obtain ⟨d, -, rfl⟩ := List.mem_map.mp h
    exact ⟨d.1, rfl⟩

theorem ne_nil_of_mem_descendants {t : KeyTree K A} {d : List K × KeyTree K A} (h : d ∈ t.descendants) :
    d.1 ≠ [] := by
  rw [descendants_eq] at h
  obtain ⟨e, -, hd⟩ := List.mem_flatMap.mp h
  obtain ⟨ks, hks⟩ := mem_childWalk hd
  simp [hks]

/-- Of what is met with a child, only the child is directly below the node. -/
theorem filter_childWalk_nil (e : K × KeyTree K A) :
    (childWalk e).filter (fun d => d.1.dropLast = []) = [([e.1], e.2)] := by
  rw [childWalk, List.filter_cons_of_pos (by simp), List.filter_eq_nil_iff.mpr]
  intro d hd
  obtain ⟨d, hmem, rfl⟩ := List.mem_map.mp hd
  simp [lower, List.dropLast_cons_of_ne_nil (ne_nil_of_mem_descendants hmem)]

/-- **A walk with a callback**: at each child the callback, and then the walk below the child. -/
theorem foldlM_descendants {m : Type → Type} [Monad m] [LawfulMonad m] {S : Type} (f : S → List K × KeyTree K A → m S)
    (t : KeyTree K A) (s : S) :
    t.descendants.foldlM f s = t.entries.foldlM (fun s e => do
      let s ← f s ([e.1], e.2)
      e.2.descendants.foldlM (fun s d => f s (lower e.1 d)) s) s := by
  rw [descendants_eq]
  induction t.entries generalizing s with
  | nil => rfl
  | cons e l ih =>
    rw [List.flatMap_cons, List.foldlM_append, childWalk, List.foldlM_cons, List.foldlM_cons]
    simp only [List.foldlM_map, ih]

variable [DecidableEq K] {t : KeyTree K A}

/-- **A walk meets every address below the node**, with what is there. -/
theorem mem_descendants (ht : t.Distinct) {ks : List K} {u : KeyTree K A} :
    (ks, u) ∈ t.descendants ↔ ks ≠ [] ∧ t.find ks = some u := by
  induction t using induction_children generalizing ks with
  | h t ih =>
    rw [descendants_eq, List.mem_flatMap]
    constructor
    · intro ⟨e, he, hmem⟩
      rcases List.mem_cons.mp hmem with heq | hmem
      · obtain ⟨rfl, rfl⟩ := Prod.mk.inj heq
        exact ⟨List.cons_ne_nil _ _, ht.find_of_mem he []⟩
      · obtain ⟨⟨js, v⟩, hd, heq⟩ := List.mem_map.mp hmem
        obtain ⟨rfl, rfl⟩ := Prod.mk.inj heq
        refine ⟨List.cons_ne_nil _ _, ?_⟩
        rw [ht.find_of_mem he]
        exact ((ih e he (ht.of_mem he)).mp hd).2
    · intro ⟨hne, hfind⟩
      obtain ⟨k, js, rfl⟩ := List.exists_cons_of_ne_nil hne
      rw [find_cons] at hfind
      obtain ⟨c, hc, hfind⟩ := Option.bind_eq_some_iff.mp hfind
      have he : (k, c) ∈ t.entries := (child_eq_some_iff ht.nodup).mp hc
      refine ⟨(k, c), he, ?_⟩
      by_cases hjs : js = []
      · subst hjs
        rw [← Option.some.inj hfind]
        exact List.mem_cons_self
      · have hbelow := (ih (k, c) he (ht.of_mem he)).mpr ⟨hjs, hfind⟩
        exact List.mem_cons_of_mem _ (List.mem_map_of_mem hbelow)

/-- **A node comes before what is below it**, and nothing comes twice. -/
theorem descendants_parents_first (ht : t.Distinct) : t.descendants.Pairwise fun a b => ¬ b.1 <+: a.1 := by
  induction t using induction_children with
  | h t ih =>
    rw [descendants_eq, List.pairwise_flatMap]
    constructor
    · intro e he
      apply List.Pairwise.cons
      · intro d hd hbefore
        obtain ⟨d, hmem, rfl⟩ := List.mem_map.mp hd
        have hnil : d.1 = [] := List.prefix_nil.mp (List.cons_prefix_cons.mp hbefore).2
        exact ne_nil_of_mem_descendants hmem hnil
      · refine List.pairwise_map.mpr ((ih e he (ht.of_mem he)).imp fun hnot hbefore => ?_)
        exact hnot (List.cons_prefix_cons.mp hbefore).2
    · -- the addresses of two children start with different keys
      refine (List.pairwise_map.mp ht.nodup).imp fun hne a ha b hb hbefore => ?_
      obtain ⟨ks, hks⟩ := mem_childWalk ha
      obtain ⟨js, hjs⟩ := mem_childWalk hb
      rw [hks, hjs] at hbefore
      exact hne (List.cons_prefix_cons.mp hbefore).1.symm

/-- What is directly below a lower node is met with one child only. -/
theorem filter_childWalk_cons (e : K × KeyTree K A) (k : K) (ks : List K) :
    (childWalk e).filter (fun d => d.1.dropLast = k :: ks) =
      if e.1 = k then (e.2.descendants.filter fun d => d.1.dropLast = ks).map (lower k) else [] := by
  rw [childWalk, List.filter_cons_of_neg (by simp), List.filter_map]
  have hlower : ∀ d ∈ e.2.descendants,
      ((fun d => decide (d.1.dropLast = k :: ks)) ∘ lower e.1) d = decide (e.1 = k ∧ d.1.dropLast = ks) := by
    intro d hd
    simp [lower, List.dropLast_cons_of_ne_nil (ne_nil_of_mem_descendants hd)]
  rw [List.filter_congr hlower]
  split
  · next hk =>
    subst hk
    simp
  · next hk => simp [hk]

/-- Only the entry of a key gives something. -/
theorem flatMap_entries {B : Type} {c : KeyTree K A} {k : K} (ht : t.Distinct) (hc : t.child k = some c)
    {f : K × KeyTree K A → List B} (hf : ∀ e, e.1 ≠ k → f e = []) : t.entries.flatMap f = f (k, c) := by
  have he : (k, c) ∈ t.entries := (child_eq_some_iff ht.nodup).mp hc
  obtain ⟨front, back, hentries⟩ := List.mem_iff_append.mp he
  have hkeys := ht.nodup
  rw [hentries, Assoc.keys, List.map_append, List.map_cons] at hkeys
  have hmid : k ∉ Assoc.keys (front ++ back) := by
    rw [Assoc.keys, List.map_append]
    exact (List.nodup_middle.mp hkeys).notMem
  have hother : ∀ e ∈ front ++ back, f e = [] := by
    intro e he
    apply hf
    intro hek
    exact hmid (hek ▸ List.mem_map_of_mem he)
  have hfront : front.flatMap f = [] :=
    List.flatMap_eq_nil_iff.mpr fun e he => hother e (List.mem_append_left _ he)
  have hback : back.flatMap f = [] :=
    List.flatMap_eq_nil_iff.mpr fun e he => hother e (List.mem_append_right _ he)
  rw [hentries, List.flatMap_append, List.flatMap_cons, hfront, hback, List.nil_append, List.append_nil]

/-- **The children of a node come in their order.** -/
theorem descendants_siblings (ht : t.Distinct) {ks : List K} {u : KeyTree K A} (h : t.find ks = some u) :
    t.descendants.filter (fun d => d.1.dropLast = ks) = u.entries.map fun e => (ks ++ [e.1], e.2) := by
  induction ks generalizing t with
  | nil =>
    rw [← Option.some.inj h, descendants_eq, List.filter_flatMap]
    simp only [filter_childWalk_nil]
    rw [← List.map_eq_flatMap]
    rfl
  | cons k ks ih =>
    rw [find_cons] at h
    obtain ⟨c, hc, hu⟩ := Option.bind_eq_some_iff.mp h
    have he : (k, c) ∈ t.entries := (child_eq_some_iff ht.nodup).mp hc
    rw [descendants_eq, List.filter_flatMap, flatMap_entries ht hc, filter_childWalk_cons, if_pos rfl,
      ih (ht.of_mem he) hu, List.map_map]
    · rfl
    · intro e hne
      rw [filter_childWalk_cons, if_neg hne]

end KeyTree
