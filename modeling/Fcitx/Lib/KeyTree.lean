/-
# Trees whose children have keys

A node has its data and an insertion-ordered map of children, which may be
missing altogether. A node is addressed by the keys that lead to it from the
root, so an operation at an address is a recursion on the address, and what it
does is said by what every address shows afterwards (`view`: the data there and
the keys of the children).

Key definitions: `KeyTree.find`, `KeyTree.modify`, `KeyTree.viewAt`,
`KeyTree.insertChild`, `KeyTree.eraseChild`, `KeyTree.Distinct`.
Key theorems: `KeyTree.find_modify_append`, `KeyTree.viewAt_modify`,
`KeyTree.dataAt_insertChild`, `KeyTree.dataAt_eraseChild`.
-/
import Fcitx.Lib.Assoc

inductive KeyTree (K A : Type) where
  | node (data : A) (children : Option (List (K × KeyTree K A)))

namespace KeyTree

variable {K A : Type}

def data : KeyTree K A → A
  | .node data _ => data

def children : KeyTree K A → Option (List (K × KeyTree K A))
  | .node _ children => children

/-- The children; a missing table has none. -/
def entries (t : KeyTree K A) : List (K × KeyTree K A) := t.children.getD []

mutual

/-- The longest way down from a node. -/
def height : KeyTree K A → ℕ
  | .node _ none => 0
  | .node _ (some l) => heights l

/-- The longest way down from above a list of nodes. -/
def heights : List (K × KeyTree K A) → ℕ
  | [] => 0
  | (_, t) :: l => max (height t + 1) (heights l)
termination_by structural l => l

end

/-- A child is lower than its parent. -/
theorem height_lt {t : KeyTree K A} {e : K × KeyTree K A} (h : e ∈ t.entries) : e.2.height < t.height := by
  have hmem : ∀ {l : List (K × KeyTree K A)}, e ∈ l → e.2.height < heights l := by
    intro l hl
    induction l with
    | nil => cases hl
    | cons e' l ih =>
      rw [heights]
      rcases List.mem_cons.mp hl with rfl | hl
      · exact Nat.lt_of_lt_of_le (Nat.lt_succ_self _) (Nat.le_max_left _ _)
      · exact Nat.lt_of_lt_of_le (ih hl) (Nat.le_max_right _ _)
  obtain ⟨data, children⟩ := t
  cases children with
  | none => cases h
  | some l =>
    rw [height]
    exact hmem h

/-- What is seen at a node: its data and the keys of its children. -/
def view (t : KeyTree K A) : A × List K := (t.data, Assoc.keys t.entries)

variable [DecidableEq K]

def child (t : KeyTree K A) (k : K) : Option (KeyTree K A) := t.entries.lookup k

/-- The node at an address. -/
def find : KeyTree K A → List K → Option (KeyTree K A)
  | t, [] => some t
  | t, k :: ks => (t.child k).bind fun c => find c ks

/-- Change the node at an address. -/
def modify (f : KeyTree K A → KeyTree K A) : List K → KeyTree K A → KeyTree K A
  | [], t => f t
  | k :: ks, t => .node t.data (t.children.map fun l => Assoc.modify l k (modify f ks))

def setData (a : A) (t : KeyTree K A) : KeyTree K A := .node a t.children

/-- A new child at the end; the table is made if it is missing. -/
def insertChild (k : K) (a : A) (t : KeyTree K A) : KeyTree K A :=
  .node t.data (some (t.entries ++ [(k, .node a none)]))

def eraseChild (k : K) (t : KeyTree K A) : KeyTree K A :=
  .node t.data (t.children.map fun l => Assoc.erase l k)

/-- Other children, in a table. -/
def setChildren (l : List (K × KeyTree K A)) (t : KeyTree K A) : KeyTree K A := .node t.data (some l)

def viewAt (t : KeyTree K A) (ks : List K) : Option (A × List K) := (t.find ks).map view

def dataAt (t : KeyTree K A) (ks : List K) : Option A := (t.find ks).map data

/-- All tables of the tree have different keys. -/
def Distinct (t : KeyTree K A) : Prop := ∀ ks v, t.viewAt ks = some v → v.2.Nodup

variable {t : KeyTree K A} {f : KeyTree K A → KeyTree K A} {k : K} {ks js : List K} {a : A}

@[simp] theorem find_nil : t.find [] = some t := rfl

theorem child_eq_none_iff : t.child k = none ↔ k ∉ Assoc.keys t.entries := Assoc.lookup_eq_none_iff

/-- Finding a child is having it. -/
theorem child_eq_some_iff {c : KeyTree K A} (h : (Assoc.keys t.entries).Nodup) :
    t.child k = some c ↔ (k, c) ∈ t.entries := Assoc.lookup_eq_some_iff h

theorem find_cons : t.find (k :: ks) = (t.child k).bind fun c => c.find ks := rfl

/-- Going on from a node. -/
theorem find_append : t.find (ks ++ js) = (t.find ks).bind fun u => u.find js := by
  induction ks generalizing t with
  | nil => rfl
  | cons k ks ih =>
    rw [List.cons_append, find_cons, find_cons, Option.bind_assoc]
    exact congrArg _ (funext fun c => ih)

theorem dataAt_eq : t.dataAt ks = (t.viewAt ks).map Prod.fst := by
  rw [dataAt, viewAt, Option.map_map]
  rfl

/-! ### Changing a node -/

theorem child_modify {j : K} :
    (modify f (k :: ks) t).child j = if j = k then (t.child k).map (modify f ks) else t.child j := by
  obtain ⟨d, _ | l⟩ := t
  · simp [modify, child, entries, children]
  · exact Assoc.lookup_modify

/-- Below the address there is what the change made. -/
theorem find_modify_append :
    (modify f ks t).find (ks ++ js) = (t.find ks).bind fun u => (f u).find js := by
  induction ks generalizing t with
  | nil => rfl
  | cons k ks ih =>
    rw [List.cons_append, find_cons, child_modify, if_pos rfl, find_cons, Option.bind_assoc,
      Option.bind_map]
    exact congrArg _ (funext fun c => ih)

/-- At the address there is what the change made. -/
theorem find_modify : (modify f ks t).find ks = (t.find ks).map f := by
  have happend : (modify f ks t).find (ks ++ []) = (t.find ks).bind fun u => (f u).find [] := find_modify_append
  rw [List.append_nil] at happend
  rw [happend]
  cases t.find ks <;> rfl

/-- **Elsewhere nothing is seen of a change.** -/
theorem viewAt_modify (h : ¬ ks <+: js) : (modify f ks t).viewAt js = t.viewAt js := by
  induction ks generalizing t js with
  | nil => exact absurd List.nil_prefix h
  | cons k ks ih =>
    cases js with
    | nil =>
      obtain ⟨d, _ | l⟩ := t
      · rfl
      · simp [viewAt, view, modify, data, entries, children, Assoc.keys_modify]
    | cons j js =>
      rw [viewAt, viewAt, find_cons, find_cons, child_modify]
      by_cases hjk : j = k
      · subst hjk
        rw [if_pos rfl, Option.bind_map, Option.map_bind, Option.map_bind]
        have hne : ¬ ks <+: js := fun hp => h (List.cons_prefix_cons.mpr ⟨rfl, hp⟩)
        exact congrArg _ (funext fun c => ih hne)
      · rw [if_neg hjk]

theorem dataAt_modify (h : ¬ ks <+: js) : (modify f ks t).dataAt js = t.dataAt js := by
  rw [dataAt_eq, viewAt_modify h, dataAt_eq]

/-- The tables below a node are distinct. -/
theorem Distinct.find {u : KeyTree K A} (ht : t.Distinct) (h : t.find ks = some u) : u.Distinct := by
  intro js v hv
  refine ht (ks ++ js) v ?_
  rw [viewAt, find_append, h]
  exact hv

/-- A change that keeps tables distinct keeps them distinct in the whole tree. -/
theorem Distinct.modify (ht : t.Distinct) (hf : ∀ u, t.find ks = some u → u.Distinct → (f u).Distinct) :
    (modify f ks t).Distinct := by
  intro js v hv
  by_cases hp : ks <+: js
  · obtain ⟨js, rfl⟩ := hp
    rw [viewAt, find_modify_append] at hv
    cases hu : t.find ks with
    | none =>
      rw [hu] at hv
      cases hv
    | some u =>
      rw [hu] at hv
      exact hf u hu (ht.find hu) js v hv
  · rw [viewAt_modify hp] at hv
    exact ht js v hv

/-! ### The entries of a node -/

theorem Distinct.nodup (h : t.Distinct) : (Assoc.keys t.entries).Nodup := h [] t.view rfl

theorem Distinct.child_of_mem {e : K × KeyTree K A} (h : t.Distinct) (he : e ∈ t.entries) :
    t.child e.1 = some e.2 := (child_eq_some_iff h.nodup).mpr he

/-- An address that starts with the key of an entry goes on from its node. -/
theorem Distinct.find_of_mem {e : K × KeyTree K A} (h : t.Distinct) (he : e ∈ t.entries) (ks : List K) :
    t.find (e.1 :: ks) = e.2.find ks := by
  rw [find_cons, h.child_of_mem he]
  rfl

theorem Distinct.of_mem {e : K × KeyTree K A} (h : t.Distinct) (he : e ∈ t.entries) : e.2.Distinct :=
  h.find (h.find_of_mem he [])

/-! ### The changes -/

theorem find_setData (h : js ≠ []) : (setData a t).find js = t.find js := by
  cases js with
  | nil => exact absurd rfl h
  | cons j js => rfl

theorem Distinct.setData (h : t.Distinct) : (setData a t).Distinct := by
  intro js v hv
  by_cases hjs : js = []
  · subst hjs
    rw [← Option.some.inj hv]
    exact h [] t.view rfl
  · refine h js v ?_
    rw [← hv, viewAt, viewAt, find_setData hjs]

theorem child_insertChild (h : t.child k = none) {j : K} :
    (insertChild k a t).child j = if j = k then some (.node a none) else t.child j :=
  Assoc.lookup_concat h

theorem find_leaf (h : js ≠ []) : (node a none : KeyTree K A).find js = none := by
  cases js with
  | nil => exact absurd rfl h
  | cons j js => rfl

/-- What an added child shows. -/
theorem viewAt_insertChild (h : t.child k = none) (hjs : js ≠ []) :
    (insertChild k a t).viewAt js = if js = [k] then some (a, []) else t.viewAt js := by
  cases js with
  | nil => exact absurd rfl hjs
  | cons j js =>
    rw [viewAt, viewAt, find_cons, find_cons, child_insertChild h]
    by_cases hj : j = k
    · subst hj
      rw [if_pos rfl, h]
      cases js with
      | nil => simp [view, data, entries, children, Assoc.keys]
      | cons i js => simp [find_leaf]
    · simp [hj]

theorem Distinct.insertChild (h : t.Distinct) (hk : t.child k = none) : (insertChild k a t).Distinct := by
  intro js v hv
  by_cases hjs : js = []
  · subst hjs
    rw [← Option.some.inj hv]
    exact Assoc.keys_concat_nodup (h [] _ rfl) hk
  · rw [viewAt_insertChild hk hjs] at hv
    split at hv
    · rw [← Option.some.inj hv]
      exact List.nodup_nil
    · exact h js v hv

theorem child_eraseChild (h : t.Distinct) {j : K} :
    (eraseChild k t).child j = if j = k then none else t.child j := by
  obtain ⟨d, _ | l⟩ := t
  · simp [eraseChild, child, entries, children]
  · exact Assoc.lookup_erase (h [] _ rfl)

theorem find_eraseChild (h : t.Distinct) (hjs : js ≠ []) :
    (eraseChild k t).find js = if [k] <+: js then none else t.find js := by
  cases js with
  | nil => exact absurd rfl hjs
  | cons j js =>
    rw [find_cons, find_cons, child_eraseChild h]
    by_cases hj : j = k
    · simp [hj]
    · simp [hj, List.cons_prefix_cons, Ne.symm hj]

theorem Distinct.eraseChild (h : t.Distinct) : (eraseChild k t).Distinct := by
  intro js v hv
  by_cases hjs : js = []
  · subst hjs
    rw [← Option.some.inj hv]
    obtain ⟨d, _ | l⟩ := t
    · exact List.nodup_nil
    · exact Assoc.keys_erase_nodup (h [] _ rfl)
  · rw [viewAt, find_eraseChild h hjs] at hv
    split at hv
    · cases hv
    · exact h js v hv

/-- A new order of the children keeps the addresses below the node. -/
theorem find_setChildren {l : List (K × KeyTree K A)} (h : t.Distinct) (hperm : l.Perm t.entries) (hjs : js ≠ []) :
    (setChildren l t).find js = t.find js := by
  obtain ⟨j, js, rfl⟩ := List.exists_cons_of_ne_nil hjs
  have hchild : (setChildren l t).child j = t.child j := Assoc.lookup_perm hperm h.nodup
  rw [find_cons, find_cons, hchild]

theorem distinct_leaf : (node a none : KeyTree K A).Distinct := by
  intro js v hv
  by_cases hjs : js = []
  · subst hjs
    rw [← Option.some.inj hv]
    exact List.nodup_nil
  · rw [viewAt, find_leaf hjs] at hv
    cases hv

/-! ### The changes at an address -/

/-- **New data at an address** change what is there only. -/
theorem dataAt_setData {u : KeyTree K A} (h : t.find ks = some u) (hf : f u = setData a u) :
    (modify f ks t).dataAt js = if js = ks then some a else t.dataAt js := by
  by_cases hp : ks <+: js
  · obtain ⟨js, rfl⟩ := hp
    rw [dataAt, find_modify_append, h, Option.bind_some, hf, dataAt, find_append, h, Option.bind_some]
    by_cases hjs : js = []
    · subst hjs
      rw [if_pos (List.append_nil ks)]
      rfl
    · rw [if_neg (by simpa using hjs), find_setData hjs]
  · rw [dataAt_modify hp, if_neg]
    exact fun e => hp (e ▸ List.prefix_rfl)

/-- **A new child at an address** adds one address. -/
theorem dataAt_insertChild {u : KeyTree K A} (h : t.find ks = some u) (hk : u.child k = none) :
    (modify (insertChild k a) ks t).dataAt js = if js = ks ++ [k] then some a else t.dataAt js := by
  by_cases hp : ks <+: js
  · obtain ⟨js, rfl⟩ := hp
    rw [dataAt, find_modify_append, h, Option.bind_some, dataAt, find_append, h, Option.bind_some]
    by_cases hjs : js = []
    · subst hjs
      rw [if_neg (by simp)]
      rfl
    · have hview := viewAt_insertChild (a := a) hk hjs
      have hd : (insertChild k a u).dataAt js = if js = [k] then some a else u.dataAt js := by
        rw [dataAt_eq, hview, dataAt_eq]
        split <;> rfl
      rw [← dataAt, hd]
      simp [dataAt]
  · rw [dataAt_modify hp, if_neg]
    exact fun e => hp (e ▸ List.prefix_append ks [k])

/-- **A new order of the children at an address** keeps what is at every address. -/
theorem dataAt_setChildren {u : KeyTree K A} {l : List (K × KeyTree K A)} (ht : t.Distinct) (h : t.find ks = some u)
    (hperm : l.Perm u.entries) : (modify (setChildren l) ks t).dataAt js = t.dataAt js := by
  by_cases hp : ks <+: js
  · obtain ⟨js, rfl⟩ := hp
    rw [dataAt, find_modify_append, h, Option.bind_some, dataAt, find_append, h, Option.bind_some]
    by_cases hjs : js = []
    · subst hjs
      rfl
    · rw [find_setChildren (ht.find h) hperm hjs]
  · rw [dataAt_modify hp]

/-- **Erasing a child at an address** takes out the addresses below the child. -/
theorem dataAt_eraseChild {u : KeyTree K A} (ht : t.Distinct) (h : t.find ks = some u) :
    (modify (eraseChild k) ks t).dataAt js =
      if ks ++ [k] <+: js then none else t.dataAt js := by
  have hu : u.Distinct := ht.find h
  by_cases hp : ks <+: js
  · obtain ⟨js, rfl⟩ := hp
    rw [dataAt, find_modify_append, h, Option.bind_some, dataAt, find_append, h, Option.bind_some]
    simp only [List.prefix_append_right_inj]
    by_cases hjs : js = []
    · subst hjs
      rw [if_neg (by simp)]
      rfl
    · rw [find_eraseChild hu hjs]
      split <;> rfl
  · rw [dataAt_modify hp, if_neg fun hp' => hp ((List.prefix_append ks [k]).trans hp')]

end KeyTree
