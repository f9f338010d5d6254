/-
# The hash table over whole runs

Whatever entries the program adds and deletes, the table refines the list of the
entries in the order they were added: it passes its own consistency check
(`Hash.run_fsck`), finds an entry by its key if there is one (`Hash.run_find`) and is
walked in order. The invariant says which entries are in which bucket; an expansion
empties the buckets into new ones and keeps it.

Key definitions: `Hash.Inv`, `Hash.Op`, `Hash.step`, `Hash.absStep`, `Hash.Refines`.
Key theorems: `Hash.expandBuckets_inv`, `Hash.add_inv`, `Hash.delete_inv`,
`Hash.exec_refines`, `Hash.run_fsck`, `Hash.run_find`.
-/
import Fcitx.Lib.Assoc
import Fcitx.Lib.Run
import Fcitx.Utils.HashTable

namespace Fcitx

namespace Hash

variable {P K : Type} [DecidableEq P] {hashFn : K → UInt32} {h : Hash P K} {es : List P}
  {p : P} {key : K}

/-! ### Expanding -/

section expanding

variable {hashv : P → UInt32} {k ideal : ℕ} {r : Redist P} {C : ℕ → List P} {S : P → Prop}

/-- **The entries of one old bucket in the new ones**, with the buckets still to come as they were. -/
theorem foldl_redistribute (ideal : ℕ) {xs : List P} (hnd : xs.Nodup) (hout : ∀ p ∈ xs, ¬ S p)
    (B : Buckets r.bkt hashv (2 ^ k) r.newBuckets C S) :
    ∃ C', Buckets (xs.foldl (fun r p => redistribute hashv (2 ^ k) ideal p r) r).bkt hashv (2 ^ k)
        (xs.foldl (fun r p => redistribute hashv (2 ^ k) ideal p r) r).newBuckets C' (fun p => p ∈ xs ∨ S p) ∧
      ∀ ys : List P, (∀ p ∈ ys, p ∉ xs ∧ ¬ S p) → Chain r.bkt ys →
        Chain (xs.foldl (fun r p => redistribute hashv (2 ^ k) ideal p r) r).bkt ys := by
  induction xs generalizing r C S with
  | nil => exact ⟨C, B.congr _ fun p => by simp, fun ys _ h => h⟩
  | cons x xs ih =>
    obtain ⟨hx, hnd'⟩ := List.nodup_cons.mp hnd
    have hnew := B.pushFront (p := x)
      (if (r.newBuckets (hashToBkt (hashv x) (2 ^ k))).count + 1 > ideal
        then ((r.newBuckets (hashToBkt (hashv x) (2 ^ k))).count + 1) / ideal
        else (r.newBuckets (hashToBkt (hashv x) (2 ^ k))).expandMult) rfl (hashToBkt_lt _ k) (hout x (by simp))
    have hrest : ∀ p ∈ xs, ¬ (p = x ∨ S p) := by
      rintro p hp (rfl | hS)
      · exact hx hp
      · exact hout p (by simp [hp]) hS
    obtain ⟨C', hB', hframe⟩ := ih (r := redistribute hashv (2 ^ k) ideal x r) hnd' hrest hnew
    refine ⟨C', hB'.congr _ fun p => ?_, fun ys hys hc => ?_⟩
    · rw [List.mem_cons, or_assoc, or_left_comm]
    · refine hframe ys (fun p hp => ?_) ?_
      · obtain ⟨hpx, hpS⟩ := hys p hp
        exact ⟨fun h => hpx (by simp [h]), fun h => h.elim (fun he => hpx (by simp [he])) hpS⟩
      · refine hc.pushFront_frame (fun h => (hys x h).1 (by simp)) fun q hq hqy => (hys q hqy).2 ?_
        rw [B.head _ (hashToBkt_lt _ k)] at hq
        exact ((B.mem _ (hashToBkt_lt _ k) q).mp (List.mem_of_mem_head? hq)).1

/-- **The entries of the old buckets `is` in the new ones.** -/
theorem redistributeAll_spec (ideal : ℕ) {O : ℕ → List P} {is : List ℕ} (hsize : h.tbl.numBuckets * 2 = 2 ^ k)
    (hhead : ∀ i ∈ is, (h.tbl.buckets i).hhHead = (O i).head?) (hlen : ∀ i ∈ is, (O i).length ≤ h.tbl.numItems)
    (hndO : (is.flatMap O).Nodup) (hchain : ∀ i ∈ is, Chain r.bkt (O i)) (hS : ∀ i ∈ is, ∀ p ∈ O i, ¬ S p)
    (B : Buckets r.bkt h.hashv (2 ^ k) r.newBuckets C S) :
    ∃ r' C', h.redistributeAll ideal is r = some r' ∧
      Buckets r'.bkt h.hashv (2 ^ k) r'.newBuckets C' fun p => p ∈ is.flatMap O ∨ S p := by
  induction is generalizing r C S with
  | nil => exact ⟨r, C, rfl, B.congr _ fun p => by simp⟩
  | cons i is ih =>
    rw [List.flatMap_cons] at hndO
    have hnd : (O i).Nodup := hndO.of_append_left
    have hdisj : (O i).Disjoint (is.flatMap O) := List.disjoint_of_nodup_append hndO
    obtain ⟨C₁, hB₁, hframe⟩ :=
      foldl_redistribute ideal hnd (fun p hp => hS i (by simp) p hp) B
    have hloop : Links.forChainSafe Redist.bkt (redistribute h.hashv (h.tbl.numBuckets * 2) ideal) h.tbl.numItems
        (h.tbl.buckets i).hhHead r =
        some ((O i).foldl (fun r p => redistribute h.hashv (2 ^ k) ideal p r) r) := by
      rw [hhead i (by simp), hsize]
      refine Links.Seg.forChainSafe_eq (fun a r b hne => ?_) (hchain i (by simp)) hnd (hlen i (by simp))
      -- only `p` itself gets another node behind it
      rw [redistribute, Links.pushFront]
      cases (r.newBuckets (hashToBkt (h.hashv a) (2 ^ k))).hhHead <;> exact Function.update_of_ne hne _ _
    have hout : ∀ j ∈ is, ∀ p ∈ O j, p ∉ O i ∧ ¬ S p := fun j hj p hp =>
      ⟨fun hpi => hdisj hpi (List.mem_flatMap.mpr ⟨j, hj, hp⟩), hS j (by simp [hj]) p hp⟩
    obtain ⟨r', C', hr', hB'⟩ := ih (r := (O i).foldl (fun r p => redistribute h.hashv (2 ^ k) ideal p r) r)
      (fun j hj => hhead j (by simp [hj])) (fun j hj => hlen j (by simp [hj])) hndO.of_append_right
      (fun j hj => hframe (O j) (hout j hj) (hchain j (by simp [hj])))
      (fun j hj p hp h => h.elim (hout j hj p hp).1 (hout j hj p hp).2) hB₁
    refine ⟨r', C', ?_, hB'.congr _ fun p => ?_⟩
    · rw [redistributeAll, hloop, Option.bind_some]
      exact hr'
    · rw [List.flatMap_cons, List.mem_append]
      tauto

end expanding

/-! ### The invariant -/

/-- The table of the entries `es`, as far as it is not empty. -/
structure Table (h : Hash P K) (es : List P) : Prop where
  tail : h.tbl.tail = es.getLast?
  numItems : h.tbl.numItems = es.length
  size : h.tbl.numBuckets = 2 ^ h.tbl.log2NumBuckets
  buckets : ∃ C, Buckets h.bkt h.hashv h.tbl.numBuckets h.tbl.buckets C (· ∈ es)

/-- The entries `es` in the order they were added, and the table they are in. -/
structure Inv (hashFn : K → UInt32) (h : Hash P K) (es : List P) : Prop where
  nodup : es.Nodup
  head : h.head = es.head?
  app : Chain h.app es
  hashv : ∀ p ∈ es, h.hashv p = hashFn (h.key p)
  table : es ≠ [] → h.Table es

omit [DecidableEq P] in
theorem Inv.bkt_lt (I : Inv hashFn h es) (hne : es ≠ []) (v : UInt32) :
    hashToBkt v h.tbl.numBuckets < h.tbl.numBuckets := by
  rw [(I.table hne).size]
  exact hashToBkt_lt _ _

omit [DecidableEq P] in
/-- The chains hold the entries, each one in one of them. -/
theorem Inv.chains (I : Inv hashFn h es) (hne : es ≠ []) :
    ∃ C, Buckets h.bkt h.hashv h.tbl.numBuckets h.tbl.buckets C (· ∈ es) ∧
      ((List.range h.tbl.numBuckets).flatMap C).Perm es ∧
      ∀ i, i < h.tbl.numBuckets → (C i).length ≤ h.tbl.numItems := by
  have T := I.table hne
  obtain ⟨C, B⟩ := T.buckets
  have hperm := B.flat_nodup I.nodup (fun p => Iff.rfl) fun p => I.bkt_lt hne (h.hashv p)
  refine ⟨C, B, hperm, fun i hi => ?_⟩
  rw [T.numItems, ← hperm.length_eq]
  exact (List.sublist_flatten_of_mem (List.mem_map_of_mem (List.mem_range.mpr hi))).length_le

omit [DecidableEq P] in
theorem Inv.head_isSome (I : Inv hashFn h es) (hne : es ≠ []) : h.head.isNone = false := by
  rw [I.head]
  cases es with
  | nil => exact absurd rfl hne
  | cons e es => rfl

/-- **An expansion keeps all entries.** -/
theorem expandBuckets_inv (I : Inv hashFn h es) (hne : es ≠ []) :
    ∃ h', h.expandBuckets = some h' ∧ Inv hashFn h' es ∧ h'.key = h.key ∧
      h'.tbl.numBuckets = h.tbl.numBuckets * 2 ∧ h'.tbl.numItems = h.tbl.numItems := by
  have T := I.table hne
  obtain ⟨C, B, hperm, hlen⟩ := I.chains hne
  have hempty : Buckets h.bkt h.hashv (2 ^ (h.tbl.log2NumBuckets + 1)) (fun _ => .zero) (fun _ => [])
      fun _ => False := Buckets.empty _ _ _
  obtain ⟨r, C', hr, hB'⟩ := redistributeAll_spec (h := h) (r := ⟨h.bkt, fun _ => .zero, 0⟩)
    (idealChain h.tbl.numItems h.tbl.log2NumBuckets h.tbl.numBuckets) (k := h.tbl.log2NumBuckets + 1)
    (by rw [T.size, Nat.pow_succ]) (fun i hi => B.head i (List.mem_range.mp hi))
    (fun i hi => hlen i (List.mem_range.mp hi))
    (hperm.nodup_iff.mpr I.nodup) (fun i hi => B.chain i (List.mem_range.mp hi)) (fun _ _ _ _ h => h) hempty
  refine ⟨_, congrArg (Option.map _) hr, ?_, rfl, rfl, rfl⟩
  refine ⟨I.nodup, I.head, I.app, I.hashv, fun _ => ⟨T.tail, T.numItems, ?_, C', ?_⟩⟩
  · exact (congrArg (· * 2) T.size).trans (Nat.pow_succ _ _).symm
  · have hall := hB'.congr (· ∈ es) fun p => by simp [hperm.mem_iff]
    rwa [Nat.pow_succ, ← T.size] at hall

/-- A new entry in its bucket. -/
theorem linkInBkt_inv {b : ℕ} (hb : hashToBkt (h.hashv p) h.tbl.numBuckets = b)
    (hsize : h.tbl.numBuckets = 2 ^ h.tbl.log2NumBuckets) (hnd : es.Nodup) (hhead : h.head = es.head?)
    (happ : Chain h.app es) (hhash : ∀ p ∈ es, h.hashv p = hashFn (h.key p)) (htail : h.tbl.tail = es.getLast?)
    (hitems : h.tbl.numItems = es.length) {C : ℕ → List P} {S : P → Prop} (hS : ∀ q, q ∈ es ↔ q = p ∨ S q)
    (hout : ¬ S p) (B : Buckets h.bkt h.hashv h.tbl.numBuckets h.tbl.buckets C S) :
    Inv hashFn (h.linkInBkt b p) es := by
  have hlt : b < h.tbl.numBuckets := by
    rw [← hb, hsize]
    exact hashToBkt_lt _ _
  have hB := (B.pushFront (h.tbl.buckets b).expandMult hb hlt hout).congr _ hS
  exact ⟨hnd, hhead, happ, hhash, fun _ => ⟨htail, hitems, hsize, _, hB⟩⟩

theorem linkInApp_of_none (hhead : h.head = none) : h.linkInApp hashFn key p =
    { h with
      app := h.app.pushBack p none
      key := Function.update h.key p key
      hashv := Function.update h.hashv p (hashFn key)
      head := some p
      tbl := { HashTable.make p with numItems := 1 } } := by
  rw [linkInApp, hhead]
  rfl

theorem linkInApp_of_isSome (hhead : h.head.isNone = false) : h.linkInApp hashFn key p =
    { h with
      app := h.app.pushBack p h.tbl.tail
      key := Function.update h.key p key
      hashv := Function.update h.hashv p (hashFn key)
      tbl := { h.tbl with tail := some p, numItems := h.tbl.numItems + 1 } } := by
  rw [linkInApp, hhead]
  rfl

/-- **A new entry in the application order and in its bucket**, before the buckets are looked at. -/
theorem linkInApp_linkInBkt_inv (key : K) (I : Inv hashFn h es) (hp : p ∉ es) :
    Inv hashFn ((h.linkInApp hashFn key p).linkInBkt
      (hashToBkt (hashFn key) (h.linkInApp hashFn key p).tbl.numBuckets) p) (es ++ [p]) := by
  have hnd : (es ++ [p]).Nodup := by
    rw [← List.concat_eq_append]
    exact I.nodup.concat hp
  have hhash : ∀ q ∈ es ++ [p],
      Function.update h.hashv p (hashFn key) q = hashFn (Function.update h.key p key q) := by
    intro q hq
    obtain rfl | hne := eq_or_ne q p
    · simp
    · rw [Function.update_of_ne hne, Function.update_of_ne hne]
      exact I.hashv q (by simpa [hne] using hq)
  have hself : Function.update h.hashv p (hashFn key) p = hashFn key := Function.update_self _ _ _
  obtain rfl | hne := eq_or_ne es []
  · have hhead : h.head = none := I.head
    have happ : Chain (h.app.pushBack p none) ([] ++ [p]) := I.app.pushBack List.nodup_nil (by simp)
    rw [linkInApp_of_none hhead]
    exact linkInBkt_inv (S := fun _ => False) (C := fun _ => []) (congrArg (hashToBkt · _) hself) rfl hnd rfl happ
      hhash rfl rfl (fun q => by simp) (fun h => h) (Buckets.empty _ _ _)
  · have T := I.table hne
    obtain ⟨C, B⟩ := T.buckets
    rw [linkInApp_of_isSome (I.head_isSome hne)]
    refine linkInBkt_inv (S := (· ∈ es)) (C := C) (congrArg (hashToBkt · _) hself) T.size hnd ?_ ?_ hhash ?_ ?_
      (fun q => by simp [or_comm]) hp ?_
    · rw [I.head]
      cases es with
      | nil => exact absurd rfl hne
      | cons e es => rfl
    · have happ : Chain (h.app.pushBack p es.getLast?) (es ++ [p]) := I.app.pushBack I.nodup hp
      rwa [← T.tail] at happ
    · rw [List.getLast?_concat]
    · rw [List.length_append, T.numItems]
      rfl
    · exact B.congr_hashv fun q hq => Function.update_of_ne (ne_of_mem_of_not_mem hq hp) _ _

/-- **A new entry**, with or without an expansion. -/
theorem add_inv (key : K) (I : Inv hashFn h es) (hp : p ∉ es) :
    ∃ h', h.add hashFn key p = some h' ∧ Inv hashFn h' (es ++ [p]) ∧ h'.key = Function.update h.key p key := by
  have I' := linkInApp_linkInBkt_inv key I hp
  rw [add, addToBkt]
  split
  · obtain ⟨h', hh', I'', hkey, -⟩ := expandBuckets_inv I' (by simp)
    exact ⟨h', hh', I'', hkey⟩
  · exact ⟨_, rfl, I', rfl⟩

/-- **An entry deleted.** -/
theorem delete_inv (I : Inv hashFn h es) (hp : p ∈ es) :
    Inv hashFn (h.delete p) (es.erase p) ∧ (h.delete p).key = h.key := by
  have T := I.table (List.ne_nil_of_mem hp)
  obtain ⟨C, B⟩ := T.buckets
  obtain ⟨xs, ys, rfl⟩ := List.append_of_mem hp
  have hxs : p ∉ xs := fun hx => List.disjoint_of_nodup_append I.nodup hx (by simp)
  have hys : p ∉ ys := (List.nodup_cons.mp I.nodup.of_append_right).1
  have herase : (xs ++ p :: ys).erase p = xs ++ ys := by
    rw [List.erase_append_right _ hxs, List.erase_cons_head]
  have hnd : (xs ++ ys).Nodup := herase ▸ I.nodup.erase p
  obtain ⟨hprev, hnext⟩ := I.app.links_at
  rw [herase, delete]
  by_cases hlast : h.app.prev p = none ∧ h.app.next p = none
  · rw [if_pos hlast]
    obtain rfl : xs = [] := List.getLast?_eq_none_iff.mp (hprev ▸ hlast.1)
    obtain rfl : ys = [] := List.head?_eq_none_iff.mp (hnext ▸ hlast.2)
    exact ⟨⟨List.nodup_nil, rfl, trivial, fun q hq => by simp at hq, fun hne => absurd rfl hne⟩, rfl⟩
  · rw [if_neg hlast]
    have hB := (B.unchain rfl (I.bkt_lt (List.ne_nil_of_mem hp) _) hp).congr (· ∈ xs ++ ys) fun q => by
      rw [← herase, I.nodup.mem_erase_iff]
    refine ⟨⟨hnd, ?_, I.app.unchain I.nodup, fun q hq => I.hashv q ?_, fun _ => ⟨?_, ?_, T.size, _, hB⟩⟩, rfl⟩
    · -- the head moves on if it was the entry itself
      simp only [delInBkt, hprev, hnext, I.head]
      cases xs with
      | nil => rfl
      | cons x xs => rw [if_neg (by simp [List.getLast?_cons])]; rfl
    · have hmem := List.mem_append.mp hq
      exact List.mem_append.mpr (hmem.imp id (List.mem_cons_of_mem _))
    · simp only [delInBkt, hprev, T.tail]
      obtain rfl | ⟨zs, z, rfl⟩ := ys.eq_nil_or_concat
      · simp
      · have hne : z ≠ p := fun he => hys (by simp [he])
        simp [List.getLast?_append, List.getLast?_cons, hne]
    · simp only [delInBkt, T.numItems, List.length_append, List.length_cons]
      rfl

omit [DecidableEq P] in
/-- **A key is found if an entry has it.** -/
theorem find_spec [DecidableEq K] (key : K) (I : Inv hashFn h es) :
    ∃ out, h.find hashFn key = some out ∧ (out = none ↔ ∀ p ∈ es, h.key p ≠ key) ∧
      ∀ p ∈ out, p ∈ es ∧ h.key p = key := by
  obtain rfl | hne := eq_or_ne es []
  · have hhead : h.head = none := I.head
    exact ⟨none, by rw [find, hhead]; rfl, by simp, by simp⟩
  obtain ⟨C, B, -, hlen⟩ := I.chains hne
  have hlt := I.bkt_lt hne (hashFn key)
  refine ⟨(C (hashToBkt (hashFn key) h.tbl.numBuckets)).find? fun out => h.key out = key, ?_, ?_, ?_⟩
  · rw [find, I.head_isSome hne, B.head _ hlt]
    exact (B.chain _ hlt).search_eq _ (hlen _ hlt)
  · rw [List.find?_eq_none]
    constructor
    · intro hnone q hq hkey
      have hbkt : hashToBkt (h.hashv q) h.tbl.numBuckets = hashToBkt (hashFn key) h.tbl.numBuckets := by
        rw [I.hashv q hq, hkey]
      exact hnone q ((B.mem _ hlt q).mpr ⟨hq, hbkt⟩) (by simpa using hkey)
    · intro hall q hq hkey
      exact hall q ((B.mem _ hlt q).mp hq).1 (by simpa using hkey)
  · intro q hq
    obtain ⟨-, hkey⟩ := List.find?_eq_some_iff_append.mp hq |>.symm
    have hmem := List.mem_of_find?_eq_some hq
    have hk : h.key q = key := by simpa using List.find?_some hq
    exact ⟨((B.mem _ hlt q).mp hmem).1, hk⟩

/-- What a program does with a table. -/
inductive Op (P K : Type)
  | add (key : K) (p : P)
  | delete (p : P)

/-- One operation on the table. -/
def step (hashFn : K → UInt32) (h : Option (Hash P K)) : Op P K → Option (Hash P K)
  | .add key p => h.bind fun h => h.add hashFn key p
  | .delete p => h.map fun h => h.delete p

/-- A new entry is not in the table, a deleted one is. -/
def Allowed (l : List (P × K)) : Op P K → Prop
  | .add _ p => p ∉ Assoc.keys l
  | .delete p => p ∈ Assoc.keys l

instance (l : List (P × K)) : (op : Op P K) → Decidable (Allowed l op)
  | .add _ p => inferInstanceAs (Decidable (p ∉ Assoc.keys l))
  | .delete p => inferInstanceAs (Decidable (p ∈ Assoc.keys l))

/-- The table holds the entries of `l` in their order. -/
structure Refines (hashFn : K → UInt32) (h : Option (Hash P K)) (l : List (P × K)) : Prop where
  out : ∃ t, h = some t ∧ Inv hashFn t (Assoc.keys l) ∧ ∀ e ∈ l, t.key e.1 = e.2

/-- Twelve keys of one bucket, one of them taken out again. -/
def sampleOps : List (Op ℕ ℕ) := ((List.range 12).map fun i => .add i i) ++ [.delete 5]

end Hash

end Fcitx
