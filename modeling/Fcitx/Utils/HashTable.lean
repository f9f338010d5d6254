/-
# The hash table under the dictionaries

`fcitx-utils/uthash.h`: an entry has two pairs of links, one in the order of the
program's insertions and one in the chain of its bucket. A bucket is the hash value
cut to the number of buckets; a chain that gets too long doubles the buckets and
moves every entry. `none` is a walk of more entries than the table counts, which
the invariant of `Fcitx.Utils.HashTableRun` rules out.

Key definitions: `Hash`, `Hash.find`, `Hash.add`, `Hash.delete`, `Hash.expandBuckets`,
`Hash.fsck`, `Buckets`.
Key theorems: `hashToBkt_lt`, `Buckets.pushFront`, `Buckets.unchain`, `Buckets.flat_nodup`.
-/
import Fcitx.Lib.Chain
import Mathlib.Algebra.Ring.Nat

namespace Fcitx

/-- `UT_hash_bucket` -/
structure HashBucket (P : Type) where
  hhHead : Option P
  count : ℕ
  expandMult : ℕ

/-- `UT_hash_table` -/
structure HashTable (P : Type) where
  buckets : ℕ → HashBucket P
  numBuckets : ℕ
  log2NumBuckets : ℕ
  numItems : ℕ
  tail : Option P
  idealChainMaxlen : ℕ
  nonidealItems : ℕ
  ineffExpands : ℕ
  noexpand : Bool

/-- A variable `head` of the program with what is behind it: the `UT_hash_handle` of each
entry, its links in application order and in its bucket, its key and its hash value. The table
is there while `head` is not NULL. -/
structure Hash (P K : Type) where
  app : Links P
  bkt : Links P
  key : P → K
  hashv : P → UInt32
  head : Option P
  tbl : HashTable P

/-- `HASH_TO_BKT` -/
def hashToBkt (hashv : UInt32) (numBkts : ℕ) : ℕ := hashv.toNat &&& (numBkts - 1)

/-- A `memset` bucket. -/
def HashBucket.zero {P : Type} : HashBucket P := ⟨none, 0, 0⟩

/-- `HASH_MAKE_TABLE` -/
def HashTable.make {P : Type} (tail : P) : HashTable P where
  buckets := fun _ => .zero
  numBuckets := 32
  log2NumBuckets := 5
  numItems := 0
  tail := some tail
  idealChainMaxlen := 0
  nonidealItems := 0
  ineffExpands := 0
  noexpand := false

/-- The variables of the loop of `HASH_EXPAND_BUCKETS`. -/
structure Redist (P : Type) where
  bkt : Links P
  newBuckets : ℕ → HashBucket P
  nonidealItems : ℕ

namespace Hash

variable {P K : Type} [DecidableEq P] [DecidableEq K] (hashFn : K → UInt32)

/-- The body of the loop of `HASH_EXPAND_BUCKETS`: an entry to its new bucket. -/
def redistribute (hashv : P → UInt32) (numBuckets ideal : ℕ) (thh : P) (r : Redist P) : Redist P :=
  let b := hashToBkt (hashv thh) numBuckets
  let newbkt := r.newBuckets b
  let count := newbkt.count + 1
  { bkt := r.bkt.pushFront thh newbkt.hhHead
    newBuckets := Function.update r.newBuckets b
      ⟨some thh, count, if count > ideal then count / ideal else newbkt.expandMult⟩
    nonidealItems := if count > ideal then r.nonidealItems + 1 else r.nonidealItems }

/-- The length of a chain were the entries spread evenly, rounded up. -/
def idealChain (numItems log2NumBuckets numBuckets : ℕ) : ℕ :=
  (numItems >>> (log2NumBuckets + 1)) + if numItems &&& (numBuckets * 2 - 1) ≠ 0 then 1 else 0

/-- The entries of one bucket after another to the new buckets. -/
def redistributeAll (h : Hash P K) (ideal : ℕ) : List ℕ → Redist P → Option (Redist P)
  | [], r => some r
  | i :: is, r =>
    (Links.forChainSafe Redist.bkt (redistribute h.hashv (h.tbl.numBuckets * 2) ideal) h.tbl.numItems
      (h.tbl.buckets i).hhHead r).bind (redistributeAll h ideal is)

/-- The end of `HASH_EXPAND_BUCKETS`: the new buckets become those of the table. -/
def afterExpand (h : Hash P K) (ideal : ℕ) (r : Redist P) : Hash P K :=
  let tbl := h.tbl
  let ineff := if r.nonidealItems > tbl.numItems >>> 1 then tbl.ineffExpands + 1 else 0
  { h with
    bkt := r.bkt
    tbl := { tbl with
      buckets := r.newBuckets
      numBuckets := tbl.numBuckets * 2
      log2NumBuckets := tbl.log2NumBuckets + 1
      idealChainMaxlen := ideal
      nonidealItems := r.nonidealItems
      ineffExpands := ineff
      noexpand := if ineff > 1 then true else tbl.noexpand } }

/-- `HASH_EXPAND_BUCKETS` -/
def expandBuckets (h : Hash P K) : Option (Hash P K) :=
  let ideal := idealChain h.tbl.numItems h.tbl.log2NumBuckets h.tbl.numBuckets
  (redistributeAll h ideal (List.range h.tbl.numBuckets) ⟨h.bkt, fun _ => .zero, 0⟩).map (h.afterExpand ideal)

/-- The new entry in its bucket. -/
def linkInBkt (h : Hash P K) (b : ℕ) (add : P) : Hash P K :=
  let bucket := h.tbl.buckets b
  { h with
    bkt := h.bkt.pushFront add bucket.hhHead
    tbl := { h.tbl with
      buckets := Function.update h.tbl.buckets b ⟨some add, bucket.count + 1, bucket.expandMult⟩ } }

/-- `HASH_ADD_TO_BKT` -/
def addToBkt (h : Hash P K) (b : ℕ) (add : P) : Option (Hash P K) :=
  let h := h.linkInBkt b add
  let bucket := h.tbl.buckets b
  if bucket.count ≥ (bucket.expandMult + 1) * 10 ∧ h.tbl.noexpand = false then h.expandBuckets
  else some h

/-- `HASH_ADD_KEYPTR`, up to the bucket: the new entry at the end of the application order. -/
def linkInApp (h : Hash P K) (key : K) (add : P) : Hash P K :=
  let tbl := if h.head.isNone then HashTable.make add else { h.tbl with tail := some add }
  { h with
    app := h.app.pushBack add (if h.head.isNone then none else h.tbl.tail)
    key := Function.update h.key add key
    hashv := Function.update h.hashv add (hashFn key)
    head := if h.head.isNone then some add else h.head
    tbl := { tbl with numItems := tbl.numItems + 1 } }

/-- `HASH_ADD_KEYPTR` -/
def add (h : Hash P K) (key : K) (add : P) : Option (Hash P K) :=
  let h := h.linkInApp hashFn key add
  h.addToBkt (hashToBkt (hashFn key) h.tbl.numBuckets) add

/-- `HASH_FIND`: the entry found, if there is one. -/
def find (h : Hash P K) (key : K) : Option (Option P) :=
  if h.head.isNone then some none
  else
    h.bkt.search (fun out => h.key out = key) h.tbl.numItems
      (h.tbl.buckets (hashToBkt (hashFn key) h.tbl.numBuckets)).hhHead

/-- `HASH_DEL_IN_BKT` -/
def delInBkt (h : Hash P K) (b : ℕ) (del : P) : Hash P K :=
  let bucket := h.tbl.buckets b
  { h with
    bkt := h.bkt.unchain del
    tbl := { h.tbl with
      buckets := Function.update h.tbl.buckets b
        { bucket with
          count := bucket.count - 1
          hhHead := if bucket.hhHead = some del then h.bkt.next del else bucket.hhHead } } }

/-- `HASH_DELETE` -/
def delete (h : Hash P K) (del : P) : Hash P K :=
  if h.app.prev del = none ∧ h.app.next del = none then { h with head := none }
  else
    let tail := if h.tbl.tail = some del then h.app.prev del else h.tbl.tail
    let head := if h.app.prev del = none then h.app.next del else h.head
    let h := { h with head := head, app := h.app.unchain del, tbl := { h.tbl with tail := tail } }
    let h := h.delInBkt (hashToBkt (h.hashv del) h.tbl.numBuckets) del
    { h with tbl := { h.tbl with numItems := h.tbl.numItems - 1 } }

/-- The entries in the order of `HASH_ITER`. -/
def iter (h : Hash P K) : ℕ → Option P → List P
  | 0, _ => []
  | _ + 1, none => []
  | n + 1, some p => p :: h.iter n (h.app.next p)

end Hash

/-! ### Buckets -/

theorem hashToBkt_eq_mod (hashv : UInt32) (k : ℕ) : hashToBkt hashv (2 ^ k) = hashv.toNat % 2 ^ k :=
  Nat.and_two_pow_sub_one_eq_mod _ _

theorem hashToBkt_lt (hashv : UInt32) (k : ℕ) : hashToBkt hashv (2 ^ k) < 2 ^ k := by
  rw [hashToBkt_eq_mod]
  exact Nat.mod_lt _ (Nat.two_pow_pos k)

section buckets

variable {P : Type} {bkt : Links P} {hashv : P → UInt32} {n : ℕ} {buckets : ℕ → HashBucket P}
  {C : ℕ → List P} {S : P → Prop} {p : P}

/-- Bucket `i` is the chain `C i`, and its entries are those of `S` that belong there. -/
structure Buckets (bkt : Links P) (hashv : P → UInt32) (n : ℕ) (buckets : ℕ → HashBucket P) (C : ℕ → List P)
    (S : P → Prop) : Prop where
  chain : ∀ i, i < n → Chain bkt (C i)
  head : ∀ i, i < n → (buckets i).hhHead = (C i).head?
  count : ∀ i, i < n → (buckets i).count = (C i).length
  nodup : ∀ i, i < n → (C i).Nodup
  mem : ∀ i, i < n → ∀ p, p ∈ C i ↔ S p ∧ hashToBkt (hashv p) n = i

theorem Buckets.empty (bkt : Links P) (hashv : P → UInt32) (n : ℕ) :
    Buckets bkt hashv n (fun _ => .zero) (fun _ => []) fun _ => False where
  chain := fun _ _ => trivial
  head := fun _ _ => rfl
  count := fun _ _ => rfl
  nodup := fun _ _ => List.nodup_nil
  mem := fun _ _ _ => by simp

namespace Buckets

variable (B : Buckets bkt hashv n buckets C S)

include B

theorem congr (S' : P → Prop) (h : ∀ p, S' p ↔ S p) : Buckets bkt hashv n buckets C S' :=
  ⟨B.chain, B.head, B.count, B.nodup, fun i hi p => by rw [h, B.mem i hi]⟩

/-- The hash values of other entries do not matter. -/
theorem congr_hashv {hashv' : P → UInt32} (h : ∀ p, S p → hashv' p = hashv p) :
    Buckets bkt hashv' n buckets C S := by
  refine ⟨B.chain, B.head, B.count, B.nodup, fun i hi p => ?_⟩
  rw [B.mem i hi]
  exact and_congr_right fun hp => by rw [h p hp]

theorem not_mem (hp : ¬ S p) {i : ℕ} (hi : i < n) : p ∉ C i := fun h => hp ((B.mem i hi p).mp h).1

theorem disjoint {i j : ℕ} (hi : i < n) (hj : j < n) (hne : i ≠ j) : (C i).Disjoint (C j) := fun p hpi hpj =>
  hne (((B.mem i hi p).mp hpi).2.symm.trans ((B.mem j hj p).mp hpj).2)

/-- **The chains of all buckets, one after another, are all the entries.** -/
theorem flat_nodup {es : List P} (hnd : es.Nodup) (hS : ∀ p, S p ↔ p ∈ es)
    (hlt : ∀ p, hashToBkt (hashv p) n < n) : ((List.range n).flatMap C).Perm es := by
  have hflat : ((List.range n).flatMap C).Nodup := by
    rw [List.nodup_flatMap]
    refine ⟨fun i hi => B.nodup i (List.mem_range.mp hi), ?_⟩
    refine List.Pairwise.imp_of_mem (fun {i j} hi hj hne => ?_) List.nodup_range
    exact B.disjoint (List.mem_range.mp hi) (List.mem_range.mp hj) hne
  refine (List.perm_ext_iff_of_nodup hflat hnd).mpr fun p => ?_
  rw [List.mem_flatMap]
  constructor
  · rintro ⟨i, hi, hp⟩
    exact (hS p).mp ((B.mem i (List.mem_range.mp hi) p).mp hp).1
  · intro hp
    have hi := hlt p
    exact ⟨_, List.mem_range.mpr hi, (B.mem _ hi p).mpr ⟨(hS p).mpr hp, rfl⟩⟩

variable [DecidableEq P]

/-- **An entry put in its bucket.** -/
theorem pushFront {b : ℕ} (mult : ℕ) (hb : hashToBkt (hashv p) n = b) (hlt : b < n) (hp : ¬ S p) :
    Buckets (bkt.pushFront p (buckets b).hhHead) hashv n
      (Function.update buckets b ⟨some p, (buckets b).count + 1, mult⟩) (Function.update C b (p :: C b))
      fun q => q = p ∨ S q := by
  have hout := fun i hi => B.not_mem (p := p) hp (i := i) hi
  have hchain : ∀ i, i < n → i ≠ b → Chain (bkt.pushFront p (buckets b).hhHead) (C i) := by
    intro i hi hne
    refine (B.chain i hi).pushFront_frame (hout i hi) fun q hq hqi => ?_
    rw [B.head b hlt] at hq
    exact B.disjoint hlt hi hne.symm (List.mem_of_mem_head? hq) hqi
  have hself : Chain (bkt.pushFront p (buckets b).hhHead) (p :: C b) := by
    rw [B.head b hlt]
    exact (B.chain b hlt).pushFront (B.nodup b hlt) (hout b hlt)
  refine ⟨fun i hi => ?_, fun i hi => ?_, fun i hi => ?_, fun i hi => ?_, fun i hi q => ?_⟩ <;>
    obtain rfl | hne := eq_or_ne i b
  · simpa using hself
  · simpa [hne] using hchain i hi hne
  · simp
  · simpa [hne] using B.head i hi
  · simp [B.count i hi]
  · simpa [hne] using B.count i hi
  · simpa using ⟨hout i hi, B.nodup i hi⟩
  · simpa [hne] using B.nodup i hi
  · rw [Function.update_self, List.mem_cons, B.mem i hi]
    constructor
    · rintro (rfl | ⟨hq, hqb⟩)
      · exact ⟨Or.inl rfl, hb⟩
      · exact ⟨Or.inr hq, hqb⟩
    · rintro ⟨rfl | hq, hqb⟩
      · exact Or.inl rfl
      · exact Or.inr ⟨hq, hqb⟩
  · rw [Function.update_of_ne hne, B.mem i hi]
    constructor
    · exact fun ⟨hq, hqb⟩ => ⟨Or.inr hq, hqb⟩
    · rintro ⟨rfl | hq, hqb⟩
      · exact absurd (hqb.symm.trans hb) hne
      · exact ⟨hq, hqb⟩

/-- **An entry taken out of its bucket.** -/
theorem unchain {b : ℕ} (hb : hashToBkt (hashv p) n = b) (hlt : b < n) (hp : S p) :
    Buckets (bkt.unchain p) hashv n
      (Function.update buckets b
        { buckets b with
          count := (buckets b).count - 1
          hhHead := if (buckets b).hhHead = some p then bkt.next p else (buckets b).hhHead })
      (Function.update C b ((C b).erase p)) fun q => q ≠ p ∧ S q := by
  have hmem : p ∈ C b := (B.mem b hlt p).mpr ⟨hp, hb⟩
  obtain ⟨xs, ys, hsplit⟩ := List.append_of_mem hmem
  have hnd : (xs ++ p :: ys).Nodup := hsplit ▸ B.nodup b hlt
  have hc : Chain bkt (xs ++ p :: ys) := hsplit ▸ B.chain b hlt
  have hxs : p ∉ xs := fun h => List.disjoint_of_nodup_append hnd h (by simp)
  have herase : (C b).erase p = xs ++ ys := by
    rw [hsplit, List.erase_append_right _ hxs, List.erase_cons_head]
  obtain ⟨hprev, hnext⟩ := hc.links_at
  have hframe : ∀ i, i < n → i ≠ b → Chain (bkt.unchain p) (C i) := by
    intro i hi hne
    have hdisj := B.disjoint hlt hi hne.symm
    refine (B.chain i hi).unchain_frame (fun q hq hqi => ?_) fun q hq hqi => ?_
    · rw [hprev] at hq
      exact hdisj (by rw [hsplit]; exact List.mem_append_left _ (List.mem_of_mem_getLast? hq)) hqi
    · rw [hnext] at hq
      exact hdisj (by rw [hsplit]; simp [List.mem_of_mem_head? hq]) hqi
  refine ⟨fun i hi => ?_, fun i hi => ?_, fun i hi => ?_, fun i hi => ?_, fun i hi q => ?_⟩ <;>
    obtain rfl | hne := eq_or_ne i b
  · rw [Function.update_self, herase]
    exact hc.unchain hnd
  · simpa [hne] using hframe i hi hne
  · rw [Function.update_self, Function.update_self, herase]
    simp only [B.head i hi, hsplit]
    cases xs with
    | nil => simpa using hnext
    | cons x xs =>
      have hne : x ≠ p := fun he => hxs (by simp [he])
      simp [hne]
  · simpa [hne] using B.head i hi
  · simp [B.count i hi, List.length_erase_of_mem hmem]
  · simpa [hne] using B.count i hi
  · simpa using (B.nodup i hi).erase p
  · simpa [hne] using B.nodup i hi
  · rw [Function.update_self, (B.nodup i hi).mem_erase_iff, B.mem i hi, and_assoc]
  · rw [Function.update_of_ne hne, B.mem i hi]
    constructor
    · rintro ⟨hq, hqb⟩
      exact ⟨⟨fun he => hne (hqb.symm.trans (he ▸ hb)), hq⟩, hqb⟩
    · exact fun ⟨⟨_, hq⟩, hqb⟩ => ⟨hq, hqb⟩

end Buckets

end buckets

end Fcitx
