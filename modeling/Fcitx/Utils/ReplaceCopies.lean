/-
# The copies of a replacement

`fcitx_utils_string_replace` allocates the new string at the first batch of
matches, makes it larger at later batches if `after` is the longer string, and
fills it by `memcpy`. All copies write inside the new string and read inside the
old one if the gaps are right. Lengths and places are numbers without a bound: the
function needs them to be small enough for `int`.

Key definitions: `Copy`, `replaceCopies`, `Copy.Inside`, `ReplaceLaw`.
Key theorems: `replaceCopies_inside`, `replaceLaw_iff`.
-/
import Fcitx.Utils.StringReplace
import Mathlib.Tactic.Ring

namespace Fcitx

/-- What is copied. -/
inductive CopySource where
  /-- From this place of the old string on. -/
  | old (pos : ℕ)
  | after
  | terminator
  deriving Repr, DecidableEq

/-- A copy into the new string. -/
structure Copy where
  source : CopySource
  len : ℕ
  /-- `newStringPos` -/
  newPos : ℕ
  /-- `lastLen`, the size of the new string at that time. -/
  size : ℤ
  deriving Repr, DecidableEq

/-- `_COPY_AND_MOVE_ON`: the copy, and `newStringPos` afterwards. -/
def copyAndMoveOn (size : ℤ) (newPos : ℕ) (source : CopySource) (len : ℕ) : List Copy × ℕ :=
  if len = 0 then ([], newPos) else ([⟨source, len, newPos, size⟩], newPos + len)

/-- The copies of a batch after its first match: `last` is the match before. -/
def gapCopies (beforeLen afterLen : ℕ) (size : ℤ) : ℕ → ℕ → List ℕ → List Copy × ℕ
  | newPos, _, [] => ([], newPos)
  | newPos, last, i :: indices =>
    let gap := copyAndMoveOn size newPos (.old (i + beforeLen)) (i - (last + beforeLen))
    let new := copyAndMoveOn size gap.2 .after afterLen
    let rest := gapCopies beforeLen afterLen size new.2 i indices
    (gap.1 ++ new.1 ++ rest.1, rest.2)

/-- The copies of a batch. -/
def batchCopies (beforeLen afterLen : ℕ) (size : ℤ) (newPos oldPos : ℕ) : List ℕ → List Copy × ℕ
  | [] => ([], newPos)
  | i :: indices =>
    let gap := copyAndMoveOn size newPos (.old oldPos) (i - oldPos)
    let new := copyAndMoveOn size gap.2 .after afterLen
    let rest := gapCopies beforeLen afterLen size new.2 i indices
    (gap.1 ++ new.1 ++ rest.1, rest.2)

/-- `lastLen` after the allocation for a batch (`none` while the new string is NULL). -/
def batchSize (len beforeLen afterLen nIndices : ℕ) : Option ℤ → ℤ
  | none => len + nIndices * ((afterLen : ℤ) - beforeLen) + 1
  | some lastLen =>
    let newLen := lastLen + nIndices * ((afterLen : ℤ) - beforeLen)
    if newLen > lastLen then newLen else lastLen

/-- The outer loop, given more rounds than it may take: its copies, and `newStringPos`, `oldStringPos`
and `lastLen` at its end. -/
def copyLoop (s before : Bytes) (afterLen : ℕ) :
    ℕ → ℕ → ℕ → ℕ → Option ℤ → List Copy × ℕ × ℕ × Option ℤ
  | 0, _, newPos, oldPos, lastLen => ([], newPos, oldPos, lastLen)
  | rounds + 1, pivot, newPos, oldPos, lastLen =>
    let (indices, pivot) := findIndices s before maxReplaceIndicesNum pivot
    let size := batchSize s.length before.length afterLen indices.length lastLen
    let (copies, newPos) := batchCopies before.length afterLen size newPos oldPos indices
    let (oldPos, lastLen) :=
      match indices with
      | [] => (oldPos, lastLen)
      | _ :: _ => (indices.getLast?.getD 0 + before.length, some size)
    match pivot with
    | none => (copies, newPos, oldPos, lastLen)
    | some pivot =>
      let rest := copyLoop s before afterLen rounds pivot newPos oldPos lastLen
      (copies ++ rest.1, rest.2)

/-- The copies of `fcitx_utils_string_replace`, and the terminator at the end. -/
def replaceCopies (s before : Bytes) (afterLen : ℕ) : List Copy :=
  match copyLoop s before afterLen (s.length + 1) 0 0 0 none with
  | (_, _, _, none) => []
  | (copies, newPos, oldPos, some size) =>
    let last := copyAndMoveOn size newPos (.old oldPos) (s.length - oldPos)
    copies ++ last.1 ++ [⟨.terminator, 1, last.2, size⟩]

/-- A copy that reads the old string up to its terminator at most, and writes inside the new string. -/
def Copy.Inside (s : Bytes) (c : Copy) : Prop :=
  (match c.source with
    | .old pos => pos + c.len ≤ s.length + 1
    | _ => True) ∧
    (c.newPos + c.len : ℤ) ≤ c.size

instance Copy.Inside.decidable (s : Bytes) : (c : Copy) → Decidable (c.Inside s)
  | ⟨.old pos, len, newPos, size⟩ =>
    inferInstanceAs (Decidable (pos + len ≤ s.length + 1 ∧ (newPos + len : ℤ) ≤ size))
  | ⟨.after, len, newPos, size⟩ => inferInstanceAs (Decidable (True ∧ (newPos + len : ℤ) ≤ size))
  | ⟨.terminator, len, newPos, size⟩ => inferInstanceAs (Decidable (True ∧ (newPos + len : ℤ) ≤ size))

/-! ### The bytes that the copies write -/

/-- The bytes of a copy. -/
def Copy.bytes (s after : Bytes) (beyond : ℕ → UInt8) (c : Copy) : Bytes :=
  match c.source with
  | .old pos => readFrom s beyond pos c.len
  | .after => after
  | .terminator => [0]

section bytes

variable (s after : Bytes) (beyond : ℕ → UInt8) (size : ℤ) (newPos : ℕ)

theorem bytes_copyOld (pos len : ℕ) :
    (copyAndMoveOn size newPos (.old pos) len).1.flatMap (Copy.bytes s after beyond) = readFrom s beyond pos len := by
  unfold copyAndMoveOn
  split
  case isTrue hzero => rw [hzero]; rfl
  case isFalse => exact List.append_nil _

theorem bytes_copyAfter :
    (copyAndMoveOn size newPos .after after.length).1.flatMap (Copy.bytes s after beyond) = after := by
  unfold copyAndMoveOn
  split
  case isTrue hzero => exact (List.eq_nil_of_length_eq_zero hzero).symm
  case isFalse => exact List.append_nil _

theorem bytes_gapCopies (b last : ℕ) (indices : List ℕ) :
    (gapCopies b after.length size newPos last indices).1.flatMap (Copy.bytes s after beyond) =
      copyGaps s after b beyond last indices := by
  induction indices generalizing newPos last with
  | nil => rfl
  | cons i indices ih =>
    simp only [gapCopies, copyGaps, List.flatMap_append, bytes_copyOld, bytes_copyAfter, ih]

/-- **The copies write the new string**: both loops go the same way. -/
theorem bytes_copyLoop (before : Bytes) (rounds pivot oldPos : ℕ) (newString : Option Bytes) (lastLen : Option ℤ)
    (hsome : newString.isSome = lastLen.isSome) :
    let text := replaceLoop s before after beyond rounds pivot oldPos newString
    let run := copyLoop s before after.length rounds pivot newPos oldPos lastLen
    text.1.getD [] = newString.getD [] ++ run.1.flatMap (Copy.bytes s after beyond) ∧ text.2 = run.2.2.1 ∧
      text.1.isSome = run.2.2.2.isSome := by
  induction rounds generalizing pivot oldPos newPos newString lastLen with
  | zero => exact ⟨(List.append_nil _).symm, rfl, hsome⟩
  | succ rounds ih =>
    dsimp only
    rw [replaceLoop, copyLoop]
    rcases findIndices s before maxReplaceIndicesNum pivot with ⟨indices, next⟩
    cases indices with
    | nil =>
      cases next with
      | none => exact ⟨(List.append_nil _).symm, rfl, hsome⟩
      | some q => exact ih newPos q oldPos newString lastLen hsome
    | cons i indices =>
      cases next with
      | none =>
        refine ⟨?_, rfl, rfl⟩
        simp only [batchCopies, List.flatMap_append, bytes_copyOld, bytes_copyAfter, bytes_gapCopies,
          Option.getD_some, List.append_assoc]
      | some q =>
        obtain ⟨htext, hrest⟩ := ih _ q ((i :: indices).getLast?.getD 0 + before.length)
          (some (newString.getD [] ++ readFrom s beyond oldPos (i - oldPos) ++ after ++
            copyGaps s after before.length beyond i indices))
          (some (batchSize s.length before.length after.length (i :: indices).length lastLen)) rfl
        refine ⟨?_, hrest⟩
        rw [htext]
        simp only [batchCopies, List.flatMap_append, bytes_copyOld, bytes_copyAfter, bytes_gapCopies,
          Option.getD_some, List.append_assoc]

end bytes

/-- **The copies make the string that is returned.** -/
theorem bytes_replaceCopies {s before : Bytes} (after : Bytes) (beyond : ℕ → UInt8) (hbefore : before ≠ []) :
    stringReplace s before after beyond =
      if replaceCopies s before after.length = [] then none
      else some (cString ((replaceCopies s before after.length).flatMap (Copy.bytes s after beyond))) := by
  obtain ⟨htext, hpos, hsome⟩ := bytes_copyLoop s after beyond 0 before (s.length + 1) 0 0 none none rfl
  rw [stringReplace, if_neg hbefore, replaceCopies]
  rcases hloop : replaceLoop s before after beyond (s.length + 1) 0 0 none with ⟨newString, oldPos⟩
  rcases hcopies : copyLoop s before after.length (s.length + 1) 0 0 0 none with ⟨copies, newPos, oldPos', lastLen⟩
  rw [hloop, hcopies] at htext hpos hsome
  cases lastLen with
  | none =>
    cases newString with
    | none => rfl
    | some text => cases hsome
  | some size =>
    cases newString with
    | none => cases hsome
    | some text =>
      rw [Option.getD_some, Option.getD_none, List.nil_append] at htext
      dsimp only at htext hpos ⊢
      rw [if_neg (List.append_ne_nil_of_right_ne_nil _ (List.cons_ne_nil _ _)), List.flatMap_append,
        List.flatMap_append, bytes_copyOld, htext, hpos]
      exact congrArg some (cString_append_zero _ []).symm

/-! ### Inside -/

section inside

variable {s : Bytes} {b a : ℕ} {size : ℤ}

theorem copyAndMoveOn_snd (size : ℤ) (newPos : ℕ) (source : CopySource) (len : ℕ) :
    (copyAndMoveOn size newPos source len).2 = newPos + len := by
  unfold copyAndMoveOn
  split
  · omega
  · rfl

theorem copyAndMoveOn_inside {newPos : ℕ} {source : CopySource} {len : ℕ}
    (h : Copy.Inside s ⟨source, len, newPos, size⟩) : ∀ c ∈ (copyAndMoveOn size newPos source len).1, c.Inside s := by
  intro c hc
  unfold copyAndMoveOn at hc
  split at hc
  · exact absurd hc List.not_mem_nil
  · rw [List.mem_singleton] at hc
    rw [hc]
    exact h

/-- Behind `k` of the `K` matches there is still room: what is left of the old string holds the other ones. -/
theorem place_lt_size {k K p : ℕ} {indices : List ℕ} (hspaced : Spaced s b p indices) (hK : K = k + indices.length)
    (hsize : s.length + K * ((a : ℤ) - b) + 1 ≤ size) : p + k * ((a : ℤ) - b) + 1 ≤ size := by
  have hle := hspaced.le_endPos
  have hend := hspaced.endPos_le
  have hroom : ((p + indices.length * b : ℕ) : ℤ) ≤ s.length := by exact_mod_cast hle.trans hend
  have hsplit : (K : ℤ) * ((a : ℤ) - b) =
      k * ((a : ℤ) - b) + ((indices.length * a : ℕ) : ℤ) - ((indices.length * b : ℕ) : ℤ) := by
    rw [hK]
    push_cast
    ring
  rw [hsplit] at hsize
  rw [Nat.cast_add] at hroom
  omega

/-- The copies for one match: from `p` on, with `gap` as the source of the text in front of it. -/
theorem matchCopies_inside {k K p i newPos : ℕ} {source : CopySource} {indices : List ℕ}
    (hspaced : Spaced s b p (i :: indices)) (hK : K = k + (i :: indices).length)
    (hsize : s.length + K * ((a : ℤ) - b) + 1 ≤ size) (hpos : (newPos : ℤ) = p + k * ((a : ℤ) - b))
    (hread : ∀ q, source = .old q → q + (i - p) ≤ s.length + 1) :
    let gap := copyAndMoveOn size newPos source (i - p)
    let new := copyAndMoveOn size gap.2 .after a
    (∀ c ∈ gap.1 ++ new.1, c.Inside s) ∧ (new.2 : ℤ) = (i + b : ℕ) + (k + 1 : ℕ) * ((a : ℤ) - b) := by
  have hpi := hspaced.1
  have hnext : ((newPos + (i - p) + a : ℕ) : ℤ) = (i + b : ℕ) + (k + 1 : ℕ) * ((a : ℤ) - b) := by
    have hgap : ((i - p : ℕ) : ℤ) = (i : ℤ) - p := by omega
    push_cast
    rw [hpos, hgap]
    ring
  have hroom := place_lt_size (k := k + 1) hspaced.2 (by rw [hK, List.length_cons]; omega) hsize
  dsimp only
  rw [copyAndMoveOn_snd, copyAndMoveOn_snd]
  refine ⟨fun c hc => ?_, hnext⟩
  rcases List.mem_append.mp hc with hc | hc
  · refine copyAndMoveOn_inside ⟨?_, ?_⟩ c hc
    · cases source with
      | old q => exact hread q rfl
      | after => trivial
      | terminator => trivial
    · push_cast at hnext hroom ⊢
      omega
  · refine copyAndMoveOn_inside ⟨trivial, ?_⟩ c hc
    push_cast at hnext hroom ⊢
    omega

theorem gapCopies_inside {n k K last newPos : ℕ} {indices : List ℕ} (hspaced : Spaced s b (last + b) indices)
    (hK : K = k + indices.length) (hsize : s.length + K * ((a : ℤ) - b) + 1 ≤ size)
    (hpos : (newPos : ℤ) = (last + b : ℕ) + k * ((a : ℤ) - b)) (hgaps : gapsRight s b n (last + b) indices)
    (hn : n % maxReplaceIndicesNum ≠ 0) (hlen : n % maxReplaceIndicesNum + indices.length ≤ maxReplaceIndicesNum) :
    (∀ c ∈ (gapCopies b a size newPos last indices).1, c.Inside s) ∧
      ((gapCopies b a size newPos last indices).2 : ℤ) = endPos b (last + b) indices + K * ((a : ℤ) - b) := by
  induction indices generalizing n k last newPos with
  | nil =>
    refine ⟨fun c hc => absurd hc List.not_mem_nil, ?_⟩
    rw [hK]
    exact hpos
  | cons i indices ih =>
    have hpi := hspaced.1
    have hle := hspaced.2.le_length
    have hread : i + b + (i - (last + b)) ≤ s.length + 1 := by
      have hsame := congrArg List.length (hgaps.1 hn)
      rw [List.length_take, List.length_take, List.length_drop, List.length_drop] at hsame
      omega
    have hsource : ∀ q, CopySource.old (i + b) = .old q → q + (i - (last + b)) ≤ s.length + 1 := by
      intro q hq
      cases hq
      exact hread
    obtain ⟨hfirst, hnext⟩ := matchCopies_inside hspaced hK hsize hpos hsource
    rw [gapCopies]
    cases indices with
    | nil =>
      refine ⟨?_, ?_⟩
      · rw [gapCopies, List.append_nil]
        exact hfirst
      · rw [hK]
        exact hnext
    | cons j indices =>
      rw [List.length_cons, List.length_cons] at hlen
      have hsucc : (n + 1) % maxReplaceIndicesNum = n % maxReplaceIndicesNum + 1 := by
        unfold maxReplaceIndicesNum at hlen ⊢
        omega
      obtain ⟨hrest, hend⟩ := ih (n := n + 1) hspaced.2 (by rw [hK, List.length_cons]; omega) hnext hgaps.2
        (by omega) (by rw [hsucc, List.length_cons]; omega)
      refine ⟨fun c hc => ?_, hend⟩
      rcases List.mem_append.mp hc with hc | hc
      · exact hfirst c hc
      · exact hrest c hc

theorem batchCopies_inside {n k K p newPos : ℕ} {indices : List ℕ} (hspaced : Spaced s b p indices)
    (hK : K = k + indices.length) (hsize : indices ≠ [] → s.length + K * ((a : ℤ) - b) + 1 ≤ size)
    (hpos : (newPos : ℤ) = p + k * ((a : ℤ) - b)) (hgaps : gapsRight s b n p indices)
    (hn : n % maxReplaceIndicesNum = 0) (hlen : indices.length ≤ maxReplaceIndicesNum) :
    (∀ c ∈ (batchCopies b a size newPos p indices).1, c.Inside s) ∧
      ((batchCopies b a size newPos p indices).2 : ℤ) = endPos b p indices + K * ((a : ℤ) - b) := by
  cases indices with
  | nil =>
    refine ⟨fun c hc => absurd hc List.not_mem_nil, ?_⟩
    rw [hK]
    exact hpos
  | cons i indices =>
    have hpi := hspaced.1
    have hle := hspaced.2.le_length
    have hroom := hsize (List.cons_ne_nil i indices)
    have hsucc : (n + 1) % maxReplaceIndicesNum = 1 := by
      unfold maxReplaceIndicesNum at hn ⊢
      omega
    have hsource : ∀ q, CopySource.old p = .old q → q + (i - p) ≤ s.length + 1 := by
      intro q hq
      cases hq
      omega
    obtain ⟨hfirst, hnext⟩ := matchCopies_inside hspaced hK hroom hpos hsource
    rw [List.length_cons] at hlen
    obtain ⟨hrest, hend⟩ := gapCopies_inside (n := n + 1) hspaced.2 (by rw [hK, List.length_cons]; omega) hroom hnext
      hgaps.2 (by omega) (by omega)
    rw [batchCopies]
    refine ⟨fun c hc => ?_, hend⟩
    rcases List.mem_append.mp hc with hc | hc
    · exact hfirst c hc
    · exact hrest c hc

/-- How large the new string is after `n` matches. -/
def LargeEnough (s : Bytes) (b a n : ℕ) : Option ℤ → Prop
  | none => n = 0
  | some lastLen => s.length + n * ((a : ℤ) - b) + 1 ≤ lastLen

theorem batchSize_large {n : ℕ} {lastLen : Option ℤ} (h : LargeEnough s b a n lastLen) (m : ℕ) :
    s.length + ((n + m : ℕ) : ℤ) * ((a : ℤ) - b) + 1 ≤ batchSize s.length b a m lastLen := by
  cases lastLen with
  | none =>
    rw [show n = 0 from h, Nat.zero_add]
    exact Int.le_refl _
  | some lastLen =>
    have hlarge : s.length + n * ((a : ℤ) - b) + 1 ≤ lastLen := h
    have hsplit : ((n + m : ℕ) : ℤ) * ((a : ℤ) - b) = n * ((a : ℤ) - b) + m * ((a : ℤ) - b) := by
      push_cast
      ring
    rw [hsplit, batchSize]
    split <;> omega

theorem gapsRight_append (n p : ℕ) (xs ys : List ℕ) :
    gapsRight s b n p (xs ++ ys) ↔ gapsRight s b n p xs ∧ gapsRight s b (n + xs.length) (endPos b p xs) ys := by
  induction xs generalizing n p with
  | nil => exact ⟨fun h => ⟨trivial, h⟩, fun h => h.2⟩
  | cons i xs ih =>
    rw [List.cons_append, gapsRight, gapsRight, ih, List.length_cons, endPos, and_assoc,
      show n + 1 + xs.length = n + (xs.length + 1) by omega]

/-- One round. -/
theorem copyLoop_succ (s before : Bytes) (a rounds p newPos : ℕ) (lastLen : Option ℤ) :
    copyLoop s before a (rounds + 1) p newPos p lastLen =
      let batch := findIndices s before maxReplaceIndicesNum p
      let size := batchSize s.length before.length a batch.1.length lastLen
      let copies := batchCopies before.length a size newPos p batch.1
      let last := if batch.1 = [] then lastLen else some size
      match batch.2 with
      | none => (copies.1, copies.2, endPos before.length p batch.1, last)
      | some q =>
        let rest := copyLoop s before a rounds q copies.2 (endPos before.length p batch.1) last
        (copies.1 ++ rest.1, rest.2) := by
  rw [copyLoop]
  rcases findIndices s before maxReplaceIndicesNum p with ⟨indices, pivot⟩
  cases indices with
  | nil => cases pivot <;> rfl
  | cons i rest =>
    dsimp only
    rw [endPos_concat, if_neg (List.cons_ne_nil i rest)]

/-- **All copies of the loop are inside**, from the start of a batch on. -/
theorem copyLoop_inside {before : Bytes} (hbefore : before ≠ []) {fuel : ℕ} (rounds : ℕ) {n p newPos : ℕ}
    {lastLen : Option ℤ} (hn : n % maxReplaceIndicesNum = 0) (hp : p ≤ s.length) (hfuel : s.length - p < fuel)
    (hrounds : s.length - p < rounds) (hpos : (newPos : ℤ) = p + n * ((a : ℤ) - before.length))
    (hlast : LargeEnough s before.length a n lastLen)
    (hgaps : gapsRight s before.length n p (findIndices s before fuel p).1) :
    let run := copyLoop s before a rounds p newPos p lastLen
    let total := n + (findIndices s before fuel p).1.length
    (∀ c ∈ run.1, c.Inside s) ∧ (run.2.1 : ℤ) = run.2.2.1 + total * ((a : ℤ) - before.length) ∧
      run.2.2.1 ≤ s.length ∧ LargeEnough s before.length a total run.2.2.2 := by
  induction rounds generalizing n p newPos lastLen with
  | zero => exact absurd hrounds (Nat.not_lt_zero _)
  | succ rounds ih =>
    obtain ⟨hspaced, -, hcases⟩ := findIndices_spec [] hbefore maxReplaceIndicesNum hp
    have hall := findIndices_more hbefore hp hfuel maxReplaceIndicesNum
    have hlen := length_findIndices_le s before maxReplaceIndicesNum p
    rw [Nat.add_comm, findIndices_add] at hall
    rw [← hall] at hgaps ⊢
    rw [copyLoop_succ]
    dsimp only
    set indices := (findIndices s before maxReplaceIndicesNum p).1 with hindices
    set size := batchSize s.length before.length a indices.length lastLen
    have hlarge := batchSize_large hlast indices.length
    have hlast' : LargeEnough s before.length a (n + indices.length)
        (if indices = [] then lastLen else some size) := by
      split
      case isTrue hnil =>
        rw [hnil]
        exact hlast
      case isFalse => exact hlarge
    rcases hcases with ⟨hsome, hfull⟩ | ⟨hnone, -⟩
    · -- a full batch, and on from its end
      rw [hsome] at hgaps ⊢
      dsimp only at hgaps ⊢
      obtain ⟨hfirst, hrest⟩ := (gapsRight_append n p _ _).mp hgaps
      obtain ⟨hin, hplace⟩ := batchCopies_inside (k := n) hspaced rfl (fun _ => hlarge) hpos hfirst hn hlen
      have hfar := hspaced.le_endPos
      have hend := hspaced.endPos_le
      have hmul : 1 * 1 ≤ maxReplaceIndicesNum * before.length :=
        Nat.mul_le_mul (by decide) (List.length_pos_iff.mpr hbefore)
      rw [hfull] at hfar
      have hnext : (n + indices.length) % maxReplaceIndicesNum = 0 := by
        rw [hindices, hfull, Nat.add_mod_right, hn]
      obtain ⟨hin', hplace', hend', hlast''⟩ := ih hnext hend (by omega) (by omega) hplace hlast' hrest
      rw [List.length_append, ← Nat.add_assoc]
      refine ⟨fun c hc => ?_, hplace', hend', hlast''⟩
      rcases List.mem_append.mp hc with hc | hc
      · exact hin c hc
      · exact hin' c hc
    · rw [hnone] at hgaps ⊢
      dsimp only at hgaps ⊢
      obtain ⟨hin, hplace⟩ := batchCopies_inside (k := n) hspaced rfl (fun _ => hlarge) hpos hgaps hn hlen
      exact ⟨hin, hplace, hspaced.endPos_le, hlast'⟩

end inside

/-- **Every copy is inside** if the gaps are right. -/
theorem replaceCopies_inside {s before : Bytes} (hbefore : before ≠ []) (a : ℕ) (hgaps : GapsRight s before) :
    ∀ c ∈ replaceCopies s before a, c.Inside s := by
  have hpos : ((0 : ℕ) : ℤ) = (0 : ℕ) + (0 : ℕ) * ((a : ℤ) - before.length) := by simp
  have hlarge : LargeEnough s before.length a 0 none := rfl
  obtain ⟨hin, hplace, hend, hlast⟩ := copyLoop_inside hbefore (s.length + 1)
    (Nat.zero_mod _) (Nat.zero_le _) (Nat.lt_succ_self _) (Nat.lt_succ_self _) hpos hlarge hgaps
  rw [replaceCopies]
  rcases hrun : copyLoop s before a (s.length + 1) 0 0 0 none with ⟨copies, newPos, oldPos, lastLen⟩
  rw [hrun] at hin hplace hend hlast
  cases lastLen with
  | none => exact fun c hc => absurd hc List.not_mem_nil
  | some size =>
    -- the rest of the old string, and the terminator, fill the new one
    have hroom : s.length + _ + 1 ≤ size := hlast
    dsimp only at hplace hend hin ⊢
    have hrest : ((newPos + (s.length - oldPos) : ℕ) : ℤ) + 1 ≤ size := by omega
    intro c hc
    rcases List.mem_append.mp hc with hc | hc
    · rcases List.mem_append.mp hc with hc | hc
      · exact hin c hc
      · refine copyAndMoveOn_inside ⟨?_, ?_⟩ c hc
        · show oldPos + (s.length - oldPos) ≤ s.length + 1
          omega
        · push_cast at hrest
          show (newPos : ℤ) + ((s.length - oldPos : ℕ) : ℤ) ≤ size
          omega
    · rw [List.mem_singleton.mp hc, copyAndMoveOn_snd]
      exact ⟨trivial, hrest⟩

/-! ### The law -/

/-- What replacing is for: the leftmost matches are replaced, every copy is inside, and without a match the
flag says what is returned. -/
def ReplaceLaw (s before after : Bytes) (beyond : ℕ → UInt8) (nullIfNoMatch : Bool) : Prop :=
  stringReplaceWith s before after beyond nullIfNoMatch =
      (if before <:+: s then some (replaceAll before after s) else if nullIfNoMatch then none else some s) ∧
    ∀ c ∈ replaceCopies s before after.length, c.Inside s

/-- **Replacing works** exactly if the texts between two matches of a batch also follow the second one. -/
theorem replaceLaw_iff (s before after : Bytes) (beyond : ℕ → UInt8) (nullIfNoMatch : Bool) (hs : 0 ∉ s)
    (hafter : 0 ∉ after) (hbefore : before ≠ []) :
    ReplaceLaw s before after beyond nullIfNoMatch ↔ GapsRight s before := by
  by_cases hinside : before <:+: s
  · rw [ReplaceLaw, if_pos hinside, ← stringReplace_eq_replaceAll_iff beyond hs hafter hbefore hinside,
      stringReplaceWith,
      stringReplace_eq after beyond hbefore, if_pos hinside]
    refine ⟨fun h => h.1, fun h => ⟨h, replaceCopies_inside hbefore after.length ?_⟩⟩
    rw [← stringReplace_eq_replaceAll_iff beyond hs hafter hbefore hinside, stringReplace_eq after beyond hbefore,
      if_pos hinside]
    exact h
  · have hgaps : GapsRight s before := by
      rw [GapsRight, (occurrences_eq_nil_iff hbefore).mpr hinside]
      trivial
    refine ⟨fun _ => hgaps, fun _ => ⟨?_, replaceCopies_inside hbefore after.length hgaps⟩⟩
    rw [if_neg hinside, stringReplaceWith, stringReplace_eq after beyond hbefore, if_neg hinside]

/-- It does for the string "1,2,2,2". -/
theorem replaceLaw_equalGaps : ReplaceLaw [49, 44, 50, 44, 50, 44, 50] [44] [59, 59] (fun _ => 0) true :=
  (replaceLaw_iff _ _ _ _ _ (by decide) (by decide) (by decide)).mpr (by decide)

/-- In "1,22,3" the text "22" is replaced by what follows the second comma, the terminator included. -/
theorem not_replaceLaw_gaps : ¬ ReplaceLaw [49, 44, 50, 50, 44, 51] [44] [59] (fun _ => 0) true := by
  intro h
  exact absurd h.1 (by decide +kernel)

end Fcitx
