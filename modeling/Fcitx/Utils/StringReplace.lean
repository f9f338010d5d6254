/-
# Replacing in strings

`fcitx_utils_string_replace` collects up to 128 matches at a time and copies the
text between them. Behind the first match of a batch it copies the text that
follows the next match, not the text in front of it. So the result is the string
with its leftmost matches replaced exactly if these texts are the same.

Key definitions: `replaceAll`, `occurrences`, `GapsRight`, `stringReplaceWith`.
Key theorems: `stringReplace_eq`, `codeText_eq_rightText_iff`, `stringReplace_eq_replaceAll_iff`.
-/
import Fcitx.Utils.StringUtils
import Mathlib.Data.List.Infix

namespace Fcitx

/-! ### What replacing is -/

/-- Replace the leftmost matches of `before`, from left to right, by `after`. -/
def replaceAll (before after : Bytes) : Bytes → Bytes
  | [] => []
  | c :: s =>
    if before.isPrefixOf (c :: s) then after ++ replaceAll before after (s.drop (before.length - 1))
    else c :: replaceAll before after s
termination_by s => s.length
decreasing_by
  · rw [List.length_drop, List.length_cons]
    omega
  · exact Nat.lt_succ_self _

/-- `fcitx_utils_string_replace` -/
def stringReplaceWith (s before after : Bytes) (beyond : ℕ → UInt8) (nullIfNoMatch : Bool) : Option Bytes :=
  match stringReplace s before after beyond with
  | some newString => some newString
  | none => if nullIfNoMatch then none else some s

/-- Where the matches are that the function finds. -/
def occurrences (s before : Bytes) : List ℕ := (findIndices s before (s.length + 1) 0).1

/-- From match `n` on, the text between a match and the one before it (which ends at `p`) also follows it,
unless it is the first of a batch. -/
def gapsRight (s : Bytes) (beforeLen : ℕ) : ℕ → ℕ → List ℕ → Prop
  | _, _, [] => True
  | n, p, i :: indices =>
    (n % maxReplaceIndicesNum ≠ 0 → (s.drop (i + beforeLen)).take (i - p) = (s.drop p).take (i - p)) ∧
      gapsRight s beforeLen (n + 1) (i + beforeLen) indices

/-- The texts between two matches of a batch also follow the second one. -/
def GapsRight (s before : Bytes) : Prop := gapsRight s before.length 0 0 (occurrences s before)

instance gapsRightDecidable (s : Bytes) (beforeLen n p : ℕ) : (indices : List ℕ) →
    Decidable (gapsRight s beforeLen n p indices)
  | [] => .isTrue trivial
  | i :: indices =>
    have := gapsRightDecidable s beforeLen (n + 1) (i + beforeLen) indices
    inferInstanceAs (Decidable ((n % maxReplaceIndicesNum ≠ 0 → _ = _) ∧ _))

instance GapsRight.decidable (s before : Bytes) : Decidable (GapsRight s before) :=
  inferInstanceAs (Decidable (gapsRight _ _ _ _ _))

/-! ### Matches -/

section search

variable {s before : Bytes} {p i : ℕ}

/-- A match that was found, and that it is the first. -/
theorem strstrFrom_some (h : strstrFrom s before p = some i) :
    p ≤ i ∧ i < s.length ∧ before <+: s.drop i ∧ ∀ k, p ≤ k → k < i → ¬ before <+: s.drop k := by
  obtain ⟨d, hfind, rfl⟩ := Option.map_eq_some_iff.mp h
  obtain ⟨hstart, hmem, hfirst⟩ := List.find?_range_eq_some.mp hfind
  have hd := List.mem_range.mp hmem
  refine ⟨Nat.le_add_right p d, by omega, List.isPrefixOf_iff_prefix.mp hstart, fun k hpk hk hmatch => ?_⟩
  have hnot := hfirst (k - p) (by omega)
  rw [Nat.add_sub_cancel' hpk, List.isPrefixOf_iff_prefix.mpr hmatch] at hnot
  cases hnot

theorem strstrFrom_none (h : strstrFrom s before p = none) : ∀ k, p ≤ k → k < s.length → ¬ before <+: s.drop k := by
  intro k hpk hk hmatch
  have hnot := List.find?_range_eq_none.mp (Option.map_eq_none_iff.mp h) (k - p) (by omega)
  rw [Nat.add_sub_cancel' hpk, List.isPrefixOf_iff_prefix.mpr hmatch] at hnot
  cases hnot

/-- A match ends inside the string. -/
theorem match_end (h : before <+: s.drop i) (hi : i < s.length) : i + before.length ≤ s.length := by
  have hlen := h.length_le
  rw [List.length_drop] at hlen
  omega

/-- Replacing at a match. -/
theorem replaceAll_drop_match (after : Bytes) (hbefore : before ≠ []) (hi : i < s.length) (h : before <+: s.drop i) :
    replaceAll before after (s.drop i) = after ++ replaceAll before after (s.drop (i + before.length)) := by
  have hpos := List.length_pos_iff.mpr hbefore
  rw [List.drop_eq_getElem_cons hi] at h ⊢
  rw [replaceAll, if_pos (List.isPrefixOf_iff_prefix.mpr h), List.drop_drop]
  congr 3
  omega

/-- Replacing up to a place with no match in front of it. -/
theorem replaceAll_drop_skip (after : Bytes) (hpi : p ≤ i) (hi : i ≤ s.length)
    (h : ∀ k, p ≤ k → k < i → ¬ before <+: s.drop k) :
    replaceAll before after (s.drop p) = (s.drop p).take (i - p) ++ replaceAll before after (s.drop i) := by
  obtain ⟨n, rfl⟩ := Nat.exists_eq_add_of_le hpi
  induction n generalizing p with
  | zero => simp
  | succ n ih =>
    have hlt : p < s.length := by omega
    have hnot : before.isPrefixOf (s[p] :: s.drop (p + 1)) = false := by
      rw [← List.drop_eq_getElem_cons hlt, Bool.eq_false_iff]
      intro hstart
      exact h p (Nat.le_refl p) (by omega) (List.isPrefixOf_iff_prefix.mp hstart)
    have hrest := ih (Nat.le_add_right (p + 1) n) (by omega) fun k hpk hk => h k (by omega) (by omega)
    rw [show p + 1 + n = p + (n + 1) by omega] at hrest
    rw [List.drop_eq_getElem_cons hlt, replaceAll, hnot, if_neg Bool.false_ne_true, hrest,
      show p + (n + 1) - p = n + 1 by omega, show p + (n + 1) - (p + 1) = n by omega, List.take_succ_cons,
      List.cons_append]

end search

/-! ### The texts that are copied -/

/-- What should be written up to the last match: from `p` on, with matches at `indices`. -/
def rightText (s after : Bytes) (beforeLen : ℕ) : ℕ → List ℕ → Bytes
  | _, [] => []
  | p, i :: indices => (s.drop p).take (i - p) ++ after ++ rightText s after beforeLen (i + beforeLen) indices

/-- What is written, from match `n` on. -/
def codeText (s after : Bytes) (beforeLen : ℕ) (beyond : ℕ → UInt8) : ℕ → ℕ → List ℕ → Bytes
  | _, _, [] => []
  | n, p, i :: indices =>
    (if n % maxReplaceIndicesNum = 0 then readFrom s beyond p (i - p)
      else readFrom s beyond (i + beforeLen) (i - p)) ++ after ++
      codeText s after beforeLen beyond (n + 1) (i + beforeLen) indices

/-- Where the last match ends. -/
def endPos (beforeLen : ℕ) : ℕ → List ℕ → ℕ
  | p, [] => p
  | _, i :: indices => endPos beforeLen (i + beforeLen) indices

/-- Matches from `p` on that do not overlap. -/
def Spaced (s : Bytes) (beforeLen : ℕ) : ℕ → List ℕ → Prop
  | p, [] => p ≤ s.length
  | p, i :: indices => p ≤ i ∧ Spaced s beforeLen (i + beforeLen) indices

theorem Spaced.endPos_le {s : Bytes} {b p : ℕ} {indices : List ℕ} (h : Spaced s b p indices) :
    endPos b p indices ≤ s.length := by
  induction indices generalizing p with
  | nil => exact h
  | cons i indices ih => exact ih h.2

theorem Spaced.le_endPos {s : Bytes} {b p : ℕ} {indices : List ℕ} (h : Spaced s b p indices) :
    p + indices.length * b ≤ endPos b p indices := by
  induction indices generalizing p with
  | nil => simp [endPos]
  | cons i indices ih =>
    have hrest := ih h.2
    have hpi := h.1
    rw [endPos, List.length_cons, Nat.succ_mul]
    omega

/-- **What the search finds.** -/
theorem findIndices_spec {s before : Bytes} (after : Bytes) (hbefore : before ≠ []) (n : ℕ) {p : ℕ}
    (hp : p ≤ s.length) :
    Spaced s before.length p (findIndices s before n p).1 ∧
      replaceAll before after (s.drop p) = rightText s after before.length p (findIndices s before n p).1 ++
        replaceAll before after (s.drop (endPos before.length p (findIndices s before n p).1)) ∧
      ((findIndices s before n p).2 = some (endPos before.length p (findIndices s before n p).1) ∧
          (findIndices s before n p).1.length = n ∨
        (findIndices s before n p).2 = none ∧
          replaceAll before after (s.drop (endPos before.length p (findIndices s before n p).1)) =
            s.drop (endPos before.length p (findIndices s before n p).1)) := by
  induction n generalizing p with
  | zero => exact ⟨hp, rfl, Or.inl ⟨rfl, rfl⟩⟩
  | succ n ih =>
    rw [findIndices]
    cases hfind : strstrFrom s before p with
    | none =>
      have hnone := strstrFrom_none hfind
      have hskip : replaceAll before after (s.drop p) =
          (s.drop p).take (s.length - p) ++ replaceAll before after (s.drop s.length) :=
        replaceAll_drop_skip after hp (Nat.le_refl s.length) hnone
      have hnil : replaceAll before after (s.drop s.length) = [] := by rw [List.drop_length, replaceAll]
      rw [hnil, List.append_nil, ← List.length_drop, List.take_length] at hskip
      exact ⟨hp, rfl, Or.inr ⟨rfl, hskip⟩⟩
    | some i =>
      obtain ⟨hpi, hi, hmatch, hfirst⟩ := strstrFrom_some hfind
      obtain ⟨hspaced, hright, hcases⟩ := ih (match_end hmatch hi)
      refine ⟨⟨hpi, hspaced⟩, ?_, ?_⟩
      · rw [replaceAll_drop_skip after hpi (Nat.le_of_lt hi) hfirst, replaceAll_drop_match after hbefore hi hmatch,
          hright]
        simp only [rightText, endPos, List.append_assoc]
      · rcases hcases with ⟨hsome, hlen⟩ | ⟨hnone, hrest⟩
        · exact Or.inl ⟨hsome, congrArg Nat.succ hlen⟩
        · exact Or.inr ⟨hnone, hrest⟩

/-- Searching on. -/
theorem findIndices_add (s before : Bytes) (m n p : ℕ) : findIndices s before (m + n) p =
    match (findIndices s before m p).2 with
    | none => ((findIndices s before m p).1, none)
    | some q => ((findIndices s before m p).1 ++ (findIndices s before n q).1, (findIndices s before n q).2) := by
  induction m generalizing p with
  | zero =>
    rw [Nat.zero_add]
    rfl
  | succ m ih =>
    rw [Nat.succ_add, findIndices, findIndices]
    cases strstrFrom s before p with
    | none => rfl
    | some i =>
      dsimp only
      rw [ih]
      cases (findIndices s before m (i + before.length)).2 <;> rfl

theorem length_findIndices_le (s before : Bytes) (n p : ℕ) : (findIndices s before n p).1.length ≤ n := by
  induction n generalizing p with
  | zero => exact Nat.le_refl 0
  | succ n ih =>
    rw [findIndices]
    cases strstrFrom s before p with
    | none => exact Nat.zero_le _
    | some i => exact Nat.succ_le_succ (ih (i + before.length))

/-- Searching to the end. -/
theorem findIndices_none {s before : Bytes} (hbefore : before ≠ []) {n p : ℕ} (hp : p ≤ s.length)
    (hn : s.length - p < n) : (findIndices s before n p).2 = none := by
  obtain ⟨hspaced, -, hcases⟩ := findIndices_spec [] hbefore n hp
  rcases hcases with ⟨-, hlen⟩ | ⟨hnone, -⟩
  · have hle := hspaced.le_endPos
    have hend := hspaced.endPos_le
    have hpos := List.length_pos_iff.mpr hbefore
    rw [hlen] at hle
    have hmul : n * 1 ≤ n * before.length := Nat.mul_le_mul_left n hpos
    omega
  · exact hnone

theorem findIndices_more {s before : Bytes} (hbefore : before ≠ []) {n p : ℕ} (hp : p ≤ s.length)
    (hn : s.length - p < n) (k : ℕ) : (findIndices s before (n + k) p).1 = (findIndices s before n p).1 := by
  rw [findIndices_add, findIndices_none hbefore hp hn]

/-! ### The loops -/

theorem endPos_append (b p : ℕ) (xs ys : List ℕ) : endPos b p (xs ++ ys) = endPos b (endPos b p xs) ys := by
  induction xs generalizing p with
  | nil => rfl
  | cons i xs ih => exact ih (i + b)

theorem endPos_concat (b p : ℕ) (i : ℕ) (indices : List ℕ) :
    endPos b p (i :: indices) = (i :: indices).getLast?.getD 0 + b := by
  induction indices generalizing p i with
  | nil => rfl
  | cons j indices ih =>
    rw [endPos, ih, List.getLast?_cons_cons]

theorem codeText_append (s after : Bytes) (b : ℕ) (beyond : ℕ → UInt8) (n p : ℕ) (xs ys : List ℕ) :
    codeText s after b beyond n p (xs ++ ys) =
      codeText s after b beyond n p xs ++ codeText s after b beyond (n + xs.length) (endPos b p xs) ys := by
  induction xs generalizing n p with
  | nil => rfl
  | cons i xs ih =>
    rw [List.cons_append, codeText, codeText, ih, List.length_cons, endPos]
    simp only [List.append_assoc, Nat.add_assoc, Nat.add_comm 1]

/-- The copies of a batch behind its first match. -/
theorem copyGaps_eq (s after : Bytes) (b : ℕ) (beyond : ℕ → UInt8) (n last : ℕ) (indices : List ℕ)
    (hn : n % maxReplaceIndicesNum ≠ 0) (hlen : n % maxReplaceIndicesNum + indices.length ≤ maxReplaceIndicesNum) :
    copyGaps s after b beyond last indices = codeText s after b beyond n (last + b) indices := by
  induction indices generalizing n last with
  | nil => rfl
  | cons i indices ih =>
    rw [copyGaps, codeText, if_neg hn]
    cases indices with
    | nil => rfl
    | cons j indices =>
      unfold maxReplaceIndicesNum at hn hlen ih
      rw [List.length_cons, List.length_cons] at hlen
      rw [ih (n + 1) i (by omega) (by rw [List.length_cons]; omega)]

/-- The copies of a batch. -/
theorem codeText_batch (s after : Bytes) (b : ℕ) (beyond : ℕ → UInt8) {n p i : ℕ} {rest : List ℕ}
    (hn : n % maxReplaceIndicesNum = 0) (hlen : rest.length < maxReplaceIndicesNum) :
    codeText s after b beyond n p (i :: rest) =
      readFrom s beyond p (i - p) ++ after ++ copyGaps s after b beyond i rest := by
  have hnext : (n + 1) % maxReplaceIndicesNum = 1 := by
    unfold maxReplaceIndicesNum at hn ⊢
    omega
  rw [codeText, if_pos hn, copyGaps_eq s after b beyond (n + 1) i rest (by rw [hnext]; exact Nat.one_ne_zero)
    (by rw [hnext]; omega)]

/-- The new string after more text is written, if there are matches. -/
def grown (newString : Option Bytes) (indices : List ℕ) (text : Bytes) : Option Bytes :=
  if indices = [] then newString else some (newString.getD [] ++ text)

theorem grown_append (newString : Option Bytes) (xs ys : List ℕ) (t u : Bytes) (ht : xs = [] → t = [])
    (hu : ys = [] → u = []) :
    grown (grown newString xs t) ys u = grown newString (xs ++ ys) (t ++ u) := by
  unfold grown
  by_cases hxs : xs = []
  · rw [if_pos hxs, hxs, ht hxs, List.nil_append, List.nil_append]
  · rw [if_neg hxs, if_neg (List.append_ne_nil_of_left_ne_nil hxs ys)]
    by_cases hys : ys = []
    · rw [if_pos hys, hu hys, List.append_nil]
    · rw [if_neg hys, Option.getD_some, List.append_assoc]

/-- One round: what the batch writes, and where the next one starts. -/
theorem replaceLoop_succ (s before after : Bytes) (beyond : ℕ → UInt8) (rounds : ℕ) {n : ℕ} (p : ℕ)
    (newString : Option Bytes) (hn : n % maxReplaceIndicesNum = 0) :
    replaceLoop s before after beyond (rounds + 1) p p newString =
      let batch := findIndices s before maxReplaceIndicesNum p
      let written := grown newString batch.1 (codeText s after before.length beyond n p batch.1)
      match batch.2 with
      | none => (written, endPos before.length p batch.1)
      | some q => replaceLoop s before after beyond rounds q (endPos before.length p batch.1) written := by
  have hlen := length_findIndices_le s before maxReplaceIndicesNum p
  rw [replaceLoop]
  rcases hfind : findIndices s before maxReplaceIndicesNum p with ⟨indices, pivot⟩
  rw [hfind] at hlen
  cases indices with
  | nil => cases pivot <;> rfl
  | cons i rest =>
    dsimp only at hlen ⊢
    rw [codeText_batch s after before.length beyond hn hlen, endPos_concat, grown, if_neg (List.cons_ne_nil i rest)]
    cases pivot <;> simp only [List.append_assoc]

/-- **The outer loop** from the start of a batch on. -/
theorem replaceLoop_eq {s before : Bytes} (after : Bytes) (beyond : ℕ → UInt8) (hbefore : before ≠ []) {fuel : ℕ}
    (rounds : ℕ) {n p : ℕ} (newString : Option Bytes) (hn : n % maxReplaceIndicesNum = 0) (hp : p ≤ s.length)
    (hfuel : s.length - p < fuel) (hrounds : s.length - p < rounds) :
    replaceLoop s before after beyond rounds p p newString =
      (grown newString (findIndices s before fuel p).1
          (codeText s after before.length beyond n p (findIndices s before fuel p).1),
        endPos before.length p (findIndices s before fuel p).1) := by
  induction rounds generalizing n p newString with
  | zero => exact absurd hrounds (Nat.not_lt_zero _)
  | succ rounds ih =>
    obtain ⟨hspaced, -, hcases⟩ := findIndices_spec [] hbefore maxReplaceIndicesNum hp
    have hall := findIndices_more hbefore hp hfuel maxReplaceIndicesNum
    rw [Nat.add_comm, findIndices_add] at hall
    rw [replaceLoop_succ s before after beyond rounds p newString hn, ← hall]
    dsimp only
    rcases hcases with ⟨hsome, hlen⟩ | ⟨hnone, -⟩
    · -- a full batch, and on from its end
      have hfar := hspaced.le_endPos
      have hend := hspaced.endPos_le
      have hpos := List.length_pos_iff.mpr hbefore
      have hmul : 1 * 1 ≤ maxReplaceIndicesNum * before.length := Nat.mul_le_mul (by decide) hpos
      rw [hlen] at hfar
      have hnext : (n + (findIndices s before maxReplaceIndicesNum p).1.length) % maxReplaceIndicesNum = 0 := by
        rw [hlen, Nat.add_mod_right, hn]
      rw [hsome]
      dsimp only
      rw [ih _ hnext hend (by omega) (by omega), codeText_append, endPos_append,
        grown_append _ _ _ _ _ (by intro hnil; rw [hnil]; rfl)
        (by intro hnil; rw [hnil]; rfl)]
    · rw [hnone]

/-! ### What is returned -/

theorem length_readFrom (s : Bytes) (beyond : ℕ → UInt8) (pos len : ℕ) : (readFrom s beyond pos len).length = len := by
  rw [readFrom, List.length_map, List.length_range]

/-- Reading inside the string. -/
theorem readFrom_of_le {s : Bytes} (beyond : ℕ → UInt8) {pos len : ℕ} (h : pos + len ≤ s.length) :
    readFrom s beyond pos len = (s.drop pos).take len := by
  apply List.ext_getElem
  · rw [length_readFrom, List.length_take, List.length_drop]
    omega
  · intro i hi _
    rw [length_readFrom] at hi
    have hlt : pos + i < s.length := by omega
    simp only [readFrom, List.getElem_map, List.getElem_range, List.getElem_take, List.getElem_drop, if_pos hlt]
    exact (List.getElem_eq_getD 0).symm

theorem Spaced.le_length {s : Bytes} {b p : ℕ} {indices : List ℕ} (h : Spaced s b p indices) : p ≤ s.length := by
  have hle := h.le_endPos
  have hend := h.endPos_le
  omega

/-- Text behind a match is only mistaken for the text in front of it if both are the same: the terminator
is in no text. -/
theorem readFrom_eq_iff {s : Bytes} (beyond : ℕ → UInt8) (hs : 0 ∉ s) {p pos len : ℕ} (hp : p + len ≤ s.length)
    (hpos : pos ≤ s.length) :
    readFrom s beyond pos len = (s.drop p).take len ↔ (s.drop pos).take len = (s.drop p).take len := by
  rcases Nat.lt_or_ge s.length (pos + len) with hlt | hge
  · -- both sides fail: the terminator is read, and the text behind is too short
    have hleft : readFrom s beyond pos len ≠ (s.drop p).take len := by
      intro heq
      have hmem : (0 : UInt8) ∈ readFrom s beyond pos len := by
        refine List.mem_map.mpr ⟨s.length - pos, List.mem_range.mpr (by omega), ?_⟩
        rw [if_neg (by omega), if_pos (by omega)]
      rw [heq] at hmem
      exact hs (List.mem_of_mem_drop (List.mem_of_mem_take hmem))
    have hright : (s.drop pos).take len ≠ (s.drop p).take len := by
      intro heq
      have hlen := congrArg List.length heq
      rw [List.length_take, List.length_take, List.length_drop, List.length_drop] at hlen
      omega
    exact ⟨fun h => absurd h hleft, fun h => absurd h hright⟩
  · rw [readFrom_of_le beyond hge]

/-- Both texts have the same length. -/
theorem length_codeText {s : Bytes} (after : Bytes) {b : ℕ} (beyond : ℕ → UInt8) (n : ℕ) {p : ℕ} {indices : List ℕ}
    (h : Spaced s b p indices) :
    (codeText s after b beyond n p indices).length = (rightText s after b p indices).length := by
  induction indices generalizing n p with
  | nil => rfl
  | cons i indices ih =>
    have hlen : (if n % maxReplaceIndicesNum = 0 then readFrom s beyond p (i - p)
        else readFrom s beyond (i + b) (i - p)).length = i - p := by
      split <;> exact length_readFrom s beyond _ _
    have hle := h.2.le_length
    have hgap : ((s.drop p).take (i - p)).length = i - p := by
      rw [List.length_take, List.length_drop]
      omega
    simp only [codeText, rightText, List.length_append, ih (n + 1) h.2, hlen, hgap]

/-- **What is written is right** exactly if the gaps are. -/
theorem codeText_eq_rightText_iff {s : Bytes} (after : Bytes) {b : ℕ} (beyond : ℕ → UInt8) (hs : 0 ∉ s) (n : ℕ)
    {p : ℕ} {indices : List ℕ} (h : Spaced s b p indices) :
    codeText s after b beyond n p indices = rightText s after b p indices ↔ gapsRight s b n p indices := by
  induction indices generalizing n p with
  | nil => exact ⟨fun _ => trivial, fun _ => rfl⟩
  | cons i indices ih =>
    have hpi := h.1
    have hle := h.2.le_length
    have hgap : (if n % maxReplaceIndicesNum = 0 then readFrom s beyond p (i - p)
          else readFrom s beyond (i + b) (i - p)) = (s.drop p).take (i - p) ↔
        (n % maxReplaceIndicesNum ≠ 0 → (s.drop (i + b)).take (i - p) = (s.drop p).take (i - p)) := by
      by_cases hn : n % maxReplaceIndicesNum = 0
      · rw [if_pos hn, readFrom_of_le beyond (by omega)]
        exact ⟨fun _ hne => absurd hn hne, fun _ => rfl⟩
      · rw [if_neg hn, readFrom_eq_iff beyond hs (by omega) hle]
        exact ⟨fun heq _ => heq, fun heq => heq hn⟩
    rw [gapsRight, codeText, rightText, ← hgap, ← ih (n + 1) h.2]
    constructor
    · intro heq
      obtain ⟨hfront, hrest⟩ := List.append_inj' heq (length_codeText after beyond (n + 1) h.2)
      exact ⟨List.append_cancel_right hfront, hrest⟩
    · intro heq
      rw [heq.1, heq.2]

section result

variable {s before : Bytes} (after : Bytes) (beyond : ℕ → UInt8)

/-- The matches that are found. -/
theorem occurrences_spec (hbefore : before ≠ []) :
    Spaced s before.length 0 (occurrences s before) ∧
      replaceAll before after s = rightText s after before.length 0 (occurrences s before) ++
        s.drop (endPos before.length 0 (occurrences s before)) := by
  obtain ⟨hspaced, hright, hcases⟩ := findIndices_spec (s := s) after hbefore (s.length + 1) (Nat.zero_le _)
  have hnone := findIndices_none (s := s) hbefore (Nat.zero_le _) (Nat.lt_succ_self s.length)
  rcases hcases with ⟨hsome, -⟩ | ⟨-, hrest⟩
  · rw [hnone] at hsome
    cases hsome
  · rw [hrest] at hright
    exact ⟨hspaced, hright⟩

/-- There are matches exactly if `before` is somewhere in the string. -/
theorem occurrences_eq_nil_iff (hbefore : before ≠ []) : occurrences s before = [] ↔ ¬ before <:+: s := by
  rw [occurrences, findIndices]
  cases hfind : strstrFrom s before 0 with
  | none =>
    refine ⟨fun _ hinside => ?_, fun _ => rfl⟩
    obtain ⟨front, back, heq⟩ := hinside
    have hpos := List.length_pos_iff.mpr hbefore
    refine strstrFrom_none hfind front.length (Nat.zero_le _) ?_ ⟨back, ?_⟩
    · rw [← heq, List.length_append, List.length_append]
      omega
    · rw [← heq, List.append_assoc, List.drop_left]
  | some i =>
    obtain ⟨-, -, hmatch, -⟩ := strstrFrom_some hfind
    refine ⟨fun hnil => absurd hnil (List.cons_ne_nil _ _), fun hnot => absurd ?_ hnot⟩
    exact hmatch.isInfix.trans (List.drop_suffix i s).isInfix

/-- **`fcitx_utils_string_replace`** without its loops. -/
theorem stringReplace_eq (hbefore : before ≠ []) : stringReplace s before after beyond =
    if before <:+: s then
      some (cString (codeText s after before.length beyond 0 0 (occurrences s before) ++
        s.drop (endPos before.length 0 (occurrences s before))))
    else none := by
  have hspaced := (occurrences_spec (s := s) after hbefore).1
  have hend := hspaced.endPos_le
  have hloop : replaceLoop s before after beyond (s.length + 1) 0 0 none =
      (grown none (occurrences s before) (codeText s after before.length beyond 0 0 (occurrences s before)),
        endPos before.length 0 (occurrences s before)) :=
    replaceLoop_eq after beyond hbefore (s.length + 1) none (Nat.zero_mod _) (Nat.zero_le _)
      (Nat.lt_succ_self s.length) (Nat.lt_succ_self s.length)
  rw [stringReplace, if_neg hbefore, hloop]
  by_cases hnil : occurrences s before = []
  · rw [if_neg ((occurrences_eq_nil_iff hbefore).mp hnil), grown, if_pos hnil]
  · rw [if_pos (Classical.not_not.mp fun hnot => hnil ((occurrences_eq_nil_iff hbefore).mpr hnot)), grown,
      if_neg hnil]
    dsimp only [Option.getD_none]
    rw [readFrom_of_le beyond (by omega), List.nil_append, List.take_of_length_le (by rw [List.length_drop])]

end result

/-- A memory that holds a string of its own length is the string. -/
theorem cString_eq_iff {memory t : Bytes} (hlen : memory.length = t.length) (ht : 0 ∉ t) :
    cString memory = t ↔ memory = t := by
  constructor
  · intro h
    have hstart : t <+: memory := h ▸ List.takeWhile_prefix _
    exact (hstart.eq_of_length hlen.symm).symm
  · rintro rfl
    exact cString_of_noZero ht

theorem zero_notMem_rightText {s after : Bytes} (hs : 0 ∉ s) (hafter : 0 ∉ after) (b p : ℕ) (indices : List ℕ) :
    0 ∉ rightText s after b p indices := by
  induction indices generalizing p with
  | nil => exact List.not_mem_nil
  | cons i indices ih =>
    rw [rightText, List.mem_append, List.mem_append]
    rintro ((hmem | hmem) | hmem)
    · exact hs (List.mem_of_mem_drop (List.mem_of_mem_take hmem))
    · exact hafter hmem
    · exact ih (i + b) hmem

/-- **The result is the replaced string** exactly if the gaps are right. -/
theorem stringReplace_eq_replaceAll_iff {s before after : Bytes} (beyond : ℕ → UInt8) (hs : 0 ∉ s) (hafter : 0 ∉ after)
    (hbefore : before ≠ []) (hinside : before <:+: s) :
    stringReplace s before after beyond = some (replaceAll before after s) ↔ GapsRight s before := by
  obtain ⟨hspaced, hright⟩ := occurrences_spec (s := s) after hbefore
  have hlen := length_codeText after beyond 0 hspaced
  have hzero := zero_notMem_rightText hs hafter before.length 0 (occurrences s before)
  rw [stringReplace_eq after beyond hbefore, if_pos hinside, Option.some_inj, hright, cString_eq_iff, GapsRight,
    ← codeText_eq_rightText_iff after beyond hs 0 hspaced]
  · exact ⟨fun h => List.append_cancel_right h, fun h => by rw [h]⟩
  · rw [List.length_append, List.length_append, hlen]
  · rw [List.mem_append]
    rintro (hmem | hmem)
    · exact hzero hmem
    · exact hs (List.mem_of_mem_drop hmem)

end Fcitx
