/-
# Strings

The part of `fcitx-utils/stringutils.c` that the configuration files and the
XKB rules use: trimming, searching and replacing. A string is the list of its
bytes before the terminator. `fcitx_utils_string_replace` may read behind the
terminator; `beyond` is what it finds there.

Key definitions: `cString`, `inplaceTrim`, `trim`, `stringReplace`.
Key theorems: `inplaceTrim_eq`, `trim_eq`.
-/
import Fcitx.Utils.Utf8
import Mathlib.Data.List.DropRight

namespace Fcitx

/-- The string in a piece of memory. -/
def cString (memory : Bytes) : Bytes := memory.takeWhile (· ≠ 0)

/-- `memmove(buf + dst, buf + src, n)`: what is moved is read before it is written. -/
def memmove (buf : Bytes) (dst src n : ℕ) : Bytes :=
  buf.take dst ++ (buf.drop src).take n ++ buf.drop (dst + n)

/-- `strcspn` -/
def strcspn (s reject : Bytes) : ℕ := (s.takeWhile fun c => c ≠ 0 ∧ c ∉ reject).length

/-- `fcitx_utils_isspace` -/
def isspace (c : UInt8) : Bool := c = 12 || c = 10 || c = 13 || c = 9 || c = 11 || c = 32

/-- `fcitx_utils_islower` -/
def islower (c : UInt8) : Bool := 97 ≤ c && c ≤ 122

/-- `fcitx_utils_isupper` -/
def isupper (c : UInt8) : Bool := 65 ≤ c && c ≤ 90

/-- `fcitx_utils_trim_helper`: where the string starts and ends without its white space. -/
def trimHelper (s : Bytes) : ℕ × ℕ :=
  let rest := s.dropWhile isspace
  let start := s.length - rest.length
  (start, start + (rest.reverse.dropWhile isspace).length)

/-- `fcitx_utils_inplace_trim` -/
def inplaceTrim (s : Bytes) : Bytes := (s.take (trimHelper s).2).drop (trimHelper s).1

/-- `fcitx_utils_trim`, which copies from the start of `s`. -/
def trim (s : Bytes) : Bytes := s.take (trimHelper s).2

/-- `fcitx_utils_string_starts_with` -/
def startsWith (s needle : Bytes) : Bool := needle.isPrefixOf s

/-- `fcitx_utils_string_ends_with` -/
def endsWith (s needle : Bytes) : Bool := needle.isSuffixOf s

/-! ### Terminators -/

/-- A string ends at its first terminator. -/
theorem cString_append_zero (s rest : Bytes) : cString (s ++ 0 :: rest) = cString s := by
  unfold cString
  induction s with
  | nil => rfl
  | cons b s ih =>
    rw [List.cons_append, List.takeWhile_cons, List.takeWhile_cons, ih]

theorem cString_of_noZero {s : Bytes} (h : 0 ∉ s) : cString s = s := by
  refine List.takeWhile_eq_self_iff.mpr fun b hb => decide_eq_true fun hzero => h ?_
  rw [← hzero]
  exact hb

/-! ### Runs -/

section run

variable {reject : Bytes} {c : UInt8}

theorem strcspn_le (s reject : Bytes) : strcspn s reject ≤ s.length := (List.takeWhile_sublist _).length_le

theorem strcspn_zero (m reject : Bytes) : strcspn (0 :: m) reject = 0 := by
  simp [strcspn]

theorem strcspn_reject (hc : c ∈ reject) (m : Bytes) : strcspn (c :: m) reject = 0 := by
  simp [strcspn, hc]

theorem strcspn_cons (h0 : c ≠ 0) (hc : c ∉ reject) (m : Bytes) :
    strcspn (c :: m) reject = strcspn m reject + 1 := by
  simp [strcspn, h0, hc]

/-- A run ends at the terminator or at a character of the set. -/
theorem strcspn_append {run : Bytes} (hrun : ∀ c ∈ run, c ≠ 0 ∧ c ∉ reject) (hc : c = 0 ∨ c ∈ reject) (m : Bytes) :
    strcspn (run ++ c :: m) reject = run.length := by
  induction run with
  | nil =>
    rcases hc with rfl | hc
    · exact strcspn_zero m reject
    · exact strcspn_reject hc m
  | cons b run ih =>
    obtain ⟨hb, hrun⟩ := List.forall_mem_cons.mp hrun
    rw [List.cons_append, strcspn_cons hb.1 hb.2, ih hrun, List.length_cons]

end run

/-! ### Trimming -/

/-- Where the helper finds the ends. -/
theorem trimHelper_eq (s : Bytes) : trimHelper s =
    ((s.takeWhile isspace).length,
      (s.takeWhile isspace).length + ((s.dropWhile isspace).rdropWhile isspace).length) := by
  have hlen : s.length - (s.dropWhile isspace).length = (s.takeWhile isspace).length := by
    have h := congrArg List.length (List.takeWhile_append_dropWhile (p := isspace) (l := s))
    rw [List.length_append] at h
    omega
  unfold trimHelper
  dsimp only
  rw [hlen, List.rdropWhile, List.length_reverse]

/-- What is before the end that the helper finds. -/
theorem take_trimHelper (s : Bytes) :
    s.take (trimHelper s).2 = s.takeWhile isspace ++ (s.dropWhile isspace).rdropWhile isspace := by
  have hstart := List.prefix_iff_eq_take.mp (List.rdropWhile_prefix isspace (s.dropWhile isspace))
  have htake : (s.takeWhile isspace ++ s.dropWhile isspace).take
      ((s.takeWhile isspace).length + ((s.dropWhile isspace).rdropWhile isspace).length) = _ :=
    List.take_length_add_append _
  rw [List.takeWhile_append_dropWhile, ← hstart] at htake
  rw [trimHelper_eq]
  exact htake

/-- **Trimming in place** drops the white space on both sides. -/
theorem inplaceTrim_eq (s : Bytes) : inplaceTrim s = (s.dropWhile isspace).rdropWhile isspace := by
  rw [inplaceTrim, take_trimHelper, trimHelper_eq, List.drop_left]

/-- **`fcitx_utils_trim`** keeps the white space at the start. -/
theorem trim_eq (s : Bytes) : trim s = s.takeWhile isspace ++ inplaceTrim s := by
  rw [trim, take_trimHelper, inplaceTrim_eq]

/-- Only white space is trimmed to nothing. -/
theorem inplaceTrim_eq_nil_iff (s : Bytes) : inplaceTrim s = [] ↔ ∀ c ∈ s, isspace c = true := by
  rw [inplaceTrim_eq, List.rdropWhile_eq_nil_iff]
  constructor
  · intro h c hc
    rw [← List.takeWhile_append_dropWhile (p := isspace) (l := s)] at hc
    rcases List.mem_append.mp hc with hc | hc
    · exact List.mem_takeWhile_imp hc
    · exact h c hc
  · intro h c hc
    exact h c ((List.dropWhile_suffix _).subset hc)

/-- What is left does not start with white space. -/
theorem head?_inplaceTrim (s : Bytes) : ∀ c, (inplaceTrim s).head? = some c → isspace c = false := by
  intro c hc
  obtain ⟨rest, hrest⟩ : inplaceTrim s <+: s.dropWhile isspace := by
    rw [inplaceTrim_eq]
    exact List.rdropWhile_prefix isspace _
  have hhead : (s.dropWhile isspace).head? = some c := by
    rw [← hrest, List.head?_append, hc]
    rfl
  have hnot := List.head?_dropWhile_not isspace s
  rw [hhead] at hnot
  exact hnot

/-- White space in front does not matter. -/
theorem inplaceTrim_append {before : Bytes} (h : ∀ c ∈ before, isspace c = true) (s : Bytes) :
    inplaceTrim (before ++ s) = inplaceTrim s := by
  rw [inplaceTrim_eq, inplaceTrim_eq, List.dropWhile_append_of_pos h]

/-- What does not end with white space only is trimmed at its end. -/
theorem rdropWhile_append {before s : Bytes} (h : ¬ ∀ c ∈ s, isspace c = true) :
    (before ++ s).rdropWhile isspace = before ++ s.rdropWhile isspace := by
  have hne : (s.reverse.dropWhile isspace).isEmpty = false := by
    rw [List.isEmpty_eq_false_iff, ne_eq, List.dropWhile_eq_nil_iff]
    intro hall
    exact h fun c hc => hall c (List.mem_reverse.mpr hc)
  rw [List.rdropWhile, List.reverse_append, List.dropWhile_append, hne]
  simp [List.rdropWhile]

/-! ### Replacing -/

/-- `MAX_REPLACE_INDICES_NUM` -/
def maxReplaceIndicesNum : ℕ := 128

/-- `strstr(s + pivot, before) - s` -/
def strstrFrom (s before : Bytes) (pivot : ℕ) : Option ℕ :=
  ((List.range (s.length - pivot)).find? fun i => before.isPrefixOf (s.drop (pivot + i))).map (pivot + ·)

/-- The loop that fills `indices`: what it finds, and `pivot` afterwards. -/
def findIndices (s before : Bytes) : ℕ → ℕ → List ℕ × Option ℕ
  | 0, pivot => ([], some pivot)
  | n + 1, pivot =>
    match strstrFrom s before pivot with
    | none => ([], none)
    | some i =>
      let (indices, pivot) := findIndices s before n (i + before.length)
      (i :: indices, pivot)

/-- The memory from `s + pos` on, `len` bytes of it. -/
def readFrom (s : Bytes) (beyond : ℕ → UInt8) (pos len : ℕ) : Bytes :=
  (List.range len).map fun i =>
    if pos + i < s.length then s.at (pos + i)
    else if pos + i = s.length then 0
    else beyond (pos + i - s.length - 1)

/-- What a batch adds to the new string after its first match: `last` is the match before. -/
def copyGaps (s after : Bytes) (beforeLen : ℕ) (beyond : ℕ → UInt8) (last : ℕ) : List ℕ → Bytes
  | [] => []
  | i :: indices =>
    readFrom s beyond (i + beforeLen) (i - (last + beforeLen)) ++ after ++
      copyGaps s after beforeLen beyond i indices

/-- The outer loop, given more rounds than it may take: `newString` (`none` is NULL) and
`oldStringPos` at its end. -/
def replaceLoop (s before after : Bytes) (beyond : ℕ → UInt8) :
    ℕ → ℕ → ℕ → Option Bytes → Option Bytes × ℕ
  | 0, _, oldPos, newString => (newString, oldPos)
  | rounds + 1, pivot, oldPos, newString =>
    let (indices, pivot) := findIndices s before maxReplaceIndicesNum pivot
    let (newString, oldPos) :=
      match indices with
      | [] => (newString, oldPos)
      | i :: rest =>
        (some (newString.getD [] ++ readFrom s beyond oldPos (i - oldPos) ++ after ++
            copyGaps s after before.length beyond i rest),
          indices.getLast?.getD 0 + before.length)
    match pivot with
    | none => (newString, oldPos)
    | some pivot => replaceLoop s before after beyond rounds pivot oldPos newString

/-- `fcitx_utils_string_replace` with `nullIfNoMatch`. -/
def stringReplace (s before after : Bytes) (beyond : ℕ → UInt8) : Option Bytes :=
  if before = [] then none
  else
    match replaceLoop s before after beyond (s.length + 1) 0 0 none with
    | (none, _) => none
    | (some newString, oldPos) =>
      some (cString (newString ++ readFrom s beyond oldPos (s.length - oldPos)))

end Fcitx
