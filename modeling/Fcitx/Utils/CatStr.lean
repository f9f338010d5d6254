/-
# Concatenating into a buffer of a given size

`fcitx_utils_str_lens` and the truncating concatenation of `fcitx-utils/stringutils.c`.
The loop looks ahead where the next string would end and cuts it if that is behind the
last place but one. A pointer into the buffer is an offset in the memory that the buffer
is a part of, and a string is the list of its bytes before the terminator.

Key definitions: `strLens`, `catLoop`, `catStrWithLen`.
Key theorems: `catLoop_eq`, `catStrWithLen_eq`.
-/
import Fcitx.Lib.Buffer
import Fcitx.Utils.Utf8
import Mathlib.Algebra.Ring.Nat

namespace Fcitx

/-- `str ? strlen(str) : 0` -/
def strLen : Option Bytes → ℕ
  | none => 0
  | some str => str.length

/-- `fcitx_utils_str_lens`: the sizes, and the size of a buffer for all. -/
def strLens (strList : List (Option Bytes)) : List ℕ × ℕ :=
  let sizeList := strList.map strLen
  (sizeList, sizeList.sum + 1)

/-- The first `n` bytes at a string, which has its terminator behind it; NULL cannot be read. -/
def readStr (str : Option Bytes) (n : ℕ) : Option Bytes :=
  str.bind fun str => if n ≤ str.length + 1 then some ((str ++ [0]).take n) else none

/-- The loop of `fcitx_utils_cat_str_with_len`: the memory after it, and `out`. -/
def catLoop (limit : ℕ) : List (Option Bytes) → List ℕ → Bytes → ℕ → ℕ → Option (Bytes × ℕ)
  | [], _, mem, out, _ => some (mem, out)
  | _ :: _, [], _, _, _ => none
  | str :: strList, size :: sizeList, mem, out, tmp =>
    if size = 0 then catLoop limit strList sizeList mem out tmp
    else
      let tmp := tmp + size
      if tmp > limit then do
        let bytes ← readStr str (limit - out)
        let mem ← Buffer.write mem out bytes
        some (mem, limit)
      else do
        let bytes ← readStr str size
        let mem ← Buffer.write mem out bytes
        catLoop limit strList sizeList mem tmp tmp

/-- `fcitx_utils_cat_str_with_len`; a read or write that is out of bounds has no result. -/
def catStrWithLen (mem : Bytes) (out len : ℕ) (strList : List (Option Bytes)) (sizeList : List ℕ) : Option Bytes := do
  let limit := out + len - 1
  let (mem, out) ← catLoop limit strList sizeList mem out out
  Buffer.write mem out [0]

/-- All strings one behind the other; NULL is empty. -/
def concatenation (strList : List (Option Bytes)) : Bytes := strList.flatMap fun str => str.getD []

variable {strList : List (Option Bytes)} {str : Bytes}

theorem length_concatenation (strList : List (Option Bytes)) :
    (concatenation strList).length + 1 = (strLens strList).2 := by
  unfold concatenation strLens
  dsimp only
  rw [List.length_flatMap]
  congr 2
  refine List.map_congr_left fun str _ => ?_
  cases str <;> rfl

theorem readStr_eq {n : ℕ} (h : n ≤ str.length) : readStr (some str) n = some (str.take n) := by
  rw [readStr, Option.bind_some, if_pos (Nat.le_succ_of_le h), List.take_append_of_le_length h]

/-- **The loop** appends as much of the strings as there is room for. -/
theorem catLoop_eq (strList : List (Option Bytes)) : ∀ (front : Bytes) {gap : Bytes} {room : ℕ}, room ≤ gap.length →
    catLoop (front.length + room) strList (strList.map strLen) (front ++ gap) front.length front.length =
      some (front ++ (concatenation strList).take room ++ gap.drop (min room (concatenation strList).length),
        front.length + min room (concatenation strList).length) := by
  induction strList with
  | nil =>
    intro front gap room _
    rw [concatenation, List.flatMap_nil, List.take_nil, List.length_nil, Nat.min_zero, List.append_nil]
    rfl
  | cons str strList ih =>
    intro front gap room hroom
    have hcons : concatenation (str :: strList) = str.getD [] ++ concatenation strList := List.flatMap_cons
    rw [List.map_cons, catLoop]
    by_cases hsize : strLen str = 0
    · -- NULL and the empty string are passed over
      have hempty : str.getD [] = [] := by
        cases str with
        | none => rfl
        | some str => exact List.eq_nil_of_length_eq_zero hsize
      rw [if_pos hsize, ih front hroom, hcons, hempty, List.nil_append]
    · obtain ⟨str, rfl⟩ : ∃ s, str = some s := by
        cases str with
        | none => exact absurd rfl hsize
        | some str => exact ⟨str, rfl⟩
      rw [Option.getD_some] at hcons
      have hlen : (concatenation (some str :: strList)).length = str.length + (concatenation strList).length := by
        rw [hcons, List.length_append]
      rw [if_neg hsize]
      dsimp only [strLen, bind, Option.bind]
      by_cases hcut : front.length + str.length > front.length + room
      · have htake : (str.take room).length = room := List.length_take_of_le (by omega)
        rw [if_pos hcut, Nat.add_sub_cancel_left, readStr_eq (by omega)]
        dsimp only
        rw [Buffer.write_append (by omega), htake, hlen, Nat.min_eq_left (by omega), hcons,
          List.take_append_of_le_length (by omega)]
      · have hle : str.length ≤ room := by omega
        have hfront : front.length + str.length = (front ++ str).length := List.length_append.symm
        have hrest : front.length + room = (front ++ str).length + (room - str.length) := by
          rw [List.length_append]
          omega
        have hmin : min room (str.length + (concatenation strList).length) =
            str.length + min (room - str.length) (concatenation strList).length := by omega
        rw [if_neg hcut, readStr_eq (Nat.le_refl _), List.take_length]
        dsimp only
        rw [Buffer.write_append (by omega), hfront, hrest]
        dsimp only
        rw [ih (front ++ str) (by rw [List.length_drop]; omega), hlen, hmin, hcons, List.take_append,
          List.take_of_length_le hle, List.drop_drop, List.length_append, List.append_assoc front str (List.take _ _),
          Nat.add_assoc]

/-- **The truncating concatenation** writes the first `len - 1` bytes of the concatenation, or all if there are fewer,
and a terminator, and leaves the rest of the memory as it was. -/
theorem catStrWithLen_eq (mem : Bytes) (out len : ℕ) (strList : List (Option Bytes)) (hlen : 1 ≤ len)
    (hroom : out + len ≤ mem.length) :
    catStrWithLen mem out len strList (strLens strList).1 =
      some (mem.take out ++ (concatenation strList).take (len - 1) ++
        0 :: mem.drop (out + min (len - 1) (concatenation strList).length + 1)) := by
  obtain ⟨front, gap, rfl, rfl⟩ : ∃ front gap, mem = front ++ gap ∧ front.length = out :=
    ⟨mem.take out, mem.drop out, (List.take_append_drop out mem).symm, List.length_take_of_le (by omega)⟩
  rw [List.length_append, Nat.add_le_add_iff_left] at hroom
  have hlimit : front.length + len - 1 = front.length + (len - 1) := by omega
  have hloop := catLoop_eq strList front (by omega : len - 1 ≤ gap.length)
  have htext : ((concatenation strList).take (len - 1)).length = min (len - 1) (concatenation strList).length :=
    List.length_take
  set text := (concatenation strList).take (len - 1) with hdef
  have hwrite := @Buffer.write_append UInt8 (front ++ text) (gap.drop text.length) [0]
    (by rw [List.length_drop, List.length_singleton]; omega)
  rw [← htext] at hloop ⊢
  rw [List.length_append] at hwrite
  unfold catStrWithLen
  dsimp only [strLens]
  rw [hlimit, hloop]
  dsimp only [bind, Option.bind]
  rw [hwrite, List.take_left, List.drop_drop, Nat.add_assoc, List.drop_length_add_append, List.append_assoc, List.length_singleton]
  rfl

/-- The texts of the test: `"a,b,"` fits into five bytes. -/
theorem catStrWithLen_eq_test :
    catStrWithLen [1, 2, 3, 4, 5, 6] 0 5 [some [97], none, some [44, 98], some [44, 99], some [44, 100]]
      [1, 0, 2, 2, 2] = some [97, 44, 98, 44, 0, 6] :=
  catStrWithLen_eq [1, 2, 3, 4, 5, 6] 0 5 [some [97], none, some [44, 98], some [44, 99], some [44, 100]]
    (by decide) (by decide)

end Fcitx
