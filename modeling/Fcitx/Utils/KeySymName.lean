/-
# Looking up the names of keysyms

The lookups of `fcitx-utils/key.c` in the tables of names and characters, and one
pass over the tables for what `testkey.c` checks of them: they are sorted, each row has the
number of a name of its keysym, and each keysym of a name has a row. No name
holds white space or one of the modifiers that a hotkey can be written with.

Key definitions: `Key.keysymToString`, `Key.keysymFromUnicode`, `Key.keysymFromString`,
`Key.plainName`, `Key.TablesChecked`.
-/
import Fcitx.Lib.BinarySearch
import Fcitx.Lib.PackedWords
import Fcitx.Utils.Key
import Fcitx.Utils.KeyNames
import Fcitx.Utils.Utf8Check

namespace Fcitx
namespace Key

/-! ### The lookups -/

/-- `strcmp`, whose sign is all that is read of it. -/
def strcmp : Bytes → Bytes → ℤ
  | [], [] => 0
  | [], _ :: _ => -1
  | _ :: _, [] => 1
  | a :: as, b :: bs => if a = b then strcmp as bs else (a.toNat : ℤ) - b.toNat

/-- The bytes of a name. -/
def nameBytes (name : String) : Bytes := name.toUTF8.data.toList

/-- `keyNameList[offset]` -/
def keyName (offset : ℕ) : Bytes := nameBytes (keyNameList.getD offset "")

/-- `keysymCompare` at a position of `keyNameOffsetByValue`. -/
def keysymCompare (keysym : KeySym) (idx : ℕ) : ℤ :=
  (keysym - (keyNameOffsetByValue.getD idx (0, 0)).1).toBitVec.toInt

/-- `fcitx_keysym_to_string`; `none` is NULL. -/
def keysymToString (keysym : KeySym) : Option Bytes :=
  (BinarySearch.search (keysymCompare keysym) keyNameOffsetByValue.size).map fun idx =>
    keyName (keyNameOffsetByValue.getD idx (0, 0)).2.toNat

/-- `keynameCompare` at a position of `keyValueByNameOffset`. -/
def keynameCompare (str : Bytes) (idx : ℕ) : ℤ := strcmp str (keyName idx)

/-- The name of a row of `keyNameListCompat`. -/
def compatName (idx : ℕ) : Bytes := nameBytes (keyNameListCompat.getD idx ("", 0)).1

/-- `keynameCompatCompare` at a position of `keyNameListCompat`. -/
def keynameCompatCompare (str : Bytes) (idx : ℕ) : ℤ := strcmp str (compatName idx)

/-- The binary search of `fcitx_keysym_from_unicode`, as `keysymSearch` is that of the other table. -/
def unicodeSearch (wc : UInt32) : ℕ → ℤ → ℤ → Option KeySym
  | 0, _, _ => none
  | rounds + 1, min, max =>
    if max < min then none
    else
      let mid := (min + max) / 2
      let row := gdkUnicodeToKeysymTab.getD mid.toNat (0, 0)
      if row.2.toUInt32 < wc then unicodeSearch wc rounds (mid + 1) max
      else if row.2.toUInt32 > wc then unicodeSearch wc rounds min (mid - 1)
      else some row.1.toUInt32

/-- `fcitx_keysym_from_unicode` -/
def keysymFromUnicode (wc : UInt32) : KeySym :=
  if (0x0020 ≤ wc ∧ wc ≤ 0x007e) ∨ (0x00a0 ≤ wc ∧ wc ≤ 0x00ff) then wc
  else (unicodeSearch wc (gdkUnicodeToKeysymTab.size + 1) 0 (gdkUnicodeToKeysymTab.size - 1)).getD
    (wc ||| 0x01000000)

/-- The keysym of a string of one character, the last resort of `fcitx_keysym_from_string`. -/
def keysymFromChar (str : Bytes) : KeySym :=
  if Utf8.strlen str = 1 then
    let chr := Utf8.getCharValidated str 6
    if 0 < chr.toBitVec.toInt then
      if Utf8.charLen str = 1 then (str.at 0).toInt8.toInt32.toUInt32 else keysymFromUnicode chr
    else FcitxKey.none
  else FcitxKey.none

/-- `fcitx_keysym_from_string` -/
def keysymFromString (str : Bytes) : KeySym :=
  match BinarySearch.search (keynameCompare str) keyValueByNameOffset.size with
  | some idx => keyValueByNameOffset.getD idx 0
  | none =>
    match BinarySearch.search (keynameCompatCompare str) keyNameListCompat.size with
    | some idx => (keyNameListCompat.getD idx ("", 0)).2
    | none => keysymFromChar str

/-! ### What holds of the tables -/

/-- A character of a name. -/
def nameChar (c : UInt8) : Bool :=
  (Nat.ble 48 c.toNat && Nat.ble c.toNat 57) || (Nat.ble 65 c.toNat && Nat.ble c.toNat 90) || Nat.beq 95 c.toNat ||
    (Nat.ble 97 c.toNat && Nat.ble c.toNat 122)

/-- No underscore stands behind the two letters that one of the old modifiers ends with. -/
def noOldModifier : Bytes → Bool
  | a :: b :: c :: s =>
    !(Nat.beq 95 c.toNat &&
        ((Nat.beq 82 a.toNat && Nat.beq 76 b.toNat) || (Nat.beq 76 a.toNat && Nat.beq 84 b.toNat) ||
          (Nat.beq 70 a.toNat && Nat.beq 84 b.toNat) || (Nat.beq 69 a.toNat && Nat.beq 82 b.toNat))) &&
      noOldModifier (b :: c :: s)
  | _ => true

/-- A name without white space and without a modifier. -/
def plainName (name : Bytes) : Bool := !name.isEmpty && name.all nameChar && noOldModifier name

/-- The names are plain and ascend. -/
def namesCheck : List Bytes → Bool
  | a :: b :: l => decide (strcmp a b < 0) && plainName a && namesCheck (b :: l)
  | [a] => plainName a
  | [] => true

/-- Each row has the number of a name of its keysym. -/
def rowsCheck (packed size : ℕ) : List (UInt32 × UInt16) → Bool
  | [] => true
  | row :: l =>
    Nat.blt row.2.toNat size && Nat.beq (PackedWords.word packed row.2.toNat) row.1.toNat && rowsCheck packed size l

/-- Each keysym is among the ones that are packed. -/
def keysymsCheck (packed size : ℕ) : List ℕ → Bool
  | [] => true
  | v :: l => PackedWords.found packed v 13 0 size && keysymsCheck packed size l

/-- The keysyms of the rows. -/
def rowKeysyms : List ℕ := keyNameOffsetByValue.toList.map fun row => row.1.toNat

/-- The keysyms ascend, and none is negative as an `int`. -/
def ascending : List ℕ → Bool
  | a :: b :: l => Nat.blt a b && ascending (b :: l)
  | [a] => Nat.blt a 2147483648
  | [] => true

/-- The characters of the table. -/
def unicodeChars : List ℕ := gdkUnicodeToKeysymTab.toList.map fun row => row.2.toNat

/-- The characters do not descend, and none is a control character. -/
def charsCheck : List ℕ → Bool
  | a :: b :: l => Nat.ble a b && Nat.ble 0x20 a && !Nat.beq 0x7f a && charsCheck (b :: l)
  | [a] => Nat.ble 0x20 a && !Nat.beq 0x7f a
  | [] => true

/-- The rows of the characters that are no old currency sign have named keysyms. -/
def charRowsCheck (packed : ℕ) : List (UInt16 × UInt16) → Bool
  | [] => true
  | row :: l =>
    ((Nat.ble 0x20a0 row.2.toNat && Nat.ble row.2.toNat 0x20ab) || PackedWords.found packed row.1.toNat 13 0 2178) &&
      charRowsCheck packed l

/-- What is checked of the tables, in one pass over each. -/
structure TablesChecked : Prop where
  names : namesCheck (keyNameList.toList.map nameBytes) = true
  compat : namesCheck (keyNameListCompat.toList.map fun row => nameBytes row.1) = true
  rows : rowsCheck (PackedWords.pack (keyValueByNameOffset.toList.map UInt32.toNat)) 2273
    keyNameOffsetByValue.toList = true
  keysyms : keysymsCheck (PackedWords.pack rowKeysyms) 2178
    (keyValueByNameOffset.toList.map UInt32.toNat ++ keyNameListCompat.toList.map fun row => row.2.toNat) = true
  ascending : ascending rowKeysyms = true
  sizes : keyNameList.size = 2273 ∧ keyValueByNameOffset.size = 2273 ∧ rowKeysyms.length = 2178 ∧
    keyNameOffsetByValue.size = 2178 ∧ keyNameListCompat.size = 342 ∧ gdkUnicodeToKeysymTab.size = 750
  /-- no key, the letter a and the tabs have rows -/
  fixed : ([FcitxKey.none, 0x61, FcitxKey.tab, FcitxKey.isoLeftTab].all fun sym => sym.toNat ∈ rowKeysyms) = true
  chars : charsCheck unicodeChars = true
  charRows : charRowsCheck (PackedWords.pack rowKeysyms) gdkUnicodeToKeysymTab.toList = true
  latin : keysymsCheck (PackedWords.pack rowKeysyms) 2178 (List.range' 0x20 95 ++ List.range' 0xa0 96) = true
  /-- control characters, the old currency signs and small characters have no rows -/
  gaps : (rowKeysyms.all fun v => decide ¬ ((1 ≤ v ∧ v ≤ 0x1f) ∨ v = 0x7f ∨
    (0x20a0 ≤ v ∧ v ≤ 0x20ab) ∨ (0x1000001 ≤ v ∧ v ≤ 0x100007f))) = true
  currency : ∀ i : Fin 12, unicodeSearch (UInt32.ofNat (0x20a0 + i)) 751 0 749 = some (UInt32.ofNat (0x20a0 + i))

theorem tablesChecked : TablesChecked where
  names := by decide +kernel
  compat := by decide +kernel
  rows := by decide +kernel
  keysyms := by decide +kernel
  ascending := by decide +kernel
  sizes := by decide +kernel
  fixed := by decide +kernel
  chars := by decide +kernel
  charRows := by decide +kernel
  latin := by decide +kernel
  gaps := by decide +kernel
  currency := by decide +kernel

/-- How many names, values and rows there are. -/
structure TableSizes : Prop where
  names : keyNameList.size = 2273
  values : keyValueByNameOffset.size = 2273
  rowKeysyms : rowKeysyms.length = 2178
  rows : keyNameOffsetByValue.size = 2178
  compat : keyNameListCompat.size = 342
  unicode : gdkUnicodeToKeysymTab.size = 750

theorem sizes : TableSizes :=
  have ⟨names, values, rowKeysyms, rows, compat, unicode⟩ := tablesChecked.sizes
  ⟨names, values, rowKeysyms, rows, compat, unicode⟩

end Key
end Fcitx
