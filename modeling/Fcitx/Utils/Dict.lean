/-
# Dictionaries and string sets

`fcitx-utils/dict.c` and `stringhashset.c`: a dictionary is a uthash table, an
insertion-ordered map from byte strings, with the number of its entries beside.
Taking out an entry by its address deletes it twice; the second time reads the
table through the head of the list, which is NULL after the last entry went.

Key definitions: `Dict`, `Dict.lookup`, `Dict.insert`, `Dict.removeData`,
`hashsetParse`.
-/
import Fcitx.Lib.Assoc
import Fcitx.Utils.Utf8

namespace Fcitx

/-- `FcitxDict`; `numItems` is the `unsigned` count of the table. -/
structure Dict (A : Type) where
  items : List (Bytes × A)
  numItems : ℕ
deriving DecidableEq

namespace Dict

variable {A : Type}

/-- `fcitx_dict_new` -/
def new : Dict A := ⟨[], 0⟩

/-- `fcitx_dict_lookup` -/
def lookup (dict : Dict A) (key : Bytes) : Option A := dict.items.lookup key

/-- `fcitx_dict_insert` of a new key, or without `replace`. -/
def insert (dict : Dict A) (key : Bytes) (value : A) : Dict A :=
  match dict.lookup key with
  | some _ => dict
  | none => ⟨dict.items ++ [(key, value)], (dict.numItems + 1) % 0x100000000⟩

/-- `HASH_DEL` of an entry. -/
def hashDel (dict : Dict A) (key : Bytes) : Dict A :=
  ⟨Assoc.erase dict.items key, (dict.numItems + 0xffffffff) % 0x100000000⟩

/-- `fcitx_dict_remove_data` of the entry of `key`: the links of the entry are
the same the second time, so that only the count changes again. `none` is a read
through the NULL head. -/
def removeData (dict : Dict A) (key : Bytes) : Option (Dict A) :=
  let dict := dict.hashDel key
  if dict.items.isEmpty then none
  else some { dict with numItems := (dict.numItems + 0xffffffff) % 0x100000000 }

end Dict

/-! ### String sets -/

/-- `fcitx_string_hashset_insert_len` -/
def hashsetInsert (sset : List Bytes) (key : Bytes) : List Bytes :=
  if key ∈ sset then sset else sset ++ [key]

/-- The loop of `fcitx_string_hashset_parse`, with the bytes since the last delimiter. -/
def hashsetParseLoop (delim : UInt8) : Bytes → Bytes → List Bytes → List Bytes
  | [], src, sset => if src.isEmpty then sset else hashsetInsert sset src
  | b :: bs, src, sset =>
    if b = delim then hashsetParseLoop delim bs [] (hashsetInsert sset src)
    else hashsetParseLoop delim bs (src ++ [b]) sset

/-- `fcitx_string_hashset_parse` -/
def hashsetParse (str : Bytes) (delim : UInt8) : List Bytes := hashsetParseLoop delim str [] []

end Fcitx
