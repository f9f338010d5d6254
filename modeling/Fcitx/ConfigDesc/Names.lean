/-
# Names in the generated code

`tools/dev/common/common.c`: how the names of a description become names of C,
and the C type and the functions of a builtin type. What gets NULL for a string
has no result.

Key definitions: `typeName`, `formatFirstLowerName`, `formatUnderscoreName`, `getStoreFunc`.
-/
import Fcitx.Config.Description

namespace Fcitx

/-- `fcitx_utils_tolower` -/
def tolower (c : UInt8) : UInt8 := if isupper c then c - 65 + 97 else c

/-- `fcitx_utils_toupper` -/
def toupper (c : UInt8) : UInt8 := if islower c then c - 97 + 65 else c

/-- `remove_invalid_char` -/
def removeInvalidChar (str : Bytes) : Bytes :=
  (str.filter fun c => ¬ isspace c ∧ c ≠ 46).map fun c => if c = 45 then 95 else c

/-- `type_name` -/
def typeName (namePrefix groupName : Bytes) : Bytes :=
  removeInvalidChar (namePrefix ++ groupName ++ "Group".toUTF8.toList)

/-- `format_first_lower_name` -/
def formatFirstLowerName (name : Bytes) : Bytes :=
  let result := removeInvalidChar name
  let upper := result.takeWhile isupper
  let rest := result.dropWhile isupper
  if 1 < upper.length then
    -- the last one of several capitals stays
    upper.dropLast.map tolower ++ (upper.getLast?.toList.map fun c => toupper (tolower c)) ++ rest
  else upper.map tolower ++ rest

/-- The loop of `format_underscore_name`; `first` holds for the first character. -/
def underscoreLoop (upper : Bool) (first : Bool) : Bytes → Bytes
  | [] => []
  | c :: name =>
    let c' := if upper then toupper c else tolower c
    let rest := underscoreLoop upper false name
    if islower c ∧ isupper (name.headD 0) ∧ first = false then c' :: 95 :: rest else c' :: rest

/-- `format_underscore_name` -/
def formatUnderscoreName (name : Bytes) (upper : Bool) : Bytes :=
  underscoreLoop upper true (removeInvalidChar name)

namespace BuiltinType

/-- The type in C. -/
def cTypeName : BuiltinType → Bytes
  | integer => "int".toUTF8.toList
  | string | file | font => "char*".toUTF8.toList
  | boolean => "bool".toUTF8.toList
  | char => "char".toUTF8.toList
  | enum => "uint32_t".toUTF8.toList
  | i18nString => "FcitxI18NString*".toUTF8.toList
  | hotkey => "FcitxKeyList*".toUTF8.toList
  | color => "FcitxColor".toUTF8.toList
  | list => "FcitxPtrArray*".toUTF8.toList

/-- What stands behind `fcitx_configuration_get_` and `fcitx_configuration_set_`. -/
def accessName : BuiltinType → Bytes
  | integer => "integer".toUTF8.toList
  | string | file | font => "string".toUTF8.toList
  | boolean => "boolean".toUTF8.toList
  | char => "char".toUTF8.toList
  | i18nString => "i18n_string".toUTF8.toList
  | hotkey => "key".toUTF8.toList
  | color => "color".toUTF8.toList
  | enum => "enum".toUTF8.toList
  | list => "list".toUTF8.toList

end BuiltinType

/-- `get_c_type_name` -/
def getCTypeName (type : Bytes) : Option Bytes := (BuiltinType.ofName type).map BuiltinType.cTypeName

/-- `get_load_func` -/
def getLoadFunc (type : Bytes) : Option Bytes :=
  (BuiltinType.ofName type).map fun t => "fcitx_configuration_get_".toUTF8.toList ++ t.accessName

/-- `get_store_func` -/
def getStoreFunc (type : Bytes) : Option Bytes :=
  (BuiltinType.ofName type).map fun t => "fcitx_configuration_set_".toUTF8.toList ++ t.accessName

/-- `get_free_func` -/
def getFreeFunc (type : Bytes) : Option Bytes :=
  match BuiltinType.ofName type with
  | some .string | some .file | some .font => some "free".toUTF8.toList
  | some .i18nString => some "fcitx_i18n_string_free".toUTF8.toList
  | some .hotkey => some "fcitx_key_list_free".toUTF8.toList
  | some .list => some "fcitx_ptr_array_free".toUTF8.toList
  | _ => none

/-- `get_list_free_func` -/
def getListFreeFunc (type : Bytes) : Option Bytes :=
  match BuiltinType.ofName type with
  | some .string | some .file | some .font => some "fcitx_configuration_string_free".toUTF8.toList
  | some .i18nString => some "fcitx_configuration_i18n_string_free".toUTF8.toList
  | some .hotkey => some "fcitx_configuration_key_list_free".toUTF8.toList
  | _ => none

/-- The names of the builtin types are those with functions. -/
theorem isBuiltinType_iff (type : Bytes) :
    isBuiltinType type = true ↔ (getLoadFunc type).isSome ∧ (getStoreFunc type).isSome := by
  unfold isBuiltinType getLoadFunc getStoreFunc
  rw [Option.isSome_map, Option.isSome_map, and_self_iff]

example : formatUnderscoreName "TestIMGroup".toUTF8.toList false = "test_imgroup".toUTF8.toList := by
  decide +kernel

end Fcitx
