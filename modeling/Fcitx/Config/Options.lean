/-
# Options with a type

The part of `fcitx-config/helper.c` for integers, strings and enumerations: an option
is stored as a text, and read from the stored text, or from the default that
is declared for it. What does not meet the constraint of the option is replaced by
the default.

Key definitions: `atoi`, `formatInt`, `IntegerInfo`, `StringInfo`, `EnumInfo`,
`Configuration.getInteger`, `Configuration.getString`, `Configuration.getEnum`.
Key theorems: `atoi_formatInt`, `Configuration.getValueByPath_setValueByPath`,
`Configuration.options_kept`.
-/
import Fcitx.Config.PathMap
import Fcitx.Lib.Decimal
import Fcitx.Utils.StringUtils
import Mathlib.Algebra.Ring.Int.Defs

namespace Fcitx

open Decimal (digits value isDigit)

/-! ### Numbers -/

/-- `'-'` -/
def minus : UInt8 := 45

/-- `sprintf` with `%d`. -/
def formatInt (integer : Int32) : Bytes :=
  if integer.toInt < 0 then minus :: digits integer.toInt.natAbs else digits integer.toInt.natAbs

/-- The sign in front of a number, and what stands behind it. -/
def readSign : Bytes → Bool × Bytes
  | [] => (false, [])
  | b :: s => if b = minus then (true, s) else if b = 43 then (false, s) else (false, b :: s)

/-- `strtol` to the base 10, which stays in the range of a `long`. -/
def strtol (nptr : Bytes) : ℤ :=
  let (negative, s) := readSign (nptr.dropWhile isspace)
  let n : ℤ := value (s.takeWhile isDigit)
  max (-2 ^ 63) (min (2 ^ 63 - 1) (if negative then -n else n))

/-- `atoi`, a cast of `strtol`. -/
def atoi (nptr : Bytes) : Int32 := Int32.ofInt (strtol nptr)

/-- What is not white space, for the start of a number. -/
theorem isspace_of_isDigit {b : UInt8} (h : isDigit b = true) : isspace b = false ∧ b ≠ minus ∧ b ≠ 43 := by
  have hall : ∀ n : Fin 256, isDigit (UInt8.ofNat n) = true → isspace (UInt8.ofNat n) = false ∧
      UInt8.ofNat n ≠ minus ∧ UInt8.ofNat n ≠ 43 := by decide +kernel
  have hb := hall ⟨b.toNat, b.toNat_lt⟩
  rw [UInt8.ofNat_toNat] at hb
  exact hb h

theorem dropWhile_isspace_digits (n : ℕ) : (digits n).dropWhile isspace = digits n := by
  cases hdigits : digits n with
  | nil => rfl
  | cons b s =>
    have hb : isDigit b = true := Decimal.isDigit_of_mem (n := n) (by rw [hdigits]; exact List.mem_cons_self)
    rw [List.dropWhile_cons, (isspace_of_isDigit hb).1, if_neg Bool.false_ne_true]

theorem readSign_digits (n : ℕ) : readSign (digits n) = (false, digits n) := by
  cases hdigits : digits n with
  | nil => rfl
  | cons b s =>
    have hb : isDigit b = true := Decimal.isDigit_of_mem (n := n) (by rw [hdigits]; exact List.mem_cons_self)
    obtain ⟨-, hminus, hplus⟩ := isspace_of_isDigit hb
    rw [readSign, if_neg hminus, if_neg hplus]

theorem value_takeWhile_digits (n : ℕ) : value ((digits n).takeWhile isDigit) = n := by
  rw [List.takeWhile_eq_self_iff.mpr fun b hb => Decimal.isDigit_of_mem hb, Decimal.value_digits]

/-- **An integer that is written is read again.** -/
theorem atoi_formatInt (integer : Int32) : atoi (formatInt integer) = integer := by
  have hlow := integer.le_toInt
  have hhigh := integer.toInt_lt
  have hstrtol : strtol (formatInt integer) = integer.toInt := by
    unfold strtol formatInt
    by_cases hneg : integer.toInt < 0
    · have hspace : (minus :: digits integer.toInt.natAbs).dropWhile isspace =
          minus :: digits integer.toInt.natAbs := rfl
      rw [if_pos hneg, hspace, readSign, if_pos rfl]
      simp only [value_takeWhile_digits, if_true]
      omega
    · rw [if_neg hneg, dropWhile_isspace_digits, readSign_digits]
      simp only [value_takeWhile_digits, Bool.false_eq_true, if_false]
      omega
  rw [atoi, hstrtol, Int32.ofInt_toInt]

/-! ### The declared options -/

/-- The `info` of an integer. -/
structure IntegerInfo where
  defaultValue : Option Bytes
  min : Int32
  max : Int32

/-- The `info` of a string; `maxLength` is 0 where there is no limit. -/
structure StringInfo where
  defaultValue : Option Bytes
  maxLength : ℕ

/-- The `info` of an enumeration; `enumCount` is the number of the strings. -/
structure EnumInfo where
  enumStrings : List Bytes
  defaultValue : UInt32

namespace Configuration

/-- `fcitx_configuration_get_value_by_path_with_default`; the configuration may be NULL. -/
def getValueByPathWithDefault (config : Option Configuration) (path : Bytes) (defaultValueUsr : Option Bytes)
    (defaultValueSys : Bytes) : Bytes :=
  match config.bind fun config => config.getValueByPath path with
  | some value => value
  | none => defaultValueUsr.getD defaultValueSys

/-- `fcitx_configuration_get_string` -/
def getString (config : Configuration) (path : Bytes) (info : StringInfo) : Bytes :=
  let value := getValueByPathWithDefault (some config) path info.defaultValue []
  if info.maxLength ≠ 0 ∧ value.length > info.maxLength then
    getValueByPathWithDefault none path info.defaultValue []
  else value

/-- `fcitx_configuration_set_string`; `none` is NULL. -/
def setString (config : Configuration) (path : Bytes) (str : Option Bytes) : Configuration :=
  match str with
  | none => config
  | some str => config.setValueByPath path (some str)

/-- The text `"0"`. -/
def zeroText : Bytes := [48]

/-- `fcitx_configuration_get_integer` -/
def getInteger (config : Configuration) (path : Bytes) (info : IntegerInfo) : Int32 :=
  let integerValue := atoi (getValueByPathWithDefault (some config) path info.defaultValue zeroText)
  if integerValue < info.min ∨ integerValue > info.max then
    atoi (getValueByPathWithDefault none path info.defaultValue zeroText)
  else integerValue

/-- `fcitx_configuration_set_integer` -/
def setInteger (config : Configuration) (path : Bytes) (integer : Int32) : Configuration :=
  config.setValueByPath path (some (formatInt integer))

/-- `fcitx_configuration_get_enum` -/
def getEnum (config : Configuration) (path : Bytes) (info : EnumInfo) : UInt32 :=
  match config.getValueByPath path with
  | none => info.defaultValue
  | some value =>
    let i := info.enumStrings.findIdx (· = value)
    if i = info.enumStrings.length then info.defaultValue else UInt32.ofNat i

/-- `fcitx_configuration_set_enum` -/
def setEnum (config : Configuration) (path : Bytes) (info : EnumInfo) (enumValue : UInt32) : Configuration :=
  match info.enumStrings[enumValue.toNat]? with
  | none => config
  | some text => config.setValueByPath path (some text)

end Configuration

/-! ### Constraints -/

/-- What an integer option allows. -/
def IntegerInfo.Meets (info : IntegerInfo) (integer : Int32) : Prop := info.min ≤ integer ∧ integer ≤ info.max

instance integerMeetsDecidable (info : IntegerInfo) (integer : Int32) : Decidable (info.Meets integer) :=
  inferInstanceAs (Decidable (_ ∧ _))

/-- The value of an integer option that nothing is stored for. -/
def IntegerInfo.default (info : IntegerInfo) : Int32 := atoi (info.defaultValue.getD Configuration.zeroText)

/-- What a string option allows. -/
def StringInfo.Meets (info : StringInfo) (str : Bytes) : Prop :=
  info.maxLength = 0 ∨ str.length ≤ info.maxLength

/-- The value of a string option that nothing is stored for. -/
def StringInfo.default (info : StringInfo) : Bytes := info.defaultValue.getD []

/-- What an enumeration allows. -/
def EnumInfo.Meets (info : EnumInfo) (enumValue : UInt32) : Prop := enumValue.toNat < info.enumStrings.length

namespace Configuration

/-- **What is set at a path is found there.** -/
theorem getValueByPath_setValueByPath {config : Configuration} (h : config.Distinct) (path : Bytes)
    (value : Option Bytes) : (config.setValueByPath path value).getValueByPath path = value := by
  rw [getValueByPath_eq, (values_setValueByPath h path value).2, PathMap.setValue, Function.update_self]

theorem getValueByPathWithDefault_of_some {config : Configuration} {path text : Bytes}
    (h : config.getValueByPath path = some text) (usr : Option Bytes) (sys : Bytes) :
    getValueByPathWithDefault (some config) path usr sys = text := by
  rw [getValueByPathWithDefault, Option.bind_some, h]

theorem getValueByPathWithDefault_of_none {config : Configuration} {path : Bytes}
    (h : config.getValueByPath path = none) (usr : Option Bytes) (sys : Bytes) :
    getValueByPathWithDefault (some config) path usr sys = usr.getD sys := by
  rw [getValueByPathWithDefault, Option.bind_some, h]

/-! ### Integers -/

/-- The value of an integer option: that of the stored text, if it is allowed. -/
theorem getInteger_cases (config : Configuration) (path : Bytes) (info : IntegerInfo) :
    config.getInteger path info = info.default ∨
      ∃ text, config.getValueByPath path = some text ∧ info.Meets (atoi text) ∧
        config.getInteger path info = atoi text := by
  have hmeets : ∀ x : Int32, ¬ (x < info.min ∨ x > info.max) ↔ info.Meets x := by
    intro x
    rw [not_or, Int32.not_lt, gt_iff_lt, Int32.not_lt]
    rfl
  unfold getInteger
  dsimp only
  cases htext : config.getValueByPath path with
  | none =>
    rw [getValueByPathWithDefault_of_none htext, getValueByPathWithDefault, Option.bind_none]
    exact Or.inl (ite_self _)
  | some text =>
    rw [getValueByPathWithDefault_of_some htext]
    split
    · exact Or.inl rfl
    · next hin => exact Or.inr ⟨text, rfl, (hmeets _).mp hin, rfl⟩

theorem getInteger_of_meets {config : Configuration} {path text : Bytes} {info : IntegerInfo}
    (htext : config.getValueByPath path = some text) (h : info.Meets (atoi text)) :
    config.getInteger path info = atoi text := by
  unfold getInteger
  dsimp only
  rw [getValueByPathWithDefault_of_some htext, if_neg]
  rw [not_or, Int32.not_lt, gt_iff_lt, Int32.not_lt]
  exact h

/-! ### Strings -/

theorem getString_cases (config : Configuration) (path : Bytes) (info : StringInfo) :
    config.getString path info = info.default ∨
      ∃ text, config.getValueByPath path = some text ∧ info.Meets text ∧ config.getString path info = text := by
  unfold getString
  dsimp only
  cases htext : config.getValueByPath path with
  | none =>
    rw [getValueByPathWithDefault_of_none htext, getValueByPathWithDefault, Option.bind_none]
    exact Or.inl (ite_self _)
  | some text =>
    rw [getValueByPathWithDefault_of_some htext]
    split
    · exact Or.inl rfl
    · next hin =>
      refine Or.inr ⟨text, rfl, ?_, rfl⟩
      unfold StringInfo.Meets
      omega

theorem getString_of_meets {config : Configuration} {path text : Bytes} {info : StringInfo}
    (htext : config.getValueByPath path = some text) (h : info.Meets text) :
    config.getString path info = text := by
  unfold StringInfo.Meets at h
  unfold getString
  dsimp only
  rw [getValueByPathWithDefault_of_some htext, if_neg]
  omega

/-! ### Enumerations -/

theorem getEnum_cases (config : Configuration) (path : Bytes) (info : EnumInfo) :
    config.getEnum path info = info.defaultValue ∨
      ∃ i < info.enumStrings.length, ∃ text, config.getValueByPath path = some text ∧
        text ∈ info.enumStrings ∧ config.getEnum path info = UInt32.ofNat i := by
  unfold getEnum
  cases htext : config.getValueByPath path with
  | none => exact Or.inl rfl
  | some text =>
    dsimp only
    split
    · exact Or.inl rfl
    · next hfound =>
      have hlt : info.enumStrings.findIdx (· = text) < info.enumStrings.length :=
        Nat.lt_of_le_of_ne List.findIdx_le_length hfound
      obtain ⟨str, hstr, heq⟩ := List.findIdx_lt_length.mp hlt
      refine Or.inr ⟨_, hlt, text, rfl, ?_, rfl⟩
      rw [← of_decide_eq_true heq]
      exact hstr

/-- A string of the enumeration is found at its place. -/
theorem getEnum_of_getElem {config : Configuration} {path text : Bytes} {info : EnumInfo}
    (hnd : info.enumStrings.Nodup) (htext : config.getValueByPath path = some text) {enumValue : UInt32}
    (h : info.enumStrings[enumValue.toNat]? = some text) : config.getEnum path info = enumValue := by
  obtain ⟨hlt, hget⟩ := List.getElem?_eq_some_iff.mp h
  have hidx : info.enumStrings.findIdx (· = text) = enumValue.toNat := by
    rw [List.findIdx_eq hlt]
    refine ⟨decide_eq_true hget, fun j hj => decide_eq_false fun heq => ?_⟩
    have hplace := (List.Nodup.getElem_inj_iff hnd).mp (heq.trans hget.symm)
    omega
  rw [getEnum, htext]
  dsimp only
  rw [hidx, if_neg (by omega), UInt32.ofNat_toNat]

/-! ### What is stored is kept, and what is read is allowed -/

/-- What holds of an integer option at a path. -/
structure IntegerLaw (config : Configuration) (path : Bytes) (info : IntegerInfo) : Prop where
  /-- an allowed integer is returned as it was set -/
  kept : ∀ integer, info.Meets integer → (config.setInteger path integer).getInteger path info = integer
  /-- what is returned is allowed -/
  meets : info.Meets info.default → info.Meets (config.getInteger path info)
  /-- a stored text that is not allowed counts as the default -/
  default : ∀ text, config.getValueByPath path = some text → ¬ info.Meets (atoi text) →
    config.getInteger path info = info.default

/-- What holds of a string option at a path. -/
structure StringLaw (config : Configuration) (path : Bytes) (info : StringInfo) : Prop where
  kept : ∀ str, info.Meets str → (config.setString path (some str)).getString path info = str
  meets : info.Meets info.default → info.Meets (config.getString path info)
  default : ∀ text, config.getValueByPath path = some text → ¬ info.Meets text →
    config.getString path info = info.default

/-- What holds of an enumeration at a path. -/
structure EnumLaw (config : Configuration) (path : Bytes) (info : EnumInfo) : Prop where
  kept : info.enumStrings.Nodup → ∀ enumValue, info.Meets enumValue →
    (config.setEnum path info enumValue).getEnum path info = enumValue
  meets : info.Meets info.defaultValue → info.Meets (config.getEnum path info)
  default : ∀ text, config.getValueByPath path = some text → text ∉ info.enumStrings →
    config.getEnum path info = info.defaultValue

theorem integerLaw {config : Configuration} (h : config.Distinct) (path : Bytes) (info : IntegerInfo) :
    config.IntegerLaw path info where
  kept integer hmeets := by
    have htext := getValueByPath_setValueByPath h path (some (formatInt integer))
    have hatoi := atoi_formatInt integer
    have hget := getInteger_of_meets htext (by rw [hatoi]; exact hmeets)
    rw [setInteger, hget, hatoi]
  meets hdefault := by
    rcases config.getInteger_cases path info with heq | ⟨text, -, hmeets, heq⟩
    · rw [heq]
      exact hdefault
    · rw [heq]
      exact hmeets
  default text htext hnot := by
    rcases config.getInteger_cases path info with heq | ⟨text', htext', hmeets, -⟩
    · exact heq
    · rw [htext] at htext'
      rw [Option.some.inj htext'] at hnot
      exact absurd hmeets hnot

theorem stringLaw {config : Configuration} (h : config.Distinct) (path : Bytes) (info : StringInfo) :
    config.StringLaw path info where
  kept str hmeets := getString_of_meets (getValueByPath_setValueByPath h path (some str)) hmeets
  meets hdefault := by
    rcases config.getString_cases path info with heq | ⟨text, -, hmeets, heq⟩
    · rw [heq]
      exact hdefault
    · rw [heq]
      exact hmeets
  default text htext hnot := by
    rcases config.getString_cases path info with heq | ⟨text', htext', hmeets, -⟩
    · exact heq
    · rw [htext] at htext'
      rw [Option.some.inj htext'] at hnot
      exact absurd hmeets hnot

theorem enumLaw {config : Configuration} (h : config.Distinct) (path : Bytes) (info : EnumInfo) :
    config.EnumLaw path info where
  kept hnd enumValue hmeets := by
    obtain ⟨text, hstr⟩ : ∃ text, info.enumStrings[enumValue.toNat]? = some text :=
      ⟨_, List.getElem?_eq_getElem hmeets⟩
    have htext := getValueByPath_setValueByPath h path (some text)
    rw [setEnum, hstr]
    exact getEnum_of_getElem hnd htext hstr
  meets hdefault := by
    rcases config.getEnum_cases path info with heq | ⟨i, hi, -, -, -, heq⟩
    · rw [heq]
      exact hdefault
    · have hle : (UInt32.ofNat i).toNat ≤ i := by
        rw [UInt32.toNat_ofNat']
        exact Nat.mod_le i _
      rw [heq]
      exact Nat.lt_of_le_of_lt hle hi
  default text htext hnot := by
    rcases config.getEnum_cases path info with heq | ⟨-, -, text', htext', hmem, -⟩
    · exact heq
    · rw [htext] at htext'
      rw [Option.some.inj htext'] at hnot
      exact absurd hmem hnot

/-- **Options keep their values and their ranges**, whatever is in the configuration before. -/
theorem options_kept (config : Configuration) (h : config.Distinct) (path : Bytes) :
    (∀ info, config.IntegerLaw path info) ∧ (∀ info, config.StringLaw path info) ∧
      ∀ info, config.EnumLaw path info :=
  ⟨fun info => integerLaw h path info, fun info => stringLaw h path info, fun info => enumLaw h path info⟩

theorem options_kept_least :
    ((Configuration.new none).setInteger [97] Int32.minValue).getInteger [97]
      ⟨none, Int32.minValue, Int32.maxValue⟩ = Int32.minValue :=
  ((options_kept (Configuration.new none) KeyTree.distinct_leaf [97]).1 _).kept _ (by decide)

end Configuration
end Fcitx
