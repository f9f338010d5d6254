/-
# INI files

`fcitx-config/iniparser.c`: reading a configuration from a text, line by line,
and writing one. A group is the path of the options that follow it, and an
option sets a value; a line that is neither, or whose value cannot be unescaped,
is skipped. The writer visits a node and then its subitems; where it writes to
the NULL buffer of `fcitx_configuration_foreach` it gives `none`.

Key definitions: `unescapeString`, `iniLine`, `iniParse`, `iniForeachOptionCallback`,
`iniForeachCallback`, `iniPrint`.
Key theorems: `iniParse_eq`.
-/
import Fcitx.Config.Foreach

namespace Fcitx

def newline : UInt8 := 10

def quote : UInt8 := 34

def backslash : UInt8 := 92

/-! ### Reading -/

/-- The states of `_unescape_string`. -/
inductive UnescapeState where
  | normal
  | escape
  deriving DecidableEq

/-- `unescape_map` -/
def unescapeMap (c : UInt8) : UInt8 := if c = 110 then newline else c

/-- The loop of `_unescape_string`; `none` is `return false`. -/
def unescapeLoop (unescapeQuote : Bool) : UnescapeState → Bytes → Option Bytes
  | .normal, [] => some []
  | .escape, [] => none
  | .normal, c :: str =>
    if c = backslash then unescapeLoop unescapeQuote .escape str
    else (unescapeLoop unescapeQuote .normal str).map (c :: ·)
  | .escape, c :: str =>
    if c = backslash ∨ c = 110 ∨ (c = quote ∧ unescapeQuote = true) then
      (unescapeLoop unescapeQuote .normal str).map (unescapeMap c :: ·)
    else none

/-- `_unescape_string` -/
def unescapeString (str : Bytes) (unescapeQuote : Bool) : Option Bytes :=
  unescapeLoop unescapeQuote .normal str

/-- What `getline` gives, call after call. -/
def getlines : Bytes → List Bytes
  | [] => []
  | c :: text =>
    if c = newline then [c] :: getlines text
    else
      match getlines text with
      | [] => [[c]]
      | line :: lines => (c :: line) :: lines

/-- What a line of the file is. -/
inductive IniLine where
  | skip
  | group (name : Bytes)
  | option (name value : Bytes)
  deriving DecidableEq

/-- Whether a value has a quote at both ends. -/
def isQuoted (value : Bytes) : Bool :=
  2 ≤ value.length && value.head? = some quote && value.getLast? = some quote

/-- The value behind the `=`: without the quotes at its ends, and unescaped. -/
def readValue (value : Bytes) : Option Bytes :=
  if isQuoted value then unescapeString (value.drop 1).dropLast true else unescapeString value false

/-- What `fcitx_ini_parse` makes of a line. -/
def iniLine (lineBuf : Bytes) : IniLine :=
  let line := inplaceTrim (cString lineBuf)
  if line.head? = some 35 then .skip
  else if line.head? = some 91 ∧ line.getLast? = some 93 then .group (line.drop 1).dropLast
  else if 61 ∈ line then
    match readValue ((line.dropWhile (· ≠ 61)).drop 1) with
    | none => .skip
    | some value => .option (line.takeWhile (· ≠ 61)) value
  else .skip

/-- `fcitx_ini_parse` between two lines. -/
structure IniParser where
  config : Configuration
  currentGroup : Option Bytes

/-- The path of an option: `"%s/%s"`, or its name where there is no group. -/
def optionPath (currentGroup : Option Bytes) (name : Bytes) : Bytes :=
  match currentGroup with
  | some group => group ++ slash :: name
  | none => name

namespace IniParser

/-- One round of the loop. -/
def read (s : IniParser) (lineBuf : Bytes) : IniParser :=
  match iniLine lineBuf with
  | .skip => s
  | .group name => { s with currentGroup := Configuration.stringSwap s.currentGroup (some name) }
  | .option name value =>
    { s with config := s.config.setValueByPath (optionPath s.currentGroup name) (some value) }

end IniParser

/-- `fcitx_ini_parse` on a file with this text. -/
def iniParse (text : Bytes) (config : Configuration) : Configuration :=
  ((getlines text).foldl IniParser.read ⟨config, none⟩).config

/-- A fresh configuration. -/
def freshConfiguration : Configuration := Configuration.new none

/-- The options of a file with their paths, in order. -/
def iniOptions (currentGroup : Option Bytes) : List Bytes → List (Bytes × Bytes)
  | [] => []
  | lineBuf :: lines =>
    match iniLine lineBuf with
    | .skip => iniOptions currentGroup lines
    | .group name => iniOptions (some name) lines
    | .option name value => (optionPath currentGroup name, value) :: iniOptions currentGroup lines

/-! ### Writing -/

/-- `_fcitx_ini_has_sub_value_callback` -/
def iniHasSubValueCallback : ForeachCallback Bool := fun config _ hasSubValue =>
  some (hasSubValue || config.data.value.isSome)

/-- Replace one byte by a backslash and `after`, where it is found. -/
def escapeByte (beyond : Bytes → ℕ → UInt8) (before after : UInt8) (value : Bytes) : Bytes :=
  (stringReplace value [before] [backslash, after] (beyond value)).getD value

/-- `strpbrk(value, "\f\r\t\v ")` -/
def needQuote (value : Bytes) : Bool := value.any fun c => c ∈ ([12, 13, 9, 11, 32] : Bytes)

/-- The value as `_fcitx_ini_foreach_option_callback` writes it. -/
def writeValue (beyond : Bytes → ℕ → UInt8) (value : Bytes) : Bytes :=
  let value := escapeByte beyond backslash backslash value
  let value := escapeByte beyond newline 110 value
  if needQuote value then quote :: escapeByte beyond quote quote value ++ [quote] else value

/-- The line of a comment, which has to be on one line. -/
def writeComment : Option Bytes → Bytes
  | some comment => if newline ∈ comment then [] else [35, 32] ++ comment ++ [newline]
  | none => []

/-- `%s` of a name -/
def formatName : Option Bytes → Bytes
  | some name => name
  | none => "(null)".toUTF8.toList

/-- `_fcitx_ini_foreach_option_callback`; the state is what was written to the file. -/
def iniForeachOptionCallback (beyond : Bytes → ℕ → UInt8) : ForeachCallback Bytes := fun config _ fp =>
  match config.data.value with
  | none => some fp
  | some value =>
    some (fp ++ writeComment config.data.comment ++
      (formatName config.data.name ++ 61 :: writeValue beyond value ++ [newline]))

/-- The line of a group. -/
def writeGroup (path : Bytes) : Bytes := if path = [] then [] else 91 :: path ++ [93, newline]

/-- `_fcitx_ini_foreach_callback`, to a given depth. -/
def iniForeachCallback (beyond : Bytes → ℕ → UInt8) : ℕ → ForeachCallback Bytes
  | 0, _, _, _ => none
  | depth + 1, config, path, fp =>
    (Configuration.foreach config [] [] iniHasSubValueCallback false).bind fun hasSubValue =>
      (if hasSubValue then
          Configuration.foreach config [] [] (iniForeachOptionCallback beyond) (fp ++ writeGroup path)
        else some fp).bind fun fp =>
          Configuration.foreach config [] path (iniForeachCallback beyond depth) fp

/-- `fcitx_ini_print`: what is written to the file. -/
def iniPrint (beyond : Bytes → ℕ → UInt8) (config : Configuration) : Option Bytes :=
  iniForeachCallback beyond (config.height + 1) config [] []

/-! ### What is read -/

theorem foldl_read (lines : List Bytes) (s : IniParser) :
    (lines.foldl IniParser.read s).config =
      (iniOptions s.currentGroup lines).foldl (fun config o => config.setValueByPath o.1 (some o.2)) s.config := by
  induction lines generalizing s with
  | nil => rfl
  | cons lineBuf lines ih =>
    rw [List.foldl_cons, ih, IniParser.read, iniOptions]
    cases iniLine lineBuf with
    | skip => rfl
    | group name =>
      dsimp only
      rw [Configuration.stringSwap_eq]
    | option name value => rfl

/-- **Reading sets the values of the options, in order.** -/
theorem iniParse_eq (text : Bytes) (config : Configuration) :
    iniParse text config = (iniOptions none (getlines text)).foldl
      (fun config o => config.setValueByPath o.1 (some o.2)) config :=
  foldl_read (getlines text) ⟨config, none⟩

end Fcitx
