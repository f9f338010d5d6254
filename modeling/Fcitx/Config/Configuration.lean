/-
# The configuration tree

`fcitx-config/configuration.c`: a configuration is a tree whose nodes have a
name, a value and a comment, and a dictionary of subitems that is made with the
first of them. A pointer to a node below a root is the list of the keys that
lead to it.

Key definitions: `Configuration`, `Configuration._get`, `Configuration.remove`,
`Configuration.setValueByPath`, `Configuration.getValueByPath`.
-/
import Fcitx.Lib.KeyTree
import Fcitx.Utils.Utf8

namespace Fcitx

/-- The strings of a node; `none` is NULL. -/
structure ConfigurationStrings where
  name : Option Bytes
  value : Option Bytes
  comment : Option Bytes
deriving DecidableEq

/-- `FcitxConfiguration`, with the dictionary as an insertion-ordered map. -/
abbrev Configuration := KeyTree Bytes ConfigurationStrings

/-- A pointer to a node of a tree. -/
abbrev NodePtr := List Bytes

/-- `'/'` -/
def slash : UInt8 := 47

/-- The text up to the next slash. -/
def segOf (path : Bytes) : Bytes := path.takeWhile (· != slash)

/-- `strchrnul(path, '/')` -/
def strchrnulSlash (path : Bytes) : Bytes := path.dropWhile (· != slash)

/-- The start of a round: `path++` if it is at a slash. -/
def skipSlash : Bytes → Bytes
  | [] => []
  | b :: path => if b = slash then path else b :: path

theorem strchrnulSlash_skipSlash (b : UInt8) (path : Bytes) :
    (strchrnulSlash (skipSlash (b :: path))).length < (b :: path).length := by
  have hle : ∀ l : Bytes, (strchrnulSlash l).length ≤ l.length := fun l =>
    (List.dropWhile_suffix _).sublist.length_le
  rw [skipSlash, List.length_cons]
  split
  · exact Nat.lt_succ_of_le (hle path)
  · next hb =>
    have hdrop : strchrnulSlash (b :: path) = strchrnulSlash path := by
      rw [strchrnulSlash, List.dropWhile_cons, if_pos (by simpa using hb)]
      rfl
    rw [hdrop]
    exact Nat.lt_succ_of_le (hle path)

namespace Configuration

/-- `fcitx_configuration_new` -/
def new (name : Option Bytes) : Configuration := .node ⟨name, none, none⟩ none

/-- What `_fcitx_configuration_get` returns and sets, and the tree afterwards. -/
structure GetResult where
  root : Configuration
  config : Option NodePtr
  parent : Option NodePtr
  lastPath : Bytes

/-- The loop of `_fcitx_configuration_get`: `config`, `parent`, `lastPath` and
`path` are its variables. -/
def getLoop (createPath : Bool) (root : Configuration) (config : NodePtr) (parent : Option NodePtr)
    (lastPath : Bytes) : Bytes → GetResult
  | [] => ⟨root, some config, parent, lastPath⟩
  | b :: bs =>
    let path := skipSlash (b :: bs)
    if (root.find (config ++ [segOf path])).isSome then
      getLoop createPath root (config ++ [segOf path]) (some config) path (strchrnulSlash path)
    else if createPath then
      getLoop createPath
        (root.modify (KeyTree.insertChild (segOf path) ⟨some (segOf path), none, none⟩) config)
        (config ++ [segOf path]) (some config) path (strchrnulSlash path)
    else
      ⟨root, none, some config, path⟩
termination_by path => path.length
decreasing_by
  all_goals exact strchrnulSlash_skipSlash b bs

/-- `_fcitx_configuration_get` -/
def _get (root : Configuration) (path : Bytes) (createPath : Bool) : GetResult :=
  getLoop createPath root [] none [] path

/-- `fcitx_configuration_get` without making the path. -/
def get (root : Configuration) (path : Bytes) : Option NodePtr := (root._get path false).config

/-- `fcitx_configuration_remove`; without a parent it reads through NULL. The
subitem is found by the rest of the path as a string. -/
def remove (root : Configuration) (path : Bytes) : Option Configuration :=
  let result := root._get path false
  if result.config.isNone then some root
  else result.parent.map fun parent => root.modify (KeyTree.eraseChild result.lastPath) parent

/-- `fcitx_utils_string_swap`: nothing is done for the string that is there. -/
def stringSwap (obj str : Option Bytes) : Option Bytes := if obj = str then obj else str

theorem stringSwap_eq (obj str : Option Bytes) : stringSwap obj str = str := by
  unfold stringSwap
  split
  · next h => exact h
  · rfl

/-- `fcitx_configuration_set_value` on a node -/
def setValue (value : Option Bytes) (config : Configuration) : Configuration :=
  config.setData { config.data with value := stringSwap config.data.value value }

/-- `fcitx_configuration_get_value` -/
def getValue (config : Configuration) : Option Bytes := config.data.value

/-- `fcitx_configuration_set_value_by_path` -/
def setValueByPath (root : Configuration) (path : Bytes) (value : Option Bytes) : Configuration :=
  let result := root._get path true
  match result.config with
  | some config => result.root.modify (setValue value) config
  | none => result.root

/-- `fcitx_configuration_get_value_by_path` -/
def getValueByPath (root : Configuration) (path : Bytes) : Option Bytes :=
  ((root.get path).bind root.find).bind getValue

end Configuration

end Fcitx
