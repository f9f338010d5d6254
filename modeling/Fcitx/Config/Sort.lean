/-
# Sorting the subitems of a node

`fcitx_configuration_sort` of `fcitx-config/configuration.c` sorts the dictionary
of the node that a path leads to, by the names of the subitems or by a callback on
the subitems. It does not ask whether there is a dictionary, which is made with
the first subitem: the other functions do.

Key definitions: `Configuration.sort`, `Configuration.Reordered`.
Key theorems: `Configuration.sort_eq`, `Configuration.reordered_modify`,
`Configuration.sort_iff`.
-/
import Fcitx.Config.PathMap
import Fcitx.Utils.DictSort

namespace Fcitx
namespace Configuration

open KeyTree

/-- `FcitxConfigurationCompareCallback`, of which only the sign counts. -/
abbrev CompareCallback := Configuration → Configuration → ℤ

/-- `_fcitx_configuration_compare` -/
def _compare (callback : CompareCallback) : DictCompareFunc Configuration := fun _ dataA _ dataB =>
  callback dataA dataB

/-- `fcitx_configuration_sort`; `none` is a read through the NULL dictionary. -/
def sort (hashSort : HashSort (Bytes × Configuration)) (root : Configuration) (path : Bytes)
    (compare : Option CompareCallback) : Option Configuration :=
  match root.get path with
  | none => some root
  | some config =>
    ((root.find config).bind fun node => dictSort hashSort node.children (compare.map _compare)).map fun subitems =>
      root.modify (setChildren subitems) config

def order (compare : Option CompareCallback) : Bytes × Configuration → Bytes × Configuration → ℤ :=
  itemCompare ((compare.map _compare).getD itemDefaultCompare)

/-- What sorting the subitems of a node is for: they are the same subtrees in the order of the comparison,
and every other thing is as it was. -/
structure Reordered (root : Configuration) (config : NodePtr) (compare : Option CompareCallback)
    (root' : Configuration) : Prop where
  subitems : ∃ node node' : Configuration, root.find config = some node ∧ root'.find config = some node' ∧
    StablySorted (order compare) node.entries node'.entries ∧
      (compare = none → (Assoc.keys node'.entries).Pairwise (· ≤ ·))
  strings : ∀ ptr, root'.dataAt ptr = root.dataAt ptr
  values : ∀ path, root'.getValueByPath path = root.getValueByPath path

theorem sort_eq (hashSort : HashSort (Bytes × Configuration)) {root : Configuration} {path : Bytes}
    (compare : Option CompareCallback) {config : NodePtr} {node : Configuration} (hget : root.get path = some config)
    (hfind : root.find config = some node) : root.sort hashSort path compare =
      node.children.map fun subitems =>
        root.modify (setChildren (hashSort.sort (order compare) subitems)) config := by
  unfold Configuration.sort
  rw [hget]
  dsimp only
  rw [hfind, Option.bind_some, dictSort, Option.map_map]
  rfl

/-- **A sorted table is only a new order** of the subitems. -/
theorem reordered_modify {root : Configuration} (h : root.Distinct) (compare : Option CompareCallback)
    {config : NodePtr} {node : Configuration} (hfind : root.find config = some node)
    {subitems : List (Bytes × Configuration)} (hsorted : StablySorted (order compare) node.entries subitems) :
    Reordered root config compare (root.modify (setChildren subitems) config) := by
  have hstrings : ∀ ptr, (root.modify (setChildren subitems) config).dataAt ptr = root.dataAt ptr := fun ptr =>
    dataAt_setChildren h hfind hsorted.perm
  have hnode : (root.modify (setChildren subitems) config).find config = some (setChildren subitems node) := by
    rw [find_modify, hfind, Option.map_some]
  refine ⟨⟨node, setChildren subitems node, hfind, hnode, hsorted, fun hnone => ?_⟩, hstrings, fun path => ?_⟩
  · subst hnone
    exact hsorted.keys
  · rw [getValueByPath_eq, getValueByPath_eq, values, values, hstrings]

/-- **Sorting only reorders**, exactly if a dictionary of subitems was made for the node. -/
theorem sort_iff (hashSort : HashSort (Bytes × Configuration)) (root : Configuration) (h : root.Distinct)
    (path : Bytes) (compare : Option CompareCallback) {config : NodePtr} {node : Configuration}
    (hget : root.get path = some config) (hfind : root.find config = some node) :
    (∃ root', root.sort hashSort path compare = some root' ∧ Reordered root config compare root') ↔
      node.children ≠ none := by
  rw [sort_eq hashSort compare hget hfind]
  constructor
  · intro ⟨root', hsort, _⟩ hnull
    rw [hnull] at hsort
    cases hsort
  · intro hchildren
    obtain ⟨subitems, hsubitems⟩ := Option.ne_none_iff_exists'.mp hchildren
    have hentries : node.entries = subitems := by rw [entries, hsubitems, Option.getD_some]
    refine ⟨_, by rw [hsubitems, Option.map_some], ?_⟩
    rw [← hentries]
    exact reordered_modify h compare hfind (hashSort.sorted (order compare) node.entries)

theorem sort_iff_two :
    let root : Configuration := .node ⟨none, none, none⟩ (some
      [([98], .node ⟨some [98], none, none⟩ none), ([97], .node ⟨some [97], none, none⟩ none)])
    ∃ root', root.sort HashSort.uthash [] none = some root' ∧ Reordered root [] none root' := by
  intro root
  have hd : root.Distinct := by
    have hfirst : (insertChild [98] ⟨some [98], none, none⟩ (Configuration.new none)).Distinct :=
      distinct_leaf.insertChild rfl
    exact hfirst.insertChild rfl
  have hget : root.get [] = some [] := by
    rw [get_eq, segments_nil]
    rfl
  exact (sort_iff HashSort.uthash root hd [] none hget rfl).mpr (Option.some_ne_none _)

/-- A node without subitems has no dictionary that could be sorted. -/
theorem not_reordered_leaf :
    ¬ ∀ (hashSort : HashSort (Bytes × Configuration)) (root : Configuration) (path : Bytes)
      (compare : Option CompareCallback) (config : NodePtr), root.Distinct → root.get path = some config →
        ∃ root', root.sort hashSort path compare = some root' ∧ Reordered root config compare root' := by
  intro hall
  have hget : (Configuration.new none).get [] = some [] := by
    rw [get_eq, segments_nil]
    rfl
  obtain ⟨root', hsort, -⟩ := hall HashSort.uthash (Configuration.new none) [] none [] distinct_leaf hget
  rw [sort_eq HashSort.uthash none hget rfl] at hsort
  cases hsort

end Configuration
end Fcitx
