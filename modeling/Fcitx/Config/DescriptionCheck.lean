/-
# Which descriptions are accepted

What `fcitx_description_parse` finds depends on what the options are, and not on
where they stand. It comes back unless the first option of a group has no name. A
description is accepted if each option has a type, and each list an element type
that is not a list again; and a group stays on the top level if no list has it for
its elements.

Key definitions: `groups`, `AllTyped`, `elementTypes`.
Key theorems: `descriptionParse_isSome`, `descriptionParse_iff`.
-/
import Fcitx.Config.Description
import Fcitx.Config.Paths

namespace Fcitx

open Fcitx.Configuration (subPath)

/-! ### The rules for a description -/

/-- The top-level nodes but `DescriptionFile`. -/
def groups (root : Configuration) : List (Bytes × Configuration) :=
  root.entries.filter fun group => group.1 ≠ "DescriptionFile".toUTF8.toList

/-- The names of the groups. -/
def groupNames (root : Configuration) : List Bytes := Assoc.keys (groups root)

/-- Every option of every group is typed. -/
def AllTyped (element : Bytes → Prop) (root : Configuration) : Prop :=
  ∀ group ∈ groups root, ∀ option ∈ group.2.entries, TypedOption element option.2

/-- What is accepted for the elements, but a group that is named like the type of the lists is a group. -/
def ElementTypeOrGroup (structs : List Bytes) (subType : Bytes) : Prop :=
  (isBuiltinType subType = true ∧ subType ≠ "List".toUTF8.toList) ∨ subType ∈ structs

/-- What the lists of a description have for their elements. -/
def elementTypes (root : Configuration) : List Bytes :=
  (groups root).flatMap fun group => group.2.entries.filterMap fun option => elementTypeOf option.2

section decidable

variable {element : Bytes → Prop} [DecidablePred element]

instance typedOptionDecidable (option : Configuration) : Decidable (TypedOption element option) :=
  inferInstanceAs (Decidable (_ ∧ _))

instance allTypedDecidable (root : Configuration) : Decidable (AllTyped element root) :=
  inferInstanceAs (Decidable (∀ group ∈ groups root, ∀ option ∈ group.2.entries, TypedOption element option.2))

end decidable

instance elementTypeDecidable (structs : List Bytes) : DecidablePred (ElementType structs) := fun _ =>
  inferInstanceAs (Decidable (_ ∧ _))

instance elementTypeOrGroupDecidable (structs : List Bytes) : DecidablePred (ElementTypeOrGroup structs) := fun _ =>
  inferInstanceAs (Decidable (_ ∨ _))

/-! ### The groups -/

section groups

variable {root : Configuration}

theorem foldlM_findStructs (entries : List (Bytes × Configuration)) (hnd : (Assoc.keys entries).Nodup)
    (hzero : ∀ group ∈ entries, 0 ∉ group.1) {desc : Description}
    (hfresh : ∀ group ∈ entries, group.1 ∉ desc.structs) :
    entries.foldlM (fun desc item => findStructsCallback item.2 (cString (subPath [] item.1)) desc) desc =
      some { desc with
        structs := desc.structs ++
          Assoc.keys (entries.filter fun group => group.1 ≠ "DescriptionFile".toUTF8.toList) } := by
  induction entries generalizing desc with
  | nil =>
    rw [List.filter_nil]
    simp [Assoc.keys]
  | cons group entries ih =>
    obtain ⟨hgroup, hnd'⟩ := List.nodup_cons.mp hnd
    obtain ⟨hzero₀, hzero'⟩ := List.forall_mem_cons.mp hzero
    obtain ⟨hfresh₀, hfresh'⟩ := List.forall_mem_cons.mp hfresh
    have hpath : cString (subPath [] group.1) = group.1 := cString_of_noZero hzero₀
    rw [List.foldlM_cons, hpath, findStructsCallback, List.filter_cons]
    by_cases hfile : group.1 = "DescriptionFile".toUTF8.toList
    · rw [if_pos hfile, if_neg (by simpa using hfile)]
      exact ih hnd' hzero' hfresh'
    · rw [if_neg hfile, if_neg hfresh₀, if_pos (decide_eq_true hfile)]
      have hfresh'' : ∀ g ∈ entries, g.1 ∉ desc.structs ++ [group.1] := by
        intro g hg hmem
        rcases List.mem_append.mp hmem with hmem | hmem
        · exact hfresh' g hg hmem
        · exact hgroup (List.mem_map.mpr ⟨g, hg, List.mem_singleton.mp hmem⟩)
      refine (ih hnd' hzero' hfresh'').trans ?_
      simp [Assoc.keys]

/-- The keys of a node are paths of one segment. -/
theorem entry_key (h : root.WellFormed) {group : Bytes × Configuration} (hgroup : group ∈ root.entries) :
    root.child group.1 = some group.2 ∧ slash ∉ group.1 ∧ 0 ∉ group.1 := by
  have hchild : root.child group.1 = some group.2 := h.distinct.child_of_mem hgroup
  have hfind : (root.find [group.1]).isSome = true := by
    rw [Configuration.find_singleton, hchild]
    rfl
  exact ⟨hchild, h.segmentKeys [group.1] hfind group.1 List.mem_cons_self⟩

theorem attributes_eq (h : root.WellFormed) {group : Bytes × Configuration} (hgroup : group ∈ root.entries)
    (hname : group.1 ≠ []) : attributes root group.1 = group.2.entries := by
  obtain ⟨hchild, hslash, -⟩ := entry_key h hgroup
  rw [attributes, Configuration.get_segment hname hslash, hchild]

/-- The loop over a group comes back, unless its first option has no name. -/
theorem structsForeach_isSome (h : root.WellFormed) {group : Bytes × Configuration} (hgroup : group ∈ root.entries)
    (hname : group.1 ≠ []) (desc : Description) :
    (structsForeach root desc group.1).isSome = true ↔ ¬ group.2.NullBuffer [] := by
  obtain ⟨hchild, hslash, -⟩ := entry_key h hgroup
  rw [structsForeach, Configuration.foreach, Configuration.get_segment hname hslash, hchild]
  dsimp only
  rw [Configuration._foreach_isSome, Configuration.NullBuffer, and_iff_right rfl]
  intro option path desc
  obtain ⟨desc', heq, -⟩ := structAttributeForeach_checked option path desc
  rw [heq]
  rfl

/-- What is found before the options are checked. -/
theorem descriptionParse_eq (h : root.WellFormed) (hnames : ∀ group ∈ root.entries, group.1 ≠ []) :
    descriptionParse root = findTopLevelStructs root
      ⟨none, root.getValueByPath "DescriptionFile/LocaleDomain".toUTF8.toList, groupNames root, []⟩ := by
  have hnull : ¬ root.NullBuffer [] := by
    intro hempty
    obtain ⟨group, hgroup, hname⟩ := List.mem_map.mp (List.mem_of_mem_head? hempty.2)
    exact hnames group hgroup hname
  unfold descriptionParse
  dsimp only
  rw [Configuration.foreach_nil, Configuration._foreach_eq, if_neg hnull,
    foldlM_findStructs root.entries h.distinct.nodup (fun group hgroup => (entry_key h hgroup).2.2)]
  · rfl
  · exact fun _ _ => List.not_mem_nil

/-- **When the function comes back.** -/
theorem descriptionParse_isSome (h : root.WellFormed) (hnames : ∀ group ∈ root.entries, group.1 ≠ []) :
    (descriptionParse root).isSome = true ↔ ∀ group ∈ groups root, ¬ group.2.NullBuffer [] := by
  rw [descriptionParse_eq h hnames, findTopLevelStructs, groupNames, Assoc.keys, List.foldlM_map]
  refine foldlM_isSome (fun group hgroup desc => ?_) _
  have hmem : group ∈ root.entries := (List.mem_filter.mp hgroup).1
  exact structsForeach_isSome h hmem (hnames group hmem) desc

theorem mem_checked (h : root.WellFormed) (hnames : ∀ group ∈ root.entries, group.1 ≠ []) {option : Configuration} :
    option ∈ (groupNames root).flatMap (fun key => (attributes root key).map Prod.snd) ↔
      ∃ group ∈ groups root, ∃ entry ∈ group.2.entries, entry.2 = option := by
  have hoptions : ∀ group ∈ groups root, attributes root group.1 = group.2.entries := by
    intro group hgroup
    have hmem : group ∈ root.entries := (List.mem_filter.mp hgroup).1
    exact attributes_eq h hmem (hnames group hmem)
  simp only [groupNames, Assoc.keys, List.mem_flatMap, List.mem_map]
  constructor
  · rintro ⟨key, ⟨group, hgroup, rfl⟩, entry, hentry, heq⟩
    rw [hoptions group hgroup] at hentry
    exact ⟨group, hgroup, entry, hentry, heq⟩
  · rintro ⟨group, hgroup, entry, hentry, heq⟩
    refine ⟨group.1, ⟨group, hgroup, rfl⟩, entry, ?_, heq⟩
    rw [hoptions group hgroup]
    exact hentry

theorem mem_elementTypes {name : Bytes} : name ∈ elementTypes root ↔
    ∃ group ∈ groups root, ∃ entry ∈ group.2.entries, elementTypeOf entry.2 = some name := by
  simp only [elementTypes, List.mem_flatMap, List.mem_filterMap]

/-- **Which descriptions are accepted**, and what is on the top level then. -/
theorem descriptionParse_iff (root : Configuration) (h : root.WellFormed)
    (hnames : ∀ group ∈ root.entries, group.1 ≠ []) (hfirst : ∀ group ∈ groups root, ¬ group.2.NullBuffer []) :
    ∃ desc, descriptionParse root = some desc ∧
      (desc.error = none ↔ AllTyped (ElementType (groupNames root)) root) ∧
      (desc.error = none → desc.topLevelStructs.Nodup ∧
        ∀ name, name ∈ desc.topLevelStructs ↔ name ∈ groupNames root ∧ name ∉ elementTypes root) := by
  obtain ⟨desc, hdesc⟩ := Option.isSome_iff_exists.mp ((descriptionParse_isSome h hnames).mpr hfirst)
  have htop := hdesc
  rw [descriptionParse_eq h hnames] at htop
  have hchecked := findTopLevelStructs_checked htop
  have hnd : (groupNames root).Nodup := h.distinct.nodup.sublist (List.filter_sublist.map Prod.fst)
  refine ⟨desc, hdesc, ?_, fun hok => ⟨hchecked.nodup hnd, fun name => ?_⟩⟩
  · rw [hchecked.error, and_iff_right rfl]
    constructor
    · intro hall group hgroup entry hentry
      exact hall entry.2 ((mem_checked h hnames).mpr ⟨group, hgroup, entry, hentry, rfl⟩)
    · intro hall option hoption
      obtain ⟨group, hgroup, entry, hentry, rfl⟩ := (mem_checked h hnames).mp hoption
      exact hall group hgroup entry hentry
  · rw [hchecked.top hok hnd, mem_elementTypes]
    refine and_congr_right fun _ => ?_
    constructor
    · rintro hall ⟨group, hgroup, entry, hentry, heq⟩
      exact hall entry.2 ((mem_checked h hnames).mpr ⟨group, hgroup, entry, hentry, rfl⟩) heq
    · intro hno option hoption heq
      obtain ⟨group, hgroup, entry, hentry, rfl⟩ := (mem_checked h hnames).mp hoption
      exact hno ⟨group, hgroup, entry, hentry, heq⟩

end groups

/-- A description with a group of options that are lists, and a group that is their elements. -/
def listsOf (element : String) : Configuration :=
  ((Configuration.new none).setValueByPath (element ++ "/Name/Type").toUTF8.toList (some "String".toUTF8.toList)
    |>.setValueByPath "Group/Items/Type".toUTF8.toList (some "List".toUTF8.toList)
    |>.setValueByPath "Group/Items/SubType".toUTF8.toList (some element.toUTF8.toList))

theorem wellFormed_listsOf {element : String} (h : 0 ∉ (element ++ "/Name/Type").toUTF8.toList) :
    (listsOf element).WellFormed :=
  (((Configuration.wellFormed_new none).setValueByPath h _).setValueByPath (by decide +kernel) _).setValueByPath
    (by decide +kernel) _

/-- A group may not be the elements of a list if it is named `List`. -/
theorem not_accepted_listOfList :
    (listsOf "List").WellFormed ∧ (∀ group ∈ (listsOf "List").entries, group.1 ≠ []) ∧
      (∀ group ∈ groups (listsOf "List"), ¬ group.2.NullBuffer []) ∧
      AllTyped (ElementTypeOrGroup (groupNames (listsOf "List"))) (listsOf "List") ∧
      (descriptionParse (listsOf "List")).map Description.error =
        some (some "Recursive List is not allowed.".toUTF8.toList) :=
  ⟨wellFormed_listsOf (by decide +kernel), by decide +kernel⟩

/-- Under another name it may, and is on the top level no more. -/
theorem accepted_listOfItem :
    ∃ desc, descriptionParse (listsOf "Item") = some desc ∧ desc.error = none ∧
      "Group".toUTF8.toList ∈ desc.topLevelStructs ∧ "Item".toUTF8.toList ∉ desc.topLevelStructs := by
  have hrest : (∀ group ∈ (listsOf "Item").entries, group.1 ≠ []) ∧
      (∀ group ∈ groups (listsOf "Item"), ¬ group.2.NullBuffer []) ∧
      AllTyped (ElementType (groupNames (listsOf "Item"))) (listsOf "Item") ∧
      ("Group".toUTF8.toList ∈ groupNames (listsOf "Item") ∧ "Group".toUTF8.toList ∉ elementTypes (listsOf "Item")) ∧
      "Item".toUTF8.toList ∈ elementTypes (listsOf "Item") := by decide +kernel
  obtain ⟨hnames, hfirst, htyped, hgroup, hitem⟩ := hrest
  obtain ⟨desc, hparse, herror, htop⟩ :=
    descriptionParse_iff (listsOf "Item") (wellFormed_listsOf (by decide +kernel)) hnames hfirst
  have hok : desc.error = none := herror.mpr htyped
  obtain ⟨-, hmem⟩ := htop hok
  refine ⟨desc, hparse, hok, (hmem _).mpr hgroup, fun hno => ?_⟩
  exact ((hmem _).mp hno).2 hitem

end Fcitx
