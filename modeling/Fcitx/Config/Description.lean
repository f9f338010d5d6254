/-
# Configuration descriptions

`fcitx-config/description.c`: a description is itself a configuration. Its
top-level nodes are structs, their subitems the options, each with a type; a
list names the type of its elements, which may be another struct. An option with an
error sets a flag that stops the callbacks behind it, not the loops; the set of the
top-level structs is edited on the way. A loop checks what its rounds check.

Key definitions: `BuiltinType`, `Description`, `structAttributeForeach`, `descriptionParse`, `TypedOption`,
`Checked`.
Key theorems: `structAttributeForeach_checked`, `findTopLevelStructs_checked`, `descriptionParse_accepted`.
-/
import Fcitx.Config.Foreach
import Fcitx.Config.PathMap

namespace Fcitx

/-- The types of `is_builtin_type`. -/
inductive BuiltinType where
  | integer
  | string
  | file
  | font
  | boolean
  | char
  | enum
  | i18nString
  | hotkey
  | color
  | list
  deriving DecidableEq

namespace BuiltinType

/-- The names of the types. -/
def names : List (Bytes × BuiltinType) :=
  [("Integer".toUTF8.toList, integer), ("String".toUTF8.toList, string), ("File".toUTF8.toList, file),
    ("Font".toUTF8.toList, font), ("Boolean".toUTF8.toList, boolean), ("Char".toUTF8.toList, char),
    ("Enum".toUTF8.toList, enum), ("I18NString".toUTF8.toList, i18nString),
    ("Hotkey".toUTF8.toList, hotkey), ("Color".toUTF8.toList, color), ("List".toUTF8.toList, list)]

/-- The type with a name. -/
def ofName (str : Bytes) : Option BuiltinType := names.lookup str

end BuiltinType

/-- `is_builtin_type` -/
def isBuiltinType (str : Bytes) : Bool := (BuiltinType.ofName str).isSome

/-- `FcitxDescription`; the sets of strings are in insertion order. -/
structure Description where
  /-- `errorMessage` where `error` is set -/
  error : Option Bytes
  localeDomain : Option Bytes
  structs : List Bytes
  topLevelStructs : List Bytes
  deriving DecidableEq

/-- `fcitx_configuration_get_value_by_path(config, "Type")` -/
def typeOf (config : Configuration) : Option Bytes := config.getValueByPath "Type".toUTF8.toList

/-- `fcitx_configuration_get_value_by_path(config, "SubType")` -/
def subTypeOf (config : Configuration) : Option Bytes := config.getValueByPath "SubType".toUTF8.toList

/-- `find_structs_callback` -/
def findStructsCallback : ForeachCallback Description := fun _ path desc =>
  if path = "DescriptionFile".toUTF8.toList then some desc
  else if path ∈ desc.structs then some desc
  else some { desc with structs := desc.structs ++ [path] }

/-- Set the error. -/
def Description.fail (desc : Description) (message : Bytes) : Description := { desc with error := some message }

/-- `struct_attribute_foreach` -/
def structAttributeForeach : ForeachCallback Description := fun config path desc =>
  if desc.error.isSome then some desc
  else
    match typeOf config with
    | none => some (desc.fail (path ++ " misses Type.".toUTF8.toList))
    | some type =>
      match BuiltinType.ofName type with
      | none => some (desc.fail "Invalide Type.".toUTF8.toList)
      | some .list =>
        match subTypeOf config with
        | none => some (desc.fail (path ++ " misses SubType.".toUTF8.toList))
        | some subType =>
          if BuiltinType.ofName subType = some .list then
            some (desc.fail "Recursive List is not allowed.".toUTF8.toList)
          else if isBuiltinType subType = false ∧ subType ∉ desc.structs then
            some (desc.fail "Invalide SubType.".toUTF8.toList)
          else some { desc with topLevelStructs := desc.topLevelStructs.erase subType }
      | some _ => some desc

/-- `structs_foreach` -/
def structsForeach (config : Configuration) (desc : Description) (key : Bytes) : Option Description :=
  Configuration.foreach config key [] structAttributeForeach desc

/-- `find_top_level_structs` -/
def findTopLevelStructs (config : Configuration) (desc : Description) : Option Description :=
  desc.structs.foldlM (structsForeach config) { desc with topLevelStructs := desc.structs }

/-- `fcitx_description_parse`; `none` where the walk over the subitems writes to NULL. -/
def descriptionParse (config : Configuration) : Option Description :=
  let desc : Description :=
    ⟨none, config.getValueByPath "DescriptionFile/LocaleDomain".toUTF8.toList, [], []⟩
  (Configuration.foreach config [] [] findStructsCallback desc).bind (findTopLevelStructs config)

/-! ### The rules for an option -/

/-- An option has a type, and an allowed type for its elements if it is a list. -/
def TypedOption (element : Bytes → Prop) (option : Configuration) : Prop :=
  (∃ type ∈ typeOf option, isBuiltinType type = true) ∧
    (typeOf option = some "List".toUTF8.toList → ∃ subType ∈ subTypeOf option, element subType)

/-- What is accepted for the elements of a list. -/
def ElementType (structs : List Bytes) (subType : Bytes) : Prop :=
  subType ≠ "List".toUTF8.toList ∧ (isBuiltinType subType = true ∨ subType ∈ structs)

/-- The type of the elements of an option that is a list. -/
def elementTypeOf (option : Configuration) : Option Bytes :=
  if typeOf option = some "List".toUTF8.toList then subTypeOf option else none

namespace BuiltinType

theorem ofName_list : ofName "List".toUTF8.toList = some list := by decide +kernel

/-- Only one name is that of the lists. -/
theorem ofName_eq_list {str : Bytes} : ofName str = some list ↔ str = "List".toUTF8.toList := by
  constructor
  · intro h
    have hkeys : (Assoc.keys names).Nodup := by decide +kernel
    have hmem : (str, list) ∈ names := (Assoc.lookup_eq_some_iff hkeys).mp h
    simpa [names] using hmem
  · rintro rfl
    exact ofName_list

end BuiltinType

/-- **Checking options.** Between `desc` and `desc'` the options `options` were checked. -/
structure Checked (options : List Configuration) (desc desc' : Description) : Prop where
  structs : desc'.structs = desc.structs
  error : desc'.error = none ↔
    desc.error = none ∧ ∀ option ∈ options, TypedOption (ElementType desc.structs) option
  nodup : desc.topLevelStructs.Nodup → desc'.topLevelStructs.Nodup
  top : desc'.error = none → desc.topLevelStructs.Nodup → ∀ name, name ∈ desc'.topLevelStructs ↔
    name ∈ desc.topLevelStructs ∧ ∀ option ∈ options, elementTypeOf option ≠ some name

namespace Checked

variable {options options' : List Configuration} {desc desc' desc'' : Description}

theorem refl (desc : Description) : Checked [] desc desc := by
  refine ⟨rfl, ?_, id, fun _ _ name => ?_⟩ <;> simp

theorem trans (h : Checked options desc desc') (h' : Checked options' desc' desc'') :
    Checked (options ++ options') desc desc'' := by
  refine ⟨h'.structs.trans h.structs, ?_, fun hnd => h'.nodup (h.nodup hnd), fun hok hnd name => ?_⟩
  · rw [h'.error, h.error, h.structs, List.forall_mem_append, and_assoc]
  · have hok' : desc'.error = none := (h'.error.mp hok).1
    rw [h'.top hok (h.nodup hnd), h.top hok' hnd, List.forall_mem_append, and_assoc]

/-- A flag that is set stays. -/
theorem of_error (h : desc.error.isSome = true) : Checked options desc desc := by
  have hne : desc.error ≠ none := Option.isSome_iff_ne_none.mp h
  exact ⟨rfl, ⟨fun hok => absurd hok hne, fun hok => hok.1⟩, id, fun hok => absurd hok hne⟩

/-- An option that is no option sets the flag. -/
theorem of_fail {option : Configuration} (h : ¬ TypedOption (ElementType desc.structs) option) (message : Bytes) :
    Checked [option] desc (desc.fail message) := by
  have hset : (desc.fail message).error ≠ none := Option.some_ne_none message
  refine ⟨rfl, ⟨fun hok => absurd hok hset, fun hok => ?_⟩, id, fun hok => absurd hok hset⟩
  exact absurd (hok.2 option List.mem_cons_self) h

/-- An option with a type that is no list has no part in the structs. -/
theorem of_typed {option : Configuration} (h : TypedOption (ElementType desc.structs) option)
    (hlist : elementTypeOf option = none) : Checked [option] desc desc := by
  refine ⟨rfl, ?_, id, fun _ _ name => ?_⟩
  · rw [List.forall_mem_singleton, and_iff_left h]
  · rw [List.forall_mem_singleton, hlist, and_iff_left]
    exact (Option.some_ne_none name).symm

/-- A list takes the struct of its elements off the top level. -/
theorem of_list {option : Configuration} {subType : Bytes} (h : TypedOption (ElementType desc.structs) option)
    (hlist : elementTypeOf option = some subType) :
    Checked [option] desc { desc with topLevelStructs := desc.topLevelStructs.erase subType } := by
  refine ⟨rfl, ?_, fun hnd => hnd.erase subType, fun _ hnd name => ?_⟩
  · rw [List.forall_mem_singleton, and_iff_left h]
  · rw [List.forall_mem_singleton, hlist, hnd.mem_erase_iff, and_comm]
    exact and_congr_right fun _ => not_congr ⟨fun heq => congrArg some heq.symm, fun heq => (Option.some.inj heq).symm⟩

/-- **A loop checks what its rounds check.** -/
theorem foldlM {α : Type} {f : Description → α → Option Description} {part : α → List Configuration} {items : List α}
    (hstep : ∀ item ∈ items, ∀ desc desc', f desc item = some desc' → Checked (part item) desc desc')
    (h : items.foldlM f desc = some desc') : Checked (items.flatMap part) desc desc' := by
  induction items generalizing desc with
  | nil =>
    obtain rfl := Option.some.inj h
    exact refl desc
  | cons item items ih =>
    rw [List.foldlM_cons] at h
    obtain ⟨desc₁, hfirst, hrest⟩ := Option.bind_eq_some_iff.mp h
    rw [List.flatMap_cons]
    refine (hstep item List.mem_cons_self desc desc₁ hfirst).trans ?_
    exact ih (fun item hitem => hstep item (List.mem_cons_of_mem _ hitem)) hrest

end Checked

/-- **The callback checks the option.** -/
theorem structAttributeForeach_checked (option : Configuration) (path : Bytes) (desc : Description) :
    ∃ desc', structAttributeForeach option path desc = some desc' ∧ Checked [option] desc desc' := by
  unfold structAttributeForeach
  split
  · next herror => exact ⟨desc, rfl, .of_error herror⟩
  · split
    · next htype =>
      refine ⟨_, rfl, .of_fail (fun htyped => ?_) _⟩
      obtain ⟨type, hmem, -⟩ := htyped.1
      rw [htype] at hmem
      cases hmem
    · next type htype =>
      split
      · next hname =>
        refine ⟨_, rfl, .of_fail (fun htyped => ?_) _⟩
        obtain ⟨type', hmem, hbuiltin⟩ := htyped.1
        obtain rfl : type = type' := Option.some.inj (htype.symm.trans hmem)
        rw [isBuiltinType, hname] at hbuiltin
        cases hbuiltin
      · next hname =>
        have hlist : typeOf option = some "List".toUTF8.toList := by
          rw [htype, BuiltinType.ofName_eq_list.mp hname]
        have helement : elementTypeOf option = subTypeOf option := if_pos hlist
        have hbuiltin : ∃ type ∈ typeOf option, isBuiltinType type = true :=
          ⟨type, htype, by rw [isBuiltinType, hname]; rfl⟩
        split
        · next hsub =>
          refine ⟨_, rfl, .of_fail (fun htyped => ?_) _⟩
          obtain ⟨subType, hmem, -⟩ := htyped.2 hlist
          rw [hsub] at hmem
          cases hmem
        · next subType hsub =>
          have hof : TypedOption (ElementType desc.structs) option ↔ ElementType desc.structs subType := by
            refine ⟨fun htyped => ?_, fun hok => ⟨hbuiltin, fun _ => ⟨subType, hsub, hok⟩⟩⟩
            obtain ⟨subType', hmem, hok⟩ := htyped.2 hlist
            obtain rfl : subType = subType' := Option.some.inj (hsub.symm.trans hmem)
            exact hok
          split
          · next hrecursive =>
            refine ⟨_, rfl, .of_fail (fun htyped => ?_) _⟩
            exact (hof.mp htyped).1 (BuiltinType.ofName_eq_list.mp hrecursive)
          · next hrecursive =>
            split
            · next hno =>
              refine ⟨_, rfl, .of_fail (fun htyped => ?_) _⟩
              rcases (hof.mp htyped).2 with hsome | hmem
              · rw [hno.1] at hsome
                cases hsome
              · exact hno.2 hmem
            · next hyes =>
              refine ⟨_, rfl, .of_list (hof.mpr ⟨fun heq => ?_, ?_⟩) (helement.trans hsub)⟩
              · exact hrecursive (BuiltinType.ofName_eq_list.mpr heq)
              · by_contra hno
                rw [not_or, Bool.not_eq_true] at hno
                exact hyes hno
      · next builtin hne hname =>
        have hlist : typeOf option ≠ some "List".toUTF8.toList := by
          intro heq
          rw [Option.some.inj (htype.symm.trans heq), BuiltinType.ofName_list] at hname
          exact hne (Option.some.inj hname).symm
        refine ⟨_, rfl, .of_typed ⟨⟨type, htype, ?_⟩, fun heq => absurd heq hlist⟩ (if_neg hlist)⟩
        rw [isBuiltinType, hname]
        rfl

/-! ### What is accepted -/

/-- The options of a struct. -/
def attributes (config : Configuration) (key : Bytes) : List (Bytes × Configuration) :=
  match (config.get key).bind config.find with
  | none => []
  | some node => node.entries

/-- An option that is no error. -/
structure ValidAttribute (structs : List Bytes) (config : Configuration) : Prop where
  type : ∃ type, typeOf config = some type ∧ isBuiltinType type = true
  subType : typeOf config = some "List".toUTF8.toList → ∃ subType, subTypeOf config = some subType ∧
    (isBuiltinType subType = true ∨ subType ∈ structs)

theorem TypedOption.validAttribute {structs : List Bytes} {option : Configuration}
    (h : TypedOption (ElementType structs) option) : ValidAttribute structs option where
  type := h.1
  subType hlist := by
    obtain ⟨subType, hsub, -, hcases⟩ := h.2 hlist
    exact ⟨subType, hsub, hcases⟩

/-- What walking over the options of a struct comes to, when it comes to its end. -/
theorem foreach_attributes {σ : Type} {root : Configuration} {key : Bytes} {callback : ForeachCallback σ} {s t : σ}
    (h : Configuration.foreach root key [] callback s = some t) :
    (attributes root key).foldlM (fun s item => callback item.2 (cString (Configuration.subPath [] item.1)) s) s =
      some t := by
  unfold Configuration.foreach at h
  unfold attributes
  cases hnode : (root.get key).bind root.find with
  | none =>
    rw [hnode] at h
    exact h
  | some node =>
    rw [hnode] at h
    dsimp only at h
    rw [Configuration._foreach_eq] at h
    split at h
    · cases h
    · exact h

/-- **The loop over a struct** checks its options. -/
theorem structsForeach_checked {config : Configuration} {key : Bytes} {desc desc' : Description}
    (h : structsForeach config desc key = some desc') :
    Checked ((attributes config key).map Prod.snd) desc desc' := by
  rw [List.map_eq_flatMap]
  refine Checked.foldlM (fun option _ desc desc' hstep => ?_) (foreach_attributes h)
  obtain ⟨desc₁, heq, hchecked⟩ := structAttributeForeach_checked option.2 _ desc
  obtain rfl := Option.some.inj (heq.symm.trans hstep)
  exact hchecked

/-- **The loop over the structs** checks the options of all. -/
theorem findTopLevelStructs_checked {config : Configuration} {desc desc' : Description}
    (h : findTopLevelStructs config desc = some desc') :
    Checked (desc.structs.flatMap fun key => (attributes config key).map Prod.snd)
      { desc with topLevelStructs := desc.structs } desc' :=
  Checked.foldlM (fun _ _ _ _ hstep => structsForeach_checked hstep) h

/-- **In an accepted description** every option of every struct is valid. -/
theorem descriptionParse_accepted {config : Configuration} {desc : Description}
    (h : descriptionParse config = some desc) (hok : desc.error = none) :
    ∀ key ∈ desc.structs, ∀ e ∈ attributes config key, ValidAttribute desc.structs e.2 := by
  unfold descriptionParse at h
  obtain ⟨found, -, htop⟩ := Option.bind_eq_some_iff.mp h
  have hchecked := findTopLevelStructs_checked htop
  intro key hkey e he
  rw [hchecked.structs] at hkey ⊢
  have hmem : e.2 ∈ found.structs.flatMap fun key => (attributes config key).map Prod.snd :=
    List.mem_flatMap.mpr ⟨key, hkey, List.mem_map_of_mem he⟩
  exact ((hchecked.error.mp hok).2 e.2 hmem).validAttribute

end Fcitx
