/-
# The generated code and the list helper

`tools/dev/configdesc-compiler/source.c` writes a load, a store and a free
function for each struct of a description. For a list of structs it also writes
the names of these functions to the option info, cast to the function types of
`fcitx-config/helper.h`, and `fcitx_configuration_set_list` calls them.

The generated functions are kept as syntax: the parameters, and of the body the
calls and what the option info says about a list. The bounds and the defaults
in the option info are left out, and so is what the called functions do. A call
binds the parameters of a function in order, whatever the cast says.

Key definitions: `CFunction`, `printOptionInfo`, `compileToCSource`, `setListArgs`,
`CFunction.ReadsFrom`.
Key theorems: `readsElement_iff`.
-/
import Fcitx.ConfigDesc.Names

namespace Fcitx

/-! ### Syntax -/

/-- The parameters of the generated functions. -/
inductive CParam where
  | config
  | path
  | dummy
  | data
  deriving DecidableEq

/-- An argument in the generated code. -/
inductive CExpr where
  | param (param : CParam)
  | string (s : Bytes)
  | null
  /-- `&info` -/
  | infoRef
  /-- `&data->name` -/
  | fieldRef (name : Bytes)
  /-- `data->name` -/
  | field (name : Bytes)
  deriving DecidableEq

/-- The names that `info.list` gets. -/
structure ListInfo where
  /-- in `sizeof` -/
  size : Bytes
  loadFunc : Bytes
  storeFunc : Bytes
  freeFunc : Bytes
  deriving DecidableEq

/-- A statement of the generated code. -/
inductive CStmt where
  /-- `config = fcitx_configuration_get(config, path, createPath);` -/
  | getConfig (createPath : Bool)
  | setListInfo (info : ListInfo)
  | call (func : Bytes) (args : List CExpr)
  deriving DecidableEq

/-- A generated function. -/
structure CFunction where
  name : Bytes
  params : List CParam
  body : List CStmt
  deriving DecidableEq

/-! ### The compiler -/

/-- The names in the option info of a list, in `print_option_info`. -/
def listInfo (subType namePrefix : Bytes) : Option ListInfo :=
  match getCTypeName subType with
  | none =>
    let structName := typeName namePrefix subType
    let underscoreName := formatUnderscoreName structName false
    some ⟨structName, underscoreName ++ "_load".toUTF8.toList, underscoreName ++ "_store".toUTF8.toList,
      underscoreName ++ "_free".toUTF8.toList⟩
  | some typeName =>
    (getLoadFunc subType).bind fun loadFunc =>
      (getStoreFunc subType).map fun storeFunc =>
        ⟨typeName, loadFunc, storeFunc, (getListFreeFunc subType).getD "NULL".toUTF8.toList⟩

/-- `print_option_info`; a list of lists never returns. -/
def printOptionInfo (config : Configuration) (type namePrefix : Bytes) : Option (List CStmt) :=
  if type = "List".toUTF8.toList then
    (subTypeOf config).bind fun subType =>
      if subType = "List".toUTF8.toList then none
      else (listInfo subType namePrefix).map fun info => [.setListInfo info]
  else some []

/-- `print_struct_load_attribute` and `print_struct_store_attribute`, with `get_load_func` or
`get_store_func`. -/
def printStructAttribute (getFunc : Bytes → Option Bytes) (namePrefix : Bytes) : ForeachCallback (List CStmt) :=
  fun config _ out =>
    match typeOf config with
    | none => some out
    | some type =>
      (printOptionInfo config type namePrefix).bind fun info =>
        config.data.name.bind fun originName =>
          (getFunc type).map fun func =>
            out ++ info ++ [.call func
              [.param .config, .string originName, .infoRef, .fieldRef (formatFirstLowerName originName)]]

/-- `print_struct_load_attribute` -/
def printStructLoadAttribute : Bytes → ForeachCallback (List CStmt) := printStructAttribute getLoadFunc

/-- `print_struct_store_attribute` -/
def printStructStoreAttribute : Bytes → ForeachCallback (List CStmt) := printStructAttribute getStoreFunc

/-- `print_struct_free_attribute` -/
def printStructFreeAttribute : ForeachCallback (List CStmt) := fun config _ out =>
  match typeOf config with
  | none => some out
  | some type =>
    config.data.name.map fun originName =>
      match getFreeFunc type with
      | none => out
      | some func => out ++ [.call func [.field (formatFirstLowerName originName)]]

/-- The parameters of a load function. -/
def loadParams : List CParam := [.config, .path, .dummy, .data]

/-- The parameters of a store function. -/
def storeParams : List CParam := [.config, .path, .data]

/-- The parameters of a free function. -/
def freeParams : List CParam := [.data]

/-- The functions of a struct. -/
structure StructFunctions where
  load : CFunction
  store : CFunction
  free : CFunction
  deriving DecidableEq

/-- `print_struct_function_definition` -/
def printStructFunctionDefinition (rootConfig : Configuration) (namePrefix key : Bytes) :
    Option StructFunctions :=
  let underscoreFullName := formatUnderscoreName (typeName namePrefix key) false
  (Configuration.foreach rootConfig key [] (printStructLoadAttribute namePrefix) [.getConfig false]).bind
    fun loadBody =>
      (Configuration.foreach rootConfig key [] (printStructStoreAttribute namePrefix) [.getConfig true]).bind
        fun storeBody =>
          (Configuration.foreach rootConfig key [] printStructFreeAttribute []).map fun freeBody =>
            ⟨⟨underscoreFullName ++ "_load".toUTF8.toList, loadParams, loadBody⟩,
              ⟨underscoreFullName ++ "_store".toUTF8.toList, storeParams, storeBody⟩,
              ⟨underscoreFullName ++ "_free".toUTF8.toList, freeParams, freeBody⟩⟩

/-- The statement for a member in `print_load_struct_member`. -/
def printLoadStructMember (namePrefix key : Bytes) : CStmt :=
  .call (formatUnderscoreName (typeName namePrefix key) false ++ "_load".toUTF8.toList)
    [.param .config, .string key, .null, .fieldRef (formatFirstLowerName key)]

/-- The statement for a member in `print_store_struct_member`. -/
def printStoreStructMember (namePrefix key : Bytes) : CStmt :=
  .call (formatUnderscoreName (typeName namePrefix key) false ++ "_store".toUTF8.toList)
    [.param .config, .string key, .fieldRef (formatFirstLowerName key)]

/-- The statement for a member in `print_free_struct_member`. -/
def printFreeStructMember (namePrefix key : Bytes) : CStmt :=
  .call (formatUnderscoreName (typeName namePrefix key) false ++ "_free".toUTF8.toList)
    [.fieldRef (formatFirstLowerName key)]

/-- What `compile_to_c_source` writes: the functions of the structs, and those of the whole. -/
structure CSource where
  structs : List StructFunctions
  load : CFunction
  store : CFunction
  free : CFunction
  deriving DecidableEq

/-- `compile_to_c_source` -/
def compileToCSource (config : Configuration) (desc : Description) (name namePrefix : Bytes) : Option CSource :=
  let underscoreFullName := formatUnderscoreName (namePrefix ++ name) false
  (desc.structs.mapM (printStructFunctionDefinition config namePrefix)).map fun structs =>
    ⟨structs,
      ⟨underscoreFullName ++ "_load".toUTF8.toList, [.data, .config],
        desc.topLevelStructs.map (printLoadStructMember namePrefix)⟩,
      ⟨underscoreFullName ++ "_store".toUTF8.toList, [.data, .config],
        desc.topLevelStructs.map (printStoreStructMember namePrefix)⟩,
      ⟨underscoreFullName ++ "_free".toUTF8.toList, [.data],
        desc.topLevelStructs.map (printFreeStructMember namePrefix) ++ [.call "free".toUTF8.toList [.param .data]]⟩⟩

/-! ### The helper -/

/-- An argument of a call. -/
inductive CArg where
  /-- the subitem of this number -/
  | subConfig (i : UInt32)
  | string (s : Bytes)
  | info
  /-- a pointer to an element -/
  | element (ptr : ℕ)
  deriving DecidableEq

/-- `info->list.loadFunc(subConfig, "", info, data)` in `fcitx_configuration_get_list` -/
def getListArgs (i : UInt32) (data : ℕ) : List CArg := [.subConfig i, .string [], .info, .element data]

/-- `info->list.storeFunc(subConfig, "", info, data)` in `fcitx_configuration_set_list` -/
def setListArgs (i : UInt32) (data : ℕ) : List CArg := [.subConfig i, .string [], .info, .element data]

/-- The fields of `data` that an argument accesses. -/
def CExpr.fields : CExpr → List Bytes
  | .fieldRef name => [name]
  | .field name => [name]
  | _ => []

/-- The fields of `data` that a statement accesses. -/
def CStmt.fields : CStmt → List Bytes
  | .call _ args => args.flatMap CExpr.fields
  | _ => []

namespace CFunction

/-- What a parameter is in a call. -/
def binding (f : CFunction) (args : List CArg) (param : CParam) : Option CArg := (f.params.zip args).lookup param

/-- The fields that a function accesses, each with the pointer it goes through. -/
def accesses (f : CFunction) (args : List CArg) : List (Option CArg × Bytes) :=
  (f.body.flatMap CStmt.fields).map fun field => (f.binding args .data, field)

/-- Every field that the call accesses is one of `ptr`. -/
def ReadsFrom (f : CFunction) (args : List CArg) (ptr : ℕ) : Prop :=
  ∀ access ∈ f.accesses args, access.1 = some (.element ptr)

end CFunction

/-- The store function reads the element that `fcitx_configuration_set_list` passes. -/
def StoresElements (f : CFunction) : Prop := ∀ i data, f.ReadsFrom (setListArgs i data) data

/-- The load function fills the element that `fcitx_configuration_get_list` passes. -/
def LoadsElements (f : CFunction) : Prop := ∀ i data, f.ReadsFrom (getListArgs i data) data

/-! ### The fields of a generated function -/

/-- The fields that a body accesses. -/
def bodyFields (body : List CStmt) : List Bytes := body.flatMap CStmt.fields

theorem bodyFields_append (xs ys : List CStmt) : bodyFields (xs ++ ys) = bodyFields xs ++ bodyFields ys :=
  List.flatMap_append

theorem bodyFields_printOptionInfo {config : Configuration} {type namePrefix : Bytes} {info : List CStmt}
    (h : printOptionInfo config type namePrefix = some info) : bodyFields info = [] := by
  unfold printOptionInfo at h
  split at h
  · obtain ⟨subType, -, h⟩ := Option.bind_eq_some_iff.mp h
    split at h
    · cases h
    · obtain ⟨info, -, rfl⟩ := Option.map_eq_some_iff.mp h
      rfl
  · obtain rfl := Option.some.inj h
    rfl

theorem bodyFields_printStructAttribute {getFunc : Bytes → Option Bytes} {namePrefix path : Bytes}
    {config : Configuration} {out out' : List CStmt} {structs : List Bytes} (hvalid : ValidAttribute structs config)
    (h : printStructAttribute getFunc namePrefix config path out = some out') :
    (bodyFields out').length = (bodyFields out).length + 1 := by
  obtain ⟨type, htype, -⟩ := hvalid.type
  unfold printStructAttribute at h
  rw [htype] at h
  obtain ⟨info, hinfo, h⟩ := Option.bind_eq_some_iff.mp h
  obtain ⟨originName, -, h⟩ := Option.bind_eq_some_iff.mp h
  obtain ⟨func, -, rfl⟩ := Option.map_eq_some_iff.mp h
  rw [bodyFields_append, bodyFields_append, bodyFields_printOptionInfo hinfo, List.append_nil, List.length_append]
  rfl

theorem bodyFields_foldlM {getFunc : Bytes → Option Bytes} {namePrefix : Bytes} (pathOf : Bytes → Bytes)
    {structs : List Bytes} (options : List (Bytes × Configuration))
    (hvalid : ∀ e ∈ options, ValidAttribute structs e.2) {out out' : List CStmt}
    (h : options.foldlM (fun out item => printStructAttribute getFunc namePrefix item.2 (pathOf item.1) out) out =
      some out') :
    (bodyFields out').length = (bodyFields out).length + options.length := by
  induction options generalizing out with
  | nil =>
    obtain rfl := Option.some.inj h
    rfl
  | cons e options ih =>
    rw [List.foldlM_cons] at h
    obtain ⟨out₁, hfirst, hrest⟩ := Option.bind_eq_some_iff.mp h
    have hone := bodyFields_printStructAttribute (hvalid e List.mem_cons_self) hfirst
    rw [ih (fun e' he' => hvalid e' (List.mem_cons_of_mem _ he')) hrest, hone, List.length_cons]
    omega

/-- **The generated functions of a struct**: their names and parameters, and that the load and the
store function access a field for each option. -/
theorem printStructFunctionDefinition_eq_some {rootConfig : Configuration} {namePrefix key : Bytes}
    {functions : StructFunctions} {structs : List Bytes}
    (h : printStructFunctionDefinition rootConfig namePrefix key = some functions)
    (hvalid : ∀ e ∈ attributes rootConfig key, ValidAttribute structs e.2) :
    functions.load.name = formatUnderscoreName (typeName namePrefix key) false ++ "_load".toUTF8.toList ∧
      functions.store.name = formatUnderscoreName (typeName namePrefix key) false ++ "_store".toUTF8.toList ∧
      functions.load.params = loadParams ∧ functions.store.params = storeParams ∧
      (bodyFields functions.load.body).length = (attributes rootConfig key).length ∧
      (bodyFields functions.store.body).length = (attributes rootConfig key).length := by
  unfold printStructFunctionDefinition at h
  obtain ⟨loadBody, hload, h⟩ := Option.bind_eq_some_iff.mp h
  obtain ⟨storeBody, hstore, h⟩ := Option.bind_eq_some_iff.mp h
  obtain ⟨freeBody, -, rfl⟩ := Option.map_eq_some_iff.mp h
  have hloadFields := bodyFields_foldlM _ _ hvalid (foreach_attributes hload)
  have hstoreFields := bodyFields_foldlM _ _ hvalid (foreach_attributes hstore)
  refine ⟨rfl, rfl, rfl, rfl, ?_, ?_⟩
  · rw [hloadFields]
    exact Nat.zero_add _
  · rw [hstoreFields]
    exact Nat.zero_add _

/-! ### Calls -/

/-- A function reads from `ptr` when that is what its `data` is, or when it accesses no field. -/
theorem CFunction.readsFrom_iff (f : CFunction) (args : List CArg) (ptr : ℕ) :
    f.ReadsFrom args ptr ↔ bodyFields f.body = [] ∨ f.binding args .data = some (.element ptr) := by
  unfold ReadsFrom accesses
  change (∀ access ∈ (bodyFields f.body).map _, _) ↔ _
  cases bodyFields f.body with
  | nil => simp
  | cons field fields =>
    constructor
    · intro h
      exact Or.inr (h _ List.mem_cons_self)
    · rintro (hnil | hbind) access haccess
      · cases hnil
      · obtain ⟨field', -, rfl⟩ := List.mem_map.mp haccess
        exact hbind

theorem loadsElements (f : CFunction) (h : f.params = loadParams) : LoadsElements f := by
  intro i data
  rw [CFunction.readsFrom_iff, CFunction.binding, h]
  exact Or.inr rfl

/-- In a call of the helper the option info is `data` of the store function. -/
theorem storesElements_iff (f : CFunction) (h : f.params = storeParams) :
    StoresElements f ↔ bodyFields f.body = [] := by
  have hbind : ∀ i data, f.binding (setListArgs i data) .data = some .info := by
    intro i data
    rw [CFunction.binding, h]
    rfl
  constructor
  · intro hstores
    refine ((f.readsFrom_iff _ _).mp (hstores 0 0)).resolve_right fun helement => ?_
    rw [hbind] at helement
    cases helement
  · intro hnil i data
    exact (f.readsFrom_iff _ _).mpr (Or.inl hnil)

theorem member_binds (namePrefix key : Bytes) :
    (∃ func args, printLoadStructMember namePrefix key = .call func args ∧
      (loadParams.zip args).lookup .data = some (.fieldRef (formatFirstLowerName key))) ∧
    (∃ func args, printStoreStructMember namePrefix key = .call func args ∧
      (storeParams.zip args).lookup .data = some (.fieldRef (formatFirstLowerName key))) :=
  ⟨⟨_, _, rfl, rfl⟩, ⟨_, _, rfl, rfl⟩⟩

/-! ### Lists of structs -/

/-- The option info of a list of structs names the functions of the struct. -/
theorem printOptionInfo_struct {config : Configuration} {subType : Bytes} (namePrefix : Bytes)
    (hsub : subTypeOf config = some subType) (hstruct : isBuiltinType subType = false) :
    printOptionInfo config "List".toUTF8.toList namePrefix = some [.setListInfo
      ⟨typeName namePrefix subType,
        formatUnderscoreName (typeName namePrefix subType) false ++ "_load".toUTF8.toList,
        formatUnderscoreName (typeName namePrefix subType) false ++ "_store".toUTF8.toList,
        formatUnderscoreName (typeName namePrefix subType) false ++ "_free".toUTF8.toList⟩] := by
  have hne : subType ≠ "List".toUTF8.toList := by
    intro heq
    rw [heq] at hstruct
    exact absurd hstruct (by decide +kernel)
  have hnone : getCTypeName subType = none := by
    rw [isBuiltinType, Option.isSome_eq_false_iff, Option.isNone_iff_eq_none] at hstruct
    rw [getCTypeName, hstruct, Option.map_none]
  rw [printOptionInfo, if_pos rfl, hsub, Option.bind_some, if_neg hne, listInfo, hnone]
  rfl

theorem exists_structFunctions {config : Configuration} {namePrefix : Bytes} (keys : List Bytes)
    {written : List StructFunctions} (h : keys.mapM (printStructFunctionDefinition config namePrefix) = some written)
    {key : Bytes} (hkey : key ∈ keys) :
    ∃ functions ∈ written, printStructFunctionDefinition config namePrefix key = some functions := by
  induction keys generalizing written with
  | nil => cases hkey
  | cons key' keys ih =>
    rw [List.mapM_cons] at h
    obtain ⟨first, hfirst, h⟩ := Option.bind_eq_some_iff.mp h
    obtain ⟨rest, hrest, h⟩ := Option.bind_eq_some_iff.mp h
    obtain rfl := Option.some.inj h
    rcases List.mem_cons.mp hkey with rfl | hkey
    · exact ⟨first, List.mem_cons_self, hfirst⟩
    · obtain ⟨functions, hmem, heq⟩ := ih hrest hkey
      exact ⟨functions, List.mem_cons_of_mem _ hmem, heq⟩

/-- An option of an accepted description that is a list of structs. -/
structure StructList (config : Configuration) (desc : Description) (option : Configuration) (subType : Bytes) :
    Prop where
  parsed : descriptionParse config = some desc
  accepted : desc.error = none
  mem : ∃ key ∈ desc.structs, ∃ name, (name, option) ∈ attributes config key
  isList : typeOf option = some "List".toUTF8.toList
  elements : subTypeOf option = some subType
  isStruct : isBuiltinType subType = false

/-- The elements of a list of structs are a struct of the description. -/
theorem StructList.mem_structs {config option : Configuration} {desc : Description} {subType : Bytes}
    (h : StructList config desc option subType) : subType ∈ desc.structs := by
  obtain ⟨key, hkey, name, hoption⟩ := h.mem
  have hvalid := descriptionParse_accepted h.parsed h.accepted key hkey _ hoption
  obtain ⟨subType', hsub, hcases⟩ := hvalid.subType h.isList
  obtain rfl : subType = subType' := Option.some.inj (h.elements.symm.trans hsub)
  rcases hcases with hbuiltin | hmem
  · rw [h.isStruct] at hbuiltin
    cases hbuiltin
  · exact hmem

/-- **Lists of structs.** For every list of structs in an accepted description the option info names the
load and the store function of the struct. The load function fills the element that the helper passes. The
store function reads it only if the struct has no option, so that there is nothing to read. -/
theorem readsElement_iff {config option : Configuration} {desc : Description} {subType name namePrefix : Bytes}
    {source : CSource} (h : StructList config desc option subType)
    (hsource : compileToCSource config desc name namePrefix = some source) :
    ∃ info functions, printOptionInfo option "List".toUTF8.toList namePrefix = some [.setListInfo info] ∧
      functions ∈ source.structs ∧ printStructFunctionDefinition config namePrefix subType = some functions ∧
      functions.load.name = info.loadFunc ∧ functions.store.name = info.storeFunc ∧
      LoadsElements functions.load ∧
      (StoresElements functions.store ↔ attributes config subType = []) := by
  obtain ⟨written, hwritten, rfl⟩ := Option.map_eq_some_iff.mp hsource
  obtain ⟨functions, hmem, hfunctions⟩ := exists_structFunctions _ hwritten h.mem_structs
  obtain ⟨hload, hstore, hloadParams, hstoreParams, -, hfields⟩ := printStructFunctionDefinition_eq_some hfunctions
    (descriptionParse_accepted h.parsed h.accepted subType h.mem_structs)
  refine ⟨_, functions, printOptionInfo_struct namePrefix h.elements h.isStruct, hmem, hfunctions, hload, hstore,
    loadsElements _ hloadParams, ?_⟩
  rw [storesElements_iff _ hstoreParams, ← List.length_eq_zero_iff, hfields, List.length_eq_zero_iff]

/-! ### One list -/

/-- An option with a type. -/
def typedOption (name : String) (fields : List (String × String)) : Bytes × Configuration :=
  (name.toUTF8.toList, .node ⟨some name.toUTF8.toList, none, none⟩ (some (fields.map fun field =>
    (field.1.toUTF8.toList, .node ⟨some field.1.toUTF8.toList, some field.2.toUTF8.toList, none⟩ none))))

/-- The list in `listDescription`. -/
def itemsOption : Bytes × Configuration := typedOption "Items" [("Type", "List"), ("SubType", "Bar")]

/-- A description with a list of a struct that has one string. -/
def listDescription : Configuration :=
  .node ⟨none, none, none⟩ (some
    [("Foo".toUTF8.toList, .node ⟨some "Foo".toUTF8.toList, none, none⟩ (some [itemsOption])),
      ("Bar".toUTF8.toList, .node ⟨some "Bar".toUTF8.toList, none, none⟩
        (some [typedOption "Name" [("Type", "String")]]))])

/-- The structs of `listDescription`. -/
def listDescriptionParsed : Description :=
  ⟨none, none, ["Foo".toUTF8.toList, "Bar".toUTF8.toList], ["Foo".toUTF8.toList]⟩

theorem attributes_foo : attributes listDescription "Foo".toUTF8.toList = [itemsOption] := by
  have hget : listDescription.get "Foo".toUTF8.toList = some ["Foo".toUTF8.toList] := by decide +kernel
  have hfind : listDescription.find ["Foo".toUTF8.toList] =
      some (.node ⟨some "Foo".toUTF8.toList, none, none⟩ (some [itemsOption])) := by
    simp [listDescription, KeyTree.find, KeyTree.child, KeyTree.entries, KeyTree.children]
  rw [attributes, hget, Option.bind_some, hfind]
  rfl

theorem structList_items : StructList listDescription listDescriptionParsed itemsOption.2 "Bar".toUTF8.toList where
  parsed := by decide +kernel
  accepted := rfl
  mem := ⟨"Foo".toUTF8.toList, List.mem_cons_self, "Items".toUTF8.toList, by
    rw [attributes_foo]
    exact List.mem_cons_self⟩
  isList := by decide +kernel
  elements := by decide +kernel
  isStruct := by decide +kernel

theorem readsElement_iff_items :
    ∃ source info functions, compileToCSource listDescription listDescriptionParsed [] [] = some source ∧
      printOptionInfo itemsOption.2 "List".toUTF8.toList [] = some [.setListInfo info] ∧
      functions ∈ source.structs ∧
      printStructFunctionDefinition listDescription [] "Bar".toUTF8.toList = some functions ∧
      functions.load.name = info.loadFunc ∧ functions.store.name = info.storeFunc ∧
      LoadsElements functions.load ∧
      (StoresElements functions.store ↔ attributes listDescription "Bar".toUTF8.toList = []) := by
  cases hsource : compileToCSource listDescription listDescriptionParsed [] [] with
  | none => exact absurd hsource (by decide +kernel)
  | some source =>
    obtain ⟨info, functions, h⟩ := readsElement_iff structList_items hsource
    exact ⟨source, info, functions, rfl, h⟩

/-- The generated store function of `Bar` looks for the field in the option info. -/
theorem not_storesElements_items :
    StructList listDescription listDescriptionParsed itemsOption.2 "Bar".toUTF8.toList ∧
      ∃ functions, printStructFunctionDefinition listDescription [] "Bar".toUTF8.toList = some functions ∧
        functions.store.accesses (setListArgs 0 1) = [(some .info, "name".toUTF8.toList)] ∧
        ¬ StoresElements functions.store := by
  refine ⟨structList_items, ?_⟩
  cases hfunctions : printStructFunctionDefinition listDescription [] "Bar".toUTF8.toList with
  | none => exact absurd hfunctions (by decide +kernel)
  | some functions =>
    have haccess : (printStructFunctionDefinition listDescription [] "Bar".toUTF8.toList).map
        (fun functions => functions.store.accesses (setListArgs 0 1)) =
          some [(some .info, "name".toUTF8.toList)] := by decide +kernel
    rw [hfunctions, Option.map_some] at haccess
    have hread : functions.store.accesses (setListArgs 0 1) = [(some .info, "name".toUTF8.toList)] :=
      Option.some.inj haccess
    refine ⟨functions, rfl, hread, fun hstores => ?_⟩
    have hfirst := hstores 0 1 (some .info, "name".toUTF8.toList) (by rw [hread]; exact List.mem_cons_self)
    cases hfirst

end Fcitx
