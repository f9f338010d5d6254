/-
# XKB rules

`fcitx/rules.c`: the handlers that the XML parser calls while it reads a rules
file. They keep the names of the open elements, and go by the end of the joined
path. An array is a list, and `utarray_back` its last element; following NULL
gives `none`. The attributes of an element are a list, empty where they are NULL.

Key definitions: `XkbRules`, `textField`, `storeText`, `RulesEvent`, `RulesHandler.step`.
Key theorems: `storeText_eq_write`, `XkbRules.Trimmed.startElement`.
-/
import Fcitx.Lib.Slot
import Fcitx.Utils.StringUtils

namespace Fcitx

/-- `FcitxXkbVariantInfo` -/
structure XkbVariantInfo where
  name : Option Bytes
  description : Option Bytes
  languages : List Bytes
  deriving DecidableEq

/-- `FcitxXkbLayoutInfo` -/
structure XkbLayoutInfo where
  variantInfos : List XkbVariantInfo
  name : Option Bytes
  description : Option Bytes
  languages : List Bytes
  deriving DecidableEq

/-- `FcitxXkbModelInfo` -/
structure XkbModelInfo where
  name : Option Bytes
  description : Option Bytes
  vendor : Option Bytes
  deriving DecidableEq

/-- `FcitxXkbOptionInfo` -/
structure XkbOptionInfo where
  name : Option Bytes
  description : Option Bytes
  deriving DecidableEq

/-- `FcitxXkbOptionGroupInfo` -/
structure XkbOptionGroupInfo where
  optionInfos : List XkbOptionInfo
  name : Option Bytes
  description : Option Bytes
  exclusive : Bool
  deriving DecidableEq

/-- `FcitxXkbRules` -/
structure XkbRules where
  layoutInfos : List XkbLayoutInfo
  modelInfos : List XkbModelInfo
  optionGroupInfos : List XkbOptionGroupInfo
  version : Option Bytes
  deriving DecidableEq

/-- The rules that a file starts with. -/
def XkbRules.new : XkbRules := ⟨[], [], [], none⟩

/-- `FcitxXkbLayoutInfoInit` -/
def XkbLayoutInfo.init : XkbLayoutInfo := ⟨[], none, none, []⟩

/-- `FcitxXkbVariantInfoInit` -/
def XkbVariantInfo.init : XkbVariantInfo := ⟨none, none, []⟩

/-- `FcitxXkbModelInfoInit` -/
def XkbModelInfo.init : XkbModelInfo := ⟨none, none, none⟩

/-- `FcitxXkbOptionGroupInfoInit` -/
def XkbOptionGroupInfo.init : XkbOptionGroupInfo := ⟨[], none, none, false⟩

/-- `FcitxXkbOptionInfoInit` -/
def XkbOptionInfo.init : XkbOptionInfo := ⟨none, none⟩

/-! ### The last elements -/

/-- Change what `utarray_back` gives. -/
def withBack {A : Type} (l : List A) (f : A → Option A) : Option (List A) :=
  l.getLast?.bind fun a => (f a).map fun b => l.dropLast ++ [b]

namespace XkbRules

/-- Change `layoutInfo`. -/
def withLayout (rules : XkbRules) (f : XkbLayoutInfo → Option XkbLayoutInfo) : Option XkbRules :=
  (withBack rules.layoutInfos f).map fun layoutInfos => { rules with layoutInfos := layoutInfos }

/-- Change `variantInfo`. -/
def withVariant (rules : XkbRules) (f : XkbVariantInfo → Option XkbVariantInfo) : Option XkbRules :=
  rules.withLayout fun info =>
    (withBack info.variantInfos f).map fun variantInfos => { info with variantInfos := variantInfos }

/-- Change `modelInfo`. -/
def withModel (rules : XkbRules) (f : XkbModelInfo → Option XkbModelInfo) : Option XkbRules :=
  (withBack rules.modelInfos f).map fun modelInfos => { rules with modelInfos := modelInfos }

/-- Change `optionGroupInfo`. -/
def withOptionGroup (rules : XkbRules) (f : XkbOptionGroupInfo → Option XkbOptionGroupInfo) : Option XkbRules :=
  (withBack rules.optionGroupInfos f).map fun optionGroupInfos => { rules with optionGroupInfos := optionGroupInfos }

/-- Change `optionInfo`. -/
def withOption (rules : XkbRules) (f : XkbOptionInfo → Option XkbOptionInfo) : Option XkbRules :=
  rules.withOptionGroup fun info =>
    (withBack info.optionInfos f).map fun optionInfos => { info with optionInfos := optionInfos }

end XkbRules

/-! ### The handlers -/

/-- `fcitx_utils_string_list_join(path, '/')` -/
def joinPath : List Bytes → Bytes
  | [] => []
  | [name] => name
  | name :: path => name ++ 47 :: joinPath path

/-- The branches of `RulesHandlerStartElement`. -/
def startElement (strPath : Bytes) (atts : List (Bytes × Bytes)) (rules : XkbRules) : Option XkbRules :=
  if endsWith strPath "layoutList/layout/configItem".toUTF8.toList then
    some { rules with layoutInfos := rules.layoutInfos ++ [XkbLayoutInfo.init] }
  else if endsWith strPath "layoutList/layout/variantList/variant".toUTF8.toList then
    rules.withLayout fun info => some { info with variantInfos := info.variantInfos ++ [XkbVariantInfo.init] }
  else if endsWith strPath "modelList/model".toUTF8.toList then
    some { rules with modelInfos := rules.modelInfos ++ [XkbModelInfo.init] }
  else if endsWith strPath "optionList/group".toUTF8.toList then
    let exclusive := atts.foldl (fun exclusive att =>
      if att.1 = "allowMultipleSelection".toUTF8.toList then decide (att.2 ≠ "true".toUTF8.toList)
      else exclusive) XkbOptionGroupInfo.init.exclusive
    some { rules with
      optionGroupInfos := rules.optionGroupInfos ++ [{ XkbOptionGroupInfo.init with exclusive := exclusive }] }
  else if endsWith strPath "optionList/group/option".toUTF8.toList then
    rules.withOptionGroup fun info => some { info with optionInfos := info.optionInfos ++ [XkbOptionInfo.init] }
  else if strPath = "xkbConfigRegistry".toUTF8.toList then
    some { rules with
      version := atts.foldl (fun version att =>
        if att.1 = "version".toUTF8.toList ∧ att.2 ≠ [] then some att.2 else version) rules.version }
  else some rules

/-- The texts that `RulesHandlerCharacters` stores. -/
inductive TextField where
  | layoutName
  | layoutDescription
  | layoutLanguage
  | variantName
  | variantDescription
  | variantLanguage
  | modelName
  | modelDescription
  | modelVendor
  | groupName
  | groupDescription
  | optionName
  | optionDescription
  deriving DecidableEq

/-- The conditions of `RulesHandlerCharacters`. -/
def textField (strPath : Bytes) : Option TextField :=
  if endsWith strPath "layoutList/layout/configItem/name".toUTF8.toList then some .layoutName
  else if endsWith strPath "layoutList/layout/configItem/description".toUTF8.toList then some .layoutDescription
  else if endsWith strPath "layoutList/layout/configItem/languageList/iso639Id".toUTF8.toList then
    some .layoutLanguage
  else if endsWith strPath "layoutList/layout/variantList/variant/configItem/name".toUTF8.toList then
    some .variantName
  else if endsWith strPath "layoutList/layout/variantList/variant/configItem/description".toUTF8.toList then
    some .variantDescription
  else if endsWith strPath
      "layoutList/layout/variantList/variant/configItem/languageList/iso639Id".toUTF8.toList then
    some .variantLanguage
  else if endsWith strPath "modelList/model/configItem/name".toUTF8.toList then some .modelName
  else if endsWith strPath "modelList/model/configItem/description".toUTF8.toList then some .modelDescription
  else if endsWith strPath "modelList/model/configItem/vendor".toUTF8.toList then some .modelVendor
  else if endsWith strPath "optionList/group/configItem/name".toUTF8.toList then some .groupName
  else if endsWith strPath "optionList/group/configItem/description".toUTF8.toList then some .groupDescription
  else if endsWith strPath "optionList/group/option/configItem/name".toUTF8.toList then some .optionName
  else if endsWith strPath "optionList/group/option/configItem/description".toUTF8.toList then
    some .optionDescription
  else none

/-- The branches of `RulesHandlerCharacters`. -/
def storeText (rules : XkbRules) (trimmed : Bytes) : TextField → Option XkbRules
  | .layoutName =>
    -- the only branch that checks `layoutInfo`
    if rules.layoutInfos = [] then some rules
    else rules.withLayout fun info => some { info with name := some trimmed }
  | .layoutDescription => rules.withLayout fun info => some { info with description := some trimmed }
  | .layoutLanguage => rules.withLayout fun info => some { info with languages := info.languages ++ [trimmed] }
  | .variantName => rules.withVariant fun info => some { info with name := some trimmed }
  | .variantDescription => rules.withVariant fun info => some { info with description := some trimmed }
  | .variantLanguage => rules.withVariant fun info => some { info with languages := info.languages ++ [trimmed] }
  | .modelName => rules.withModel fun info => some { info with name := some trimmed }
  | .modelDescription => rules.withModel fun info => some { info with description := some trimmed }
  | .modelVendor => rules.withModel fun info => some { info with vendor := some trimmed }
  | .groupName => rules.withOptionGroup fun info => some { info with name := some trimmed }
  | .groupDescription => rules.withOptionGroup fun info => some { info with description := some trimmed }
  | .optionName => rules.withOption fun info => some { info with name := some trimmed }
  | .optionDescription => rules.withOption fun info => some { info with description := some trimmed }

/-- What the parser calls the handlers with. -/
inductive RulesEvent where
  | startElement (name : Bytes) (atts : List (Bytes × Bytes))
  | characters (ch : Bytes)
  | endElement (name : Bytes)
  deriving DecidableEq

/-- `FcitxXkbRulesHandler` -/
structure RulesHandler where
  path : List Bytes
  rules : XkbRules
  deriving DecidableEq

namespace RulesHandler

/-- `RulesHandlerStartElement` -/
def rulesHandlerStartElement (handler : RulesHandler) (name : Bytes) (atts : List (Bytes × Bytes)) :
    Option RulesHandler :=
  let path := handler.path ++ [name]
  (Fcitx.startElement (joinPath path) atts handler.rules).map fun rules => ⟨path, rules⟩

/-- `RulesHandlerEndElement` -/
def rulesHandlerEndElement (handler : RulesHandler) : RulesHandler := { handler with path := handler.path.dropLast }

/-- `RulesHandlerCharacters` -/
def rulesHandlerCharacters (handler : RulesHandler) (ch : Bytes) : Option RulesHandler :=
  let trimmed := trim (cString ch)
  if trimmed = [] then some handler
  else
    match textField (joinPath handler.path) with
    | none => some handler
    | some field => (storeText handler.rules trimmed field).map fun rules => { handler with rules := rules }

/-- One call of a handler. -/
def step (handler : RulesHandler) : RulesEvent → Option RulesHandler
  | .startElement name atts => handler.rulesHandlerStartElement name atts
  | .characters ch => handler.rulesHandlerCharacters ch
  | .endElement _ => some handler.rulesHandlerEndElement

/-- The handler at the start of a file. -/
def new : RulesHandler := ⟨[], XkbRules.new⟩

/-- The calls for a file. -/
def run (events : List RulesEvent) : Option RulesHandler := events.foldlM step new

end RulesHandler

/-! ### The fields as slots -/

/-- What a field holds: one text, or a list of them. -/
inductive TextKind where
  | one
  | many

namespace TextKind

/-- The values of a field. -/
abbrev Content : TextKind → Type
  | one => Option Bytes
  | many => List Bytes

/-- A new text in a field. -/
def put : (kind : TextKind) → Bytes → kind.Content → kind.Content
  | one, text, _ => some text
  | many, text, old => old ++ [text]

/-- A text that is there does not start with white space. -/
def Trimmed : (kind : TextKind) → kind.Content → Prop
  | one, content => ∀ text, content = some text → ∀ c, text.head? = some c → isspace c = false
  | many, _ => True

end TextKind

namespace XkbRules

/-- `layoutInfo` -/
def layout : Slot XkbRules XkbLayoutInfo :=
  (Slot.total layoutInfos (fun infos rules => { rules with layoutInfos := infos }) (fun _ _ => rfl) (fun _ => rfl)
    fun _ _ _ => rfl).comp .back

/-- `variantInfo` -/
def variant : Slot XkbRules XkbVariantInfo :=
  layout.comp ((Slot.total XkbLayoutInfo.variantInfos (fun infos info => { info with variantInfos := infos })
    (fun _ _ => rfl) (fun _ => rfl) fun _ _ _ => rfl).comp .back)

/-- `modelInfo` -/
def model : Slot XkbRules XkbModelInfo :=
  (Slot.total modelInfos (fun infos rules => { rules with modelInfos := infos }) (fun _ _ => rfl) (fun _ => rfl)
    fun _ _ _ => rfl).comp .back

/-- `optionGroupInfo` -/
def optionGroup : Slot XkbRules XkbOptionGroupInfo :=
  (Slot.total optionGroupInfos (fun infos rules => { rules with optionGroupInfos := infos }) (fun _ _ => rfl)
    (fun _ => rfl) fun _ _ _ => rfl).comp .back

/-- `optionInfo` -/
def option : Slot XkbRules XkbOptionInfo :=
  optionGroup.comp ((Slot.total XkbOptionGroupInfo.optionInfos (fun infos info => { info with optionInfos := infos })
    (fun _ _ => rfl) (fun _ => rfl) fun _ _ _ => rfl).comp .back)

end XkbRules

namespace TextField

/-- What a field holds. -/
def kind : TextField → TextKind
  | layoutLanguage => .many
  | variantLanguage => .many
  | _ => .one

/-- Where a field is. -/
def slot : (field : TextField) → Slot XkbRules field.kind.Content
  | layoutName => XkbRules.layout.comp (.total XkbLayoutInfo.name (fun text info => { info with name := text })
      (fun _ _ => rfl) (fun _ => rfl) fun _ _ _ => rfl)
  | layoutDescription => XkbRules.layout.comp (.total XkbLayoutInfo.description
      (fun text info => { info with description := text }) (fun _ _ => rfl) (fun _ => rfl) fun _ _ _ => rfl)
  | layoutLanguage => XkbRules.layout.comp (.total XkbLayoutInfo.languages
      (fun texts info => { info with languages := texts }) (fun _ _ => rfl) (fun _ => rfl) fun _ _ _ => rfl)
  | variantName => XkbRules.variant.comp (.total XkbVariantInfo.name (fun text info => { info with name := text })
      (fun _ _ => rfl) (fun _ => rfl) fun _ _ _ => rfl)
  | variantDescription => XkbRules.variant.comp (.total XkbVariantInfo.description
      (fun text info => { info with description := text }) (fun _ _ => rfl) (fun _ => rfl) fun _ _ _ => rfl)
  | variantLanguage => XkbRules.variant.comp (.total XkbVariantInfo.languages
      (fun texts info => { info with languages := texts }) (fun _ _ => rfl) (fun _ => rfl) fun _ _ _ => rfl)
  | modelName => XkbRules.model.comp (.total XkbModelInfo.name (fun text info => { info with name := text })
      (fun _ _ => rfl) (fun _ => rfl) fun _ _ _ => rfl)
  | modelDescription => XkbRules.model.comp (.total XkbModelInfo.description
      (fun text info => { info with description := text }) (fun _ _ => rfl) (fun _ => rfl) fun _ _ _ => rfl)
  | modelVendor => XkbRules.model.comp (.total XkbModelInfo.vendor (fun text info => { info with vendor := text })
      (fun _ _ => rfl) (fun _ => rfl) fun _ _ _ => rfl)
  | groupName => XkbRules.optionGroup.comp (.total XkbOptionGroupInfo.name
      (fun text info => { info with name := text }) (fun _ _ => rfl) (fun _ => rfl) fun _ _ _ => rfl)
  | groupDescription => XkbRules.optionGroup.comp (.total XkbOptionGroupInfo.description
      (fun text info => { info with description := text }) (fun _ _ => rfl) (fun _ => rfl) fun _ _ _ => rfl)
  | optionName => XkbRules.option.comp (.total XkbOptionInfo.name (fun text info => { info with name := text })
      (fun _ _ => rfl) (fun _ => rfl) fun _ _ _ => rfl)
  | optionDescription => XkbRules.option.comp (.total XkbOptionInfo.description
      (fun text info => { info with description := text }) (fun _ _ => rfl) (fun _ => rfl) fun _ _ _ => rfl)

end TextField

/-- Changing the last element is an update of its slot. -/
theorem withBack_eq_update {A : Type} (l : List A) (f : A → Option A) : withBack l f = Slot.back.update f l := by
  unfold withBack Slot.update Slot.back
  cases l with
  | nil => rfl
  | cons a l => rfl

namespace XkbRules

theorem withLayout_eq (rules : XkbRules) (f : XkbLayoutInfo → Option XkbLayoutInfo) :
    rules.withLayout f = layout.update f rules := by
  rw [withLayout, withBack_eq_update, layout, Slot.comp_update]
  rfl

theorem withVariant_eq (rules : XkbRules) (f : XkbVariantInfo → Option XkbVariantInfo) :
    rules.withVariant f = variant.update f rules := by
  unfold withVariant variant
  rw [withLayout_eq, Slot.comp_update]
  simp only [withBack_eq_update, Slot.comp_update]
  rfl

theorem withModel_eq (rules : XkbRules) (f : XkbModelInfo → Option XkbModelInfo) :
    rules.withModel f = model.update f rules := by
  rw [withModel, withBack_eq_update, model, Slot.comp_update]
  rfl

theorem withOptionGroup_eq (rules : XkbRules) (f : XkbOptionGroupInfo → Option XkbOptionGroupInfo) :
    rules.withOptionGroup f = optionGroup.update f rules := by
  rw [withOptionGroup, withBack_eq_update, optionGroup, Slot.comp_update]
  rfl

theorem withOption_eq (rules : XkbRules) (f : XkbOptionInfo → Option XkbOptionInfo) :
    rules.withOption f = option.update f rules := by
  unfold withOption option
  rw [withOptionGroup_eq, Slot.comp_update]
  simp only [withBack_eq_update, Slot.comp_update]
  rfl

end XkbRules

/-- **Storing a text** is writing to the slot of the field, if its info is there. -/
theorem storeText_eq_write {rules : XkbRules} {field : TextField} (h : (field.slot.get rules).isSome)
    (trimmed : Bytes) : storeText rules trimmed field = field.slot.write (field.kind.put trimmed) rules := by
  rw [Slot.write_eq_update]
  cases field with
  | layoutName =>
    have hne : rules.layoutInfos ≠ [] := by
      intro hnil
      simp [TextField.slot, XkbRules.layout, Slot.comp, Slot.total, Slot.back, hnil] at h
    rw [storeText, if_neg hne, XkbRules.withLayout_eq, TextField.slot, Slot.comp_update]
    rfl
  | _ =>
    simp only [storeText, XkbRules.withLayout_eq, XkbRules.withVariant_eq, XkbRules.withModel_eq,
      XkbRules.withOptionGroup_eq, XkbRules.withOption_eq, TextField.slot, Slot.comp_update]
    rfl

/-! ### Stored texts -/

/-- The texts of an info do not start with white space. -/
structure XkbVariantInfo.Trimmed (info : XkbVariantInfo) : Prop where
  name : TextKind.one.Trimmed info.name
  description : TextKind.one.Trimmed info.description

/-- The texts of an info do not start with white space. -/
structure XkbLayoutInfo.Trimmed (info : XkbLayoutInfo) : Prop where
  name : TextKind.one.Trimmed info.name
  description : TextKind.one.Trimmed info.description
  variantInfos : ∀ variantInfo ∈ info.variantInfos, variantInfo.Trimmed

/-- The texts of an info do not start with white space. -/
structure XkbModelInfo.Trimmed (info : XkbModelInfo) : Prop where
  name : TextKind.one.Trimmed info.name
  description : TextKind.one.Trimmed info.description
  vendor : TextKind.one.Trimmed info.vendor

/-- The texts of an info do not start with white space. -/
structure XkbOptionInfo.Trimmed (info : XkbOptionInfo) : Prop where
  name : TextKind.one.Trimmed info.name
  description : TextKind.one.Trimmed info.description

/-- The texts of an info do not start with white space. -/
structure XkbOptionGroupInfo.Trimmed (info : XkbOptionGroupInfo) : Prop where
  name : TextKind.one.Trimmed info.name
  description : TextKind.one.Trimmed info.description
  optionInfos : ∀ optionInfo ∈ info.optionInfos, optionInfo.Trimmed

namespace XkbRules

/-- Names, descriptions and vendors do not start with white space. -/
structure Trimmed (rules : XkbRules) : Prop where
  layoutInfos : ∀ info ∈ rules.layoutInfos, info.Trimmed
  modelInfos : ∀ info ∈ rules.modelInfos, info.Trimmed
  optionGroupInfos : ∀ info ∈ rules.optionGroupInfos, info.Trimmed

theorem layout_respects : layout.Respects Trimmed XkbLayoutInfo.Trimmed := by
  refine (Slot.respects_total (fun _ h => h.layoutInfos) ?_).comp (Slot.respects_back _)
  intro rules infos h hinfos
  exact { h with layoutInfos := hinfos }

theorem variant_respects : variant.Respects Trimmed XkbVariantInfo.Trimmed := by
  refine layout_respects.comp ((Slot.respects_total (fun _ h => h.variantInfos) ?_).comp (Slot.respects_back _))
  intro info infos h hinfos
  exact { h with variantInfos := hinfos }

theorem model_respects : model.Respects Trimmed XkbModelInfo.Trimmed := by
  refine (Slot.respects_total (fun _ h => h.modelInfos) ?_).comp (Slot.respects_back _)
  intro rules infos h hinfos
  exact { h with modelInfos := hinfos }

theorem optionGroup_respects : optionGroup.Respects Trimmed XkbOptionGroupInfo.Trimmed := by
  refine (Slot.respects_total (fun _ h => h.optionGroupInfos) ?_).comp (Slot.respects_back _)
  intro rules infos h hinfos
  exact { h with optionGroupInfos := hinfos }

theorem option_respects : option.Respects Trimmed XkbOptionInfo.Trimmed := by
  refine optionGroup_respects.comp ((Slot.respects_total (fun _ h => h.optionInfos) ?_).comp (Slot.respects_back _))
  intro info infos h hinfos
  exact { h with optionInfos := hinfos }

end XkbRules

/-- **Every field is a slot that respects this.** -/
theorem TextField.slot_respects (field : TextField) : field.slot.Respects XkbRules.Trimmed field.kind.Trimmed := by
  cases field with
  | layoutName =>
    exact XkbRules.layout_respects.comp
      (Slot.respects_total (fun _ h => h.name) fun _ _ h hb => { h with name := hb })
  | layoutDescription =>
    exact XkbRules.layout_respects.comp
      (Slot.respects_total (fun _ h => h.description) fun _ _ h hb => { h with description := hb })
  | layoutLanguage =>
    exact XkbRules.layout_respects.comp
      (Slot.respects_total (fun _ _ => trivial) fun _ _ h _ => ⟨h.name, h.description, h.variantInfos⟩)
  | variantName =>
    exact XkbRules.variant_respects.comp
      (Slot.respects_total (fun _ h => h.name) fun _ _ h hb => { h with name := hb })
  | variantDescription =>
    exact XkbRules.variant_respects.comp
      (Slot.respects_total (fun _ h => h.description) fun _ _ h hb => { h with description := hb })
  | variantLanguage =>
    exact XkbRules.variant_respects.comp
      (Slot.respects_total (fun _ _ => trivial) fun _ _ h _ => ⟨h.name, h.description⟩)
  | modelName =>
    exact XkbRules.model_respects.comp
      (Slot.respects_total (fun _ h => h.name) fun _ _ h hb => { h with name := hb })
  | modelDescription =>
    exact XkbRules.model_respects.comp
      (Slot.respects_total (fun _ h => h.description) fun _ _ h hb => { h with description := hb })
  | modelVendor =>
    exact XkbRules.model_respects.comp
      (Slot.respects_total (fun _ h => h.vendor) fun _ _ h hb => { h with vendor := hb })
  | groupName =>
    exact XkbRules.optionGroup_respects.comp
      (Slot.respects_total (fun _ h => h.name) fun _ _ h hb => { h with name := hb })
  | groupDescription =>
    exact XkbRules.optionGroup_respects.comp
      (Slot.respects_total (fun _ h => h.description) fun _ _ h hb => { h with description := hb })
  | optionName =>
    exact XkbRules.option_respects.comp
      (Slot.respects_total (fun _ h => h.name) fun _ _ h hb => { h with name := hb })
  | optionDescription =>
    exact XkbRules.option_respects.comp
      (Slot.respects_total (fun _ h => h.description) fun _ _ h hb => { h with description := hb })

/-- Nothing is stored yet. -/
theorem TextKind.trimmed_none : TextKind.one.Trimmed none := by
  intro text h
  cases h

/-- A new last element. -/
theorem forall_mem_concat {A : Type} {P : A → Prop} {l : List A} {a : A} (hl : ∀ b ∈ l, P b) (ha : P a) :
    ∀ b ∈ l ++ [a], P b := by
  intro b hb
  rcases List.mem_append.mp hb with hb | hb
  · exact hl b hb
  · rw [List.mem_singleton.mp hb]
    exact ha

/-- **The start of an element** stores no name, description or vendor. -/
theorem XkbRules.Trimmed.startElement {rules rules' : XkbRules} {strPath : Bytes} {atts : List (Bytes × Bytes)}
    (h : rules.Trimmed) (hstart : Fcitx.startElement strPath atts rules = some rules') : rules'.Trimmed := by
  have hnone := TextKind.trimmed_none
  unfold Fcitx.startElement at hstart
  split at hstart
  · obtain rfl := Option.some.inj hstart
    exact { h with layoutInfos := forall_mem_concat h.layoutInfos ⟨hnone, hnone,
      fun _ hv => absurd hv List.not_mem_nil⟩ }
  · split at hstart
    · rw [XkbRules.withLayout_eq, ← Slot.write_eq_update] at hstart
      refine XkbRules.layout_respects.write (fun info hinfo => ?_) h hstart
      exact { hinfo with variantInfos := forall_mem_concat hinfo.variantInfos ⟨hnone, hnone⟩ }
    · split at hstart
      · obtain rfl := Option.some.inj hstart
        exact { h with modelInfos := forall_mem_concat h.modelInfos ⟨hnone, hnone, hnone⟩ }
      · split at hstart
        · obtain rfl := Option.some.inj hstart
          exact { h with
            optionGroupInfos := forall_mem_concat h.optionGroupInfos
              ⟨hnone, hnone, fun _ ho => absurd ho List.not_mem_nil⟩ }
        · split at hstart
          · rw [XkbRules.withOptionGroup_eq, ← Slot.write_eq_update] at hstart
            refine XkbRules.optionGroup_respects.write (fun info hinfo => ?_) h hstart
            exact { hinfo with optionInfos := forall_mem_concat hinfo.optionInfos ⟨hnone, hnone⟩ }
          · split at hstart
            · obtain rfl := Option.some.inj hstart
              exact ⟨h.layoutInfos, h.modelInfos, h.optionGroupInfos⟩
            · obtain rfl := Option.some.inj hstart
              exact h

end Fcitx
