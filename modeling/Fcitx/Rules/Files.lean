/-
# The files of the rules

`fcitx_xkb_rules_new` reads a rules file, and where its name ends in `.xml` also the file
with the extra rules, which it merges. Each element of interest in one of the files is
in the rules in the end; only a layout of the extra file can share the entry of another.

Key definitions: `InfoKind`, `XkbRules.count`, `elements`, `xkbRulesNew`.
Key theorems: `startElement_count`, `storeText_count`, `run_count`, `xkbRulesNew_count`.
-/
import Fcitx.Rules.Merge
import Mathlib.Algebra.Ring.Nat

namespace Fcitx

/-- What an element can make an entry for. -/
inductive InfoKind where
  | layout
  | variant
  | model
  | optionGroup
  | option
  deriving DecidableEq

/-- The end of the path of such an element. -/
def InfoKind.suffix : InfoKind → Bytes
  | layout => "layoutList/layout/configItem".toUTF8.toList
  | variant => "layoutList/layout/variantList/variant".toUTF8.toList
  | model => "modelList/model".toUTF8.toList
  | optionGroup => "optionList/group".toUTF8.toList
  | option => "optionList/group/option".toUTF8.toList

/-- A path ends in at most one of these ways. -/
theorem InfoKind.endsWith_unique {strPath : Bytes} {k k' : InfoKind} (h : endsWith strPath k.suffix = true)
    (h' : endsWith strPath k'.suffix = true) : k = k' := by
  obtain ⟨front, hfront⟩ := List.isSuffixOf_iff_suffix.mp h
  obtain ⟨front', hfront'⟩ := List.isSuffixOf_iff_suffix.mp h'
  have hlast : k.suffix.getLast? = k'.suffix.getLast? := by
    have hne : ∀ kind : InfoKind, kind.suffix ≠ [] := fun kind => by cases kind <;> decide +kernel
    have hof : ∀ front (kind : InfoKind), (front ++ kind.suffix).getLast? = kind.suffix.getLast? := fun front kind =>
      List.getLast?_append_of_ne_nil front (hne kind)
    rw [← hof front k, ← hof front' k', hfront, hfront']
  revert hlast
  cases k <;> cases k' <;> decide +kernel

namespace XkbRules

/-- How many entries there are. -/
def count (rules : XkbRules) : InfoKind → ℕ
  | .layout => rules.layoutInfos.length
  | .variant => (rules.layoutInfos.map fun info => info.variantInfos.length).sum
  | .model => rules.modelInfos.length
  | .optionGroup => rules.optionGroupInfos.length
  | .option => (rules.optionGroupInfos.map fun info => info.optionInfos.length).sum

end XkbRules

/-! ### The handlers -/

section back

variable {A : Type} {l l' : List A} {f : A → Option A}

theorem withBack_length (h : withBack l f = some l') : l'.length = l.length := by
  obtain ⟨a, hlast, h⟩ := Option.bind_eq_some_iff.mp h
  obtain ⟨b, -, rfl⟩ := Option.map_eq_some_iff.mp h
  obtain ⟨front, rfl⟩ := List.getLast?_eq_some_iff.mp hlast
  rw [List.dropLast_concat, List.length_append, List.length_append]
  rfl

theorem withBack_sum {μ : A → ℕ} {d : ℕ} (hf : ∀ a b, f a = some b → μ b = μ a + d) (h : withBack l f = some l') :
    (l'.map μ).sum = (l.map μ).sum + d := by
  obtain ⟨a, hlast, h⟩ := Option.bind_eq_some_iff.mp h
  obtain ⟨b, hb, rfl⟩ := Option.map_eq_some_iff.mp h
  obtain ⟨front, rfl⟩ := List.getLast?_eq_some_iff.mp hlast
  rw [List.dropLast_concat, List.map_append, List.map_append, List.sum_append, List.sum_append, List.map_singleton,
    List.map_singleton, List.sum_singleton, List.sum_singleton, hf a b hb, Nat.add_assoc]

end back

namespace XkbRules

variable {rules rules' : XkbRules}

/-- Changing a layout, which gets `d` new variants. -/
theorem withLayout_count {f : XkbLayoutInfo → Option XkbLayoutInfo} {d : ℕ}
    (hf : ∀ info info', f info = some info' → info'.variantInfos.length = info.variantInfos.length + d)
    (h : rules.withLayout f = some rules') (k : InfoKind) :
    rules'.count k = rules.count k + if k = .variant then d else 0 := by
  obtain ⟨layoutInfos, hback, rfl⟩ := Option.map_eq_some_iff.mp h
  cases k with
  | layout => exact withBack_length hback
  | variant => exact withBack_sum hf hback
  | model => rfl
  | optionGroup => rfl
  | option => rfl

theorem withVariant_count {f : XkbVariantInfo → Option XkbVariantInfo} (h : rules.withVariant f = some rules')
    (k : InfoKind) : rules'.count k = rules.count k := by
  have hsame := withLayout_count (d := 0) (fun info info' hinfo => by
    obtain ⟨variantInfos, hback, rfl⟩ := Option.map_eq_some_iff.mp hinfo
    exact withBack_length hback) h k
  rwa [ite_self, Nat.add_zero] at hsame

theorem withModel_count {f : XkbModelInfo → Option XkbModelInfo} (h : rules.withModel f = some rules')
    (k : InfoKind) : rules'.count k = rules.count k := by
  obtain ⟨modelInfos, hback, rfl⟩ := Option.map_eq_some_iff.mp h
  cases k with
  | model => exact withBack_length hback
  | layout => rfl
  | variant => rfl
  | optionGroup => rfl
  | option => rfl

/-- Changing a group, which gets `d` new options. -/
theorem withOptionGroup_count {f : XkbOptionGroupInfo → Option XkbOptionGroupInfo} {d : ℕ}
    (hf : ∀ info info', f info = some info' → info'.optionInfos.length = info.optionInfos.length + d)
    (h : rules.withOptionGroup f = some rules') (k : InfoKind) :
    rules'.count k = rules.count k + if k = .option then d else 0 := by
  obtain ⟨optionGroupInfos, hback, rfl⟩ := Option.map_eq_some_iff.mp h
  cases k with
  | optionGroup => exact withBack_length hback
  | option => exact withBack_sum hf hback
  | layout => rfl
  | variant => rfl
  | model => rfl

theorem withOption_count {f : XkbOptionInfo → Option XkbOptionInfo} (h : rules.withOption f = some rules')
    (k : InfoKind) : rules'.count k = rules.count k := by
  have hsame := withOptionGroup_count (d := 0) (fun info info' hinfo => by
    obtain ⟨optionInfos, hback, rfl⟩ := Option.map_eq_some_iff.mp hinfo
    exact withBack_length hback) h k
  rwa [ite_self, Nat.add_zero] at hsame

end XkbRules

variable {rules rules' : XkbRules} {strPath : Bytes}

/-- **The start of an element** makes one entry, if the path ends in one of the ways. -/
theorem startElement_count {atts : List (Bytes × Bytes)} (h : startElement strPath atts rules = some rules')
    (k : InfoKind) : rules'.count k = rules.count k + if endsWith strPath k.suffix = true then 1 else 0 := by
  -- the other kinds are not counted
  have honly : ∀ kind, endsWith strPath (InfoKind.suffix kind) = true →
      (endsWith strPath k.suffix = true ↔ k = kind) := fun _ hkind =>
    ⟨fun hk => InfoKind.endsWith_unique hk hkind, fun hk => hk ▸ hkind⟩
  unfold startElement at h
  split at h
  · next hpath =>
    obtain rfl := Option.some.inj h
    simp only [honly .layout hpath]
    cases k with
    | layout => exact List.length_append
    | variant =>
      simp only [XkbRules.count, List.map_append, List.sum_append]
      rfl
    | model => rfl
    | optionGroup => rfl
    | option => rfl
  · next hlayout =>
    split at h
    · next hpath =>
      simp only [honly .variant hpath]
      refine XkbRules.withLayout_count (fun info info' hinfo => ?_) h k
      obtain rfl := Option.some.inj hinfo
      exact List.length_append
    · next hvariant =>
      split at h
      · next hpath =>
        obtain rfl := Option.some.inj h
        simp only [honly .model hpath]
        cases k with
        | model => exact List.length_append
        | layout => rfl
        | variant => rfl
        | optionGroup => rfl
        | option => rfl
      · next hmodel =>
        split at h
        · next hpath =>
          obtain rfl := Option.some.inj h
          simp only [honly .optionGroup hpath]
          cases k with
          | optionGroup => exact List.length_append
          | option =>
            simp only [XkbRules.count, List.map_append, List.sum_append]
            rfl
          | layout => rfl
          | variant => rfl
          | model => rfl
        · next hgroup =>
          split at h
          · next hpath =>
            simp only [honly .option hpath]
            refine XkbRules.withOptionGroup_count (fun info info' hinfo => ?_) h k
            obtain rfl := Option.some.inj hinfo
            exact List.length_append
          · next hoption =>
            have hnone : ¬ endsWith strPath k.suffix = true := by
              cases k with
              | layout => exact hlayout
              | variant => exact hvariant
              | model => exact hmodel
              | optionGroup => exact hgroup
              | option => exact hoption
            rw [if_neg hnone]
            split at h
            · obtain rfl := Option.some.inj h
              cases k <;> rfl
            · obtain rfl := Option.some.inj h
              rfl

/-- A text makes no entry. -/
theorem storeText_count {trimmed : Bytes} {field : TextField} (h : storeText rules trimmed field = some rules')
    (k : InfoKind) : rules'.count k = rules.count k := by
  have hlayout : ∀ {f : XkbLayoutInfo → Option XkbLayoutInfo}, rules.withLayout f = some rules' →
      (∀ info info', f info = some info' → info'.variantInfos = info.variantInfos) →
      rules'.count k = rules.count k := by
    intro f h hf
    have hsame := XkbRules.withLayout_count (d := 0)
      (fun info info' hinfo => congrArg List.length (hf info info' hinfo)) h k
    rwa [ite_self, Nat.add_zero] at hsame
  have hgroup : ∀ {f : XkbOptionGroupInfo → Option XkbOptionGroupInfo}, rules.withOptionGroup f = some rules' →
      (∀ info info', f info = some info' → info'.optionInfos = info.optionInfos) →
      rules'.count k = rules.count k := by
    intro f h hf
    have hsame := XkbRules.withOptionGroup_count (d := 0)
      (fun info info' hinfo => congrArg List.length (hf info info' hinfo)) h k
    rwa [ite_self, Nat.add_zero] at hsame
  cases field with
  | layoutName =>
    rw [storeText] at h
    split at h
    · rw [Option.some.inj h]
    · exact hlayout h fun _ _ hinfo => Option.some.inj hinfo ▸ rfl
  | layoutDescription => exact hlayout h fun _ _ hinfo => Option.some.inj hinfo ▸ rfl
  | layoutLanguage => exact hlayout h fun _ _ hinfo => Option.some.inj hinfo ▸ rfl
  | variantName => exact XkbRules.withVariant_count h k
  | variantDescription => exact XkbRules.withVariant_count h k
  | variantLanguage => exact XkbRules.withVariant_count h k
  | modelName => exact XkbRules.withModel_count h k
  | modelDescription => exact XkbRules.withModel_count h k
  | modelVendor => exact XkbRules.withModel_count h k
  | groupName => exact hgroup h fun _ _ hinfo => Option.some.inj hinfo ▸ rfl
  | groupDescription => exact hgroup h fun _ _ hinfo => Option.some.inj hinfo ▸ rfl
  | optionName => exact XkbRules.withOption_count h k
  | optionDescription => exact XkbRules.withOption_count h k

/-! ### A whole file -/

/-- The joined paths of the elements that are opened, from some open ones on. -/
def elementPaths : List Bytes → List RulesEvent → List Bytes
  | _, [] => []
  | path, .startElement name _ :: events => joinPath (path ++ [name]) :: elementPaths (path ++ [name]) events
  | path, .characters _ :: events => elementPaths path events
  | path, .endElement _ :: events => elementPaths path.dropLast events

/-- How many elements there are for some entry. -/
def elements (k : InfoKind) (events : List RulesEvent) : ℕ :=
  (elementPaths [] events).countP fun strPath => endsWith strPath k.suffix

/-- The calls for a part of a file. -/
theorem foldlM_count {events : List RulesEvent} {handler handler' : RulesHandler}
    (h : events.foldlM RulesHandler.step handler = some handler') (k : InfoKind) :
    handler'.rules.count k =
      handler.rules.count k + (elementPaths handler.path events).countP fun strPath => endsWith strPath k.suffix := by
  induction events generalizing handler with
  | nil =>
    rw [List.foldlM_nil] at h
    rw [← Option.some.inj h]
    rfl
  | cons event events ih =>
    rw [List.foldlM_cons] at h
    obtain ⟨next, hstep, hrest⟩ := Option.bind_eq_some_iff.mp h
    rw [ih hrest]
    cases event with
    | startElement name atts =>
      obtain ⟨rules, hstart, rfl⟩ := Option.map_eq_some_iff.mp hstep
      rw [elementPaths, List.countP_cons, startElement_count hstart k]
      dsimp only
      omega
    | characters ch =>
      rw [RulesHandler.step, RulesHandler.rulesHandlerCharacters] at hstep
      rw [elementPaths]
      split at hstep
      · rw [Option.some.inj hstep]
      · split at hstep
        · rw [Option.some.inj hstep]
        · obtain ⟨rules, hstore, rfl⟩ := Option.map_eq_some_iff.mp hstep
          rw [storeText_count hstore k]
    | endElement name =>
      rw [← Option.some.inj hstep]
      rfl

/-- **A file that is read** has an entry for each element. -/
theorem run_count {events : List RulesEvent} {handler : RulesHandler} (h : RulesHandler.run events = some handler)
    (k : InfoKind) : handler.rules.count k = elements k events := by
  rw [foldlM_count h k]
  have hnew : RulesHandler.new.rules.count k = 0 := by cases k <;> rfl
  rw [hnew, Nat.zero_add]
  rfl

/-! ### Both files -/

/-- `fcitx_xkb_rules_new`, with the calls of the parser for a file. A name that is too short for `extra_len` is read
from before its start. -/
def xkbRulesNew (parse : Bytes → List RulesEvent) (file : Bytes) : Option XkbRules := do
  let handler ← RulesHandler.run (parse file)
  if file.length < ".xml".toUTF8.toList.length then none
  else
    let extraLen := file.length - ".xml".toUTF8.toList.length
    if file.drop extraLen = ".xml".toUTF8.toList then do
      let extra ← RulesHandler.run (parse (file.take extraLen ++ ".extras.xml".toUTF8.toList))
      handler.rules.mergeRules extra.rules
    else some handler.rules

/-- The variants with the names of their layouts. -/
def XkbRules.namedVariants (rules : XkbRules) : List (Option Bytes × XkbVariantInfo) :=
  rules.layoutInfos.flatMap fun info => info.variantInfos.map fun variant => (info.name, variant)

theorem XkbRules.length_namedVariants (rules : XkbRules) : rules.namedVariants.length = rules.count .variant := by
  rw [namedVariants, List.length_flatMap]
  simp only [List.length_map]
  rfl

/-- **Each variant stays** with a layout of its name. -/
theorem XkbRules.mergeRules_namedVariants {rules rulesextra result : XkbRules}
    (h : rules.mergeRules rulesextra = some result) :
    result.namedVariants.Perm (rules.namedVariants ++ rulesextra.namedVariants) := by
  rw [mergeRules_eq_some h]
  refine Rows.flatMap_merged_perm XkbLayoutInfo.absorb_name (fun r row hname => ?_) _ _
  change List.Perm ((r.variantInfos ++ row.variantInfos).map _) _
  rw [List.map_append, hname]
  exact List.Perm.refl _

/-- The number of entries after a merge. -/
theorem XkbRules.mergeRules_count {rules rulesextra result : XkbRules} (h : rules.mergeRules rulesextra = some result)
    {k : InfoKind} (hk : k ≠ .layout) : result.count k = rules.count k + rulesextra.count k := by
  cases k with
  | layout => exact absurd rfl hk
  | variant =>
    rw [← length_namedVariants, ← length_namedVariants, ← length_namedVariants, (mergeRules_namedVariants h).length_eq,
      List.length_append]
  | model =>
    rw [mergeRules_eq_some h]
    exact List.length_append
  | optionGroup =>
    rw [mergeRules_eq_some h]
    exact List.length_append
  | option =>
    rw [mergeRules_eq_some h]
    change ((rules.optionGroupInfos ++ rulesextra.optionGroupInfos).map _).sum = _
    rw [List.map_append, List.sum_append]
    rfl

/-- No layout of the first file is lost. -/
theorem XkbRules.mergeRules_layouts {rules rulesextra result : XkbRules}
    (h : rules.mergeRules rulesextra = some result) :
    rules.count .layout ≤ result.count .layout ∧
      result.count .layout ≤ rules.count .layout + rulesextra.count .layout := by
  have hlength := Rows.length_merged (fun info : XkbLayoutInfo => info.name) XkbLayoutInfo.absorb rules.layoutInfos
    rulesextra.layoutInfos
  rw [mergeRules_eq_some h]
  change rules.layoutInfos.length ≤ (Rows.merged _ _ _ _).length ∧
    (Rows.merged _ _ _ _).length ≤ rules.layoutInfos.length + rulesextra.layoutInfos.length
  constructor
  · exact hlength ▸ Nat.le_add_right _ _
  · refine hlength ▸ Nat.add_le_add_left ?_ _
    exact List.length_filter_le _ _

/-- The files that are read. -/
def rulesFiles (file : Bytes) : List Bytes :=
  let extraLen := file.length - ".xml".toUTF8.toList.length
  if file.drop extraLen = ".xml".toUTF8.toList then [file, file.take extraLen ++ ".extras.xml".toUTF8.toList]
  else [file]

/-- **`fcitx_xkb_rules_new`** has an entry for each element of the files; the layouts of the extra file may go into
others, and their variants stay with the name. -/
theorem xkbRulesNew_count {parse : Bytes → List RulesEvent} {file : Bytes} {rules : XkbRules}
    (h : xkbRulesNew parse file = some rules) :
    (∀ k, k ≠ .layout → rules.count k = ((rulesFiles file).map fun f => elements k (parse f)).sum) ∧
      elements .layout (parse file) ≤ rules.count .layout ∧
      rules.count .layout ≤ ((rulesFiles file).map fun f => elements .layout (parse f)).sum ∧
      ∃ reads, (rulesFiles file).mapM (fun f => (RulesHandler.run (parse f)).map (·.rules)) = some reads ∧
        rules.namedVariants.Perm (reads.flatMap (·.namedVariants)) := by
  obtain ⟨handler, hrun, h⟩ := Option.bind_eq_some_iff.mp h
  have hcount := run_count hrun
  unfold rulesFiles
  dsimp only at h ⊢
  split at h
  · cases h
  · split at h
    · next hxml =>
      obtain ⟨extra, hextra, hmerge⟩ := Option.bind_eq_some_iff.mp h
      have hextraCount := run_count hextra
      rw [if_pos hxml]
      simp only [List.map_cons, List.map_nil, List.sum_cons, List.sum_nil, Nat.add_zero]
      obtain ⟨hall, hmost⟩ := XkbRules.mergeRules_layouts hmerge
      refine ⟨fun k hk => ?_, ?_, ?_, [handler.rules, extra.rules], ?_, ?_⟩
      · rw [XkbRules.mergeRules_count hmerge hk, hcount, hextraCount]
      · rwa [← hcount]
      · rwa [← hcount, ← hextraCount]
      · rw [List.mapM_cons, List.mapM_cons, List.mapM_nil, hrun, hextra]
        rfl
      · rw [List.flatMap_cons, List.flatMap_cons, List.flatMap_nil, List.append_nil]
        exact XkbRules.mergeRules_namedVariants hmerge
    · next hxml =>
      obtain rfl := Option.some.inj h
      rw [if_neg hxml]
      simp only [List.map_cons, List.map_nil, List.sum_cons, List.sum_nil, Nat.add_zero]
      refine ⟨fun k _ => hcount k, (hcount .layout).ge, (hcount .layout).le, [handler.rules], ?_, ?_⟩
      · rw [List.mapM_cons, List.mapM_nil, hrun]
        rfl
      · rw [List.flatMap_cons, List.flatMap_nil, List.append_nil]

/-- The calls for a layout with a variant. -/
def layoutCalls (name variant : String) : List RulesEvent :=
  let start (s : String) := RulesEvent.startElement s.toUTF8.toList []
  let text (s : String) := RulesEvent.characters s.toUTF8.toList
  let close := RulesEvent.endElement []
  [start "layout", start "configItem", start "name", text name, close, close, start "variantList", start "variant",
    start "configItem", start "name", text variant, close, close, close, close, close]

/-- A layout `us` in both files, and one more in the second. -/
def usCalls (file : Bytes) : List RulesEvent :=
  if file = "r.xml".toUTF8.toList then
    .startElement "layoutList".toUTF8.toList [] :: layoutCalls "us" "intl" ++ [.endElement []]
  else
    .startElement "layoutList".toUTF8.toList [] :: layoutCalls "us" "colemak" ++ layoutCalls "de" "neo" ++
      [.endElement []]

theorem xkbRulesNew_count_us :
    ∃ rules, xkbRulesNew usCalls "r.xml".toUTF8.toList = some rules ∧ rules.count .variant = 3 := by
  obtain ⟨rules, hrules⟩ := Option.isSome_iff_exists.mp
    (show (xkbRulesNew usCalls "r.xml".toUTF8.toList).isSome = true by decide +kernel)
  refine ⟨rules, hrules, ((xkbRulesNew_count hrules).1 .variant (by decide)).trans ?_⟩
  decide +kernel

end Fcitx
