/-
# Translated strings

A translation is stored in an option of its own beside the string, `path[locale]`, and
read by going through the subitems of the root, whose names are compared with the
path. So the translations of a path with a slash are not found, and a translation from
before is read although it is not in the string that was stored.

Key definitions: `I18NString`, `Configuration.setI18nString`, `Configuration.getI18nString`.
Key theorems: `getI18nStringForeach_bracketed`, `foldlM_getI18nString`,
`values_setI18nString`, `Configuration.getI18nString_setI18nString_iff`.
-/
import Fcitx.Config.IniPrintable
import Fcitx.Config.Options
import Fcitx.Config.Paths

namespace Fcitx

/-- `FcitxI18NString`, the texts of the locales as an insertion-ordered map. -/
abbrev I18NString := List (Bytes × Bytes)

/-- `fcitx_dict_insert` of a text. -/
def insertText (str : I18NString) (key value : Bytes) (replace : Bool) : I18NString :=
  match str.lookup key with
  | some _ => if replace then Assoc.modify str key fun _ => value else str
  | none => str ++ [(key, value)]

/-- `'['` -/
def bracketOpen : UInt8 := 91

/-- `']'` -/
def bracketClose : UInt8 := 93

/-- `get_i18n_string_foreach`; a name that is shorter than the prefix has been left out before its end is read. -/
def getI18nStringForeach (pathPrefix : Bytes) : ForeachCallback I18NString := fun config path str =>
  match config.data.value with
  | none => some str
  | some value =>
    if startsWith path pathPrefix = false then some str
    else if path.at pathPrefix.length ≠ bracketOpen then some str
    else if path.at (path.length - 1) ≠ bracketClose then some str
    else
      let key := (path.drop (pathPrefix.length + 1)).take (path.length - pathPrefix.length - 2)
      some (insertText str key value true)

/-- The path that `set_i18n_string_foreach` writes to. -/
def writtenPath (path key : Bytes) : Bytes :=
  if key.length ≠ 0 then path ++ bracketOpen :: cString key ++ [bracketClose] else path

namespace Configuration

/-- `fcitx_configuration_get_i18n_string`; `none` is a write to NULL. -/
def getI18nString (config : Configuration) (path : Bytes) (defaultValue : Option Bytes) : Option I18NString :=
  let value := getValueByPathWithDefault (some config) path defaultValue []
  config.foreach [] [] (getI18nStringForeach path) (insertText [] [] value false)

/-- `fcitx_configuration_set_i18n_string`; `none` is NULL. -/
def setI18nString (config : Configuration) (path : Bytes) (str : Option I18NString) : Configuration :=
  match str with
  | none => config
  | some str => str.foldl (fun config e => config.setValueByPath (writtenPath path e.1) (some e.2)) config

end Configuration

/-! ### Inserting -/

theorem lookup_insertText (str : I18NString) (key value locale : Bytes) :
    (insertText str key value true).lookup locale = if locale = key then some value else str.lookup locale := by
  unfold insertText
  cases hkey : str.lookup key with
  | some old =>
    dsimp only
    rw [if_pos rfl, Assoc.lookup_modify, hkey, Option.map_some]
  | none =>
    dsimp only
    rw [Assoc.lookup_concat hkey]

/-! ### The names of translations -/

/-- The byte behind a piece of a string. -/
theorem at_length_append (front rest : Bytes) : (front ++ rest).at front.length = rest.at 0 := by
  unfold Bytes.at
  rw [List.getD_eq_getElem?_getD, List.getD_eq_getElem?_getD, List.getElem?_append_right (Nat.le_refl _),
    Nat.sub_self]

/-- The name of a translation. -/
def bracketed (path locale : Bytes) : Bytes := path ++ bracketOpen :: locale ++ [bracketClose]

theorem bracketed_inj {path locale locale' : Bytes} : bracketed path locale = bracketed path locale' ↔
    locale = locale' := by
  unfold bracketed
  rw [List.append_left_inj, List.append_right_inj, List.cons_inj_right]

theorem writtenPath_eq {path key : Bytes} (hzero : 0 ∉ key) :
    writtenPath path key = if key = [] then path else bracketed path key := by
  unfold writtenPath
  rw [cString_of_noZero hzero]
  by_cases hkey : key = []
  · rw [if_pos hkey, if_neg (by rw [hkey]; decide)]
  · rw [if_neg hkey, if_pos fun hlen => hkey (List.length_eq_zero_iff.mp hlen)]
    rfl

/-- **A translation** is taken with its locale. -/
theorem getI18nStringForeach_bracketed (pathPrefix locale : Bytes) (config : Configuration) (str : I18NString) :
    getI18nStringForeach pathPrefix config (bracketed pathPrefix locale) str =
      some (match config.data.value with
        | none => str
        | some value => insertText str locale value true) := by
  unfold getI18nStringForeach
  cases config.data.value with
  | none => rfl
  | some value =>
    have hlen : (bracketed pathPrefix locale).length = pathPrefix.length + 1 + locale.length + 1 := by
      simp only [bracketed, List.length_append, List.length_cons, List.length_nil]
      omega
    have hstart : startsWith (bracketed pathPrefix locale) pathPrefix = true := by
      rw [startsWith, List.isPrefixOf_iff_prefix, bracketed, List.append_assoc]
      exact List.prefix_append _ _
    have hopen : (bracketed pathPrefix locale).at pathPrefix.length = bracketOpen := by
      rw [bracketed, List.append_assoc, at_length_append]
      rfl
    have hclose : (bracketed pathPrefix locale).at ((bracketed pathPrefix locale).length - 1) = bracketClose := by
      have hplace : (bracketed pathPrefix locale).length - 1 = (pathPrefix ++ bracketOpen :: locale).length := by
        rw [hlen, List.length_append, List.length_cons]
        omega
      rw [hplace, bracketed, at_length_append]
      rfl
    have hkey : ((bracketed pathPrefix locale).drop (pathPrefix.length + 1)).take
        ((bracketed pathPrefix locale).length - pathPrefix.length - 2) = locale := by
      have hdrop : (bracketed pathPrefix locale).drop (pathPrefix.length + 1) = locale ++ [bracketClose] := by
        rw [bracketed, List.append_assoc, ← List.drop_drop, List.drop_left]
        rfl
      have hcount : (bracketed pathPrefix locale).length - pathPrefix.length - 2 = locale.length := by omega
      rw [hdrop, hcount, List.take_left]
    dsimp only
    rw [hstart, if_neg (by decide), if_neg (not_not.mpr hopen), if_neg (not_not.mpr hclose), hkey]

/-- A name that is not one of a translation is passed over. -/
theorem getI18nStringForeach_other {pathPrefix path : Bytes} (h : ∀ locale, path ≠ bracketed pathPrefix locale)
    (config : Configuration) (str : I18NString) : getI18nStringForeach pathPrefix config path str = some str := by
  unfold getI18nStringForeach
  cases config.data.value with
  | none => rfl
  | some value =>
    dsimp only
    split
    · rfl
    · next hstart =>
      rw [Bool.not_eq_false, startsWith, List.isPrefixOf_iff_prefix] at hstart
      obtain ⟨rest, rfl⟩ := hstart
      split
      · rfl
      · next hopen =>
        rw [not_not, at_length_append] at hopen
        split
        · rfl
        · next hclose =>
          rw [not_not] at hclose
          exfalso
          cases rest with
          | nil => exact absurd hopen (by decide)
          | cons b rest =>
            obtain rfl : b = bracketOpen := hopen
            rcases List.eq_nil_or_concat rest with rfl | ⟨locale, c, rfl⟩
            · -- the bracket is the last byte
              have hplace : (pathPrefix ++ [bracketOpen]).length - 1 = pathPrefix.length := by
                rw [List.length_append, List.length_singleton, Nat.add_sub_cancel]
              rw [hplace, at_length_append] at hclose
              exact absurd hclose (by decide)
            · have hsplit : pathPrefix ++ bracketOpen :: (locale ++ [c]) =
                  pathPrefix ++ bracketOpen :: locale ++ [c] := by
                rw [List.append_assoc]
                rfl
              have hplace : (pathPrefix ++ bracketOpen :: locale ++ [c]).length - 1 =
                  (pathPrefix ++ bracketOpen :: locale).length := by
                rw [List.length_append, List.length_singleton, Nat.add_sub_cancel]
              rw [List.concat_eq_append] at h hclose
              rw [hsplit, hplace, at_length_append] at hclose
              obtain rfl : c = bracketClose := hclose
              exact h locale hsplit

/-! ### Reading the translations -/

open Fcitx.Configuration (subPath)

/-- **Going through the subitems** finds for each locale the translation of that name. -/
theorem foldlM_getI18nString (path : Bytes) {items : List (Bytes × Configuration)}
    (hnd : (Assoc.keys items).Nodup) (hzero : ∀ k ∈ Assoc.keys items, 0 ∉ k) (str : I18NString) :
    ∃ out, items.foldlM (fun str item =>
        getI18nStringForeach path item.2 (cString (subPath [] item.1)) str) str = some out ∧
      ∀ locale, out.lookup locale =
        ((items.lookup (bracketed path locale)).bind Configuration.getValue).or (str.lookup locale) := by
  induction items generalizing str with
  | nil => exact ⟨str, rfl, fun _ => rfl⟩
  | cons item items ih =>
    obtain ⟨key, config⟩ := item
    obtain ⟨hkey, hrestnd⟩ := List.nodup_cons.mp hnd
    obtain ⟨hkeyzero, hrestzero⟩ := List.forall_mem_cons.mp hzero
    have hpath : cString (subPath [] key) = key := by
      rw [subPath, if_pos rfl, cString_of_noZero hkeyzero]
    rw [List.foldlM_cons, hpath]
    by_cases hname : ∃ locale, key = bracketed path locale
    · obtain ⟨locale, rfl⟩ := hname
      rw [getI18nStringForeach_bracketed]
      obtain ⟨out, hout, hlookup⟩ := ih hrestnd hrestzero (match config.data.value with
        | none => str
        | some value => insertText str locale value true)
      refine ⟨out, hout, fun locale' => ?_⟩
      rw [hlookup, List.lookup_cons]
      by_cases hlocale : locale' = locale
      · -- no other subitem has the name
        have hrest : items.lookup (bracketed path locale) = none := Assoc.lookup_eq_none_iff.mpr hkey
        rw [hlocale, hrest, beq_self_eq_true]
        show _ = config.data.value.or _
        cases config.data.value with
        | none => rfl
        | some value =>
          show (insertText str locale value true).lookup locale = _
          rw [lookup_insertText, if_pos rfl]
          rfl
      · have hne : (bracketed path locale' == bracketed path locale) = false :=
          beq_false_of_ne fun heq => hlocale (bracketed_inj.mp heq)
        rw [hne]
        congr 1
        cases config.data.value with
        | none => rfl
        | some value =>
          show (insertText str locale value true).lookup locale' = _
          rw [lookup_insertText, if_neg hlocale]
    · have hother : ∀ locale, key ≠ bracketed path locale := fun locale heq => hname ⟨locale, heq⟩
      rw [getI18nStringForeach_other hother]
      obtain ⟨out, hout, hlookup⟩ := ih hrestnd hrestzero str
      refine ⟨out, hout, fun locale => ?_⟩
      have hne : (bracketed path locale == key) = false := beq_false_of_ne fun heq => hother locale heq.symm
      rw [hlookup, List.lookup_cons, hne]

/-! ### Storing the translations -/

/-- What is written behind the path. -/
def writtenText (key : Bytes) : Bytes := if key = [] then [] else bracketOpen :: key ++ [bracketClose]

theorem writtenText_of_ne {key : Bytes} (h : key ≠ []) : writtenText key = bracketOpen :: key ++ [bracketClose] :=
  if_neg h

theorem writtenText_inj {key key' : Bytes} : writtenText key = writtenText key' ↔ key = key' := by
  refine ⟨fun h => ?_, fun h => h ▸ rfl⟩
  by_cases hkey : key = []
  · by_cases hkey' : key' = []
    · rw [hkey, hkey']
    · rw [hkey, writtenText_of_ne hkey'] at h
      cases h
  · by_cases hkey' : key' = []
    · rw [hkey', writtenText_of_ne hkey] at h
      cases h
    · rw [writtenText_of_ne hkey, writtenText_of_ne hkey', List.append_left_inj, List.cons_inj_right] at h
      exact h

theorem notMem_writtenText {key : Bytes} {b : UInt8} (h : b ∉ key) (hopen : b ≠ bracketOpen)
    (hclose : b ≠ bracketClose) : b ∉ writtenText key := by
  unfold writtenText
  split
  · exact List.not_mem_nil
  · intro hmem
    rcases List.mem_append.mp hmem with hmem | hmem
    · exact (List.mem_cons.mp hmem).elim hopen h
    · exact hclose (List.mem_singleton.mp hmem)

theorem slash_notMem_writtenText {key : Bytes} (h : slash ∉ key) : slash ∉ writtenText key :=
  notMem_writtenText h (by decide) (by decide)

theorem writtenPath_eq_append {path key : Bytes} (hzero : 0 ∉ key) :
    writtenPath path key = path ++ writtenText key := by
  rw [writtenPath_eq hzero, writtenText]
  split
  · rw [List.append_nil]
  · rw [bracketed, List.append_assoc]

/-- The locales of a string can stand in a path. -/
def LocaleNames (str : I18NString) : Prop := ∀ e ∈ str, slash ∉ e.1 ∧ 0 ∉ e.1

instance localeNamesDecidable (str : I18NString) : Decidable (LocaleNames str) :=
  inferInstanceAs (Decidable (∀ e ∈ str, slash ∉ e.1 ∧ 0 ∉ e.1))

/-- Different locales are written to different segments. -/
theorem segments_writtenPath_inj {path key key' : Bytes} (hpath : path ≠ []) (h : slash ∉ key ∧ 0 ∉ key)
    (h' : slash ∉ key' ∧ 0 ∉ key') :
    segments (writtenPath path key) = segments (writtenPath path key') ↔ key = key' := by
  obtain ⟨front, last, -, happend⟩ := segments_append_text hpath
  rw [writtenPath_eq_append h.2, writtenPath_eq_append h'.2, happend _ (slash_notMem_writtenText h.1),
    happend _ (slash_notMem_writtenText h'.1), List.append_right_inj, List.singleton_inj, List.append_right_inj,
    writtenText_inj]

namespace Configuration

/-- **What storing a string writes**: each text at the segments of its path. -/
theorem values_setI18nString {root : Configuration} (hd : root.Distinct) (hkeys : root.SegmentKeys) {path : Bytes}
    (hpath : path ≠ []) (hzero : 0 ∉ path) {str : I18NString} (hnd : (Assoc.keys str).Nodup)
    (hlocales : LocaleNames str) :
    (root.setI18nString path (some str)).Distinct ∧ (root.setI18nString path (some str)).SegmentKeys ∧
      ∀ js, (root.setI18nString path (some str)).values js =
        ((str.find? fun e => segments (writtenPath path e.1) = js).map Prod.snd).or (root.values js) := by
  induction str generalizing root with
  | nil => exact ⟨hd, hkeys, fun _ => rfl⟩
  | cons e str ih =>
    obtain ⟨hkey, hnd⟩ := List.nodup_cons.mp hnd
    obtain ⟨hlocale, hlocales⟩ := List.forall_mem_cons.mp hlocales
    have hwritten : 0 ∉ writtenPath path e.1 := by
      rw [writtenPath_eq_append hlocale.2, List.mem_append, not_or]
      exact ⟨hzero, notMem_writtenText hlocale.2 (by decide) (by decide)⟩
    obtain ⟨hd', hvalues⟩ := values_setValueByPath hd (writtenPath path e.1) (some e.2)
    obtain ⟨hdall, hkeysall, hall⟩ := ih hd' (hkeys.setValueByPath hd hwritten (some e.2)) hnd hlocales
    refine ⟨hdall, hkeysall, fun js => (hall js).trans ?_⟩
    rw [hvalues, PathMap.setValue, Function.update_apply, List.find?_cons]
    by_cases hjs : js = segments (writtenPath path e.1)
    · -- no later text goes to the same place
      have hrest : (str.find? fun e' => segments (writtenPath path e'.1) = js) = none := by
        rw [List.find?_eq_none]
        intro e' he' heq
        rw [decide_eq_true_eq, hjs, segments_writtenPath_inj hpath (hlocales e' he') hlocale] at heq
        exact hkey (List.mem_map.mpr ⟨e', he', heq⟩)
      rw [hrest, if_pos hjs, decide_eq_true hjs.symm]
      rfl
    · rw [if_neg hjs, decide_eq_false fun heq => hjs heq.symm]

/-- What is found where a text was written. -/
theorem find?_writtenPath {path key : Bytes} (hpath : path ≠ []) (hkey : slash ∉ key ∧ 0 ∉ key) {str : I18NString}
    (hlocales : LocaleNames str) :
    (str.find? fun e => segments (writtenPath path e.1) = segments (writtenPath path key)).map Prod.snd =
      str.lookup key := by
  induction str with
  | nil => rfl
  | cons e str ih =>
    obtain ⟨hlocale, hlocales⟩ := List.forall_mem_cons.mp hlocales
    rw [List.find?_cons, List.lookup_cons]
    by_cases heq : e.1 = key
    · rw [decide_eq_true ((segments_writtenPath_inj hpath hlocale hkey).mpr heq), heq, beq_self_eq_true]
      rfl
    · rw [decide_eq_false fun h => heq ((segments_writtenPath_inj hpath hlocale hkey).mp h),
        beq_false_of_ne (Ne.symm heq)]
      exact ih hlocales

/-! ### Storing and reading -/

/-- **What is read**: for each locale the value of the subitem of that name, and the value at the path. -/
theorem getI18nString_eq {root : Configuration} (hd : root.Distinct) (hkeys : root.SegmentKeys) {path text : Bytes}
    (htext : root.getValueByPath path = some text) (defaultValue : Option Bytes) :
    (root.firstKey [] = some [] → root.getI18nString path defaultValue = none) ∧
      (root.firstKey [] ≠ some [] → ∃ out, root.getI18nString path defaultValue = some out ∧
        ∀ locale, out.lookup locale =
          (root.values [bracketed path locale]).or (if locale = [] then some text else none)) := by
  have hnull : root.NullBuffer [] ↔ root.firstKey [] = some [] := and_iff_right rfl
  unfold getI18nString
  dsimp only
  rw [getValueByPathWithDefault_of_some htext, foreach_nil, _foreach_eq]
  refine ⟨fun hfirst => if_pos (hnull.mpr hfirst), fun hfirst => ?_⟩
  rw [if_neg fun h => hfirst (hnull.mp h)]
  have hnd : (Assoc.keys root.entries).Nodup := hd.nodup
  have hzero : ∀ k ∈ Assoc.keys root.entries, 0 ∉ k := by
    intro k hk
    obtain ⟨e, he, rfl⟩ := List.mem_map.mp hk
    have hfind : (root.find [e.1]).isSome := by
      rw [find_singleton, hd.child_of_mem he]
      rfl
    exact (hkeys [e.1] hfind e.1 (List.mem_singleton.mpr rfl)).2
  obtain ⟨out, hout, hlookup⟩ := foldlM_getI18nString path hnd hzero (insertText [] [] text false)
  refine ⟨out, hout, fun locale => ?_⟩
  have hchild : root.entries.lookup (bracketed path locale) = root.child (bracketed path locale) :=
    Option.ext fun c => (Assoc.lookup_eq_some_iff hnd).trans (KeyTree.child_eq_some_iff hnd).symm
  rw [hlookup, values_eq, find_singleton, hchild]
  congr 1
  show List.lookup locale [([], text)] = _
  rw [List.lookup_cons]
  by_cases hlocale : locale = []
  · rw [hlocale]
    rfl
  · rw [beq_false_of_ne hlocale, if_neg hlocale]
    rfl

/-- When the string that is read at a path is the one that was stored there. -/
structure I18nKept (root : Configuration) (path : Bytes) (str : I18NString) : Prop where
  /-- the first subitem of the root has a name -/
  named : (root.firstKey []).or (str.head?.bind fun e => (segments (writtenPath path e.1)).head?) ≠ some []
  /-- the option is at the top, or there are no translations -/
  top : slash ∉ path ∨ ∀ e ∈ str, e.1 = []
  /-- there is no translation from before that the string does not have -/
  fresh : ∀ locale text, root.values [bracketed path locale] = some text →
    if locale = [] then str.lookup [] = some text else locale ∈ Assoc.keys str

/-- The first subitem after storing a string. -/
theorem firstKey_setI18nString {root : Configuration} (hd : root.Distinct) (path : Bytes) {str : I18NString}
    (hpath : path ≠ []) (hlocales : LocaleNames str) : (root.setI18nString path (some str)).firstKey [] =
      (root.firstKey []).or (str.head?.bind fun e => (segments (writtenPath path e.1)).head?) := by
  have hfold := (foldl_setValueByPath (str.map fun e => (writtenPath path e.1, e.2)) hd).2 []
  rw [List.foldl_map] at hfold
  rw [setI18nString, hfold]
  congr 1
  cases str with
  | nil => rfl
  | cons e str =>
    obtain ⟨front, last, -, happend⟩ := segments_append_text hpath
    obtain ⟨hslash, hzero⟩ := hlocales e List.mem_cons_self
    have hsegments : segments (writtenPath path e.1) = front ++ [last ++ writtenText e.1] := by
      rw [writtenPath_eq_append hzero, happend _ (slash_notMem_writtenText hslash)]
    have hnext : nextSegment [] (segments (writtenPath path e.1)) = (segments (writtenPath path e.1)).head? := by
      rw [nextSegment, if_pos List.nil_prefix, List.head?_eq_getElem?]
      rfl
    rw [List.map_cons, List.filterMap_cons, hnext, List.head?_cons, Option.bind_some, hsegments]
    cases front <;> rfl

/-- A translation that is written at the top. -/
theorem segments_bracketed {path locale : Bytes} (hpath : path ≠ []) (hslash : slash ∉ path)
    (hlocale : slash ∉ locale ∧ 0 ∉ locale) (hne : locale ≠ []) :
    segments (writtenPath path locale) = [bracketed path locale] := by
  have hname : writtenPath path locale = bracketed path locale := by
    rw [writtenPath_eq hlocale.2, if_neg hne]
  have hnot : slash ∉ bracketed path locale := by
    rw [← hname, writtenPath_eq_append hlocale.2, List.mem_append, not_or]
    exact ⟨hslash, slash_notMem_writtenText hlocale.1⟩
  rw [hname]
  refine segments_of_notMem (fun hnil => ?_) hnot
  exact hpath (List.append_eq_nil_iff.mp (List.append_eq_nil_iff.mp hnil).1).1

/-- **What is stored beside a path**, read by the names of the subitems. -/
theorem values_bracketed {root : Configuration} (hd : root.Distinct) (hkeys : root.SegmentKeys) {path : Bytes}
    (hpath : path ≠ []) (hzero : 0 ∉ path) {str : I18NString} (hnd : (Assoc.keys str).Nodup)
    (hlocales : LocaleNames str) (hslash : slash ∉ path) (locale : Bytes) :
    (root.setI18nString path (some str)).values [bracketed path locale] =
      (if locale = [] then none else str.lookup locale).or (root.values [bracketed path locale]) := by
  obtain ⟨-, -, hvalues⟩ := values_setI18nString hd hkeys hpath hzero hnd hlocales
  rw [hvalues]
  congr 1
  -- a text that is written there has the locale
  have hplace : ∀ e ∈ str, segments (writtenPath path e.1) = [bracketed path locale] → e.1 = locale ∧ locale ≠ [] := by
    intro e he heq
    by_cases hempty : e.1 = []
    · rw [hempty, writtenPath_eq List.not_mem_nil, if_pos rfl, segments_of_notMem hpath hslash, List.singleton_inj,
        bracketed, List.append_assoc, List.self_eq_append_right] at heq
      cases heq
    · rw [segments_bracketed hpath hslash (hlocales e he) hempty, List.singleton_inj, bracketed_inj] at heq
      exact ⟨heq, heq ▸ hempty⟩
  by_cases hlocale : ∃ e ∈ str, e.1 = locale ∧ locale ≠ []
  · obtain ⟨e, he, rfl, hne⟩ := hlocale
    rw [if_neg hne, ← segments_bracketed hpath hslash (hlocales e he) hne]
    exact find?_writtenPath hpath (hlocales e he) hlocales
  · have hnone : (str.find? fun e => segments (writtenPath path e.1) = [bracketed path locale]) = none := by
      rw [List.find?_eq_none]
      intro e he heq
      exact hlocale ⟨e, he, hplace e he (of_decide_eq_true heq)⟩
    rw [hnone]
    split
    · rfl
    · next hne =>
      symm
      refine Assoc.lookup_eq_none_iff.mpr fun hmem => ?_
      obtain ⟨e, he, heq⟩ := List.mem_map.mp hmem
      exact hlocale ⟨e, he, heq, hne⟩

/-- A path with a slash has no translation among the subitems of the root. -/
theorem values_bracketed_slash {root : Configuration} (hkeys : root.SegmentKeys) {path : Bytes} (hslash : slash ∈ path)
    (locale : Bytes) : root.values [bracketed path locale] = none := by
  rw [values_eq]
  cases hfind : root.find [bracketed path locale] with
  | none => rfl
  | some u =>
    have hname := hkeys [bracketed path locale] (by rw [hfind]; rfl) _ (List.mem_singleton.mpr rfl)
    exact absurd (List.mem_append_left _ (List.mem_append_left _ hslash)) hname.1

/-- **A translated string is read as it was stored** exactly if the first subitem of the root has a name, the
option is at the top or has no translations, and no translation is left from before. -/
theorem getI18nString_setI18nString_iff (root : Configuration) (hd : root.Distinct) (hkeys : root.SegmentKeys)
    (path : Bytes) (hpath : path ≠ []) (hzero : 0 ∉ path) (defaultValue : Option Bytes) (str : I18NString)
    (hnd : (Assoc.keys str).Nodup) (hempty : [] ∈ Assoc.keys str) (hlocales : LocaleNames str) :
    (∃ out, (root.setI18nString path (some str)).getI18nString path defaultValue = some out ∧
      ∀ locale, out.lookup locale = str.lookup locale) ↔ root.I18nKept path str := by
  obtain ⟨hd', hkeys', hvalues⟩ := values_setI18nString hd hkeys hpath hzero hnd hlocales
  obtain ⟨text, htext⟩ : ∃ text, str.lookup [] = some text := by
    cases hlookup : str.lookup [] with
    | none => exact absurd hempty (Assoc.lookup_eq_none_iff.mp hlookup)
    | some text => exact ⟨text, rfl⟩
  have hstored : (root.setI18nString path (some str)).getValueByPath path = some text := by
    have hfind := find?_writtenPath hpath (show slash ∉ [] ∧ 0 ∉ [] from ⟨List.not_mem_nil, List.not_mem_nil⟩) hlocales
    rw [writtenPath_eq List.not_mem_nil, if_pos rfl, htext] at hfind
    rw [getValueByPath_eq, hvalues, hfind]
    rfl
  obtain ⟨hnull, hread⟩ := getI18nString_eq hd' hkeys' hstored defaultValue
  rw [firstKey_setI18nString hd path hpath hlocales] at hnull hread
  by_cases hnamed : (root.firstKey []).or (str.head?.bind fun e => (segments (writtenPath path e.1)).head?) = some []
  · refine iff_of_false ?_ fun hkept => hkept.named hnamed
    rintro ⟨out, hout, -⟩
    rw [hnull hnamed] at hout
    cases hout
  · obtain ⟨out, hout, hlookup⟩ := hread hnamed
    have hiff : (∃ out, (root.setI18nString path (some str)).getI18nString path defaultValue = some out ∧
        ∀ locale, out.lookup locale = str.lookup locale) ↔ ∀ locale, out.lookup locale = str.lookup locale := by
      refine ⟨?_, fun hall => ⟨out, hout, hall⟩⟩
      rintro ⟨out', hout', hall⟩
      rw [hout] at hout'
      rwa [Option.some.inj hout']
    rw [hiff]
    by_cases hslash : slash ∈ path
    · -- nothing but the value at the path is read
      have hall : ∀ locale, out.lookup locale = if locale = [] then some text else none := by
        intro locale
        rw [hlookup, values_bracketed_slash hkeys' hslash, Option.none_or]
      constructor
      · intro hsame
        refine ⟨hnamed, Or.inr fun e he => ?_, fun locale stale hstale => ?_⟩
        · by_contra hne
          have hnone := (hsame e.1).symm.trans ((hall e.1).trans (if_neg hne))
          exact Assoc.lookup_eq_none_iff.mp hnone (List.mem_map.mpr ⟨e, he, rfl⟩)
        · rw [values_bracketed_slash hkeys hslash] at hstale
          cases hstale
      · intro hkept locale
        have honly := hkept.top.resolve_left (not_not.mpr hslash)
        rw [hall locale]
        split
        · next hlocale => rw [hlocale, htext]
        · next hlocale =>
          symm
          refine Assoc.lookup_eq_none_iff.mpr fun hmem => ?_
          obtain ⟨e, he, heq⟩ := List.mem_map.mp hmem
          exact hlocale (heq ▸ honly e he)
    · have hall : ∀ locale, out.lookup locale = ((if locale = [] then none else str.lookup locale).or
          (root.values [bracketed path locale])).or (if locale = [] then some text else none) := by
        intro locale
        rw [hlookup, values_bracketed hd hkeys hpath hzero hnd hlocales hslash]
      constructor
      · intro hsame
        refine ⟨hnamed, Or.inl hslash, fun locale stale hstale => ?_⟩
        have hboth := (hall locale).symm.trans (hsame locale)
        rw [hstale] at hboth
        split
        · next hlocale =>
          rw [hlocale] at hboth
          exact hboth.symm
        · next hlocale =>
          by_contra hnot
          rw [if_neg hlocale, Assoc.lookup_eq_none_iff.mpr hnot] at hboth
          cases hboth
      · intro hkept locale
        rw [hall locale]
        by_cases hlocale : locale = []
        · rw [hlocale, if_pos rfl, if_pos rfl, Option.none_or, htext]
          cases hstale : root.values [bracketed path []] with
          | none => rfl
          | some stale =>
            have hsame := hkept.fresh [] stale hstale
            rw [if_pos rfl, htext] at hsame
            rw [hsame]
            rfl
        · rw [if_neg hlocale, if_neg hlocale, Option.or_none]
          cases hstr : str.lookup locale with
          | some value => rfl
          | none =>
            rw [Option.none_or]
            cases hstale : root.values [bracketed path locale] with
            | none => rfl
            | some stale =>
              have hmem := hkept.fresh locale stale hstale
              rw [if_neg hlocale] at hmem
              exact absurd hmem (Assoc.lookup_eq_none_iff.mp hstr)

/-- A string with one translation, at the top of a new configuration. -/
theorem getI18nString_setI18nString_iff_top :
    let str : I18NString := [([], [78]), ([106, 97], [74, 65])]
    ∃ out, ((Configuration.new none).setI18nString [78] (some str)).getI18nString [78] none = some out ∧
      ∀ locale, out.lookup locale = str.lookup locale := by
  intro str
  refine (getI18nString_setI18nString_iff (Configuration.new none) KeyTree.distinct_leaf (segmentKeys_new none) [78]
    (by decide) (by decide) none str (by decide) (by decide) (by decide)).mpr ⟨by decide +kernel, ?_, ?_⟩
  · exact Or.inl (by decide)
  · intro locale text hvalue
    cases hvalue

/-- The translation of an option in a group is not read. -/
theorem not_getI18nString_nested :
    ¬ ∀ (root : Configuration) (path : Bytes) (str : I18NString), root.Distinct → root.SegmentKeys → path ≠ [] →
      0 ∉ path → bracketOpen ∉ path → (Assoc.keys str).Nodup → [] ∈ Assoc.keys str → LocaleNames str →
      ∃ out, (root.setI18nString path (some str)).getI18nString path none = some out ∧
        ∀ locale, out.lookup locale = str.lookup locale := by
  intro h
  obtain ⟨out, hout, hall⟩ := h (Configuration.new none) [84, 47, 78] [([], [78]), ([106, 97], [74, 65])]
    KeyTree.distinct_leaf (segmentKeys_new none) (by decide) (by decide) (by decide) (by decide) (by decide)
    (by decide)
  have hread : ((Configuration.new none).setI18nString [84, 47, 78]
      (some [([], [78]), ([106, 97], [74, 65])])).getI18nString [84, 47, 78] none = some [([], [78])] := by
    decide +kernel
  obtain rfl := Option.some.inj (hread.symm.trans hout)
  exact absurd (hall [106, 97]) (by decide)

end Configuration
end Fcitx
