/-
# Merging translations into a configuration file

`translate_callback` of `tools/dev/config-merge-translation/main.c` is called
for every node of a file and writes to the new one: an option whose name starts
with `_` is written without it, and once more for every language that has the
value in its dictionary. The new paths are cut out of the path of the walk with
a precision, which is below zero where there is nothing before the name.

What a call writes is a list of paths and values; a value that is not there is
looked up through NULL, if there is any dictionary.

Key definitions: `PoDict`, `translateCallback`, `mergeTranslation`, `written`, `placed`.
Key theorems: `translateCallback_eq`, `segments_written`, `values_applyWrites`, `mergeTranslation_run`.
-/
import Fcitx.Config.TraversalPaths
import Fcitx.Lib.LastWrite
import Fcitx.Utils.Dict

namespace Fcitx

open Fcitx.Configuration LastWrite

/-- `poDict`: a dictionary of strings for each language. The languages are names of files, and the translations
are strings. -/
structure PoDict where
  dict : Dict (Dict Bytes)
  fileNames : ∀ e ∈ dict.items, slash ∉ e.1
  strings : ∀ e ∈ dict.items, ∀ text ∈ e.2.items, 0 ∉ text.2

/-- `%.*s`: a precision below zero is as if it was not given. The lengths are below those of an `int`. -/
def printPrecision (precision : ℤ) (s : Bytes) : Bytes :=
  if precision < 0 then s else s.take precision.toNat

/-- `"%.*s/%s"` with `name + 1`, and the precision of the path before the name. -/
def fullPath (path name : Bytes) : Bytes :=
  printPrecision ((path.length : ℤ) - name.length - 1) path ++ slash :: name.tail

/-- `"%.*s/%s[%s]"` -/
def fullPathIn (path name key : Bytes) : Bytes :=
  printPrecision ((path.length : ℤ) - name.length - 1) path ++ slash :: (name.tail ++ 91 :: (key ++ [93]))

/-- The loop of `translate_callback` over the dictionaries; `none` looks up NULL. -/
def translateLoop (path name : Bytes) (value : Option Bytes) :
    List (Bytes × Dict Bytes) → Configuration → Option Configuration
  | [], newconfig => some newconfig
  | (key, strDict) :: data, newconfig =>
    value.bind fun value =>
      match strDict.lookup value with
      | none => translateLoop path name (some value) data newconfig
      | some i18nValue =>
        if i18nValue.headD 0 = 0 then translateLoop path name (some value) data newconfig
        else translateLoop path name (some value) data
          (newconfig.setValueByPath (fullPathIn path name key) (some i18nValue))

/-- `translate_callback` -/
def translateCallback (poDict : PoDict) : NodeCallback Configuration := fun _ config path newconfig =>
  config.data.name.bind fun name =>
    let value := config.getValue
    if name.headD 0 = 95 then
      translateLoop path name value poDict.dict.items (newconfig.setValueByPath (fullPath path name) value)
    else some (newconfig.setValueByPath path value)

/-- The walk of `main` over the file that was read. -/
def mergeTranslation (poDict : PoDict) (config : Configuration) : Option Configuration :=
  config.foreachRecursive [] none (translateCallback poDict) (Configuration.new none)

/-! ### What a call writes -/

/-- The name of an option that is translated. -/
def Marked (name : Bytes) : Prop := name.headD 0 = 95

instance markedDecidable (name : Bytes) : Decidable (Marked name) := inferInstanceAs (Decidable (_ = _))

theorem Marked.ne_nil {name : Bytes} (h : Marked name) : name ≠ [] := by
  rintro rfl
  exact absurd h (by decide)

/-- The text of a language for a value, if there is one and it is not empty. -/
def textIn (strDict : Dict Bytes) (value : Option Bytes) : Option Bytes :=
  (value.bind strDict.lookup).filter (· ≠ [])

/-- The languages that have a text for a value, with their texts. -/
def textsIn (data : List (Bytes × Dict Bytes)) (value : Option Bytes) : List (Bytes × Bytes) :=
  data.filterMap fun e => (textIn e.2 value).map fun text => (e.1, text)

/-- The paths and values that a call writes. -/
def written (poDict : PoDict) (path name : Bytes) (value : Option Bytes) : List (Bytes × Option Bytes) :=
  if Marked name then
    (fullPath path name, value) ::
      (textsIn poDict.dict.items value).map fun t => (fullPathIn path name t.1, some t.2)
  else [(path, value)]

/-- Writes to a configuration, one after the other. -/
def applyWrites (ws : List (Bytes × Option Bytes)) (config : Configuration) : Configuration :=
  ws.foldl (fun config w => config.setValueByPath w.1 w.2) config

theorem Dict.mem_of_lookup {A : Type} {dict : Dict A} {key : Bytes} {value : A} (h : dict.lookup key = some value) :
    (key, value) ∈ dict.items := by
  obtain ⟨front, back, hitems, -⟩ := List.lookup_eq_some_iff.mp h
  rw [hitems]
  exact List.mem_append_right _ List.mem_cons_self

theorem headD_eq_zero_iff {text : Bytes} (h : 0 ∉ text) : text.headD 0 = 0 ↔ text = [] := by
  cases text with
  | nil => simp
  | cons c text =>
    constructor
    · intro (hc : c = 0)
      exact absurd (hc ▸ List.mem_cons_self) h
    · exact nofun

/-- **The loop over the dictionaries** writes the texts of the value. -/
theorem translateLoop_eq (path name value : Bytes) {data : List (Bytes × Dict Bytes)}
    (hstrings : ∀ e ∈ data, ∀ text ∈ e.2.items, 0 ∉ text.2) (newconfig : Configuration) :
    translateLoop path name (some value) data newconfig =
      some (applyWrites ((textsIn data (some value)).map fun t => (fullPathIn path name t.1, some t.2))
        newconfig) := by
  induction data generalizing newconfig with
  | nil => rfl
  | cons e data ih =>
    obtain ⟨key, strDict⟩ := e
    have hrest := ih fun e he => hstrings e (List.mem_cons_of_mem _ he)
    have htexts : textsIn ((key, strDict) :: data) (some value) =
        ((textIn strDict (some value)).map fun text => (key, text)).toList ++ textsIn data (some value) := by
      unfold textsIn
      rw [List.filterMap_cons]
      cases textIn strDict (some value) <;> rfl
    rw [translateLoop, Option.bind_some, htexts, List.map_append]
    have hdef : textIn strDict (some value) = (strDict.lookup value).filter (· ≠ []) := rfl
    rw [hdef]
    cases hlookup : strDict.lookup value with
    | none => exact hrest newconfig
    | some text =>
      have hzero : 0 ∉ text := hstrings _ List.mem_cons_self _ (Dict.mem_of_lookup hlookup)
      dsimp only
      by_cases hempty : text = []
      · rw [if_pos ((headD_eq_zero_iff hzero).mpr hempty), hempty]
        exact hrest newconfig
      · rw [if_neg fun h => hempty ((headD_eq_zero_iff hzero).mp h), hrest]
        have hkeep : (some text).filter (fun t => decide (t ≠ [])) = some text := by
          simp [Option.filter, hempty]
        rw [hkeep]
        rfl

/-- A value that is not there is looked up through NULL. -/
theorem translateLoop_none (path name : Bytes) {data : List (Bytes × Dict Bytes)} (h : data ≠ [])
    (newconfig : Configuration) : translateLoop path name none data newconfig = none := by
  cases data with
  | nil => exact absurd rfl h
  | cons e data => rfl

/-- The node is looked up without a value. -/
def LooksUpNull (poDict : PoDict) (name : Bytes) (value : Option Bytes) : Prop :=
  Marked name ∧ value = none ∧ poDict.dict.items ≠ []

theorem translateCallback_null {poDict : PoDict} {config : Configuration} {name : Bytes}
    (hname : config.data.name = some name) (h : LooksUpNull poDict name config.getValue) (ptr : NodePtr)
    (path : Bytes) (newconfig : Configuration) : translateCallback poDict ptr config path newconfig = none := by
  obtain ⟨hmarked, hvalue, hdata⟩ := h
  have hmark : name.headD 0 = 95 := hmarked
  unfold translateCallback
  rw [hname, Option.bind_some]
  dsimp only
  rw [if_pos hmark, hvalue]
  exact translateLoop_none _ _ hdata _

/-- **A call** writes its paths and values, unless it looks up NULL. -/
theorem translateCallback_eq {poDict : PoDict} {config : Configuration} {name : Bytes}
    (hname : config.data.name = some name) (h : ¬ LooksUpNull poDict name config.getValue) (ptr : NodePtr)
    (path : Bytes) (newconfig : Configuration) : translateCallback poDict ptr config path newconfig =
      some (applyWrites (written poDict path name config.getValue) newconfig) := by
  unfold translateCallback written
  rw [hname, Option.bind_some]
  dsimp only
  by_cases hmarked : Marked name
  · have hmark : name.headD 0 = 95 := hmarked
    rw [if_pos hmark, if_pos hmarked]
    cases hvalue : config.getValue with
    | some value => exact translateLoop_eq _ _ _ poDict.strings _
    | none =>
      have hdata : poDict.dict.items = [] := by
        by_contra hdata
        exact h ⟨hmarked, hvalue, hdata⟩
      rw [hdata]
      rfl
  · have hmark : name.headD 0 ≠ 95 := hmarked
    rw [if_neg hmark, if_neg hmarked]
    rfl

/-! ### Where a call writes -/

/-- What an option gives that is renamed below a node: its value, and the texts for it. -/
def renamed (poDict : PoDict) (dir : NodePtr) (name : Bytes) (value : Option Bytes) : List (NodePtr × Option Bytes) :=
  (dir ++ [name.tail], value) ::
    (textsIn poDict.dict.items value).map fun t => (dir ++ [name.tail ++ 91 :: (t.1 ++ [93])], some t.2)

/-- Where the call for a node writes: an option with nothing before its name goes below itself. -/
def placed (poDict : PoDict) (ptr : NodePtr) (value : Option Bytes) : List (NodePtr × Option Bytes) :=
  let name := ptr.getLastD []
  if Marked name then
    renamed poDict (if (trimNames ptr).dropLast = [] then [name] else (trimNames ptr).dropLast) name value
  else [(trimNames ptr, value)]

theorem trimNames_concat (front : NodePtr) {name : Bytes} (hname : name ≠ []) :
    trimNames (front ++ [name]) = trimNames front ++ [name] := by
  induction front with
  | nil => exact trimNames_of_head hname []
  | cons k front ih =>
    by_cases hk : k = []
    · rw [hk, List.cons_append, trimNames_nil_cons, ih, trimNames_nil_cons]
    · rw [List.cons_append, trimNames_of_head hk, trimNames_of_head hk, List.cons_append]

/-- What is printed before the name. -/
theorem printPrecision_subPath (dir : Bytes) {name : Bytes} :
    printPrecision (((subPath dir name).length : ℤ) - name.length - 1) (subPath dir name) =
      if dir = [] then name else dir := by
  unfold subPath printPrecision
  by_cases hdir : dir = []
  · rw [if_pos hdir, if_pos (by omega), if_pos hdir]
  · rw [if_neg hdir, if_neg hdir, List.length_append, List.length_cons, if_neg (by omega)]
    have hlen : (((dir.length + (name.length + 1) : ℕ) : ℤ) - name.length - 1).toNat = dir.length := by omega
    rw [hlen, List.take_left]

/-- The new paths lead below the node of the path before the name, or below the name itself. -/
theorem segments_renamed {front : NodePtr} {name text : Bytes} (hfront : ∀ k ∈ front, slash ∉ k) (hne : name ≠ [])
    (hname : slash ∉ name) (htext : slash ∉ text) :
    segments (printPrecision (((subPath (front.foldl subPath []) name).length : ℤ) - name.length - 1)
        (subPath (front.foldl subPath []) name) ++ slash :: text) =
      (if trimNames front = [] then [name] else trimNames front) ++ [text] := by
  have hdir := segments_walk hfront
  rw [printPrecision_subPath, segments_append_slash _ htext]
  by_cases hempty : front.foldl subPath [] = []
  · rw [hempty, segments_nil] at hdir
    rw [if_pos hempty, if_pos hdir.symm, segments_of_notMem hne hname]
  · have htrim : trimNames front ≠ [] := by
      intro h
      apply hempty
      rw [foldl_subPath_nil, h]
      rfl
    rw [if_neg hempty, if_neg htrim, hdir]

/-- **Where a call writes**: the segments of its paths. -/
theorem segments_written (poDict : PoDict) {ptr : NodePtr} (hne : ptr ≠ []) (hptr : ∀ k ∈ ptr, slash ∉ k)
    (value : Option Bytes) :
    (written poDict (ptr.foldl subPath []) (ptr.getLastD []) value).map (fun w => (segments w.1, w.2)) =
      placed poDict ptr value := by
  obtain ⟨front, name, rfl⟩ := (List.eq_nil_or_concat' ptr).resolve_left hne
  have hlast : (front ++ [name]).getLastD [] = name := by simp
  have hfront : ∀ k ∈ front, slash ∉ k := fun k hk => hptr k (List.mem_append_left _ hk)
  have hname : slash ∉ name := hptr name (by simp)
  have hpath : (front ++ [name]).foldl subPath [] = subPath (front.foldl subPath []) name := by simp
  unfold written placed
  dsimp only
  rw [hlast]
  by_cases hmarked : Marked name
  · have htail : slash ∉ name.tail := fun h => hname (List.mem_of_mem_tail h)
    rw [if_pos hmarked, if_pos hmarked, trimNames_concat front hmarked.ne_nil, List.dropLast_concat, hpath]
    unfold renamed fullPath fullPathIn
    rw [List.map_cons, segments_renamed hfront hmarked.ne_nil hname htail, List.map_map]
    congr 1
    refine List.map_congr_left fun t ht => ?_
    have hkey : slash ∉ t.1 := by
      obtain ⟨e, he, hmap⟩ := List.mem_filterMap.mp ht
      obtain ⟨text, -, rfl⟩ := Option.map_eq_some_iff.mp hmap
      exact poDict.fileNames e he
    have htext : slash ∉ name.tail ++ 91 :: (t.1 ++ [93]) := by
      simp only [List.mem_append, List.mem_cons, List.not_mem_nil, not_or]
      exact ⟨htail, by decide, hkey, by decide, not_false⟩
    dsimp only [Function.comp]
    rw [segments_renamed hfront hmarked.ne_nil hname htext]
  · rw [if_neg hmarked, if_neg hmarked, List.map_singleton, segments_walk hptr]

/-! ### The run -/

/-- Writes as segments and values. -/
def addressed (ws : List (Bytes × Option Bytes)) : List (NodePtr × Option Bytes) :=
  ws.map fun w => (segments w.1, w.2)

/-- **A run of writes** leaves the last value at each path. -/
theorem values_applyWrites (ws : List (Bytes × Option Bytes)) {config : Configuration} (h : config.Distinct)
    (ks : NodePtr) : (applyWrites ws config).values ks = (lastAt (addressed ws) ks).getD (config.values ks) := by
  have hrun : (applyWrites ws config).values =
      (addressed ws).foldl (fun m w => Function.update m w.1 w.2) config.values := by
    induction ws generalizing config with
    | nil => rfl
    | cons w ws ih =>
      obtain ⟨hd, hvalues⟩ := values_setValueByPath h w.1 w.2
      show (applyWrites ws (config.setValueByPath w.1 w.2)).values = _
      rw [ih hd, hvalues]
      rfl
  rw [hrun, foldl_update_eq]

theorem find_isSome_setValueByPath {config : Configuration} (h : config.Distinct) (path : Bytes)
    (value : Option Bytes) (ks : NodePtr) : ((config.setValueByPath path value).find ks).isSome ↔
      (config.find ks).isSome ∨ ks <+: segments path := by
  have hdata : ∀ config : Configuration, (config.find ks).isSome = (config.dataAt ks).isSome := by
    intro config
    rw [KeyTree.dataAt, Option.isSome_map]
  rw [hdata, hdata, (dataAt_setValueByPath h path value).2 ks, Option.isSome_map, Option.isSome_or, Bool.or_eq_true]
  rcases List.eq_nil_or_concat' ks with rfl | ⟨front, k, rfl⟩
  · simp [KeyTree.dataAt]
  · apply or_congr_right
    by_cases hway : front ++ [k] <+: segments path
    · simp [hway, made]
    · simp [hway]

/-- The nodes that are there after a run of writes. -/
theorem find_applyWrites (ws : List (Bytes × Option Bytes)) {config : Configuration} (h : config.Distinct)
    (ks : NodePtr) : ((applyWrites ws config).find ks).isSome ↔
      (config.find ks).isSome ∨ ∃ w ∈ addressed ws, ks <+: w.1 := by
  induction ws generalizing config with
  | nil =>
    show (config.find ks).isSome ↔ _
    simp [addressed]
  | cons w ws ih =>
    have hd := (values_setValueByPath h w.1 w.2).1
    show ((applyWrites ws (config.setValueByPath w.1 w.2)).find ks).isSome ↔ _
    rw [ih hd, find_isSome_setValueByPath h, or_assoc]
    apply or_congr_right
    show _ ↔ ∃ v ∈ (segments w.1, w.2) :: addressed ws, ks <+: v.1
    rw [List.exists_mem_cons_iff]

theorem values_new (name : Option Bytes) (ks : NodePtr) : (Configuration.new name).values ks = none := by
  unfold values
  by_cases hks : ks = []
  · rw [hks]
    rfl
  · have hleaf : (Configuration.new name).find ks = none := KeyTree.find_leaf hks
    rw [KeyTree.dataAt, hleaf]
    rfl

/-- The name of a node of a walk. -/
theorem name_of_mem_descendants {config : Configuration} (h : config.WellFormed) {d : NodePtr × Configuration}
    (hmem : d ∈ config.descendants) : d.2.data.name = some (d.1.getLastD []) ∧ d.1 ≠ [] ∧ ∀ k ∈ d.1, slash ∉ k := by
  obtain ⟨hne, hfind⟩ := (KeyTree.mem_descendants h.distinct).mp hmem
  obtain ⟨ptr, node⟩ := d
  obtain ⟨front, name, rfl⟩ := (List.eq_nil_or_concat' ptr).resolve_left hne
  refine ⟨?_, hne, fun k hk => (h.segmentKeys (front ++ [name]) (by rw [hfind]; rfl) k hk).1⟩
  have hname := h.keysNamed front name node.data (by rw [KeyTree.dataAt, hfind]; rfl)
  simpa using hname

/-- No node is looked up through NULL. -/
def NoNull (poDict : PoDict) (config : Configuration) : Prop :=
  ∀ d ∈ config.descendants, ¬ LooksUpNull poDict (d.1.getLastD []) (getValue d.2)

/-- What the calls for all nodes write, in their order. -/
def placedAll (poDict : PoDict) (config : Configuration) : List (NodePtr × Option Bytes) :=
  config.descendants.flatMap fun d => placed poDict d.1 (getValue d.2)

theorem foldlM_translate {poDict : PoDict} {ds : List (NodePtr × Configuration)}
    (hname : ∀ d ∈ ds, d.2.data.name = some (d.1.getLastD []))
    (hnull : ∀ d ∈ ds, ¬ LooksUpNull poDict (d.1.getLastD []) (getValue d.2)) (newconfig : Configuration) :
    ds.foldlM (fun s d => translateCallback poDict d.1 d.2 (d.1.foldl subPath []) s) newconfig =
      some (applyWrites (ds.flatMap fun d => written poDict (d.1.foldl subPath []) (d.1.getLastD []) (getValue d.2))
        newconfig) := by
  induction ds generalizing newconfig with
  | nil => rfl
  | cons d ds ih =>
    rw [List.foldlM_cons, translateCallback_eq (hname d List.mem_cons_self) (hnull d List.mem_cons_self)]
    show List.foldlM _ (applyWrites _ newconfig) ds = _
    rw [ih (fun d hd => hname d (List.mem_cons_of_mem _ hd)) (fun d hd => hnull d (List.mem_cons_of_mem _ hd)),
      List.flatMap_cons]
    unfold applyWrites
    rw [List.foldl_append]

/-- **The run over a file**: it ends if no buffer is missing and nothing is looked up through NULL, and then the last
write to each path counts. -/
theorem mergeTranslation_run (poDict : PoDict) {config : Configuration} (h : config.WellFormed) :
    (config.Walkable ∧ NoNull poDict config → ∃ newconfig, mergeTranslation poDict config = some newconfig ∧
      (∀ ks, newconfig.values ks = (lastAt (placedAll poDict config) ks).join) ∧
      ∀ ks, (newconfig.find ks).isSome ↔ ks = [] ∨ ∃ w ∈ placedAll poDict config, ks <+: w.1) ∧
    (¬ (config.Walkable ∧ NoNull poDict config) → mergeTranslation poDict config = none) := by
  have hnode := fun d (hd : d ∈ config.descendants) => name_of_mem_descendants h hd
  obtain ⟨hwalk, hnowalk⟩ := foreachRecursive_walkable h (translateCallback poDict) (Configuration.new none)
  constructor
  · intro ⟨hwalkable, hnull⟩
    refine ⟨_, (hwalk hwalkable).trans (foldlM_translate (fun d hd => (hnode d hd).1) hnull _), ?_, ?_⟩
    all_goals
      have haddressed : addressed (config.descendants.flatMap fun d =>
          written poDict (d.1.foldl subPath []) (d.1.getLastD []) (getValue d.2)) = placedAll poDict config := by
        unfold addressed placedAll
        rw [List.map_flatMap]
        exact List.flatMap_congr fun d hd => segments_written poDict (hnode d hd).2.1 (hnode d hd).2.2 _
      have hnew : (Configuration.new none).Distinct := (wellFormed_new none).distinct
    · intro ks
      rw [values_applyWrites _ hnew, haddressed, values_new]
      cases lastAt (placedAll poDict config) ks <;> rfl
    · intro ks
      have hroot : ((Configuration.new none).find ks).isSome ↔ ks = [] := by
        constructor
        · intro hfind
          by_contra hks
          have hleaf : (Configuration.new none).find ks = none := KeyTree.find_leaf hks
          rw [hleaf] at hfind
          cases hfind
        · rintro rfl
          rfl
      rw [find_applyWrites _ hnew, haddressed, hroot]
  · intro hnot
    by_cases hwalkable : config.Walkable
    · obtain ⟨d, hd, hnull⟩ : ∃ d ∈ config.descendants, LooksUpNull poDict (d.1.getLastD []) (getValue d.2) := by
        by_contra hall
        exact hnot ⟨hwalkable, fun d hd hnull => hall ⟨d, hd, hnull⟩⟩
      refine (hwalk hwalkable).trans (foldlM_none_of_mem hd (fun s => ?_) _)
      exact translateCallback_null (hnode d hd).1 hnull _ _ s
    · exact hnowalk hwalkable

end Fcitx
