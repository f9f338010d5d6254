/-
# Writing a tree and reading it again

The text of a tree has the lines of its nodes one after another, and the lines of a
node say in which group they are. So reading the text sets every value that can be
read of its line at the path of its node, and no other.

Key definitions: `Writable`, `nodeLines`, `nodeOptions`, `RoundTripLaw`.
Key theorems: `iniForeachCallback_eq`, `iniOptions_nodeLines`, `values_iniParse`, `roundTripLaw_iff_readAgain`.
-/
import Fcitx.Config.IniLines
import Fcitx.Config.IniPrintable
import Fcitx.Config.Paths

namespace Fcitx

open Fcitx.Configuration

/-! ### Trees -/

/-- A tree that the format can hold, apart from its values. -/
structure Writable (config : Configuration) : Prop where
  distinct : config.Distinct
  /-- A node has the name it is found by. -/
  names : ∀ ks k u, config.find (ks ++ [k]) = some u → u.data.name = some k ∧ NameOk k
  zero : ∀ ks value, config.values ks = some value → 0 ∉ value

section tree

variable {config : Configuration} {e : Bytes × Configuration}

theorem values_entry (h : config.Distinct) (he : e ∈ config.entries) (ks : List Bytes) :
    config.values (e.1 :: ks) = Configuration.values e.2 ks := by
  rw [values_eq, h.find_of_mem he, values_eq]

/-- What is not below a subitem is not there. -/
theorem values_cons (h : config.Distinct) {k value : Bytes} {ks : List Bytes}
    (hvalue : config.values (k :: ks) = some value) :
    ∃ e ∈ config.entries, e.1 = k ∧ Configuration.values e.2 ks = some value := by
  rw [values_eq, KeyTree.find_cons] at hvalue
  cases hchild : config.child k with
  | none =>
    rw [hchild] at hvalue
    cases hvalue
  | some u =>
    rw [hchild] at hvalue
    refine ⟨(k, u), (KeyTree.child_eq_some_iff h.nodup).mp hchild, rfl, ?_⟩
    rw [values_eq]
    exact hvalue

theorem Writable.entry (h : Writable config) (he : e ∈ config.entries) :
    Writable e.2 ∧ e.2.data.name = some e.1 ∧ NameOk e.1 := by
  have hfind := h.distinct.find_of_mem he
  obtain ⟨hname, hok⟩ := h.names [] e.1 e.2 (hfind [])
  refine ⟨⟨h.distinct.of_mem he, fun ks k u hu => ?_, fun ks value hvalue => ?_⟩, hname, hok⟩
  · apply h.names (e.1 :: ks) k u
    rw [List.cons_append, hfind]
    exact hu
  · apply h.zero (e.1 :: ks) value
    rw [values_entry h.distinct he]
    exact hvalue

theorem NameOk.notMem {name : Bytes} (h : NameOk name) {c : UInt8}
    (hc : c ∈ ([slash, 61, 91, 93, 35, newline, 0] : Bytes)) : c ∉ name := fun hmem => h.2.1 c hmem hc

end tree

/-! ### The writer -/

section writer

variable (beyond : Bytes → ℕ → UInt8)

/-- The lines of a subitem among the options of its parent. -/
def optionLines (e : Bytes × Configuration) : List Bytes :=
  match e.2.data.value with
  | none => []
  | some value => commentLines e.2.data.comment ++ [optionLine e.1 (writeValue beyond value)]

/-- The lines of a node and of those below it, to a given depth. -/
def nodeLines : ℕ → Configuration → Bytes → List Bytes
  | 0, _, _ => []
  | depth + 1, config, path =>
    (if config.entries.any fun e => e.2.data.value.isSome then
        groupLines path ++ config.entries.flatMap (optionLines beyond)
      else []) ++
      config.entries.flatMap fun e => nodeLines depth e.2 (subPath path e.1)

theorem foldlM_hasSubValue (items : List (Bytes × Configuration)) (hasSubValue : Bool) :
    items.foldlM (fun s item => iniHasSubValueCallback item.2 (cString (subPath [] item.1)) s) hasSubValue =
      some (hasSubValue || items.any fun e => e.2.data.value.isSome) := by
  induction items generalizing hasSubValue with
  | nil =>
    rw [List.any_nil, Bool.or_false]
    rfl
  | cons item items ih =>
    rw [List.foldlM_cons, List.any_cons, ← Bool.or_assoc]
    exact ih _

theorem foldlM_fileText {ι : Type} {f : Bytes → ι → Option Bytes} {lines : ι → List Bytes} {items : List ι}
    (h : ∀ e ∈ items, ∀ fp, f fp e = some (fp ++ fileText (lines e))) (fp : Bytes) :
    items.foldlM f fp = some (fp ++ fileText (items.flatMap lines)) := by
  induction items generalizing fp with
  | nil => exact congrArg some (List.append_nil fp).symm
  | cons e items ih =>
    rw [List.forall_mem_cons] at h
    rw [List.foldlM_cons, h.1 fp]
    show items.foldlM f _ = _
    rw [ih h.2, List.flatMap_cons, fileText_append, List.append_assoc]

theorem iniForeachOptionCallback_eq {e : Bytes × Configuration} (hname : e.2.data.name = some e.1) (path fp : Bytes) :
    iniForeachOptionCallback beyond e.2 path fp = some (fp ++ fileText (optionLines beyond e)) := by
  unfold iniForeachOptionCallback optionLines
  cases e.2.data.value with
  | none => exact congrArg some (List.append_nil fp).symm
  | some value =>
    dsimp only
    have hline : fileText [optionLine e.1 (writeValue beyond value)] =
        e.1 ++ 61 :: writeValue beyond value ++ [newline] := List.append_nil _
    rw [fileText_append, fileText_commentLines, hname, formatName, hline]
    simp only [List.append_assoc]

/-- **The writer writes the lines of the node.** -/
theorem iniForeachCallback_eq (depth : ℕ) {config : Configuration} (h : Writable config) {path : Bytes}
    (hpath : 0 ∉ path) (fp : Bytes) (hdepth : config.height < depth) :
    iniForeachCallback beyond depth config path fp = some (fp ++ fileText (nodeLines beyond depth config path)) := by
  induction depth generalizing config path fp with
  | zero => exact absurd hdepth (Nat.not_lt_zero _)
  | succ depth ih =>
    have hnull : ∀ path, ¬ config.NullBuffer path := by
      rintro path ⟨-, hhead⟩
      obtain ⟨e, he, hkey⟩ := List.mem_map.mp (List.mem_of_head? hhead)
      exact (h.entry he).2.2.1 hkey
    have hoptions : ∀ fp, _foreach config [] (iniForeachOptionCallback beyond) fp =
        some (fp ++ fileText (config.entries.flatMap (optionLines beyond))) := by
      intro fp
      rw [_foreach_eq, if_neg (hnull [])]
      exact foldlM_fileText (fun e he fp => iniForeachOptionCallback_eq beyond (h.entry he).2.1 _ fp) fp
    have hbelow : ∀ fp, _foreach config path (iniForeachCallback beyond depth) fp =
        some (fp ++ fileText (config.entries.flatMap fun e => nodeLines beyond depth e.2 (subPath path e.1))) := by
      intro fp
      rw [_foreach_eq, if_neg (hnull path)]
      refine foldlM_fileText (fun e he fp => ?_) fp
      obtain ⟨hentry, -, hname⟩ := h.entry he
      have hzero : 0 ∉ subPath path e.1 := notMem_subPath hpath (hname.notMem (by decide)) (by decide)
      rw [cString_of_noZero hzero]
      exact ih hentry hzero fp (by have hlt := KeyTree.height_lt he; omega)
    have hsub : _foreach config [] iniHasSubValueCallback false =
        some (config.entries.any fun e => e.2.data.value.isSome) := by
      rw [_foreach_eq, if_neg (hnull []), foldlM_hasSubValue, Bool.false_or]
    rw [iniForeachCallback, foreach_nil, hsub, Option.bind_some, nodeLines]
    simp only [foreach_nil]
    split
    · rw [hoptions, Option.bind_some, hbelow, fileText_append, fileText_append, fileText_groupLines]
      simp only [List.append_assoc]
    · rw [Option.bind_some, hbelow]
      rfl

end writer

/-! ### The reader -/

section reader

variable (beyond : Bytes → ℕ → UInt8)

/-- What is read of the line of an option, at its path. -/
def optionRead (path : Bytes) (e : Bytes × Configuration) : Option (Bytes × Bytes) :=
  (e.2.data.value.bind fun value => readValue (writeValue beyond value)).map fun value => (subPath path e.1, value)

/-- What is read of the lines of a node. -/
def nodeOptions : ℕ → Configuration → Bytes → List (Bytes × Bytes)
  | 0, _, _ => []
  | depth + 1, config, path =>
    config.entries.filterMap (optionRead beyond path) ++
      config.entries.flatMap fun e => nodeOptions depth e.2 (subPath path e.1)

/-- The lines of all values can be read. -/
def LinesSafe (config : Configuration) : Prop :=
  ∀ ks value, config.values ks = some value → LineSafe (writeValue beyond value)

variable {beyond}

theorem LinesSafe.entry {config : Configuration} (h : LinesSafe beyond config) (hd : config.Distinct)
    {e : Bytes × Configuration} (he : e ∈ config.entries) : LinesSafe beyond e.2 := by
  intro ks value hvalue
  apply h (e.1 :: ks)
  rw [values_entry hd he]
  exact hvalue

theorem iniOptions_comment (group comment : Option Bytes) (rest : List Bytes) :
    iniOptions group (withNewlines (commentLines comment) ++ rest) = iniOptions group rest := by
  cases comment with
  | none => rfl
  | some comment =>
    rw [commentLines]
    split
    · rfl
    · show iniOptions group ((35 :: (32 :: comment ++ [newline])) :: rest) = _
      rw [iniOptions, iniLine_comment]

/-- The lines of an option in its group. -/
theorem iniOptions_optionLines {group : Option Bytes} {path : Bytes} {e : Bytes × Configuration}
    (hgroup : optionPath group e.1 = subPath path e.1) (hname : NameOk e.1)
    (hsafe : ∀ value, e.2.data.value = some value → LineSafe (writeValue beyond value)) (rest : List Bytes) :
    iniOptions group (withNewlines (optionLines beyond e) ++ rest) =
      (optionRead beyond path e).toList ++ iniOptions group rest := by
  unfold optionLines optionRead
  cases hvalue : e.2.data.value with
  | none => rfl
  | some value =>
    dsimp only
    rw [withNewlines_append, List.append_assoc, iniOptions_comment, Option.bind_some]
    show iniOptions group ((optionLine e.1 (writeValue beyond value) ++ [newline]) :: rest) = _
    rw [iniOptions, iniLine_option hname (hsafe value hvalue)]
    cases readValue (writeValue beyond value) with
    | none => rfl
    | some value =>
      dsimp only
      rw [hgroup]
      rfl

/-- The options of a node in its group. -/
theorem iniOptions_flatMap {group : Option Bytes} {path : Bytes}
    (hgroup : ∀ name, optionPath group name = subPath path name)
    {items : List (Bytes × Configuration)} (hitems : ∀ e ∈ items, NameOk e.1 ∧
      ∀ value, e.2.data.value = some value → LineSafe (writeValue beyond value)) (rest : List Bytes) :
    iniOptions group (withNewlines (items.flatMap (optionLines beyond)) ++ rest) =
      items.filterMap (optionRead beyond path) ++ iniOptions group rest := by
  induction items with
  | nil => rfl
  | cons e items ih =>
    rw [List.forall_mem_cons] at hitems
    rw [List.flatMap_cons, withNewlines_append, List.append_assoc,
      iniOptions_optionLines (hgroup e.1) hitems.1.1 hitems.1.2, ih hitems.2, ← List.append_assoc, List.filterMap_cons]
    cases optionRead beyond path e with
    | none => rfl
    | some o => rfl

/-- What subitems of a node are read as, one after another, whatever the groups before them. -/
theorem iniOptions_items {lines : Bytes × Configuration → List Bytes}
    {options : Bytes × Configuration → List (Bytes × Bytes)}
    {items : List (Bytes × Configuration)}
    (h : ∀ e ∈ items, ∀ group rest, ∃ group', iniOptions group (withNewlines (lines e) ++ rest) =
      options e ++ iniOptions group' rest) (group : Option Bytes) (rest : List Bytes) :
    ∃ group', iniOptions group (withNewlines (items.flatMap lines) ++ rest) =
      items.flatMap options ++ iniOptions group' rest := by
  induction items generalizing group with
  | nil => exact ⟨group, rfl⟩
  | cons e items ih =>
    rw [List.forall_mem_cons] at h
    obtain ⟨next, hfirst⟩ := h.1 group (withNewlines (items.flatMap lines) ++ rest)
    obtain ⟨last, hrest⟩ := ih h.2 next
    refine ⟨last, ?_⟩
    rw [List.flatMap_cons, withNewlines_append, List.append_assoc, hfirst, hrest, List.flatMap_cons,
      List.append_assoc]

/-- **The lines of a node are read** at its path, whatever the group before, which only the root keeps. -/
theorem iniOptions_nodeLines (depth : ℕ) {config : Configuration} (h : Writable config)
    (hsafe : LinesSafe beyond config) {path : Bytes} (hpath : 0 ∉ path) (group : Option Bytes)
    (hgroup : path = [] → group = none) (rest : List Bytes) :
    ∃ group', iniOptions group (withNewlines (nodeLines beyond depth config path) ++ rest) =
      nodeOptions beyond depth config path ++ iniOptions group' rest := by
  induction depth generalizing config path group rest with
  | zero => exact ⟨group, rfl⟩
  | succ depth ih =>
    have hitems : ∀ e ∈ config.entries, NameOk e.1 ∧
        ∀ value, e.2.data.value = some value → LineSafe (writeValue beyond value) := by
      intro e he
      refine ⟨(h.entry he).2.2, fun value hvalue => hsafe [e.1] value ?_⟩
      rw [values_entry h.distinct he]
      exact hvalue
    have hbelow : ∀ group, ∃ group', iniOptions group (withNewlines (config.entries.flatMap fun e =>
        nodeLines beyond depth e.2 (subPath path e.1)) ++ rest) =
          (config.entries.flatMap fun e => nodeOptions beyond depth e.2 (subPath path e.1)) ++
            iniOptions group' rest := by
      intro group
      refine iniOptions_items (fun e he group rest => ?_) group rest
      obtain ⟨hentry, -, hname⟩ := h.entry he
      apply ih hentry (hsafe.entry h.distinct he)
      · exact notMem_subPath hpath (hname.notMem (by decide)) (by decide)
      · exact fun hnil => absurd hnil (subPath_ne_nil path hname.1)
    rw [nodeLines, nodeOptions]
    by_cases hany : (config.entries.any fun e => e.2.data.value.isSome) = true
    · -- the group of the node is set, and its options are read in it
      rw [if_pos hany]
      have hset : ∀ rest, iniOptions group (withNewlines (groupLines path) ++ rest) =
          iniOptions (if path = [] then none else some path) rest := by
        intro rest
        unfold groupLines
        split
        · next hnil =>
          rw [hgroup hnil]
          rfl
        · show iniOptions group ((91 :: path ++ [93] ++ [newline]) :: rest) = _
          rw [iniOptions, iniLine_group hpath]
      have hin : ∀ name, optionPath (if path = [] then none else some path) name = subPath path name := by
        intro name
        unfold subPath
        split <;> rfl
      obtain ⟨group', hrest⟩ := hbelow (if path = [] then none else some path)
      refine ⟨group', ?_⟩
      rw [withNewlines_append, withNewlines_append, List.append_assoc, List.append_assoc, hset,
        iniOptions_flatMap hin hitems, hrest, List.append_assoc]
    · -- no subitem has a value
      rw [if_neg hany]
      have hnone : config.entries.filterMap (optionRead beyond path) = [] := by
        rw [List.filterMap_eq_nil_iff]
        intro e he
        have hvalue : e.2.data.value = none := by
          rw [← Option.not_isSome_iff_eq_none]
          intro hsome
          exact hany (List.any_eq_true.mpr ⟨e, he, hsome⟩)
        rw [optionRead, hvalue]
        rfl
      rw [hnone]
      exact hbelow group

/-- No line of the writer is broken. -/
theorem newline_notMem_nodeLines (depth : ℕ) {config : Configuration} (h : Writable config)
    (hsafe : LinesSafe beyond config) {path : Bytes} (hpath : newline ∉ path) :
    ∀ line ∈ nodeLines beyond depth config path, newline ∉ line := by
  induction depth generalizing config path with
  | zero => exact fun _ hmem => absurd hmem List.not_mem_nil
  | succ depth ih =>
    have hgroup : ∀ line ∈ groupLines path, newline ∉ line := by
      intro line hline
      unfold groupLines at hline
      split at hline
      · cases hline
      · rw [List.mem_singleton.mp hline, List.mem_append, List.mem_cons, List.mem_singleton, not_or, not_or]
        exact ⟨⟨by decide, hpath⟩, by decide⟩
    have hoption : ∀ e ∈ config.entries, ∀ line ∈ optionLines beyond e, newline ∉ line := by
      intro e he line hline
      unfold optionLines at hline
      cases hvalue : e.2.data.value with
      | none =>
        rw [hvalue] at hline
        cases hline
      | some value =>
        rw [hvalue] at hline
        have htext := hsafe [e.1] value (by rw [values_entry h.distinct he]; exact hvalue)
        rcases List.mem_append.mp hline with hline | hline
        · unfold commentLines at hline
          split at hline
          · split at hline
            · cases hline
            · next hnot =>
              rw [List.mem_singleton.mp hline, List.mem_cons, List.mem_cons, not_or, not_or]
              exact ⟨by decide, by decide, hnot⟩
          · cases hline
        · rw [List.mem_singleton.mp hline, optionLine, List.mem_append, List.mem_cons, not_or, not_or]
          exact ⟨(h.entry he).2.2.notMem (by decide), by decide, htext.newline⟩
    have hbelow : ∀ line ∈ config.entries.flatMap fun e => nodeLines beyond depth e.2 (subPath path e.1),
        newline ∉ line := by
      intro line hline
      obtain ⟨e, he, hline⟩ := List.mem_flatMap.mp hline
      obtain ⟨hentry, -, hname⟩ := h.entry he
      exact ih hentry (hsafe.entry h.distinct he)
        (notMem_subPath hpath (hname.notMem (by decide)) (by decide)) line hline
    intro line hline
    rw [nodeLines] at hline
    rcases List.mem_append.mp hline with hline | hline
    · split at hline
      · rcases List.mem_append.mp hline with hline | hline
        · exact hgroup line hline
        · obtain ⟨e, he, hline⟩ := List.mem_flatMap.mp hline
          exact hoption e he line hline
      · cases hline
    · exact hbelow line hline

end reader

/-! ### Paths -/

/-- **The path of a subitem** has its name as the last segment. -/
theorem segments_subPath (path : Bytes) {name : Bytes} (h : NameOk name) :
    segments (subPath path name) = segments path ++ [name] :=
  segments_subPath_of_notMem path h.1 (h.notMem (by decide))

/-- Every value has a path. -/
theorem exists_path {config : Configuration} (h : Writable config) {ks : List Bytes} {value : Bytes}
    (hvalue : config.values ks = some value) (path : Bytes) : ∃ path', segments path' = segments path ++ ks := by
  induction ks generalizing config path with
  | nil => exact ⟨path, (List.append_nil _).symm⟩
  | cons k ks ih =>
    obtain ⟨e, he, rfl, hbelow⟩ := values_cons h.distinct hvalue
    obtain ⟨hentry, -, hname⟩ := h.entry he
    obtain ⟨path', hpath'⟩ := ih hentry hbelow (subPath path e.1)
    refine ⟨path', ?_⟩
    rw [hpath', segments_subPath path hname, List.append_assoc]
    rfl

/-! ### The values that are read -/

section law

variable {beyond : Bytes → ℕ → UInt8}

/-- What is read of the line of a value. -/
def readAgain (beyond : Bytes → ℕ → UInt8) (value : Bytes) : Option Bytes := readValue (writeValue beyond value)

/-- What is read of the lines of the values of a tree. -/
def readMap (beyond : Bytes → ℕ → UInt8) (config : Configuration) : PathMap := fun ks =>
  (config.values ks).bind (readAgain beyond)

/-- An option that is read is a value of the tree. -/
theorem value_of_mem_nodeOptions (depth : ℕ) {config : Configuration} (h : Writable config) {path : Bytes}
    {o : Bytes × Bytes} (ho : o ∈ nodeOptions beyond depth config path) :
    ∃ ks, segments o.1 = segments path ++ ks ∧ readMap beyond config ks = some o.2 := by
  induction depth generalizing config path with
  | zero => exact absurd ho List.not_mem_nil
  | succ depth ih =>
    rcases List.mem_append.mp ho with ho | ho
    · obtain ⟨e, he, hread⟩ := List.mem_filterMap.mp ho
      obtain ⟨value, hvalue, rfl⟩ := Option.map_eq_some_iff.mp hread
      refine ⟨[e.1], segments_subPath path (h.entry he).2.2, ?_⟩
      rw [readMap, values_entry h.distinct he]
      exact hvalue
    · obtain ⟨e, he, ho⟩ := List.mem_flatMap.mp ho
      obtain ⟨hentry, -, hname⟩ := h.entry he
      obtain ⟨ks, hks, hvalue⟩ := ih hentry ho
      refine ⟨e.1 :: ks, ?_, ?_⟩
      · rw [hks, segments_subPath path hname, List.append_assoc]
        rfl
      · rw [readMap, values_entry h.distinct he]
        exact hvalue

/-- A value of the tree whose line can be read is an option. -/
theorem mem_nodeOptions_of_value (depth : ℕ) {config : Configuration} (h : Writable config)
    (hdepth : config.height < depth) (path : Bytes) {ks : List Bytes} (hks : ks ≠ []) {value text : Bytes}
    (hvalue : config.values ks = some value) (hread : readAgain beyond value = some text) :
    ∃ o ∈ nodeOptions beyond depth config path, segments o.1 = segments path ++ ks := by
  induction depth generalizing config path ks with
  | zero => exact absurd hdepth (Nat.not_lt_zero _)
  | succ depth ih =>
    obtain ⟨k, ks, rfl⟩ := List.exists_cons_of_ne_nil hks
    obtain ⟨e, he, rfl, hbelow⟩ := values_cons h.distinct hvalue
    obtain ⟨hentry, -, hname⟩ := h.entry he
    by_cases hnil : ks = []
    · subst hnil
      refine ⟨(subPath path e.1, text), List.mem_append_left _ (List.mem_filterMap.mpr ⟨e, he, ?_⟩),
        segments_subPath path hname⟩
      have hdata : e.2.data.value = some value := hbelow
      have hread' : readValue (writeValue beyond value) = some text := hread
      rw [optionRead, hdata, Option.bind_some, hread']
      rfl
    · obtain ⟨o, ho, hsegments⟩ :=
        ih hentry (by have hlt := KeyTree.height_lt he; omega) (subPath path e.1) hnil hbelow
      refine ⟨o, List.mem_append_right _ (List.mem_flatMap.mpr ⟨e, he, ho⟩), ?_⟩
      rw [hsegments, segments_subPath path hname, List.append_assoc]
      rfl

/-- Setting values of a map, in any order. -/
theorem values_foldl_setValueByPath {options : List (Bytes × Bytes)} {m : PathMap}
    (hoptions : ∀ o ∈ options, m (segments o.1) = some o.2) {config : Configuration} (h : config.Distinct)
    (ks : List Bytes) :
    (options.foldl (fun config o => config.setValueByPath o.1 (some o.2)) config).values ks =
      if ∃ o ∈ options, segments o.1 = ks then m ks else config.values ks := by
  induction options generalizing config with
  | nil => rw [if_neg fun hex => absurd hex.choose_spec.1 List.not_mem_nil]; rfl
  | cons o options ih =>
    rw [List.forall_mem_cons] at hoptions
    obtain ⟨hdistinct, hvalues⟩ := values_setValueByPath h o.1 (some o.2)
    rw [List.foldl_cons, ih hoptions.2 hdistinct, hvalues, PathMap.setValue, Function.update_apply]
    by_cases hrest : ∃ o ∈ options, segments o.1 = ks
    · obtain ⟨o', ho', hseg⟩ := hrest
      rw [if_pos ⟨o', ho', hseg⟩, if_pos ⟨o', List.mem_cons_of_mem _ ho', hseg⟩]
    · rw [if_neg hrest]
      by_cases hks : segments o.1 = ks
      · rw [if_pos hks.symm, if_pos ⟨o, List.mem_cons_self, hks⟩, ← hks, hoptions.1]
      · rw [if_neg (Ne.symm hks), if_neg]
        rintro ⟨o', ho', hseg⟩
        rcases List.mem_cons.mp ho' with rfl | ho'
        · exact hks hseg
        · exact hrest ⟨o', ho', hseg⟩

/-- **Reading the text of a tree** gives what is read of the line of every value, and no other value. -/
theorem values_iniParse {config : Configuration} (h : Writable config) (hroot : config.data.value = none)
    (hsafe : LinesSafe beyond config) :
    ∃ text, iniPrint beyond config = some text ∧
      ∀ ks, (iniParse text freshConfiguration).values ks = readMap beyond config ks := by
  have hzero : (0 : UInt8) ∉ ([] : Bytes) := List.not_mem_nil
  have hdepth : config.height < config.height + 1 := Nat.lt_succ_self _
  refine ⟨fileText (nodeLines beyond (config.height + 1) config []), ?_, fun ks => ?_⟩
  · rw [iniPrint, iniForeachCallback_eq beyond _ h hzero [] hdepth]
    rfl
  · have hnew : newline ∉ ([] : Bytes) := List.not_mem_nil
    have hlines := newline_notMem_nodeLines (config.height + 1) h hsafe hnew
    have hread : iniOptions none (withNewlines (nodeLines beyond (config.height + 1) config [])) =
        nodeOptions beyond (config.height + 1) config [] := by
      obtain ⟨group', hoptions⟩ := iniOptions_nodeLines (config.height + 1) h hsafe hzero none (fun _ => rfl) []
      rw [List.append_nil] at hoptions
      have hend : iniOptions group' [] = [] := rfl
      rw [hoptions, hend, List.append_nil]
    have hoptions : ∀ o ∈ nodeOptions beyond (config.height + 1) config [],
        readMap beyond config (segments o.1) = some o.2 := by
      intro o ho
      obtain ⟨ks, hks, hvalue⟩ := value_of_mem_nodeOptions _ h ho
      rw [segments_nil, List.nil_append] at hks
      rw [hks]
      exact hvalue
    have hfresh : freshConfiguration.Distinct := KeyTree.distinct_leaf
    rw [iniParse_eq, getlines_fileText hlines, hread, values_foldl_setValueByPath hoptions hfresh]
    split
    · rfl
    · next hnot =>
      -- there is no line for it
      have hnone : freshConfiguration.values ks = none := by
        cases ks with
        | nil => rfl
        | cons k ks => rfl
      rw [hnone, readMap]
      symm
      cases hvalue : config.values ks with
      | none => rfl
      | some value =>
        rw [Option.bind_some]
        cases htext : readAgain beyond value with
        | none => rfl
        | some text =>
          have hks : ks ≠ [] := by
            rintro rfl
            have hdata : config.values [] = config.data.value := rfl
            rw [hdata, hroot] at hvalue
            cases hvalue
          obtain ⟨o, ho, hseg⟩ := mem_nodeOptions_of_value _ h hdepth [] hks hvalue htext
          rw [segments_nil, List.nil_append] at hseg
          exact absurd ⟨o, ho, hseg⟩ hnot

/-- **The round trip**: the text of a tree is read as a tree with the same value, or none, at every path. -/
def RoundTripLaw (beyond : Bytes → ℕ → UInt8) (config : Configuration) : Prop :=
  ∃ text, iniPrint beyond config = some text ∧
    ∀ path, (iniParse text freshConfiguration).getValueByPath path = config.getValueByPath path

/-- Where the lines are safe, a tree is read as it was exactly if its values are. -/
theorem roundTripLaw_iff_readAgain {config : Configuration} (h : Writable config) (hroot : config.data.value = none)
    (hsafe : LinesSafe beyond config) :
    RoundTripLaw beyond config ↔ ∀ ks value, config.values ks = some value → readAgain beyond value = some value := by
  obtain ⟨text, htext, hread⟩ := values_iniParse h hroot hsafe
  constructor
  · rintro ⟨text', htext', hlaw⟩ ks value hvalue
    rw [htext] at htext'
    obtain rfl := Option.some.inj htext'
    obtain ⟨path, hpath⟩ := exists_path h hvalue []
    rw [segments_nil, List.nil_append] at hpath
    have hat := hlaw path
    rw [getValueByPath_eq, getValueByPath_eq, hpath, hread, readMap, hvalue, Option.bind_some] at hat
    exact hat
  · intro hvalues
    refine ⟨text, htext, fun path => ?_⟩
    rw [getValueByPath_eq, getValueByPath_eq, hread, readMap]
    cases hvalue : config.values (segments path) with
    | none => rfl
    | some value =>
      rw [Option.bind_some]
      exact hvalues _ value hvalue

end law

end Fcitx
