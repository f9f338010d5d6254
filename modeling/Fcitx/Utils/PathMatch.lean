/-
# The files of a directory in all its places

`fcitx_standard_path_match` reads a directory in the user directory and in the system
directories of a type, and collects the names that its filter takes in a dictionary, each
once. Then each name is looked up, and those without a file are taken out again.

Key definitions: `StandardPathFilter`, `StandardPathFilter.accepts`, `StandardPath.match'`,
`StandardPath.listed`.
Key theorems: `StandardPathFilter.accepts_iff`, `StandardPath.matchLoop_eq`, `StandardPath.match_spec`.
-/
import Fcitx.Lib.Assoc
import Fcitx.Lib.Firsts
import Fcitx.Utils.DictSort
import Fcitx.Utils.StandardPath

namespace Fcitx

/-- `FSPFT_Prefix` -/
def fspftPrefix : UInt32 := (1 : UInt32) <<< 2

/-- `FSPFT_Suffix` -/
def fspftSuffix : UInt32 := (1 : UInt32) <<< 3

/-- `FSPFT_Callback` -/
def fspftCallback : UInt32 := (1 : UInt32) <<< 4

/-- `FSPFT_Sort` -/
def fspftSort : UInt32 := (1 : UInt32) <<< 5

/-- `FcitxStandardPathFilter` -/
structure StandardPathFilter where
  flag : UInt32
  namePrefix : Bytes
  nameSuffix : Bytes
  callback : Bytes → Bool

namespace StandardPathFilter

/-- The prefix that counts. -/
def front (filter : StandardPathFilter) : Bytes :=
  if filter.flag &&& fspftPrefix ≠ 0 then filter.namePrefix else []

/-- The suffix that counts. -/
def back (filter : StandardPathFilter) : Bytes :=
  if filter.flag &&& fspftSuffix ≠ 0 then filter.nameSuffix else []

/-- The filtering of a name in the loop over `readdir`. -/
def accepts (filter : StandardPathFilter) (name : Bytes) : Bool :=
  let prefixlen := filter.front.length
  let suffixlen := filter.back.length
  if name.length ≤ suffixlen + prefixlen then false
  else if filter.flag &&& fspftSuffix ≠ 0 ∧ name.drop (name.length - suffixlen) ≠ filter.nameSuffix then false
  else if filter.flag &&& fspftPrefix ≠ 0 ∧ name.take prefixlen ≠ filter.namePrefix then false
  else if filter.flag &&& fspftCallback ≠ 0 ∧ filter.callback name = false then false
  else true

/-- **A name is taken** if something is between its prefix and its suffix. -/
theorem accepts_iff (filter : StandardPathFilter) (name : Bytes) :
    filter.accepts name = true ↔ (∃ mid, mid ≠ [] ∧ name = filter.front ++ mid ++ filter.back) ∧
      (filter.flag &&& fspftCallback ≠ 0 → filter.callback name = true) := by
  have hback : (filter.flag &&& fspftSuffix ≠ 0 ∧ name.drop (name.length - filter.back.length) ≠ filter.nameSuffix) ↔
      name.drop (name.length - filter.back.length) ≠ filter.back := by
    by_cases h : filter.flag &&& fspftSuffix ≠ 0
    · rw [and_iff_right h, back, if_pos h]
    · rw [back, if_neg h]
      simp [h]
  have hfront : (filter.flag &&& fspftPrefix ≠ 0 ∧ name.take filter.front.length ≠ filter.namePrefix) ↔
      name.take filter.front.length ≠ filter.front := by
    by_cases h : filter.flag &&& fspftPrefix ≠ 0
    · rw [and_iff_right h, front, if_pos h]
    · rw [front, if_neg h]
      simp [h]
  unfold accepts
  dsimp only
  simp only [hback, hfront]
  generalize filter.front = front at *
  generalize filter.back = back at *
  constructor
  · intro h
    split at h
    · exact absurd h Bool.false_ne_true
    · next hlen =>
      split at h
      · exact absurd h Bool.false_ne_true
      · next hdrop =>
        split at h
        · exact absurd h Bool.false_ne_true
        · next htake =>
          split at h
          · exact absurd h Bool.false_ne_true
          · next hcall =>
            rw [ne_eq, not_not] at hdrop htake
            refine ⟨⟨(name.drop front.length).take (name.length - back.length - front.length), ?_, ?_⟩, fun hc => ?_⟩
            · intro hmid
              have hzero := congrArg List.length hmid
              rw [List.length_take, List.length_drop, List.length_nil] at hzero
              omega
            · have hrest :
                  (name.drop front.length).drop (name.length - back.length - front.length) = back := by
                have hindex :
                    front.length + (name.length - back.length - front.length) = name.length - back.length := by
                  omega
                rw [List.drop_drop, hindex]
                exact hdrop
              calc name = name.take front.length ++ name.drop front.length := (List.take_append_drop _ _).symm
                _ = front ++ name.drop front.length := by rw [htake]
                _ = front ++ ((name.drop front.length).take (name.length - back.length - front.length) ++
                    (name.drop front.length).drop (name.length - back.length - front.length)) :=
                  congrArg (front ++ ·) (List.take_append_drop _ _).symm
                _ = _ := by rw [hrest, List.append_assoc]
            · cases hres : filter.callback name with
              | true => rfl
              | false => exact absurd ⟨hc, hres⟩ hcall
  · rintro ⟨⟨mid, hmid, rfl⟩, hcall⟩
    have hpos : 0 < mid.length := List.length_pos_iff.mpr hmid
    have hlen : (front ++ mid ++ back).length = front.length + mid.length + back.length := by
      rw [List.length_append, List.length_append]
    have hdrop : (front ++ mid ++ back).drop ((front ++ mid ++ back).length - back.length) = back := by
      refine List.drop_left' ?_
      rw [hlen, List.length_append]
      omega
    have htake : (front ++ mid ++ back).take front.length = front := by
      rw [List.append_assoc]
      exact List.take_left
    rw [if_neg (by omega), if_neg (not_not_intro hdrop), if_neg (not_not_intro htake), if_neg]
    rintro ⟨hc, hres⟩
    rw [hcall hc] at hres
    exact absurd hres.symm Bool.false_ne_true

end StandardPathFilter

namespace StandardPath

variable {File : Type}

/-- The dictionary of `fcitx_standard_path_match`: the names in the order they came, with the files, or NULL. -/
abbrev Matches (File : Type) := List (Bytes × Option (List (StandardPathFile File)))

/-- A name of a directory: it is inserted if the filter takes it and it is not there. -/
def addName (filter : StandardPathFilter) (result : Matches File) (name : Bytes) : Matches File :=
  if filter.accepts name then
    if (result.lookup name).isNone then result ++ [(name, none)] else result
  else result

/-- The loop over the directories; `opendir` gives the names of a directory, and is not called with NULL. -/
def matchLoop (opendir : Bytes → Option (List Bytes)) (path : Bytes) (filter : StandardPathFilter) :
    List Bytes → Matches File → Option (Matches File)
  | [], result => some result
  | dirBasePath :: dirs, result =>
    match constructPath dirBasePath path with
    | none => none
    | some fullPath =>
      match opendir fullPath with
      | none => matchLoop opendir path filter dirs result
      | some names => matchLoop opendir path filter dirs (names.foldl (addName filter) result)

/-- The path of a name, as `fcitx_standard_path_foreach_func` makes it. -/
def namePath (path key : Bytes) : Bytes := if path = [] then key else path ++ pathSlash :: key

/-- `fcitx_standard_path_foreach_func` for all names. -/
def locateNames (sp : StandardPath) (fopen : UInt32 → Bytes → Option File) (type : StandardPathType) (path : Bytes)
    (flag : UInt32) : Matches File → Option (Matches File)
  | [] => some []
  | (key, _) :: result => do
    let data ← sp.locate fopen type (namePath path key) flag
    let result ← locateNames sp fopen type path flag result
    some ((key, data) :: result)

/-- `fcitx_standard_path_match`: NULL, or the dictionary. -/
def match' (sp : StandardPath) (fopen : UInt32 → Bytes → Option File) (opendir : Bytes → Option (List Bytes))
    (type : StandardPathType) (path : Bytes) (filter : StandardPathFilter) : Option (Option (Matches File)) :=
  let (firstDir, list) := sp.get type
  if firstDir = none ∧ list = none then some none
  else do
    let result ← matchLoop opendir path filter (firstDir.toList ++ list.getD []) []
    let result ← locateNames sp fopen type path filter.flag result
    let result := result.filter fun e => e.2.isSome
    if filter.flag &&& fspftSort ≠ 0 then (dictSort .uthash (some result) none).map some else some (some result)

/-! ### What is listed -/

/-- The directories of a type. -/
def dirs (sp : StandardPath) (type : StandardPathType) : List Bytes :=
  (sp.get type).1.toList ++ (sp.get type).2.getD []

/-- The names in the directories, one directory after the other. -/
def listed (opendir : Bytes → Option (List Bytes)) (path : Bytes) (dirs : List Bytes) : List Bytes :=
  dirs.flatMap fun dir => (opendir (cleanedPath (dir ++ pathSlash :: path))).getD []

variable {sp : StandardPath} {fopen : UInt32 → Bytes → Option File} {opendir : Bytes → Option (List Bytes)}
  {type : StandardPathType} {path : Bytes} {filter : StandardPathFilter} {result : Matches File}

theorem keys_pairs {A : Type} (f : Bytes → A) (names : List Bytes) :
    Assoc.keys (names.map fun name => (name, f name)) = names := by
  rw [Assoc.keys, List.map_map]
  exact List.map_id _

/-- The dictionary before the names are looked up. -/
def pending (File : Type) (names : List Bytes) : Matches File := names.map fun name => (name, none)

theorem keys_pending (names : List Bytes) : Assoc.keys (pending File names) = names := keys_pairs _ names

theorem addName_pending (names : List Bytes) (name : Bytes) :
    addName filter (pending File names) name =
      if filter.accepts name then pending File (Firsts.put names name) else pending File names := by
  have hlookup : ((pending File names).lookup name).isNone = true ↔ name ∉ names := by
    rw [Option.isNone_iff_eq_none, Assoc.lookup_eq_none_iff, keys_pending]
  rw [addName]
  by_cases hacc : filter.accepts name = true
  · rw [if_pos hacc, if_pos hacc]
    by_cases hmem : name ∈ names
    · rw [if_neg fun h => hlookup.mp h hmem, Firsts.put, if_pos hmem]
    · rw [if_pos (hlookup.mpr hmem), Firsts.put, if_neg hmem, pending, pending, List.map_append]
      rfl
  · rw [if_neg hacc, if_neg hacc]

/-- **The names that are taken**, each once and in the order they came first. -/
theorem foldl_addName (names start : List Bytes) :
    names.foldl (addName filter) (pending File start) =
      pending File ((names.filter filter.accepts).foldl Firsts.put start) := by
  induction names generalizing start with
  | nil => rfl
  | cons name names ih =>
    rw [List.foldl_cons, addName_pending, List.filter_cons]
    split
    · rw [ih, List.foldl_cons]
    · rw [ih]

theorem matchLoop_eq {ds : List Bytes} (hds : ∀ d ∈ ds, d ≠ []) (start : List Bytes) :
    matchLoop opendir path filter ds (pending File start) =
      some (pending File (((listed opendir path ds).filter filter.accepts).foldl Firsts.put start)) := by
  induction ds generalizing start with
  | nil => rfl
  | cons d ds ih =>
    obtain ⟨hd, hds'⟩ := List.forall_mem_cons.mp hds
    rw [matchLoop, constructPath, if_neg hd]
    dsimp only
    rw [listed, List.flatMap_cons, List.filter_append, List.foldl_append]
    cases hopen : opendir (cleanedPath (d ++ pathSlash :: path)) with
    | none => exact ih hds' start
    | some names =>
      dsimp only
      rw [foldl_addName, ih hds']
      rfl

/-- The files of a name. -/
def filesOf (sp : StandardPath) (fopen : UInt32 → Bytes → Option File) (type : StandardPathType) (path : Bytes)
    (flag : UInt32) (key : Bytes) : List (StandardPathFile File) :=
  located (fopen flag) (namePath path key) flag (sp.dirs type)

variable (sp fopen type) in
/-- Each name with an array of its files. -/
theorem locateNames_eq {flag : UInt32} (hflag : flag &&& fspftWrite = 0) (hpath : path.at 0 ≠ pathSlash)
    {keys : List Bytes} (hkeys : ∀ key ∈ keys, key.at 0 ≠ pathSlash) :
    ∃ size : Bytes → ℕ, (∀ key ∈ keys, (filesOf sp fopen type path flag key).length < size key) ∧
      locateNames sp fopen type path flag (pending File keys) =
        some (keys.map fun key => (key, arrayOf (size key) (filesOf sp fopen type path flag key))) := by
  have hlocate : ∀ key, key.at 0 ≠ pathSlash → ∃ n, (filesOf sp fopen type path flag key).length < n ∧
      sp.locate fopen type (namePath path key) flag = some (arrayOf n (filesOf sp fopen type path flag key)) := by
    intro key hkey
    have hfirst : (namePath path key).at 0 ≠ pathSlash := by
      rw [namePath]
      split
      · exact hkey
      · next hne =>
        obtain ⟨c, rest, rfl⟩ := List.exists_cons_of_ne_nil hne
        exact hpath
    exact locate_spec sp fopen type hfirst hflag
  choose! size hsize using hlocate
  refine ⟨size, fun key hkey => (hsize key (hkeys key hkey)).1, ?_⟩
  induction keys with
  | nil => rfl
  | cons key keys ih =>
    obtain ⟨hkey, hkeys'⟩ := List.forall_mem_cons.mp hkeys
    rw [pending, List.map_cons, locateNames, (hsize key hkey).2]
    change ((locateNames sp fopen type path flag (pending File keys)).bind _) = _
    rw [ih hkeys']
    rfl

/-- The names `fcitx_standard_path_match` keeps, in the order they are found. -/
def matched (sp : StandardPath) (fopen : UInt32 → Bytes → Option File) (opendir : Bytes → Option (List Bytes))
    (type : StandardPathType) (path : Bytes) (filter : StandardPathFilter) : List Bytes :=
  (Firsts.firsts ((listed opendir path (sp.dirs type)).filter filter.accepts)).filter fun name =>
    !(filesOf sp fopen type path filter.flag name).isEmpty

theorem isSome_arrayOf (size : ℕ) (files : List (StandardPathFile File)) :
    (arrayOf size files).isSome = !files.isEmpty := by
  cases files with
  | nil => rfl
  | cons file files => rfl

/-- **`fcitx_standard_path_match`** gives the names that are in a directory of the type, that the filter takes and for
which a file opens, each once and with all that is located for it: in the order they are found, or sorted. -/
theorem match_spec (sp : StandardPath) (fopen : UInt32 → Bytes → Option File) (opendir : Bytes → Option (List Bytes))
    (type : StandardPathType) (path : Bytes) (filter : StandardPathFilter)
    (hget : sp.get type ≠ (none, none)) (hdirs : ∀ dir ∈ sp.dirs type, dir ≠ [])
    (hflag : filter.flag &&& fspftWrite = 0) (hpath : path.at 0 ≠ pathSlash)
    (hnames : ∀ name ∈ listed opendir path (sp.dirs type), name.at 0 ≠ pathSlash) :
    ∃ result : Matches File, sp.match' fopen opendir type path filter = some (some result) ∧
      (Assoc.keys result).Nodup ∧
      (∀ name files, (name, files) ∈ result → ∃ size, (filesOf sp fopen type path filter.flag name).length < size ∧
        files = arrayOf size (filesOf sp fopen type path filter.flag name)) ∧
      (filter.flag &&& fspftSort = 0 → Assoc.keys result = matched sp fopen opendir type path filter) ∧
      (filter.flag &&& fspftSort ≠ 0 → (Assoc.keys result).Perm (matched sp fopen opendir type path filter) ∧
        (Assoc.keys result).Pairwise (· ≤ ·)) := by
  set taken := Firsts.firsts ((listed opendir path (sp.dirs type)).filter filter.accepts) with htaken
  have hslash : ∀ name ∈ taken, name.at 0 ≠ pathSlash := fun name hname =>
    hnames name (List.mem_of_mem_filter (Firsts.mem_firsts.mp hname))
  obtain ⟨size, hsize, hlocate⟩ := locateNames_eq sp fopen type hflag hpath hslash
  have hloop : matchLoop opendir path filter (sp.dirs type) [] = some (pending File taken) := by
    rw [htaken, ← Firsts.foldl_put_nil]
    exact matchLoop_eq hdirs []
  -- the entries with their files, and what is left of them
  set found : Matches File := (matched sp fopen opendir type path filter).map fun key =>
    (key, arrayOf (size key) (filesOf sp fopen type path filter.flag key)) with hfound
  have hleft : (taken.map fun key => (key, arrayOf (size key) (filesOf sp fopen type path filter.flag key)) :
      Matches File).filter (fun e => e.2.isSome) = found := by
    rw [List.filter_map, hfound, matched, ← htaken]
    congr 1
    exact List.filter_congr fun name _ => isSome_arrayOf _ _
  have hkeys : Assoc.keys found = matched sp fopen opendir type path filter := keys_pairs _ _
  have hnodup : (Assoc.keys found).Nodup := by
    rw [hkeys]
    exact (Firsts.firsts_nodup _).filter _
  have hfiles : ∀ name files, (name, files) ∈ found →
      ∃ size, (filesOf sp fopen type path filter.flag name).length < size ∧
        files = arrayOf size (filesOf sp fopen type path filter.flag name) := by
    intro name files hmem
    obtain ⟨key, hkey, heq⟩ := List.mem_map.mp hmem
    obtain ⟨rfl, rfl⟩ := Prod.mk.inj heq
    exact ⟨size key, hsize key (List.mem_of_mem_filter hkey), rfl⟩
  have hmatch : sp.match' fopen opendir type path filter =
      if filter.flag &&& fspftSort ≠ 0 then (dictSort .uthash (some found) none).map some else some (some found) := by
    have hnull : ¬((sp.get type).1 = none ∧ (sp.get type).2 = none) := fun h => hget (Prod.ext h.1 h.2)
    rw [← hleft]
    unfold match'
    dsimp only
    rw [if_neg hnull]
    change (matchLoop opendir path filter (sp.dirs type) []).bind _ = _
    rw [hloop, Option.bind_some]
    change (locateNames sp fopen type path filter.flag _).bind _ = _
    rw [hlocate, Option.bind_some]
  by_cases hsort : filter.flag &&& fspftSort = 0
  · refine ⟨found, ?_, hnodup, hfiles, fun _ => hkeys, fun h => absurd hsort h⟩
    rw [hmatch, if_neg (not_not_intro hsort)]
  · have hsorted := HashSort.uthash.sorted (itemCompare itemDefaultCompare) found
    have hperm := hsorted.perm.map Prod.fst
    refine ⟨HashSort.uthash.sort (itemCompare itemDefaultCompare) found, ?_, hperm.nodup_iff.mpr hnodup,
      fun name files hmem => hfiles name files (hsorted.perm.mem_iff.mp hmem), fun h => absurd h hsort,
      fun _ => ⟨hperm.trans (List.Perm.of_eq hkeys), hsorted.keys⟩⟩
    rw [hmatch, if_pos hsort]
    rfl

/-- A home directory and another one. -/
def homeAndShare : StandardPath where
  configHome := none
  configDirs := []
  dataHome := some [0x68]
  dataDirs := [[0x64]]
  cacheHome := none
  runtimeDir := none
  addonDirs := []

/-- What is in them: `c.x` and `b` at home, `b`, `a.x` and `c.x` in the other. -/
def homeAndShareNames (dir : Bytes) : Option (List Bytes) :=
  if dir = [0x68, 0x2f, 0x73] then some [[0x63, 0x2e, 0x78], [0x62]]
  else if dir = [0x64, 0x2f, 0x73] then some [[0x62], [0x61, 0x2e, 0x78], [0x63, 0x2e, 0x78]]
  else none

/-- The names with `.x` behind them, in order. -/
def dotX : StandardPathFilter := ⟨fspftSuffix ||| fspftSort, [], [0x2e, 0x78], fun _ => true⟩

theorem match_spec_homeAndShare :
    ∃ result : Matches Unit,
      homeAndShare.match' (fun _ _ => some ()) homeAndShareNames .data [0x73] dotX = some (some result) ∧
      (Assoc.keys result).Perm [[0x63, 0x2e, 0x78], [0x61, 0x2e, 0x78]] := by
  obtain ⟨result, hmatch, -, -, -, hsorted⟩ := match_spec homeAndShare (fun _ _ => some ()) homeAndShareNames .data
    [0x73] dotX (by decide) (by decide +kernel) (by decide) (by decide) (by decide +kernel)
  have hmatched : matched homeAndShare (fun _ _ => some ()) homeAndShareNames .data [0x73] dotX =
      [[0x63, 0x2e, 0x78], [0x61, 0x2e, 0x78]] := by decide +kernel
  exact ⟨result, hmatch, hmatched ▸ (hsorted (by decide)).1⟩

end StandardPath

end Fcitx
