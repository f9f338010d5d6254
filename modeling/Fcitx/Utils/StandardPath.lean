/-
# Looking a file up

`fcitx_standard_path_locate` opens a file in the user directory of a type and
in its system directories, the first one that opens or all of them. The array
it returns is allocated when the first file opens, of a size computed before
the system directories are tried. The table of directories gives the data
directories for `FSPT_Config`: its own are never looked at.

Key definitions: `StandardPath.get`, `StandardPath.tryOpen`, `StandardPath.locate`, `StandardPath.LocateLaw`.
Key theorems: `StandardPath.cleanPath_constructPath`, `StandardPath.locateLoop_spec`, `StandardPath.locate_spec`,
`StandardPath.locateLaw_iff`.
-/
import Fcitx.Utils.CleanInPlace

namespace Fcitx

/-- `FcitxStandardPathType` -/
inductive StandardPathType where
  | config
  | data
  | cache
  | runtime
  | addon
  deriving DecidableEq

/-- `FSPFT_Write` -/
def fspftWrite : UInt32 := 3

/-- `FSPFT_LocateAll` -/
def fspftLocateAll : UInt32 := (1 : UInt32) <<< 6

/-- `FcitxStandardPath`; a user directory may be NULL. -/
structure StandardPath where
  configHome : Option Bytes
  configDirs : List Bytes
  dataHome : Option Bytes
  dataDirs : List Bytes
  cacheHome : Option Bytes
  runtimeDir : Option Bytes
  addonDirs : List Bytes

/-- `FcitxStandardPathFile`; `none` is NULL. -/
structure StandardPathFile (File : Type) where
  fp : Option File
  path : Option Bytes
  deriving DecidableEq

namespace StandardPath

variable {File : Type}

/-! ### The code -/

/-- `fcitx_standard_path_get` -/
def get (sp : StandardPath) : StandardPathType → Option Bytes × Option (List Bytes)
  | .config => (sp.configHome, some sp.dataDirs)
  | .data => (sp.dataHome, some sp.dataDirs)
  | .cache => (sp.cacheHome, none)
  | .runtime => (sp.runtimeDir, none)
  | .addon => (none, some sp.addonDirs)

/-- `fcitx_standard_path_construct_path` -/
def constructPath (basepath path : Bytes) : Option Bytes :=
  if basepath = [] then none else some (cleanedPath (basepath ++ pathSlash :: path))

/-- The file that is in no directory: both members are NULL. -/
def noFile : StandardPathFile File := ⟨none, none⟩

/-- `fcitx_standard_path_try_open`; `fopen` opens a path with the flags of the call. -/
def tryOpen (fopen : UInt32 → Bytes → Option File) (basepath path : Bytes) (flag : UInt32) : StandardPathFile File :=
  match constructPath basepath path with
  | none => noFile
  | some fullPath =>
    match fopen flag fullPath with
    | none => noFile
    | some fp => ⟨some fp, some fullPath⟩

/-- `fcitx_utils_newv(FcitxStandardPathFile, size)` -/
def newv (File : Type) (size : ℕ) : List (StandardPathFile File) := List.replicate size noFile

/-- `result[idx] = file`, which has no result outside the array. -/
def setFile (result : List (StandardPathFile File)) (idx : ℕ) (file : StandardPathFile File) :
    Option (List (StandardPathFile File)) :=
  if idx < result.length then some (result.set idx file) else none

/-- The loop over the list of directories. -/
def locateLoop (fopen : UInt32 → Bytes → Option File) (path : Bytes) (flag : UInt32) (resultSize : ℕ) :
    List Bytes → Option (List (StandardPathFile File)) → ℕ → Option (Option (List (StandardPathFile File)))
  | [], result, _ => some result
  | dir :: dirs, result, idx =>
    if idx = 1 ∧ flag &&& fspftLocateAll = 0 then some result
    else
      let file := tryOpen fopen dir path flag
      if file.fp.isSome then
        -- alloc on required
        match setFile (result.getD (newv File resultSize)) idx file with
        | none => none
        | some result => locateLoop fopen path flag resultSize dirs (some result) (idx + 1)
      else locateLoop fopen path flag resultSize dirs result idx

/-- `fcitx_standard_path_locate`: NULL, or an array. -/
def locate (sp : StandardPath) (fopen : UInt32 → Bytes → Option File) (type : StandardPathType) (path : Bytes)
    (flag : UInt32) : Option (Option (List (StandardPathFile File))) :=
  if path.at 0 = pathSlash then
    match fopen flag path with
    | none => some none
    | some fp => (setFile (newv File 2) 0 ⟨some fp, some path⟩).map some
  else
    let (firstDir, list) := sp.get type
    if firstDir = none ∧ list = none then some none
    else
      let fileFirst := match firstDir with
        | some firstDir => tryOpen fopen firstDir path flag
        | none => noFile
      -- if we don't write and there is a list
      match if flag &&& fspftWrite = 0 then list else none with
      | none =>
        if fileFirst.fp = none then some none
        else (setFile (newv File 2) 0 fileFirst).map some
      | some list =>
        let resultSize :=
          if flag &&& fspftLocateAll ≠ 0 then 1 + (if fileFirst.fp.isSome then 1 else 0) + list.length else 2
        if fileFirst.fp.isSome then
          match setFile (newv File resultSize) 0 fileFirst with
          | none => none
          | some result => locateLoop fopen path flag resultSize list (some result) 1
        else locateLoop fopen path flag resultSize list none 0

/-! ### What a lookup is for -/

/-- The user directory of a type. -/
def userDir (sp : StandardPath) : StandardPathType → Option Bytes
  | .config => sp.configHome
  | .data => sp.dataHome
  | .cache => sp.cacheHome
  | .runtime => sp.runtimeDir
  | .addon => none

/-- The system directories of a type. -/
def systemDirs (sp : StandardPath) : StandardPathType → List Bytes
  | .config => sp.configDirs
  | .data => sp.dataDirs
  | .cache => []
  | .runtime => []
  | .addon => sp.addonDirs

/-- A file that opens, with its full path. -/
def openFile (fs : Bytes → Option File) (path basepath : Bytes) : Option (StandardPathFile File) :=
  (constructPath basepath path).bind fun fullPath => (fs fullPath).map fun fp => ⟨some fp, some fullPath⟩

/-- The files that are located in some directories, in order: the first one, or all of them. -/
def located (fs : Bytes → Option File) (path : Bytes) (flag : UInt32) (dirs : List Bytes) :
    List (StandardPathFile File) :=
  if flag &&& fspftLocateAll = 0 then (dirs.filterMap (openFile fs path)).take 1
  else dirs.filterMap (openFile fs path)

/-- **Standard path lookup**: NULL if no file opens, otherwise an array that starts with the located files
and an empty entry behind them. -/
def LocateLaw (files : List (StandardPathFile File))
    (result : Option (Option (List (StandardPathFile File)))) : Prop :=
  if files = [] then result = some none
  else ∃ array, result = some (some array) ∧ (files ++ [noFile]) <+: array

/-! ### Opening -/

section Opening

variable {fopen : UInt32 → Bytes → Option File} {path : Bytes} {flag : UInt32}

/-- The path is cleaned in the memory that `fcitx_asprintf` allocates for it. -/
theorem cleanPath_constructPath {basepath : Bytes} (hne : basepath ≠ []) (h0 : 0 ∉ basepath) (hpath : 0 ∉ path) :
    ∃ r, constructPath basepath path = some r ∧
      Leaves (cleanPath ((basepath ++ pathSlash :: path).length + 1)
        ⟨true, memOf (basepath ++ pathSlash :: path), memOf (basepath ++ pathSlash :: path), []⟩) r := by
  have hzero : 0 ∉ basepath ++ pathSlash :: path := by
    rw [List.mem_append, not_or, List.mem_cons, not_or]
    exact ⟨h0, by decide, hpath⟩
  have hfull : basepath ++ pathSlash :: path ≠ [] := List.append_ne_nil_of_left_ne_nil hne _
  exact ⟨_, if_neg hne, cleanPath_leaves hzero hfull (Nat.lt_succ_self _) (fun _ _ => rfl) rfl⟩

theorem tryOpen_eq (dir : Bytes) : tryOpen fopen dir path flag = (openFile (fopen flag) path dir).getD noFile := by
  unfold tryOpen openFile
  cases constructPath dir path with
  | none => rfl
  | some fullPath =>
    dsimp only [Option.bind_some]
    cases fopen flag fullPath <;> rfl

theorem openFile_fp {fs : Bytes → Option File} {dir : Bytes} {file : StandardPathFile File}
    (h : openFile fs path dir = some file) : file.fp.isSome = true := by
  unfold openFile at h
  obtain ⟨fullPath, -, hopen⟩ := Option.bind_eq_some_iff.mp h
  obtain ⟨fp, -, rfl⟩ := Option.map_eq_some_iff.mp hopen
  rfl

theorem located_fp {fs : Bytes → Option File} {dirs : List Bytes} {file : StandardPathFile File}
    (h : file ∈ located fs path flag dirs) : file ≠ noFile := by
  have hmem : file ∈ dirs.filterMap (openFile fs path) := by
    unfold located at h
    split at h
    · exact List.mem_of_mem_take h
    · exact h
  obtain ⟨dir, -, hopen⟩ := List.mem_filterMap.mp hmem
  rintro rfl
  have hfp := openFile_fp hopen
  cases hfp

end Opening

/-! ### The array -/

/-- The array of `size` entries with some files in it, which is not allocated before the first of them. -/
def arrayOf (size : ℕ) (files : List (StandardPathFile File)) : Option (List (StandardPathFile File)) :=
  if files = [] then none else some (files ++ newv File (size - files.length))

section Array

variable {size : ℕ} {files files' : List (StandardPathFile File)}

theorem arrayOf_getD (size : ℕ) (files : List (StandardPathFile File)) :
    (arrayOf size files).getD (newv File size) = files ++ newv File (size - files.length) := by
  unfold arrayOf
  split
  · next hnil =>
    subst hnil
    rfl
  · rfl

theorem setFile_array (h : files.length < size) (file : StandardPathFile File) :
    setFile (files ++ newv File (size - files.length)) files.length file =
      some (files ++ [file] ++ newv File (size - (files ++ [file]).length)) := by
  have hroom : size - files.length = size - (files ++ [file]).length + 1 := by
    rw [List.length_append, List.length_singleton]
    omega
  have hlt : files.length < (files ++ newv File (size - files.length)).length := by
    rw [List.length_append, newv, List.length_replicate]
    omega
  rw [setFile, if_pos hlt, List.set_append_right _ _ (Nat.le_refl _), Nat.sub_self, hroom, newv, List.replicate_succ,
    List.set_cons_zero, List.append_assoc]
  rfl

theorem setFile_first (h : 0 < size) (file : StandardPathFile File) :
    setFile (newv File size) 0 file = some ([] ++ [file] ++ newv File (size - ([] ++ [file]).length)) := by
  have hroom : ([] : List (StandardPathFile File)).length < size := h
  exact setFile_array hroom file

theorem arrayOf_concat (size : ℕ) (files : List (StandardPathFile File)) (file : StandardPathFile File) :
    arrayOf size (files ++ [file]) = some (files ++ [file] ++ newv File (size - (files ++ [file]).length)) :=
  if_neg (List.append_ne_nil_of_right_ne_nil _ (List.cons_ne_nil _ _))

/-- The files end at the first empty entry. -/
theorem eq_of_append_noFile : ∀ {files files' rest rest' : List (StandardPathFile File)}, noFile ∉ files →
    noFile ∉ files' → files ++ noFile :: rest = files' ++ noFile :: rest' → files = files'
  | [], [], _, _, _, _, _ => rfl
  | [], file :: files', _, _, _, hfiles', heq => by
    obtain ⟨rfl, -⟩ := List.cons.inj heq
    exact absurd List.mem_cons_self hfiles'
  | file :: files, [], _, _, hfiles, _, heq => by
    obtain ⟨rfl, -⟩ := List.cons.inj heq
    exact absurd List.mem_cons_self hfiles
  | file :: files, file' :: files', _, _, hfiles, hfiles', heq => by
    obtain ⟨rfl, htail⟩ := List.cons.inj heq
    rw [List.mem_cons, not_or] at hfiles hfiles'
    exact congrArg (file :: ·) (eq_of_append_noFile hfiles.2 hfiles'.2 htail)

/-- An array with room for the terminator says which files are in it. -/
theorem locateLaw_arrayOf_iff (hfiles : noFile ∉ files) (hfiles' : noFile ∉ files') (hroom : files'.length < size) :
    LocateLaw files (some (arrayOf size files')) ↔ files = files' := by
  have harray : files' ≠ [] →
      arrayOf size files' = some (files' ++ noFile :: newv File (size - files'.length - 1)) := by
    intro hne
    have hleft : size - files'.length = size - files'.length - 1 + 1 := by omega
    rw [arrayOf, if_neg hne, hleft, newv, List.replicate_succ]
    rfl
  unfold LocateLaw
  constructor
  · intro hlaw
    by_cases hnil : files' = []
    · subst hnil
      by_cases hempty : files = []
      · exact hempty
      · rw [if_neg hempty] at hlaw
        obtain ⟨array, heq, -⟩ := hlaw
        cases heq
    · rw [harray hnil] at hlaw
      split at hlaw
      · cases hlaw
      · obtain ⟨array, heq, rest, hrest⟩ := hlaw
        obtain rfl := Option.some.inj (Option.some.inj heq)
        rw [List.append_assoc, List.singleton_append] at hrest
        exact eq_of_append_noFile hfiles hfiles' hrest
  · rintro rfl
    split
    · next hnil => rw [arrayOf, if_pos hnil]
    · next hne =>
      refine ⟨_, congrArg some (harray hne), newv File (size - files.length - 1), ?_⟩
      rw [List.append_assoc]
      rfl

end Array

/-! ### The lookup -/

section Lookup

variable {fopen : UInt32 → Bytes → Option File} {path : Bytes} {flag : UInt32}

/-- **The loop** goes on with the files it has, up to the first one if that is enough. -/
theorem locateLoop_spec {size : ℕ} (dirs : List Bytes) : ∀ {files : List (StandardPathFile File)},
    (flag &&& fspftLocateAll = 0 → size = 2 ∧ files.length ≤ 1) →
    (flag &&& fspftLocateAll ≠ 0 → files.length + dirs.length < size) →
    locateLoop fopen path flag size dirs (arrayOf size files) files.length =
      some (arrayOf size (if flag &&& fspftLocateAll = 0 then
          (files ++ dirs.filterMap (openFile (fopen flag) path)).take 1
        else files ++ dirs.filterMap (openFile (fopen flag) path))) := by
  induction dirs with
  | nil =>
    intro files hfirst hall
    rw [locateLoop, List.filterMap_nil, List.append_nil]
    split
    · next hflag => rw [List.take_of_length_le (hfirst hflag).2]
    · rfl
  | cons dir dirs ih =>
    intro files hfirst hall
    unfold locateLoop
    by_cases hbreak : files.length = 1 ∧ flag &&& fspftLocateAll = 0
    case pos =>
      rw [if_pos hbreak, if_pos hbreak.2, List.take_append_of_le_length (by omega), List.take_of_length_le (by omega)]
    case neg =>
      rw [if_neg hbreak, tryOpen_eq]
      cases hopen : openFile (fopen flag) path dir with
      | none =>
        rw [List.filterMap_cons_none hopen]
        refine ih hfirst fun hflag => ?_
        have hroom := hall hflag
        rw [List.length_cons] at hroom
        omega
      | some file =>
        have hroom : files.length < size ∧ (flag &&& fspftLocateAll = 0 → files.length = 0) := by
          by_cases hflag : flag &&& fspftLocateAll = 0
          · obtain ⟨hsize, hle⟩ := hfirst hflag
            have hne : files.length ≠ 1 := fun hone => hbreak ⟨hone, hflag⟩
            exact ⟨by omega, fun _ => by omega⟩
          · have hlt := hall hflag
            exact ⟨by omega, fun h => absurd h hflag⟩
        rw [Option.getD_some, if_pos (openFile_fp hopen), arrayOf_getD, setFile_array hroom.1,
          List.filterMap_cons_some hopen,
          List.append_cons files file (dirs.filterMap _)]
        dsimp only
        rw [← arrayOf_concat]
        have hlen : files.length + 1 = (files ++ [file]).length := by rw [List.length_append, List.length_singleton]
        rw [hlen]
        refine ih (fun hflag => ⟨(hfirst hflag).1, ?_⟩) fun hflag => ?_
        · rw [← hlen, hroom.2 hflag]
        · have hlt := hall hflag
          rw [List.length_cons] at hlt
          omega

/-- What a user directory and a list of system directories are looked up for. -/
theorem located_append (fs : Bytes → Option File) (path : Bytes) (flag : UInt32) (firstDir : Option Bytes)
    (dirs : List Bytes) :
    located fs path flag (firstDir.toList ++ dirs) =
      if flag &&& fspftLocateAll = 0 then
        ((firstDir.bind (openFile fs path)).toList ++ dirs.filterMap (openFile fs path)).take 1
      else (firstDir.bind (openFile fs path)).toList ++ dirs.filterMap (openFile fs path) := by
  have hfirst : firstDir.toList.filterMap (openFile fs path) = (firstDir.bind (openFile fs path)).toList := by
    cases firstDir with
    | none => rfl
    | some dir =>
      rw [Option.toList_some, Option.bind_some]
      cases hopen : openFile fs path dir with
      | none => exact List.filterMap_cons_none hopen
      | some file => exact List.filterMap_cons_some hopen
  rw [located, List.filterMap_append, hfirst]

/-- The size that is computed leaves room for the terminator. -/
theorem located_length_lt (fs : Bytes → Option File) (path : Bytes) (flag : UInt32) (firstDir : Option Bytes)
    (dirs : List Bytes) :
    (located fs path flag (firstDir.toList ++ dirs)).length <
      if flag &&& fspftLocateAll ≠ 0 then
        1 + (if (firstDir.bind (openFile fs path)).isSome then 1 else 0) + dirs.length
      else 2 := by
  have hdirs := List.length_filterMap_le (openFile fs path) dirs
  have hfirst : (firstDir.bind (openFile fs path)).toList.length =
      if (firstDir.bind (openFile fs path)).isSome then 1 else 0 := by
    cases firstDir.bind (openFile fs path) <;> rfl
  rw [located_append]
  by_cases hflag : flag &&& fspftLocateAll = 0
  · rw [if_pos hflag, if_neg (fun hne => hne hflag), List.length_take]
    omega
  · rw [if_neg hflag, if_pos hflag, List.length_append, hfirst]
    omega

/-- **A lookup** by a relative path, without write bits, locates the files in the directories it gets. -/
theorem locate_spec (sp : StandardPath) (fopen : UInt32 → Bytes → Option File) (type : StandardPathType)
    (hpath : path.at 0 ≠ pathSlash) (hflag : flag &&& fspftWrite = 0) :
    ∃ size, (located (fopen flag) path flag ((sp.get type).1.toList ++ (sp.get type).2.getD [])).length < size ∧
      sp.locate fopen type path flag =
        some (arrayOf size (located (fopen flag) path flag ((sp.get type).1.toList ++ (sp.get type).2.getD []))) := by
  unfold locate
  rw [if_neg hpath]
  obtain ⟨firstDir, list⟩ := sp.get type
  dsimp only
  have hopen : (match firstDir with
      | some firstDir => tryOpen fopen firstDir path flag
      | none => noFile) = (firstDir.bind (openFile (fopen flag) path)).getD noFile := by
    cases firstDir with
    | none => rfl
    | some dir => exact tryOpen_eq dir
  have hfp : ∀ file, firstDir.bind (openFile (fopen flag) path) = some file → file.fp.isSome = true := by
    intro file hfile
    obtain ⟨dir, -, hdir⟩ := Option.bind_eq_some_iff.mp hfile
    exact openFile_fp hdir
  have hnone : firstDir = none → firstDir.bind (openFile (fopen flag) path) = none := by
    rintro rfl
    rfl
  have hroom := located_length_lt (fopen flag) path flag firstDir (list.getD [])
  rw [located_append] at hroom
  rw [if_pos hflag, hopen, located_append]
  generalize firstDir.bind (openFile (fopen flag) path) = first at hroom hfp hnone ⊢
  refine ⟨_, hroom, ?_⟩
  cases list with
  | none =>
    rw [Option.getD_none, List.filterMap_nil, List.append_nil]
    cases first with
    | none =>
      have htake : (if flag &&& fspftLocateAll = 0 then List.take 1 (none : Option (StandardPathFile File)).toList
          else (none : Option (StandardPathFile File)).toList) = [] := by split <;> rfl
      rw [htake]
      by_cases hdir : firstDir = none
      · exact if_pos ⟨hdir, rfl⟩
      · exact (if_neg fun h => hdir h.1).trans (if_pos rfl)
    | some file =>
      have hdir : firstDir ≠ none := fun h => (by cases hnone h)
      have htake :
          (if flag &&& fspftLocateAll = 0 then List.take 1 (some file).toList else (some file).toList) = [file] := by
        split <;> rfl
      have hne : ¬ file.fp = none := Option.isSome_iff_ne_none.mp (hfp file rfl)
      rw [if_neg fun h => hdir h.1, htake]
      dsimp only [Option.getD_some]
      have hsize :
          (if flag &&& fspftLocateAll ≠ 0 then 1 + (if (some file).isSome then 1 else 0) + ([] : List Bytes).length
          else 2) = 2 := by split <;> rfl
      rw [if_neg hne, hsize]
      exact congrArg (Option.map some) ((setFile_first (by decide) file).trans (arrayOf_concat 2 [] file).symm)
  | some dirs =>
    rw [if_neg fun h => (by cases h.2), Option.getD_some]
    cases first with
    | none =>
      refine @locateLoop_spec File fopen path flag _ dirs []
        (fun hall => ⟨if_neg (not_not_intro hall), Nat.zero_le _⟩) fun hall => ?_
      rw [if_pos hall, List.length_nil]
      omega
    | some file =>
      have hpos : 0 < if flag &&& fspftLocateAll ≠ 0 then 1 + 1 + dirs.length else 2 := by
        split <;> omega
      dsimp only [Option.getD_some]
      rw [if_pos (hfp file rfl), if_pos (hfp file rfl), setFile_first hpos file, ← arrayOf_concat _ [] file]
      refine @locateLoop_spec File fopen path flag _ dirs [file]
        (fun hall => ⟨if_neg (not_not_intro hall), Nat.le_refl _⟩) fun hall => ?_
      rw [if_pos hall]
      show 1 + dirs.length < 1 + 1 + dirs.length
      omega

end Lookup

/-! ### The directories of a type -/

/-- The directories that are looked into, and those of the type: `FSPT_Config` gets the data directories. -/
theorem get_eq (sp : StandardPath) (type : StandardPathType) :
    (sp.get type).1.toList ++ (sp.get type).2.getD [] =
      if type = .config then sp.configHome.toList ++ sp.dataDirs
      else (sp.userDir type).toList ++ sp.systemDirs type := by
  cases type <;> rfl

/-- **Standard path lookup** works for every type but `FSPT_Config`, and there if the data directories locate
what its own directories would. -/
theorem locateLaw_iff (sp : StandardPath) (fopen : UInt32 → Bytes → Option File) (type : StandardPathType)
    {path : Bytes}
    {flag : UInt32} (hpath : path.at 0 ≠ pathSlash) (hflag : flag &&& fspftWrite = 0) :
    LocateLaw (located (fopen flag) path flag ((sp.userDir type).toList ++ sp.systemDirs type))
        (sp.locate fopen type path flag) ↔
      (type = .config →
        located (fopen flag) path flag (sp.configHome.toList ++ sp.configDirs) =
          located (fopen flag) path flag (sp.configHome.toList ++ sp.dataDirs)) := by
  obtain ⟨size, hroom, hlocate⟩ := locate_spec sp fopen type hpath hflag
  have hfiles : ∀ dirs : List Bytes, noFile ∉ located (fopen flag) path flag dirs :=
    fun dirs hmem => located_fp hmem rfl
  rw [hlocate, locateLaw_arrayOf_iff (hfiles _) (hfiles _) hroom, get_eq]
  by_cases htype : type = .config
  · subst htype
    rw [if_pos rfl]
    exact ⟨fun heq _ => heq, fun heq => heq rfl⟩
  · rw [if_neg htype]
    exact ⟨fun _ hconfig => absurd hconfig htype, fun _ => rfl⟩

/-- The directories of a user `/h`, with system directories `/c` and `/d`. -/
def twoDirs : StandardPath where
  configHome := some [pathSlash, 0x68]
  configDirs := [[pathSlash, 0x63]]
  dataHome := some [pathSlash, 0x68]
  dataDirs := [[pathSlash, 0x64]]
  cacheHome := none
  runtimeDir := none
  addonDirs := []

/-- Only `/c/f` opens. -/
def onlyConfig (_ : UInt32) (path : Bytes) : Option ℕ :=
  if path = [pathSlash, 0x63, pathSlash, 0x66] then some 3 else none

/-- Only `/d/f` opens. -/
def onlyData (_ : UInt32) (path : Bytes) : Option ℕ :=
  if path = [pathSlash, 0x64, pathSlash, 0x66] then some 4 else none

/-- The data file `/d/f` is found behind the user directory. -/
theorem locateLaw_data :
    LocateLaw (located (onlyData 0) [0x66] 0 ((twoDirs.userDir .data).toList ++ twoDirs.systemDirs .data))
      (twoDirs.locate onlyData .data [0x66] 0) ∧
      located (onlyData 0) [0x66] 0 ((twoDirs.userDir .data).toList ++ twoDirs.systemDirs .data) =
        [⟨some 4, some [pathSlash, 0x64, pathSlash, 0x66]⟩] :=
  ⟨(locateLaw_iff twoDirs onlyData .data (by decide) (by decide)).mpr fun h => (by cases h), by decide +kernel⟩

/-- The configuration file `/c/f` is not found. -/
theorem not_locateLaw_config :
    ¬ LocateLaw (located (onlyConfig 0) [0x66] 0 ((twoDirs.userDir .config).toList ++ twoDirs.systemDirs .config))
      (twoDirs.locate onlyConfig .config [0x66] 0) := by
  have hfiles : located (onlyConfig 0) [0x66] 0 ((twoDirs.userDir .config).toList ++ twoDirs.systemDirs .config) =
      [⟨some 3, some [pathSlash, 0x63, pathSlash, 0x66]⟩] := by decide +kernel
  have hlocate : twoDirs.locate onlyConfig .config [0x66] 0 = some none := by decide +kernel
  rw [hfiles, hlocate, LocateLaw, if_neg (List.cons_ne_nil _ _)]
  intro hlaw
  obtain ⟨array, heq, -⟩ := hlaw
  cases heq

end StandardPath

end Fcitx
