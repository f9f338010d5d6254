/-
# Making the directories of a path

`fcitx_utils_make_path` of `fcitx-utils/fs.c` cleans the path, takes the slashes off its end
and calls `mkdir` for each part of what is left that ends at a slash or at its end. It stops
where something else than a directory is in the way; other errors of `mkdir` are passed over,
so it can succeed where a directory was refused (`FileSystem.makePath_spec`). Where nothing is
left it succeeds and makes nothing, and where cleaning gives the path another meaning, as it
does to `x/../../y`, the path itself is no directory in the end.

Key definitions: `FileSystem`, `FileSystem.makeLoop`, `FileSystem.makePath`, `FileSystem.refused`.
Key theorems: `FileSystem.makeLoop_eq`, `FileSystem.mkdirs_spec`, `FileSystem.makePath_spec`.
-/
import Fcitx.Utils.CleanPath
import Mathlib.Data.List.DropRight
import Mathlib.Data.List.Nodup

namespace Fcitx

/-- `S_ISDIR(stats.st_mode)` or not -/
inductive FileKind where
  | dir
  | other
deriving DecidableEq

/-- The `errno` of `mkdir` -/
inductive MkdirError where
  | eexist
  | other (errno : ℕ)
deriving DecidableEq

/-- A file system in its states, as `stat`, `access` with `R_OK | X_OK` and `mkdir` show it: `mkdir` makes a directory
where there is nothing, or changes nothing. -/
structure FileSystem (S : Type) where
  stat : S → Bytes → Option FileKind
  access : S → Bytes → Bool
  mkdir : S → Bytes → Option MkdirError × S
  mkdir_exists : ∀ s p, stat s p ≠ none → (mkdir s p).1 = some .eexist
  mkdir_made : ∀ s p, (mkdir s p).1 = none → stat (mkdir s p).2 p = some .dir
  mkdir_failed : ∀ s p, (mkdir s p).1 ≠ none → (mkdir s p).2 = s
  stat_mkdir : ∀ s p q k, stat s q = some k → stat (mkdir s p).2 q = some k

namespace FileSystem

variable {S : Type} (fs : FileSystem S)

/-- `fcitx_utils_isdir` -/
def isdir (s : S) (path : Bytes) : Bool := fs.stat s path = some .dir && fs.access s path

/-- The call of `mkdir` for a part of the path; `none` is the way to `make_path_end`. -/
def mkdirPart (s : S) (part : Bytes) : Option S :=
  let (errno, s') := fs.mkdir s part
  if errno = some .eexist ∧ fs.stat s' part ≠ some .dir then none else some s'

/-- The loop of `fcitx_utils_make_path`, with the path in front of `p` and from there on. -/
def makeLoop : Bytes → Bytes → S → Bool × S
  | front, [], s =>
    match fs.mkdirPart s front with
    | none => (false, s)
    | some s => (true, s)
  | front, c :: rest, s =>
    if c = pathSlash then
      match fs.mkdirPart s front with
      | none => (false, s)
      | some s => makeLoop (front ++ [c]) rest s
    else makeLoop (front ++ [c]) rest s

/-- `opath`, without the slashes at its end -/
def trimmedPath (path : Bytes) : Bytes := (cleanedPath path).rdropWhile (· = pathSlash)

/-- `fcitx_utils_make_path` -/
def makePath (s : S) (path : Bytes) : Bool × S :=
  if fs.isdir s path then (true, s)
  else
    let opath := trimmedPath path
    if opath = [] then (true, s)
    else
      -- the root directory is not what we can create
      fs.makeLoop (opath.takeWhile (· = pathSlash)) (opath.dropWhile (· = pathSlash)) s

/-! ### The parts of a path -/

/-- The parts that `mkdir` is called for. -/
def partsFrom : Bytes → Bytes → List Bytes
  | front, [] => [front]
  | front, c :: rest =>
    if c = pathSlash then front :: partsFrom (front ++ [c]) rest else partsFrom (front ++ [c]) rest

def parts (path : Bytes) : List Bytes :=
  let opath := trimmedPath path
  if opath = [] then [] else partsFrom (opath.takeWhile (· = pathSlash)) (opath.dropWhile (· = pathSlash))

/-- The calls of `mkdir` one after the other. -/
def mkdirs : List Bytes → S → Bool × S
  | [], s => (true, s)
  | part :: ps, s =>
    match fs.mkdirPart s part with
    | none => (false, s)
    | some s => mkdirs ps s

/-- The parts that are not there and that `mkdir` does not make, up to where it stops. -/
def refused : List Bytes → S → List Bytes
  | [], _ => []
  | part :: ps, s =>
    match fs.mkdirPart s part with
    | none => []
    | some s' => if fs.stat s' part = some .dir then refused ps s' else part :: refused ps s'

variable {fs} {front rest path : Bytes} {s s' : S} {ps : List Bytes} {part : Bytes}

theorem makeLoop_eq (front rest : Bytes) (s : S) : fs.makeLoop front rest s = fs.mkdirs (partsFrom front rest) s := by
  induction rest generalizing front s with
  | nil =>
    rw [makeLoop, partsFrom, mkdirs]
    cases fs.mkdirPart s front with
    | none => rfl
    | some s => rfl
  | cons c rest ih =>
    rw [makeLoop, partsFrom]
    by_cases hc : c = pathSlash
    · rw [if_pos hc, if_pos hc, mkdirs]
      cases fs.mkdirPart s front with
      | none => rfl
      | some s => exact ih (front ++ [c]) s
    · rw [if_neg hc, if_neg hc]
      exact ih (front ++ [c]) s

theorem length_partsFrom (front rest : Bytes) : ∀ part ∈ partsFrom front rest, front.length ≤ part.length := by
  induction rest generalizing front with
  | nil =>
    intro part hpart
    rw [partsFrom, List.mem_singleton] at hpart
    exact hpart ▸ Nat.le_refl _
  | cons c rest ih =>
    have hrest : ∀ part ∈ partsFrom (front ++ [c]) rest, front.length ≤ part.length := by
      intro part hpart
      have hle := ih (front ++ [c]) part hpart
      rw [List.length_append] at hle
      omega
    intro part hpart
    rw [partsFrom] at hpart
    split at hpart
    · rcases List.mem_cons.mp hpart with rfl | hpart
      · exact Nat.le_refl _
      · exact hrest part hpart
    · exact hrest part hpart

/-- No part is made twice. -/
theorem partsFrom_nodup (front rest : Bytes) : (partsFrom front rest).Nodup := by
  induction rest generalizing front with
  | nil => exact List.nodup_singleton front
  | cons c rest ih =>
    rw [partsFrom]
    split
    · refine List.nodup_cons.mpr ⟨fun hmem => ?_, ih _⟩
      have hle := length_partsFrom (front ++ [c]) rest front hmem
      rw [List.length_append, List.length_singleton] at hle
      omega
    · exact ih _

theorem parts_nodup (path : Bytes) : (parts path).Nodup := by
  rw [parts]
  split
  · exact List.nodup_nil
  · exact partsFrom_nodup _ _

/-- The path itself is the last part. -/
theorem append_mem_partsFrom (front rest : Bytes) : front ++ rest ∈ partsFrom front rest := by
  induction rest generalizing front with
  | nil =>
    rw [List.append_nil]
    exact List.mem_singleton_self front
  | cons c rest ih =>
    have hmem := ih (front ++ [c])
    rw [List.append_assoc, List.singleton_append] at hmem
    rw [partsFrom]
    split
    · exact List.mem_cons_of_mem _ hmem
    · exact hmem

theorem trimmedPath_mem_parts (h : trimmedPath path ≠ []) : trimmedPath path ∈ parts path := by
  have hmem := append_mem_partsFrom ((trimmedPath path).takeWhile (· = pathSlash))
    ((trimmedPath path).dropWhile (· = pathSlash))
  rw [List.takeWhile_append_dropWhile] at hmem
  rw [parts, if_neg h]
  exact hmem

/-! ### What is made -/

/-- A part that is passed: it is a directory now, or `mkdir` refused it. -/
theorem mkdirPart_some (h : fs.mkdirPart s part = some s') : s' = (fs.mkdir s part).2 := by
  rw [mkdirPart] at h
  dsimp only at h
  split at h
  · exact absurd h.symm (Option.some_ne_none s')
  · exact (Option.some.inj h).symm

theorem mkdirPart_none (h : fs.mkdirPart s part = none) : fs.stat s part ≠ some .dir := by
  rw [mkdirPart] at h
  dsimp only at h
  split at h
  · next hc =>
    have hsame := fs.mkdir_failed s part (by rw [hc.1]; exact Option.some_ne_none _)
    rw [← hsame]
    exact hc.2
  · exact absurd h (Option.some_ne_none _)

theorem stat_mkdirPart (h : fs.mkdirPart s part = some s') {q : Bytes} {k : FileKind} (hk : fs.stat s q = some k) :
    fs.stat s' q = some k := by
  rw [mkdirPart_some h]
  exact fs.stat_mkdir s part q k hk

/-- What is there stays as it is. -/
theorem stat_mkdirs {q : Bytes} {k : FileKind} (hk : fs.stat s q = some k) :
    fs.stat (fs.mkdirs ps s).2 q = some k := by
  induction ps generalizing s with
  | nil => exact hk
  | cons part ps ih =>
    rw [mkdirs]
    cases hpart : fs.mkdirPart s part with
    | none => exact hk
    | some s' => exact ih (stat_mkdirPart hpart hk)

/-- **The calls succeed** exactly if each part is a directory in the end or was refused. -/
theorem mkdirs_spec (hnd : ps.Nodup) (s : S) :
    (fs.mkdirs ps s).1 = true ↔
      ∀ q ∈ ps, fs.stat (fs.mkdirs ps s).2 q = some .dir ∨ q ∈ fs.refused ps s := by
  induction ps generalizing s with
  | nil => exact iff_of_true rfl fun q hq => absurd hq List.not_mem_nil
  | cons part ps ih =>
    obtain ⟨hout, hnd'⟩ := List.nodup_cons.mp hnd
    rw [mkdirs, refused]
    cases hpart : fs.mkdirPart s part with
    | none =>
      refine iff_of_false Bool.false_ne_true fun h => ?_
      exact (h part List.mem_cons_self).elim (mkdirPart_none hpart) List.not_mem_nil
    | some s' =>
      dsimp only
      rw [ih hnd' s', List.forall_mem_cons]
      by_cases hdir : fs.stat s' part = some .dir
      · rw [if_pos hdir, and_iff_right (Or.inl (stat_mkdirs hdir))]
      · rw [if_neg hdir, and_iff_right (Or.inr List.mem_cons_self)]
        refine forall₂_congr fun q hq => or_congr_right ?_
        rw [List.mem_cons, or_iff_right]
        rintro rfl
        exact hout hq

/-- **`fcitx_utils_make_path`** leaves what is there. It succeeds on a directory and where nothing is left of the path,
and makes nothing; otherwise it succeeds exactly if each part of the path that is left is a directory in the end or was
refused, so if none was refused, that path is one. -/
theorem makePath_spec (fs : FileSystem S) (s : S) (path : Bytes) :
    (∀ q k, fs.stat s q = some k → fs.stat (fs.makePath s path).2 q = some k) ∧
      (fs.isdir s path = true → fs.makePath s path = (true, s)) ∧
      (trimmedPath path = [] → fs.makePath s path = (true, s)) ∧
      (fs.isdir s path = false → ((fs.makePath s path).1 = true ↔
        ∀ q ∈ parts path, fs.stat (fs.makePath s path).2 q = some .dir ∨ q ∈ fs.refused (parts path) s)) ∧
      (fs.isdir s path = false → trimmedPath path ≠ [] → fs.refused (parts path) s = [] →
        (fs.makePath s path).1 = true → fs.stat (fs.makePath s path).2 (trimmedPath path) = some .dir) := by
  have hmk : fs.isdir s path = false → fs.makePath s path = fs.mkdirs (parts path) s := by
    intro hdir
    rw [makePath, hdir, if_neg Bool.false_ne_true, parts]
    dsimp only
    split
    · rfl
    · exact makeLoop_eq _ _ s
  have hiff : fs.isdir s path = false → ((fs.makePath s path).1 = true ↔
      ∀ q ∈ parts path, fs.stat (fs.makePath s path).2 q = some .dir ∨ q ∈ fs.refused (parts path) s) := by
    intro hdir
    rw [hmk hdir]
    exact mkdirs_spec (parts_nodup path) s
  refine ⟨fun q k hk => ?_, fun hdir => ?_, fun hnil => ?_, hiff, fun hdir hne hrefused htrue => ?_⟩
  · cases hdir : fs.isdir s path with
    | true =>
      rw [makePath, hdir, if_pos rfl]
      exact hk
    | false =>
      rw [hmk hdir]
      exact stat_mkdirs hk
  · rw [makePath, hdir, if_pos rfl]
  · rw [makePath]
    dsimp only
    rw [if_pos hnil, ite_self]
  · have hall := (hiff hdir).mp htrue _ (trimmedPath_mem_parts hne)
    rw [hrefused] at hall
    exact hall.resolve_right List.not_mem_nil

/-- A file system of directories alone, in which every directory can be made. -/
def ofDirs : FileSystem (List Bytes) where
  stat s p := if p ∈ s then some .dir else none
  access s p := p ∈ s
  mkdir s p := if p ∈ s then (some .eexist, s) else (none, p :: s)
  mkdir_exists s p h := by
    by_cases hp : p ∈ s
    · rw [if_pos hp]
    · exact absurd (if_neg hp) h
  mkdir_made s p h := by
    by_cases hp : p ∈ s
    · rw [if_pos hp] at h
      exact absurd h (Option.some_ne_none _)
    · rw [if_neg hp, if_pos List.mem_cons_self]
  mkdir_failed s p h := by
    by_cases hp : p ∈ s
    · rw [if_pos hp]
    · rw [if_neg hp] at h
      exact absurd rfl h
  stat_mkdir s p q k h := by
    by_cases hp : p ∈ s
    · rw [if_pos hp]
      exact h
    · have hq : q ∈ s := by
        by_contra hq
        rw [if_neg hq] at h
        exact Option.some_ne_none k h.symm
      rw [if_pos hq] at h
      rw [if_neg hp, if_pos (List.mem_cons_of_mem p hq), h]

/-- `a//b/./c` -/
example : ofDirs.makePath [[0x61]] [0x61, pathSlash, pathSlash, 0x62, pathSlash, dot, pathSlash, 0x63] =
    (true, [[0x61, pathSlash, 0x62, pathSlash, 0x63], [0x61, pathSlash, 0x62], [0x61]]) := by
  decide +kernel

/-- `x/../../y` -/
def upTwice : Bytes := [0x78, pathSlash, dot, dot, pathSlash, dot, dot, pathSlash, 0x79]

/-- No path at all, and one that is cleaned to `x/y`. -/
theorem makePath_spec_upTwice :
    ofDirs.makePath [] [] = (true, []) ∧ trimmedPath upTwice = [0x78, pathSlash, 0x79] ∧
      (ofDirs.makePath [] upTwice).1 = true ∧
      ofDirs.stat (ofDirs.makePath [] upTwice).2 (trimmedPath upTwice) = some .dir ∧
      ofDirs.stat (ofDirs.makePath [] upTwice).2 upTwice = none := by
  obtain ⟨-, -, hnil, -, -⟩ := makePath_spec ofDirs [] []
  obtain ⟨-, -, -, -, hmade⟩ := makePath_spec ofDirs [] upTwice
  refine ⟨hnil (by decide +kernel), by decide +kernel, by decide +kernel, ?_, by decide +kernel⟩
  exact hmade (by decide +kernel) (by decide +kernel) (by decide +kernel) (by decide +kernel)

end FileSystem

end Fcitx
