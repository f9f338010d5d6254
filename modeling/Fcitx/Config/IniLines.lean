/-
# The lines of INI files

The writer writes whole lines, and the reader takes them apart again: a comment is
skipped, a group is the path it was written for, and an option is its name and
what is read of its value.

Key definitions: `fileText`, `NameOk`, `commentLines`, `groupLines`, `optionLine`.
Key theorems: `getlines_fileText`, `iniLine_group`, `iniLine_option`.
-/
import Fcitx.Config.IniValue

namespace Fcitx

/-- The text of whole lines. -/
def fileText (lines : List Bytes) : Bytes := lines.flatMap (· ++ [newline])

/-- The lines as `getline` gives them. -/
def withNewlines (lines : List Bytes) : List Bytes := lines.map (· ++ [newline])

theorem fileText_append (ls ms : List Bytes) : fileText (ls ++ ms) = fileText ls ++ fileText ms := List.flatMap_append

theorem withNewlines_append (ls ms : List Bytes) : withNewlines (ls ++ ms) = withNewlines ls ++ withNewlines ms :=
  List.map_append

theorem getlines_line {line : Bytes} (h : newline ∉ line) (text : Bytes) :
    getlines (line ++ newline :: text) = (line ++ [newline]) :: getlines text := by
  induction line with
  | nil => rw [List.nil_append, getlines, if_pos rfl]; rfl
  | cons c line ih =>
    rw [List.mem_cons, not_or] at h
    rw [List.cons_append, getlines, if_neg (Ne.symm h.1), ih h.2]
    rfl

/-- **Lines are read as they were written.** -/
theorem getlines_fileText {lines : List Bytes} (h : ∀ line ∈ lines, newline ∉ line) :
    getlines (fileText lines) = withNewlines lines := by
  induction lines with
  | nil => rfl
  | cons line lines ih =>
    rw [List.forall_mem_cons] at h
    show getlines ((line ++ [newline]) ++ fileText lines) = _
    rw [List.append_assoc, List.singleton_append, getlines_line h.1, ih h.2]
    rfl

/-! ### The lines of the writer -/

/-- A name that the format can hold. -/
def NameOk (name : Bytes) : Prop :=
  name ≠ [] ∧ (∀ c ∈ name, c ∉ ([slash, 61, 91, 93, 35, newline, 0] : Bytes)) ∧
    (∀ c, name.head? = some c → isspace c = false) ∧ ∀ c, name.getLast? = some c → isspace c = false

/-- The comment of an option. -/
def commentLines : Option Bytes → List Bytes
  | some comment => if newline ∈ comment then [] else [35 :: 32 :: comment]
  | none => []

/-- The line of a group; the root has none. -/
def groupLines (path : Bytes) : List Bytes := if path = [] then [] else [91 :: path ++ [93]]

/-- The line of an option. -/
def optionLine (name text : Bytes) : Bytes := name ++ 61 :: text

theorem fileText_commentLines (comment : Option Bytes) : fileText (commentLines comment) = writeComment comment := by
  cases comment with
  | none => rfl
  | some comment =>
    rw [commentLines, writeComment]
    split
    · rfl
    · show _ ++ [newline] ++ [] = _
      rw [List.append_nil]
      rfl

theorem fileText_groupLines (path : Bytes) : fileText (groupLines path) = writeGroup path := by
  unfold groupLines writeGroup
  split
  · rfl
  · show (91 :: path ++ [93]) ++ [newline] ++ [] = _
    rw [List.append_nil, List.append_assoc]
    rfl

/-! ### What the reader makes of them -/

section reader

variable {name text path : Bytes}

/-- A line that does not start or end with white space. -/
theorem inplaceTrim_line {line : Bytes} (hne : line ≠ []) (hhead : ∀ c, line.head? = some c → isspace c = false)
    (hlast : ∀ c, line.getLast? = some c → isspace c = false) : inplaceTrim (line ++ [newline]) = line := by
  have hdrop : (line ++ [newline]).dropWhile isspace = line ++ [newline] := by
    cases line with
    | nil => exact absurd rfl hne
    | cons c line =>
      rw [List.cons_append, List.dropWhile_cons, hhead c rfl]
      rfl
  rw [inplaceTrim_eq, hdrop, List.rdropWhile_concat_pos _ _ _ (by decide), List.rdropWhile_eq_self_iff]
  intro _ hspace
  rw [hlast _ (List.getLast?_eq_some_getLast hne)] at hspace
  exact Bool.false_ne_true hspace

/-- The string in the buffer of `getline`. -/
theorem cString_line {line : Bytes} (h : 0 ∉ line) : cString (line ++ [newline]) = line ++ [newline] := by
  apply cString_of_noZero
  rw [List.mem_append, List.mem_singleton, not_or]
  exact ⟨h, by decide⟩

theorem iniLine_comment (rest : Bytes) : iniLine (35 :: rest) = .skip := by
  have hstring : cString (35 :: rest) = 35 :: cString rest := rfl
  have hhead : (inplaceTrim (35 :: cString rest)).head? = some 35 := by
    rw [inplaceTrim_eq, List.dropWhile_cons]
    have hspace : isspace 35 = false := by decide
    rw [hspace, if_neg Bool.false_ne_true]
    cases htrim : (35 :: cString rest).rdropWhile isspace with
    | nil =>
      rw [List.rdropWhile_eq_nil_iff] at htrim
      exact absurd (htrim 35 List.mem_cons_self) (by decide)
    | cons c trimmed =>
      have hstart := List.rdropWhile_prefix isspace (35 :: cString rest)
      rw [htrim] at hstart
      rw [(List.cons_prefix_cons.mp hstart).1]
      rfl
  unfold iniLine
  rw [hstring]
  dsimp only
  rw [if_pos hhead]

/-- **A group** is the path it was written for. -/
theorem iniLine_group (h : 0 ∉ path) : iniLine (91 :: path ++ [93] ++ [newline]) = .group path := by
  have hlast : (91 :: path ++ [93]).getLast? = some 93 := List.getLast?_concat
  have hzero : (0 : UInt8) ∉ 91 :: path ++ [93] := by
    rw [List.mem_append, List.mem_cons, List.mem_singleton, not_or, not_or]
    exact ⟨⟨by decide, h⟩, by decide⟩
  have hhash : ¬ (91 :: path ++ [93]).head? = some 35 := by
    intro heq
    exact absurd (Option.some.inj heq) (by decide)
  have htrim : inplaceTrim (91 :: path ++ [93] ++ [newline]) = 91 :: path ++ [93] := by
    refine inplaceTrim_line (List.cons_ne_nil _ _) (fun c hc => ?_) fun c hc => ?_
    · rw [← Option.some.inj hc]
      decide
    · rw [Option.some.inj (hlast.symm.trans hc).symm]
      decide
  unfold iniLine
  rw [cString_line hzero, htrim]
  dsimp only
  rw [if_neg hhash, if_pos ⟨rfl, hlast⟩]
  show IniLine.group (path ++ [93]).dropLast = _
  rw [List.dropLast_concat]

/-- **An option** is its name and what is read of its value. -/
theorem iniLine_option (hname : NameOk name) (htext : LineSafe text) :
    iniLine (optionLine name text ++ [newline]) =
      match readValue text with
      | none => .skip
      | some value => .option name value := by
  obtain ⟨hne, hbytes, hhead, -⟩ := hname
  have hequals : (61 : UInt8) ∉ name := fun hmem => hbytes 61 hmem (by decide)
  have hzero : (0 : UInt8) ∉ optionLine name text := by
    rw [optionLine, List.mem_append, List.mem_cons, not_or, not_or]
    exact ⟨fun hmem => hbytes 0 hmem (by decide), by decide, htext.zero⟩
  obtain ⟨c, rest, rfl⟩ := List.exists_cons_of_ne_nil hne
  have hc := hbytes c List.mem_cons_self
  have hlast : ∀ d, (optionLine (c :: rest) text).getLast? = some d → isspace d = false := by
    intro d hd
    rw [optionLine, List.getLast?_append, List.getLast?_cons] at hd
    obtain rfl : text.getLast?.getD 61 = d := Option.some.inj hd
    cases hend : text.getLast? with
    | none => rfl
    | some e => exact htext.last e hend
  have htrim : inplaceTrim (optionLine (c :: rest) text ++ [newline]) = optionLine (c :: rest) text :=
    inplaceTrim_line (List.cons_ne_nil _ _) hhead hlast
  have hbefore : ∀ d ∈ c :: rest, decide (d ≠ 61) = true := by
    intro d hd
    apply decide_eq_true
    rintro rfl
    exact hequals hd
  have htake : (optionLine (c :: rest) text).takeWhile (· ≠ 61) = c :: rest := by
    rw [optionLine, List.takeWhile_append_of_pos hbefore, List.takeWhile_cons, if_neg (by decide), List.append_nil]
  have hdrop : (optionLine (c :: rest) text).dropWhile (· ≠ 61) = 61 :: text := by
    rw [optionLine, List.dropWhile_append_of_pos hbefore, List.dropWhile_cons, if_neg (by decide)]
  have hmem : (61 : UInt8) ∈ optionLine (c :: rest) text := List.mem_append_right _ List.mem_cons_self
  have hhash : ¬ (optionLine (c :: rest) text).head? = some 35 := by
    intro heq
    obtain rfl : c = 35 := Option.some.inj heq
    exact hc (by decide)
  have hbracket : ¬ (optionLine (c :: rest) text).head? = some 91 := by
    intro heq
    obtain rfl : c = 91 := Option.some.inj heq
    exact hc (by decide)
  unfold iniLine
  rw [cString_line hzero, htrim]
  dsimp only
  rw [if_neg hhash, if_neg fun h => hbracket h.1, if_pos hmem, htake, hdrop]
  rfl

end reader

end Fcitx
