/-
# Escaping a string

`fcitx_utils_set_escape_str` puts a backslash before the characters of a set and
writes the control characters among them as letters; the two unescaping
functions take the backslashes away again, one into a new buffer and one in
the buffer of the string itself. Memory is a list of bytes up to and with the
terminator; reading behind its end has no result.

Key definitions: `Escape.escapeLoop`, `Escape.unescapeLoop`, `Escape.inPlaceLoop`, `Escape.escaped`.
Key theorems: `Escape.escapeLoop_eq`, `Escape.unescapeLoop_escaped`, `Escape.inPlaceLoop_eq`,
`Escape.escape_roundTrip`.
-/
import Fcitx.Utils.StringUtils

namespace Fcitx
namespace Escape

/-- `'\\'` -/
def backslash : UInt8 := 92

/-- The characters that are written as a letter: `\a`, `\b`, `\f`, `\n`, `\r`, `\t`, `\e` and `\v`. -/
def controls : Bytes := [7, 8, 12, 10, 13, 9, 27, 11]

/-- `FCITX_CHAR_NEED_ESCAPE` -/
def charNeedEscape : Bytes := controls ++ [39, 34, backslash]

/-- `fcitx_utils_unescape_char` -/
def unescapeChar (c : UInt8) : UInt8 :=
  if c = 97 then 7
  else if c = 98 then 8
  else if c = 102 then 12
  else if c = 110 then 10
  else if c = 114 then 13
  else if c = 116 then 9
  else if c = 101 then 27
  else if c = 118 then 11
  else c

/-- `fcitx_utils_escape_char` -/
def escapeChar (c : UInt8) : UInt8 :=
  if c = 7 then 97
  else if c = 8 then 98
  else if c = 12 then 102
  else if c = 10 then 110
  else if c = 13 then 114
  else if c = 9 then 116
  else if c = 27 then 101
  else if c = 11 then 118
  else c

/-- The loop of `fcitx_utils_set_escape_str_with_set`, with at most `fuel` rounds: what is written. -/
def escapeLoop (set : Bytes) : ℕ → Bytes → Option Bytes
  | 0, _ => none
  | fuel + 1, src =>
    let len := strcspn src set
    match src.drop len with
    | [] => none
    | pos :: rest =>
      if pos = 0 then some (src.take len)
      else (escapeLoop set fuel rest).map fun dest => src.take len ++ backslash :: escapeChar pos :: dest

/-- `fcitx_utils_set_escape_str_with_set`; `none` is a null pointer. -/
def setEscapeStrWithSet (fuel : ℕ) (str : Bytes) (set : Option Bytes) : Option Bytes :=
  escapeLoop (set.getD charNeedEscape) fuel (str ++ [0])

/-- `fcitx_utils_set_escape_str` -/
def setEscapeStr (fuel : ℕ) (str : Bytes) : Option Bytes := setEscapeStrWithSet fuel str none

/-- The loop of `fcitx_utils_set_unescape_str`. -/
def unescapeLoop : ℕ → Bytes → Option Bytes
  | 0, _ => none
  | fuel + 1, src =>
    let len := strcspn src [backslash]
    match src.drop len with
    | [] => none
    | pos :: rest =>
      if pos = 0 then some (src.take len)
      else match rest with
        | [] => none
        | c :: rest => (unescapeLoop fuel rest).map fun dest => src.take len ++ unescapeChar c :: dest

/-- `fcitx_utils_set_unescape_str` -/
def setUnescapeStr (fuel : ℕ) (str : Bytes) : Option Bytes := unescapeLoop fuel (str ++ [0])

/-- The loop of `fcitx_utils_unescape_str_inplace`: the buffer after it. -/
def inPlaceLoop : ℕ → Bytes → ℕ → ℕ → Option Bytes
  | 0, _, _, _ => none
  | fuel + 1, buf, dest, src =>
    let len := strcspn (buf.drop src) [backslash]
    let pos := src + len
    buf[pos]?.bind fun c =>
      let buf := if dest ≠ src ∧ len ≠ 0 then memmove buf dest src len else buf
      if c = 0 then some (buf.set (dest + len) 0)
      else
        let dest := dest + len
        let src := pos + 1
        buf[src]?.bind fun c => inPlaceLoop fuel (buf.set dest (unescapeChar c)) (dest + 1) (src + 1)

/-- `fcitx_utils_unescape_str_inplace`: the string in the buffer after it. -/
def unescapeStrInplace (fuel : ℕ) (str : Bytes) : Option Bytes :=
  (inPlaceLoop fuel (str ++ [0]) 0 0).map cString

variable {set s m out : Bytes} {c d : UInt8} {fuel : ℕ}

/-! ### One character -/

theorem escapeLoop_zero (fuel : ℕ) (m : Bytes) : escapeLoop set (fuel + 1) (0 :: m) = some [] := by
  unfold escapeLoop
  simp [strcspn_zero]

theorem escapeLoop_special (h0 : c ≠ 0) (hc : c ∈ set) (fuel : ℕ) (m : Bytes) :
    escapeLoop set (fuel + 1) (c :: m) =
      (escapeLoop set fuel m).map fun dest => backslash :: escapeChar c :: dest := by
  rw [escapeLoop]
  simp [strcspn_reject hc, h0]

theorem escapeLoop_plain (h0 : c ≠ 0) (hc : c ∉ set) (fuel : ℕ) (m : Bytes) :
    escapeLoop set fuel (c :: m) = (escapeLoop set fuel m).map (c :: ·) := by
  cases fuel with
  | zero => rfl
  | succ fuel =>
    unfold escapeLoop
    dsimp only
    rw [strcspn_cons h0 hc, List.drop_succ_cons, List.take_succ_cons]
    cases m.drop (strcspn m set) with
    | nil => rfl
    | cons pos rest =>
      dsimp only
      split_ifs
      · rfl
      · rw [Option.map_map]
        rfl

theorem unescapeLoop_zero (fuel : ℕ) (m : Bytes) : unescapeLoop (fuel + 1) (0 :: m) = some [] := by
  unfold unescapeLoop
  simp [strcspn_zero]

theorem unescapeLoop_special (fuel : ℕ) (d : UInt8) (m : Bytes) :
    unescapeLoop (fuel + 1) (backslash :: d :: m) = (unescapeLoop fuel m).map (unescapeChar d :: ·) := by
  have hne : backslash ≠ 0 := by decide
  rw [unescapeLoop]
  simp [strcspn_reject, hne]

theorem unescapeLoop_plain (h0 : c ≠ 0) (hc : c ≠ backslash) (fuel : ℕ) (m : Bytes) :
    unescapeLoop fuel (c :: m) = (unescapeLoop fuel m).map (c :: ·) := by
  have hc' : c ∉ [backslash] := by simpa using hc
  cases fuel with
  | zero => rfl
  | succ fuel =>
    unfold unescapeLoop
    dsimp only
    rw [strcspn_cons h0 hc', List.drop_succ_cons, List.take_succ_cons]
    cases m.drop (strcspn m [backslash]) with
    | nil => rfl
    | cons pos rest =>
      dsimp only
      split_ifs
      · rfl
      · cases rest with
        | nil => rfl
        | cons e rest =>
          dsimp only
          rw [Option.map_map]
          rfl

/-! ### The round trip -/

/-- What is written for a character. -/
def escaped (set : Bytes) (c : UInt8) : Bytes := if c ∈ set then [backslash, escapeChar c] else [c]

/-- **Escaping** writes every character by itself. -/
theorem escapeLoop_eq (set m : Bytes) (h0 : 0 ∉ s) : ∀ fuel, s.length < fuel →
    escapeLoop set fuel (s ++ 0 :: m) = some (s.flatMap (escaped set)) := by
  induction s with
  | nil =>
    intro fuel hfuel
    obtain ⟨fuel, rfl⟩ := Nat.exists_eq_succ_of_ne_zero (Nat.ne_of_gt hfuel)
    exact escapeLoop_zero fuel m
  | cons c s ih =>
    intro fuel hfuel
    obtain ⟨fuel, rfl⟩ := Nat.exists_eq_succ_of_ne_zero (Nat.ne_of_gt (Nat.zero_lt_of_lt hfuel))
    have hc0 : c ≠ 0 := fun e => h0 (e ▸ List.mem_cons_self)
    have hs0 : 0 ∉ s := fun hm => h0 (List.mem_cons_of_mem c hm)
    rw [List.length_cons] at hfuel
    rw [List.cons_append, List.flatMap_cons, escaped]
    by_cases hc : c ∈ set
    · rw [escapeLoop_special hc0 hc, ih hs0 fuel (by omega), if_pos hc]
      rfl
    · rw [escapeLoop_plain hc0 hc, ih hs0 (fuel + 1) (by omega), if_neg hc]
      rfl

/-- **The two tables** are inverse on the escaped characters. -/
theorem unescapeChar_escapeChar : ∀ c ∈ charNeedEscape, unescapeChar (escapeChar c) = c := by
  decide +kernel

/-- **Unescaping** what was escaped. -/
theorem unescapeLoop_escaped (m : Bytes) (h0 : 0 ∉ s) : ∀ fuel, s.length < fuel →
    unescapeLoop fuel (s.flatMap (escaped charNeedEscape) ++ 0 :: m) = some s := by
  induction s with
  | nil =>
    intro fuel hfuel
    obtain ⟨fuel, rfl⟩ := Nat.exists_eq_succ_of_ne_zero (Nat.ne_of_gt hfuel)
    exact unescapeLoop_zero fuel m
  | cons c s ih =>
    intro fuel hfuel
    obtain ⟨fuel, rfl⟩ := Nat.exists_eq_succ_of_ne_zero (Nat.ne_of_gt (Nat.zero_lt_of_lt hfuel))
    have hc0 : c ≠ 0 := fun e => h0 (e ▸ List.mem_cons_self)
    have hs0 : 0 ∉ s := fun hm => h0 (List.mem_cons_of_mem c hm)
    rw [List.length_cons] at hfuel
    rw [List.flatMap_cons, escaped]
    by_cases hc : c ∈ charNeedEscape
    · rw [if_pos hc, List.append_assoc, List.cons_append, List.cons_append, List.nil_append]
      rw [unescapeLoop_special, ih hs0 fuel (by omega), unescapeChar_escapeChar c hc]
      rfl
    · have hback : c ≠ backslash := by
        rintro rfl
        exact hc (by decide)
      rw [if_neg hc, List.append_assoc, List.cons_append, List.nil_append]
      rw [unescapeLoop_plain hc0 hback, ih hs0 (fuel + 1) (by omega)]
      rfl

/-- No byte that is written for a character is zero or a control character of the set. -/
theorem escaped_spec (h0 : c ≠ 0) : ∀ d ∈ escaped charNeedEscape c, d ≠ 0 ∧ d ∉ controls := by
  unfold escaped
  by_cases hc : c ∈ charNeedEscape
  · have hspecial : ∀ c ∈ charNeedEscape, ∀ d ∈ [backslash, escapeChar c], d ≠ 0 ∧ d ∉ controls := by
      decide +kernel
    rw [if_pos hc]
    exact hspecial c hc
  · rw [if_neg hc]
    intro d hd
    obtain rfl := List.mem_singleton.mp hd
    exact ⟨h0, fun hm => hc (List.mem_append_left _ hm)⟩

/-- What is written fits into the buffer of twice the length. -/
theorem length_flatMap_escaped (set s : Bytes) : (s.flatMap (escaped set)).length ≤ 2 * s.length := by
  induction s with
  | nil => exact Nat.le_refl _
  | cons c s ih =>
    have hle : (escaped set c).length ≤ 2 := by
      unfold escaped
      split_ifs <;> simp
    rw [List.flatMap_cons, List.length_append, List.length_cons]
    omega

/-! ### In the buffer of the string -/

theorem memmove_zero (buf : Bytes) (dest src : ℕ) : memmove buf dest src 0 = buf := by
  simp [memmove]

theorem memmove_self (buf : Bytes) (src n : ℕ) : memmove buf src src n = buf := by
  unfold memmove
  calc buf.take src ++ (buf.drop src).take n ++ buf.drop (src + n)
      = buf.take src ++ ((buf.drop src).take n ++ (buf.drop src).drop n) := by
        rw [List.append_assoc, List.drop_drop]
    _ = buf := by rw [List.take_append_drop, List.take_append_drop]

/-- Where nothing has to be moved, a move would change nothing. -/
theorem moved_eq (buf : Bytes) (dest src len : ℕ) :
    (if dest ≠ src ∧ len ≠ 0 then memmove buf dest src len else buf) = memmove buf dest src len := by
  split_ifs with h
  · rfl
  · rcases not_and_or.mp h with hsame | hnone
    · rw [not_ne_iff.mp hsame, memmove_self]
    · rw [not_ne_iff.mp hnone, memmove_zero]

/-- A run that is moved towards the start leaves a gap between its new place and what stood behind it. -/
theorem memmove_gap (buf : Bytes) {dest src len : ℕ} (hle : dest ≤ src) (hinside : src + len ≤ buf.length) :
    ∃ gap, gap.length = src - dest ∧
      memmove buf dest src len = buf.take dest ++ (buf.drop src).take len ++ (gap ++ buf.drop (src + len)) := by
  refine ⟨(buf.drop (dest + len)).take (src - dest), ?_, ?_⟩
  · rw [List.length_take, List.length_drop]
    omega
  · have hbehind : buf.drop (src + len) = (buf.drop (dest + len)).drop (src - dest) := by
      rw [List.drop_drop]
      congr 1
      omega
    rw [hbehind, List.take_append_drop]
    rfl

/-- A byte behind the front of a buffer is written. -/
theorem set_front (front rest : Bytes) (new : UInt8) (hrest : rest ≠ []) :
    (front ++ rest).set front.length new = front ++ new :: rest.tail := by
  cases rest with
  | nil => exact absurd rfl hrest
  | cons old rest => simp

theorem take_set_front (front rest : Bytes) (new : UInt8) (hrest : rest ≠ []) :
    ((front ++ rest).set front.length new).take (front.length + 1) = front ++ [new] := by
  rw [set_front _ _ _ hrest, List.take_append, List.take_of_length_le (Nat.le_succ _)]
  simp

/-- **In place** the same is written as into a new buffer, and nothing is where that has no result. -/
theorem inPlaceLoop_eq (fuel : ℕ) : ∀ {buf : Bytes} {dest src : ℕ}, dest ≤ src → src ≤ buf.length →
    ∃ after, inPlaceLoop fuel buf dest src =
      (unescapeLoop fuel (buf.drop src)).map fun out => buf.take dest ++ out ++ 0 :: after := by
  induction fuel with
  | zero => exact fun _ _ => ⟨[], rfl⟩
  | succ fuel ih =>
    intro buf dest src hle hsrc
    unfold unescapeLoop inPlaceLoop
    dsimp only
    have hlen : strcspn (buf.drop src) [backslash] ≤ (buf.drop src).length := strcspn_le _ _
    generalize hl : strcspn (buf.drop src) [backslash] = len at hlen ⊢
    rw [List.length_drop] at hlen
    rw [List.drop_drop, moved_eq]
    obtain ⟨gap, hgap, hmoved⟩ := memmove_gap buf hle (by omega : src + len ≤ buf.length)
    rw [hmoved]
    have hfront : (buf.take dest ++ (buf.drop src).take len).length = dest + len := by
      rw [List.length_append, List.length_take, List.length_take, List.length_drop]
      omega
    generalize hf : buf.take dest ++ (buf.drop src).take len = front at hfront ⊢
    cases hpos : buf.drop (src + len) with
    | nil =>
      have hread : buf[src + len]? = none := by
        rw [← List.head?_drop, hpos]
        rfl
      rw [hread]
      exact ⟨[], rfl⟩
    | cons pos rest =>
      dsimp only
      have hread : buf[src + len]? = some pos := by
        rw [← List.head?_drop, hpos]
        rfl
      have hne : gap ++ pos :: rest ≠ [] := by simp
      rw [hread, Option.bind_some, ← hfront]
      by_cases h0 : pos = 0
      · -- the last run is in its place, and the terminator is written behind it
        refine ⟨(gap ++ pos :: rest).tail, ?_⟩
        rw [if_pos h0, if_pos h0, set_front _ _ _ hne, Option.map_some, hf]
      · rw [if_neg h0, if_neg h0]
        cases rest with
        | nil =>
          have hescaped : (front ++ (gap ++ [pos]))[src + len + 1]? = none := by
            refine List.getElem?_eq_none ?_
            rw [List.length_append, List.length_append, List.length_singleton]
            omega
          rw [hescaped]
          exact ⟨[], rfl⟩
        | cons c rest =>
          dsimp only
          have hsplit : front ++ (gap ++ pos :: c :: rest) = (front ++ gap ++ [pos]) ++ c :: rest := by simp
          have hat : (front ++ gap ++ [pos]).length = src + len + 1 := by
            rw [List.length_append, List.length_append, List.length_singleton]
            omega
          have hescaped : (front ++ (gap ++ pos :: c :: rest))[src + len + 1]? = some c := by
            rw [hsplit, ← hat]
            simp
          rw [hescaped, Option.bind_some]
          have hbehind : ((front ++ (gap ++ pos :: c :: rest)).set front.length (unescapeChar c)).drop
              (src + len + 1 + 1) = rest := by
            rw [List.drop_set_of_lt (by omega), hsplit, ← hat, ← List.drop_drop, List.drop_left]
            rfl
          have hbefore : ((front ++ (gap ++ pos :: c :: rest)).set front.length (unescapeChar c)).take
              (front.length + 1) = front ++ [unescapeChar c] := take_set_front _ _ _ hne
          have hlong : src + len + 1 + 1 ≤
              ((front ++ (gap ++ pos :: c :: rest)).set front.length (unescapeChar c)).length := by
            rw [List.length_set, hsplit, List.length_append, hat, List.length_cons]
            omega
          obtain ⟨after, hafter⟩ := ih (by omega : front.length + 1 ≤ src + len + 1 + 1) hlong
          refine ⟨after, ?_⟩
          rw [hafter, hbehind, hbefore, Option.map_map, ← hf]
          refine congrArg (fun f => Option.map f _) (funext fun out => ?_)
          simp

/-- **Escape and unescape.** Every string comes back from its escaped text, from a new buffer as from the buffer of
the text itself, and the escaped text has no terminator in it, no control character, and room in the buffer that is
allocated for it. -/
theorem escape_roundTrip (s : Bytes) (h0 : 0 ∉ s) {fuel : ℕ} (hfuel : s.length < fuel) :
    ∃ text, setEscapeStr fuel s = some text ∧ text.length ≤ 2 * s.length ∧
      (∀ c ∈ text, c ≠ 0 ∧ c ∉ controls) ∧
      setUnescapeStr fuel text = some s ∧ unescapeStrInplace fuel text = some s := by
  have hunescaped := unescapeLoop_escaped [] h0 fuel hfuel
  have hsize : 0 ≤ (s.flatMap (escaped charNeedEscape) ++ [0]).length := Nat.zero_le _
  obtain ⟨after, hafter⟩ := inPlaceLoop_eq fuel (Nat.le_refl 0) hsize
  refine ⟨s.flatMap (escaped charNeedEscape), escapeLoop_eq charNeedEscape [] h0 fuel hfuel,
    length_flatMap_escaped _ s, ?_, hunescaped, ?_⟩
  · intro d hd
    obtain ⟨c, hc, hd⟩ := List.mem_flatMap.mp hd
    exact escaped_spec (fun e => h0 (e ▸ hc)) d hd
  · unfold unescapeStrInplace
    rw [hafter, List.drop_zero, hunescaped, Option.map_some, Option.map_some, List.take_zero, List.nil_append,
      cString_append_zero, cString_of_noZero h0]

/-- A quoted line of two words. -/
theorem escape_roundTrip_line :
    ∃ text, setEscapeStr 7 [34, 97, 10, 92, 110, 34] = some text ∧ text.length ≤ 2 * 6 ∧
      (∀ c ∈ text, c ≠ 0 ∧ c ∉ controls) ∧
      setUnescapeStr 7 text = some [34, 97, 10, 92, 110, 34] ∧
      unescapeStrInplace 7 text = some [34, 97, 10, 92, 110, 34] :=
  escape_roundTrip [34, 97, 10, 92, 110, 34] (by decide) (by decide)

end Escape
end Fcitx
