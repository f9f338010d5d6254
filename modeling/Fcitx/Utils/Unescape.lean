/-
# Where unescaping reads and writes

The two unescaping functions over the memory they write to: a round that reads behind
the terminator or writes behind the end of its buffer is a fault. A backslash takes the
byte behind it along whatever it is, the terminator as well. So the functions stay
inside of a string exactly if it ends in an even number of backslashes; in any other
they go on behind its end.

Key definitions: `Escape.unescapeInto`, `Escape.unescapeInPlace`, `Escape.StaysInside`,
`Escape.trailing`.
Key theorems: `Escape.unescapeInto_eq`, `Escape.unescapeInPlace_eq`, `Escape.unescapeLoop_eq_none_iff`,
`Escape.staysInside_iff`.
-/
import Fcitx.Lib.Buffer
import Fcitx.Utils.Escape

namespace Fcitx
namespace Escape

/-- Why a run does not return. -/
inductive Fault
  /-- The rounds that a run was given are over. -/
  | rounds
  /-- A read behind the terminator. -/
  | read
  /-- A write behind the end of the buffer. -/
  | write
deriving DecidableEq

/-- Writing `bytes` at `dest`. -/
def store (buf : Bytes) (dest : ℕ) (bytes : Bytes) : Except Fault Bytes :=
  (Buffer.write buf dest bytes).elim (.error .write) .ok

/-- The loop of `fcitx_utils_set_unescape_str` and the end of the function: `res` is its buffer, `src` the memory that
is left to read. -/
def unescapeInto : ℕ → Bytes → ℕ → Bytes → Except Fault Bytes
  | 0, _, _, _ => .error .rounds
  | fuel + 1, res, dest, src =>
    let len := strcspn src [backslash]
    match src.drop len with
    | [] => .error .read
    | pos :: rest => do
      let res ← store res dest (src.take len)
      if pos = 0 then store res (dest + len) [0]
      else match rest with
        | [] => .error .read
        | c :: rest =>
          let res ← store res (dest + len) [unescapeChar c]
          unescapeInto fuel res (dest + len + 1) rest

/-- `if (dest != src && len) memmove(dest, src, len);` -/
def move (buf : Bytes) (dest src len : ℕ) : Except Fault Bytes :=
  if dest ≠ src ∧ len ≠ 0 then store buf dest ((buf.drop src).take len) else .ok buf

/-- The loop of `fcitx_utils_unescape_str_inplace` and the end of the function. -/
def unescapeInPlace : ℕ → Bytes → ℕ → ℕ → Except Fault Bytes
  | 0, _, _, _ => .error .rounds
  | fuel + 1, buf, dest, src =>
    let len := strcspn (buf.drop src) [backslash]
    let pos := src + len
    match buf[pos]? with
    | none => .error .read
    | some c => do
      let buf ← move buf dest src len
      if c = 0 then store buf (dest + len) [0]
      else match buf[pos + 1]? with
        | none => .error .read
        | some c =>
          let buf ← store buf (dest + len) [unescapeChar c]
          unescapeInPlace fuel buf (dest + len + 1) (pos + 1 + 1)

/-- What a run over `s` returns is the string `out`, for every number of rounds that is large enough and every content
of the new buffer of `strlen(s) + 1` bytes. -/
def Returns (s out : Bytes) : Prop :=
  ∀ fuel, s.length + 1 < fuel →
    (∀ res : Bytes, res.length = s.length + 1 → (unescapeInto fuel res 0 (s ++ [0])).map cString = .ok out) ∧
      (unescapeInPlace fuel (s ++ [0]) 0 0).map cString = .ok out

/-- Both functions return, the same string and no fault. -/
def StaysInside (s : Bytes) : Prop := ∃ out, Returns s out

/-- The number of backslashes at the end. -/
def trailing (s : Bytes) : ℕ := (s.rtakeWhile (· = backslash)).length

variable {s m out : Bytes} {c d : UInt8} {fuel : ℕ}

/-! ### The memory -/

theorem store_append {front gap bytes : Bytes} (h : bytes.length ≤ gap.length) :
    store (front ++ gap) front.length bytes = .ok (front ++ bytes ++ gap.drop bytes.length) := by
  rw [store, Buffer.write_append h]
  rfl

theorem store_singleton {buf : Bytes} {i : ℕ} (h : i < buf.length) (c : UInt8) : store buf i [c] = .ok (buf.set i c) := by
  rw [store, Buffer.write_singleton h]
  rfl

/-- **Into a new buffer** the functions of both models write the same, and what the other has no result for is a read
behind the terminator. -/
theorem unescapeInto_eq (fuel : ℕ) : ∀ {front gap src : Bytes}, src.length ≤ gap.length → src.length < fuel →
    unescapeInto fuel (front ++ gap) front.length src =
      (unescapeLoop fuel src).elim (.error .read) fun out => .ok (front ++ out ++ 0 :: gap.drop (out.length + 1)) := by
  induction fuel with
  | zero => exact fun _ h => absurd h (Nat.not_lt_zero _)
  | succ fuel ih =>
    intro front gap src hroom hfuel
    unfold unescapeInto unescapeLoop
    dsimp only
    have hlen := strcspn_le src [backslash]
    generalize strcspn src [backslash] = len at hlen ⊢
    have htake : (src.take len).length = len := List.length_take_of_le hlen
    cases hpos : src.drop len with
    | nil => rfl
    | cons pos rest =>
      have hsize : src.length = len + (rest.length + 1) := by
        have h := congrArg List.length hpos
        rw [List.length_drop, List.length_cons] at h
        omega
      have hcopy : store (front ++ gap) front.length (src.take len) = .ok (front ++ src.take len ++ gap.drop len) := by
        rw [store_append (by omega), htake]
      have hat : front.length + len = (front ++ src.take len).length := by rw [List.length_append, htake]
      have hgap : (gap.drop len).length = gap.length - len := List.length_drop
      dsimp only
      rw [hcopy, hat]
      dsimp only [bind, Except.bind]
      by_cases h0 : pos = 0
      · rw [if_pos h0, if_pos h0, store_append (by rw [List.length_singleton]; omega), Option.elim_some, List.drop_drop,
          htake, List.append_assoc (front ++ src.take len)]
        rfl
      · rw [if_neg h0, if_neg h0]
        cases rest with
        | nil => rfl
        | cons c rest =>
          rw [List.length_cons] at hsize
          dsimp only
          rw [store_append (by rw [List.length_singleton]; omega), List.length_singleton]
          dsimp only
          have hnext : (front ++ src.take len ++ [unescapeChar c]).length = (front ++ src.take len).length + 1 :=
            List.length_append.trans rfl
          rw [← hnext, ih (by rw [List.length_drop]; omega) (by omega)]
          cases unescapeLoop fuel rest with
          | none => rfl
          | some out =>
            simp only [Option.elim_some, Option.map_some, List.drop_drop, List.length_append, List.length_cons, htake,
              List.append_assoc, List.cons_append, List.nil_append]
            rw [Nat.add_right_comm len 1]

/-- **In place** the functions of both models write the same. -/
theorem unescapeInPlace_eq (fuel : ℕ) : ∀ {buf : Bytes} {dest src : ℕ}, dest ≤ src → src ≤ buf.length →
    buf.length - src < fuel →
    unescapeInPlace fuel buf dest src = (inPlaceLoop fuel buf dest src).elim (.error .read) .ok := by
  induction fuel with
  | zero => exact fun _ _ h => absurd h (Nat.not_lt_zero _)
  | succ fuel ih =>
    intro buf dest src hle hsrc hfuel
    unfold unescapeInPlace inPlaceLoop
    dsimp only
    have hlen := strcspn_le (buf.drop src) [backslash]
    rw [List.length_drop] at hlen
    generalize strcspn (buf.drop src) [backslash] = len at hlen ⊢
    cases hpos : buf[src + len]? with
    | none => rfl
    | some c =>
      have hin : src + len < buf.length := (List.getElem?_eq_some_iff.mp hpos).1
      have htake : ((buf.drop src).take len).length = len := by
        rw [List.length_take, List.length_drop]
        omega
      have hmoved : move buf dest src len = .ok (memmove buf dest src len) := by
        rw [← moved_eq, move]
        split_ifs
        · rw [store, Buffer.write_of_le (by omega), htake]
          rfl
        · rfl
      rw [Option.bind_some, moved_eq]
      dsimp only
      rw [hmoved]
      dsimp only [bind, Except.bind]
      have hsize : (memmove buf dest src len).length = buf.length := by
        rw [memmove, List.length_append, List.length_append, List.length_take, List.length_drop, htake]
        omega
      by_cases h0 : c = 0
      · rw [if_pos h0, if_pos h0, store_singleton (by omega)]
        rfl
      · rw [if_neg h0, if_neg h0]
        cases hnext : (memmove buf dest src len)[src + len + 1]? with
        | none => rfl
        | some d =>
          have hin' := (List.getElem?_eq_some_iff.mp hnext).1
          dsimp only
          rw [store_singleton (by omega), Option.bind_some]
          exact ih (by omega) (by rw [List.length_set]; omega) (by rw [List.length_set]; omega)

/-! ### The end of the string -/

theorem trailing_nil : trailing [] = 0 := rfl

theorem trailing_le (s : Bytes) : trailing s ≤ s.length := (List.rtakeWhile_suffix _ _).length_le

/-- A character in front counts only if nothing but backslashes follows. -/
theorem trailing_cons (c : UInt8) (s : Bytes) :
    trailing (c :: s) = if trailing s = s.length ∧ c = backslash then s.length + 1 else trailing s := by
  unfold trailing List.rtakeWhile
  rw [List.length_reverse, List.length_reverse, List.reverse_cons, List.takeWhile_append, List.length_reverse]
  by_cases hall : (s.reverse.takeWhile (· = backslash)).length = s.length
  · rw [if_pos hall, List.length_append, List.length_reverse, List.takeWhile_cons]
    by_cases hc : c = backslash
    · rw [if_pos (decide_eq_true hc), if_pos ⟨hall, hc⟩]
      rfl
    · rw [if_neg (by simpa using hc), if_neg fun h => hc h.2, hall]
      rfl
  · rw [if_neg hall, if_neg fun h => hall h.1]

/-- A backslash and the character behind it do not change whether the number is even. -/
theorem trailing_pair (d : UInt8) (s : Bytes) : trailing (backslash :: d :: s) % 2 = trailing s % 2 := by
  have hle := trailing_le s
  have hpair := trailing_cons backslash (d :: s)
  rw [trailing_cons d s, List.length_cons] at hpair
  by_cases hall : trailing s = s.length ∧ d = backslash
  · rw [if_pos hall, if_pos ⟨rfl, rfl⟩] at hpair
    omega
  · rw [if_neg hall, if_neg (by omega)] at hpair
    rw [hpair]

/-- **Unescaping has no result** exactly if the string ends in an odd number of backslashes. -/
theorem unescapeLoop_eq_none_iff (n : ℕ) : ∀ {s : Bytes} {fuel : ℕ}, 0 ∉ s → s.length ≤ n → s.length + 1 < fuel →
    (unescapeLoop fuel (s ++ [0]) = none ↔ trailing s % 2 = 1) := by
  induction n with
  | zero =>
    intro s fuel _ hn hfuel
    obtain rfl := List.eq_nil_of_length_eq_zero (Nat.le_zero.mp hn)
    obtain ⟨fuel, rfl⟩ := Nat.exists_eq_succ_of_ne_zero (Nat.ne_of_gt (Nat.zero_lt_of_lt hfuel))
    rw [List.nil_append, unescapeLoop_zero]
    exact iff_of_false (Option.some_ne_none _) (by rw [trailing_nil]; decide)
  | succ n ih =>
    intro s fuel h0 hn hfuel
    obtain ⟨fuel, rfl⟩ := Nat.exists_eq_succ_of_ne_zero (Nat.ne_of_gt (Nat.zero_lt_of_lt hfuel))
    cases s with
    | nil =>
      rw [List.nil_append, unescapeLoop_zero]
      exact iff_of_false (Option.some_ne_none _) (by rw [trailing_nil]; decide)
    | cons c s =>
      rw [List.mem_cons, not_or] at h0
      rw [List.length_cons] at hn hfuel
      by_cases hc : c = backslash
      · subst hc
        cases s with
        | nil =>
          -- the terminator is taken along, and nothing is left to read
          have hbehind : unescapeLoop fuel [] = none := by
            cases fuel with
            | zero => rfl
            | succ fuel => rfl
          rw [List.singleton_append, unescapeLoop_special, hbehind]
          exact iff_of_true rfl (by decide)
        | cons d s =>
          rw [List.mem_cons, not_or] at h0
          rw [List.length_cons] at hn hfuel
          rw [List.cons_append, List.cons_append, unescapeLoop_special, Option.map_eq_none_iff, trailing_pair]
          exact ih h0.2.2 (by omega) (by omega)
      · rw [List.cons_append, unescapeLoop_plain (Ne.symm h0.1) hc, Option.map_eq_none_iff, trailing_cons,
          if_neg fun h => hc h.2]
        exact ih h0.2 (by omega) (by omega)

/-! ### The strings that are safe -/

/-- More rounds do not change what a run returns. -/
theorem unescapeLoop_succ (fuel : ℕ) : ∀ {src out : Bytes}, unescapeLoop fuel src = some out →
    unescapeLoop (fuel + 1) src = some out := by
  induction fuel with
  | zero =>
    intro src out h
    cases h
  | succ fuel ih =>
    intro src out h
    unfold unescapeLoop at h ⊢
    dsimp only at h ⊢
    cases hpos : src.drop (strcspn src [backslash]) with
    | nil =>
      rw [hpos] at h
      cases h
    | cons pos rest =>
      rw [hpos] at h
      dsimp only at h ⊢
      by_cases h0 : pos = 0
      · rw [if_pos h0] at h ⊢
        exact h
      · rw [if_neg h0] at h ⊢
        cases rest with
        | nil => cases h
        | cons c rest =>
          dsimp only at h ⊢
          obtain ⟨next, hnext, rfl⟩ := Option.map_eq_some_iff.mp h
          rw [ih hnext]
          rfl

/-- Both functions read the string as `unescapeLoop` does. -/
theorem runs_eq (s : Bytes) (hfuel : s.length + 1 < fuel) :
    (∀ res : Bytes, res.length = s.length + 1 → (unescapeInto fuel res 0 (s ++ [0])).map cString =
      (unescapeLoop fuel (s ++ [0])).elim (.error .read) fun out => .ok (cString out)) ∧
    (unescapeInPlace fuel (s ++ [0]) 0 0).map cString =
      (unescapeLoop fuel (s ++ [0])).elim (.error .read) fun out => .ok (cString out) := by
  have hsize : (s ++ [0]).length = s.length + 1 := List.length_append
  constructor
  · intro res hres
    have hinto : unescapeInto fuel res 0 (s ++ [0]) = (unescapeLoop fuel (s ++ [0])).elim (.error .read)
        fun out => .ok ([] ++ out ++ 0 :: res.drop (out.length + 1)) :=
      @unescapeInto_eq fuel [] res (s ++ [0]) (by omega) (by omega)
    rw [hinto]
    cases unescapeLoop fuel (s ++ [0]) with
    | none => rfl
    | some out => exact congrArg Except.ok (cString_append_zero out _)
  · obtain ⟨after, hafter⟩ := inPlaceLoop_eq fuel (Nat.le_refl 0) (Nat.zero_le (s ++ [0]).length)
    rw [unescapeInPlace_eq fuel (Nat.le_refl 0) (Nat.zero_le _) (by omega), hafter, List.drop_zero]
    cases unescapeLoop fuel (s ++ [0]) with
    | none => rfl
    | some out => exact congrArg Except.ok (cString_append_zero out _)

/-- **A string that ends in an odd number of backslashes** is read behind its terminator. -/
theorem reads_behind (h0 : 0 ∉ s) (hodd : trailing s % 2 = 1) (hfuel : s.length + 1 < fuel) :
    (∀ res : Bytes, res.length = s.length + 1 → (unescapeInto fuel res 0 (s ++ [0])).map cString = .error .read) ∧
      (unescapeInPlace fuel (s ++ [0]) 0 0).map cString = .error .read := by
  have hnone := (unescapeLoop_eq_none_iff s.length h0 (Nat.le_refl _) hfuel).mpr hodd
  have hruns := runs_eq s hfuel
  rw [hnone] at hruns
  exact hruns

/-- **Unescaping stays inside of a string** exactly if it ends in an even number of backslashes. -/
theorem staysInside_iff (s : Bytes) (h0 : 0 ∉ s) : StaysInside s ↔ trailing s % 2 = 0 := by
  constructor
  · rintro ⟨out, hreturns⟩
    by_contra hodd
    have hplace := (hreturns (s.length + 2) (Nat.lt_succ_self _)).2
    rw [(reads_behind h0 (by omega) (Nat.lt_succ_self _)).2] at hplace
    cases hplace
  · intro heven
    have hsome : unescapeLoop (s.length + 2) (s ++ [0]) ≠ none := by
      intro hnone
      have hodd := (unescapeLoop_eq_none_iff s.length h0 (Nat.le_refl _) (Nat.lt_succ_self _)).mp hnone
      omega
    obtain ⟨out, hout⟩ := Option.ne_none_iff_exists'.mp hsome
    refine ⟨cString out, fun fuel hfuel => ?_⟩
    have hmore : unescapeLoop fuel (s ++ [0]) = some out :=
      Nat.le_induction hout (fun fuel _ h => unescapeLoop_succ fuel h) fuel hfuel
    have hruns := runs_eq s hfuel
    rw [hmore] at hruns
    exact hruns

/-- A quoted backslash. -/
theorem staysInside_iff_quoted : StaysInside [97, 92, 92] ↔ trailing [97, 92, 92] % 2 = 0 :=
  staysInside_iff [97, 92, 92] (by decide)

/-- A backslash alone. -/
theorem not_staysInside_backslash : ¬ StaysInside [92] := by
  rintro ⟨out, hreturns⟩
  have hplace := (hreturns 3 (by decide)).2
  rw [show unescapeInPlace 3 ([92] ++ [0]) 0 0 = .error .read by decide] at hplace
  cases hplace

end Escape
end Fcitx
