/-
# The values of INI files

The writer escapes a value by `fcitx_utils_string_replace`, once for each of its
special bytes, and puts quotes around it if there is white space. The reader takes
quotes off both ends if they are there, and unescapes. So a value is read as it
was exactly if nothing is copied wrongly and it does not look quoted by itself.

Key definitions: `escapedValue`, `quotedValue`, `KeptValue`, `EscapedOnce`.
Key theorems: `readValue_writeValue`, `keptValue_of_readValue`.
-/
import Fcitx.Config.Ini
import Fcitx.Utils.StringReplace

namespace Fcitx

/-! ### Escaping -/

/-- What a byte is replaced by, where `before` is escaped. -/
def escapeAs (before after c : UInt8) : Bytes := if c = before then [backslash, after] else [c]

/-- A value whose backslashes are escaped. -/
def escapedBackslashes (value : Bytes) : Bytes := value.flatMap (escapeAs backslash backslash)

/-- A value as it stands in a line without quotes. -/
def escapedValue (value : Bytes) : Bytes := (escapedBackslashes value).flatMap (escapeAs newline 110)

/-- A value as it stands in a line between quotes. -/
def quotedValue (value : Bytes) : Bytes := (escapedValue value).flatMap (escapeAs quote quote)

/-- The three replacements copy what is there, and a value that is written without quotes has none
at its ends. -/
def KeptValue (value : Bytes) : Prop :=
  GapsRight value [backslash] ∧ GapsRight (escapedBackslashes value) [newline] ∧
    (needQuote value = true → GapsRight (escapedValue value) [quote]) ∧
      (needQuote value = false → isQuoted value = false)

instance KeptValue.decidable (value : Bytes) : Decidable (KeptValue value) :=
  inferInstanceAs (Decidable (GapsRight value [backslash] ∧ GapsRight (escapedBackslashes value) [newline] ∧
    (needQuote value = true → GapsRight (escapedValue value) [quote]) ∧
      (needQuote value = false → isQuoted value = false)))

section escape

variable {before after : UInt8} {s : Bytes}

theorem replaceAll_byte (before : UInt8) (after s : Bytes) :
    replaceAll [before] after s = s.flatMap fun c => if c = before then after else [c] := by
  induction s with
  | nil =>
    rw [replaceAll]
    rfl
  | cons c s ih =>
    rw [replaceAll, List.flatMap_cons]
    by_cases hc : c = before
    · rw [if_pos (by simp [hc]), if_pos hc]
      show after ++ replaceAll [before] after (s.drop 0) = _
      rw [List.drop_zero, ih]
    · have hnot : [before].isPrefixOf (c :: s) = false := by
        rw [List.isPrefixOf, beq_eq_false_iff_ne.mpr (Ne.symm hc)]
        rfl
      rw [if_neg (by rw [hnot]; exact Bool.false_ne_true), if_neg hc, ih]
      rfl

/-- Where there is nothing to escape. -/
theorem flatMap_escapeAs_of_notMem (h : before ∉ s) : s.flatMap (escapeAs before after) = s := by
  induction s with
  | nil => rfl
  | cons c s ih =>
    rw [List.mem_cons, not_or] at h
    rw [List.flatMap_cons, escapeAs, if_neg (Ne.symm h.1), ih h.2]
    rfl

theorem not_isInfix_of_notMem (h : before ∉ s) : ¬ [before] <:+: s := fun hinside =>
  h (hinside.subset List.mem_cons_self)

theorem escapeByte_of_notMem (beyond : Bytes → ℕ → UInt8) (h : before ∉ s) :
    escapeByte beyond before after s = s := by
  rw [escapeByte, stringReplace_eq [backslash, after] (beyond s) (List.cons_ne_nil before []),
    if_neg (not_isInfix_of_notMem h)]
  rfl

theorem gapsRight_of_notMem (h : before ∉ s) : GapsRight s [before] := by
  have hnil : occurrences s [before] = [] :=
    (occurrences_eq_nil_iff (List.cons_ne_nil before [])).mpr (not_isInfix_of_notMem h)
  rw [GapsRight, hnil]
  trivial

/-- **One replacement** escapes a byte exactly if the gaps are right. -/
theorem escapeByte_eq_iff (beyond : Bytes → ℕ → UInt8) (hs : 0 ∉ s) (hafter : after ≠ 0) :
    escapeByte beyond before after s = s.flatMap (escapeAs before after) ↔ GapsRight s [before] := by
  by_cases h : before ∈ s
  · have hinside : [before] <:+: s := by
      obtain ⟨front, back, heq⟩ := List.append_of_mem h
      exact ⟨front, back, by rw [heq, List.append_assoc]; rfl⟩
    have hzero : (0 : UInt8) ∉ [backslash, after] := by
      simp only [List.mem_cons, List.not_mem_nil, or_false, not_or]
      exact ⟨by decide, Ne.symm hafter⟩
    rw [← stringReplace_eq_replaceAll_iff (beyond s) hs hzero (List.cons_ne_nil before []) hinside,
      replaceAll_byte, escapeByte, stringReplace_eq [backslash, after] (beyond s) (List.cons_ne_nil before []),
      if_pos hinside, Option.getD_some, Option.some_inj]
    rfl
  · exact iff_of_true (by rw [escapeByte_of_notMem beyond h, flatMap_escapeAs_of_notMem h]) (gapsRight_of_notMem h)

theorem mem_flatMap_escapeAs {c : UInt8} (h : c ∈ s.flatMap (escapeAs before after)) :
    c ∈ s ∧ c ≠ before ∨ c = backslash ∨ c = after := by
  obtain ⟨d, hd, hc⟩ := List.mem_flatMap.mp h
  rw [escapeAs] at hc
  split at hc
  · right
    simpa using hc
  · next hne =>
    rw [List.mem_singleton.mp hc]
    exact Or.inl ⟨hd, hne⟩

theorem zero_notMem_flatMap (hs : 0 ∉ s) (hafter : after ≠ 0) : 0 ∉ s.flatMap (escapeAs before after) := by
  intro h
  rcases mem_flatMap_escapeAs h with hmem | hzero | hzero
  · exact hs hmem.1
  · exact absurd hzero (by decide)
  · exact hafter hzero.symm

end escape

/-! ### What is written -/

section written

variable {value : Bytes}

theorem zero_notMem_escapedBackslashes (h : 0 ∉ value) : 0 ∉ escapedBackslashes value :=
  zero_notMem_flatMap h (by decide)

theorem zero_notMem_escapedValue (h : 0 ∉ value) : 0 ∉ escapedValue value :=
  zero_notMem_flatMap (zero_notMem_escapedBackslashes h) (by decide)

theorem needQuote_flatMap {before after : UInt8} (s : Bytes) (hbefore : before ∉ ([12, 13, 9, 11, 32] : Bytes))
    (hafter : after ∉ ([12, 13, 9, 11, 32] : Bytes)) :
    needQuote (s.flatMap (escapeAs before after)) = needQuote s := by
  have hback : decide (backslash ∈ ([12, 13, 9, 11, 32] : Bytes)) = false := by decide
  have hchunk : ∀ c, needQuote (escapeAs before after c) = decide (c ∈ ([12, 13, 9, 11, 32] : Bytes)) := by
    intro c
    rw [escapeAs]
    split
    · next hc =>
      rw [hc, decide_eq_false hbefore, needQuote, List.any_cons, List.any_cons, List.any_nil, hback,
        decide_eq_false hafter]
      rfl
    · rw [needQuote, List.any_cons, List.any_nil, Bool.or_false]
  unfold needQuote at hchunk ⊢
  rw [List.any_flatMap]
  exact congrArg s.any (funext hchunk)

/-- Escaping makes no white space. -/
theorem needQuote_escapedValue (value : Bytes) : needQuote (escapedValue value) = needQuote value := by
  rw [escapedValue, escapedBackslashes, needQuote_flatMap _ (by decide) (by decide),
    needQuote_flatMap _ (by decide) (by decide)]

/-- What a byte is escaped to, without quotes around it or between them. -/
def escapedByte (quoted : Bool) (c : UInt8) : Bytes :=
  if c = backslash then [backslash, backslash]
  else if c = newline then [backslash, 110]
  else if quoted = true ∧ c = quote then [backslash, quote]
  else [c]

theorem escapedValue_eq (value : Bytes) : escapedValue value = value.flatMap (escapedByte false) := by
  rw [escapedValue, escapedBackslashes, List.flatMap_assoc]
  apply congrArg value.flatMap
  funext c
  rw [escapeAs, escapedByte]
  split
  · decide
  · rw [List.flatMap_cons, List.flatMap_nil, List.append_nil, escapeAs]
    split
    · rfl
    · rw [if_neg fun h => Bool.false_ne_true h.1]

theorem quotedValue_eq (value : Bytes) : quotedValue value = value.flatMap (escapedByte true) := by
  rw [quotedValue, escapedValue_eq, List.flatMap_assoc]
  apply congrArg value.flatMap
  funext c
  unfold escapedByte
  split
  · decide
  · split
    · decide
    · rw [if_neg fun h => Bool.false_ne_true h.1, List.flatMap_cons, List.flatMap_nil, List.append_nil, escapeAs]
      split
      · next hc => rw [if_pos ⟨rfl, hc⟩]
      · next hc => rw [if_neg fun h => hc h.2]

/-- The text that the writer is to write. -/
def writtenValue (value : Bytes) : Bytes :=
  if needQuote value then quote :: quotedValue value ++ [quote] else escapedValue value

/-- **A kept value** is written as it is to be. -/
theorem writeValue_eq (beyond : Bytes → ℕ → UInt8) (hzero : 0 ∉ value) (h : KeptValue value) :
    writeValue beyond value = writtenValue value := by
  obtain ⟨hback, hnew, hquote, -⟩ := h
  have hfirst : escapeByte beyond backslash backslash value = escapedBackslashes value :=
    (escapeByte_eq_iff beyond hzero (by decide)).mpr hback
  have hsecond : escapeByte beyond newline 110 (escapedBackslashes value) = escapedValue value :=
    (escapeByte_eq_iff beyond (zero_notMem_escapedBackslashes hzero) (by decide)).mpr hnew
  unfold writeValue writtenValue
  simp only [hfirst, hsecond, needQuote_escapedValue]
  split
  · next hspace =>
    rw [(escapeByte_eq_iff beyond (zero_notMem_escapedValue hzero) (by decide)).mpr (hquote hspace)]
    rfl
  · rfl

end written

/-! ### What is read -/

section read

variable {quoted : Bool} {value : Bytes}

theorem unescapeLoop_escapedByte (quoted : Bool) (c : UInt8) (rest : Bytes) :
    unescapeLoop quoted .normal (escapedByte quoted c ++ rest) =
      (unescapeLoop quoted .normal rest).map (c :: ·) := by
  unfold escapedByte
  split
  · next hc => rw [hc]; rfl
  · next hback =>
    split
    · next hc => rw [hc]; rfl
    · split
      · next hc => rw [hc.1, hc.2]; rfl
      · show unescapeLoop quoted .normal (c :: rest) = _
        rw [unescapeLoop, if_neg hback]

/-- **Unescaping undoes escaping.** -/
theorem unescapeString_flatMap (quoted : Bool) (value : Bytes) :
    unescapeString (value.flatMap (escapedByte quoted)) quoted = some value := by
  rw [unescapeString]
  induction value with
  | nil => rfl
  | cons c value ih =>
    rw [List.flatMap_cons, unescapeLoop_escapedByte, ih]
    rfl

theorem isQuoted_quotes (text : Bytes) : isQuoted (quote :: text ++ [quote]) = true := by
  have hlen : 2 ≤ (quote :: text ++ [quote]).length := by
    rw [List.length_append, List.length_cons, List.length_singleton]
    omega
  rw [isQuoted, decide_eq_true hlen, List.getLast?_concat]
  rfl

theorem isQuoted_iff (value : Bytes) : isQuoted value = true ↔ ∃ text, value = quote :: text ++ [quote] := by
  constructor
  · intro h
    rw [isQuoted, Bool.and_eq_true, Bool.and_eq_true, decide_eq_true_eq, decide_eq_true_eq, decide_eq_true_eq] at h
    obtain ⟨⟨hlen, hhead⟩, hlast⟩ := h
    obtain ⟨front, rfl⟩ := List.getLast?_eq_some_iff.mp hlast
    cases front with
    | nil => exact absurd hlen (by decide)
    | cons c front =>
      obtain rfl : c = quote := Option.some.inj hhead
      exact ⟨front, rfl⟩
  · rintro ⟨text, rfl⟩
    exact isQuoted_quotes text

theorem escapedByte_false (c : UInt8) :
    (∃ c', escapedByte false c = [backslash, c'] ∧ c' ≠ quote) ∨ escapedByte false c = [c] := by
  unfold escapedByte
  split
  · exact Or.inl ⟨backslash, rfl, by decide⟩
  · split
    · exact Or.inl ⟨110, rfl, by decide⟩
    · right
      rw [if_neg fun h => Bool.false_ne_true h.1]

/-- A value that does not look quoted does not when it is escaped. -/
theorem isQuoted_escapedValue (h : isQuoted value = false) : isQuoted (escapedValue value) = false := by
  rw [← Bool.not_eq_true] at h ⊢
  intro hquoted
  apply h
  rw [isQuoted_iff] at hquoted ⊢
  obtain ⟨text, htext⟩ := hquoted
  rw [escapedValue_eq] at htext
  cases value with
  | nil => cases htext
  | cons c value =>
    rw [List.flatMap_cons] at htext
    -- the first byte is the quote
    have hfirst : c = quote ∧ value.flatMap (escapedByte false) = text ++ [quote] := by
      rcases escapedByte_false c with ⟨c', hc, -⟩ | hc
      · rw [hc] at htext
        exact absurd (List.cons.inj htext).1 (by decide)
      · rw [hc] at htext
        exact List.cons.inj htext
    obtain ⟨rfl, hrest⟩ := hfirst
    rcases List.eq_nil_or_concat value with rfl | ⟨front, d, rfl⟩
    · cases text <;> cases hrest
    · rw [List.concat_eq_append, List.flatMap_append, List.flatMap_cons, List.flatMap_nil, List.append_nil] at hrest
      -- and so is the last one
      have hlast : d = quote := by
        have hend : (front.flatMap (escapedByte false) ++ escapedByte false d).getLast? = some quote := by
          rw [hrest, List.getLast?_concat]
        rw [List.getLast?_append] at hend
        rcases escapedByte_false d with ⟨c', hc, hne⟩ | hc
        · rw [hc] at hend
          exact absurd (Option.some.inj hend) hne
        · rw [hc] at hend
          exact Option.some.inj hend
      exact ⟨front, by rw [hlast, List.concat_eq_append]; rfl⟩

/-- **What is written as it is to be** is read as it was, unless it looks quoted. -/
theorem readValue_writtenValue (h : needQuote value = false → isQuoted value = false) :
    readValue (writtenValue value) = some value := by
  unfold writtenValue readValue
  by_cases hspace : needQuote value = true
  · rw [if_pos hspace, isQuoted_quotes, if_pos rfl]
    show unescapeString (quotedValue value ++ [quote]).dropLast true = some value
    rw [List.dropLast_concat, quotedValue_eq, unescapeString_flatMap]
  · rw [if_neg hspace, isQuoted_escapedValue (h (Bool.eq_false_iff.mpr hspace)), if_neg Bool.false_ne_true,
      escapedValue_eq, unescapeString_flatMap]

/-- **A kept value is read as it was.** -/
theorem readValue_writeValue (beyond : Bytes → ℕ → UInt8) (hzero : 0 ∉ value) (h : KeptValue value) :
    readValue (writeValue beyond value) = some value := by
  rw [writeValue_eq beyond hzero h]
  exact readValue_writtenValue h.2.2.2

end read

/-! ### Values in a line -/

/-- What can stand at the end of a line: the line ends behind it, and nothing of it is trimmed. -/
structure LineSafe (text : Bytes) : Prop where
  newline : newline ∉ text
  zero : 0 ∉ text
  last : ∀ c, text.getLast? = some c → isspace c = false

section line

variable {value : Bytes}

theorem zero_notMem_cString (memory : Bytes) : 0 ∉ cString memory := by
  intro h
  have hnot := List.mem_takeWhile_imp h
  exact absurd rfl (of_decide_eq_true hnot)

theorem zero_notMem_escapeByte (beyond : Bytes → ℕ → UInt8) (before after : UInt8) {s : Bytes} (hs : 0 ∉ s) :
    0 ∉ escapeByte beyond before after s := by
  rw [escapeByte, stringReplace_eq [backslash, after] (beyond s) (List.cons_ne_nil before [])]
  split
  · exact zero_notMem_cString _
  · exact hs

/-- What has no white space and no newline does not end with any. -/
theorem isspace_of_needQuote {text : Bytes} (h : needQuote text = false) (hnew : newline ∉ text) {c : UInt8}
    (hc : c ∈ text) : isspace c = false := by
  have hnot : c ∉ ([12, 13, 9, 11, 32] : Bytes) := by
    intro hmem
    exact List.any_eq_false.mp h c hc (decide_eq_true hmem)
  have hne : c ≠ 10 := by
    rintro rfl
    exact hnew hc
  simp only [List.mem_cons, List.not_mem_nil, or_false, not_or] at hnot
  unfold isspace
  simp [hnot, hne]

/-- **What is written for a value is safe** if there is no newline in it. -/
theorem lineSafe_writeValue (beyond : Bytes → ℕ → UInt8) (hzero : 0 ∉ value)
    (hnew : newline ∉ writeValue beyond value) : LineSafe (writeValue beyond value) := by
  have hfirst := zero_notMem_escapeByte beyond backslash backslash hzero
  have hsecond := zero_notMem_escapeByte beyond newline 110 hfirst
  unfold writeValue at hnew ⊢
  dsimp only at hnew ⊢
  set text := escapeByte beyond newline 110 (escapeByte beyond backslash backslash value) with htext
  by_cases hspace : needQuote text = true
  · rw [if_pos hspace] at hnew ⊢
    refine ⟨hnew, fun hmem => ?_, fun c hc => ?_⟩
    · rcases List.mem_append.mp hmem with hmem | hmem
      · rcases List.mem_cons.mp hmem with heq | hmem
        · exact absurd heq (by decide)
        · exact zero_notMem_escapeByte beyond quote quote hsecond hmem
      · exact absurd (List.mem_singleton.mp hmem) (by decide)
    · rw [List.getLast?_concat] at hc
      rw [← Option.some.inj hc]
      decide
  · rw [if_neg hspace] at hnew ⊢
    refine ⟨hnew, hsecond, fun c hc => ?_⟩
    exact isspace_of_needQuote (Bool.eq_false_iff.mpr hspace) hnew (List.mem_of_getLast? hc)

theorem newline_notMem_flatMap (quoted : Bool) (value : Bytes) : newline ∉ value.flatMap (escapedByte quoted) := by
  intro h
  obtain ⟨c, -, hc⟩ := List.mem_flatMap.mp h
  unfold escapedByte at hc
  split at hc
  · exact absurd hc (by decide)
  · split at hc
    · exact absurd hc (by decide)
    · next hne =>
      split at hc
      · exact absurd hc (by decide)
      · exact hne (List.mem_singleton.mp hc).symm

/-- **A kept value stays in its line.** -/
theorem newline_notMem_writeValue (beyond : Bytes → ℕ → UInt8) (hzero : 0 ∉ value) (h : KeptValue value) :
    newline ∉ writeValue beyond value := by
  rw [writeValue_eq beyond hzero h, writtenValue, quotedValue_eq, escapedValue_eq]
  split
  · intro hmem
    rcases List.mem_append.mp hmem with hmem | hmem
    · rcases List.mem_cons.mp hmem with heq | hmem
      · exact absurd heq (by decide)
      · exact newline_notMem_flatMap true value hmem
    · exact absurd (List.mem_singleton.mp hmem) (by decide)
  · exact newline_notMem_flatMap false value

end line

end Fcitx
