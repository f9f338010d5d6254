/-
# The round trip of INI files

A tree whose values are kept is read as it was written. Where only one of the
replacements of the writer finds something in a value, the text shows what was copied,
and the value is read as it was only if it is kept. Where two of them do, the second
may copy over what the first one did wrong, so there is no such result for them.

Key definitions: `EscapedOnce`, `oneOption`.
Key theorems: `cString_codeText_cons`, `keptValue_of_readAgain`, `iniRoundTrip`.
-/
import Fcitx.Config.IniTree

namespace Fcitx

/-! ### What a replacement leaves -/

section replaced

variable {s after : Bytes} {b : ℕ} (beyond : ℕ → UInt8)

theorem cString_append {front : Bytes} (h : 0 ∉ front) (rest : Bytes) :
    cString (front ++ rest) = front ++ cString rest := by
  unfold cString
  apply List.takeWhile_append_of_pos
  intro c hc
  apply decide_eq_true
  rintro rfl
  exact h hc

theorem readFrom_add (s : Bytes) (pos m n : ℕ) :
    readFrom s beyond pos (m + n) = readFrom s beyond pos m ++ readFrom s beyond (pos + m) n := by
  unfold readFrom
  rw [List.range_add, List.map_append, List.map_map]
  congr 1
  apply List.map_congr_left
  intro i _
  rw [Function.comp_apply, ← Nat.add_assoc]

/-- Reading past the end finds the terminator. -/
theorem cString_readFrom {pos len : ℕ} (hs : 0 ∉ s) (hpos : pos ≤ s.length) (hlen : s.length < pos + len)
    (rest : Bytes) :
    cString (readFrom s beyond pos len ++ rest) = s.drop pos := by
  have hsplit : len = (s.length - pos) + (1 + (pos + len - s.length - 1)) := by omega
  have hfront : readFrom s beyond pos (s.length - pos) = s.drop pos := by
    rw [readFrom_of_le beyond (by omega), List.take_of_length_le (by rw [List.length_drop])]
  have hend : readFrom s beyond (pos + (s.length - pos)) 1 = [0] := by
    have heq : pos + (s.length - pos) = s.length := by omega
    rw [heq]
    simp [readFrom]
  rw [hsplit, readFrom_add, hfront, readFrom_add, hend, List.append_assoc, List.append_assoc, List.singleton_append,
    cString_append_zero]
  apply cString_of_noZero
  exact fun hmem => hs (List.mem_of_mem_drop hmem)

/-- Where the text is read that is written before match `i`. -/
def gapStart (b n p i : ℕ) : ℕ := if n % maxReplaceIndicesNum = 0 then p else i + b

/-- **What is written for a match**, and for those after it unless the string ends before. -/
theorem cString_codeText_cons (hs : 0 ∉ s) (hafter : 0 ∉ after) (n : ℕ) {p i : ℕ} {indices : List ℕ} (hpi : p ≤ i)
    (hi : i + b ≤ s.length) (rest : Bytes) :
    cString (codeText s after b beyond n p (i :: indices) ++ rest) =
      if gapStart b n p i + (i - p) ≤ s.length then
        (s.drop (gapStart b n p i)).take (i - p) ++ after ++
          cString (codeText s after b beyond (n + 1) (i + b) indices ++ rest)
      else s.drop (gapStart b n p i) := by
  have hq : gapStart b n p i ≤ s.length := by
    unfold gapStart
    split <;> omega
  have hgap : (if n % maxReplaceIndicesNum = 0 then readFrom s beyond p (i - p)
      else readFrom s beyond (i + b) (i - p)) = readFrom s beyond (gapStart b n p i) (i - p) := by
    unfold gapStart
    split <;> rfl
  rw [codeText, hgap]
  split
  · next hin =>
    have hzero : (0 : UInt8) ∉ (s.drop (gapStart b n p i)).take (i - p) ++ after := by
      rw [List.mem_append, not_or]
      exact ⟨fun hmem => hs (List.mem_of_mem_drop (List.mem_of_mem_take hmem)), hafter⟩
    rw [readFrom_of_le beyond hin, List.append_assoc (_ ++ after), cString_append hzero]
  · next hout =>
    rw [List.append_assoc, List.append_assoc]
    exact cString_readFrom beyond hs hq (by omega) _

/-- Every byte of the result comes from the string or from what was put in. -/
theorem mem_cString_codeText (hs : 0 ∉ s) (hafter : 0 ∉ after) (n : ℕ) {p : ℕ} {indices : List ℕ}
    (h : Spaced s b p indices) {e : ℕ} {c : UInt8}
    (hc : c ∈ cString (codeText s after b beyond n p indices ++ s.drop e)) : c ∈ s ∨ c ∈ after := by
  induction indices generalizing n p with
  | nil =>
    rw [codeText, List.nil_append] at hc
    exact Or.inl (List.mem_of_mem_drop ((List.takeWhile_prefix _).subset hc))
  | cons i indices ih =>
    rw [cString_codeText_cons beyond hs hafter n h.1 h.2.le_length] at hc
    split at hc
    · rcases List.mem_append.mp hc with hc | hc
      · rcases List.mem_append.mp hc with hc | hc
        · exact Or.inl (List.mem_of_mem_drop (List.mem_of_mem_take hc))
        · exact Or.inr hc
      · exact ih (n + 1) h.2 hc
    · exact Or.inl (List.mem_of_mem_drop hc)

end replaced

section escape

variable (beyond : Bytes → ℕ → UInt8) {before after : UInt8} {s : Bytes}

theorem escapeByte_eq (h : before ∈ s) : escapeByte beyond before after s =
    cString (codeText s [backslash, after] 1 (beyond s) 0 0 (occurrences s [before]) ++
      s.drop (endPos 1 0 (occurrences s [before]))) := by
  have hinside : [before] <:+: s := by
    obtain ⟨front, back, heq⟩ := List.append_of_mem h
    exact ⟨front, back, by rw [heq, List.append_assoc]; rfl⟩
  rw [escapeByte, stringReplace_eq [backslash, after] (beyond s) (List.cons_ne_nil before []), if_pos hinside]
  rfl

theorem zero_notMem_escape (hafter : after ≠ 0) : (0 : UInt8) ∉ [backslash, after] := by
  rw [List.mem_cons, List.mem_singleton, not_or]
  exact ⟨by decide, Ne.symm hafter⟩

/-- Every byte that is written comes from the value or escapes one. -/
theorem mem_escapeByte (hs : 0 ∉ s) (hafter : after ≠ 0) {c : UInt8} (hc : c ∈ escapeByte beyond before after s) :
    c ∈ s ∨ c = backslash ∨ c = after := by
  by_cases h : before ∈ s
  · rw [escapeByte_eq beyond h] at hc
    have hspaced := (occurrences_spec (s := s) [backslash, after] (List.cons_ne_nil before [])).1
    rcases mem_cString_codeText (beyond s) hs (zero_notMem_escape hafter) 0 hspaced hc with hc | hc
    · exact Or.inl hc
    · right
      simpa using hc
  · rw [escapeByte_of_notMem beyond h] at hc
    exact Or.inl hc

/-- No more is written than escaping needs. -/
theorem length_escapeByte_le (beyond : Bytes → ℕ → UInt8) (before after : UInt8) (s : Bytes) :
    (escapeByte beyond before after s).length ≤ (s.flatMap (escapeAs before after)).length := by
  by_cases h : before ∈ s
  · obtain ⟨hspaced, hright⟩ := occurrences_spec (s := s) [backslash, after] (List.cons_ne_nil before [])
    have hall : replaceAll [before] [backslash, after] s = s.flatMap (escapeAs before after) :=
      replaceAll_byte before [backslash, after] s
    rw [escapeByte_eq beyond h, ← hall, hright, List.length_append]
    refine (List.takeWhile_prefix _).length_le.trans ?_
    rw [List.length_append]
    exact Nat.add_le_add_right (Nat.le_of_eq (length_codeText _ _ 0 hspaced)) _
  · rw [escapeByte_of_notMem beyond h, flatMap_escapeAs_of_notMem h]

end escape

/-! ### What can be unescaped -/

section unescape

variable {quoted : Bool} {text value : Bytes}

/-- How a text starts that can be unescaped. -/
theorem unescapeLoop_eq_some (h : unescapeLoop quoted .normal text = some value) :
    (text = [] ∧ value = []) ∨
      (∃ c text' value', text = c :: text' ∧ c ≠ backslash ∧ value = c :: value' ∧
        unescapeLoop quoted .normal text' = some value') ∨
      ∃ c text' value', text = backslash :: c :: text' ∧ value = unescapeMap c :: value' ∧
        (c = backslash ∨ c = 110 ∨ c = quote ∧ quoted = true) ∧ unescapeLoop quoted .normal text' = some value' := by
  cases text with
  | nil => exact Or.inl ⟨rfl, (Option.some.inj h).symm⟩
  | cons c text =>
    right
    rw [unescapeLoop] at h
    split at h
    · next hc =>
      right
      cases text with
      | nil => cases h
      | cons d text =>
        rw [unescapeLoop] at h
        split at h
        · next hd =>
          obtain ⟨value', hvalue', rfl⟩ := Option.map_eq_some_iff.mp h
          exact ⟨d, text, value', by rw [hc], rfl, hd, hvalue'⟩
        · cases h
    · next hc =>
      left
      obtain ⟨value', hvalue', rfl⟩ := Option.map_eq_some_iff.mp h
      exact ⟨c, text, value', rfl, hc, rfl, hvalue'⟩

theorem escapedBackslashes_cons (c : UInt8) (value : Bytes) :
    escapedBackslashes (c :: value) = escapeAs backslash backslash c ++ escapedBackslashes value := List.flatMap_cons

/-- **A text without quotes shows what it was escaped from.** -/
theorem eq_escapedBackslashes (h : unescapeLoop quoted .normal text = some value) (hnew : newline ∉ value)
    (hquote : quoted = true → quote ∉ text) : text = escapedBackslashes value := by
  induction value generalizing text with
  | nil =>
    rcases unescapeLoop_eq_some h with ⟨rfl, -⟩ | ⟨c, text', value', -, -, hvalue, -⟩ |
      ⟨c, text', value', -, hvalue, -⟩
    · rfl
    · cases hvalue
    · cases hvalue
  | cons v value ih =>
    rw [List.mem_cons, not_or] at hnew
    rw [escapedBackslashes_cons, escapeAs]
    rcases unescapeLoop_eq_some h with ⟨-, hvalue⟩ | ⟨c, text', value', rfl, hc, hvalue, hrest⟩ |
      ⟨c, text', value', rfl, hvalue, hc, hrest⟩
    · cases hvalue
    · obtain ⟨rfl, rfl⟩ := List.cons.inj hvalue
      have htail : quoted = true → quote ∉ text' := fun hq hmem => hquote hq (List.mem_cons_of_mem _ hmem)
      rw [if_neg hc, ih hrest hnew.2 htail]
      rfl
    · obtain ⟨rfl, rfl⟩ := List.cons.inj hvalue
      have htail : quoted = true → quote ∉ text' := fun hq hmem =>
        hquote hq (List.mem_cons_of_mem _ (List.mem_cons_of_mem _ hmem))
      rcases hc with rfl | rfl | ⟨rfl, hq⟩
      · have hmap : unescapeMap backslash = backslash := by decide
        rw [hmap, if_pos rfl, ih hrest hnew.2 htail]
        rfl
      · exact absurd rfl hnew.1
      · exact absurd (List.mem_cons_of_mem _ List.mem_cons_self) (hquote hq)

/-- A text is not shorter than what it has to be escaped from. -/
theorem length_escapedBackslashes_le (h : unescapeLoop quoted .normal text = some value) (hnew : newline ∉ value) :
    (escapedBackslashes value).length ≤ text.length := by
  induction value generalizing text with
  | nil => exact Nat.zero_le _
  | cons v value ih =>
    rw [List.mem_cons, not_or] at hnew
    rw [escapedBackslashes_cons, List.length_append, escapeAs]
    rcases unescapeLoop_eq_some h with ⟨-, hvalue⟩ | ⟨c, text', value', rfl, hc, hvalue, hrest⟩ |
      ⟨c, text', value', rfl, hvalue, -, hrest⟩
    · cases hvalue
    · obtain ⟨rfl, rfl⟩ := List.cons.inj hvalue
      have hle := ih hrest hnew.2
      rw [if_neg hc, List.length_singleton, List.length_cons]
      omega
    · obtain ⟨rfl, rfl⟩ := List.cons.inj hvalue
      have hle := ih hrest hnew.2
      have htwo : (if unescapeMap c = backslash then [backslash, backslash] else [unescapeMap c]).length ≤ 2 := by
        split
        · exact Nat.le_refl 2
        · exact Nat.le_succ 1
      rw [List.length_cons, List.length_cons]
      omega

theorem unescapeLoop_append {front : Bytes} (h : backslash ∉ front) (rest : Bytes) :
    unescapeLoop quoted .normal (front ++ rest) = (unescapeLoop quoted .normal rest).map (front ++ ·) := by
  induction front with
  | nil =>
    rw [List.nil_append]
    exact (congrFun Option.map_id _).symm
  | cons c front ih =>
    rw [List.mem_cons, not_or] at h
    rw [List.cons_append, unescapeLoop, if_neg (Ne.symm h.1), ih h.2, Option.map_map]
    rfl

/-- **Unescaping the quotes** gives what the same replacement makes of quotes that are not escaped. -/
theorem unescapeLoop_codeText {s : Bytes} (hs : 0 ∉ s) (hback : backslash ∉ s) (beyond : ℕ → UInt8) (n : ℕ) {p : ℕ}
    {indices : List ℕ} (h : Spaced s 1 p indices) (e : ℕ) :
    unescapeLoop true .normal (cString (codeText s [backslash, quote] 1 beyond n p indices ++ s.drop e)) =
      some (cString (codeText s [quote] 1 beyond n p indices ++ s.drop e)) := by
  have hplain : ∀ front : Bytes, backslash ∉ front → unescapeLoop true .normal front = some front := by
    intro front hfront
    have happend : unescapeLoop true .normal (front ++ []) = _ := unescapeLoop_append hfront []
    rw [List.append_nil] at happend
    rw [happend]
    exact congrArg some (List.append_nil front)
  induction indices generalizing n p with
  | nil =>
    rw [codeText, codeText, List.nil_append]
    exact hplain _ fun hmem => hback (List.mem_of_mem_drop ((List.takeWhile_prefix _).subset hmem))
  | cons i indices ih =>
    rw [cString_codeText_cons beyond hs (by decide) n h.1 h.2.le_length,
      cString_codeText_cons beyond hs (by decide) n h.1 h.2.le_length]
    split
    · rw [List.append_assoc, List.append_assoc, unescapeLoop_append fun hmem =>
        hback (List.mem_of_mem_drop (List.mem_of_mem_take hmem))]
      show ((unescapeLoop true .normal (cString _)).map (quote :: ·)).map _ = _
      rw [ih (n + 1) h.2]
      rfl
    · exact hplain _ fun hmem => hback (List.mem_of_mem_drop hmem)

end unescape

/-! ### Values that are read as they were -/

section once

variable (beyond : Bytes → ℕ → UInt8) {value : Bytes}

/-- A value of one line of which at most one replacement changes something. -/
def EscapedOnce (value : Bytes) : Prop :=
  newline ∉ value ∧ (backslash ∉ value ∨ quote ∉ value ∨ needQuote value = false)

instance EscapedOnce.decidable (value : Bytes) : Decidable (EscapedOnce value) :=
  inferInstanceAs (Decidable (newline ∉ value ∧ (backslash ∉ value ∨ quote ∉ value ∨ needQuote value = false)))

theorem newline_notMem_escapeByte {s : Bytes} {before after : UInt8} (hs : 0 ∉ s) (hafter : after ≠ 0)
    (hne : newline ≠ after) (h : newline ∉ s) : newline ∉ escapeByte beyond before after s := by
  intro hmem
  rcases mem_escapeByte beyond hs hafter hmem with hmem | hmem | hmem
  · exact h hmem
  · exact absurd hmem (by decide)
  · exact hne hmem

/-- What is written for a value of one line. -/
theorem writeValue_of_newline (hzero : 0 ∉ value) (hnew : newline ∉ value) :
    writeValue beyond value =
      let text := escapeByte beyond backslash backslash value
      if needQuote text then quote :: escapeByte beyond quote quote text ++ [quote] else text := by
  unfold writeValue
  dsimp only
  rw [escapeByte_of_notMem beyond (newline_notMem_escapeByte beyond hzero (by decide) (by decide) hnew)]

/-- A value of one line stays in its line. -/
theorem newline_notMem_writeValue_of_notMem (hzero : 0 ∉ value) (hnew : newline ∉ value) :
    newline ∉ writeValue beyond value := by
  have hfirst : newline ∉ escapeByte beyond backslash backslash value :=
    newline_notMem_escapeByte beyond hzero (by decide) (by decide) hnew
  have hfirst0 := zero_notMem_escapeByte beyond backslash backslash hzero
  rw [writeValue_of_newline beyond hzero hnew]
  dsimp only
  split
  · intro hmem
    rcases List.mem_append.mp hmem with hmem | hmem
    · rcases List.mem_cons.mp hmem with heq | hmem
      · exact absurd heq (by decide)
      · exact newline_notMem_escapeByte beyond hfirst0 (by decide) (by decide) hfirst hmem
    · exact absurd (List.mem_singleton.mp hmem) (by decide)
  · exact hfirst

theorem escapedValue_of_newline (hnew : newline ∉ value) : escapedValue value = escapedBackslashes value := by
  apply flatMap_escapeAs_of_notMem
  intro hmem
  rcases mem_flatMap_escapeAs hmem with hmem | hmem | hmem
  · exact hnew hmem.1
  · exact absurd hmem (by decide)
  · exact absurd hmem (by decide)

theorem isQuoted_of_notMem {text : Bytes} (h : quote ∉ text) : isQuoted text = false := by
  rw [← Bool.not_eq_true, isQuoted_iff]
  rintro ⟨inner, rfl⟩
  exact h List.mem_cons_self

theorem readValue_quotes (text : Bytes) : readValue (quote :: text ++ [quote]) = unescapeLoop true .normal text := by
  unfold readValue
  rw [isQuoted_quotes, if_pos rfl]
  show unescapeString (text ++ [quote]).dropLast true = _
  rw [List.dropLast_concat]
  rfl

theorem readValue_plain {text : Bytes} (h : isQuoted text = false) :
    readValue text = unescapeLoop false .normal text := by
  unfold readValue
  rw [h, if_neg Bool.false_ne_true]
  rfl

/-- The backslashes were copied right if the result is. -/
theorem gapsRight_backslash (hzero : 0 ∉ value)
    (h : escapeByte beyond backslash backslash value = escapedBackslashes value) : GapsRight value [backslash] :=
  (escapeByte_eq_iff beyond hzero (by decide)).mp h

/-- Values without quotes. -/
theorem keptValue_of_noQuote (hzero : 0 ∉ value) (hnew : newline ∉ value) (hquote : quote ∉ value)
    (h : readAgain beyond value = some value) : KeptValue value := by
  set text := escapeByte beyond backslash backslash value with htext
  have hnone : quote ∉ text := by
    intro hmem
    rcases mem_escapeByte beyond hzero (by decide) hmem with hmem | hmem | hmem
    · exact hquote hmem
    · exact absurd hmem (by decide)
    · exact absurd hmem (by decide)
  have hright : text = escapedBackslashes value := by
    rw [readAgain, writeValue_of_newline beyond hzero hnew, ← htext] at h
    dsimp only at h
    split at h
    · rw [readValue_quotes, escapeByte_of_notMem beyond hnone] at h
      exact eq_escapedBackslashes h hnew fun _ => hnone
    · rw [readValue_plain (isQuoted_of_notMem hnone)] at h
      exact eq_escapedBackslashes h hnew fun _ => hnone
  have hescaped := escapedValue_of_newline hnew
  refine ⟨gapsRight_backslash beyond hzero hright, gapsRight_of_notMem ?_, fun _ => gapsRight_of_notMem ?_,
    fun _ => isQuoted_of_notMem hquote⟩
  · rw [← hescaped, escapedValue_eq]
    exact newline_notMem_flatMap false value
  · rw [hescaped, ← hright]
    exact hnone

/-- Values without white space. -/
theorem keptValue_of_noSpace (hzero : 0 ∉ value) (hnew : newline ∉ value) (hspace : needQuote value = false)
    (h : readAgain beyond value = some value) : KeptValue value := by
  set text := escapeByte beyond backslash backslash value with htext
  have hescaped := escapedValue_of_newline hnew
  have hplain : needQuote text = false := by
    unfold needQuote at hspace ⊢
    rw [List.any_eq_false] at hspace ⊢
    intro c hc
    rcases mem_escapeByte beyond hzero (by decide) hc with hc | rfl | rfl
    · exact hspace c hc
    · decide
    · decide
  rw [readAgain, writeValue_of_newline beyond hzero hnew, ← htext] at h
  dsimp only at h
  rw [hplain, if_neg Bool.false_ne_true] at h
  have hnotQuoted : isQuoted text = false := by
    -- the text between the quotes would be too short
    rw [← Bool.not_eq_true, isQuoted_iff]
    rintro ⟨inner, hinner⟩
    rw [hinner, readValue_quotes] at h
    have hle := length_escapedBackslashes_le h hnew
    have hlong : text.length ≤ (escapedBackslashes value).length := length_escapeByte_le beyond _ _ value
    rw [hinner, List.length_append, List.length_cons, List.length_singleton] at hlong
    omega
  rw [readValue_plain hnotQuoted] at h
  have hright : text = escapedBackslashes value :=
      eq_escapedBackslashes h hnew fun hfalse => absurd hfalse Bool.false_ne_true
  refine ⟨gapsRight_backslash beyond hzero hright, gapsRight_of_notMem ?_, fun htrue => ?_, fun _ => ?_⟩
  · rw [← hescaped, escapedValue_eq]
    exact newline_notMem_flatMap false value
  · rw [hspace] at htrue
    cases htrue
  · rw [← Bool.not_eq_true, isQuoted_iff]
    rintro ⟨inner, hinner⟩
    rw [← Bool.not_eq_true, isQuoted_iff] at hnotQuoted
    apply hnotQuoted
    refine ⟨escapedBackslashes inner, ?_⟩
    rw [hright, hinner, escapedBackslashes, List.flatMap_append, List.flatMap_cons]
    rfl

/-- Values without backslashes. -/
theorem keptValue_of_noBackslash (hzero : 0 ∉ value) (hnew : newline ∉ value) (hback : backslash ∉ value)
    (h : readAgain beyond value = some value) : KeptValue value := by
  by_cases hspace : needQuote value = true
  · have hbacks : escapedBackslashes value = value := flatMap_escapeAs_of_notMem hback
    have hgaps : GapsRight value [quote] := by
      by_cases hquote : quote ∈ value
      · rw [readAgain, writeValue_of_newline beyond hzero hnew, escapeByte_of_notMem beyond hback] at h
        dsimp only at h
        have hspaced := (occurrences_spec (s := value) [quote] (List.cons_ne_nil quote [])).1
        have hinside : [quote] <:+: value := by
          obtain ⟨front, back, heq⟩ := List.append_of_mem hquote
          exact ⟨front, back, by rw [heq, List.append_assoc]; rfl⟩
        rw [if_pos hspace, readValue_quotes, escapeByte_eq beyond hquote,
          unescapeLoop_codeText hzero hback (beyond value) 0 hspaced] at h
        -- replacing quotes by quotes is right
        have hiff : stringReplace value [quote] [quote] (beyond value) = some (replaceAll [quote] [quote] value) ↔
            GapsRight value [quote] :=
          stringReplace_eq_replaceAll_iff (beyond value) hzero (by decide) (List.cons_ne_nil quote []) hinside
        rw [← hiff, stringReplace_eq [quote] (beyond value) (List.cons_ne_nil quote []), if_pos hinside,
          replaceAll_byte]
        refine h.trans (congrArg some ?_)
        have hsame : (fun c : UInt8 => if c = quote then [quote] else [c]) = fun c => [c] := by
          funext c
          split
          · next hc => rw [hc]
          · rfl
        rw [hsame, List.flatMap_singleton']
      · exact gapsRight_of_notMem hquote
    refine ⟨gapsRight_of_notMem hback, gapsRight_of_notMem ?_, fun _ => ?_, fun hfalse => ?_⟩
    · rw [hbacks]
      exact hnew
    · rw [escapedValue_of_newline hnew, hbacks]
      exact hgaps
    · rw [hspace] at hfalse
      cases hfalse
  · exact keptValue_of_noSpace beyond hzero hnew (Bool.eq_false_iff.mpr hspace) h

/-- **A value that is escaped once is kept if it is read as it was.** -/
theorem keptValue_of_readAgain (hzero : 0 ∉ value) (honce : EscapedOnce value)
    (h : readAgain beyond value = some value) : KeptValue value := by
  obtain ⟨hnew, hback | hquote | hspace⟩ := honce
  · exact keptValue_of_noBackslash beyond hzero hnew hback h
  · exact keptValue_of_noQuote beyond hzero hnew hquote h
  · exact keptValue_of_noSpace beyond hzero hnew hspace h

end once

/-! ### Whole trees -/

section law

variable {beyond : Bytes → ℕ → UInt8} {config : Configuration}

/-- Lines without newlines are safe. -/
theorem linesSafe_of_newline (h : Writable config)
    (hnew : ∀ ks value, config.values ks = some value → newline ∉ writeValue beyond value) : LinesSafe beyond config :=
  fun ks value hvalue => lineSafe_writeValue beyond (h.zero ks value hvalue) (hnew ks value hvalue)

/-- Values that are kept are read as they were. -/
theorem roundTripLaw_of_kept (h : Writable config) (hroot : config.data.value = none)
    (hkept : ∀ ks value, config.values ks = some value → KeptValue value) : RoundTripLaw beyond config := by
  have hsafe : LinesSafe beyond config := linesSafe_of_newline h fun ks value hvalue =>
    newline_notMem_writeValue beyond (h.zero ks value hvalue) (hkept ks value hvalue)
  refine (roundTripLaw_iff_readAgain h hroot hsafe).mpr fun ks value hvalue => ?_
  exact readValue_writeValue beyond (h.zero ks value hvalue) (hkept ks value hvalue)

/-- **The round trip** of a tree works if its values are kept, and where they are escaped once it works only then. -/
theorem iniRoundTrip (beyond : Bytes → ℕ → UInt8) (config : Configuration) (h : Writable config)
    (hroot : config.data.value = none) :
    ((∀ ks value, config.values ks = some value → KeptValue value) → RoundTripLaw beyond config) ∧
      ((∀ ks value, config.values ks = some value → EscapedOnce value) →
        (RoundTripLaw beyond config ↔ ∀ ks value, config.values ks = some value → KeptValue value)) := by
  have henough : (∀ ks value, config.values ks = some value → KeptValue value) → RoundTripLaw beyond config :=
    roundTripLaw_of_kept h hroot
  refine ⟨henough, fun honce => ⟨fun hlaw ks value hvalue => ?_, henough⟩⟩
  have hsafe : LinesSafe beyond config := linesSafe_of_newline h fun ks value hvalue =>
    newline_notMem_writeValue_of_notMem beyond (h.zero ks value hvalue) (honce ks value hvalue).1
  have hread := (roundTripLaw_iff_readAgain h hroot hsafe).mp hlaw ks value hvalue
  exact keptValue_of_readAgain beyond (h.zero ks value hvalue) (honce ks value hvalue) hread

end law

section oneOption

variable {name value : Bytes} {comment : Option Bytes}

/-- A tree of one option. -/
def oneOption (name value : Bytes) (comment : Option Bytes) : Configuration :=
  .node ⟨none, none, none⟩ (some [(name, .node ⟨some name, some value, comment⟩ none)])

theorem find_oneOption {ks : List Bytes} {u : Configuration} (h : (oneOption name value comment).find ks = some u) :
    ks = [] ∧ u = oneOption name value comment ∨ ks = [name] ∧ u = .node ⟨some name, some value, comment⟩ none := by
  cases ks with
  | nil => exact Or.inl ⟨rfl, (Option.some.inj h).symm⟩
  | cons k ks =>
    right
    rw [KeyTree.find_cons] at h
    obtain ⟨c, hchild, hc⟩ := Option.bind_eq_some_iff.mp h
    have hnodup : (Assoc.keys (oneOption name value comment).entries).Nodup := List.nodup_singleton name
    have hmem := (KeyTree.child_eq_some_iff hnodup).mp hchild
    obtain ⟨rfl, rfl⟩ := Prod.mk.inj (List.mem_singleton.mp hmem)
    cases ks with
    | nil => exact ⟨rfl, (Option.some.inj hc).symm⟩
    | cons j ks => cases hc

theorem values_oneOption {ks : List Bytes} {text : Bytes} (h : (oneOption name value comment).values ks = some text) :
    text = value := by
  rw [Configuration.values_eq] at h
  obtain ⟨u, hu, hvalue⟩ := Option.bind_eq_some_iff.mp h
  rcases find_oneOption hu with ⟨-, rfl⟩ | ⟨-, rfl⟩
  · cases hvalue
  · exact (Option.some.inj hvalue).symm

theorem writable_oneOption (hname : NameOk name) (hzero : 0 ∉ value) : Writable (oneOption name value comment) := by
  refine ⟨fun ks v hv => ?_, fun ks k u hu => ?_, fun ks text htext => ?_⟩
  · obtain ⟨u, hu, rfl⟩ := Option.map_eq_some_iff.mp hv
    rcases find_oneOption hu with ⟨-, rfl⟩ | ⟨-, rfl⟩
    · exact List.nodup_singleton name
    · exact List.nodup_nil
  · rcases find_oneOption hu with ⟨hks, -⟩ | ⟨hks, rfl⟩
    · exact absurd hks (List.append_ne_nil_of_right_ne_nil _ (List.cons_ne_nil _ _))
    · obtain ⟨-, hk⟩ := List.append_inj' (hks.trans (List.nil_append _).symm) rfl
      obtain rfl : k = name := List.head_eq_of_cons_eq hk
      exact ⟨rfl, hname⟩
  · rw [values_oneOption htext]
    exact hzero

end oneOption

theorem nameOk_letter : NameOk [97] := by
  refine ⟨List.cons_ne_nil _ _, fun c hc => ?_, fun c hc => ?_, fun c hc => ?_⟩
  · rw [List.mem_singleton.mp hc]
    decide
  · rw [← Option.some.inj hc]
    decide
  · rw [← Option.some.inj hc]
    decide

/-- `a\ "` keeps its backslash, its space and its quote. -/
theorem iniRoundTrip_escaped :
    RoundTripLaw (fun _ _ => 0) (oneOption [97] [97, 92, 32, 34] (some [35, 99])) := by
  have hzero : (0 : UInt8) ∉ ([97, 92, 32, 34] : Bytes) := by decide
  apply (iniRoundTrip _ _ (writable_oneOption nameOk_letter hzero) rfl).1
  intro ks value hvalue
  rw [values_oneOption hvalue]
  decide +kernel

/-- A value with a quote at each end, and no white space, is read without them. -/
theorem not_iniRoundTrip_quotes :
    ¬ ∀ (beyond : Bytes → ℕ → UInt8) (config : Configuration), Writable config → config.data.value = none →
      RoundTripLaw beyond config := by
  intro h
  have hzero : (0 : UInt8) ∉ ([34, 98, 34] : Bytes) := by decide
  have hwritable : Writable (oneOption [97] [34, 98, 34] none) := writable_oneOption nameOk_letter hzero
  have hsafe : LinesSafe (fun _ _ => 0) (oneOption [97] [34, 98, 34] none) := by
    apply linesSafe_of_newline hwritable
    intro ks value hvalue
    rw [values_oneOption hvalue]
    decide +kernel
  have hlaw := h (fun _ _ => 0) _ hwritable rfl
  have hread := (roundTripLaw_iff_readAgain hwritable rfl hsafe).mp hlaw [[97]] [34, 98, 34] (by decide +kernel)
  exact absurd hread (by decide +kernel)

end Fcitx
