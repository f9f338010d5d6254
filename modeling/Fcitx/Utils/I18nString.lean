/-
# Matching a locale

`fcitx_i18n_string_match` scans a locale, language, territory, codeset and
modifier, and copies it without the codeset into a buffer of 65 bytes. The
lengths after each part are the lengths of the keys that are looked up. A read
behind the terminator of the locale and a write behind the buffer are explicit.

Key definitions: `I18n.Scan`, `I18n.copyLoop`, `I18n.scan`, `I18n.stringMatch`, `I18n.Locale`.
Key theorems: `I18n.copyLoop_holds`, `I18n.scan_safe`, `I18n.scan_locale`, `I18n.stringMatch_spec`.
-/
import Fcitx.Utils.Dict
import Fcitx.Utils.StringUtils

namespace Fcitx
namespace I18n

/-- Why a scan ends early. -/
inductive Stop
  /-- A byte behind the end of an array, or a round behind the end of the buffer. -/
  | bounds
  /-- `failed = true; break;` -/
  | failed
deriving DecidableEq

/-- The variables of the scan. -/
structure Scan where
  i : ℕ
  j : ℕ
  normalizedLocale : Bytes
  languageLength : ℕ
  territoryLength : ℕ
  modifierLength : ℕ

/-- `sizeof(normalizedLocale) - 1` -/
def limit : ℕ := 64

/-- `locale[i]` -/
def charAt (locale : Bytes) (i : ℕ) : Except Stop UInt8 :=
  match (locale ++ [0])[i]? with
  | some c => .ok c
  | none => .error .bounds

/-- `normalizedLocale[j] = c; i++; j++;` -/
def Scan.put (s : Scan) (c : UInt8) : Except Stop Scan :=
  if s.j < s.normalizedLocale.length then
    .ok { s with i := s.i + 1, j := s.j + 1, normalizedLocale := s.normalizedLocale.set s.j c }
  else .error .bounds

/-- A loop that copies what it accepts. -/
def copyLoop (accept : UInt8 → Bool) (locale : Bytes) : ℕ → Scan → Except Stop Scan
  | 0, _ => .error .bounds
  | rounds + 1, s =>
    if s.i < limit then do
      let c ← charAt locale s.i
      if c ≠ 0 ∧ accept c then
        let s ← s.put c
        copyLoop accept locale rounds s
      else .ok s
    else .ok s

/-- The loop that skips the codeset. -/
def skipLoop (accept : UInt8 → Bool) (locale : Bytes) : ℕ → ℕ → Except Stop ℕ
  | 0, _ => .error .bounds
  | rounds + 1, i =>
    if i < limit then do
      let c ← charAt locale i
      if c ≠ 0 ∧ accept c then skipLoop accept locale rounds (i + 1)
      else .ok i
    else .ok i

/-- `fcitx_utils_isdigit` -/
def isdigit (c : UInt8) : Bool := 48 ≤ c && c ≤ 57

/-- What a language is made of: no white space, no `'_'`, `'.'` and `'@'`. -/
def isLanguage (c : UInt8) : Bool := !isspace c && c ≠ 95 && c ≠ 46 && c ≠ 64

/-- What a codeset is made of. -/
def isCodeset (c : UInt8) : Bool := isupper c || islower c || isdigit c || c = 95 || c = 45

/-- The language. -/
def scanLanguage (locale : Bytes) (s : Scan) : Except Stop Scan := do
  let s ← copyLoop isLanguage locale (limit + 1) s
  if s.i = 0 ∨ s.i = limit then .error .failed
  else .ok { s with languageLength := s.j }

/-- A part that starts with `mark`; `none` where the locale goes on with something else. -/
def copyPart (mark : UInt8) (accept : UInt8 → Bool) (locale : Bytes) (s : Scan) : Except Stop (Option Scan) := do
  let c ← charAt locale s.i
  if c = mark then
    let s ← s.put mark
    let s ← copyLoop accept locale (limit + 1) s
    if s.i = limit then .error .failed
    else .ok (some s)
  else .ok none

/-- The territory. -/
def scanTerritory (locale : Bytes) (s : Scan) : Except Stop Scan := do
  match ← copyPart 95 isupper locale s with
  | some s => .ok { s with territoryLength := s.j }
  | none => .ok s

/-- The codeset, which is not copied. -/
def scanCodeset (locale : Bytes) (s : Scan) : Except Stop Scan := do
  let c ← charAt locale s.i
  if c = 46 then
    let i ← skipLoop isCodeset locale (limit + 1) (s.i + 1)
    .ok { s with i := i }
  else .ok s

/-- The modifier. -/
def scanModifier (locale : Bytes) (s : Scan) : Except Stop Scan := do
  match ← copyPart 64 (fun _ => true) locale s with
  | some s => .ok { s with modifierLength := s.j }
  | none => .ok s

/-- The scan, over a buffer of any bytes. -/
def scan (locale : Bytes) (uninit : Fin (limit + 1) → UInt8) : Except Stop Scan := do
  let s ← scanLanguage locale ⟨0, 0, List.ofFn uninit, 0, 0, 0⟩
  let s ← scanTerritory locale s
  let s ← scanCodeset locale s
  scanModifier locale s

variable {A : Type}

/-- `fcitx_dict_lookup(s, normalizedLocale, length, &result)`; `none` reads behind the buffer. -/
def lookupKey (dict : Dict A) (s : Scan) (length : ℕ) : Option (Option A) :=
  if length ≤ s.normalizedLocale.length then some (dict.lookup (s.normalizedLocale.take length)) else none

/-- `if (found) break;`, and the next lookup otherwise. -/
def orNext : Option (Option A) → Option (Option A) → Option (Option A)
  | some none, next => next
  | found, _ => found

/-- The lookups. -/
def lookups (dict : Dict A) (s : Scan) : Option (Option A) :=
  orNext (if s.modifierLength ≠ 0 then lookupKey dict s s.modifierLength else some none)
    (orNext (if s.territoryLength ≠ 0 then lookupKey dict s s.territoryLength else some none)
      (orNext (lookupKey dict s s.languageLength) (some (dict.lookup []))))

/-- `fcitx_i18n_string_match`; `uninit` is what the buffer holds at the start, `setlocale` what
`setlocale(LC_MESSAGES, NULL)` returns, and the outer `none` is an access out of bounds. -/
def stringMatch (uninit : Fin (limit + 1) → UInt8) (setlocale : Option Bytes) (dict : Dict A)
    (locale : Option Bytes) : Option (Option A) :=
  let locale := (locale.or setlocale).getD []
  match scan locale uninit with
  | .ok s => lookups dict s
  | .error .failed => lookups dict ⟨0, 0, (List.ofFn uninit).set 0 0, 0, 0, 0⟩
  | .error .bounds => none

variable {locale text rest : Bytes} {s : Scan} {c : UInt8} {accept : UInt8 → Bool}

/-! ### The scanner between two characters -/

/-- Between two characters `text` is copied, `rest` is left, and no length is behind the end of the buffer. -/
structure Holds (locale : Bytes) (s : Scan) (text rest : Bytes) : Prop where
  size : s.normalizedLocale.length = limit + 1
  behind : s.j ≤ s.i
  taken : s.normalizedLocale.take s.j = text
  inside : s.i + rest.length = locale.length
  left : locale.drop s.i = rest
  language : s.languageLength ≤ limit + 1
  territory : s.territoryLength ≤ limit + 1
  modifier : s.modifierLength ≤ limit + 1

/-- The lengths of a state. -/
def Scan.lengths (s : Scan) : ℕ × ℕ × ℕ := (s.languageLength, s.territoryLength, s.modifierLength)

/-- What a loop gets past from here. -/
def run (accept : UInt8 → Bool) (rest : Bytes) (i : ℕ) : Bytes :=
  (rest.takeWhile fun c => c ≠ 0 ∧ accept c).take (limit - i)

theorem charAt_left {i : ℕ} (hleft : locale.drop i = rest) (hinside : i + rest.length = locale.length) :
    charAt locale i = .ok (rest.headD 0) := by
  have hle : i ≤ locale.length := by omega
  have hat : (locale ++ [0])[i]? = some (rest.headD 0) := by
    rw [← List.head?_drop, List.drop_append_of_le_length hle, hleft]
    cases rest with
    | nil => rfl
    | cons c rest => rfl
  unfold charAt
  rw [hat]

theorem put_holds (h : Holds locale s text (c :: rest)) (hi : s.i ≤ limit) (d : UInt8) :
    ∃ buffer, s.put d = .ok { s with i := s.i + 1, j := s.j + 1, normalizedLocale := buffer } ∧
      Holds locale { s with i := s.i + 1, j := s.j + 1, normalizedLocale := buffer } (text ++ [d]) rest := by
  have hroom : s.j < s.normalizedLocale.length := by
    have hsize := h.size
    have hbehind := h.behind
    omega
  have hinside := h.inside
  rw [List.length_cons] at hinside
  refine ⟨s.normalizedLocale.set s.j d, if_pos hroom, ?_, ?_, ?_, ?_, ?_, h.language, h.territory, h.modifier⟩
  · exact (List.length_set ..).trans h.size
  · exact Nat.succ_le_succ h.behind
  · show (s.normalizedLocale.set s.j d).take (s.j + 1) = text ++ [d]
    rw [← h.taken, List.take_add_one, List.take_set_of_le (Nat.le_refl _), List.getElem?_set_self hroom]
    rfl
  · show s.i + 1 + rest.length = locale.length
    omega
  · show locale.drop (s.i + 1) = rest
    rw [← List.tail_drop, h.left]
    rfl

theorem run_accepted {i : ℕ} (hi : i < limit) (h0 : c ≠ 0) (hc : accept c = true) :
    run accept (c :: rest) i = c :: run accept rest (i + 1) := by
  unfold run
  rw [List.takeWhile_cons_of_pos (by simp [h0, hc]), show limit - i = limit - (i + 1) + 1 by omega,
    List.take_succ_cons]

theorem run_refused {i : ℕ} (hc : ¬ (rest.headD 0 ≠ 0 ∧ accept (rest.headD 0) = true)) : run accept rest i = [] := by
  unfold run
  cases rest with
  | nil => simp
  | cons c rest =>
    have hrefused : ¬ (decide (c ≠ 0 ∧ accept c = true)) = true := fun h => hc (of_decide_eq_true h)
    rw [List.takeWhile_cons_of_neg (p := fun c => decide (c ≠ 0 ∧ accept c = true)) hrefused, List.take_nil]

theorem run_limit {i : ℕ} (hi : limit ≤ i) : run accept rest i = [] := by
  unfold run
  rw [Nat.sub_eq_zero_of_le hi, List.take_zero]

/-- A loop is at most as long as what is left of the buffer, and of the locale. -/
theorem length_run_le (accept : UInt8 → Bool) (rest : Bytes) (i : ℕ) :
    (run accept rest i).length ≤ limit - i ∧ (run accept rest i).length ≤ rest.length := by
  unfold run
  rw [List.length_take]
  exact ⟨Nat.min_le_left _ _, (Nat.min_le_right _ _).trans (List.takeWhile_sublist _).length_le⟩

/-- **A copying loop** copies its run. -/
theorem copyLoop_holds (accept : UInt8 → Bool) (rounds : ℕ) : ∀ {s : Scan} {text rest : Bytes},
    Holds locale s text rest → limit - s.i < rounds →
    ∃ next, copyLoop accept locale rounds s = .ok next ∧
      Holds locale next (text ++ run accept rest s.i) (rest.drop (run accept rest s.i).length) ∧
      next.i = s.i + (run accept rest s.i).length ∧ next.lengths = s.lengths := by
  induction rounds with
  | zero => exact fun _ h => absurd h (Nat.not_lt_zero _)
  | succ rounds ih =>
    intro s text rest h hrounds
    have hstop : run accept rest s.i = [] → Holds locale s (text ++ run accept rest s.i)
        (rest.drop (run accept rest s.i).length) ∧ s.i = s.i + (run accept rest s.i).length := by
      intro hrun
      rw [hrun, List.append_nil]
      exact ⟨h, rfl⟩
    rw [copyLoop]
    by_cases hi : s.i < limit
    · rw [if_pos hi, charAt_left h.left h.inside]
      dsimp only [bind, Except.bind]
      by_cases hc : rest.headD 0 ≠ 0 ∧ accept (rest.headD 0) = true
      · rw [if_pos hc]
        cases rest with
        | nil => exact absurd rfl hc.1
        | cons c rest =>
          obtain ⟨buffer, hput, hnext⟩ := put_holds h (Nat.le_of_lt hi) c
          obtain ⟨next, hloop, hholds, hat, hlengths⟩ := ih hnext (by dsimp only; omega)
          dsimp only at hholds hat hlengths
          have hrun : run accept (c :: rest) s.i = c :: run accept rest (s.i + 1) := run_accepted hi hc.1 hc.2
          rw [List.headD_cons, hput]
          refine ⟨next, hloop, ?_, ?_, hlengths⟩
          · rw [hrun, List.length_cons, List.drop_succ_cons]
            rw [List.append_assoc] at hholds
            exact hholds
          · rw [hat, hrun, List.length_cons]
            omega
      · rw [if_neg hc]
        exact ⟨s, rfl, (hstop (run_refused hc)).1, (hstop (run_refused hc)).2, rfl⟩
    · rw [if_neg hi]
      have hrun : run accept rest s.i = [] := run_limit (Nat.le_of_not_lt hi)
      exact ⟨s, rfl, (hstop hrun).1, (hstop hrun).2, rfl⟩

/-- **The skipping loop** skips its run. -/
theorem skipLoop_eq (accept : UInt8 → Bool) (rounds : ℕ) : ∀ {i : ℕ} {rest : Bytes}, locale.drop i = rest →
    i + rest.length = locale.length → limit - i < rounds →
    skipLoop accept locale rounds i = .ok (i + (run accept rest i).length) := by
  induction rounds with
  | zero => exact fun _ _ h => absurd h (Nat.not_lt_zero _)
  | succ rounds ih =>
    intro i rest hleft hinside hrounds
    rw [skipLoop]
    by_cases hi : i < limit
    · rw [if_pos hi, charAt_left hleft hinside]
      dsimp only [bind, Except.bind]
      by_cases hc : rest.headD 0 ≠ 0 ∧ accept (rest.headD 0) = true
      · rw [if_pos hc]
        cases rest with
        | nil => exact absurd rfl hc.1
        | cons c rest =>
          rw [List.length_cons] at hinside
          have hnext : locale.drop (i + 1) = rest := by
            rw [← List.tail_drop, hleft]
            rfl
          have hrun : run accept (c :: rest) i = c :: run accept rest (i + 1) := run_accepted hi hc.1 hc.2
          rw [ih hnext (by omega) (by omega), hrun, List.length_cons]
          congr 1
          omega
      · rw [if_neg hc, run_refused hc]
        rfl
    · rw [if_neg hi, run_limit (Nat.le_of_not_lt hi)]
      rfl

/-! ### The parts -/

theorem copyPart_none {mark : UInt8} (h : Holds locale s text rest) (hmark : rest.headD 0 ≠ mark) :
    copyPart mark accept locale s = .ok none := by
  unfold copyPart
  rw [charAt_left h.left h.inside]
  exact if_neg hmark

theorem copyPart_mark {mark : UInt8} (accept : UInt8 → Bool) (h : Holds locale s text (mark :: rest))
    (hi : s.i ≤ limit) :
    ∃ next, copyPart mark accept locale s = (if next.i = limit then .error .failed else .ok (some next)) ∧
      Holds locale next (text ++ mark :: run accept rest (s.i + 1)) (rest.drop (run accept rest (s.i + 1)).length) ∧
      next.i = s.i + 1 + (run accept rest (s.i + 1)).length ∧ next.lengths = s.lengths := by
  obtain ⟨buffer, hput, hmarked⟩ := put_holds h hi mark
  obtain ⟨next, hloop, hholds, hat, hlengths⟩ :=
    copyLoop_holds accept (limit + 1) hmarked (Nat.lt_succ_of_le (Nat.sub_le _ _))
  dsimp only at hholds hat hlengths
  refine ⟨next, ?_, ?_, hat, hlengths⟩
  · unfold copyPart
    rw [charAt_left h.left h.inside, List.headD_cons]
    dsimp only [bind, Except.bind]
    rw [if_pos rfl, hput]
    dsimp only
    rw [hloop]
  · rw [List.append_assoc] at hholds
    exact hholds

/-! ### No access out of bounds -/

/-- `r` does not access anything out of bounds, and `P` holds of its result. -/
def Safe {B : Type} (P : B → Prop) (r : Except Stop B) : Prop := r = .error .failed ∨ ∃ b, r = .ok b ∧ P b

theorem Safe.bind {B C : Type} {P : B → Prop} {Q : C → Prop} {r : Except Stop B} {f : B → Except Stop C}
    (hr : Safe P r) (hf : ∀ b, P b → Safe Q (f b)) : Safe Q (r >>= f) := by
  rcases hr with rfl | ⟨b, rfl, hb⟩
  · exact Or.inl rfl
  · exact hf b hb

/-- The scan is inside the locale and before `i`. -/
def Upto (locale : Bytes) (i : ℕ) (s : Scan) : Prop := s.i ≤ i ∧ ∃ text rest, Holds locale s text rest

theorem copyPart_safe {mark : UInt8} (hmark : mark ≠ 0) (h : Holds locale s text rest) (hi : s.i ≤ limit) :
    Safe (fun part => ∀ next ∈ part, Upto locale (limit + 1) next ∧ (s.i < limit → next.i < limit))
      (copyPart mark accept locale s) := by
  by_cases hm : rest.headD 0 = mark
  · cases rest with
    | nil => exact absurd hm.symm hmark
    | cons c rest =>
      obtain rfl : c = mark := hm
      obtain ⟨next, hpart, hholds, hat, -⟩ := copyPart_mark accept h hi
      have hrun := (length_run_le accept rest (s.i + 1)).1
      rw [hpart]
      by_cases hfull : next.i = limit
      · rw [if_pos hfull]
        exact Or.inl rfl
      · rw [if_neg hfull]
        refine Or.inr ⟨some next, rfl, ?_⟩
        intro _ hnext
        obtain rfl := Option.mem_some.mp hnext
        exact ⟨⟨by omega, _, _, hholds⟩, by omega⟩
  · rw [copyPart_none h hm]
    exact Or.inr ⟨none, rfl, nofun⟩

theorem scanLanguage_safe (h : Upto locale 0 s) :
    Safe (fun next => Upto locale limit next ∧ next.i < limit) (scanLanguage locale s) := by
  obtain ⟨h0, text, rest, h⟩ := h
  obtain ⟨next, hloop, hholds, hat, -⟩ := copyLoop_holds isLanguage (limit + 1) h (Nat.lt_succ_of_le (Nat.sub_le _ _))
  have hrun := (length_run_le isLanguage rest s.i).1
  unfold scanLanguage
  rw [hloop]
  dsimp only [Bind.bind, Except.bind]
  by_cases hfailed : next.i = 0 ∨ next.i = limit
  · rw [if_pos hfailed]
    exact Or.inl rfl
  · rw [if_neg hfailed]
    have hbehind := hholds.behind
    exact Or.inr ⟨_, rfl, ⟨by dsimp only; omega, _, _, hholds.size, hbehind, hholds.taken, hholds.inside, hholds.left,
      by dsimp only; omega, hholds.territory, hholds.modifier⟩, by dsimp only; omega⟩

theorem scanTerritory_safe (h : Upto locale limit s) (hi : s.i < limit) :
    Safe (fun next => Upto locale limit next ∧ next.i < limit) (scanTerritory locale s) := by
  obtain ⟨hle, text, rest, hholds⟩ := id h
  unfold scanTerritory
  refine (copyPart_safe (by decide) hholds hle).bind ?_
  intro part hpart
  cases part with
  | none => exact Or.inr ⟨s, rfl, h, hi⟩
  | some next =>
    obtain ⟨⟨hnext, text, rest, hholds⟩, hlt⟩ := hpart next rfl
    have hbehind := hholds.behind
    exact Or.inr ⟨_, rfl, ⟨Nat.le_of_lt (hlt hi), _, _, hholds.size, hbehind, hholds.taken, hholds.inside, hholds.left,
      hholds.language, by dsimp only; omega, hholds.modifier⟩, hlt hi⟩

theorem scanCodeset_safe (h : Upto locale limit s) (hi : s.i < limit) :
    Safe (Upto locale limit) (scanCodeset locale s) := by
  obtain ⟨hle, text, rest, hholds⟩ := id h
  unfold scanCodeset
  rw [charAt_left hholds.left hholds.inside]
  dsimp only [Bind.bind, Except.bind]
  by_cases hdot : rest.headD 0 = 46
  · cases rest with
    | nil => exact absurd hdot (by decide)
    | cons c rest =>
      have hinside := hholds.inside
      rw [List.length_cons] at hinside
      have hleft : locale.drop (s.i + 1) = rest := by
        rw [← List.tail_drop, hholds.left]
        rfl
      rw [if_pos hdot, skipLoop_eq isCodeset (limit + 1) hleft (by omega) (Nat.lt_succ_of_le (Nat.sub_le _ _))]
      have hrun := length_run_le isCodeset rest (s.i + 1)
      have hbehind := hholds.behind
      refine Or.inr ⟨_, rfl, by dsimp only; omega, text, rest.drop (run isCodeset rest (s.i + 1)).length,
        hholds.size, by dsimp only; omega, hholds.taken, ?_, ?_, hholds.language, hholds.territory, hholds.modifier⟩
      · rw [List.length_drop]
        dsimp only
        omega
      · rw [← hleft, List.drop_drop]
  · rw [if_neg hdot]
    exact Or.inr ⟨s, rfl, h⟩

theorem scanModifier_safe (h : Upto locale limit s) : Safe (Upto locale (limit + 1)) (scanModifier locale s) := by
  obtain ⟨hle, text, rest, hholds⟩ := id h
  unfold scanModifier
  refine (copyPart_safe (by decide) hholds hle).bind ?_
  intro part hpart
  cases part with
  | none => exact Or.inr ⟨s, rfl, Nat.le_succ_of_le hle, text, rest, hholds⟩
  | some next =>
    obtain ⟨⟨hnext, text, rest, hholds⟩, -⟩ := hpart next rfl
    have hbehind := hholds.behind
    exact Or.inr ⟨_, rfl, hnext, _, _, hholds.size, hbehind, hholds.taken, hholds.inside, hholds.left,
      hholds.language, hholds.territory, by dsimp only; omega⟩

theorem start_holds (locale : Bytes) (uninit : Fin (limit + 1) → UInt8) :
    Holds locale ⟨0, 0, List.ofFn uninit, 0, 0, 0⟩ [] locale :=
  ⟨List.length_ofFn, Nat.le_refl 0, rfl, Nat.zero_add _, rfl, Nat.zero_le _, Nat.zero_le _, Nat.zero_le _⟩

/-- **The scan** of any locale stays inside it, and inside the buffer. -/
theorem scan_safe (locale : Bytes) (uninit : Fin (limit + 1) → UInt8) :
    Safe (Upto locale (limit + 1)) (scan locale uninit) := by
  unfold scan
  refine (scanLanguage_safe ⟨Nat.le_refl 0, [], locale, start_holds locale uninit⟩).bind ?_
  intro s hs
  refine (scanTerritory_safe hs.1 hs.2).bind ?_
  intro s hs
  refine (scanCodeset_safe hs.1 hs.2).bind ?_
  intro s hs
  exact scanModifier_safe hs

/-! ### The keys of a locale -/

/-- A part of a locale, with the mark before it. -/
def part (mark : UInt8) : Option Bytes → Bytes
  | none => []
  | some text => mark :: text

/-- A locale of fewer than 64 characters, in its parts. -/
structure Locale where
  language : Bytes
  territory : Option Bytes
  codeset : Option Bytes
  modifier : Option Bytes
  language_ne : language ≠ []
  language_accepted : ∀ c ∈ language, c ≠ 0 ∧ isLanguage c = true
  territory_accepted : ∀ t ∈ territory, ∀ c ∈ t, isupper c = true
  codeset_accepted : ∀ t ∈ codeset, ∀ c ∈ t, isCodeset c = true
  modifier_accepted : ∀ t ∈ modifier, ∀ c ∈ t, c ≠ 0
  short : (language ++ part 95 territory ++ part 46 codeset ++ part 64 modifier).length < limit

namespace Locale

/-- The locale as it is written. -/
def write (l : Locale) : Bytes := l.language ++ part 95 l.territory ++ part 46 l.codeset ++ part 64 l.modifier

/-- Its keys, in the order in which they are looked up. -/
def keys (l : Locale) : List Bytes :=
  (l.modifier.map fun m => l.language ++ part 95 l.territory ++ 64 :: m).toList ++
    (l.territory.map fun t => l.language ++ 95 :: t).toList ++ [l.language, []]

end Locale

theorem part_headD {marks : Bytes} (hrest : rest.headD 0 ∈ marks) (mark : UInt8) (p : Option Bytes) :
    (part mark p ++ rest).headD 0 ∈ mark :: marks := by
  cases p with
  | none => exact List.mem_cons_of_mem _ hrest
  | some t => exact List.mem_cons_self

/-- A loop gets past what it accepts, as long as there is room in the buffer. -/
theorem run_eq {front : Bytes} {i : ℕ} (hfront : ∀ c ∈ front, c ≠ 0 ∧ accept c = true)
    (hrest : ¬ (rest.headD 0 ≠ 0 ∧ accept (rest.headD 0) = true)) (hi : i + front.length ≤ limit) :
    run accept (front ++ rest) i = front := by
  have hstop : (rest.takeWhile fun c => decide (c ≠ 0 ∧ accept c = true)) = [] := by
    cases rest with
    | nil => rfl
    | cons c rest =>
      exact List.takeWhile_cons_of_neg (p := fun c => decide (c ≠ 0 ∧ accept c = true))
        fun h => hrest (of_decide_eq_true h)
  unfold run
  rw [List.takeWhile_append_of_pos fun c hc => decide_eq_true (hfront c hc), hstop, List.append_nil,
    List.take_of_length_le (by omega)]

theorem Holds.length (h : Holds locale s text rest) (hi : s.i ≤ limit) : s.j = text.length := by
  have hsize := h.size
  have hbehind := h.behind
  rw [← h.taken, List.length_take]
  omega

/-- A part that fits is copied up to the next one. -/
theorem copyPart_part {mark : UInt8} {p : Option Bytes} (h : Holds locale s text (part mark p ++ rest))
    (hp : ∀ t ∈ p, ∀ c ∈ t, c ≠ 0 ∧ accept c = true)
    (hrest : ¬ (rest.headD 0 ≠ 0 ∧ accept (rest.headD 0) = true)) (hmark : rest.headD 0 ≠ mark)
    (hshort : s.i + (part mark p).length < limit) :
    ∃ next, copyPart mark accept locale s = .ok (p.map fun _ => next) ∧
      Holds locale next (text ++ part mark p) rest ∧ next.i = s.i + (part mark p).length ∧
      next.lengths = s.lengths ∧ (p = none → next = s) := by
  cases p with
  | none =>
    refine ⟨s, copyPart_none h hmark, ?_, rfl, rfl, fun _ => rfl⟩
    rw [part, List.append_nil]
    exact h
  | some t =>
    change Holds locale s text (mark :: (t ++ rest)) at h
    rw [part, List.length_cons] at hshort
    obtain ⟨next, hcopy, hholds, hat, hlengths⟩ := copyPart_mark accept h (by omega)
    rw [run_eq (hp t rfl) hrest (by omega)] at hholds hat
    have hnot : next.i ≠ limit := by omega
    rw [if_neg hnot] at hcopy
    rw [List.drop_left] at hholds
    refine ⟨next, hcopy, hholds, ?_, hlengths, nofun⟩
    rw [part, List.length_cons, hat]
    omega

theorem scanLanguage_part {front : Bytes} (h : Holds locale s text (front ++ rest)) (h0 : s.i = 0)
    (hne : front ≠ []) (hfront : ∀ c ∈ front, c ≠ 0 ∧ isLanguage c = true)
    (hrest : ¬ (rest.headD 0 ≠ 0 ∧ isLanguage (rest.headD 0) = true)) (hshort : front.length < limit) :
    ∃ next, scanLanguage locale s = .ok next ∧ Holds locale next (text ++ front) rest ∧ next.i = front.length ∧
      next.lengths = ((text ++ front).length, s.territoryLength, s.modifierLength) := by
  obtain ⟨next, hloop, hholds, hat, hlengths⟩ :=
    copyLoop_holds isLanguage (limit + 1) h (Nat.lt_succ_of_le (Nat.sub_le _ _))
  rw [run_eq hfront hrest (by omega)] at hholds hat
  rw [List.drop_left] at hholds
  have hpos := List.length_pos_iff.mpr hne
  have hok : ¬ (next.i = 0 ∨ next.i = limit) := by omega
  have hj := hholds.length (by omega)
  have hbehind := hholds.behind
  refine ⟨{ next with languageLength := next.j }, ?_, ?_, by dsimp only; omega, ?_⟩
  · unfold scanLanguage
    rw [hloop]
    exact if_neg hok
  · exact ⟨hholds.size, hbehind, hholds.taken, hholds.inside, hholds.left, by dsimp only; omega, hholds.territory,
      hholds.modifier⟩
  · simp only [Scan.lengths, Prod.mk.injEq] at hlengths ⊢
    exact ⟨hj, hlengths.2⟩

/-- The length of the key that ends with a part; zero where the part is missing. -/
def lengthAt (p : Option Bytes) (text : Bytes) : ℕ := if p.isSome then text.length else 0

theorem scanTerritory_part {p : Option Bytes} (h : Holds locale s text (part 95 p ++ rest))
    (hp : ∀ t ∈ p, ∀ c ∈ t, isupper c = true)
    (hrest : isupper (rest.headD 0) = false) (hmark : rest.headD 0 ≠ 95) (h0 : s.territoryLength = 0)
    (hshort : s.i + (part 95 p).length < limit) :
    ∃ next, scanTerritory locale s = .ok next ∧ Holds locale next (text ++ part 95 p) rest ∧
      next.i = s.i + (part 95 p).length ∧
      next.lengths = (s.languageLength, lengthAt p (text ++ part 95 p), s.modifierLength) := by
  have hupper : ∀ t ∈ p, ∀ c ∈ t, c ≠ 0 ∧ isupper c = true := by
    intro t ht c hc
    refine ⟨?_, hp t ht c hc⟩
    rintro rfl
    exact absurd (hp t ht 0 hc) (by decide)
  obtain ⟨next, hcopy, hholds, hat, hlengths, hnone⟩ :=
    copyPart_part h hupper (fun hu => Bool.eq_false_iff.mp hrest hu.2) hmark hshort
  simp only [Scan.lengths, Prod.mk.injEq] at hlengths
  unfold scanTerritory
  rw [hcopy]
  cases p with
  | none =>
    refine ⟨next, by rw [hnone rfl]; rfl, hholds, hat, ?_⟩
    simp [Scan.lengths, hlengths, h0, lengthAt]
  | some t =>
    have hj := hholds.length (by omega)
    have hbehind := hholds.behind
    refine ⟨{ next with territoryLength := next.j }, rfl, ?_, hat, ?_⟩
    · exact ⟨hholds.size, hbehind, hholds.taken, hholds.inside, hholds.left, hholds.language, by dsimp only; omega,
        hholds.modifier⟩
    · simp [Scan.lengths, hlengths, lengthAt, hj]

theorem scanModifier_part {p : Option Bytes} (h : Holds locale s text (part 64 p))
    (hp : ∀ t ∈ p, ∀ c ∈ t, c ≠ 0) (h0 : s.modifierLength = 0) (hshort : s.i + (part 64 p).length < limit) :
    ∃ next, scanModifier locale s = .ok next ∧ Holds locale next (text ++ part 64 p) [] ∧
      next.lengths = (s.languageLength, s.territoryLength, lengthAt p (text ++ part 64 p)) := by
  rw [← List.append_nil (part 64 p)] at h
  obtain ⟨next, hcopy, hholds, hat, hlengths, hnone⟩ :=
    copyPart_part h (fun t ht c hc => ⟨hp t ht c hc, rfl⟩) (fun hc => hc.1 rfl) (by decide) hshort
  simp only [Scan.lengths, Prod.mk.injEq] at hlengths
  unfold scanModifier
  rw [hcopy]
  cases p with
  | none =>
    refine ⟨next, by rw [hnone rfl]; rfl, hholds, ?_⟩
    simp [Scan.lengths, hlengths, h0, lengthAt]
  | some t =>
    have hj := hholds.length (by omega)
    have hbehind := hholds.behind
    refine ⟨{ next with modifierLength := next.j }, rfl, ?_, ?_⟩
    · exact ⟨hholds.size, hbehind, hholds.taken, hholds.inside, hholds.left, hholds.language, hholds.territory,
        by dsimp only; omega⟩
    · simp [Scan.lengths, hlengths, lengthAt, hj]

theorem scanCodeset_part {p : Option Bytes} (h : Holds locale s text (part 46 p ++ rest))
    (hp : ∀ t ∈ p, ∀ c ∈ t, isCodeset c = true)
    (hrest : isCodeset (rest.headD 0) = false) (hmark : rest.headD 0 ≠ 46)
    (hshort : s.i + (part 46 p).length < limit) :
    ∃ next, scanCodeset locale s = .ok next ∧ Holds locale next text rest ∧
      next.i = s.i + (part 46 p).length ∧ next.lengths = s.lengths := by
  have hcodeset : ∀ t ∈ p, ∀ c ∈ t, c ≠ 0 ∧ isCodeset c = true := by
    intro t ht c hc
    refine ⟨?_, hp t ht c hc⟩
    rintro rfl
    exact absurd (hp t ht 0 hc) (by decide)
  unfold scanCodeset
  rw [charAt_left h.left h.inside]
  cases p with
  | none => exact ⟨s, if_neg hmark, h, rfl, rfl⟩
  | some t =>
    change Holds locale s text (46 :: (t ++ rest)) at h
    have hinside := h.inside
    rw [List.length_cons, List.length_append] at hinside
    rw [part, List.length_cons] at hshort
    have hleft : locale.drop (s.i + 1) = t ++ rest := by
      rw [← List.tail_drop, h.left]
      rfl
    have hskip : skipLoop isCodeset locale (limit + 1) (s.i + 1) = .ok (s.i + 1 + t.length) := by
      rw [skipLoop_eq isCodeset (limit + 1) hleft (by rw [List.length_append]; omega)
        (Nat.lt_succ_of_le (Nat.sub_le _ _)),
        run_eq (hcodeset t rfl) (fun hc => Bool.eq_false_iff.mp hrest hc.2) (by omega)]
    refine ⟨{ s with i := s.i + 1 + t.length }, ?_, ?_, ?_, rfl⟩
    · dsimp only [bind, Except.bind, part, List.cons_append, List.headD_cons]
      rw [if_pos rfl, hskip]
    · have hbehind := h.behind
      refine ⟨h.size, by dsimp only; omega, h.taken, by dsimp only; omega, ?_, h.language, h.territory, h.modifier⟩
      dsimp only
      rw [← List.drop_drop, hleft, List.drop_left]
    · dsimp only
      rw [part, List.length_cons]
      omega

/-- **The scan of a locale** keeps its parts but the codeset, and the length of every key. -/
theorem scan_locale (l : Locale) (uninit : Fin (limit + 1) → UInt8) :
    ∃ s, scan l.write uninit = .ok s ∧
      Holds l.write s (l.language ++ part 95 l.territory ++ part 64 l.modifier) [] ∧
      s.lengths = (l.language.length, lengthAt l.territory (l.language ++ part 95 l.territory),
        lengthAt l.modifier (l.language ++ part 95 l.territory ++ part 64 l.modifier)) := by
  have hshort : l.language.length + (part 95 l.territory).length + (part 46 l.codeset).length +
      (part 64 l.modifier).length < limit := by
    simpa only [List.length_append] using l.short
  have hmodifier : (part 64 l.modifier).headD 0 ∈ ([64, 0] : Bytes) := by
    have hend : ([] : Bytes).headD 0 ∈ ([0] : Bytes) := List.mem_singleton.mpr rfl
    simpa using part_headD hend 64 l.modifier
  have hcodeset := part_headD hmodifier 46 l.codeset
  have hterritory := part_headD hcodeset 95 l.territory
  have hwrite : l.write = l.language ++ (part 95 l.territory ++ (part 46 l.codeset ++ part 64 l.modifier)) := by
    rw [Locale.write, List.append_assoc, List.append_assoc]
  rw [hwrite]
  have hlanguage : ∀ c ∈ ([95, 46, 64, 0] : Bytes), ¬ (c ≠ 0 ∧ isLanguage c = true) := by decide +kernel
  have hupper : ∀ c ∈ ([46, 64, 0] : Bytes), isupper c = false ∧ c ≠ 95 := by decide +kernel
  have hskipped : ∀ c ∈ ([64, 0] : Bytes), isCodeset c = false ∧ c ≠ 46 := by decide +kernel
  obtain ⟨s₁, hs₁, h₁, hi₁, hl₁⟩ := scanLanguage_part (start_holds _ uninit) rfl l.language_ne
    l.language_accepted (hlanguage _ hterritory) (by omega)
  simp only [Scan.lengths, Prod.mk.injEq, List.nil_append] at hl₁ h₁
  obtain ⟨s₂, hs₂, h₂, hi₂, hl₂⟩ := scanTerritory_part h₁ l.territory_accepted (hupper _ hcodeset).1
    (hupper _ hcodeset).2 hl₁.2.1 (by omega)
  simp only [Scan.lengths, Prod.mk.injEq] at hl₂
  obtain ⟨s₃, hs₃, h₃, hi₃, hl₃⟩ := scanCodeset_part h₂ l.codeset_accepted (hskipped _ hmodifier).1
    (hskipped _ hmodifier).2 (by omega)
  simp only [Scan.lengths, Prod.mk.injEq] at hl₃
  obtain ⟨s₄, hs₄, h₄, hl₄⟩ := scanModifier_part h₃ l.modifier_accepted
    (by rw [hl₃.2.2, hl₂.2.2, hl₁.2.2]) (by omega)
  refine ⟨s₄, ?_, h₄, ?_⟩
  · unfold scan
    rw [hs₁]
    dsimp only [bind, Except.bind]
    rw [hs₂]
    dsimp only
    rw [hs₃]
    exact hs₄
  · rw [hl₄, hl₃.1, hl₂.1, hl₁.1, hl₃.2.1, hl₂.2.1]

/-! ### The lookups -/

/-- The key of a length that was recorded when `front` was copied. -/
theorem lookupKey_holds (dict : Dict A) {front back : Bytes} (h : Holds locale s (front ++ back) rest) :
    lookupKey dict s front.length = some (dict.lookup front) := by
  have hbuffer : s.normalizedLocale = front ++ (back ++ s.normalizedLocale.drop s.j) := by
    rw [← List.append_assoc, ← h.taken, List.take_append_drop]
  unfold lookupKey
  rw [hbuffer, List.take_left, if_pos]
  rw [List.length_append]
  exact Nat.le_add_right _ _

/-- A part that is there is looked up, and a missing one is not. -/
theorem lookupPart_holds (dict : Dict A) {p : Option Bytes} {front back : Bytes} (hne : front ≠ [])
    (h : Holds locale s (front ++ back) rest) :
    (if lengthAt p front ≠ 0 then lookupKey dict s (lengthAt p front) else some none) =
      some (if p.isSome then dict.lookup front else none) := by
  have hpos : front.length ≠ 0 := fun h => hne (List.length_eq_zero_iff.mp h)
  unfold lengthAt
  cases p with
  | none => rfl
  | some t =>
    rw [Option.isSome_some, if_pos rfl, if_pos rfl, if_pos hpos, lookupKey_holds dict h]

theorem orNext_some (a b : Option A) : orNext (some a) (some b) = some (a.or b) := by
  cases a with
  | none => rfl
  | some a => rfl

/-- The value of the first of the keys that is in the dictionary. -/
def firstOf (dict : Dict A) (keys : List Bytes) : Option A := keys.findSome? dict.lookup

theorem firstOf_nil (dict : Dict A) : firstOf dict [] = none := rfl

theorem firstOf_cons (dict : Dict A) (key : Bytes) (keys : List Bytes) :
    firstOf dict (key :: keys) = (dict.lookup key).or (firstOf dict keys) := by
  unfold firstOf
  rw [List.findSome?_cons]
  cases dict.lookup key <;> rfl

/-- **The lookups** after the scan of a locale find the first of its keys. -/
theorem lookups_locale (dict : Dict A) (l : Locale)
    (h : Holds locale s (l.language ++ part 95 l.territory ++ part 64 l.modifier) rest)
    (hlengths : s.lengths = (l.language.length, lengthAt l.territory (l.language ++ part 95 l.territory),
      lengthAt l.modifier (l.language ++ part 95 l.territory ++ part 64 l.modifier))) :
    lookups dict s = some (firstOf dict l.keys) := by
  simp only [Scan.lengths, Prod.mk.injEq] at hlengths
  obtain ⟨hlanguage, hterritory, hmodifier⟩ := hlengths
  have hne : ∀ back, l.language ++ back ≠ [] := fun back he => l.language_ne (List.append_eq_nil_iff.mp he).1
  have hne' : l.language ++ part 95 l.territory ++ part 64 l.modifier ≠ [] := by
    rw [List.append_assoc]
    exact hne _
  have hwhole : Holds locale s (l.language ++ part 95 l.territory ++ part 64 l.modifier ++ []) rest := by
    rw [List.append_nil]
    exact h
  unfold lookups
  rw [hlanguage, hterritory, hmodifier, lookupPart_holds dict hne' hwhole,
    lookupPart_holds dict (hne _) h, lookupKey_holds dict (List.append_assoc .. ▸ h), orNext_some, orNext_some,
    orNext_some]
  unfold Locale.keys
  cases l.modifier <;> cases l.territory <;> simp [part, firstOf_cons, firstOf_nil]

theorem stringMatch_locale (uninit : Fin (limit + 1) → UInt8) (setlocale : Option Bytes) (dict : Dict A)
    (l : Locale) : stringMatch uninit setlocale dict (some l.write) = some (firstOf dict l.keys) := by
  obtain ⟨s, hscan, hholds, hlengths⟩ := scan_locale l uninit
  unfold stringMatch
  rw [Option.some_or, Option.getD_some]
  dsimp only
  rw [hscan]
  exact lookups_locale dict l hholds hlengths

theorem lookupKey_safe (dict : Dict A) (h : Holds locale s text rest) {length : ℕ} (hle : length ≤ limit + 1) :
    ∃ found, lookupKey dict s length = some found := by
  unfold lookupKey
  rw [if_pos (h.size ▸ hle)]
  exact ⟨_, rfl⟩

/-- The lookups read inside the buffer, wherever a scan ended. -/
theorem lookups_safe (dict : Dict A) (h : Holds locale s text rest) : ∃ found, lookups dict s = some found := by
  have hpart : ∀ length ≤ limit + 1, ∃ found,
      (if length ≠ 0 then lookupKey dict s length else some none) = some found := by
    intro length hle
    split_ifs
    · exact lookupKey_safe dict h hle
    · exact ⟨none, rfl⟩
  obtain ⟨modifier, hmodifier⟩ := hpart _ h.modifier
  obtain ⟨territory, hterritory⟩ := hpart _ h.territory
  obtain ⟨language, hlanguage⟩ := lookupKey_safe dict h h.language
  unfold lookups
  rw [hmodifier, hterritory, hlanguage, orNext_some, orNext_some, orNext_some]
  exact ⟨_, rfl⟩

/-- **Matching a locale.** A locale of fewer than 64 characters gets the value of the first of its keys that is in
the dictionary, and no locale, `NULL` included, is read behind its end or written behind the end of the buffer.
The codeset makes no difference. -/
theorem stringMatch_spec (uninit : Fin (limit + 1) → UInt8) (setlocale : Option Bytes) (dict : Dict A) :
    (∀ l : Locale, stringMatch uninit setlocale dict (some l.write) = some (firstOf dict l.keys)) ∧
    (∀ l l' : Locale, (l.language, l.territory, l.modifier) = (l'.language, l'.territory, l'.modifier) →
      stringMatch uninit setlocale dict (some l.write) = stringMatch uninit setlocale dict (some l'.write)) ∧
    (∀ locale, stringMatch uninit setlocale dict locale ≠ none) := by
  refine ⟨stringMatch_locale uninit setlocale dict, ?_, ?_⟩
  · intro l l' heq
    simp only [Prod.mk.injEq] at heq
    rw [stringMatch_locale, stringMatch_locale]
    unfold Locale.keys
    rw [heq.1, heq.2.1, heq.2.2]
  · intro locale
    unfold stringMatch
    dsimp only
    rcases scan_safe ((locale.or setlocale).getD []) uninit with hfailed | ⟨s, hscan, -, text, rest, hholds⟩
    · have hcleared : Holds [] ⟨0, 0, (List.ofFn uninit).set 0 0, 0, 0, 0⟩ [] [] :=
        ⟨(List.length_set ..).trans List.length_ofFn, Nat.le_refl 0, rfl, rfl, rfl, Nat.zero_le _, Nat.zero_le _,
          Nat.zero_le _⟩
      obtain ⟨found, hfound⟩ := lookups_safe dict hcleared
      rw [hfailed]
      dsimp only
      rw [hfound]
      exact Option.some_ne_none found
    · obtain ⟨found, hfound⟩ := lookups_safe dict hholds
      rw [hscan]
      dsimp only
      rw [hfound]
      exact Option.some_ne_none found

/-- `zh_CN.utf8`, where `zh` and `zh_CN` are known. -/
theorem stringMatch_spec_utf8 :
    stringMatch (fun _ => 1) none ⟨[([122, 104], 1), ([122, 104, 95, 67, 78], 2)], 2⟩
      (some [122, 104, 95, 67, 78, 46, 117, 116, 102, 56]) = some (some 2) :=
  (stringMatch_spec (fun _ => 1) none ⟨[([122, 104], 1), ([122, 104, 95, 67, 78], 2)], 2⟩).1
    ⟨[122, 104], some [67, 78], some [117, 116, 102, 56], none, by decide, by decide +kernel, by decide +kernel,
      by decide +kernel, by decide +kernel, by decide +kernel⟩

end I18n
end Fcitx
