/-
# Hotkeys as text

`fcitx_key_parse` looks for eight spellings of modifiers anywhere in a token and takes
what stands behind the last of them for the name; `fcitx_key_to_string` writes the
modifiers in one order and then the name. A key that is written is read again as it was,
but a key without a name is not written at all.

Key definitions: `Key.parse`, `Key.toText`, `Key.listParse`, `Key.listToString`,
`Key.behindModifiers`, `Key.named`.
Key theorems: `Key.parse_toText`, `Key.listParse_text`, `Key.listParse_listToString`,
`Key.listParse_stored_iff`.
-/
import Fcitx.Utils.KeySymChar
import Fcitx.Utils.StringList
import Fcitx.Utils.StringReplace

namespace Fcitx
namespace Key

open FcitxKey (isoLeftTab tab)

/-! ### Reading -/

/-- The spellings that `fcitx_key_parse` looks for, one after the other. -/
def parsedModifiers : List (String × KeyStates) :=
  [("CTRL_", FcitxKeyState.ctrl), ("Control+", FcitxKeyState.ctrl), ("ALT_", FcitxKeyState.alt),
    ("Alt+", FcitxKeyState.alt), ("SHIFT_", FcitxKeyState.shift), ("Shift+", FcitxKeyState.shift),
    ("SUPER_", FcitxKeyState.super), ("Super+", FcitxKeyState.super)]

/-- `_CHECK_MODIFIER`; `lastModifier` is a place in `keyString`. -/
def checkModifier (keyString : Bytes) (s : KeyStates × ℕ) (modifier : String × KeyStates) : KeyStates × ℕ :=
  match strstrFrom keyString (nameBytes modifier.1) 0 with
  | none => s
  | some found =>
    let behind := found + (nameBytes modifier.1).length
    (s.1 ||| modifier.2, if s.2 < behind then behind else s.2)

/-- `state` and `lastModifier` after the checks. -/
def checkModifiers (keyString : Bytes) : KeyStates × ℕ :=
  parsedModifiers.foldl (checkModifier keyString) (0, 0)

/-- What stands behind the last modifier. -/
def behindModifiers (keyString : Bytes) : Bytes := keyString.drop (checkModifiers keyString).2

/-- `fcitx_key_parse` -/
def parse (keyString : Bytes) : Key :=
  ⟨keysymFromString (behindModifiers keyString), (checkModifiers keyString).1⟩

/-- `strtok_r` with `_WHITE_SPACE`: the token, and what `savePtr` points to. -/
def strtokR (str : Bytes) : Option (Bytes × Bytes) :=
  match str.dropWhile isspace with
  | [] => none
  | c :: rest =>
    some ((c :: rest).takeWhile (fun b => !isspace b), ((c :: rest).dropWhile fun b => !isspace b).drop 1)

/-- The loop of `fcitx_key_list_parse`, given rounds; each token takes a byte at least. -/
def listParseLoop : ℕ → List Key → Bytes → List Key
  | 0, keyList, _ => keyList
  | rounds + 1, keyList, str =>
    match strtokR str with
    | none => keyList
    | some (token, savePtr) =>
      let key := parse token
      listParseLoop rounds (if key.sym = FcitxKey.none then keyList else keyList ++ [key]) savePtr

/-- `fcitx_key_list_parse` -/
def listParse (keyList : List Key) (keyString : Bytes) : List Key :=
  listParseLoop (keyString.length + 1) keyList keyString

/-! ### Writing -/

/-- The modifiers that `fcitx_key_to_string` writes. -/
def printedModifiers : List (String × KeyStates) :=
  [("Control+", FcitxKeyState.ctrl), ("Alt+", FcitxKeyState.alt), ("Shift+", FcitxKeyState.shift),
    ("Super+", FcitxKeyState.super)]

/-- `_ADD_MODIFIER_LENGTH` of all of them. -/
def modifierLength (state : KeyStates) : ℕ :=
  (printedModifiers.map fun modifier => if state &&& modifier.2 ≠ 0 then (nameBytes modifier.1).length else 0).sum

/-- `_APPEND_MODIFIER_STRING` of all of them. -/
def modifierText (state : KeyStates) : Bytes :=
  printedModifiers.flatMap fun modifier => if state &&& modifier.2 ≠ 0 then nameBytes modifier.1 else []

/-- The key with the tab in place of the left tab. -/
def tabbed (key : Key) : Key := if key.sym = isoLeftTab then { key with sym := tab } else key

/-- `fcitx_key_to_string`: the size of the memory for the text, and the text without the
terminator; `none` is NULL. -/
def toText (hotkey : Key) : Option (ℕ × Bytes) :=
  if hotkey.sym = FcitxKey.none then none
  else
    let len := modifierLength hotkey.state
    let hotkey := tabbed hotkey
    (keysymToString hotkey.sym).map fun key =>
      (len + key.length + 1, modifierText hotkey.state ++ key)

/-- What `fcitx_utils_string_list_join` gives with a space (`stringListJoin_texts`). -/
def joinSpace (list : List Bytes) : Bytes := [32].intercalate list

/-- `fcitx_key_list_to_string` -/
def listToString (keyList : List Key) : Bytes :=
  joinSpace (keyList.filterMap fun curKey => (toText curKey).map Prod.snd)

/-! ### Tokens -/

/-- The tokens of a string. -/
def tokensFrom : ℕ → Bytes → List Bytes
  | 0, _ => []
  | rounds + 1, str =>
    match strtokR str with
    | none => []
    | some (token, savePtr) => token :: tokensFrom rounds savePtr

def tokens (str : Bytes) : List Bytes := tokensFrom (str.length + 1) str

/-- **Reading a list** reads the tokens, but for those without a key. -/
theorem listParse_eq (keyList : List Key) (str : Bytes) :
    listParse keyList str = keyList ++ ((tokens str).map parse).filter fun key => key.sym ≠ FcitxKey.none := by
  unfold listParse tokens
  generalize str.length + 1 = rounds
  induction rounds generalizing keyList str with
  | zero => exact (List.append_nil keyList).symm
  | succ rounds ih =>
    rw [listParseLoop, tokensFrom]
    cases strtokR str with
    | none => exact (List.append_nil keyList).symm
    | some result =>
      dsimp only
      rw [ih, List.map_cons, List.filter_cons]
      by_cases hnone : (parse result.1).sym = FcitxKey.none
      · simp [hnone]
      · simp [hnone]

/-- A text with no white space is a token. -/
theorem strtokR_append {text rest : Bytes} (hne : text ≠ []) (htext : ∀ b ∈ text, isspace b = false)
    (hrest : rest = [] ∨ ∃ tail, rest = 32 :: tail) : strtokR (text ++ rest) = some (text, rest.drop 1) := by
  obtain ⟨c, text', rfl⟩ := List.exists_cons_of_ne_nil hne
  have hc := htext c List.mem_cons_self
  have htake : (c :: text' ++ rest).takeWhile (fun b => !isspace b) = c :: text' := by
    rw [List.takeWhile_append_of_pos (by simpa using htext)]
    rcases hrest with rfl | ⟨tail, rfl⟩
    · simp
    · simp [isspace]
  have hdrop : (c :: text' ++ rest).dropWhile (fun b => !isspace b) = rest := by
    rw [List.dropWhile_append_of_pos (by simpa using htext)]
    rcases hrest with rfl | ⟨tail, rfl⟩
    · simp
    · simp [isspace]
  have hstart : (c :: text' ++ rest).dropWhile isspace = c :: (text' ++ rest) := by
    rw [List.cons_append, List.dropWhile_cons, hc, if_neg Bool.false_ne_true]
  rw [strtokR, hstart]
  dsimp only
  rw [← List.cons_append, htake, hdrop]

/-- **The tokens of a joined list** are its strings. -/
theorem tokens_joinSpace {texts : List Bytes} (h : ∀ text ∈ texts, text ≠ [] ∧ ∀ b ∈ text, isspace b = false) :
    tokens (joinSpace texts) = texts := by
  have hloop : ∀ rounds, texts.length < rounds → tokensFrom rounds (joinSpace texts) = texts := by
    induction texts with
    | nil =>
      intro rounds hrounds
      cases rounds with
      | zero => cases hrounds
      | succ rounds => rfl
    | cons text texts ih =>
      intro rounds hrounds
      obtain ⟨⟨hne, htext⟩, hrest⟩ := List.forall_mem_cons.mp h
      cases rounds with
      | zero => cases hrounds
      | succ rounds =>
        have hih := ih hrest rounds (Nat.lt_of_succ_lt_succ hrounds)
        obtain ⟨rest, hjoin, hspace, hdrop⟩ : ∃ rest, joinSpace (text :: texts) = text ++ rest ∧
            (rest = [] ∨ ∃ tail, rest = 32 :: tail) ∧ rest.drop 1 = joinSpace texts := by
          cases texts with
          | nil => exact ⟨[], by simp [joinSpace], Or.inl rfl, rfl⟩
          | cons text' texts =>
            refine ⟨32 :: joinSpace (text' :: texts), ?_, Or.inr ⟨_, rfl⟩, rfl⟩
            simp [joinSpace, List.intercalate_cons_cons]
        rw [tokensFrom, hjoin, strtokR_append hne htext hspace]
        dsimp only
        rw [hdrop, hih]
  have hlength : texts.length ≤ (joinSpace texts).length := by
    clear hloop
    induction texts with
    | nil => exact Nat.zero_le _
    | cons text texts ih =>
      obtain ⟨⟨hne, -⟩, hrest⟩ := List.forall_mem_cons.mp h
      have hih := ih hrest
      have hpos := List.length_pos_iff.mpr hne
      cases texts with
      | nil =>
        simp only [joinSpace, List.intercalate_singleton, List.length_singleton]
        omega
      | cons text' texts =>
        simp only [joinSpace, List.intercalate_cons_cons, List.length_append, List.length_cons] at hih ⊢
        omega
  exact hloop _ (Nat.lt_succ_of_le hlength)

/-! ### The modifiers of a text -/

/-- The states that a hotkey can be written with. -/
def writtenStates : List KeyStates :=
  ((List.range 16).map fun n => (if n.testBit 0 then FcitxKeyState.ctrl else 0) |||
    (if n.testBit 1 then FcitxKeyState.alt else 0) ||| (if n.testBit 2 then FcitxKeyState.shift else 0) |||
    (if n.testBit 3 then FcitxKeyState.super else 0))

theorem mem_writtenStates {state : KeyStates} (h : state &&& handledStates = state) : state ∈ writtenStates := by
  have hlt : state.toNat < 78 := by
    rw [← h, UInt32.toNat_and]
    exact Nat.lt_of_le_of_lt Nat.and_le_right (by decide)
  have hall : ∀ n : Fin 78, UInt32.ofNat n &&& handledStates = UInt32.ofNat n →
      UInt32.ofNat n ∈ writtenStates := by decide
  have hn := hall ⟨state.toNat, hlt⟩
  rw [UInt32.ofNat_toNat] at hn
  exact hn h

/-- The memory is just large enough. -/
theorem modifierLength_eq (state : KeyStates) : modifierLength state = (modifierText state).length := by
  rw [modifierLength, modifierText, List.length_flatMap]
  congr 1
  refine List.map_congr_left fun modifier _ => ?_
  split <;> rfl

/-- A search that cannot end behind `text` does not see what follows it. -/
theorem strstrFrom_append {text name needle : Bytes} (hneedle : needle ≠ [])
    (hend : ∀ i, needle <+: (text ++ name).drop i → i < (text ++ name).length → i + needle.length ≤ text.length) :
    strstrFrom (text ++ name) needle 0 = strstrFrom text needle 0 := by
  have hpos := List.length_pos_iff.mpr hneedle
  -- inside `text` the two see the same
  have hsame : ∀ i, i + needle.length ≤ text.length →
      (needle <+: (text ++ name).drop i ↔ needle <+: text.drop i) := by
    intro i hi
    rw [List.drop_append_of_le_length (by omega)]
    refine ⟨fun h => ?_, fun h => h.trans (List.prefix_append _ _)⟩
    refine List.prefix_of_prefix_length_le h (List.prefix_append _ _) ?_
    rw [List.length_drop]
    omega
  have hfit : ∀ i, needle <+: text.drop i → i < text.length → i + needle.length ≤ text.length :=
    fun i h hi => match_end h hi
  cases hwhole : strstrFrom (text ++ name) needle 0 with
  | none =>
    cases hpart : strstrFrom text needle 0 with
    | none => rfl
    | some j =>
      obtain ⟨-, hj, hmatch, -⟩ := strstrFrom_some hpart
      have hlt : j < (text ++ name).length := by
        rw [List.length_append]
        omega
      exact absurd ((hsame j (hfit j hmatch hj)).mpr hmatch) (strstrFrom_none hwhole j (Nat.zero_le j) hlt)
  | some i =>
    obtain ⟨-, hi, hmatch, hfirst⟩ := strstrFrom_some hwhole
    have hle := hend i hmatch hi
    have hmatch' := (hsame i hle).mp hmatch
    cases hpart : strstrFrom text needle 0 with
    | none => exact absurd hmatch' (strstrFrom_none hpart i (Nat.zero_le i) (by omega))
    | some j =>
      obtain ⟨-, hj, hmatchj, hfirstj⟩ := strstrFrom_some hpart
      have hij : ¬ i < j := fun hlt => hfirstj i (Nat.zero_le i) hlt hmatch'
      have hji : ¬ j < i := fun hlt =>
        hfirst j (Nat.zero_le j) hlt ((hsame j (hfit j hmatchj hj)).mpr hmatchj)
      congr 1
      omega

/-- The byte at a place of a match. -/
theorem mem_of_match {needle s : Bytes} {i k : ℕ} (h : needle <+: s.drop i) (hk : k < needle.length) :
    ∃ hk' : i + k < s.length, s[i + k] = needle[k] := by
  obtain ⟨rest, hrest⟩ := h
  have hlen := congrArg List.length hrest
  rw [List.length_append, List.length_drop] at hlen
  refine ⟨by omega, ?_⟩
  have hget : (s.drop i)[k]? = needle[k]? := by rw [← hrest, List.getElem?_append_left hk]
  rw [List.getElem?_drop, List.getElem?_eq_getElem (by omega), List.getElem?_eq_getElem hk] at hget
  exact Option.some.inj hget

/-- `'+'` -/
def plus : UInt8 := 43

/-- A spelling that ends with a plus ends inside the modifiers. -/
theorem match_end_plus {text name needle : Bytes} (hlast : needle.getLast? = some plus) (hname : plus ∉ name) {i : ℕ}
    (h : needle <+: (text ++ name).drop i) : i + needle.length ≤ text.length := by
  obtain ⟨body, rfl⟩ : ∃ body, needle = body ++ [plus] := by
    obtain ⟨body, hbody⟩ := List.getLast?_eq_some_iff.mp hlast
    exact ⟨body, hbody⟩
  have hlen : body.length < (body ++ [plus]).length := by simp
  obtain ⟨hlt, hget⟩ := mem_of_match h hlen
  rw [List.getElem_append_right (Nat.le_refl _)] at hget
  simp only [Nat.sub_self, List.getElem_singleton] at hget
  by_contra hle
  rw [List.length_append, List.length_singleton] at hle
  rw [List.getElem_append_right (by omega)] at hget
  exact hname (hget ▸ List.getElem_mem _)

/-- A spelling without a plus does not begin in the modifiers, which end with one, and end behind them. -/
theorem match_end_old {text name needle : Bytes} (htext : text = [] ∨ text.getLast? = some plus)
    (hneedle : plus ∉ needle) (hname : ∀ i, ¬ needle <+: name.drop i) {i : ℕ}
    (h : needle <+: (text ++ name).drop i) : i + needle.length ≤ text.length := by
  by_contra hle
  by_cases hi : text.length ≤ i
  · rw [List.drop_append, List.drop_eq_nil_of_le hi, List.nil_append] at h
    exact hname _ h
  · rcases htext with rfl | hlast
    · exact hi (Nat.zero_le i)
    · obtain ⟨body, rfl⟩ := List.getLast?_eq_some_iff.mp hlast
      rw [List.length_append, List.length_singleton] at hle hi
      have hk : body.length - i < needle.length := by omega
      obtain ⟨hlt, hget⟩ := mem_of_match h hk
      have hplace : i + (body.length - i) = body.length := by omega
      simp only [hplace] at hget
      rw [List.getElem_append_left (by simp), List.getElem_append_right (Nat.le_refl _)] at hget
      simp only [Nat.sub_self, List.getElem_singleton] at hget
      exact hneedle (hget ▸ List.getElem_mem _)

/-! ### Plain names -/

theorem noOldModifier_of_cons {a : UInt8} {s : Bytes} (h : noOldModifier (a :: s) = true) :
    noOldModifier s = true := by
  cases s with
  | nil => rfl
  | cons b s =>
    cases s with
    | nil => rfl
    | cons c s =>
      rw [noOldModifier, Bool.and_eq_true] at h
      exact h.2

theorem noOldModifier_drop {s : Bytes} (h : noOldModifier s = true) (i : ℕ) : noOldModifier (s.drop i) = true := by
  induction i generalizing s with
  | zero => exact h
  | succ i ih =>
    cases s with
    | nil => rfl
    | cons a s => exact ih (noOldModifier_of_cons h)

theorem noOldModifier_of_append {s t : Bytes} (h : noOldModifier (s ++ t) = true) : noOldModifier s = true := by
  induction s with
  | nil => rfl
  | cons a s ih =>
    have hs := ih (noOldModifier_of_cons h)
    cases s with
    | nil => rfl
    | cons b s =>
      cases s with
      | nil => rfl
      | cons c s =>
        rw [List.cons_append, List.cons_append, List.cons_append, noOldModifier, Bool.and_eq_true] at h
        rw [noOldModifier, h.1, hs]
        rfl

/-- None of the old spellings is in a plain name. -/
theorem not_prefix_drop {name needle : Bytes} (hname : noOldModifier name = true)
    (hneedle : noOldModifier needle = false) (i : ℕ) : ¬ needle <+: name.drop i := by
  rintro ⟨rest, hrest⟩
  have hdrop := noOldModifier_drop hname i
  rw [← hrest] at hdrop
  rw [noOldModifier_of_append hdrop] at hneedle
  cases hneedle

theorem nameChar_spec {c : UInt8} (h : nameChar c = true) : c ≠ plus ∧ isspace c = false := by
  have hall : ∀ n : Fin 256, nameChar (UInt8.ofNat n) = true →
      UInt8.ofNat n ≠ plus ∧ isspace (UInt8.ofNat n) = false := by decide +kernel
  have hn := hall ⟨c.toNat, c.toNat_lt⟩
  rw [UInt8.ofNat_toNat] at hn
  exact hn h

theorem plainName_spec {name : Bytes} (h : plainName name = true) :
    name ≠ [] ∧ plus ∉ name ∧ (∀ b ∈ name, isspace b = false) ∧ noOldModifier name = true := by
  rw [plainName, Bool.and_eq_true, Bool.and_eq_true, List.all_eq_true] at h
  obtain ⟨⟨hne, hchars⟩, hold⟩ := h
  refine ⟨?_, fun hmem => ?_, fun b hb => (nameChar_spec (hchars b hb)).2, hold⟩
  · simpa using hne
  · exact (nameChar_spec (hchars _ hmem)).1 rfl

/-- A spelling ends with a plus, or has none and is not in a plain name. -/
theorem parsedModifiers_spelling : ∀ modifier ∈ parsedModifiers, nameBytes modifier.1 ≠ [] ∧
    ((nameBytes modifier.1).getLast? = some plus ∨
      plus ∉ nameBytes modifier.1 ∧ noOldModifier (nameBytes modifier.1) = false) := by
  decide +kernel

/-- The texts of the modifiers that are written. -/
theorem writtenStates_texts : (writtenStates.all fun state =>
    checkModifiers (modifierText state) = (state, (modifierText state).length) ∧
      (modifierText state = [] ∨ (modifierText state).getLast? = some plus) ∧
        (modifierText state).any isspace = false) = true := by
  decide +kernel

/-- The modifiers of a text that is nothing else. -/
theorem checkModifiers_modifierText {state : KeyStates} (h : state &&& handledStates = state) :
    checkModifiers (modifierText state) = (state, (modifierText state).length) :=
  (of_decide_eq_true (List.all_eq_true.mp writtenStates_texts state (mem_writtenStates h))).1

/-- The modifiers that are written have no white space and end with a plus. -/
theorem modifierText_spelling {state : KeyStates} (h : state &&& handledStates = state) :
    (modifierText state = [] ∨ (modifierText state).getLast? = some plus) ∧
      ∀ b ∈ modifierText state, isspace b = false := by
  obtain ⟨-, hend, hspace⟩ := of_decide_eq_true (List.all_eq_true.mp writtenStates_texts state (mem_writtenStates h))
  exact ⟨hend, fun b hb => Bool.eq_false_iff.mpr (List.any_eq_false.mp hspace b hb)⟩

/-! ### What is written is read -/

/-- A plain name behind the modifiers changes nothing about them. -/
theorem checkModifiers_append {state : KeyStates} {name : Bytes} (hstate : state &&& handledStates = state)
    (hname : plainName name = true) :
    checkModifiers (modifierText state ++ name) = (state, (modifierText state).length) := by
  obtain ⟨-, hplus, -, hold⟩ := plainName_spec hname
  obtain ⟨htext, -⟩ := modifierText_spelling hstate
  rw [← checkModifiers_modifierText hstate]
  unfold checkModifiers
  refine List.foldl_ext _ _ _ fun s modifier hmodifier => ?_
  obtain ⟨hne, hend⟩ := parsedModifiers_spelling modifier hmodifier
  have hsearch : strstrFrom (modifierText state ++ name) (nameBytes modifier.1) 0 =
      strstrFrom (modifierText state) (nameBytes modifier.1) 0 := by
    apply strstrFrom_append hne
    intro i hmatch _
    rcases hend with hlast | ⟨hnoplus, hspelling⟩
    · exact match_end_plus hlast hplus hmatch
    · exact match_end_old htext hnoplus (not_prefix_drop hold hspelling) hmatch
  unfold checkModifier
  rw [hsearch]

/-- A key that `fcitx_key_to_string` writes as it is, but for the left tab. -/
def Written (key : Key) : Prop :=
  key.sym ≠ FcitxKey.none ∧ keysymToString key.sym ≠ none ∧ key.state &&& handledStates = key.state

theorem tabbed_state (key : Key) : (tabbed key).state = key.state := by
  unfold tabbed
  split <;> rfl

theorem Written.tabbed {key : Key} (h : Written key) : Written (tabbed key) := by
  obtain ⟨hsym, hname, hstate⟩ := h
  unfold Key.tabbed
  split
  · exact ⟨show tab ≠ FcitxKey.none by decide, keysymToString_fixed (by simp), hstate⟩
  · exact ⟨hsym, hname, hstate⟩

/-- **A key that is written is read again**, and its text is a token. -/
theorem parse_toText {key : Key} (h : Written key) : ∃ size text, toText key = some (size, text) ∧
    size = text.length + 1 ∧ text ≠ [] ∧ (∀ b ∈ text, isspace b = false) ∧ parse text = tabbed key := by
  obtain ⟨-, hname, hstate⟩ := h.tabbed
  obtain ⟨name, hname⟩ := Option.ne_none_iff_exists'.mp hname
  obtain ⟨hplain, hback⟩ := keysymToString_sound hname
  obtain ⟨hne, -, hspace, -⟩ := plainName_spec hplain
  refine ⟨modifierLength key.state + name.length + 1, modifierText (tabbed key).state ++ name, ?_, ?_, ?_, ?_, ?_⟩
  · rw [toText, if_neg h.1]
    dsimp only
    rw [hname, Option.map_some]
  · rw [modifierLength_eq, List.length_append, tabbed_state]
  · exact List.append_ne_nil_of_right_ne_nil _ hne
  · intro b hb
    rcases List.mem_append.mp hb with hb | hb
    · exact (modifierText_spelling hstate).2 b hb
    · exact hspace b hb
  · rw [parse, behindModifiers, checkModifiers_append hstate hplain, List.drop_left, hback]

/-- A key without a name is not written. -/
theorem toText_eq_none {key : Key} (h : ¬ (key.sym ≠ FcitxKey.none ∧ keysymToString key.sym ≠ none)) :
    toText key = none := by
  unfold toText
  by_cases hsym : key.sym = FcitxKey.none
  · rw [if_pos hsym]
  · have hname : keysymToString key.sym = none := by
      by_contra hname
      exact h ⟨hsym, hname⟩
    have htab : key.sym ≠ isoLeftTab := by
      intro heq
      rw [heq] at hname
      exact keysymToString_fixed (by simp) hname
    rw [if_neg hsym, tabbed, if_neg htab]
    dsimp only
    rw [hname, Option.map_none]

/-- The texts of keys are strings. -/
theorem zero_notMem_toText {key : Key} {size : ℕ} {text : Bytes} (h : toText key = some (size, text)) :
    0 ∉ text := by
  have hmodifiers : ∀ modifier ∈ printedModifiers, 0 ∉ nameBytes modifier.1 := by decide +kernel
  have hchar : nameChar 0 = false := by decide
  unfold toText at h
  split at h
  · exact absurd h.symm (Option.some_ne_none _)
  obtain ⟨name, hname, heq⟩ := Option.map_eq_some_iff.mp h
  obtain rfl := congrArg Prod.snd heq
  intro hmem
  rcases List.mem_append.mp hmem with hmem | hmem
  · obtain ⟨modifier, hmodifier, hzero⟩ := List.mem_flatMap.mp hmem
    split at hzero
    · exact hmodifiers modifier hmodifier hzero
    · exact absurd hzero List.not_mem_nil
  · have hplain := (keysymToString_sound hname).1
    rw [plainName, Bool.and_eq_true, Bool.and_eq_true, List.all_eq_true] at hplain
    rw [hplain.1.2 0 hmem] at hchar
    cases hchar

/-- **The joined texts** are what `fcitx_utils_string_list_join` writes, whatever its memory held. -/
theorem stringListJoin_texts (uninit : ℕ → UInt8) (keyList : List Key) :
    stringListJoin uninit (keyList.filterMap fun curKey => (toText curKey).map Prod.snd) 32 =
      some (listToString keyList) := by
  refine stringListJoin_eq uninit (fun text htext => ?_) (by decide)
  obtain ⟨key, -, hkey⟩ := List.mem_filterMap.mp htext
  obtain ⟨⟨size, text⟩, htoText, rfl⟩ := Option.map_eq_some_iff.mp hkey
  exact zero_notMem_toText htoText

/-- The keys that are written: all but those without a name. -/
def named (key : Key) : Bool := key.sym ≠ FcitxKey.none ∧ keysymToString key.sym ≠ none

theorem named_iff {key : Key} : named key = true ↔ key.sym ≠ FcitxKey.none ∧ keysymToString key.sym ≠ none :=
  decide_eq_true_iff

/-- The texts of the keys of a list. -/
theorem texts_eq {keyList : List Key} (h : ∀ key ∈ keyList, key.state &&& handledStates = key.state) :
    (∀ text ∈ keyList.filterMap fun curKey => (toText curKey).map Prod.snd,
        text ≠ [] ∧ ∀ b ∈ text, isspace b = false) ∧
      (keyList.filterMap fun curKey => (toText curKey).map Prod.snd).map parse =
        (keyList.filter named).map tabbed := by
  induction keyList with
  | nil => exact ⟨fun _ hmem => absurd hmem List.not_mem_nil, rfl⟩
  | cons key keyList ih =>
    obtain ⟨hstate, hrest⟩ := List.forall_mem_cons.mp h
    obtain ⟨htexts, hparse⟩ := ih hrest
    by_cases hkey : named key = true
    · obtain ⟨hsym, hname⟩ := named_iff.mp hkey
      obtain ⟨size, text, htext, -, hne, hspace, hback⟩ := parse_toText ⟨hsym, hname, hstate⟩
      rw [List.filterMap_cons, htext, List.filter_cons_of_pos hkey]
      refine ⟨List.forall_mem_cons.mpr ⟨⟨hne, hspace⟩, htexts⟩, ?_⟩
      show parse text :: _ = _
      rw [List.map_cons, hback, ← hparse]
    · have hnone := toText_eq_none fun hnamed => hkey (named_iff.mpr hnamed)
      rw [List.filterMap_cons, hnone, List.filter_cons_of_neg hkey]
      exact ⟨htexts, hparse⟩

/-- Reading what is written gives the keys with a name. -/
theorem listParse_text {keyList : List Key} (h : ∀ key ∈ keyList, key.state &&& handledStates = key.state) :
    listParse [] (listToString keyList) = (keyList.filter named).map tabbed := by
  obtain ⟨htexts, hparse⟩ := texts_eq h
  rw [listParse_eq, listToString, tokens_joinSpace htexts, hparse, List.nil_append]
  apply List.filter_eq_self.mpr
  intro key hkey
  obtain ⟨key', hkey', rfl⟩ := List.mem_map.mp hkey
  obtain ⟨hmem, hnamed⟩ := List.mem_filter.mp hkey'
  obtain ⟨hsym, hname⟩ := named_iff.mp hnamed
  have hwritten : Written key' := ⟨hsym, hname, h key' hmem⟩
  exact decide_eq_true hwritten.tabbed.1

/-- **A list of keys that are written** is read again, with Tab for the left tab. -/
theorem listParse_listToString (keyList : List Key) (h : ∀ key ∈ keyList, key.sym ≠ FcitxKey.none ∧
      keysymToString key.sym ≠ none ∧ key.state &&& handledStates = key.state) :
    listParse [] (listToString keyList) = keyList.map tabbed := by
  rw [listParse_text fun key hkey => (h key hkey).2.2]
  rw [List.filter_eq_self.mpr fun key hkey => named_iff.mpr ⟨(h key hkey).1, (h key hkey).2.1⟩]

theorem listParse_listToString_tab :
    listParse [] (listToString [⟨0x61, FcitxKeyState.ctrl ||| FcitxKeyState.super⟩, ⟨isoLeftTab, 0⟩]) =
      [⟨0x61, FcitxKeyState.ctrl ||| FcitxKeyState.super⟩, ⟨tab, 0⟩] := by
  have ha : keysymToString 0x61 ≠ none := keysymToString_fixed (by simp)
  have htab : keysymToString isoLeftTab ≠ none := keysymToString_fixed (by simp)
  refine listParse_listToString _ fun key hkey => ?_
  simp only [List.mem_cons, List.not_mem_nil, or_false] at hkey
  rcases hkey with rfl | rfl
  · exact ⟨by decide, ha, by decide⟩
  · exact ⟨by decide, htab, by decide⟩

/-- The key None has a name, and is not written. -/
theorem not_listParse_listToString :
    ¬ ∀ keyList : List Key, (∀ key ∈ keyList,
        keysymToString key.sym ≠ none ∧ key.state &&& handledStates = key.state) →
      listParse [] (listToString keyList) = keyList.map tabbed := by
  intro h
  have hnone : keysymToString FcitxKey.none ≠ none := keysymToString_fixed (by simp)
  have hlist := h [⟨FcitxKey.none, 0⟩] fun key hkey => by
    rw [List.mem_singleton.mp hkey]
    exact ⟨hnone, by decide⟩
  rw [listParse_text fun key hkey => by rw [List.mem_singleton.mp hkey]; decide] at hlist
  have hnot : ¬ named ⟨FcitxKey.none, 0⟩ = true := fun hnamed => (named_iff.mp hnamed).1 rfl
  rw [List.filter_cons_of_neg hnot] at hlist
  cases hlist

/-! ### Keys that are read -/

theorem handled_checkModifier {keyString : Bytes} {s : KeyStates × ℕ} {modifier : String × KeyStates}
    (hmodifier : modifier ∈ parsedModifiers) (hs : s.1 &&& handledStates = s.1) :
    (checkModifier keyString s modifier).1 &&& handledStates = (checkModifier keyString s modifier).1 := by
  have hall : ∀ modifier ∈ parsedModifiers, modifier.2 &&& handledStates = modifier.2 := by decide
  unfold checkModifier
  split
  · exact hs
  · show (s.1 ||| modifier.2) &&& handledStates = s.1 ||| modifier.2
    rw [UInt32.and_comm, and_or_distrib, UInt32.and_comm, hs, UInt32.and_comm, hall modifier hmodifier]

/-- The state of a key that is read is one that is written. -/
theorem handled_parse (keyString : Bytes) : (parse keyString).state &&& handledStates = (parse keyString).state := by
  have hfold : ∀ modifiers : List (String × KeyStates), (∀ modifier ∈ modifiers, modifier ∈ parsedModifiers) →
      ∀ s : KeyStates × ℕ, s.1 &&& handledStates = s.1 →
        (modifiers.foldl (checkModifier keyString) s).1 &&& handledStates =
          (modifiers.foldl (checkModifier keyString) s).1 := by
    intro modifiers
    induction modifiers with
    | nil => exact fun _ _ hs => hs
    | cons modifier modifiers ih =>
      intro hmodifiers s hs
      obtain ⟨hmodifier, hrest⟩ := List.forall_mem_cons.mp hmodifiers
      exact ih hrest _ (handled_checkModifier hmodifier hs)
  exact hfold parsedModifiers (fun _ h => h) (0, 0) rfl

/-- **A text is kept** exactly when no token is a character without a name. -/
theorem listParse_stored_iff (t : Bytes) :
    listParse [] (listToString (listParse [] t)) = (listParse [] t).map tabbed ↔
      ∀ token ∈ tokens t, ¬ Nameless (behindModifiers token) := by
  have hlist := listParse_eq [] t
  rw [List.nil_append] at hlist
  have hstates : ∀ key ∈ listParse [] t, key.state &&& handledStates = key.state := by
    intro key hkey
    rw [hlist] at hkey
    obtain ⟨token, -, rfl⟩ := List.mem_map.mp (List.mem_filter.mp hkey).1
    exact handled_parse token
  rw [listParse_text hstates]
  constructor
  · intro heq token htoken hnameless
    have hname : keysymToString (parse token).sym = none :=
      (keysymToString_fromString_eq_none_iff (behindModifiers token)).mpr hnameless
    have hmem : parse token ∈ listParse [] t := by
      rw [hlist]
      refine List.mem_filter.mpr ⟨List.mem_map_of_mem htoken, decide_eq_true fun hsym => ?_⟩
      rw [hsym] at hname
      exact keysymToString_fixed (by simp) hname
    have hlength := congrArg List.length heq
    rw [List.length_map, List.length_map] at hlength
    exact (named_iff.mp (List.length_filter_eq_length_iff.mp hlength _ hmem)).2 hname
  · intro hnamed
    congr 1
    apply List.filter_eq_self.mpr
    intro key hkey
    rw [hlist] at hkey
    obtain ⟨hmem, hsym⟩ := List.mem_filter.mp hkey
    obtain ⟨token, htoken, rfl⟩ := List.mem_map.mp hmem
    refine named_iff.mpr ⟨of_decide_eq_true hsym, fun hname => ?_⟩
    exact hnamed token htoken ((keysymToString_fromString_eq_none_iff _).mp hname)

/-- A character without a name is read, but not written. -/
theorem not_listParse_stored :
    ¬ ∀ t : Bytes, Utf8.checkString t = true →
      listParse [] (listToString (listParse [] t)) = (listParse [] t).map tabbed := by
  intro h
  have hread : listParse [] [0xe4, 0xbd, 0xa0] = [⟨0x1004f60, 0⟩] := by decide +kernel
  have hnot : ¬ named ⟨0x1004f60, 0⟩ = true := by
    intro hnamed
    exact (named_iff.mp hnamed).2 (keysymToString_eq_none_iff.mpr (by decide +kernel))
  have hstored := h [0xe4, 0xbd, 0xa0] (by decide +kernel)
  rw [hread, listParse_text (by decide), List.filter_cons_of_neg hnot] at hstored
  cases hstored

end Key
end Fcitx
