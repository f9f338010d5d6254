/-
# Keys and hotkeys

`fcitx-utils/key.c`: the classes of a key, the normal form a key event is given
before it is dispatched, and the check of a key against a list of hotkeys. The
check ignores the lock bits of the state; the normal form does not, as it
compares the whole state with the one bit of Shift.

Key definitions: `Key.normalize`, `Key.check`, `Key.listCheck`, `Key.LocksIgnored`.
Key theorems: `Key.check_eq_of_handled`, `Key.handled_normalize`, `Key.listCheck_normalize_iff`.
-/
import Fcitx.Event
import Fcitx.Utils.KeyData

namespace Fcitx
namespace Key

open FcitxKey

/-! ### The classes of a key -/

/-- `fcitx_key_is_uaz` -/
def isUaz (key : Key) : Bool :=
  if key.state ≠ 0 then false else upperA ≤ key.sym ∧ key.sym ≤ upperZ

/-- `fcitx_key_is_laz` -/
def isLaz (key : Key) : Bool :=
  if key.state ≠ 0 then false else lowerA ≤ key.sym ∧ key.sym ≤ lowerZ

/-- `fcitx_key_is_simple` -/
def isSimple (key : Key) : Bool :=
  if key.state ≠ 0 then false else space ≤ key.sym ∧ key.sym ≤ asciitilde

/-- `fcitx_key_is_modifier` -/
def isModifier (key : Key) : Bool :=
  key.sym ∈ [controlL, controlR, altL, altR, superL, superR, hyperL, hyperR, shiftL, shiftR]

/-- `fcitx_keysym_to_state` -/
def keysymToState (sym : KeySym) : KeyStates :=
  if sym = controlL ∨ sym = controlR then FcitxKeyState.ctrl
  else if sym = altL ∨ sym = altR then FcitxKeyState.alt
  else if sym = shiftL ∨ sym = shiftR then FcitxKeyState.shift
  else if sym = superL ∨ sym = superR then FcitxKeyState.super
  else if sym = hyperL ∨ sym = hyperR then FcitxKeyState.hyper
  else 0

/-- The binary search of `fcitx_keysym_to_unicode`; each round halves the range,
so that as many rounds as the table has rows are enough. -/
def keysymSearch (keyval : KeySym) : ℕ → ℤ → ℤ → UInt32
  | 0, _, _ => 0
  | rounds + 1, min, max =>
    if max < min then 0
    else
      let mid := (min + max) / 2
      let row := gdkKeysymToUnicodeTab.getD mid.toNat (0, 0)
      if row.1.toUInt32 < keyval then keysymSearch keyval rounds (mid + 1) max
      else if row.1.toUInt32 > keyval then keysymSearch keyval rounds min (mid - 1)
      else row.2.toUInt32

/-- `fcitx_keysym_to_unicode` -/
def keysymToUnicode (keyval : KeySym) : UInt32 :=
  if (0x0020 ≤ keyval ∧ keyval ≤ 0x007e) ∨ (0x00a0 ≤ keyval ∧ keyval ≤ 0x00ff) then keyval
  else if keyval &&& 0xff000000 = 0x01000000 then keyval &&& 0x00ffffff
  else
    keysymSearch keyval (gdkKeysymToUnicodeTab.size + 1) 0 (gdkKeysymToUnicodeTab.size - 1)

/-! ### Normal form -/

/-- Whether Shift is part of the keysym of a key that is no letter. -/
def shiftInSym (sym : KeySym) : Bool :=
  ((isSimple ⟨sym, 0⟩ ∨ keysymToUnicode sym ≠ 0) ∧ sym ≠ space ∧ sym ≠ returnKey) ∨
    (kp0 ≤ sym ∧ sym ≤ kp9)

/-- The part of `fcitx_key_normalize` for a state that is not 0. -/
def normalizeState (key : Key) : Key :=
  let key :=
    if key.state ≠ FcitxKeyState.shift ∧ isLaz ⟨key.sym, 0⟩ then
      { key with sym := key.sym + upperA - lowerA }
    else key
  if isLaz ⟨key.sym, 0⟩ ∨ isUaz ⟨key.sym, 0⟩ then
    if key.state = FcitxKeyState.shift then { key with state := key.state &&& ~~~FcitxKeyState.shift }
    else key
  else if key.state &&& FcitxKeyState.shift ≠ 0 ∧ shiftInSym key.sym then
    { key with state := key.state &&& ~~~FcitxKeyState.shift }
  else key

/-- `fcitx_key_normalize` -/
def normalize (key : Key) : Key :=
  let key := if key.state ≠ 0 then normalizeState key else key
  if key.sym = isoLeftTab then { key with sym := tab } else key

/-! ### Hotkeys -/

/-- The bits of a state that a hotkey can have. -/
def handledStates : KeyStates := FcitxKeyState.ctrlAltShift ||| FcitxKeyState.super

/-- `fcitx_key_check` -/
def check (toCheck key : Key) : Bool :=
  if isModifier key then
    let state := key.state &&& ~~~keysymToState key.sym
    -- the bit is taken from the state, not from the keysym
    let alt := key.state ||| keysymToState state
    (toCheck.sym = key.sym ∧ toCheck.state = state) ∨ (toCheck.sym = key.sym ∧ toCheck.state = alt)
  else toCheck.sym = key.sym ∧ toCheck.state &&& handledStates = key.state

/-- `fcitx_key_list_check` -/
def listCheck (keyList : List Key) (key : Key) : Bool := keyList.any fun curKey => check key curKey

/-! ### Lock bits -/

/-- The bits of CapsLock, NumLock and ScrollLock. -/
def lockStates : KeyStates := FcitxKeyState.capsLock ||| FcitxKeyState.numLock ||| FcitxKeyState.scrollLock

/-- The two states `s₁` and `s₂` of a keysym differ in no way that the normal form sees: they
are one state, or the key is no letter, or neither state is the one of Shift alone and, for a small
letter, neither is empty. -/
def LocksIgnored (sym : KeySym) (s₁ s₂ : KeyStates) : Prop :=
  s₁ = s₂ ∨
    (isLaz ⟨sym, 0⟩ = true → s₁ ≠ 0 ∧ s₂ ≠ 0 ∧ s₁ ≠ FcitxKeyState.shift ∧ s₂ ≠ FcitxKeyState.shift) ∧
      (isUaz ⟨sym, 0⟩ = true → s₁ ≠ FcitxKeyState.shift ∧ s₂ ≠ FcitxKeyState.shift)

/-- What the check reads of a key. -/
def handled (key : Key) : Key := { key with state := key.state &&& handledStates }

/-- A mask without lock bits does not see them. -/
theorem and_eq_of_locks {s₁ s₂ mask : KeyStates} (hm : mask &&& ~~~lockStates = mask)
    (h : s₁ &&& ~~~lockStates = s₂ &&& ~~~lockStates) : s₁ &&& mask = s₂ &&& mask := by
  rw [← hm, UInt32.and_comm mask, ← UInt32.and_assoc, ← UInt32.and_assoc, h]

theorem check_of_not_modifier {k : Key} (hk : isModifier k = false) (key : Key) :
    check key k = decide (handled key = k) := by
  obtain ⟨sym, state⟩ := k
  simp [check, hk, handled]

/-- Keys that agree in what the check reads pass the same lists. -/
theorem listCheck_eq_of_handled {k₁ k₂ : Key} (h : handled k₁ = handled k₂) {keyList : List Key}
    (hl : ∀ k ∈ keyList, isModifier k = false) : listCheck keyList k₁ = listCheck keyList k₂ := by
  unfold listCheck
  rw [Bool.eq_iff_iff, List.any_eq_true, List.any_eq_true]
  have hk : ∀ k ∈ keyList, check k₁ k = check k₂ k := by
    intro k hk
    rw [check_of_not_modifier (hl k hk), check_of_not_modifier (hl k hk), h]
  constructor
  · rintro ⟨k, hmem, hc⟩
    exact ⟨k, hmem, hk k hmem ▸ hc⟩
  · rintro ⟨k, hmem, hc⟩
    exact ⟨k, hmem, (hk k hmem).symm ▸ hc⟩

/-- The list of one hotkey tells two keys apart. -/
theorem handled_eq_of_listCheck {k₁ k₂ : Key} (hm : isModifier k₁ = false)
    (h : ∀ keyList : List Key, (∀ k ∈ keyList, isModifier k = false) →
      listCheck keyList k₁ = listCheck keyList k₂) : handled k₂ = handled k₁ := by
  have hm' : isModifier (handled k₁) = false := hm
  have hone := h [handled k₁] (by simpa using hm')
  simpa [listCheck, check_of_not_modifier hm'] using hone

section normal

variable {sym : KeySym} {s₁ s₂ state : KeyStates}

theorem isLaz_iff : isLaz ⟨sym, 0⟩ = true ↔ lowerA ≤ sym ∧ sym ≤ lowerZ := by
  simp [isLaz]

theorem isUaz_iff : isUaz ⟨sym, 0⟩ = true ↔ upperA ≤ sym ∧ sym ≤ upperZ := by
  simp [isUaz]

/-- The capital letter of a small one. -/
theorem isUaz_upper (h : isLaz ⟨sym, 0⟩ = true) :
    isUaz ⟨sym + upperA - lowerA, 0⟩ = true ∧ isLaz ⟨sym + upperA - lowerA, 0⟩ = false ∧
      sym + upperA - lowerA ≠ sym := by
  obtain ⟨hlo, hhi⟩ := isLaz_iff.mp h
  have hlo' : 97 ≤ sym.toNat := UInt32.le_iff_toNat_le.mp hlo
  have hhi' : sym.toNat ≤ 122 := UInt32.le_iff_toNat_le.mp hhi
  have hval : (sym + upperA - lowerA).toNat = sym.toNat - 32 := by
    rw [UInt32.toNat_sub, UInt32.toNat_add]
    show (2 ^ 32 - 97 + (sym.toNat + 65) % 2 ^ 32) % 2 ^ 32 = _
    omega
  refine ⟨isUaz_iff.mpr ⟨?_, ?_⟩, ?_, fun e => ?_⟩
  · rw [UInt32.le_iff_toNat_le, hval]
    show 65 ≤ _
    omega
  · rw [UInt32.le_iff_toNat_le, hval]
    show _ ≤ 90
    omega
  · rw [← Bool.not_eq_true, isLaz_iff, UInt32.le_iff_toNat_le, hval]
    show ¬ (97 ≤ _ ∧ _)
    omega
  · rw [e] at hval
    omega

/-- Letters are not the left tab. -/
theorem ne_isoLeftTab (h : isLaz ⟨sym, 0⟩ = true ∨ isUaz ⟨sym, 0⟩ = true) : sym ≠ isoLeftTab := by
  rintro rfl
  rcases h with h | h
  · exact absurd h (by decide)
  · exact absurd h (by decide)

theorem isLaz_of_isUaz (h : isUaz ⟨sym, 0⟩ = true) : isLaz ⟨sym, 0⟩ = false := by
  rw [← Bool.not_eq_true, isLaz_iff]
  intro hl
  have hhi := (isUaz_iff.mp h).2
  exact absurd (UInt32.le_trans hl.1 hhi) (by decide)

theorem and_or_distrib (a b c : UInt32) : a &&& (b ||| c) = a &&& b ||| a &&& c :=
  UInt32.toBitVec_inj.mp BitVec.and_or_distrib_left

/-- The normal form of a capital letter. -/
theorem normalize_uaz (h : isUaz ⟨sym, 0⟩ = true) (state : KeyStates) :
    normalize ⟨sym, state⟩ = if state = FcitxKeyState.shift then ⟨sym, 0⟩ else ⟨sym, state⟩ := by
  have hl := isLaz_of_isUaz h
  have htab := ne_isoLeftTab (Or.inr h)
  by_cases hempty : state = 0
  · subst hempty
    simp [normalize, htab, FcitxKeyState.shift]
  · by_cases hshift : state = FcitxKeyState.shift
    · simp [normalize, normalizeState, hshift, h, htab, FcitxKeyState.shift]
    · simp [normalize, normalizeState, hempty, hshift, h, hl, htab]

/-- The normal form of a small letter. -/
theorem normalize_laz (h : isLaz ⟨sym, 0⟩ = true) (state : KeyStates) :
    normalize ⟨sym, state⟩ =
      if state = 0 ∨ state = FcitxKeyState.shift then ⟨sym, 0⟩ else ⟨sym + upperA - lowerA, state⟩ := by
  obtain ⟨hu, hl, -⟩ := isUaz_upper h
  have htab := ne_isoLeftTab (Or.inl h)
  have htab' := ne_isoLeftTab (Or.inr hu)
  by_cases hempty : state = 0
  · subst hempty
    simp [normalize, htab]
  · by_cases hshift : state = FcitxKeyState.shift
    · simp [normalize, normalizeState, hshift, h, htab, FcitxKeyState.shift]
    · simp [normalize, normalizeState, hempty, hshift, h, hu, htab']

/-- The normal form of other keys. -/
theorem normalize_other (hl : isLaz ⟨sym, 0⟩ = false) (hu : isUaz ⟨sym, 0⟩ = false) (state : KeyStates) :
    normalize ⟨sym, state⟩ =
      ⟨if sym = isoLeftTab then tab else sym,
        if state &&& FcitxKeyState.shift ≠ 0 ∧ shiftInSym sym then state &&& ~~~FcitxKeyState.shift
        else state⟩ := by
  have hnormal : normalizeState ⟨sym, state⟩ =
      if state &&& FcitxKeyState.shift ≠ 0 ∧ shiftInSym sym then
        ⟨sym, state &&& ~~~FcitxKeyState.shift⟩
      else ⟨sym, state⟩ := by
    simp [normalizeState, hl, hu]
  by_cases hempty : state = 0
  · subst hempty
    by_cases htab : sym = isoLeftTab
    · simp [normalize, htab]
    · simp [normalize, htab]
  · rw [normalize, if_pos hempty, hnormal]
    by_cases hshift : state &&& FcitxKeyState.shift ≠ 0 ∧ shiftInSym sym
    · rw [if_pos hshift, if_pos hshift]
      by_cases htab : sym = isoLeftTab
      · simp [htab]
      · simp [htab]
    · rw [if_neg hshift, if_neg hshift]
      by_cases htab : sym = isoLeftTab
      · simp [htab]
      · simp [htab]

/-- What the check reads of the normal forms. -/
theorem handled_normalize_uaz (h : isUaz ⟨sym, 0⟩ = true) (state : KeyStates) :
    handled (normalize ⟨sym, state⟩) =
      if state = FcitxKeyState.shift then ⟨sym, 0⟩ else ⟨sym, state &&& handledStates⟩ := by
  rw [normalize_uaz h]
  split <;> simp [handled]

theorem handled_normalize_laz (h : isLaz ⟨sym, 0⟩ = true) (state : KeyStates) :
    handled (normalize ⟨sym, state⟩) =
      if state = 0 ∨ state = FcitxKeyState.shift then ⟨sym, 0⟩
      else ⟨sym + upperA - lowerA, state &&& handledStates⟩ := by
  rw [normalize_laz h]
  split <;> simp [handled]

theorem handled_normalize_other (hl : isLaz ⟨sym, 0⟩ = false) (hu : isUaz ⟨sym, 0⟩ = false)
    (state : KeyStates) :
    handled (normalize ⟨sym, state⟩) =
      ⟨if sym = isoLeftTab then tab else sym,
        if state &&& FcitxKeyState.shift ≠ 0 ∧ shiftInSym sym then
          (state &&& handledStates) &&& ~~~FcitxKeyState.shift
        else state &&& handledStates⟩ := by
  have hswap : state &&& ~~~FcitxKeyState.shift &&& handledStates =
      state &&& handledStates &&& ~~~FcitxKeyState.shift := by
    rw [UInt32.and_assoc, UInt32.and_comm (~~~FcitxKeyState.shift), ← UInt32.and_assoc]
  rw [normalize_other hl hu, handled]
  by_cases hshift : state &&& FcitxKeyState.shift ≠ 0 ∧ shiftInSym sym
  · simp only [if_pos hshift, hswap]
  · simp only [if_neg hshift]

/-- Letters are no modifiers. -/
theorem isModifier_of_handled {key : Key} (hsym : isLaz ⟨key.sym, 0⟩ = true ∨ isUaz ⟨key.sym, 0⟩ = true) :
    isModifier key = false := by
  obtain ⟨sym, state⟩ := key
  have hle : sym ≤ lowerZ := by
    rcases hsym with h | h
    · exact (isLaz_iff.mp h).2
    · exact UInt32.le_trans (isUaz_iff.mp h).2 (by decide)
  have hne : ∀ m : KeySym, lowerZ < m → sym ≠ m := by
    rintro m hm rfl
    exact absurd (UInt32.lt_of_lt_of_le hm hle) (UInt32.lt_irrefl _)
  simp [isModifier, hne _ (show lowerZ < controlL by decide), hne _ (show lowerZ < controlR by decide),
    hne _ (show lowerZ < altL by decide), hne _ (show lowerZ < altR by decide),
    hne _ (show lowerZ < superL by decide), hne _ (show lowerZ < superR by decide),
    hne _ (show lowerZ < hyperL by decide), hne _ (show lowerZ < hyperR by decide),
    hne _ (show lowerZ < shiftL by decide), hne _ (show lowerZ < shiftR by decide)]

/-- The normal form of a letter is one. -/
theorem isModifier_normalize (hsym : isLaz ⟨sym, 0⟩ = true ∨ isUaz ⟨sym, 0⟩ = true) (state : KeyStates) :
    isModifier (normalize ⟨sym, state⟩) = false := by
  have hletter : ∀ key : Key, isLaz ⟨(handled key).sym, 0⟩ = true ∨ isUaz ⟨(handled key).sym, 0⟩ = true →
      isModifier key = false := fun key hkey => isModifier_of_handled hkey
  apply hletter
  rcases hsym with h | h
  · rw [handled_normalize_laz h]
    split
    · exact Or.inl h
    · exact Or.inr (isUaz_upper h).1
  · rw [handled_normalize_uaz h]
    split
    · exact Or.inr h
    · exact Or.inr h

/-- What the check reads of the two normal forms agrees exactly when the locks are ignored. -/
theorem handled_normalize_iff (h : s₁ &&& ~~~lockStates = s₂ &&& ~~~lockStates) :
    handled (normalize ⟨sym, s₁⟩) = handled (normalize ⟨sym, s₂⟩) ↔ LocksIgnored sym s₁ s₂ := by
  have hand : s₁ &&& handledStates = s₂ &&& handledStates := and_eq_of_locks (by decide) h
  have hshift : s₁ &&& FcitxKeyState.shift = s₂ &&& FcitxKeyState.shift := and_eq_of_locks (by decide) h
  cases hl : isLaz ⟨sym, 0⟩ with
  | true =>
    have hu : isUaz ⟨sym, 0⟩ = false := by
      cases hu : isUaz ⟨sym, 0⟩ with
      | false => rfl
      | true => exact absurd (isLaz_of_isUaz hu) (by simp [hl])
    obtain ⟨-, -, hne⟩ := isUaz_upper hl
    rw [handled_normalize_laz hl, handled_normalize_laz hl, hand, LocksIgnored, hl, hu]
    by_cases h₁ : s₁ = 0 ∨ s₁ = FcitxKeyState.shift
    · by_cases h₂ : s₂ = 0 ∨ s₂ = FcitxKeyState.shift
      · have heq : s₁ = s₂ := by
          rcases h₁ with rfl | rfl <;> rcases h₂ with rfl | rfl
          · rfl
          · exact absurd h (by decide)
          · exact absurd h (by decide)
          · rfl
        simp [heq]
      · have hdiff : s₁ ≠ s₂ := fun e => h₂ (e ▸ h₁)
        rw [if_pos h₁, if_neg h₂]
        rcases h₁ with rfl | rfl
        · simp [hdiff, Ne.symm hne]
        · simp [hdiff, Ne.symm hne]
    · rw [if_neg h₁]
      rw [not_or] at h₁
      by_cases h₂ : s₂ = 0 ∨ s₂ = FcitxKeyState.shift
      · have hdiff : s₁ ≠ s₂ := by
          rintro rfl
          exact h₂.elim h₁.1 h₁.2
        rw [if_pos h₂]
        rcases h₂ with rfl | rfl
        · simp [hdiff, hne]
        · simp [hdiff, hne]
      · rw [if_neg h₂]
        rw [not_or] at h₂
        simp [h₁.1, h₁.2, h₂.1, h₂.2]
  | false =>
    cases hu : isUaz ⟨sym, 0⟩ with
    | true =>
      rw [handled_normalize_uaz hu, handled_normalize_uaz hu, LocksIgnored, hl, hu]
      have hkeep : FcitxKeyState.shift &&& handledStates ≠ 0 := by decide
      by_cases h₁ : s₁ = FcitxKeyState.shift
      · by_cases h₂ : s₂ = FcitxKeyState.shift
        · simp [h₁, h₂]
        · have hdiff : FcitxKeyState.shift ≠ s₂ := fun e => h₂ e.symm
          rw [if_pos h₁, if_neg h₂, ← hand, h₁]
          simp [hdiff, Ne.symm hkeep]
      · by_cases h₂ : s₂ = FcitxKeyState.shift
        · rw [if_neg h₁, if_pos h₂, hand, h₂]
          simp [h₁, hkeep]
        · simp [h₁, h₂, hand]
    | false =>
      rw [handled_normalize_other hl hu, handled_normalize_other hl hu, hand, hshift, LocksIgnored,
        hl, hu]
      simp

/-- **Lock bits and hotkeys.** Two key events of one keysym whose states differ in the lock bits
only get the same answer from every list without modifier hotkeys exactly when the normal
form does not see the difference. -/
theorem listCheck_normalize_iff (sym : KeySym) (s₁ s₂ : KeyStates)
    (h : s₁ &&& ~~~lockStates = s₂ &&& ~~~lockStates) :
    (∀ keyList : List Key, (∀ k ∈ keyList, isModifier k = false) →
      listCheck keyList (normalize ⟨sym, s₁⟩) = listCheck keyList (normalize ⟨sym, s₂⟩)) ↔
      LocksIgnored sym s₁ s₂ := by
  rw [← handled_normalize_iff h]
  constructor
  · intro hsame
    by_cases hletter : isLaz ⟨sym, 0⟩ = true ∨ isUaz ⟨sym, 0⟩ = true
    · exact (handled_eq_of_listCheck (isModifier_normalize hletter s₁) hsame).symm
    · -- other keys do not need a list
      rw [not_or, Bool.not_eq_true, Bool.not_eq_true] at hletter
      rw [handled_normalize_iff h, LocksIgnored, hletter.1, hletter.2]
      simp
  · intro heq keyList hl
    exact listCheck_eq_of_handled heq hl

/-- CapsLock does not change a comma, with or without Shift. -/
theorem listCheck_normalize_iff_comma :
    (1 : KeyStates) &&& ~~~lockStates = 3 &&& ~~~lockStates ∧
      ∀ keyList : List Key, (∀ k ∈ keyList, isModifier k = false) →
        listCheck keyList (normalize ⟨0x2c, 1⟩) = listCheck keyList (normalize ⟨0x2c, 3⟩) :=
  ⟨by decide, (listCheck_normalize_iff 0x2c 1 3 (by decide)).mpr (Or.inr ⟨by decide, by decide⟩)⟩

/-- With NumLock a small letter is no hotkey. -/
theorem numLock_changes_lowerA :
    (0 : KeyStates) &&& ~~~lockStates = FcitxKeyState.numLock &&& ~~~lockStates ∧
      ¬ ∀ keyList : List Key, (∀ k ∈ keyList, isModifier k = false) →
        listCheck keyList (normalize ⟨lowerA, 0⟩) =
          listCheck keyList (normalize ⟨lowerA, FcitxKeyState.numLock⟩) := by
  refine ⟨by decide, fun h => ?_⟩
  exact absurd (h [⟨lowerA, 0⟩] (by decide)) (by decide)

end normal

end Key
end Fcitx
