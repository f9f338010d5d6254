/-
# Modifier hotkeys, and the normal form of the normal form

Two facts about one key that `fcitx-utils/key.c` leaves to its callers. A hotkey
that is itself a modifier is checked in two variants, without its own bit and
with it, and the second variant looks the bit up with the state in place of the
keysym. And `fcitx_key_normalize` turns the left tab into the tab after it has
decided about Shift, which the tab would have lost.

Key definitions: `Key.MatchesModifier`, `Key.OwnBit`.
Key theorems: `Key.check_modifier_iff`, `Key.normalize_idempotent`.
-/
import Fcitx.Utils.Key
import Mathlib.Data.Nat.Bitwise

namespace Fcitx
namespace Key

open FcitxKey

/-! ### Modifier hotkeys -/

/-- The press or the release of the key of a modifier hotkey: the bit of the keysym is not set
yet, or it is set. -/
def MatchesModifier (toCheck key : Key) : Prop :=
  toCheck.sym = key.sym ∧
    (toCheck.state = key.state &&& ~~~keysymToState key.sym ∨
      toCheck.state = key.state ||| keysymToState key.sym)

/-- The variant with the bit comes out right: the state has the bit, and the rest of it is not the
number of a modifier whose bit it does not have; or the state has not the bit, and is the
number of a key of the same modifier. -/
def OwnBit (key : Key) : Prop :=
  (key.state &&& keysymToState key.sym ≠ 0 ∧
    keysymToState (key.state &&& ~~~keysymToState key.sym) &&& ~~~key.state = 0) ∨
  (key.state &&& keysymToState key.sym = 0 ∧ keysymToState key.state = keysymToState key.sym)

instance ownBitDecidable (key : Key) : Decidable (OwnBit key) := inferInstanceAs (Decidable (_ ∨ _))

/-- The bits of the modifiers. -/
def modifierBits : List KeyStates :=
  [FcitxKeyState.ctrl, FcitxKeyState.alt, FcitxKeyState.shift, FcitxKeyState.super, FcitxKeyState.hyper]

theorem keysymToState_mem (sym : KeySym) : keysymToState sym = 0 ∨ keysymToState sym ∈ modifierBits := by
  unfold keysymToState
  split_ifs <;> simp [modifierBits]

/-- A modifier has a bit. -/
theorem keysymToState_of_isModifier {key : Key} (h : isModifier key = true) :
    keysymToState key.sym ∈ modifierBits := by
  have hall : ([controlL, controlR, altL, altR, superL, superR, hyperL, hyperR, shiftL, shiftR].all
      fun sym => keysymToState sym ∈ modifierBits) = true := by decide
  exact of_decide_eq_true (List.all_eq_true.mp hall key.sym (of_decide_eq_true h))

theorem or_and_absorb (a b : UInt32) : a ||| a &&& b = a := by
  apply UInt32.toNat_inj.mp
  rw [UInt32.toNat_or, UInt32.toNat_and]
  apply Nat.eq_of_testBit_eq
  intro i
  simp only [Nat.testBit_or, Nat.testBit_and]
  cases a.toNat.testBit i <;> rfl

/-- A state is made of the part under a mask and the rest. -/
theorem and_or_and_not (a mask : UInt32) : a &&& mask ||| a &&& ~~~mask = a := by
  rw [← and_or_distrib, UInt32.or_not_self, UInt32.and_neg_one]

theorem or_eq_left_iff (a b : UInt32) : a ||| b = a ↔ b &&& ~~~a = 0 := by
  constructor
  · intro h
    have hnot : ~~~a &&& (a ||| b) = ~~~a &&& a := by rw [h]
    rw [and_or_distrib, UInt32.not_and_self, UInt32.zero_or] at hnot
    rw [UInt32.and_comm]
    exact hnot
  · intro h
    have hb := and_or_and_not b a
    rw [h, UInt32.or_zero] at hb
    rw [← hb, UInt32.and_comm]
    exact or_and_absorb a b

/-- A state has a bit or not. -/
theorem and_bit {bit : KeyStates} (h : bit ∈ modifierBits) (state : KeyStates) :
    state &&& bit = 0 ∨ state &&& bit = bit := by
  obtain ⟨n, hn⟩ : ∃ n : ℕ, bit.toNat = 2 ^ n := by
    have hall : (modifierBits.all fun bit => ∃ n : Fin 32, bit.toNat = 2 ^ n.val) = true := by decide
    obtain ⟨n, hn⟩ := of_decide_eq_true (List.all_eq_true.mp hall bit h)
    exact ⟨n, hn⟩
  have hand : (state &&& bit).toNat = (state.toNat.testBit n).toNat * 2 ^ n := by
    rw [UInt32.toNat_and, hn, Nat.and_two_pow]
  cases hbit : state.toNat.testBit n with
  | false =>
    rw [hbit] at hand
    exact Or.inl (UInt32.toNat_inj.mp (by simpa using hand))
  | true =>
    rw [hbit] at hand
    exact Or.inr (UInt32.toNat_inj.mp (by simpa [hn] using hand))

/-- Two bits that meet are one. -/
theorem eq_of_and_bit {bit other : KeyStates} (h : bit ∈ modifierBits) (ho : other = 0 ∨ other ∈ modifierBits)
    (hand : bit &&& other = bit) : other = bit := by
  have hall : (modifierBits.all fun bit =>
      (0 :: modifierBits).all fun other => bit &&& other = bit → other = bit) = true := by decide
  have hother := List.all_eq_true.mp (List.all_eq_true.mp hall bit h) other (List.mem_cons.mpr ho)
  exact of_decide_eq_true hother hand

/-- The variant that is checked is the one with the bit. -/
theorem or_keysymToState_iff {key : Key} (h : isModifier key = true) :
    key.state ||| keysymToState (key.state &&& ~~~keysymToState key.sym) =
      key.state ||| keysymToState key.sym ↔ OwnBit key := by
  have hbit := keysymToState_of_isModifier h
  unfold OwnBit
  set bit := keysymToState key.sym with hbitdef
  have hne : bit ≠ 0 := by
    intro hzero
    rw [hzero] at hbit
    exact absurd hbit (by decide)
  rcases and_bit hbit key.state with hand | hand
  · -- the state is the rest
    have hrest : key.state &&& ~~~bit = key.state := by
      have hsplit := and_or_and_not key.state bit
      rw [hand, UInt32.zero_or] at hsplit
      exact hsplit
    have hmeet : ∀ other : KeyStates, bit &&& (key.state ||| other) = bit &&& other := by
      intro other
      rw [and_or_distrib, UInt32.and_comm bit key.state, hand, UInt32.zero_or]
    rw [hrest]
    simp only [hand, ne_eq, not_true_eq_false, false_and, true_and, false_or]
    constructor
    · intro heq
      apply eq_of_and_bit hbit (keysymToState_mem key.state)
      rw [← hmeet, heq, hmeet, UInt32.and_self]
    · intro heq
      rw [heq]
  · have hor : key.state ||| bit = key.state := by
      have habsorb := or_and_absorb key.state bit
      rw [hand] at habsorb
      exact habsorb
    have hset : key.state &&& bit ≠ 0 := by
      rw [hand]
      exact hne
    simp only [hor, hset, ne_eq, not_false_eq_true, true_and, false_and, or_false]
    exact or_eq_left_iff _ _

/-- The two variants differ. -/
theorem or_ne_and_not {bit : KeyStates} (h : bit ∈ modifierBits) (state : KeyStates) :
    state ||| bit ≠ state &&& ~~~bit := by
  intro heq
  have hset : bit &&& (state ||| bit) = bit := by
    rw [and_or_distrib, UInt32.and_self, UInt32.or_comm, or_and_absorb]
  have hclear : bit &&& (state &&& ~~~bit) = 0 := by
    rw [UInt32.and_comm state, ← UInt32.and_assoc, UInt32.and_not_self, UInt32.zero_and]
  rw [← hset, heq, hclear] at h
  exact absurd h (by decide)

/-- **Modifier hotkeys.** A hotkey whose keysym is a modifier matches just the press and the release of its key
exactly when its second variant comes out right. -/
theorem check_modifier_iff (key : Key) (h : isModifier key = true) :
    (∀ toCheck, check toCheck key = true ↔ MatchesModifier toCheck key) ↔ OwnBit key := by
  rw [← or_keysymToState_iff h]
  have hcheck : ∀ toCheck, check toCheck key = true ↔ toCheck.sym = key.sym ∧
      (toCheck.state = key.state &&& ~~~keysymToState key.sym ∨
        toCheck.state = key.state ||| keysymToState (key.state &&& ~~~keysymToState key.sym)) := by
    intro toCheck
    rw [check, if_pos h, decide_eq_true_eq, and_or_left]
  constructor
  · intro hall
    -- the release of the key
    have hrelease := (hall ⟨key.sym, key.state ||| keysymToState key.sym⟩).mpr ⟨rfl, Or.inr rfl⟩
    rcases ((hcheck _).mp hrelease).2 with heq | heq
    · exact absurd heq (or_ne_and_not (keysymToState_of_isModifier h) key.state)
    · exact heq.symm
  · intro heq toCheck
    rw [hcheck, heq]
    exact Iff.rfl

/-- `Control_L` with its own bit. -/
theorem check_modifier_iff_controlL :
    isModifier ⟨controlL, FcitxKeyState.ctrl⟩ = true ∧
      ∀ toCheck, check toCheck ⟨controlL, FcitxKeyState.ctrl⟩ = true ↔
        MatchesModifier toCheck ⟨controlL, FcitxKeyState.ctrl⟩ :=
  ⟨by decide, (check_modifier_iff ⟨controlL, FcitxKeyState.ctrl⟩ (by decide)).mpr (by decide)⟩

/-- The hotkey `Control_L` does not match the release of its key. -/
theorem not_check_release :
    ¬ ∀ key, isModifier key = true → ∀ toCheck, check toCheck key = true ↔ MatchesModifier toCheck key := by
  intro h
  have hrelease := (h ⟨controlL, 0⟩ (by decide) ⟨controlL, FcitxKeyState.ctrl⟩).mpr ⟨rfl, Or.inr (by decide)⟩
  exact absurd hrelease (by decide)

/-! ### The normal form -/

theorem and_not_and (a mask : UInt32) : a &&& ~~~mask &&& mask = 0 := by
  rw [UInt32.and_assoc, UInt32.not_and_self, UInt32.and_zero]

/-- The tab is no letter, and Shift is part of it. -/
theorem tab_class : isLaz ⟨tab, 0⟩ = false ∧ isUaz ⟨tab, 0⟩ = false ∧ shiftInSym tab = true :=
  ⟨by decide, by decide, by decide +kernel⟩

theorem isoLeftTab_class :
    isLaz ⟨isoLeftTab, 0⟩ = false ∧ isUaz ⟨isoLeftTab, 0⟩ = false ∧ shiftInSym isoLeftTab = false :=
  ⟨by decide, by decide, by decide +kernel⟩

/-- Normalising twice changes nothing more, except that the tab which the left tab was turned into
loses its Shift. -/
theorem normalize_normalize_iff (key : Key) :
    normalize (normalize key) = normalize key ↔
      ¬ (key.sym = isoLeftTab ∧ key.state &&& FcitxKeyState.shift ≠ 0) := by
  obtain ⟨sym, state⟩ := key
  dsimp only
  by_cases hl : isLaz ⟨sym, 0⟩ = true
  · have hne := ne_isoLeftTab (Or.inl hl)
    simp only [hne, false_and, not_false_eq_true, iff_true]
    rw [normalize_laz hl]
    split
    · rw [normalize_laz hl, if_pos (Or.inl rfl)]
    · next hstate => rw [normalize_uaz (isUaz_upper hl).1, if_neg fun h => hstate (Or.inr h)]
  by_cases hu : isUaz ⟨sym, 0⟩ = true
  · have hne := ne_isoLeftTab (Or.inr hu)
    simp only [hne, false_and, not_false_eq_true, iff_true]
    rw [normalize_uaz hu]
    split
    · rw [normalize_uaz hu, if_neg (by decide)]
    · next hstate => rw [normalize_uaz hu, if_neg hstate]
  rw [Bool.not_eq_true] at hl hu
  rw [normalize_other hl hu]
  by_cases htab : sym = isoLeftTab
  · -- the left tab keeps its Shift, the tab does not
    obtain ⟨htl, htu, htshift⟩ := tab_class
    have hiso := isoLeftTab_class.2.2
    have hne : tab ≠ isoLeftTab := by decide
    subst htab
    rw [if_pos rfl, hiso, normalize_other htl htu, if_neg hne, htshift]
    simp only [Bool.false_eq_true, and_false, if_false, and_true, true_and, Key.mk.injEq]
    by_cases hshift : state &&& FcitxKeyState.shift ≠ 0
    · rw [if_pos hshift]
      refine iff_of_false (fun heq => ?_) fun hnot => hnot hshift
      rw [← heq] at hshift
      exact hshift (and_not_and state _)
    · rw [if_neg hshift]
      exact iff_of_true rfl hshift
  · simp only [htab, false_and, not_false_eq_true, iff_true, if_false]
    rw [normalize_other hl hu, if_neg htab]
    by_cases hshift : state &&& FcitxKeyState.shift ≠ 0 ∧ shiftInSym sym = true
    · have hclear := and_not_and state FcitxKeyState.shift
      simp only [if_pos hshift, hclear, ne_eq, not_true_eq_false, false_and, if_false]
    · simp only [if_neg hshift]

/-- **A key that was normalised** is its own normal form, also for the lists of hotkeys, unless it was the
left tab with Shift. -/
theorem normalize_idempotent (key : Key) :
    (normalize (normalize key) = normalize key ↔
      ¬ (key.sym = isoLeftTab ∧ key.state &&& FcitxKeyState.shift ≠ 0)) ∧
      (¬ (key.sym = isoLeftTab ∧ key.state &&& FcitxKeyState.shift ≠ 0) →
        ∀ keyList, listCheck keyList (normalize (normalize key)) = listCheck keyList (normalize key)) := by
  refine ⟨normalize_normalize_iff key, fun h keyList => ?_⟩
  rw [(normalize_normalize_iff key).mpr h]

/-- The left tab with Shift is normalised to the tab with Shift, and that to the tab. -/
theorem not_normalize_idempotent : ¬ ∀ key, normalize (normalize key) = normalize key :=
  fun h => absurd (h ⟨isoLeftTab, FcitxKeyState.shift⟩) (by decide +kernel)

end Key
end Fcitx
