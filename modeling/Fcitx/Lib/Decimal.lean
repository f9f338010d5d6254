/-
# Decimal texts

The digits of a number as bytes, most significant first, and the number that a text of
digits stands for.

Key definitions: `Decimal.digits`, `Decimal.value`, `Decimal.isDigit`.
Key theorems: `Decimal.value_digits`, `Decimal.digits_injective`.
-/
import Mathlib.Data.Nat.Notation
import Mathlib.Logic.Function.Defs

namespace Decimal

/-- The byte of a digit. -/
def isDigit (b : UInt8) : Bool := 48 ≤ b && b ≤ 57

/-- The digits of a number. -/
def digits (n : ℕ) : List UInt8 := (Nat.toDigits 10 n).map fun c => UInt8.ofNat c.toNat

/-- The number of a text of digits. -/
def value (s : List UInt8) : ℕ := s.foldl (fun acc b => 10 * acc + (b.toNat - 48)) 0

theorem toNat_ofNat_digit {c : Char} (h : c.isDigit = true) :
    (UInt8.ofNat c.toNat).toNat = c.toNat ∧ 48 ≤ c.toNat ∧ c.toNat ≤ 57 := by
  have hrange : 48 ≤ c.toNat ∧ c.toNat ≤ 57 := by
    simp only [Char.isDigit, Bool.and_eq_true, decide_eq_true_eq] at h
    exact ⟨h.1, h.2⟩
  refine ⟨?_, hrange⟩
  rw [UInt8.toNat_ofNat']
  omega

theorem isDigit_of_mem {n : ℕ} {b : UInt8} (h : b ∈ digits n) : isDigit b = true := by
  obtain ⟨c, hc, rfl⟩ := List.mem_map.mp h
  obtain ⟨hnat, hlow, hhigh⟩ := toNat_ofNat_digit (Nat.isDigit_of_mem_toDigits (by decide) (by decide) hc)
  rw [isDigit, Bool.and_eq_true, decide_eq_true_eq, decide_eq_true_eq, UInt8.le_iff_toNat_le,
    UInt8.le_iff_toNat_le, hnat]
  exact ⟨hlow, hhigh⟩

theorem digits_ne_nil (n : ℕ) : digits n ≠ [] := by
  intro h
  exact Nat.toDigits_ne_nil (List.map_eq_nil_iff.mp h)

/-- **Digits are read back.** -/
theorem value_digits (n : ℕ) : value (digits n) = n := by
  have hfold : ∀ l : List Char, (∀ c ∈ l, c.isDigit = true) → ∀ acc,
      (l.map fun c => UInt8.ofNat c.toNat).foldl (fun acc b => 10 * acc + (b.toNat - 48)) acc =
        Nat.ofDigitChars 10 l acc := by
    intro l
    induction l with
    | nil => exact fun _ acc => Nat.ofDigitChars_nil.symm
    | cons c l ih =>
      intro hl acc
      obtain ⟨hc, hrest⟩ := List.forall_mem_cons.mp hl
      rw [List.map_cons, List.foldl_cons, ih hrest, Nat.ofDigitChars_cons, (toNat_ofNat_digit hc).1]
      rfl
  rw [value, digits, hfold _ fun c hc => Nat.isDigit_of_mem_toDigits (by decide) (by decide) hc]
  exact Nat.ofDigitChars_toDigits (by decide) (by decide)

theorem digits_injective : Function.Injective digits := by
  intro m n h
  calc
    m = value (digits m) := (value_digits m).symm
    _ = value (digits n) := congrArg value h
    _ = n := value_digits n

end Decimal
