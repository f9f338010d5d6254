/-
# Numbers in the crash log

`core/errorhandler.c` formats numbers without the C library, as it runs in a signal
handler: `BufferAppendUInt64` writes the digits from the last one on, as many as there is
room for, and reverses them in place. A write at or behind the end of the buffer has no
result.

Key definitions: `MinimalBuffer`, `digitLoop`, `bufferAppendUInt64`, `numeral`.
Key theorems: `digitLoop_eq`, `bufferAppendUInt64_eq`, `value_numeral`, `bufferAppendUInt64_spec`.
-/
import Fcitx.Lib.Reversal
import Fcitx.Utils.Utf8
import Mathlib.Data.Nat.Digits.Lemmas

namespace Fcitx

/-- `MINIMAL_BUFFER_SIZE` -/
def minimalBufferSize : ℕ := 256

/-- `MinimalBuffer` -/
structure MinimalBuffer where
  buffer : Bytes
  offset : ℕ
  size : buffer.length = minimalBufferSize
  inside : offset ≤ minimalBufferSize

/-- `tmp < 10 ? '0' + tmp : 'a' + tmp - 10` -/
def digitChar (tmp : ℕ) : UInt8 := UInt8.ofNat (if tmp < 10 then 48 + tmp else 97 + tmp - 10)

/-- The loop that writes the digits: the buffer after it, and `i`. -/
def digitLoop (radix offset : ℕ) : ℕ → ℕ → Bytes → ℕ → Option (Bytes × ℕ)
  | 0, _, _, _ => none
  | rounds + 1, number, buffer, i =>
    if offset + i < minimalBufferSize then
      let tmp := number % radix
      let number := number / radix
      (Buffer.write buffer (offset + i) [digitChar tmp]).bind fun buffer =>
        if number = 0 then some (buffer, i + 1) else digitLoop radix offset rounds number buffer (i + 1)
    else some (buffer, i)

/-- `BufferAppendUInt64`: the bytes of the buffer after it, and its offset. -/
def bufferAppendUInt64 (b : MinimalBuffer) (number : UInt64) (radix : ℕ) : Option (Bytes × ℕ) := do
  let (buffer, i) ← digitLoop radix b.offset (minimalBufferSize + 1) number.toNat b.buffer 0
  let buffer ← if i > 1 then Reversal.reverse buffer b.offset i else some buffer
  some (buffer, b.offset + i)

/-- The digits from the last one on; zero has one. -/
def lowDigits (radix number : ℕ) : List ℕ := if number = 0 then [0] else Nat.digits radix number

/-- The numeral of a number, the first digit first. -/
def numeral (radix number : ℕ) : Bytes := ((lowDigits radix number).map digitChar).reverse

variable {radix number : ℕ}

/-! ### The digits -/

theorem lowDigits_eq (hradix : 2 ≤ radix) (number : ℕ) :
    lowDigits radix number =
      number % radix :: if number / radix = 0 then [] else lowDigits radix (number / radix) := by
  unfold lowDigits
  by_cases h0 : number = 0
  · rw [if_pos h0, h0, Nat.zero_mod, Nat.zero_div, if_pos rfl]
  · rw [if_neg h0, Nat.digits_def' hradix (Nat.pos_of_ne_zero h0)]
    by_cases hquot : number / radix = 0
    · rw [if_pos hquot, hquot, Nat.digits_zero]
    · rw [if_neg hquot, if_neg hquot]

/-- The digits are those of the number. -/
theorem ofDigits_lowDigits (radix number : ℕ) : Nat.ofDigits radix (lowDigits radix number) = number := by
  unfold lowDigits
  split
  · next h => rw [h]; rfl
  · exact Nat.ofDigits_digits radix number

/-- **The loop** writes the digits from the last one on, as many as there is room for. -/
theorem digitLoop_eq (hradix : 2 ≤ radix) {front : Bytes} (rounds : ℕ) : ∀ (number : ℕ) (digits gap : Bytes),
    front.length + digits.length + gap.length = minimalBufferSize → gap.length < rounds →
    digitLoop radix front.length rounds number (front ++ (digits ++ gap)) digits.length =
      some (front ++ (digits ++ (((lowDigits radix number).map digitChar).take gap.length ++
          gap.drop (lowDigits radix number).length)),
        digits.length + min gap.length (lowDigits radix number).length) := by
  induction rounds with
  | zero => exact fun _ _ _ _ h => absurd h (Nat.not_lt_zero _)
  | succ rounds ih =>
    intro number digits gap hsize hrounds
    rw [digitLoop]
    dsimp only
    cases gap with
    | nil =>
      rw [List.length_nil, Nat.add_zero] at hsize
      rw [if_neg (Nat.not_lt.mpr (Nat.le_of_eq hsize.symm)), List.length_nil, List.take_zero, List.drop_nil,
        Nat.zero_min]
      rfl
    | cons old gap =>
      rw [List.length_cons] at hsize hrounds
      have hwrite : Buffer.write (front ++ (digits ++ old :: gap)) (front.length + digits.length)
          [digitChar (number % radix)] = some (front ++ (digits ++ digitChar (number % radix) :: gap)) := by
        rw [← List.append_assoc, ← List.length_append, Buffer.write_head, List.append_assoc]
      rw [if_pos (by omega), hwrite, Option.bind_some, lowDigits_eq hradix number, List.length_cons, List.length_cons,
        List.map_cons, List.take_succ_cons, List.drop_succ_cons]
      by_cases hquot : number / radix = 0
      · -- the number is written
        rw [if_pos hquot, if_pos hquot, List.map_nil, List.take_nil, List.length_nil, List.drop_zero,
          Nat.min_eq_right (Nat.le_add_left 1 gap.length)]
        rfl
      · have hnext := ih (number / radix) (digits ++ [digitChar (number % radix)]) gap
          (by rw [List.length_append, List.length_singleton]; omega) (by omega)
        rw [List.length_append, List.length_singleton] at hnext
        rw [if_neg hquot, if_neg hquot, Nat.add_min_add_right]
        simpa [Nat.add_right_comm _ 1, ← Nat.add_assoc] using hnext

/-- The digits that fit, the first of them first. -/
def shown (room radix number : ℕ) : Bytes := (((lowDigits radix number).map digitChar).take room).reverse

theorem length_shown (room radix number : ℕ) :
    (shown room radix number).length = min room (lowDigits radix number).length := by
  rw [shown, List.length_reverse, List.length_take, List.length_map]

/-- **Formatting a number** appends the digits that fit, the first of them first. -/
theorem bufferAppendUInt64_eq (b : MinimalBuffer) (number : UInt64) (hradix : 2 ≤ radix) :
    bufferAppendUInt64 b number radix =
      some (b.buffer.take b.offset ++ (shown (minimalBufferSize - b.offset) radix number.toNat ++
          b.buffer.drop (b.offset + (lowDigits radix number.toNat).length)),
        b.offset + (shown (minimalBufferSize - b.offset) radix number.toNat).length) := by
  obtain ⟨buffer, offset, hsize, hinside⟩ := b
  obtain ⟨front, gap, rfl, rfl⟩ : ∃ front gap, buffer = front ++ gap ∧ front.length = offset :=
    ⟨buffer.take offset, buffer.drop offset, (List.take_append_drop offset buffer).symm,
      List.length_take_of_le (hsize ▸ hinside)⟩
  rw [List.length_append] at hsize
  have hroom : minimalBufferSize - front.length = gap.length := by omega
  have hloop := digitLoop_eq hradix (minimalBufferSize + 1) number.toNat [] gap (by omega : front.length + 0 + _ = _)
    (by omega)
  simp only [List.nil_append, List.length_nil, Nat.zero_add] at hloop
  have hreverse := Reversal.reverse_eq front (((lowDigits radix number.toNat).map digitChar).take gap.length)
    (gap.drop (lowDigits radix number.toNat).length)
  rw [List.length_take, List.length_map] at hreverse
  unfold bufferAppendUInt64
  dsimp only
  rw [hloop]
  dsimp only [bind, Option.bind]
  rw [hroom, length_shown, List.take_left, List.drop_length_add_append]
  split_ifs with hmore
  · rw [hreverse]
    rfl
  · have hshort := Reversal.reverse_short (by rw [List.length_take, List.length_map]; omega :
      (((lowDigits radix number.toNat).map digitChar).take gap.length).length < 2)
    rw [shown, hshort]

/-! ### The numeral -/

/-- What a digit stands for. -/
def digitValue (c : UInt8) : ℕ := if c < 58 then c.toNat - 48 else c.toNat - 87

/-- `text` is the numeral of `number`: digits of the radix, the first of them not zero unless it is the only one. -/
structure IsNumeral (radix number : ℕ) (text : Bytes) : Prop where
  digits : ∀ c ∈ text, digitValue c < radix ∧ c = digitChar (digitValue c)
  value : text.foldl (fun value c => digitValue c + radix * value) 0 = number
  nonempty : text ≠ []
  leading : text.head? = some (digitChar 0) → text = [digitChar 0]

theorem digitValue_digitChar : ∀ tmp < 36, digitValue (digitChar tmp) = tmp := by
  decide +kernel

theorem lowDigits_lt (hradix : 2 ≤ radix) {tmp : ℕ} (h : tmp ∈ lowDigits radix number) : tmp < radix := by
  unfold lowDigits at h
  split at h
  · rw [List.mem_singleton.mp h]
    omega
  · exact Nat.digits_lt_base hradix h

theorem lowDigits_ne_nil (radix number : ℕ) : lowDigits radix number ≠ [] := by
  unfold lowDigits
  split
  · exact List.cons_ne_nil 0 []
  · next h => exact Nat.digits_ne_nil_iff_ne_zero.mpr h

/-- **The numeral** of a number. -/
theorem isNumeral_numeral (hradix : 2 ≤ radix) (hmax : radix ≤ 36) (number : ℕ) :
    IsNumeral radix number (numeral radix number) := by
  have hvalue : ∀ tmp ∈ lowDigits radix number, digitValue (digitChar tmp) = tmp := fun tmp htmp =>
    digitValue_digitChar tmp (Nat.lt_of_lt_of_le (lowDigits_lt hradix htmp) hmax)
  refine ⟨fun c hc => ?_, ?_, ?_, ?_⟩
  · obtain ⟨tmp, htmp, rfl⟩ := List.mem_map.mp (List.mem_reverse.mp hc)
    rw [hvalue tmp htmp]
    exact ⟨lowDigits_lt hradix htmp, rfl⟩
  · rw [numeral, List.foldl_reverse, List.foldr_map]
    calc (lowDigits radix number).foldr (fun tmp value => digitValue (digitChar tmp) + radix * value) 0
        = (lowDigits radix number).foldr (fun tmp value => tmp + radix * value) 0 :=
          List.foldr_ext _ _ 0 fun tmp htmp value => by rw [hvalue tmp htmp]
      _ = Nat.ofDigits radix (lowDigits radix number) := (Nat.ofDigits_eq_foldr radix _).symm
      _ = number := ofDigits_lowDigits radix number
  · simpa [numeral] using lowDigits_ne_nil radix number
  · intro hhead
    rw [numeral, List.head?_reverse, List.getLast?_map] at hhead
    obtain ⟨tmp, hlast, hzero⟩ := Option.map_eq_some_iff.mp hhead
    obtain rfl : tmp = 0 := by
      rw [← hvalue tmp (List.mem_of_getLast? hlast), hzero, digitValue_digitChar 0 (by decide)]
    have h0 : number = 0 := by
      by_contra hne
      rw [lowDigits, if_neg hne, List.getLast?_eq_getLast_of_ne_nil (Nat.digits_ne_nil_iff_ne_zero.mpr hne)] at hlast
      exact Nat.getLast_digit_ne_zero radix hne (Option.some.inj hlast)
    rw [h0]
    rfl

theorem length_numeral (radix number : ℕ) : (numeral radix number).length = (lowDigits radix number).length := by
  rw [numeral, List.length_reverse, List.length_map]

/-- A numeral that fits is shown as it is. -/
theorem shown_of_fits {room : ℕ} (h : (numeral radix number).length ≤ room) :
    shown room radix number = numeral radix number := by
  rw [length_numeral] at h
  rw [shown, List.take_of_length_le (by rw [List.length_map]; exact h), numeral]

/-- **A number in the crash log.** Nothing is written behind the buffer and nothing before the old offset changes, and
a numeral that fits is appended. -/
theorem bufferAppendUInt64_spec (b : MinimalBuffer) (number : UInt64) (radix : ℕ) (hradix : 2 ≤ radix)
    (hmax : radix ≤ 36) :
    IsNumeral radix number.toNat (numeral radix number.toNat) ∧
    ∃ next : MinimalBuffer, bufferAppendUInt64 b number radix = some (next.buffer, next.offset) ∧
      next.buffer.take b.offset = b.buffer.take b.offset ∧
      (b.offset + (numeral radix number.toNat).length ≤ minimalBufferSize →
        next.offset = b.offset + (numeral radix number.toNat).length ∧
        next.buffer = b.buffer.take b.offset ++
          (numeral radix number.toNat ++ b.buffer.drop (b.offset + (numeral radix number.toNat).length))) := by
  have hsize := b.size
  have hinside := b.inside
  have hfront : (b.buffer.take b.offset).length = b.offset := List.length_take_of_le (hsize ▸ hinside)
  have hshown := length_shown (minimalBufferSize - b.offset) radix number.toNat
  refine ⟨isNumeral_numeral hradix hmax number.toNat, ⟨_, _, ?_, ?_⟩, bufferAppendUInt64_eq b number hradix, ?_, ?_⟩
  · rw [List.length_append, List.length_append, hfront, hshown, List.length_drop, hsize]
    omega
  · omega
  · exact List.take_left' hfront
  · intro hfits
    dsimp only
    rw [shown_of_fits (by omega), length_numeral]
    exact ⟨rfl, rfl⟩

/-- 2026 in hexadecimal, behind a text of two bytes. -/
theorem bufferAppendUInt64_spec_hex :
    IsNumeral 16 (2026 : UInt64).toNat (numeral 16 (2026 : UInt64).toNat) ∧
    ∃ next : MinimalBuffer,
      bufferAppendUInt64 ⟨List.replicate 256 48, 2, List.length_replicate, by decide⟩ 2026 16 =
        some (next.buffer, next.offset) ∧
      next.buffer.take 2 = (List.replicate 256 48).take 2 ∧
      (2 + (numeral 16 (2026 : UInt64).toNat).length ≤ minimalBufferSize →
        next.offset = 2 + (numeral 16 (2026 : UInt64).toNat).length ∧
        next.buffer = (List.replicate 256 48).take 2 ++ (numeral 16 (2026 : UInt64).toNat ++
          (List.replicate 256 48).drop (2 + (numeral 16 (2026 : UInt64).toNat).length))) :=
  bufferAppendUInt64_spec ⟨List.replicate 256 48, 2, List.length_replicate, by decide⟩ 2026 16 (by decide) (by decide)

/-- `"7ea"` -/
example : numeral 16 2026 = [55, 101, 97] := by
  simp [numeral, lowDigits, digitChar]

end Fcitx
