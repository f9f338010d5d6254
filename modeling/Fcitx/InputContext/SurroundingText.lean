/-
# Deleting surrounding text

`fcitx_input_context_delete_surrounding_text` takes characters out of the text
in its buffer: what stands behind them is moved to where they were. The test
before it subtracts the position from the number of characters in a `size_t`.
A position behind the text makes that huge, so the text stays and the cursor is
put behind it. The number of bytes to move is an `int`.

Key definitions: `removeInPlace`, `deleteSurroundingInPlace`, `DeletesSurrounding`.
Key theorems: `removeInPlace_eq`, `deleteSurroundingInPlace_eq`, `deletesSurrounding_iff`.
-/
import Fcitx.InputContext.Manager
import Fcitx.Utils.StringUtils
import Fcitx.Utils.Utf8Walk

namespace Fcitx

open Utf8

/-! ### In the buffer -/

/-- The removal of characters from the buffer of `text`. A negative `copylen` is a size
that no buffer has, and there is no result. -/
def removeInPlace (text : Bytes) (cursorPos length : UInt32) : Option Bytes :=
  let start := getNthChar text cursorPos.toNat
  let «end» := getNthChar start length.toNat
  let copylen : Int32 := (UInt32.ofNat «end».length).toInt32
  if copylen < 0 then none
  else
    let n := copylen.toInt.toNat
    let buf := memmove (text ++ [0]) (text.length - start.length) (text.length - «end».length) n
    some (cString (buf.set (text.length - start.length + n) 0))

/-- What `fcitx_input_context_delete_surrounding_text` does to the record and to the buffer
of its text. -/
def deleteSurroundingInPlace (ic : InputContext) (offset : Int32) (length : UInt32) : Option InputContext :=
  match ic.surroundingText with
  | none => some ic
  | some text =>
    let cursorPos : UInt32 := ic.cursor + offset.toUInt32
    let len := (strlen text).toUInt64
    if 0 ≤ cursorPos.toInt32 ∧ length.toUInt64 ≤ len - cursorPos.toUInt64 then
      (removeInPlace text cursorPos length).map fun text =>
        { ic with surroundingText := some text, cursor := cursorPos, anchor := cursorPos }
    else
      some { ic with surroundingText := some (cString ((text ++ [0]).set 0 0)), cursor := 0, anchor := 0 }

/-! ### Numbers as `int` -/

theorem toInt_toInt32 (x : UInt32) :
    x.toInt32.toInt = if x.toNat < 2 ^ 31 then (x.toNat : ℤ) else x.toNat - 2 ^ 32 := by
  have hlt := x.toNat_lt
  have hbmod : x.toInt32.toInt = (x.toNat : ℤ).bmod (2 ^ 32) := BitVec.toInt_eq_toNat_bmod x.toBitVec
  rw [hbmod, Int.bmod_def]
  split <;> split <;> omega

theorem toInt_cursorPos {cursor : UInt32} {offset : Int32} (hmin : -2 ^ 31 ≤ (cursor.toNat : ℤ) + offset.toInt)
    (hmax : (cursor.toNat : ℤ) + offset.toInt < 2 ^ 31) :
    (cursor + offset.toUInt32).toInt32.toInt = (cursor.toNat : ℤ) + offset.toInt := by
  have hoffset : offset.toInt = offset.toUInt32.toInt32.toInt := rfl
  have hcursor := cursor.toNat_lt
  have hunsigned := offset.toUInt32.toNat_lt
  rw [hoffset, toInt_toInt32] at hmin hmax ⊢
  rw [toInt_toInt32, UInt32.toNat_add]
  split at hmin <;> split <;> omega

theorem toInt_copylen {n : ℕ} (h : n < 2 ^ 31) : (UInt32.ofNat n).toInt32.toInt = n := by
  rw [toInt_toInt32, UInt32.toNat_ofNat', if_pos (by omega)]
  omega

theorem copylen_le {n : ℕ} (h : ¬ (UInt32.ofNat n).toInt32 < 0) :
    (UInt32.ofNat n).toInt32.toInt.toNat ≤ n ∧ (UInt32.ofNat n).toInt32.toInt.toNat < 2 ^ 31 := by
  rw [Int32.lt_iff_toInt_lt] at h
  have hzero : (0 : Int32).toInt = 0 := rfl
  rw [hzero] at h
  rw [toInt_toInt32, UInt32.toNat_ofNat'] at h ⊢
  split at h
  · rw [if_pos ‹_›]
    omega
  · omega

/-! ### What is left in the buffer -/

variable {text : Bytes}

/-- What is left in the buffer: what stood before the characters, and `copylen` bytes of
what stood behind them. -/
theorem removeInPlace_eq (h0 : 0 ∉ text) (cursorPos length : UInt32) :
    removeInPlace text cursorPos length =
      let start := getNthChar text cursorPos.toNat
      let «end» := getNthChar start length.toNat
      let copylen := (UInt32.ofNat «end».length).toInt32
      if copylen < 0 then none
      else some (text.take (text.length - start.length) ++ «end».take copylen.toInt.toNat) := by
  unfold removeInPlace
  dsimp only
  obtain ⟨before, hbefore⟩ := getNthChar_suffix cursorPos.toNat text
  obtain ⟨removed, hremoved⟩ := getNthChar_suffix length.toNat (getNthChar text cursorPos.toNat)
  generalize getNthChar (getNthChar text cursorPos.toNat) length.toNat = «end» at hremoved ⊢
  generalize getNthChar text cursorPos.toNat = start at hbefore hremoved ⊢
  subst hremoved hbefore
  by_cases hneg : (UInt32.ofNat «end».length).toInt32 < 0
  case pos => rw [if_pos hneg, if_pos hneg]
  case neg =>
    rw [if_neg hneg, if_neg hneg]
    congr 1
    have hn := (copylen_le hneg).1
    generalize (UInt32.ofNat «end».length).toInt32.toInt.toNat = n at hn ⊢
    have hstart : (before ++ (removed ++ «end»)).length - (removed ++ «end»).length = before.length := by
      rw [List.length_append, Nat.add_sub_cancel]
    have hend : (before ++ (removed ++ «end»)).length - «end».length = (before ++ removed).length := by
      rw [← List.append_assoc, List.length_append, Nat.add_sub_cancel]
    rw [hstart, hend, List.take_left]
    have hmoved : memmove (before ++ (removed ++ «end») ++ [0]) before.length (before ++ removed).length n =
        before ++ «end».take n ++ (removed ++ «end» ++ [0]).drop n := by
      unfold memmove
      congr 1
      · congr 1
        · rw [List.append_assoc, List.take_left]
        · rw [← List.append_assoc, List.append_assoc (before ++ removed), List.drop_left,
            List.take_append_of_le_length hn]
      · rw [List.append_assoc before, List.drop_append, List.drop_of_length_le (by omega), List.nil_append,
          Nat.add_sub_cancel_left]
    obtain ⟨b, rest, hrest⟩ : ∃ b rest, (removed ++ «end» ++ [0]).drop n = b :: rest := by
      cases hdrop : (removed ++ «end» ++ [0]).drop n with
      | nil =>
        have hlen := List.drop_eq_nil_iff.mp hdrop
        rw [List.length_append, List.length_append, List.length_singleton] at hlen
        omega
      | cons b rest => exact ⟨b, rest, rfl⟩
    have hlength : (before ++ «end».take n).length = before.length + n := by
      rw [List.length_append, List.length_take, Nat.min_eq_left hn]
    rw [hmoved, hrest, ← hlength, List.set_append_right _ _ (Nat.le_refl _), Nat.sub_self, List.set_cons_zero]
    refine (cString_append_zero _ rest).trans (cString_of_noZero fun hmem => h0 ?_)
    rw [List.mem_append] at hmem ⊢
    rcases hmem with hmem | hmem
    · exact Or.inl hmem
    · exact Or.inr (List.mem_append.mpr (Or.inr (List.mem_of_mem_take hmem)))

theorem deleteSurroundingInPlace_eq (ic : InputContext) (offset : Int32) (length : UInt32)
    (h : ∀ text, ic.surroundingText = some text → 0 ∉ text ∧ text.length < 2 ^ 31) :
    deleteSurroundingInPlace ic offset length = some (IcSystem.deleteSurrounding ic offset length) := by
  unfold deleteSurroundingInPlace IcSystem.deleteSurrounding
  cases htext : ic.surroundingText with
  | none => rfl
  | some text =>
    obtain ⟨h0, hlen⟩ := h text htext
    dsimp only
    have hend := ((getNthChar_suffix length.toNat _).trans
      (getNthChar_suffix (ic.cursor + offset.toUInt32).toNat text)).length_le
    have hcopylen := toInt_copylen (Nat.lt_of_le_of_lt hend hlen)
    have hneg : ¬ (UInt32.ofNat (getNthChar (getNthChar text (ic.cursor + offset.toUInt32).toNat)
        length.toNat).length).toInt32 < 0 := by
      rw [Int32.lt_iff_toInt_lt, hcopylen]
      exact Int.not_lt.mpr (Int.natCast_nonneg _)
    split
    · rw [removeInPlace_eq h0]
      dsimp only
      rw [if_neg hneg, hcopylen, Int.toNat_natCast, List.take_length]
      rfl
    · cases text <;> rfl

/-! ### Deleting characters -/

/-- **Deleting surrounding text**: of the characters `cs`, `length` are removed at `p` if they are
there, and all of them otherwise; the cursor is never behind the text. -/
structure DeletesSurrounding (cs : List UInt32) (p : ℤ) (length : UInt32) (ic : InputContext) : Prop where
  removed : 0 ≤ p ∧ p + length.toNat ≤ cs.length →
    ic.surroundingText = some (writeChars (cs.take p.toNat ++ cs.drop (p.toNat + length.toNat))) ∧
      (ic.cursor.toNat : ℤ) = p ∧ ic.anchor = ic.cursor
  emptied : ¬ (0 ≤ p ∧ p + length.toNat ≤ cs.length) →
    ic.surroundingText = some [] ∧ ic.cursor = 0 ∧ ic.anchor = 0
  inText : ∀ text, ic.surroundingText = some text → ic.cursor.toNat ≤ strlen text

variable {cs : List UInt32}

/-- The test before the removal lets every position behind the text pass. -/
theorem fits_iff {cursorPos length : UInt32} (hlen : cs.length < 2 ^ 64) (hpos : cursorPos.toNat < 2 ^ 31) :
    length.toUInt64 ≤ cs.length.toUInt64 - cursorPos.toUInt64 ↔
      cs.length < cursorPos.toNat ∨ cursorPos.toNat + length.toNat ≤ cs.length := by
  have hlength := length.toNat_lt
  rw [UInt64.le_iff_toNat_le, UInt64.toNat_sub, Nat.toUInt64_eq, UInt64.toNat_ofNat', UInt32.toNat_toUInt64,
    UInt32.toNat_toUInt64]
  omega

theorem removeInPlace_writeChars (hcs : ∀ c ∈ cs, c ≠ 0) (cursorPos length : UInt32) :
    removeInPlace (writeChars cs) cursorPos length =
      let copylen := (UInt32.ofNat (writeChars (cs.drop (cursorPos.toNat + length.toNat))).length).toInt32
      if copylen < 0 then none
      else some (writeChars (cs.take cursorPos.toNat) ++
        (writeChars (cs.drop (cursorPos.toNat + length.toNat))).take copylen.toInt.toNat) := by
  have hdrop : ∀ c ∈ cs.drop cursorPos.toNat, c ≠ 0 := fun c hc => hcs c (List.mem_of_mem_drop hc)
  have hsplit : writeChars cs = writeChars (cs.take cursorPos.toNat) ++ writeChars (cs.drop cursorPos.toNat) := by
    rw [writeChars, writeChars, writeChars, ← List.flatMap_append, List.take_append_drop]
  have hbefore : (writeChars cs).take ((writeChars cs).length - (writeChars (cs.drop cursorPos.toNat)).length) =
      writeChars (cs.take cursorPos.toNat) := by
    rw [hsplit, List.length_append, Nat.add_sub_cancel, List.take_left]
  rw [removeInPlace_eq (zero_notMem_writeChars hcs)]
  dsimp only
  rw [getNthChar_writeChars hcs, getNthChar_writeChars hdrop, List.drop_drop, hbefore]

theorem deletesSurrounding_empty (ic : InputContext) {p : ℤ} {length : UInt32}
    (h : ¬ (0 ≤ p ∧ p + length.toNat ≤ cs.length)) :
    DeletesSurrounding cs p length { ic with surroundingText := some [], cursor := 0, anchor := 0 } where
  removed := fun hthere => absurd hthere h
  emptied := fun _ => ⟨rfl, rfl, rfl⟩
  inText := fun _ _ => Nat.zero_le _

theorem deletesSurrounding_removed_iff (hcs : ∀ c ∈ cs, c ≠ 0) (ic : InputContext) {cursorPos length : UInt32}
    (h : cursorPos.toNat + length.toNat ≤ cs.length) :
    (∃ ic', ((removeInPlace (writeChars cs) cursorPos length).map fun text =>
          { ic with surroundingText := some text, cursor := cursorPos, anchor := cursorPos }) = some ic' ∧
        DeletesSurrounding cs cursorPos.toNat length ic') ↔
      (writeChars (cs.drop (cursorPos.toNat + length.toNat))).length < 2 ^ 31 := by
  have happend : writeChars (cs.take cursorPos.toNat ++ cs.drop (cursorPos.toNat + length.toNat)) =
      writeChars (cs.take cursorPos.toNat) ++ writeChars (cs.drop (cursorPos.toNat + length.toNat)) :=
    List.flatMap_append ..
  rw [removeInPlace_writeChars hcs]
  dsimp only
  constructor
  case mp =>
    intro hlaw
    obtain ⟨ic', heq, hlaw⟩ := hlaw
    split at heq
    · cases heq
    · next hneg =>
      obtain rfl := Option.some.inj heq
      obtain ⟨htext, -, -⟩ := hlaw.removed ⟨Int.natCast_nonneg _, by omega⟩
      obtain ⟨-, hlt⟩ := copylen_le hneg
      rw [Int.toNat_natCast, happend] at htext
      have htake := congrArg List.length (List.append_cancel_left (Option.some.inj htext))
      rw [List.length_take] at htake
      omega
  case mpr =>
    intro hlen
    have hcopylen := toInt_copylen hlen
    have hneg : ¬ (UInt32.ofNat (writeChars (cs.drop (cursorPos.toNat + length.toNat))).length).toInt32 < 0 := by
      rw [Int32.lt_iff_toInt_lt, hcopylen]
      exact Int.not_lt.mpr (Int.natCast_nonneg _)
    rw [if_neg hneg, hcopylen, Int.toNat_natCast, List.take_length, ← happend]
    refine ⟨_, rfl, fun _ => ⟨by rw [Int.toNat_natCast], rfl, rfl⟩, fun hnot => ?_, fun text htext => ?_⟩
    · exact absurd ⟨Int.natCast_nonneg _, by omega⟩ hnot
    · obtain rfl := Option.some.inj htext
      have hleft : ∀ c ∈ cs.take cursorPos.toNat ++ cs.drop (cursorPos.toNat + length.toNat), c ≠ 0 := by
        intro c hc
        rw [List.mem_append] at hc
        rcases hc with hc | hc
        · exact hcs c (List.mem_of_mem_take hc)
        · exact hcs c (List.mem_of_mem_drop hc)
      show cursorPos.toNat ≤ strlen (writeChars _)
      rw [strlen_writeChars hleft, List.length_append, List.length_take]
      omega

/-- Behind the text nothing is removed, and the cursor stays there. -/
theorem not_deletesSurrounding_behind (ic : InputContext) {cursorPos length : UInt32}
    (h : cs.length < cursorPos.toNat) :
    ¬ ∃ ic', ((removeInPlace (writeChars cs) cursorPos length).map fun text =>
          { ic with surroundingText := some text, cursor := cursorPos, anchor := cursorPos }) = some ic' ∧
        DeletesSurrounding cs cursorPos.toNat length ic' := by
  intro hlaw
  obtain ⟨ic', heq, hlaw⟩ := hlaw
  rw [Option.map_eq_some_iff] at heq
  obtain ⟨text, -, rfl⟩ := heq
  obtain ⟨-, hzero, -⟩ := hlaw.emptied (by omega)
  have hcursor := congrArg UInt32.toNat hzero
  rw [UInt32.toNat_zero] at hcursor
  dsimp only at hcursor
  omega

/-- **Deleting surrounding text** goes wrong behind the text, and where 2 GiB are to be moved. -/
theorem deletesSurrounding_iff {ic : InputContext} (hcs : ∀ c ∈ cs, c ≠ 0 ∧ unicodeValid c = true)
    (htext : ic.surroundingText = some (writeChars cs)) (hmemory : (writeChars cs).length < 2 ^ 64)
    (offset : Int32) (length : UInt32) (hmin : -2 ^ 31 ≤ (ic.cursor.toNat : ℤ) + offset.toInt)
    (hmax : (ic.cursor.toNat : ℤ) + offset.toInt < 2 ^ 31) :
    (∃ ic', deleteSurroundingInPlace ic offset length = some ic' ∧
        DeletesSurrounding cs ((ic.cursor.toNat : ℤ) + offset.toInt) length ic') ↔
      (ic.cursor.toNat : ℤ) + offset.toInt ≤ cs.length ∧
        (0 ≤ (ic.cursor.toNat : ℤ) + offset.toInt →
          (ic.cursor.toNat : ℤ) + offset.toInt + length.toNat ≤ cs.length →
          (writeChars (cs.drop (((ic.cursor.toNat : ℤ) + offset.toInt).toNat + length.toNat))).length < 2 ^ 31) := by
  have hne : ∀ c ∈ cs, c ≠ 0 := fun c hc => (hcs c hc).1
  have hlen : cs.length < 2 ^ 64 := Nat.lt_of_le_of_lt (length_le_writeChars cs) hmemory
  have hp := toInt_cursorPos hmin hmax
  have hempty : cString ((writeChars cs ++ [0]).set 0 0) = [] := by cases writeChars cs <;> rfl
  unfold deleteSurroundingInPlace
  rw [htext]
  dsimp only
  rw [strlen_writeChars hne, hempty]
  generalize ic.cursor + offset.toUInt32 = cursorPos at hp ⊢
  generalize (ic.cursor.toNat : ℤ) + offset.toInt = p at hmin hmax hp ⊢
  have hnonneg : 0 ≤ cursorPos.toInt32 ↔ 0 ≤ p := by
    rw [Int32.le_iff_toInt_le, hp]
    rfl
  by_cases hneg : p < 0
  case pos =>
    rw [if_neg fun htest => Int.not_le.mpr hneg (hnonneg.mp htest.1)]
    refine ⟨fun _ => ⟨by omega, fun h0 => absurd h0 (Int.not_le.mpr hneg)⟩, fun _ => ⟨_, rfl, ?_⟩⟩
    exact deletesSurrounding_empty ic fun hthere => Int.not_le.mpr hneg hthere.1
  case neg =>
    have hnat : (cursorPos.toNat : ℤ) = p := by
      rw [toInt_toInt32] at hp
      split at hp
      · exact hp
      · have hlt := cursorPos.toNat_lt
        omega
    subst hnat
    rw [Int.toNat_natCast]
    by_cases hbehind : cs.length < cursorPos.toNat
    case pos =>
      rw [if_pos ⟨hnonneg.mpr (by omega), (fits_iff hlen (by omega)).mpr (Or.inl hbehind)⟩]
      refine ⟨fun hlaw => absurd hlaw (not_deletesSurrounding_behind ic hbehind), fun hcond => ?_⟩
      exact absurd hcond.1 (by omega)
    case neg =>
      by_cases hthere : cursorPos.toNat + length.toNat ≤ cs.length
      case pos =>
        rw [if_pos ⟨hnonneg.mpr (by omega), (fits_iff hlen (by omega)).mpr (Or.inr hthere)⟩,
          deletesSurrounding_removed_iff hne ic hthere]
        exact ⟨fun hlt => ⟨by omega, fun _ _ => hlt⟩, fun hcond => hcond.2 (by omega) (by omega)⟩
      case neg =>
        have htest : ¬ (0 ≤ cursorPos.toInt32 ∧ length.toUInt64 ≤ cs.length.toUInt64 - cursorPos.toUInt64) := by
          rw [fits_iff hlen (by omega)]
          omega
        rw [if_neg htest]
        refine ⟨fun _ => ⟨by omega, fun _ hle => absurd hle (by omega)⟩, fun _ => ⟨_, rfl, ?_⟩⟩
        exact deletesSurrounding_empty ic (by omega)

def abcd (cursor : UInt32) : InputContext :=
  { InputContext.zero with surroundingText := some (writeChars [97, 98, 99, 100]), cursor, anchor := cursor }

theorem deletesSurrounding_before :
    ∃ ic', deleteSurroundingInPlace (abcd 1) (-1) 2 = some ic' ∧
      DeletesSurrounding [97, 98, 99, 100] (((abcd 1).cursor.toNat : ℤ) + (-1 : Int32).toInt) 2 ic' := by
  have hcs : ∀ c ∈ ([97, 98, 99, 100] : List UInt32), c ≠ 0 ∧ unicodeValid c = true := by
    simp only [List.forall_mem_cons, List.not_mem_nil, false_imp_iff, implies_true, and_true]
    decide
  exact (deletesSurrounding_iff hcs rfl (by decide) (-1) 2 (by decide) (by decide)).mpr
    ⟨by decide, fun _ _ => by decide⟩

theorem not_deletesSurrounding_cursor :
    ¬ ∃ ic', deleteSurroundingInPlace (abcd 10) 0 1 = some ic' ∧
      DeletesSurrounding [97, 98, 99, 100] (((abcd 10).cursor.toNat : ℤ) + (0 : Int32).toInt) 1 ic' := by
  intro hlaw
  obtain ⟨ic', heq, hlaw⟩ := hlaw
  have hcursor : (deleteSurroundingInPlace (abcd 10) 0 1).map InputContext.cursor = some 10 := by decide
  rw [heq] at hcursor
  obtain ⟨-, hzero, -⟩ := hlaw.emptied (by decide)
  rw [Option.map_some, hzero] at hcursor
  cases hcursor

end Fcitx
