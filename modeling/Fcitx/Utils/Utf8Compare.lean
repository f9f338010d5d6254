/-
# Comparing the first characters of two strings

`fcitx_utf8_strncmp` compares bytes where the first string has a single byte and
decodes both strings where it has not. So a character of more bytes that stands
for a code below 0x80 differs from the single byte if it stands in the second
string, and is equal to it if it stands in the first; and one that stands for
zero is equal to the terminator of the second string, which is then passed. A
byte that would be read behind the terminator gives no result.

Key definitions: `Utf8.strncmp`, `Utf8.forms`, `Utf8.Mixed`, `Utf8.Overruns`, `Utf8.ComparesCodes`.
Key theorems: `Utf8.strncmp_eq`, `Utf8.agrees_iff`, `Utf8.comparesCodes_iff`.
-/
import Fcitx.Utils.Utf8Walk

namespace Fcitx
namespace Utf8

/-- `fcitx_utf8_get_char` in the memory of a string. -/
def readChar (m : Bytes) : Option (UInt32 × Bytes) := if readsInside m then some (getChar m) else none

/-- The loop of `fcitx_utf8_strncmp`, with `n` rounds left, in the memory of two strings up to their terminators;
`none` if a byte behind these is read. -/
def strncmp : ℕ → Bytes → Bytes → Option ℤ
  | 0, _, _ => some 0
  | n + 1, s1, s2 =>
    s1[0]?.bind fun b1 =>
      if b1 &&& 0x80 == 0 then
        s2[0]?.bind fun b2 =>
          if b1 ≠ b2 then some 1
          else if b1 == 0 then some 0
          else strncmp n (s1.drop 1) (s2.drop 1)
      else
        (readChar s1).bind fun (c1, s1) =>
          (readChar s2).bind fun (c2, s2) =>
            if c1 ≠ c2 then some 1 else strncmp n s1 s2

/-- The characters, each with whether it is a single byte below 0x80. -/
def formsFrom : ℕ → Bytes → List (UInt32 × Bool)
  | 0, _ => []
  | fuel + 1, s =>
    if s.at 0 == 0 then [] else ((getChar s).1, s.at 0 &&& 0x80 == 0) :: formsFrom fuel (getChar s).2

/-- The characters of a string up to its terminator. -/
def forms (s : Bytes) : List (UInt32 × Bool) := formsFrom s.length s

/-- **The law**: both orders of two strings give the same, which is zero exactly if their first `n` characters
are the same codes, and no byte behind a terminator is read. -/
def ComparesCodes (s1 s2 : Bytes) (n : ℕ) : Prop :=
  ∃ r, strncmp n (s1 ++ [0]) (s2 ++ [0]) = some r ∧ strncmp n (s2 ++ [0]) (s1 ++ [0]) = some r ∧
    (r = 0 ↔ (chars s1).1.take n = (chars s2).1.take n)

/-- The first `n` codes are the same, but not their forms. -/
def Mixed (n : ℕ) (p q : List (UInt32 × Bool)) : Prop :=
  (p.map Prod.fst).take n = (q.map Prod.fst).take n ∧ (p.map Prod.snd).take n ≠ (q.map Prod.snd).take n

/-- The first string ends among the first `n` characters where the second one has a zero of more bytes, with the
same codes before it; and there the second one has no single byte for a longer form of the first. -/
structure Overruns (n : ℕ) (p q : List (UInt32 × Bool)) : Prop where
  few : p.length < n
  codes : (q.map Prod.fst).take p.length = p.map Prod.fst
  zero : q[p.length]? = some (0, false)
  order : ∀ i : ℕ, ¬ (q[i]?.map Prod.snd = some true ∧ p[i]?.map Prod.snd = some false)

variable {bytes bytes' : Bytes} {n : ℕ} {p q : List (UInt32 × Bool)}

/-! ### Characters and their forms -/

theorem formsFrom_congr (n : ℕ) : ∀ (m : ℕ) (bytes : Bytes), bytes.length ≤ n → bytes.length ≤ m →
    formsFrom n bytes = formsFrom m bytes := by
  induction n with
  | zero =>
    intro m bytes hn _
    rw [List.length_eq_zero_iff.mp (Nat.le_zero.mp hn)]
    cases m <;> rfl
  | succ n ih =>
    intro m bytes hn hm
    cases bytes with
    | nil => cases m <;> rfl
    | cons b bytes =>
      obtain ⟨m, rfl⟩ := Nat.exists_eq_succ_of_ne_zero (Nat.ne_of_gt (Nat.lt_of_lt_of_le (Nat.succ_pos _) hm))
      have hlt := length_getChar (List.cons_ne_nil b bytes)
      unfold formsFrom
      rw [ih m _ (by omega) (by omega)]

theorem forms_step (h0 : 0 ∉ bytes) (hne : bytes ≠ []) :
    forms bytes = ((getChar bytes).1, bytes.at 0 &&& 0x80 == 0) :: forms (getChar bytes).2 := by
  have hlt := length_getChar hne
  have hhead := at_zero_ne h0 hne []
  rw [List.append_nil] at hhead
  obtain ⟨n, hn⟩ : ∃ n, bytes.length = n + 1 := Nat.exists_eq_succ_of_ne_zero (by omega)
  unfold forms
  rw [hn, formsFrom, hhead, if_neg Bool.false_ne_true, formsFrom_congr n _ _ (by omega) (Nat.le_refl _)]

theorem forms_cons {b : UInt8} {t : Bytes} (h0 : 0 ∉ b :: t) :
    forms (b :: t) = ((getChar (b :: t)).1, b &&& 0x80 == 0) :: forms (getChar (b :: t)).2 :=
  forms_step h0 (List.cons_ne_nil b t)

theorem map_formsFrom (n : ℕ) : ∀ bytes, (formsFrom n bytes).map Prod.fst = (charsFrom n bytes).1 := by
  induction n with
  | zero => exact fun _ => rfl
  | succ n ih =>
    intro bytes
    unfold formsFrom charsFrom
    split
    · rfl
    · rw [List.map_cons, ih]

/-- Without their forms these are the characters that are read. -/
theorem map_forms (bytes : Bytes) : (forms bytes).map Prod.fst = (chars bytes).1 := map_formsFrom _ bytes

/-! ### The comparison of the forms -/

/-- What `fcitx_utf8_strncmp` does, in terms of characters. -/
def compareForms : ℕ → List (UInt32 × Bool) → List (UInt32 × Bool) → Option ℤ
  | 0, _, _ => some 0
  | _ + 1, [], [] => some 0
  | _ + 1, [], _ :: _ => some 1
  | n + 1, (c, single) :: _, [] => if single = true ∨ c ≠ 0 then some 1 else if n = 0 then some 0 else none
  | n + 1, (c, single) :: p, (d, single') :: q =>
    if c = d ∧ (single = true → single' = true) then compareForms n p q else some 1

theorem readChar_append (hne : bytes ≠ []) :
    readChar (bytes ++ [0]) = some ((getChar bytes).1, (getChar bytes).2 ++ [0]) := by
  rw [readChar, readsInside_append, if_pos rfl, getChar_append hne]

/-- A string that has been passed. -/
theorem strncmp_passed (bytes : Bytes) (n : ℕ) : strncmp n (bytes ++ [0]) [] = if n = 0 then some 0 else none := by
  cases n with
  | zero => rfl
  | succ n =>
    have hread : readChar (bytes ++ [0]) = some (getChar (bytes ++ [0])) := if_pos (readsInside_append bytes)
    rw [if_neg (Nat.succ_ne_zero n), strncmp, hread]
    cases (bytes ++ [0])[0]? with
    | none => rfl
    | some b =>
      dsimp only [Option.bind_some]
      split <;> rfl

/-- A single byte below 0x80. -/
theorem getChar_single {b : UInt8} {t : Bytes} (hb : (b &&& 0x80 == 0) = true) :
    getChar (b :: t) = (b.toUInt32, t) := by
  unfold getChar
  exact if_pos hb

/-- A round where the first string has a single byte. -/
theorem strncmp_single {b : UInt8} (hb : (b &&& 0x80 == 0) = true) (n : ℕ) (t s2 : Bytes) :
    strncmp (n + 1) (b :: t) s2 = s2[0]?.bind fun b2 =>
      if b ≠ b2 then some 1 else if b == 0 then some 0 else strncmp n t (s2.drop 1) := by
  rw [strncmp]
  exact if_pos hb

/-- A round where it has not. -/
theorem strncmp_decode {b : UInt8} (hb : (b &&& 0x80 == 0) = false) (n : ℕ) (t s2 : Bytes) :
    strncmp (n + 1) (b :: t ++ [0]) s2 = (readChar s2).bind fun (c2, s2) =>
      if (getChar (b :: t)).1 ≠ c2 then some 1 else strncmp n ((getChar (b :: t)).2 ++ [0]) s2 := by
  have hbranch : ¬ (b &&& 0x80 == 0) = true := by simp [hb]
  rw [strncmp, readChar_append (List.cons_ne_nil b t)]
  exact if_neg hbranch

/-- **The comparison** in terms of characters. -/
theorem strncmp_eq (n : ℕ) : ∀ bytes bytes' : Bytes, 0 ∉ bytes → 0 ∉ bytes' →
    strncmp n (bytes ++ [0]) (bytes' ++ [0]) = compareForms n (forms bytes) (forms bytes') := by
  induction n with
  | zero =>
    intro _ _ _ _
    simp [strncmp, compareForms]
  | succ n ih =>
    intro bytes bytes' h0 h0'
    cases bytes with
    | nil =>
      cases bytes' with
      | nil => rfl
      | cons d t' =>
        have hd : (0 : UInt8) ≠ d := fun e => h0' (e ▸ List.mem_cons_self)
        rw [forms_cons h0']
        exact if_pos hd
    | cons b t =>
      have hb0 : b ≠ 0 := fun e => h0 (e ▸ List.mem_cons_self)
      rw [forms_cons h0]
      cases hb : b &&& 0x80 == 0 with
      | true =>
        rw [List.cons_append, strncmp_single hb, getChar_single hb]
        cases bytes' with
        | nil => exact if_pos hb0
        | cons d t' =>
          rw [forms_cons h0', compareForms, List.cons_append, List.getElem?_cons_zero, Option.bind_some]
          by_cases hbd : b = d
          · -- the byte is that of the second string as well
            subst hbd
            rw [if_neg (not_not.mpr rfl), if_neg (by simpa using hb0), getChar_single hb, if_pos ⟨rfl, fun _ => hb⟩]
            exact ih t t' (fun hm => h0 (List.mem_cons_of_mem b hm)) fun hm => h0' (List.mem_cons_of_mem b hm)
          · rw [if_pos hbd, if_neg]
            rintro ⟨hcode, hsingle⟩
            rw [getChar_single (hsingle rfl)] at hcode
            exact hbd (UInt8.toUInt32_inj.mp hcode)
      | false =>
        rw [strncmp_decode hb]
        cases bytes' with
        | nil =>
          show (if _ ≠ (0 : UInt32) then _ else strncmp n _ []) = if _ then _ else _
          rw [strncmp_passed]
          simp
        | cons d t' =>
          rw [forms_cons h0', readChar_append (List.cons_ne_nil d t'), compareForms,
            ← ih _ _ (notMem_getChar h0) (notMem_getChar h0')]
          simp

/-! ### When both orders agree -/

theorem not_overruns_zero : ¬ Overruns 0 p q := fun h => absurd h.few (Nat.not_lt_zero _)

theorem not_overruns_nil : ¬ Overruns n p [] := fun h => nomatch h.zero

theorem overruns_nil (n : ℕ) (x : UInt32 × Bool) (q : List (UInt32 × Bool)) :
    Overruns (n + 1) [] (x :: q) ↔ x = (0, false) := by
  constructor
  · intro h
    exact Option.some_inj.mp h.zero
  · rintro rfl
    exact ⟨Nat.succ_pos n, rfl, rfl, fun i h => nomatch h.2⟩

theorem overruns_cons (n : ℕ) (c d : UInt32) (a b : Bool) (p q : List (UInt32 × Bool)) :
    Overruns (n + 1) ((c, a) :: p) ((d, b) :: q) ↔ c = d ∧ ¬ (b = true ∧ a = false) ∧ Overruns n p q := by
  constructor
  · intro h
    have hcodes := List.cons.inj h.codes
    refine ⟨hcodes.1.symm, fun hab => h.order 0 ?_, Nat.lt_of_succ_lt_succ h.few, hcodes.2, h.zero, fun i => ?_⟩
    · simpa using hab
    · exact h.order (i + 1)
  · rintro ⟨rfl, hab, h⟩
    refine ⟨Nat.succ_lt_succ h.few, congrArg (c :: ·) h.codes, h.zero, fun i => ?_⟩
    cases i with
    | zero => simpa using hab
    | succ i => exact h.order i

/-- Where the codes differ, the comparison says so, unless the second string is overrun. -/
theorem compareForms_eq_one_iff (n : ℕ) : ∀ p q : List (UInt32 × Bool),
    (p.map Prod.fst).take n ≠ (q.map Prod.fst).take n → (compareForms n p q = some 1 ↔ ¬ Overruns n q p) := by
  induction n with
  | zero => exact fun p q hne => absurd (by rw [List.take_zero, List.take_zero]) hne
  | succ n ih =>
    intro p q hne
    cases p with
    | nil =>
      cases q with
      | nil => exact absurd rfl hne
      | cons y q => exact iff_of_true rfl not_overruns_nil
    | cons x p =>
      obtain ⟨c, a⟩ := x
      cases q with
      | nil =>
        rw [overruns_nil, compareForms, Prod.mk.injEq]
        by_cases hone : a = true ∨ c ≠ 0
        · rw [if_pos hone]
          grind
        · rw [if_neg hone]
          grind
      | cons y q =>
        obtain ⟨d, b⟩ := y
        rw [overruns_cons, compareForms]
        by_cases hgo : c = d ∧ (a = true → b = true)
        · obtain ⟨rfl, hab⟩ := hgo
          have hrest : (p.map Prod.fst).take n ≠ (q.map Prod.fst).take n := fun e => hne (congrArg (c :: ·) e)
          rw [if_pos ⟨rfl, hab⟩, ih p q hrest]
          have hforms : ¬ (a = true ∧ b = false) := by grind
          tauto
        · rw [if_neg hgo]
          refine iff_of_true rfl fun h => hgo ?_
          grind

/-- What both orders give, and that it is right. -/
def Agrees (n : ℕ) (p q : List (UInt32 × Bool)) : Prop :=
  ∃ r, compareForms n p q = some r ∧ compareForms n q p = some r ∧
    (r = 0 ↔ (p.map Prod.fst).take n = (q.map Prod.fst).take n)

theorem agrees_symm : Agrees n p q ↔ Agrees n q p := by
  constructor
  · rintro ⟨r, h, h', hr⟩
    exact ⟨r, h', h, hr.trans eq_comm⟩
  · rintro ⟨r, h, h', hr⟩
    exact ⟨r, h', h, hr.trans eq_comm⟩

theorem mixed_symm : Mixed n p q ↔ Mixed n q p := by
  unfold Mixed
  rw [ne_comm, eq_comm]

/-- A character of more bytes in the second string where the first one has a single byte. -/
theorem agrees_single (n : ℕ) (c : UInt32) (p q : List (UInt32 × Bool)) :
    Agrees (n + 1) ((c, true) :: p) ((c, false) :: q) ↔
      (p.map Prod.fst).take n ≠ (q.map Prod.fst).take n ∧ ¬ Overruns n p q := by
  have hone : compareForms (n + 1) ((c, true) :: p) ((c, false) :: q) = some 1 := if_neg (by simp)
  have hmore : compareForms (n + 1) ((c, false) :: q) ((c, true) :: p) = compareForms n q p := if_pos (by simp)
  constructor
  · rintro ⟨r, h, h', hr⟩
    obtain rfl : 1 = r := Option.some_inj.mp (hone.symm.trans h)
    have hne : (p.map Prod.fst).take n ≠ (q.map Prod.fst).take n := fun e =>
      absurd (hr.mpr (congrArg (c :: ·) e)) (by decide)
    exact ⟨hne, (compareForms_eq_one_iff n q p hne.symm).mp (hmore.symm.trans h')⟩
  · rintro ⟨hne, hover⟩
    refine ⟨1, hone, hmore.trans ((compareForms_eq_one_iff n q p hne.symm).mpr hover), ?_⟩
    exact iff_of_false (by decide) fun e => hne (List.cons.inj e).2

/-- Strings that start with the same character in the same form. -/
theorem agrees_same (n : ℕ) (x : UInt32 × Bool) (p q : List (UInt32 × Bool)) :
    Agrees (n + 1) (x :: p) (x :: q) ↔ Agrees n p q := by
  obtain ⟨c, a⟩ := x
  have hgo : ∀ p q, compareForms (n + 1) ((c, a) :: p) ((c, a) :: q) = compareForms n p q := fun p q =>
    if_pos ⟨rfl, id⟩
  unfold Agrees
  rw [hgo, hgo]
  simp

/-- Strings that differ from the start on, the first of which may have ended. -/
theorem agrees_differ (hne : (p.map Prod.fst).take n ≠ (q.map Prod.fst).take n)
    (hone : compareForms n p q = some 1) : Agrees n p q ↔ ¬ Overruns n p q := by
  rw [← compareForms_eq_one_iff n q p hne.symm]
  constructor
  · rintro ⟨r, h, h', -⟩
    rwa [hone.symm.trans h]
  · intro h
    exact ⟨1, hone, h, iff_of_false (by decide) hne⟩

/-- **Exactly when both orders agree** on the characters. -/
theorem agrees_iff (n : ℕ) : ∀ p q : List (UInt32 × Bool),
    Agrees n p q ↔ ¬ Mixed n p q ∧ ¬ Overruns n p q ∧ ¬ Overruns n q p := by
  induction n with
  | zero =>
    intro p q
    have hagrees : Agrees 0 p q := ⟨0, by rw [compareForms], by rw [compareForms], by simp⟩
    exact iff_of_true hagrees ⟨by simp [Mixed], not_overruns_zero, not_overruns_zero⟩
  | succ n ih =>
    -- one string ends here, the other one does not
    have hnil : ∀ y q, Agrees (n + 1) [] (y :: q) ↔
        ¬ Mixed (n + 1) [] (y :: q) ∧ ¬ Overruns (n + 1) [] (y :: q) ∧ ¬ Overruns (n + 1) (y :: q) [] := by
      intro y q
      rw [agrees_differ (by simp) rfl]
      have hmixed : ¬ Mixed (n + 1) [] (y :: q) := by simp [Mixed]
      exact ⟨fun h => ⟨hmixed, h, not_overruns_nil⟩, fun h => h.2.1⟩
    intro p q
    cases p with
    | nil =>
      cases q with
      | nil => exact iff_of_true ⟨0, rfl, rfl, by simp⟩ ⟨by simp [Mixed], not_overruns_nil, not_overruns_nil⟩
      | cons y q => exact hnil y q
    | cons x p =>
      cases q with
      | nil =>
        rw [agrees_symm, mixed_symm, hnil x p]
        tauto
      | cons y q =>
        obtain ⟨c, a⟩ := x
        obtain ⟨d, b⟩ := y
        by_cases hcd : c = d
        · subst hcd
          rw [overruns_cons, overruns_cons]
          have hmixed : ∀ a b, Mixed (n + 1) ((c, a) :: p) ((c, b) :: q) ↔
              (p.map Prod.fst).take n = (q.map Prod.fst).take n ∧
                (a = b → (p.map Prod.snd).take n ≠ (q.map Prod.snd).take n) := by
            intro a b
            simp [Mixed]
          rw [hmixed]
          cases a <;> cases b
          · rw [agrees_same, ih]
            simp [Mixed]
          · rw [agrees_symm, agrees_single]
            simp [eq_comm]
          · rw [agrees_single]
            simp
          · rw [agrees_same, ih]
            simp [Mixed]
        · -- different codes: both orders say so
          have hone : compareForms (n + 1) ((c, a) :: p) ((d, b) :: q) = some 1 := if_neg fun h => hcd h.1
          have hone' : compareForms (n + 1) ((d, b) :: q) ((c, a) :: p) = some 1 := if_neg fun h => hcd h.1.symm
          rw [overruns_cons, overruns_cons]
          refine iff_of_true ⟨1, hone, hone', iff_of_false (by decide) ?_⟩
            ⟨?_, fun h => hcd h.1, fun h => hcd h.1.symm⟩
          · exact fun e => hcd (List.cons.inj e).1
          · exact fun h => hcd (List.cons.inj h.1).1

/-- **The comparison**, for all strings: both orders give zero exactly for the same codes, unless the first
characters are the same codes in different forms, or one string is overrun. -/
theorem comparesCodes_iff (s1 s2 : Bytes) (n : ℕ) (h1 : 0 ∉ s1) (h2 : 0 ∉ s2) :
    ComparesCodes s1 s2 n ↔
      ¬ Mixed n (forms s1) (forms s2) ∧ ¬ Overruns n (forms s1) (forms s2) ∧ ¬ Overruns n (forms s2) (forms s1) := by
  rw [← agrees_iff]
  unfold ComparesCodes Agrees
  rw [strncmp_eq n s1 s2 h1 h2, strncmp_eq n s2 s1 h2 h1, map_forms, map_forms]

/-- The letter A with the euro sign behind it, and the letter alone. -/
theorem comparesCodes_iff_letter :
    ComparesCodes [0x41, 0xE2, 0x82, 0xAC] [0x41] 2 ↔ ¬ Mixed 2 (forms [0x41, 0xE2, 0x82, 0xAC]) (forms [0x41]) ∧
      ¬ Overruns 2 (forms [0x41, 0xE2, 0x82, 0xAC]) (forms [0x41]) ∧
      ¬ Overruns 2 (forms [0x41]) (forms [0x41, 0xE2, 0x82, 0xAC]) :=
  comparesCodes_iff [0x41, 0xE2, 0x82, 0xAC] [0x41] 2 (by decide) (by decide)

/-- The letter A and its form of two bytes are equal in one order only. -/
theorem not_comparesCodes_letter : ¬ ComparesCodes [0x41] [0xC1, 0x81] 1 := by
  rintro ⟨r, h, h', -⟩
  have hone : strncmp 1 ([0x41] ++ [0]) ([0xC1, 0x81] ++ [0]) = some 1 := by decide
  have hzero : strncmp 1 ([0xC1, 0x81] ++ [0]) ([0x41] ++ [0]) = some 0 := by decide
  rw [hone] at h
  rw [hzero] at h'
  exact absurd (h.trans h'.symm) (by decide)

/- A zero of two bytes against the empty string: a byte behind its terminator is read. -/
example : strncmp 2 [0xC0, 0x80, 0] [0] = none := by decide

end Utf8
end Fcitx
