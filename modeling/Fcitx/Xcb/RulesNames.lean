/-
# The names in the X rules property

`fcitx_xcb_update_keymap` of `module/xcb/xcbmodule.c` cuts the property
`_XKB_RULES_NAMES` at its NULs and has room for five names. The property is what
other clients have put there; it does not have to end with a NUL. The loop goes on
while it is inside of the property or has fewer than five names, where both are meant:
it is right exactly if the property has five names.

A pointer is an offset in the property; a read outside of it and a store outside of
`names` end the run.

Key definitions: `PropertyValue`, `splitLoop`, `PropertyValue.splitNames`, `PropertyValue.SplitsSafely`.
Key theorems: `splitLoop_of_start`, `splitLoop_many`, `splitLoop_few`, `PropertyValue.splitsSafely_iff`.
-/
import Fcitx.Lib.Segments
import Mathlib.Algebra.Ring.Int.Defs
import Mathlib.Algebra.Ring.Nat
import Mathlib.Data.Int.Order.Basic

namespace Fcitx

/-- The value of a property; its length is an `int`. -/
structure PropertyValue where
  bytes : List UInt8
  length_lt : bytes.length < 2 ^ 31

inductive SplitFault where
  | readOutside
  | storeOutside
deriving DecidableEq

/-- `strnlen`; nothing where it reads outside of the memory. -/
def strnlen (bytes : List UInt8) (p : ℕ) : ℕ → Option ℕ
  | 0 => some 0
  | maxlen + 1 =>
    match bytes[p]? with
    | none => none
    | some c => if c = 0 then some 0 else (strnlen bytes (p + 1) maxlen).map (· + 1)

/-- An `int` that is taken as a `size_t`. -/
def sizeOfInt (length : ℤ) : ℕ := (length % 2 ^ 64).toNat

/-- The number of names there is room for. -/
def namesSize : ℕ := 5

/-- The loop of `fcitx_xcb_update_keymap`. -/
def splitLoop (bytes : List UInt8) (p : ℕ) (length : ℤ) (i : ℕ) (names : List (Option ℕ)) :
    Except SplitFault (List (Option ℕ)) :=
  match strnlen bytes p (sizeOfInt length) with
  | none => .error .readOutside
  | some n =>
    if i < namesSize then
      -- `len` is a `uint`
      let len := n % 2 ^ 32
      let names := names.set i (some p)
      let p := p + (len + 1) % 2 ^ 32
      let length := (length - (len + 1 : ℕ)).bmod (2 ^ 32)
      if p < bytes.length ∨ i + 1 < namesSize then splitLoop bytes p length (i + 1) names else .ok names
    else .error .storeOutside
termination_by namesSize - i

namespace PropertyValue

/-- The names `fcitx_xcb_update_keymap` finds. -/
def splitNames (value : PropertyValue) : Except SplitFault (List (Option ℕ)) :=
  splitLoop value.bytes 0 value.bytes.length 0 (List.replicate namesSize none)

end PropertyValue

/-! ### One round -/

/-- Where names start, from a position on. -/
abbrev namesFrom (bytes : List UInt8) (p : ℕ) : List ℕ := Segments.startsFrom (· == 0) bytes p

/-- A name starts here. -/
abbrev isName (bytes : List UInt8) (p : ℕ) : Bool := Segments.isStart (· == 0) bytes p

/-- The length of the name that starts here. -/
abbrev nameLength (bytes : List UInt8) (p : ℕ) : ℕ := Segments.segmentLength (· == 0) bytes p

/-- Behind the name and its NUL. -/
def nextName (bytes : List UInt8) (p : ℕ) : ℕ := p + nameLength bytes p + 1

variable {bytes : List UInt8} {p i : ℕ} {names : List (Option ℕ)}

theorem namesFrom_of_le (h : bytes.length ≤ p) : namesFrom bytes p = [] := Segments.startsFrom_of_le h

theorem namesFrom_of_start (hp : p < bytes.length) (hname : isName bytes p = true) :
    namesFrom bytes p = p :: namesFrom bytes (nextName bytes p) := Segments.startsFrom_of_start hp hname

theorem nextName_le (hp : p < bytes.length) : nextName bytes p ≤ bytes.length + 1 :=
  Nat.succ_le_succ (Segments.segmentLength_le (Nat.le_of_lt hp))

theorem isName_next (h : nextName bytes p < bytes.length) : isName bytes (nextName bytes p) = true :=
  Segments.isStart_next (Nat.lt_of_succ_lt h)

/-- The next name, where there is one. -/
theorem nextName_lt_iff : nextName bytes p < bytes.length ↔ namesFrom bytes (nextName bytes p) ≠ [] := by
  constructor
  · intro hlt
    rw [namesFrom_of_start hlt (isName_next hlt)]
    exact List.cons_ne_nil _ _
  · intro hne
    by_contra hge
    exact hne (namesFrom_of_le (by omega))

/-- Up to the end of the property, `strnlen` finds the end of the name. -/
theorem strnlen_rest (bytes : List UInt8) (k : ℕ) :
    ∀ p, p + k = bytes.length → strnlen bytes p k = some (nameLength bytes p) := by
  induction k with
  | zero =>
    intro p hp
    rw [strnlen, nameLength, Segments.segmentLength, List.drop_of_length_le (by omega), List.findIdx_nil]
  | succ k ih =>
    intro p hp
    have hlt : p < bytes.length := by omega
    rw [strnlen, List.getElem?_eq_getElem hlt, nameLength, Segments.segmentLength, List.drop_eq_getElem_cons hlt,
      List.findIdx_cons]
    dsimp only
    by_cases hzero : bytes[p] = 0
    · rw [if_pos hzero, hzero]
      rfl
    · have hbeq : (bytes[p] == 0) = false := beq_eq_false_iff_ne.mpr hzero
      rw [if_neg hzero, ih (p + 1) (by omega), hbeq]
      rfl

theorem sizeOfInt_natCast {n : ℕ} (h : n < 2 ^ 64) : sizeOfInt n = n := by
  unfold sizeOfInt
  omega

/-- What is left of the property, from a position that is at most one behind the end. -/
def restLength (bytes : List UInt8) (p : ℕ) : ℤ := (bytes.length : ℤ) - p

/-- One name. -/
theorem splitLoop_of_start (hlen : bytes.length < 2 ^ 31) (hp : p < bytes.length) (i : ℕ)
    (names : List (Option ℕ)) :
    splitLoop bytes p (restLength bytes p) i names =
      if i < namesSize then
        if nextName bytes p < bytes.length ∨ i + 1 < namesSize then
          splitLoop bytes (nextName bytes p) (restLength bytes (nextName bytes p)) (i + 1) (names.set i (some p))
        else .ok (names.set i (some p))
      else .error .storeOutside := by
  have hle : p + nameLength bytes p ≤ bytes.length := Segments.segmentLength_le (Nat.le_of_lt hp)
  have hsize : sizeOfInt (restLength bytes p) = bytes.length - p := by
    rw [restLength, ← Int.ofNat_sub (Nat.le_of_lt hp)]
    exact sizeOfInt_natCast (by omega)
  have hread : strnlen bytes p (sizeOfInt (restLength bytes p)) = some (nameLength bytes p) := by
    rw [hsize]
    exact strnlen_rest bytes _ p (by omega)
  unfold nextName
  generalize nameLength bytes p = len at hle hread ⊢
  have hmod : len % 2 ^ 32 = len := Nat.mod_eq_of_lt (by omega)
  have hmod' : (len + 1) % 2 ^ 32 = len + 1 := Nat.mod_eq_of_lt (by omega)
  have hrest : (restLength bytes p - (len + 1 : ℕ)).bmod (2 ^ 32) = restLength bytes (p + len + 1) := by
    unfold restLength
    rw [Int.bmod_eq_of_le_mul_two (by omega) (by omega)]
    omega
  rw [splitLoop, hread]
  dsimp only
  rw [hmod, hmod', hrest, ← Nat.add_assoc]

/-- Behind the end no byte can be read, and the length that is left is that of the whole memory. -/
theorem splitLoop_behind (bytes : List UInt8) (i : ℕ) (names : List (Option ℕ)) :
    splitLoop bytes (bytes.length + 1) (restLength bytes (bytes.length + 1)) i names = .error .readOutside := by
  have hsize : sizeOfInt (restLength bytes (bytes.length + 1)) = (2 ^ 64 - 2) + 1 := by
    unfold sizeOfInt restLength
    omega
  have hread : strnlen bytes (bytes.length + 1) ((2 ^ 64 - 2) + 1) = none := by
    rw [strnlen, List.getElem?_eq_none (Nat.le_succ _)]
  rw [splitLoop, hsize, hread]

/-- At the end the loop finds an empty name. -/
theorem splitLoop_end (bytes : List UInt8) (hi : i < namesSize) (names : List (Option ℕ)) :
    splitLoop bytes bytes.length (restLength bytes bytes.length) i names =
      if i + 1 < namesSize then .error .readOutside else .ok (names.set i (some bytes.length)) := by
  have hread : strnlen bytes bytes.length (sizeOfInt (restLength bytes bytes.length)) = some 0 := by
    rw [restLength, Int.sub_self]
    rfl
  have hrest : (restLength bytes bytes.length - (0 + 1 : ℕ)).bmod (2 ^ 32) = restLength bytes (bytes.length + 1) := by
    unfold restLength
    rw [Int.bmod_eq_of_le_mul_two (by omega) (by omega)]
    omega
  have hover : ¬ bytes.length + 1 < bytes.length := by omega
  rw [splitLoop, hread]
  dsimp only
  rw [if_pos hi, Nat.zero_mod, hrest]
  simp only [Nat.zero_add, Nat.one_mod_eq_one.mpr (by decide : (2 ^ 32 : ℕ) ≠ 1), hover, false_or]
  rw [splitLoop_behind]

/-! ### The whole loop -/

/-- Where exactly the rest of `names` is needed, it has the names. -/
theorem splitLoop_exact (hlen : bytes.length < 2 ^ 31) (rest : List ℕ) :
    ∀ p i names, p < bytes.length → isName bytes p = true → namesFrom bytes p = rest → i + rest.length = namesSize →
      names.length = namesSize →
      ∃ out, splitLoop bytes p (restLength bytes p) i names = .ok out ∧ out.length = namesSize ∧
        (∀ j < i, out[j]? = names[j]?) ∧ ∀ j < rest.length, out[i + j]? = some rest[j]? := by
  induction rest with
  | nil =>
    intro p i names hp hname hrest
    rw [namesFrom_of_start hp hname] at hrest
    exact absurd hrest (List.cons_ne_nil _ _)
  | cons q rest ih =>
    intro p i names hp hname hrest hroom hnames
    rw [List.length_cons] at hroom
    rw [namesFrom_of_start hp hname, List.cons.injEq] at hrest
    obtain ⟨rfl, hrest⟩ := hrest
    have hi : i < namesSize := by omega
    have hset : (names.set i (some p))[i]? = some (some p) := by
      rw [List.getElem?_set_self (by omega)]
    have hcond : (nextName bytes p < bytes.length ∨ i + 1 < namesSize) ↔ rest ≠ [] := by
      rw [nextName_lt_iff, hrest, ← List.length_pos_iff]
      omega
    rw [splitLoop_of_start hlen hp, if_pos hi]
    by_cases hmore : rest = []
    · subst hmore
      rw [if_neg (hcond.not.mpr (by simp))]
      refine ⟨_, rfl, by rw [List.length_set, hnames], fun j hj => List.getElem?_set_ne (by omega), fun j hj => ?_⟩
      obtain rfl : j = 0 := by simpa using hj
      exact hset
    · rw [if_pos (hcond.mpr hmore)]
      have hlt : nextName bytes p < bytes.length := nextName_lt_iff.mpr (hrest ▸ hmore)
      obtain ⟨out, hout, hsize, hbefore, hnamed⟩ := ih _ (i + 1) (names.set i (some p)) hlt (isName_next hlt) hrest
        (by omega) (by rw [List.length_set, hnames])
      refine ⟨out, hout, hsize, fun j hj => ?_, fun j hj => ?_⟩
      · rw [hbefore j (by omega), List.getElem?_set_ne (by omega)]
      · cases j with
        | zero => rw [Nat.add_zero, hbefore i (by omega), hset, List.getElem?_cons_zero]
        | succ j =>
          rw [List.getElem?_cons_succ, ← hnamed j (by simpa using hj)]
          congr 1
          omega

/-- With more names, there is a store behind `names`. -/
theorem splitLoop_many (hlen : bytes.length < 2 ^ 31) (rest : List ℕ) :
    ∀ p i names, p < bytes.length → isName bytes p = true → namesFrom bytes p = rest → namesSize < i + rest.length →
      splitLoop bytes p (restLength bytes p) i names = .error .storeOutside := by
  induction rest with
  | nil =>
    intro p i names hp hname hrest
    rw [namesFrom_of_start hp hname] at hrest
    exact absurd hrest (List.cons_ne_nil _ _)
  | cons q rest ih =>
    intro p i names hp hname hrest hroom
    rw [List.length_cons] at hroom
    rw [namesFrom_of_start hp hname, List.cons.injEq] at hrest
    rw [splitLoop_of_start hlen hp]
    by_cases hi : i < namesSize
    · have hmore : rest ≠ [] := by
        rw [← List.length_pos_iff]
        omega
      have hlt : nextName bytes p < bytes.length := nextName_lt_iff.mpr (hrest.2 ▸ hmore)
      rw [if_pos hi, if_pos (Or.inl hlt)]
      exact ih _ (i + 1) _ hlt (isName_next hlt) hrest.2 (by omega)
    · rw [if_neg hi]

/-- With fewer names, the loop reads behind the property, or takes its end for a name. -/
theorem splitLoop_few (hlen : bytes.length < 2 ^ 31) (rest : List ℕ) :
    ∀ p i names out, p ≤ bytes.length + 1 → (p < bytes.length → isName bytes p = true) → namesFrom bytes p = rest →
      i + rest.length < namesSize → names.length = namesSize →
      splitLoop bytes p (restLength bytes p) i names = .ok out → out[namesSize - 1]? = some (some bytes.length) := by
  induction rest with
  | nil =>
    intro p i names out hp hname hrest hroom hnames hout
    rw [List.length_nil] at hroom
    have hend : bytes.length ≤ p := by
      by_contra hlt
      rw [namesFrom_of_start (by omega) (hname (by omega))] at hrest
      exact absurd hrest (List.cons_ne_nil _ _)
    rcases Nat.eq_or_lt_of_le hend with rfl | hgt
    · rw [splitLoop_end bytes (by omega)] at hout
      split_ifs at hout with hi
      obtain rfl := Except.ok.inj hout
      obtain rfl : i = namesSize - 1 := by omega
      rw [List.getElem?_set_self (by omega)]
    · obtain rfl : p = bytes.length + 1 := by omega
      rw [splitLoop_behind] at hout
      cases hout
  | cons q rest ih =>
    intro p i names out hp hname hrest hroom hnames hout
    rw [List.length_cons] at hroom
    have hlt : p < bytes.length := by
      by_contra hge
      rw [namesFrom_of_le (by omega)] at hrest
      exact absurd hrest.symm (List.cons_ne_nil _ _)
    rw [namesFrom_of_start hlt (hname hlt), List.cons.injEq] at hrest
    rw [splitLoop_of_start hlen hlt, if_pos (by omega), if_pos (Or.inr (by omega))] at hout
    exact ih _ (i + 1) _ out (nextName_le hlt) isName_next hrest.2 (by omega)
      (by rw [List.length_set, hnames]) hout

namespace PropertyValue

/-- The names in a property. -/
def nameStarts (value : PropertyValue) : List ℕ := Segments.starts (· == 0) value.bytes

/-- The comment of the loop: the first five names are found, the others are `NULL`, and nothing outside is
read or written. -/
def SplitsSafely (value : PropertyValue) : Prop :=
  ∃ names, value.splitNames = .ok names ∧ names.length = namesSize ∧
    ∀ i < namesSize, names[i]? = some value.nameStarts[i]?

/-- **The loop is safe** exactly for five names. -/
theorem splitsSafely_iff (value : PropertyValue) : value.SplitsSafely ↔ value.nameStarts.length = namesSize := by
  obtain ⟨bytes, hlen⟩ := value
  have hstart : restLength bytes 0 = bytes.length := Int.sub_zero _
  unfold SplitsSafely splitNames nameStarts
  dsimp only
  rw [← hstart]
  constructor
  · rintro ⟨names, hnames, hsize, hfound⟩
    by_contra hne
    rcases Nat.lt_or_gt_of_ne hne with hfew | hmany
    · have hlast := splitLoop_few hlen _ 0 0 _ names (Nat.zero_le _) (fun _ => rfl) rfl
        (by rw [Nat.zero_add]; exact hfew) List.length_replicate hnames
      rw [hfound _ (by decide), List.getElem?_eq_none (Nat.le_sub_one_of_lt hfew)] at hlast
      exact absurd hlast (by simp)
    · have hp : 0 < bytes.length := by
        by_contra hle
        rw [Segments.starts, Segments.startsFrom_of_le (by omega)] at hmany
        exact absurd hmany (Nat.not_lt_zero _)
      rw [splitLoop_many hlen _ 0 0 _ hp rfl rfl (by rw [Nat.zero_add]; exact hmany)] at hnames
      cases hnames
  · intro hfive
    have hp : 0 < bytes.length := by
      by_contra hle
      rw [Segments.starts, Segments.startsFrom_of_le (by omega)] at hfive
      exact absurd hfive (by decide)
    obtain ⟨out, hout, hsize, -, hnamed⟩ := splitLoop_exact hlen _ 0 0 (List.replicate namesSize none) hp rfl rfl
      (by rw [Nat.zero_add]; exact hfive) List.length_replicate
    refine ⟨out, hout, hsize, fun i hi => ?_⟩
    have hi' := hnamed i (by rw [← hfive] at hi; exact hi)
    rwa [Nat.zero_add] at hi'

/-- `evdev`, without a NUL. -/
def evdev : PropertyValue := ⟨[101, 118, 100, 101, 118], by decide⟩

/-- One name: the loop reads behind it. -/
theorem not_splitsSafely_evdev : evdev.splitNames = .error .readOutside ∧ ¬ evdev.SplitsSafely := by
  have hstart : restLength evdev.bytes 0 = evdev.bytes.length := Int.sub_zero _
  have hcode : evdev.splitNames = .error .readOutside := by
    rw [splitNames, ← hstart, splitLoop_of_start evdev.length_lt (by decide), if_pos (by decide),
      if_pos (Or.inr (by decide))]
    exact splitLoop_behind evdev.bytes 1 _
  refine ⟨hcode, ?_⟩
  rintro ⟨names, hnames, -⟩
  rw [hcode] at hnames
  cases hnames

end PropertyValue
end Fcitx
