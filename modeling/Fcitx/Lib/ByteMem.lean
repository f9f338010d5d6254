/-
# A block of bytes

The bytes of a block of memory, with little-endian numbers stored in it: what
was stored is read back, and what is stored elsewhere is not seen. Where the
block is cut into slots of one size, slots do not overlap (`load_slot`).

Key definitions: `ByteMem`, `ByteMem.load`, `ByteMem.store`, `ByteMem.readInt`,
`ByteMem.writeInt`, `ByteMem.readPtr`, `ByteMem.writePtr`.
Key theorems: `ByteMem.load_store`, `ByteMem.load_store_of_disjoint`,
`ByteMem.readInt_writeInt_slot`, `ByteMem.load_slot`.
-/
import Mathlib.Data.Nat.ModEq
import Mathlib.Tactic.Ring

/-- The bytes of a block, by their offset. -/
abbrev ByteMem := ℕ → UInt8

namespace ByteMem

/-! ### Numbers as bytes -/

/-- The `n` bytes of a number, the lowest first. -/
def leBytes : ℕ → ℕ → List UInt8
  | 0, _ => []
  | n + 1, x => UInt8.ofNat x :: leBytes n (x / 256)

/-- The number of some bytes. -/
def ofLeBytes : List UInt8 → ℕ
  | [] => 0
  | b :: bs => b.toNat + 256 * ofLeBytes bs

@[simp] theorem length_leBytes (n x : ℕ) : (leBytes n x).length = n := by
  induction n generalizing x with
  | zero => rfl
  | succ n ih => rw [leBytes, List.length_cons, ih]

theorem ofLeBytes_leBytes (n x : ℕ) : ofLeBytes (leBytes n x) = x % 256 ^ n := by
  induction n generalizing x with
  | zero => simp [leBytes, ofLeBytes, Nat.mod_one]
  | succ n ih =>
    rw [leBytes, ofLeBytes, ih, pow_succ', Nat.mod_mul, UInt8.toNat_ofNat']

/-! ### Loading and storing -/

def load (m : ByteMem) (off n : ℕ) : List UInt8 := (List.range n).map fun k => m (off + k)

def store (m : ByteMem) (off : ℕ) (bs : List UInt8) : ByteMem :=
  fun a => if off ≤ a then bs[a - off]?.getD (m a) else m a

variable {m m' : ByteMem} {off off' n : ℕ} {bs : List UInt8}

theorem store_of_notMem {a : ℕ} (h : a < off ∨ off + bs.length ≤ a) : m.store off bs a = m a := by
  unfold store
  split
  · rw [List.getElem?_eq_none (by omega), Option.getD_none]
  · rfl

theorem load_congr (h : ∀ k < n, m (off + k) = m' (off + k)) : m.load off n = m'.load off n :=
  List.map_congr_left fun k hk => h k (List.mem_range.mp hk)

/-- What was stored is read back. -/
theorem load_store (h : n = bs.length) : (m.store off bs).load off n = bs := by
  subst h
  refine List.ext_getElem (by simp [load]) fun k hk _ => ?_
  have hlt : k < bs.length := by simpa [load] using hk
  simp [load, store, hlt]

/-- What is stored elsewhere is not seen. -/
theorem load_store_of_disjoint (h : off + n ≤ off' ∨ off' + bs.length ≤ off) :
    (m.store off' bs).load off n = m.load off n :=
  load_congr fun k hk => store_of_notMem (by omega)

theorem load_store_leBytes (n x : ℕ) : (m.store off (leBytes n x)).load off n = leBytes n x :=
  load_store (length_leBytes n x).symm

/-- A slot ends before the slots behind it. -/
theorem slot_end_le {i j : ℕ} (h : i < j) (e : ℕ) : i * e + e ≤ j * e := by
  calc i * e + e = (i + 1) * e := (Nat.succ_mul i e).symm
    _ ≤ j * e := Nat.mul_le_mul_right e h

/-- Loads inside a slot do not see stores in another slot, nor elsewhere in the
same one. -/
theorem load_slot {e i j a b : ℕ} (ha : a + n ≤ e) (hb : b + bs.length ≤ e)
    (h : i = j → a + n ≤ b ∨ b + bs.length ≤ a) :
    (m.store (j * e + b) bs).load (i * e + a) n = m.load (i * e + a) n := by
  refine load_store_of_disjoint ?_
  rcases Nat.lt_trichotomy i j with hij | hij | hij
  · have hle := slot_end_le hij e
    omega
  · have h := h hij
    subst hij
    omega
  · have hle := slot_end_le hij e
    omega

/-! ### Parts of what is loaded -/

section parts

variable {as bs' cs : List UInt8}

@[simp] theorem length_load (m : ByteMem) (off n : ℕ) : (m.load off n).length = n := by
  rw [load, List.length_map, List.length_range]

theorem load_append (m : ByteMem) (off a b : ℕ) : m.load off (a + b) = m.load off a ++ m.load (off + a) b := by
  rw [load, List.range_add, List.map_append, List.map_map, load, load]
  refine congrArg (_ ++ ·) (List.map_congr_left fun k _ => ?_)
  rw [Function.comp_apply, Nat.add_assoc]

/-- What is loaded, in three parts. -/
theorem load_parts (h : m.load off n = as ++ bs ++ cs) : n = as.length + bs.length + cs.length ∧
    m.load off as.length = as ∧ m.load (off + as.length) bs.length = bs ∧
    m.load (off + (as.length + bs.length)) cs.length = cs := by
  have hn := congrArg List.length h
  rw [length_load, List.length_append, List.length_append] at hn
  rw [hn, load_append, load_append] at h
  obtain ⟨hfront, hcs⟩ := List.append_inj h (by simp)
  obtain ⟨has, hbs⟩ := List.append_inj hfront (by simp)
  exact ⟨hn, has, hbs, hcs⟩

/-- Storing over a part. -/
theorem load_store_part (h : m.load off n = as ++ bs ++ cs) (hlen : bs'.length = bs.length) :
    (m.store (off + as.length) bs').load off n = as ++ bs' ++ cs := by
  obtain ⟨hn, has, -, hcs⟩ := load_parts h
  rw [hn, load_append, load_append, load_store_of_disjoint (Or.inl (Nat.le_refl _)), has,
    load_store hlen.symm, load_store_of_disjoint (Or.inr (by omega)), hcs]

end parts

/-! ### Integers and pointers -/

/-- A 32-bit integer, in two's complement. -/
def readInt (m : ByteMem) (off : ℕ) : ℤ := (ofLeBytes (m.load off 4) : ℤ).bmod (0x100000000)

def writeInt (m : ByteMem) (off : ℕ) (z : ℤ) : ByteMem :=
  m.store off (leBytes 4 (z % 0x100000000).toNat)

/-- A 64-bit pointer. -/
def readPtr (m : ByteMem) (off : ℕ) : ℕ := ofLeBytes (m.load off 8)

def writePtr (m : ByteMem) (off p : ℕ) : ByteMem := m.store off (leBytes 8 p)

theorem load_writeInt (z : ℤ) : (m.writeInt off z).load off 4 = leBytes 4 (z % 0x100000000).toNat :=
  load_store_leBytes 4 _

theorem load_writePtr (p : ℕ) : (m.writePtr off p).load off 8 = leBytes 8 p := load_store_leBytes 8 p

/-- Two's complement. -/
theorem bmod_emod {z : ℤ} (h : -0x80000000 ≤ z) (h' : z < 0x80000000) : (z % 0x100000000).bmod (0x100000000) = z := by
  rw [Int.bmod_def]
  split <;> omega

theorem readInt_writeInt {z : ℤ} (h : -0x80000000 ≤ z) (h' : z < 0x80000000) :
    (m.writeInt off z).readInt off = z := by
  have hload : (m.writeInt off z).readInt off =
      (ofLeBytes (leBytes 4 (z % 0x100000000).toNat) : ℤ).bmod (0x100000000) :=
    congrArg (fun l => (ofLeBytes l : ℤ).bmod (0x100000000)) (load_writeInt z)
  have hbytes : ofLeBytes (leBytes 4 (z % 0x100000000).toNat) = (z % 0x100000000).toNat :=
    (ofLeBytes_leBytes 4 _).trans (Nat.mod_eq_of_lt (by omega))
  have hnat : ((z % 0x100000000).toNat : ℤ) = z % 0x100000000 := Int.toNat_of_nonneg (by omega)
  exact hload.trans (by rw [hbytes, hnat, bmod_emod h h'])

/-- The integer that some of the bytes make. -/
theorem readInt_of_load {z : ℤ} {as cs : List UInt8} (h : -0x80000000 ≤ z) (h' : z < 0x80000000)
    (hload : m.load off n = as ++ leBytes 4 (z % 0x100000000).toNat ++ cs) :
    m.readInt (off + as.length) = z := by
  obtain ⟨-, -, hpart, -⟩ := load_parts hload
  rw [length_leBytes] at hpart
  have hsame : (m.writeInt (off + as.length) z).readInt (off + as.length) = m.readInt (off + as.length) :=
    congrArg (fun l => (ofLeBytes l : ℤ).bmod (0x100000000)) ((load_writeInt z).trans hpart.symm)
  rw [← hsame, readInt_writeInt h h']

theorem readPtr_writePtr {p : ℕ} (h : p < 2 ^ 64) : (m.writePtr off p).readPtr off = p := by
  have hload : (m.writePtr off p).readPtr off = ofLeBytes (leBytes 8 p) :=
    congrArg ofLeBytes (load_writePtr p)
  have hbytes : ofLeBytes (leBytes 8 p) = p := (ofLeBytes_leBytes 8 p).trans (by omega)
  exact hload.trans hbytes

theorem readInt_congr (h : ∀ k < 4, m (off + k) = m' (off + k)) : m.readInt off = m'.readInt off :=
  congrArg (fun l => (ofLeBytes l : ℤ).bmod (0x100000000)) (load_congr h)

theorem readPtr_congr (h : ∀ k < 8, m (off + k) = m' (off + k)) : m.readPtr off = m'.readPtr off :=
  congrArg ofLeBytes (load_congr h)

/-! ### Numbers in slots -/

section slots

variable {e i j a b : ℕ} {z : ℤ}

theorem readInt_slot (ha : a + 4 ≤ e) (hb : b + bs.length ≤ e)
    (h : i = j → a + 4 ≤ b ∨ b + bs.length ≤ a) :
    (m.store (j * e + b) bs).readInt (i * e + a) = m.readInt (i * e + a) :=
  congrArg (fun l => (ofLeBytes l : ℤ).bmod (0x100000000)) (load_slot ha hb h)

theorem readPtr_slot (ha : a + 8 ≤ e) (hb : b + bs.length ≤ e)
    (h : i = j → a + 8 ≤ b ∨ b + bs.length ≤ a) :
    (m.store (j * e + b) bs).readPtr (i * e + a) = m.readPtr (i * e + a) :=
  congrArg ofLeBytes (load_slot ha hb h)

/-- Reading the field a number was written to. -/
theorem readInt_writeInt_slot (ha : a + 4 ≤ e) (h : -0x80000000 ≤ z) (h' : z < 0x80000000) :
    (m.writeInt (j * e + a) z).readInt (i * e + a) = if i = j then z else m.readInt (i * e + a) := by
  split
  · next hij =>
    subst hij
    exact readInt_writeInt h h'
  · next hij => exact readInt_slot ha (by simpa using ha) fun e => absurd e hij

end slots

-- unification must not compute with the bytes of a number
attribute [irreducible] readInt readPtr

end ByteMem
