/-
# Lead bytes and continuation bytes

A number is written as a lead byte and up to five continuation bytes: each of
these carries six bits, and the lead byte says how many follow and has the rest.
The bytes that have this form are those that some number below the limit of its
length is written with.

Key definitions: `Sextets.digits`, `Sextets.join`, `Sextets.Form`, `Sextets.value`,
`Sextets.trail`.
Key theorems: `Sextets.form_lead_trail`, `Sextets.value_lead_trail`, `Sextets.lead_trail_value`,
`Sextets.value_lt`.
-/
import Mathlib.Algebra.Order.Ring.Nat
import Mathlib.Data.List.Induction

namespace Sextets

/-! ### Digits -/

/-- The last `k` base-64 digits of `c`, the highest one first. -/
def digits : ℕ → ℕ → List ℕ
  | 0, _ => []
  | k + 1, c => c / 64 ^ k % 64 :: digits k c

/-- The number with the digits `ds` behind `x`. -/
def join (x : ℕ) (ds : List ℕ) : ℕ := ds.foldl (fun acc d => acc * 64 + d) x

variable {k c x : ℕ} {ds : List ℕ}

@[simp] theorem join_cons (x d : ℕ) (ds : List ℕ) : join x (d :: ds) = join (x * 64 + d) ds := rfl

@[simp] theorem length_digits : ∀ k c, (digits k c).length = k
  | 0, _ => rfl
  | k + 1, c => congrArg Nat.succ (length_digits k c)

theorem digits_lt : ∀ k c, ∀ d ∈ digits k c, d < 64
  | 0, _, _, hd => absurd hd List.not_mem_nil
  | k + 1, c, d, hd => by
    rcases List.mem_cons.mp hd with rfl | hd
    · exact Nat.mod_lt _ (by decide)
    · exact digits_lt k c d hd

theorem join_digits (k c : ℕ) : join (c / 64 ^ k) (digits k c) = c := by
  induction k with
  | zero => exact Nat.div_one c
  | succ k ih =>
    have hstep : c / 64 ^ (k + 1) * 64 + c / 64 ^ k % 64 = c / 64 ^ k := by
      rw [Nat.pow_succ, ← Nat.div_div_eq_div_mul]
      omega
    rw [digits, join_cons, hstep]
    exact ih

theorem join_concat (x : ℕ) (ds : List ℕ) (d : ℕ) : join x (ds ++ [d]) = join x ds * 64 + d := by
  rw [join, List.foldl_append]
  rfl

theorem le_join (x : ℕ) (ds : List ℕ) : x ≤ join x ds := by
  induction ds generalizing x with
  | nil => exact Nat.le_refl x
  | cons d ds ih =>
    have hx : x ≤ x * 64 + d := by omega
    rw [join_cons]
    exact Nat.le_trans hx (ih (x * 64 + d))

theorem digits_succ (k c : ℕ) : digits (k + 1) c = digits k (c / 64) ++ [c % 64] := by
  induction k with
  | zero => simp [digits]
  | succ k ih =>
    rw [digits, ih, digits, Nat.div_div_eq_div_mul, ← Nat.pow_succ', List.cons_append]

theorem join_div (hds : ∀ d ∈ ds, d < 64) : join x ds / 64 ^ ds.length = x := by
  induction ds using List.reverseRecOn with
  | nil => exact Nat.div_one x
  | append_singleton ds d ih =>
    have hd : d < 64 := hds d (by simp)
    rw [join_concat, List.length_append, List.length_singleton, Nat.pow_succ', ← Nat.div_div_eq_div_mul,
      show (join x ds * 64 + d) / 64 = join x ds by omega]
    exact ih fun d' hd' => hds d' (List.mem_append_left _ hd')

theorem digits_join (hds : ∀ d ∈ ds, d < 64) : digits ds.length (join x ds) = ds := by
  induction ds using List.reverseRecOn with
  | nil => rfl
  | append_singleton ds d ih =>
    have hd : d < 64 := hds d (by simp)
    rw [join_concat, List.length_append, List.length_singleton, digits_succ,
      show (join x ds * 64 + d) / 64 = join x ds by omega, show (join x ds * 64 + d) % 64 = d by omega,
      ih fun d' hd' => hds d' (List.mem_append_left _ hd')]

/-! ### Bytes -/

/-- The first lead byte with `k` continuation bytes. -/
def leadBase : ℕ → ℕ
  | 0 => 0
  | 1 => 0xC0
  | 2 => 0xE0
  | 3 => 0xF0
  | 4 => 0xF8
  | _ => 0xFC

/-- How many lead bytes have `k` continuation bytes. -/
def leadSize : ℕ → ℕ
  | 0 => 0x80
  | 1 => 0x20
  | 2 => 0x10
  | 3 => 8
  | 4 => 4
  | _ => 2

theorem lead_le (k : ℕ) : leadBase k + leadSize k ≤ 254 := by
  rcases k with _ | _ | _ | _ | _ | k
  · decide
  · decide
  · decide
  · decide
  · decide
  · exact (by decide : 0xFC + 2 ≤ 254)

/-- A lead byte with the continuation bytes it asks for. -/
structure Form (l : UInt8) (ts : List UInt8) : Prop where
  length_le : ts.length ≤ 5
  lead_ge : leadBase ts.length ≤ l.toNat
  lead_lt : l.toNat < leadBase ts.length + leadSize ts.length
  continues : ∀ t ∈ ts, 0x80 ≤ t.toNat ∧ t.toNat < 0xC0

/-- The number that a form stands for. -/
def value (l : UInt8) (ts : List UInt8) : ℕ :=
  join (l.toNat - leadBase ts.length) (ts.map fun t => t.toNat - 0x80)

/-- The lead byte of `c` before `k` continuation bytes. -/
def lead (k c : ℕ) : UInt8 := UInt8.ofNat (leadBase k + c / 64 ^ k)

/-- The `k` continuation bytes of `c`. -/
def trail (k c : ℕ) : List UInt8 := (digits k c).map fun d => UInt8.ofNat (0x80 + d)

theorem length_trail (k c : ℕ) : (trail k c).length = k := by
  rw [trail, List.length_map, length_digits]

theorem toNat_lead (hc : c < leadSize k * 64 ^ k) : (lead k c).toNat = leadBase k + c / 64 ^ k := by
  have hlt : c / 64 ^ k < leadSize k := Nat.div_lt_of_lt_mul (by rwa [Nat.mul_comm])
  have hle := lead_le k
  rw [lead, UInt8.toNat_ofNat']
  generalize c / 64 ^ k = x at hlt ⊢
  omega

theorem toNat_continuation {d : ℕ} (hd : d < 64) : (UInt8.ofNat (0x80 + d)).toNat = 0x80 + d := by
  rw [UInt8.toNat_ofNat']
  omega

theorem form_lead_trail (hk : k ≤ 5) (hc : c < leadSize k * 64 ^ k) : Form (lead k c) (trail k c) := by
  have hlt : c / 64 ^ k < leadSize k := Nat.div_lt_of_lt_mul (by rwa [Nat.mul_comm])
  refine ⟨?_, ?_, ?_, fun t ht => ?_⟩
  · rw [length_trail]
    exact hk
  · rw [length_trail, toNat_lead hc]
    exact Nat.le_add_right ..
  · rw [length_trail, toNat_lead hc]
    exact Nat.add_lt_add_left hlt _
  · obtain ⟨d, hd, rfl⟩ := List.mem_map.mp ht
    have hd := digits_lt k c d hd
    rw [toNat_continuation hd]
    omega

/-- What is written is read back. -/
theorem value_lead_trail (hc : c < leadSize k * 64 ^ k) : value (lead k c) (trail k c) = c := by
  have hmap : (trail k c).map (fun t => t.toNat - 0x80) = digits k c := by
    rw [trail, List.map_map]
    refine (List.map_congr_left fun d hd => ?_).trans (List.map_id _)
    have hd := digits_lt k c d hd
    rw [Function.comp_apply, toNat_continuation hd]
    exact Nat.add_sub_cancel_left ..
  rw [value, hmap, length_trail, toNat_lead hc, Nat.add_sub_cancel_left]
  exact join_digits k c

theorem value_lt {l : UInt8} {ts : List UInt8} (h : Form l ts) :
    value l ts < leadSize ts.length * 64 ^ ts.length := by
  have hds : ∀ d ∈ ts.map (fun t => t.toNat - 0x80), d < 64 := by
    intro d hd
    obtain ⟨t, ht, rfl⟩ := List.mem_map.mp hd
    have ht := h.continues t ht
    omega
  have hdiv := join_div (x := l.toNat - leadBase ts.length) hds
  rw [List.length_map] at hdiv
  have hlead := h.lead_lt
  have hge := h.lead_ge
  refine Nat.lt_mul_of_div_lt ?_ (Nat.pow_pos (by decide))
  rw [value, hdiv]
  omega

/-- What is read is written again. -/
theorem lead_trail_value {l : UInt8} {ts : List UInt8} (h : Form l ts) :
    lead ts.length (value l ts) = l ∧ trail ts.length (value l ts) = ts := by
  have hds : ∀ d ∈ ts.map (fun t => t.toNat - 0x80), d < 64 := by
    intro d hd
    obtain ⟨t, ht, rfl⟩ := List.mem_map.mp hd
    have ht := h.continues t ht
    omega
  have hdiv := join_div (x := l.toNat - leadBase ts.length) hds
  have hdigits := digits_join (x := l.toNat - leadBase ts.length) hds
  rw [List.length_map] at hdiv hdigits
  constructor
  · have hge := h.lead_ge
    rw [lead, value, hdiv, Nat.add_sub_cancel' hge, UInt8.ofNat_toNat]
  · rw [trail, value, hdigits, List.map_map]
    refine (List.map_congr_left fun t ht => ?_).trans (List.map_id _)
    have ht := h.continues t ht
    rw [Function.comp_apply, Nat.add_sub_cancel' ht.1, UInt8.ofNat_toNat]
    rfl

end Sextets
