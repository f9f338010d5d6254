/-
# Runs of an array of elements

Over any run the elements of an array are those of the list, whatever room was made for them
(`UtArray.run_contents`), and going through it visits them in order (`UtArray.visits_eq`). What slots
are filled with is let go once, when it is taken out or at the end, but for what
`utarray_remove_quick` leaves to the caller (`UtArray.run_released`).

Key definitions: `UtOp.step`, `UtOp.along`, `UtArray.visits`.
Key theorems: `UtOp.step_perm`, `UtArray.visits_eq`, `UtArray.run_contents`, `UtArray.run_released`.
-/
import Fcitx.Lib.Run
import Fcitx.Utils.UtArray
import Mathlib.Data.List.Perm.Basic

namespace Fcitx

open MsortR

variable {s : ℕ}

namespace UtOp

/-- The operation on the list and the calls. -/
def step (icd : UtIcd s) (st : List (Elem s) × List (UtCall s)) (op : UtOp s) : List (Elem s) × List (UtCall s) :=
  (op.onList icd st.2.length st.1,
    st.2 ++ op.fillCalls icd st.2.length st.1 ++ UtArray.dtorCalls icd (op.released st.1))

def StepAllowed (icd : UtIcd s) (st : List (Elem s) × List (UtCall s)) (op : UtOp s) : Prop := op.Allowed icd st.1

instance (icd : UtIcd s) (st : List (Elem s) × List (UtCall s)) : ∀ op, Decidable (StepAllowed icd st op)
  | .reserve by' => inferInstanceAs (Decidable (UtArray.HasRoom s (st.1.length + by')))
  | .pushBack _ | .extendBack | .pushFront _ | .insert _ _ =>
    inferInstanceAs (Decidable (UtArray.HasRoom s (st.1.length + 1)))
  | .inserta w _ => inferInstanceAs (Decidable (UtArray.HasRoom s (st.1.length + w.i)))
  | .resize num => inferInstanceAs (Decidable ((num ≤ st.1.length ∨ icd.init = none) ∧
      UtArray.HasRoom s (max num st.1.length)))
  | .popBack => inferInstanceAs (Decidable (st.1 ≠ []))
  | .erase pos len => inferInstanceAs (Decidable (pos + len ≤ st.1.length))
  | .removeQuick pos | .removeQuickFull pos => inferInstanceAs (Decidable (pos < st.1.length))
  | .move _ _ | .clear => .isTrue trivial

/-- What the operations of a run give, one after the other. -/
def along (icd : UtIcd s) (f : List (Elem s) × List (UtCall s) → UtOp s → List (Elem s)) :
    List (Elem s) × List (UtCall s) → List (UtOp s) → List (Elem s)
  | _, [] => []
  | st, op :: ops => f st op ++ along icd f (step icd st op) ops

variable {icd : UtIcd s} {k : ℕ} {l : List (Elem s)} {op : UtOp s}

theorem fill_perm (l es : List (Elem s)) (j : ℕ) : (es ++ l).Perm (l.take j ++ es ++ l.drop j) := by
  have hperm := (List.perm_append_comm : List.Perm (es ++ l.take j) _).append_right (l.drop j)
  rwa [List.append_assoc es, List.take_append_drop] at hperm

/-- Taking out one element, and putting the last one in its place. -/
theorem set_last_perm {pos : ℕ} (hpos : pos < l.length) (z : Elem s) :
    l.Perm ((l.set pos (l.getLastD z)).dropLast ++ (l.drop pos).take 1) := by
  obtain ⟨front, x, back, rfl, rfl⟩ : ∃ front x back, l = front ++ x :: back ∧ front.length = pos :=
    ⟨l.take pos, l[pos], l.drop (pos + 1), by simp, by rw [List.length_take, Nat.min_eq_left (Nat.le_of_lt hpos)]⟩
  rw [List.drop_left, List.set_append_right _ _ (Nat.le_refl _), Nat.sub_self, List.set_cons_zero]
  rcases List.eq_nil_or_concat back with rfl | ⟨mid, y, rfl⟩
  · simp
  · have hconcat : ∀ w, front ++ w :: mid.concat y = (front ++ w :: mid) ++ [y] := fun w => by simp
    rw [hconcat x, List.getLastD_concat, hconcat y, List.dropLast_concat, List.append_assoc, List.append_assoc,
      List.take_succ_cons, List.take_zero]
    refine List.Perm.append_left front ?_
    exact (List.perm_append_comm : List.Perm ((x :: mid) ++ [y]) _).trans
      ((List.perm_append_comm : List.Perm ([x] ++ mid) _).cons y)

/-- **Elements come from somewhere**: what is put in is in the list, let go, or left to the caller. -/
theorem step_perm (ha : op.Allowed icd l) :
    (op.filled icd k l ++ l).Perm (op.onList icd k l ++ op.released l ++ op.taken l) := by
  cases op with
  | reserve by' => simp [filled, onList, released, taken]
  | pushBack p => simpa [filled, onList, released, taken] using (List.perm_append_singleton _ l).symm
  | popBack =>
    rcases List.eq_nil_or_concat l with rfl | ⟨front, x, rfl⟩
    · exact absurd rfl ha
    · simp [filled, onList, released, taken]
  | extendBack => simpa [filled, onList, released, taken] using (List.perm_append_singleton _ l).symm
  | pushFront p => simp [filled, onList, released, taken]
  | insert p j =>
    by_cases hj : j > l.length
    · simp [filled, onList, released, taken, hj, List.insertIdx_of_length_lt hj]
    · have hperm := fill_perm l [icd.copied k p] j
      simpa [filled, onList, released, taken, hj, insertIdx_of_le (Nat.le_of_not_lt hj)] using hperm
  | inserta w j =>
    by_cases hj : j > l.length
    · simp [filled, onList, released, taken, hj]
    · simpa [filled, onList, released, taken, hj] using fill_perm l (icd.copiedAll k w.contents) j
  | move f t =>
    by_cases hin : f < l.length ∧ t < l.length
    · obtain ⟨hf, ht⟩ := hin
      have hx : l.getD f (zeroElem s) = l[f] := by
        rw [List.getD_eq_getElem?_getD, List.getElem?_eq_getElem hf, Option.getD_some]
      have hperm : l.Perm ((l.eraseIdx f).insertIdx t l[f]) :=
        (List.getElem_cons_eraseIdx_perm hf).symm.trans
          (List.perm_insertIdx _ _ (by rw [List.length_eraseIdx_of_lt hf]; omega)).symm
      simpa [filled, onList, released, taken, hf, ht, hx] using hperm
    · simp [filled, onList, released, taken, hin]
  | resize num =>
    simpa [filled, onList, released, taken] using fill_perm l (List.replicate (num - l.length) (zeroElem s)) num
  | erase pos len =>
    have hsplit : l = l.take pos ++ ((l.drop pos).take len ++ l.drop (pos + len)) := by
      rw [← List.drop_drop, List.take_append_drop, List.take_append_drop]
    have hperm := (List.perm_append_comm : List.Perm ((l.drop pos).take len ++ l.drop (pos + len)) _).append_left
      (l.take pos)
    rw [← hsplit] at hperm
    simpa [filled, onList, released, taken] using hperm
  | removeQuick pos => simpa [filled, onList, released, taken] using set_last_perm ha (zeroElem s)
  | removeQuickFull pos => simpa [filled, onList, released, taken] using set_last_perm ha (zeroElem s)
  | clear => simp [filled, onList, released, taken]

/-- **Over a run** what slots were filled with is in the list, was let go, or left to the caller. -/
theorem run_perm {st : List (Elem s) × List (UtCall s)} {ops : List (UtOp s)}
    (ha : Run.Admissible (step icd) (StepAllowed icd) st ops) :
    (along icd (fun st op => op.filled icd st.2.length st.1) st ops ++ st.1).Perm
      ((Run.exec (step icd) st ops).1 ++ along icd (fun st op => op.released st.1) st ops ++
        along icd (fun st op => op.taken st.1) st ops) := by
  induction ops generalizing st with
  | nil => simp [along]
  | cons op ops ih =>
    have hstep := step_perm (k := st.2.length) ha.1
    have hrest := ih ha.2
    rw [List.perm_iff_count] at hstep hrest ⊢
    intro e
    have hone := hstep e
    have hmany := hrest e
    simp only [along, Run.exec_cons, step, List.count_append] at hone hmany ⊢
    omega

end UtOp

/-- What a call lets go of. -/
def UtCall.dtor? : UtCall s → Option (Elem s)
  | .dtor elt => some elt
  | .init _ | .copy _ _ => none

namespace UtArray

variable {a a' : UtArray s} {l : List (Elem s)} {d₀ : ByteMem} {k n : ℕ}

/-! ### Going through an array -/

/-- The conversion to an `int`. -/
def toInt (z : ℤ) : ℤ := z.bmod 0x100000000

theorem toInt_of_lt {z : ℕ} (hz : z < 0x80000000) : toInt z = z := by
  rw [toInt, Int.bmod_def]
  omega

/-- `utarray_eltidx` -/
def eltidx (_ : UtArray s) (e : ℕ) : ℤ := toInt ((e : ℤ).tdiv (toInt s))

/-- `utarray_front` -/
def front (a : UtArray s) : Option ℕ := if a.i ≠ 0 then some (0 * s) else none

/-- `utarray_next`; a pointer is the offset in the block, and NULL is `none`. -/
def next (a : UtArray s) (e : Option ℕ) : Option ℕ :=
  match e with
  | none => a.front
  | some e => if toInt a.i > a.eltidx e + 1 then some ((a.eltidx e + 1).toNat * s) else none

/-- The elements that `utarray_foreach` visits from `key` on, `rounds` at most. -/
def visits (a : UtArray s) : ℕ → Option ℕ → List (Elem s)
  | rounds + 1, some key => elemAt s a.d key :: a.visits rounds (a.next (some key))
  | _, _ => []

/-- **`utarray_foreach` visits the elements** in order. -/
theorem visits_eq (a : UtArray s) (hs : 0 < s) (hs' : s < 0x80000000) (hi : a.i < 0x80000000) {rounds : ℕ}
    (hrounds : a.i ≤ rounds) : a.visits rounds a.front = a.contents := by
  have hidx : ∀ j < a.i, a.eltidx (j * s) = j := fun j hj => by
    rw [eltidx, toInt_of_lt hs', ← Int.ofNat_tdiv, Nat.mul_div_cancel _ hs, toInt_of_lt (Nat.lt_trans hj hi)]
  have hloop : ∀ rounds j, j < a.i → a.i ≤ j + rounds →
      a.visits rounds (some (j * s)) = elems s a.d (j * s) (a.i - j) := by
    intro rounds
    induction rounds with
    | zero => intro j hj hle; omega
    | succ rounds ih =>
      intro j hj hle
      obtain ⟨r, hr⟩ : ∃ r, a.i - j = r + 1 := ⟨a.i - j - 1, by omega⟩
      rw [visits, hr, elems_succ_front, next, hidx j hj, toInt_of_lt hi]
      by_cases hmore : j + 1 < a.i
      · have hnext : ((j : ℤ) + 1).toNat = j + 1 := by omega
        rw [if_pos (by omega), hnext, ih (j + 1) hmore (by omega), Nat.succ_mul]
        congr 2
        omega
      · have hzero : r = 0 := by omega
        rw [if_neg (by omega), hzero, elems_zero]
        cases rounds <;> rfl
  rw [front]
  by_cases hzero : a.i = 0
  · rw [if_neg (by simpa using hzero), contents, hzero]
    cases rounds <;> rfl
  · rw [if_pos hzero, hloop rounds 0 (by omega) (by omega), Nat.zero_mul]
    rfl

/-! ### Runs -/

def step (a : Option (UtArray s)) (op : UtOp s) : Option (UtArray s) := a.bind (·.apply op)

theorem exec_holds {icd : UtIcd s} {ops : List (UtOp s)} (hicd : a.icd = icd) (H : Holds d₀ a l)
    (ha : Run.Admissible (UtOp.step icd) (UtOp.StepAllowed icd) (l, a.calls) ops) :
    ∃ a', Run.exec step (some a) ops = some a' ∧ a'.icd = icd ∧
      Holds d₀ a' (Run.exec (UtOp.step icd) (l, a.calls) ops).1 ∧
      a'.calls = (Run.exec (UtOp.step icd) (l, a.calls) ops).2 := by
  induction ops generalizing a l with
  | nil => exact ⟨a, rfl, hicd, H, rfl⟩
  | cons op ops ih =>
    have hop : op.Allowed a.icd l := by
      rw [hicd]
      exact ha.1
    obtain ⟨a₁, happly, S⟩ := step_spec H hop
    have hnext : UtOp.step icd (l, a.calls) op = (op.onList icd a.calls.length l, a₁.calls) := by
      rw [S.calls, hicd]
      rfl
    have H₁ := S.holds
    have hrest := ha.2
    rw [hicd] at H₁
    rw [hnext] at hrest
    obtain ⟨a', hexec, hicd', H', hcalls⟩ := ih (S.icd.trans hicd) H₁ hrest
    refine ⟨a', ?_, hicd', ?_, ?_⟩
    · rw [Run.exec_cons, step, Option.bind_some, happly]
      exact hexec
    · rw [Run.exec_cons, hnext]
      exact H'
    · rw [Run.exec_cons, hnext]
      exact hcalls

/-- **The elements of an array are those of the list**, over any run, in the block it has, whose size is a
`size_t`; what is behind the block stays, and going through the array visits them in order. -/
theorem run_contents (icd : UtIcd s) (d : ByteMem) (ops : List (UtOp s))
    (ha : Run.Admissible (UtOp.step icd) (UtOp.StepAllowed icd) ([], []) ops) :
    ∃ a, Run.exec step (some (new icd d)) ops = some a ∧
      (a.contents, a.calls) = Run.exec (UtOp.step icd) ([], []) ops ∧ a.i ≤ a.n ∧ a.n < 2 ^ 64 ∧ a.n * s < 2 ^ 64 ∧
      (∀ x, a.n * s ≤ x → a.d x = d x) ∧
      (0 < s → s < 0x80000000 → a.i < 0x80000000 → ∀ rounds, a.i ≤ rounds → a.visits rounds a.front = a.contents) := by
  obtain ⟨a, hexec, -, H, hcalls⟩ := exec_holds (a := new icd d) rfl (new_holds icd d) ha
  exact ⟨a, hexec, Prod.ext H.contents hcalls, H.room, H.slots_lt, H.bytes_lt, H.outside, fun hs hs' hi _ hr =>
    visits_eq a hs hs' hi hr⟩

/-! ### What is let go -/

section released

variable {icd : UtIcd s} {op : UtOp s}

theorem dtor?_dtorCalls (hdtor : icd.dtor = true) (es : List (Elem s)) :
    (dtorCalls icd es).filterMap UtCall.dtor? = es := by
  rw [dtorCalls, if_pos hdtor, List.filterMap_map]
  exact List.filterMap_some

theorem dtor?_copyCalls (icd : UtIcd s) (k : ℕ) (p : Elem s) : (icd.copyCalls k p).filterMap UtCall.dtor? = [] := by
  rw [UtIcd.copyCalls]
  cases icd.copy <;> rfl

theorem dtor?_copyCallsAll (icd : UtIcd s) (k : ℕ) (ps : List (Elem s)) :
    (icd.copyCallsAll k ps).filterMap UtCall.dtor? = [] := by
  induction ps generalizing k with
  | nil => rfl
  | cons p ps ih => rw [UtIcd.copyCallsAll, List.filterMap_append, dtor?_copyCalls, ih, List.append_nil]

/-- Filling lets go of nothing. -/
theorem dtor?_fillCalls (icd : UtIcd s) (k : ℕ) (l : List (Elem s)) (op : UtOp s) :
    (op.fillCalls icd k l).filterMap UtCall.dtor? = [] := by
  cases op with
  | pushBack p => exact dtor?_copyCalls icd k p
  | pushFront p => exact dtor?_copyCalls icd k p
  | extendBack =>
    rw [UtOp.fillCalls, UtIcd.blankCalls]
    cases icd.init <;> rfl
  | insert p j =>
    rw [UtOp.fillCalls]
    split
    · rfl
    · exact dtor?_copyCalls icd k p
  | inserta w j =>
    rw [UtOp.fillCalls]
    split
    · rfl
    · exact dtor?_copyCallsAll icd k w.contents
  | reserve by' => rfl
  | popBack => rfl
  | move f t => rfl
  | resize num => rfl
  | erase pos len => rfl
  | removeQuick pos => rfl
  | removeQuickFull pos => rfl
  | clear => rfl

theorem dtor?_exec (hdtor : icd.dtor = true) (st : List (Elem s) × List (UtCall s)) (ops : List (UtOp s)) :
    (Run.exec (UtOp.step icd) st ops).2.filterMap UtCall.dtor? =
      st.2.filterMap UtCall.dtor? ++ UtOp.along icd (fun st op => op.released st.1) st ops := by
  induction ops generalizing st with
  | nil => exact (List.append_nil _).symm
  | cons op ops ih =>
    rw [Run.exec_cons, ih, UtOp.along, UtOp.step, List.filterMap_append, List.filterMap_append, dtor?_fillCalls,
      dtor?_dtorCalls hdtor, List.append_nil, List.append_assoc]

/-- **The end of an array** lets go of what is left. -/
theorem done_spec (H : Holds d₀ a l) : ∃ a', a.done = some a' ∧ a'.calls = a.calls ++ dtorCalls a.icd l := by
  have hlen := H.length
  rw [done]
  by_cases hn : a.n ≠ 0
  · rw [if_pos hn, dtors_eq H (Nat.le_of_eq (Nat.zero_add a.i)), List.drop_zero, ← hlen, List.take_length]
    exact ⟨_, rfl, rfl⟩
  · have hroom := H.room
    obtain rfl : l = [] := List.length_eq_zero_iff.mp (by omega)
    rw [if_neg hn]
    exact ⟨_, rfl, by rw [dtorCalls_nil, List.append_nil]⟩

/-- **Nothing is lost or let go twice.** What slots are filled with in a run is let go once, by the end of the array at
the latest, but for what is left to the caller. -/
theorem run_released (d : ByteMem) (hdtor : icd.dtor = true) (ops : List (UtOp s))
    (ha : Run.Admissible (UtOp.step icd) (UtOp.StepAllowed icd) ([], []) ops) :
    ∃ a a', Run.exec step (some (new icd d)) ops = some a ∧ a.done = some a' ∧
      (UtOp.along icd (fun st op => op.filled icd st.2.length st.1) ([], []) ops).Perm
        (a'.calls.filterMap UtCall.dtor? ++ UtOp.along icd (fun st op => op.taken st.1) ([], []) ops) := by
  have hnewIcd : (new icd d).icd = icd := rfl
  obtain ⟨a, hexec, hicd, H, hcalls⟩ := exec_holds hnewIcd (new_holds icd d) ha
  obtain ⟨a', hdone, hcalls'⟩ := done_spec H
  have hnew : (new icd d).calls = [] := rfl
  have hperm := UtOp.run_perm ha
  refine ⟨a, a', hexec, hdone, ?_⟩
  rw [hcalls', hcalls, hnew, hicd, List.filterMap_append, dtor?_exec hdtor, dtor?_dtorCalls hdtor, List.filterMap_nil,
    List.nil_append]
  rw [List.append_nil] at hperm
  exact hperm.trans ((List.perm_append_comm).append_right _)

end released

/-- Numbers of two bytes; a copy is marked with its number, and init gives ones. -/
def sampleIcd : UtIcd 2 where
  init := some fun _ => ⟨[1, 1], rfl⟩
  copy := some fun k p => ⟨[p.head, UInt8.ofNat k], rfl⟩
  dtor := true

/-- An array of its own, for `utarray_inserta`. -/
def sampleArray : UtArray 2 := (new sampleIcd fun a => UInt8.ofNat a).extendBack.extendBack

def sampleOps : List (UtOp 2) :=
  [.pushBack ⟨[7, 0], rfl⟩, .pushFront ⟨[8, 0], rfl⟩, .inserta sampleArray 1, .extendBack, .move 4 0, .removeQuick 1,
    .insert ⟨[9, 0], rfl⟩ 2, .removeQuickFull 0, .erase 1 2, .popBack, .resize 1, .clear]

theorem run_contents_sample :
    ∃ a, Run.exec step (some (new sampleIcd fun _ => 255)) sampleOps = some a ∧
      (a.contents, a.calls) = Run.exec (UtOp.step sampleIcd) ([], []) sampleOps ∧ a.i ≤ a.n ∧ a.n < 2 ^ 64 ∧
      a.n * 2 < 2 ^ 64 ∧
      (∀ x, a.n * 2 ≤ x → a.d x = 255) ∧
      (0 < 2 → 2 < 0x80000000 → a.i < 0x80000000 → ∀ rounds, a.i ≤ rounds →
        a.visits rounds a.front = a.contents) :=
  run_contents sampleIcd (fun _ => 255) sampleOps (by decide +kernel)

theorem run_released_sample :
    ∃ a a', Run.exec step (some (new sampleIcd fun _ => 255)) sampleOps = some a ∧ a.done = some a' ∧
      (UtOp.along sampleIcd (fun st op => op.filled sampleIcd st.2.length st.1) ([], []) sampleOps).Perm
        (a'.calls.filterMap UtCall.dtor? ++ UtOp.along sampleIcd (fun st op => op.taken st.1) ([], []) sampleOps) :=
  run_released (fun _ => 255) rfl sampleOps (by decide +kernel)

end UtArray

end Fcitx
