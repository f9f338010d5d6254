/-
# Slots

A slot of a state is a part of it that may be missing: it is read, and replaced
where it is there. Slots compose, and the last element of a list is one. A
predicate on the parts that a slot respects is kept when the part is replaced.

Key definitions: `Slot`, `Slot.comp`, `Slot.back`, `Slot.write`, `Slot.update`, `Slot.Respects`.
Key theorems: `Slot.write_bind_write`, `Slot.write_congr_iff`, `Slot.Respects.comp`.
-/
import Mathlib.Data.List.Basic

namespace Fcitx

/-- A part of a state that may be missing. -/
structure Slot (S A : Type) where
  get : S → Option A
  set : A → S → S
  get_set : ∀ {s a} b, get s = some a → get (set b s) = some b
  set_get : ∀ {s a}, get s = some a → set a s = s
  set_set : ∀ s a b, set b (set a s) = set b s

namespace Slot

variable {S A B : Type}

/-- A part that is always there. -/
def total (get : S → A) (set : A → S → S) (get_set : ∀ s b, get (set b s) = b) (set_get : ∀ s, set (get s) s = s)
    (set_set : ∀ s a b, set b (set a s) = set b s) : Slot S A where
  get s := some (get s)
  set := set
  get_set {s _} b _ := congrArg some (get_set s b)
  set_get {s a} h := by
    rw [← Option.some.inj h]
    exact set_get s
  set_set := set_set

/-- A part of a part. -/
def comp (p : Slot S A) (q : Slot A B) : Slot S B where
  get s := (p.get s).bind q.get
  set b s := (p.get s).elim s fun a => p.set (q.set b a) s
  get_set {s c} b h := by
    obtain ⟨a, ha, hc⟩ := Option.bind_eq_some_iff.mp h
    rw [ha, Option.elim_some, p.get_set _ ha, Option.bind_some, q.get_set _ hc]
  set_get {s b} h := by
    obtain ⟨a, ha, hb⟩ := Option.bind_eq_some_iff.mp h
    rw [ha, Option.elim_some, q.set_get hb, p.set_get ha]
  set_set s b c := by
    cases ha : p.get s with
    | none => rw [Option.elim_none, ha, Option.elim_none]
    | some a =>
      rw [Option.elim_some, p.get_set _ ha, Option.elim_some, p.set_set, q.set_set]
      rfl

/-- The last element of a list. -/
def back : Slot (List A) A where
  get l := l.getLast?
  set a l := if l = [] then [] else l.dropLast ++ [a]
  get_set {l a} b h := by
    have hne : l ≠ [] := by
      rintro rfl
      cases h
    rw [if_neg hne, List.getLast?_concat]
  set_get {l a} h := by
    have hne : l ≠ [] := by
      rintro rfl
      cases h
    rw [if_neg hne]
    obtain ⟨l', rfl⟩ := List.getLast?_eq_some_iff.mp h
    rw [List.dropLast_concat]
  set_set l a b := by
    by_cases hl : l = []
    · rw [if_pos hl, if_pos rfl, if_pos hl]
    · rw [if_neg hl, if_neg (List.append_ne_nil_of_right_ne_nil _ (List.cons_ne_nil _ _)), if_neg hl,
        List.dropLast_concat]

/-! ### Writing -/

/-- Change the part with `f`, which has to be there. -/
def write (p : Slot S A) (f : A → A) (s : S) : Option S := (p.get s).map fun a => p.set (f a) s

/-- Change the part with `f`, which may fail. -/
def update (p : Slot S A) (f : A → Option A) (s : S) : Option S :=
  (p.get s).bind fun a => (f a).map fun b => p.set b s

variable (p : Slot S A)

theorem write_eq_update (f : A → A) : p.write f = p.update fun a => some (f a) := by
  funext s
  unfold write update
  cases p.get s with
  | none => rfl
  | some a => rfl

/-- Changing a part of a part. -/
theorem comp_update (q : Slot A B) (f : B → Option B) : (p.comp q).update f = p.update (q.update f) := by
  funext s
  unfold update comp
  dsimp only
  cases p.get s with
  | none => rfl
  | some a =>
    dsimp only [Option.bind_some, Option.elim_some]
    cases q.get a with
    | none => rfl
    | some b =>
      dsimp only [Option.bind_some]
      cases f b with
      | none => rfl
      | some c => rfl

/-- Writing twice. -/
theorem write_bind_write (f g : A → A) (s : S) : (p.write f s).bind (p.write g) = p.write (g ∘ f) s := by
  unfold write
  cases h : p.get s with
  | none => rfl
  | some a =>
    rw [Option.map_some, Option.bind_some, p.get_set _ h, Option.map_some, p.set_set, Option.map_some]
    rfl

/-- **Two writes agree** exactly when they agree on what is there. -/
theorem write_congr_iff {f g : A → A} {s : S} {a : A} (h : p.get s = some a) :
    p.write f s = p.write g s ↔ f a = g a := by
  unfold write
  rw [h, Option.map_some, Option.map_some, Option.some_inj]
  constructor
  · intro heq
    have hf := p.get_set (f a) h
    rw [heq, p.get_set (g a) h] at hf
    exact (Option.some.inj hf).symm
  · intro heq
    rw [heq]

/-- What is there can be written. -/
theorem exists_write (f : A → A) {s : S} (h : (p.get s).isSome) : ∃ t, p.write f s = some t := by
  obtain ⟨a, ha⟩ := Option.isSome_iff_exists.mp h
  exact ⟨p.set (f a) s, by rw [write, ha, Option.map_some]⟩

/-- What is there after a write. -/
theorem get_of_write {f : A → A} {s t : S} (h : p.write f s = some t) : (p.get t).isSome := by
  obtain ⟨a, ha, rfl⟩ := Option.map_eq_some_iff.mp h
  rw [p.get_set _ ha]
  rfl

/-! ### Predicates -/

/-- What holds of the whole holds of the part, and is kept when the part is replaced. -/
structure Respects (p : Slot S A) (P : S → Prop) (Q : A → Prop) : Prop where
  get : ∀ {s a}, P s → p.get s = some a → Q a
  set : ∀ {s} b, P s → Q b → P (p.set b s)

variable {p} {P : S → Prop} {Q : A → Prop} {R : B → Prop}

theorem respects_total {get : S → A} {set : A → S → S} {get_set : ∀ s b, get (set b s) = b}
    {set_get : ∀ s, set (get s) s = s} {set_set : ∀ s a b, set b (set a s) = set b s}
    (hget : ∀ s, P s → Q (get s)) (hset : ∀ s b, P s → Q b → P (set b s)) :
    (total get set get_set set_get set_set).Respects P Q where
  get {s a} hs h := by
    rw [← Option.some.inj h]
    exact hget s hs
  set {s} b hs hb := hset s b hs hb

theorem Respects.comp {q : Slot A B} (hp : p.Respects P Q) (hq : q.Respects Q R) : (p.comp q).Respects P R where
  get {s b} hs h := by
    obtain ⟨a, ha, hb⟩ := Option.bind_eq_some_iff.mp h
    exact hq.get (hp.get hs ha) hb
  set {s} b hs hb := by
    show P ((p.get s).elim s fun a => p.set (q.set b a) s)
    cases ha : p.get s with
    | none => exact hs
    | some a => exact hp.set _ hs (hq.set b (hp.get hs ha) hb)

theorem respects_back (Q : A → Prop) : back.Respects (fun l => ∀ a ∈ l, Q a) Q where
  get hl h := hl _ (List.mem_of_getLast? h)
  set {l} b hl hb := by
    intro a ha
    unfold back at ha
    dsimp only at ha
    split at ha
    · cases ha
    · rcases List.mem_append.mp ha with ha | ha
      · exact hl a ((List.dropLast_sublist l).subset ha)
      · rw [List.mem_singleton.mp ha]
        exact hb

/-- A write keeps what holds of the whole. -/
theorem Respects.write (hp : p.Respects P Q) {f : A → A} (hf : ∀ a, Q a → Q (f a)) {s t : S} (hs : P s)
    (h : p.write f s = some t) : P t := by
  obtain ⟨a, ha, rfl⟩ := Option.map_eq_some_iff.mp h
  exact hp.set _ hs (hf a (hp.get hs ha))

end Slot

end Fcitx
