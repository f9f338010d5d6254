/-
# Delimited fields

A text over a delimiter is the list of its fields, `List.splitOn`, and the fields
joined again are the text, `List.intercalate`. Where the last field is left out if it
is empty, a delimiter at the end of the text is lost and nothing else.

Key definition: `Fields.dropEmptyEnd`.
Key theorems: `Fields.length_splitOn`, `Fields.getLast?_splitOn_iff`, `Fields.dropEmptyEnd_of_end`,
`Fields.dropEmptyEnd_of_not_end`.
-/
import Mathlib.Data.List.Basic

namespace Fields

variable {A : Type} {d : A} {s field : List A} {fields : List (List A)}

/-- The fields without the last one, if that is empty. -/
def dropEmptyEnd : List (List A) → List (List A)
  | [] => []
  | [field] => if field.isEmpty then [] else [field]
  | field :: next :: fields => field :: dropEmptyEnd (next :: fields)

theorem dropEmptyEnd_cons (field : List A) (h : fields ≠ []) :
    dropEmptyEnd (field :: fields) = field :: dropEmptyEnd fields := by
  cases fields with
  | nil => exact absurd rfl h
  | cons next fields => rfl

theorem dropEmptyEnd_concat (fields : List (List A)) (field : List A) :
    dropEmptyEnd (fields ++ [field]) = fields ++ if field.isEmpty then [] else [field] := by
  induction fields with
  | nil => rfl
  | cons first fields ih =>
    rw [List.cons_append, dropEmptyEnd_cons first (List.concat_ne_nil field fields), ih]
    rfl

/-- What nothing is made of may be left out. -/
theorem filterMap_dropEmptyEnd {B : Type} {g : List A → Option B} (hg : g [] = none) (fields : List (List A)) :
    (dropEmptyEnd fields).filterMap g = fields.filterMap g := by
  rcases List.eq_nil_or_concat fields with rfl | ⟨fields, field, rfl⟩
  · rfl
  · rw [List.concat_eq_append, dropEmptyEnd_concat]
    cases field with
    | nil => rw [if_pos List.isEmpty_nil, List.append_nil, List.filterMap_append, List.filterMap_cons, hg,
        List.filterMap_nil, List.append_nil]
    | cons c field => rfl

/-- All fields but the last are followed by a delimiter. -/
theorem intercalate_concat (d : A) (fields : List (List A)) (field : List A) :
    [d].intercalate (fields ++ [field]) = fields.flatMap (· ++ [d]) ++ field := by
  induction fields with
  | nil => exact List.intercalate_singleton
  | cons first fields ih =>
    rw [List.cons_append, List.intercalate_cons_of_ne_nil (List.concat_ne_nil field fields), ih, List.flatMap_cons]
    simp only [List.append_assoc]

/-- What is in a field is in the text. -/
theorem mem_intercalate {c : A} (hfield : field ∈ fields) (hc : c ∈ field) : c ∈ [d].intercalate fields := by
  induction fields with
  | nil => cases hfield
  | cons first fields ih =>
    rcases eq_or_ne fields [] with rfl | hne
    · rw [List.intercalate_singleton]
      exact List.mem_singleton.mp hfield ▸ hc
    · rw [List.intercalate_cons_of_ne_nil hne]
      rcases List.mem_cons.mp hfield with rfl | hfield
      · exact List.mem_append_left _ (List.mem_append_left _ hc)
      · exact List.mem_append_right _ (ih hfield)

theorem mem_of_mem_intercalate {c : A} (hc : c ∈ [d].intercalate fields) : c = d ∨ ∃ field ∈ fields, c ∈ field := by
  rcases List.eq_nil_or_concat fields with rfl | ⟨fields, field, rfl⟩
  · cases hc
  · rw [List.concat_eq_append, intercalate_concat, List.mem_append, List.mem_flatMap] at hc
    rcases hc with ⟨other, hother, hc⟩ | hc
    · rcases List.mem_append.mp hc with hc | hc
      · exact Or.inr ⟨other, by simp [hother], hc⟩
      · exact Or.inl (List.mem_singleton.mp hc)
    · exact Or.inr ⟨field, by simp, hc⟩

section split

variable [BEq A] [LawfulBEq A]

theorem splitOn_concat_self (d : A) (s : List A) : (s ++ [d]).splitOn d = s.splitOn d ++ [[]] := by
  rw [List.splitOn_append_cons_self, List.splitOn_nil]

omit [LawfulBEq A] in
/-- **There is one field more** than there are delimiters. -/
theorem length_splitOn (d : A) (s : List A) : (s.splitOn d).length = s.count d + 1 := by
  induction s with
  | nil => rfl
  | cons c s ih =>
    rw [List.splitOn_cons_eq_if_modifyHead, List.count_cons]
    split
    · rw [List.length_cons, ih]
    · rw [List.length_modifyHead, ih, Nat.add_zero]

theorem mem_of_mem_splitOn {c : A} (hfield : field ∈ s.splitOn d) (hc : c ∈ field) : c ∈ s := by
  have hmem : c ∈ [d].intercalate (s.splitOn d) := mem_intercalate hfield hc
  rwa [List.intercalate_splitOn] at hmem

/-- No delimiter is in a field. -/
theorem not_mem_of_mem_splitOn (hfield : field ∈ s.splitOn d) : d ∉ field := by
  induction s generalizing field with
  | nil =>
    rw [List.mem_singleton.mp hfield]
    exact List.not_mem_nil
  | cons c s ih =>
    rw [List.splitOn_cons_eq_if_modifyHead] at hfield
    split at hfield
    · rcases List.mem_cons.mp hfield with rfl | hfield
      · exact List.not_mem_nil
      · exact ih hfield
    · next hc =>
      obtain ⟨first, rest, hfirst⟩ := List.exists_cons_of_ne_nil (List.splitOn_ne_nil d s)
      rw [hfirst, List.modifyHead_cons] at hfield
      rw [hfirst] at ih
      rcases List.mem_cons.mp hfield with rfl | hfield
      · rintro hmem
        rcases List.mem_cons.mp hmem with rfl | hmem
        · exact hc (beq_self_eq_true d)
        · exact ih List.mem_cons_self hmem
      · exact ih (List.mem_cons_of_mem _ hfield)

/-- **The last field is empty** where the text is or ends in a delimiter. -/
theorem getLast?_splitOn_iff : (s.splitOn d).getLast? = some [] ↔ s = [] ∨ s.getLast? = some d := by
  constructor
  · intro h
    obtain ⟨fields, hfields⟩ := List.getLast?_eq_some_iff.mp h
    have hjoin : [d].intercalate (s.splitOn d) = s := List.intercalate_splitOn d
    rw [hfields, intercalate_concat, List.append_nil] at hjoin
    rcases List.eq_nil_or_concat fields with rfl | ⟨fields, field, rfl⟩
    · exact Or.inl hjoin.symm
    · rw [List.concat_eq_append, List.flatMap_append, List.flatMap_singleton, ← List.append_assoc] at hjoin
      rw [← hjoin, List.getLast?_concat]
      exact Or.inr rfl
  · rintro (rfl | h)
    · rfl
    · obtain ⟨s, rfl⟩ := List.getLast?_eq_some_iff.mp h
      rw [splitOn_concat_self, List.getLast?_concat]

/-- A text that does not end in a delimiter keeps its fields. -/
theorem dropEmptyEnd_of_not_end (hs : s ≠ []) (h : s.getLast? ≠ some d) :
    dropEmptyEnd (s.splitOn d) = s.splitOn d := by
  rcases List.eq_nil_or_concat (s.splitOn d) with hnil | ⟨fields, field, hfields⟩
  · exact absurd hnil (List.splitOn_ne_nil d s)
  · rw [List.concat_eq_append] at hfields
    have hlast : field ≠ [] := by
      rintro rfl
      have hend : (s.splitOn d).getLast? = some [] := by rw [hfields, List.getLast?_concat]
      exact (getLast?_splitOn_iff.mp hend).elim hs h
    rw [hfields, dropEmptyEnd_concat, if_neg (by simpa using hlast)]

/-- A text that ends in a delimiter loses a field. -/
theorem dropEmptyEnd_of_end (h : s.getLast? = some d) : (dropEmptyEnd (s.splitOn d)).length = s.count d := by
  obtain ⟨s, rfl⟩ := List.getLast?_eq_some_iff.mp h
  rw [splitOn_concat_self, dropEmptyEnd_concat, if_pos List.isEmpty_nil, List.append_nil, length_splitOn,
    List.count_append, List.count_singleton_self]

end split

end Fields
