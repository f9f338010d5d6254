/-
# Merging the extra rules

`MergeRules` of `fcitx/rules.c`: the models and the groups of options of the second file
are added behind those of the first. A layout gives its languages and variants to the
first layout of the first file that has its name; those without one are kept aside and
added in the end. `FindByName` compares names with `strcmp`, which must not get NULL.

Key definitions: `XkbRules.findByName`, `XkbRules.mergeLayouts`, `XkbRules.mergeRules`.
Key theorems: `XkbRules.findByName_eq`, `XkbRules.mergeRules_spec`, `XkbRules.mergeRules_byName`.
-/
import Fcitx.Lib.Rows
import Fcitx.Rules.Handlers

namespace Fcitx

/-- What a layout of the first file takes from one with its name. -/
def XkbLayoutInfo.absorb (l layoutInfo : XkbLayoutInfo) : XkbLayoutInfo :=
  { l with
    languages := l.languages ++ layoutInfo.languages
    variantInfos := l.variantInfos ++ layoutInfo.variantInfos }

theorem XkbLayoutInfo.absorb_name (l layoutInfo : XkbLayoutInfo) : (l.absorb layoutInfo).name = l.name := rfl

namespace XkbRules

/-- `FindByName`: the index of a layout, if one has the name. -/
def findByName (name : Option Bytes) : List XkbLayoutInfo → Option (Option ℕ)
  | [] => some none
  | layoutInfo :: layoutInfos => do
    let a ← layoutInfo.name
    let b ← name
    if a = b then some (some 0)
    else (findByName name layoutInfos).map fun i => i.map (· + 1)

/-- The first loop of `MergeRules`, with the layouts and `toAdd`. -/
def mergeLayouts : List XkbLayoutInfo → List XkbLayoutInfo × List XkbLayoutInfo →
    Option (List XkbLayoutInfo × List XkbLayoutInfo)
  | [], s => some s
  | layoutInfo :: extra, (layoutInfos, toAdd) =>
    match findByName layoutInfo.name layoutInfos with
    | none => none
    | some (some i) => mergeLayouts extra (layoutInfos.modify i fun l => l.absorb layoutInfo, toAdd)
    | some none => mergeLayouts extra (layoutInfos, toAdd ++ [layoutInfo])

/-- `MergeRules` -/
def mergeRules (rules rulesextra : XkbRules) : Option XkbRules := do
  let (layoutInfos, toAdd) ← mergeLayouts rulesextra.layoutInfos (rules.layoutInfos, [])
  some { rules with
    layoutInfos := layoutInfos ++ toAdd
    modelInfos := rules.modelInfos ++ rulesextra.modelInfos
    optionGroupInfos := rules.optionGroupInfos ++ rulesextra.optionGroupInfos }

/-- A name can be looked for in some layouts: NULL is not compared before it is found. -/
def Comparable (name : Option Bytes) (names : List (Option Bytes)) : Prop :=
  names = [] ∨ name ≠ none ∧ none ∉ names.takeWhile (· ≠ name)

instance (name : Option Bytes) (names : List (Option Bytes)) : Decidable (Comparable name names) :=
  inferInstanceAs (Decidable (_ ∨ _))

theorem comparable_cons_self {a : Bytes} {names : List (Option Bytes)} :
    Comparable (some a) (some a :: names) := by
  refine Or.inr ⟨Option.some_ne_none a, ?_⟩
  rw [List.takeWhile_cons, if_neg fun h => absurd rfl (of_decide_eq_true h)]
  exact List.not_mem_nil

theorem comparable_cons_of_ne {a b : Bytes} {names : List (Option Bytes)} (h : a ≠ b) :
    Comparable (some b) (some a :: names) ↔ Comparable (some b) names := by
  have hne : some a ≠ some b := fun heq => h (Option.some.inj heq)
  unfold Comparable
  rw [List.takeWhile_cons, if_pos (decide_eq_true hne), List.mem_cons, not_or]
  constructor
  · rintro (hnil | ⟨hb, -, hnone⟩)
    · exact absurd hnil (List.cons_ne_nil _ _)
    · exact Or.inr ⟨hb, hnone⟩
  · rintro (rfl | ⟨hb, hnone⟩)
    · exact Or.inr ⟨Option.some_ne_none b, (Option.some_ne_none a).symm, List.not_mem_nil⟩
    · exact Or.inr ⟨hb, (Option.some_ne_none a).symm, hnone⟩

/-- **`FindByName`** finds the first one. -/
theorem findByName_eq (name : Option Bytes) (layoutInfos : List XkbLayoutInfo) :
    findByName name layoutInfos =
      if Comparable name (layoutInfos.map (·.name)) then some (layoutInfos.findIdx? (·.name = name)) else none := by
  induction layoutInfos with
  | nil => exact (if_pos (Or.inl rfl)).symm
  | cons layoutInfo layoutInfos ih =>
    rw [findByName, List.map_cons, List.findIdx?_cons]
    cases hb : name with
    | none =>
      rw [if_neg fun h => h.elim (List.cons_ne_nil _ _) fun h' => h'.1 rfl]
      cases layoutInfo.name with
      | none => rfl
      | some a => rfl
    | some b =>
      cases ha : layoutInfo.name with
      | none =>
        have hfirst : ¬ Comparable (some b) (none :: layoutInfos.map (·.name)) := by
          rintro (hnil | ⟨-, hnone⟩)
          · exact List.cons_ne_nil _ _ hnil
          · rw [List.takeWhile_cons, if_pos (decide_eq_true (Option.some_ne_none b).symm)] at hnone
            exact hnone List.mem_cons_self
        rw [if_neg hfirst]
        rfl
      | some a =>
        by_cases hab : a = b
        · rw [hab, if_pos comparable_cons_self, if_pos (decide_eq_true rfl)]
          exact if_pos rfl
        · have hne : ¬ decide (some a = some b) = true := fun h => hab (Option.some.inj (of_decide_eq_true h))
          simp only [comparable_cons_of_ne hab]
          rw [if_neg hne]
          change (if a = b then some (some 0) else (findByName (some b) layoutInfos).map _) = _
          rw [if_neg hab, ← hb, ih]
          split
          · rfl
          · rfl

/-- **The first loop**, if no name is NULL where it is compared. -/
theorem mergeLayouts_eq (extra layoutInfos toAdd : List XkbLayoutInfo) :
    mergeLayouts extra (layoutInfos, toAdd) =
      if ∀ e ∈ extra, Comparable e.name (layoutInfos.map (·.name)) then
        some (extra.foldl (Rows.give (·.name) XkbLayoutInfo.absorb) (layoutInfos, toAdd))
      else none := by
  induction extra generalizing layoutInfos toAdd with
  | nil => exact (if_pos fun _ h => absurd h List.not_mem_nil).symm
  | cons e extra ih =>
    have hnames : (Rows.give (·.name) XkbLayoutInfo.absorb (layoutInfos, toAdd) e).1.map (·.name) =
        layoutInfos.map (·.name) := Rows.map_key_give XkbLayoutInfo.absorb_name layoutInfos toAdd e
    have hstep : mergeLayouts (e :: extra) (layoutInfos, toAdd) =
        if Comparable e.name (layoutInfos.map (·.name)) then
          mergeLayouts extra (Rows.give (·.name) XkbLayoutInfo.absorb (layoutInfos, toAdd) e)
        else none := by
      rw [mergeLayouts, findByName_eq, Rows.give]
      by_cases h : Comparable e.name (layoutInfos.map (·.name))
      · rw [if_pos h, if_pos h]
        cases layoutInfos.findIdx? (·.name = e.name) with
        | none => rfl
        | some i => rfl
      · rw [if_neg h, if_neg h]
    rw [hstep, ih, hnames, List.foldl_cons]
    simp only [List.forall_mem_cons]
    split
    · next h => simp only [h, true_and]
    · next h => rw [if_neg fun hall => h hall.1]

/-- **`MergeRules`** needs the names it compares; then each layout has what both files have for it. -/
theorem mergeRules_spec (rules rulesextra : XkbRules) :
    rules.mergeRules rulesextra =
      if ∀ e ∈ rulesextra.layoutInfos, Comparable e.name (rules.layoutInfos.map (·.name)) then
        some { rules with
          layoutInfos := Rows.merged (·.name) XkbLayoutInfo.absorb rules.layoutInfos rulesextra.layoutInfos
          modelInfos := rules.modelInfos ++ rulesextra.modelInfos
          optionGroupInfos := rules.optionGroupInfos ++ rulesextra.optionGroupInfos }
      else none := by
  rw [mergeRules, mergeLayouts_eq]
  split
  · rw [← Rows.foldl_give XkbLayoutInfo.absorb_name]
    rfl
  · rfl

theorem foldl_absorb (extra : List XkbLayoutInfo) (l : XkbLayoutInfo) :
    extra.foldl XkbLayoutInfo.absorb l =
      { l with
        languages := l.languages ++ extra.flatMap (·.languages)
        variantInfos := l.variantInfos ++ extra.flatMap (·.variantInfos) } := by
  induction extra generalizing l with
  | nil => rw [List.flatMap_nil, List.flatMap_nil, List.append_nil, List.append_nil, List.foldl_nil]
  | cons e extra ih =>
    rw [List.foldl_cons, ih, XkbLayoutInfo.absorb, List.flatMap_cons, List.flatMap_cons, List.append_assoc,
      List.append_assoc]

/-- The layout with a name. -/
def layoutByName (rules : XkbRules) (name : Option Bytes) : Option XkbLayoutInfo :=
  rules.layoutInfos.find? (·.name = name)

variable {rules rulesextra result : XkbRules}

/-- What `MergeRules` gives, when it does. -/
theorem mergeRules_eq_some (h : rules.mergeRules rulesextra = some result) :
    result = { rules with
      layoutInfos := Rows.merged (·.name) XkbLayoutInfo.absorb rules.layoutInfos rulesextra.layoutInfos
      modelInfos := rules.modelInfos ++ rulesextra.modelInfos
      optionGroupInfos := rules.optionGroupInfos ++ rulesextra.optionGroupInfos } := by
  rw [mergeRules_spec] at h
  split at h
  · exact (Option.some.inj h).symm
  · cases h

/-- **A layout is found by its name** after the merge with everything that the second file has for it, if the first
file has it. Otherwise it is the first one of the second file alone. -/
theorem mergeRules_byName (h : rules.mergeRules rulesextra = some result) (name : Option Bytes) :
    result.layoutByName name =
      match rules.layoutByName name with
      | some l =>
        some { l with
          languages := l.languages ++ (rulesextra.layoutInfos.filter (·.name = name)).flatMap (·.languages)
          variantInfos := l.variantInfos ++ (rulesextra.layoutInfos.filter (·.name = name)).flatMap (·.variantInfos) }
      | none => rulesextra.layoutByName name := by
  rw [mergeRules_eq_some h, layoutByName, Rows.find?_merged XkbLayoutInfo.absorb_name, layoutByName]
  cases rules.layoutInfos.find? (·.name = name) with
  | none => rfl
  | some l =>
    dsimp only
    rw [foldl_absorb]

/-- Two layouts of one name, with a language each. -/
def usTwice (first second : Bytes) : XkbRules :=
  { XkbRules.new with
    layoutInfos := [⟨[], some [0x75, 0x73], none, [first]⟩, ⟨[], some [0x75, 0x73], none, [second]⟩] }

theorem mergeRules_byName_us :
    ∃ result : XkbRules, (usTwice [0x61] [0x62]).mergeRules (usTwice [0x63] [0x64]) = some result ∧
      (result.layoutByName (some [0x75, 0x73])).map (·.languages) = some [[0x61], [0x63], [0x64]] := by
  obtain ⟨result, hresult⟩ := Option.isSome_iff_exists.mp
    (show ((usTwice [0x61] [0x62]).mergeRules (usTwice [0x63] [0x64])).isSome = true by decide +kernel)
  refine ⟨result, hresult, ?_⟩
  rw [mergeRules_byName hresult]
  decide +kernel

end XkbRules
end Fcitx
