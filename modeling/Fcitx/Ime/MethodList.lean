/-
# The list of a group

`fcitx_input_method_manager_set_input_method_list` appends an item for each
string. The scratch item is not cleared between the strings: a field that an
earlier string has set points into its split list, which is freed by then. So
the function works if every string sets the fields again that were set before,
and what it appends is the whole list if the group was empty.

Key definitions: `ItemField`, `fieldValue`, `describe`, `Renewed`, `newItems`, `InputMethodManager.ListSet`.
Key theorems: `scan_get`, `setListLoop_eq`, `InputMethodManager.listSet_iff`.
-/
import Fcitx.Ime.Groups
import Fcitx.Utils.StringList

namespace Fcitx

/-! ### What a description says -/

inductive ItemField where
  | name
  | layout
  | variant
  deriving DecidableEq

def ItemField.word : ItemField → Bytes
  | .name => nameField
  | .layout => layoutField
  | .variant => variantField

/-- The value that a part of a description gives to a field. -/
def valueOf (field : ItemField) (part : Bytes) : Option Bytes :=
  if field.word ++ [colon] <+: part then some (part.drop (field.word.length + 1)) else none

/-- The value of a field in a description: the last part for it counts. -/
def fieldValue (field : ItemField) (im : Bytes) : Option Bytes :=
  ((im.splitOn comma).filterMap (valueOf field)).getLast?

structure ImDescription where
  name : Bytes
  layout : Option Bytes
  variant : Option Bytes
  deriving DecidableEq

def describe (im : Bytes) : Option ImDescription :=
  (fieldValue .name im).map fun name => ⟨name, fieldValue .layout im, fieldValue .variant im⟩

def InputMethodItem.view (item : InputMethodItem) : (Option Bytes × Option Bytes × Option Bytes) × ℕ × ImGroupPtr :=
  ((item.string item.name, item.string item.layout, item.string item.variant), item.index, item.group)

def ImDescription.view (group : ImGroupPtr) (index : ℕ) (d : ImDescription) :
    (Option Bytes × Option Bytes × Option Bytes) × ℕ × ImGroupPtr :=
  ((some d.name, d.layout, d.variant), index, group)

/-! ### Scanning -/

def ScratchItem.get (item : ScratchItem) : ItemField → Option SplitString
  | .name => item.name
  | .layout => item.layout
  | .variant => item.variant

theorem colon_notMem_word (field : ItemField) : colon ∉ field.word := by cases field <;> decide

theorem valueOf_eq (field : ItemField) (part : Bytes) : valueOf field part =
    if colon ∈ part ∧ part.takeWhile (· ≠ colon) = field.word then some ((part.dropWhile (· ≠ colon)).drop 1)
    else none := by
  have hword : ∀ c ∈ field.word, (decide (c ≠ colon)) = true := fun c hc =>
    decide_eq_true fun heq => colon_notMem_word field (heq ▸ hc)
  by_cases hstart : field.word ++ [colon] <+: part
  · obtain ⟨rest, rfl⟩ := hstart
    have hassoc : field.word ++ [colon] ++ rest = field.word ++ colon :: rest := by
      rw [List.append_assoc, List.singleton_append]
    have htake : (field.word ++ colon :: rest).takeWhile (· ≠ colon) = field.word := by
      rw [List.takeWhile_append_of_pos hword, List.takeWhile_cons_of_neg (by simp), List.append_nil]
    have hdrop : (field.word ++ colon :: rest).dropWhile (· ≠ colon) = colon :: rest := by
      rw [List.dropWhile_append_of_pos hword, List.dropWhile_cons_of_neg (by simp)]
    have hmem : colon ∈ field.word ++ colon :: rest :=
      List.mem_append_right field.word List.mem_cons_self
    rw [valueOf, if_pos (List.prefix_append _ _), hassoc, if_pos ⟨hmem, htake⟩, hdrop, ← hassoc,
      List.drop_left' (by rw [List.length_append]; rfl)]
    rfl
  · rw [valueOf, if_neg hstart, if_neg]
    rintro ⟨hmem, htake⟩
    refine hstart ?_
    have hsplit := List.takeWhile_append_dropWhile (p := fun c => decide (c ≠ colon)) (l := part)
    rw [htake] at hsplit
    cases hdrop : part.dropWhile fun c => decide (c ≠ colon) with
    | nil =>
      rw [hdrop, List.append_nil] at hsplit
      exact absurd (hsplit ▸ hmem) (colon_notMem_word field)
    | cons c rest =>
      have hc := List.head?_dropWhile_not (fun c => decide (c ≠ colon)) part
      rw [hdrop] at hc hsplit
      have hcolon : c = colon := by simpa using hc
      rw [hcolon] at hsplit
      exact ⟨rest, by rw [← hsplit, List.append_assoc, List.singleton_append]⟩

theorem get_setField (round : ℕ) (item : ScratchItem) (part : Bytes) (field : ItemField) :
    (item.setField round part).get field = ((valueOf field part).map (⟨round, ·⟩)).or (item.get field) := by
  rw [valueOf_eq, ScratchItem.setField]
  dsimp only
  generalize part.takeWhile (fun c => decide (c ≠ colon)) = word
  generalize (part.dropWhile fun c => decide (c ≠ colon)).drop 1 = value
  by_cases hcolon : colon ∈ part
  · have hnames : nameField ≠ layoutField ∧ nameField ≠ variantField ∧ layoutField ≠ variantField := by decide
    rw [if_pos hcolon]
    by_cases hname : word = nameField
    · cases field <;> simp [ScratchItem.get, ItemField.word, hname, hcolon, hnames]
    · by_cases hlayout : word = layoutField
      · cases field <;> simp [ScratchItem.get, ItemField.word, hlayout, hcolon, hnames, hnames.1.symm]
      · by_cases hvariant : word = variantField
        · cases field <;>
            simp [ScratchItem.get, ItemField.word, hvariant, hcolon, hnames.2.1.symm, hnames.2.2.symm]
        · cases field <;> simp [ScratchItem.get, ItemField.word, hname, hlayout, hvariant]
  · rw [if_neg hcolon, if_neg fun h => hcolon h.1]
    rfl

theorem get_foldl_setField (round : ℕ) (parts : List Bytes) (item : ScratchItem) (field : ItemField) :
    (parts.foldl (ScratchItem.setField round) item).get field =
      ((parts.filterMap (valueOf field)).getLast?.map (⟨round, ·⟩)).or (item.get field) := by
  induction parts generalizing item with
  | nil => rfl
  | cons part parts ih =>
    rw [List.foldl_cons, ih, get_setField, List.filterMap_cons]
    cases valueOf field part with
    | none => rfl
    | some value =>
      dsimp only
      rw [List.getLast?_cons]
      cases (parts.filterMap (valueOf field)).getLast? <;> rfl

theorem modifyHead_nil_append (parts : List Bytes) : parts.modifyHead (fun head => [] ++ head) = parts := by
  cases parts <;> rfl

/-- The split list has the parts of a description, but for an empty last one. -/
theorem stringSplit_eq (delim : UInt8) (part str : Bytes) :
    stringSplit delim part str = Fields.dropEmptyEnd ((str.splitOn delim).modifyHead (part ++ ·)) := by
  induction str generalizing part with
  | nil =>
    rw [stringSplit, List.splitOn_nil, List.modifyHead_cons, List.append_nil]
    cases part <;> rfl
  | cons c str ih =>
    rw [stringSplit, List.splitOn_cons_eq_if_modifyHead]
    by_cases hc : c = delim
    · rw [if_pos hc, if_pos (by simpa using hc), ih, List.modifyHead_cons, List.append_nil,
        Fields.dropEmptyEnd_cons part (List.splitOn_ne_nil delim str), modifyHead_nil_append]
    · rw [if_neg hc, if_neg (by simpa using hc), ih, List.modifyHead_modifyHead]
      congr 2
      funext head
      simp

theorem stringSplitFull_eq_stringSplit {delim : UInt8} {str : Bytes} (hdelim : delim ≠ 0) (hzero : 0 ∉ str) :
    stringSplitFull str [delim] true = some (stringSplit delim [] str) := by
  rw [stringSplitFull_eq hdelim hzero, stringSplit_eq, modifyHead_nil_append]
  rfl

/-- An empty part sets nothing, so the values are those of the split list. -/
theorem filterMap_valueOf_stringSplit (im : Bytes) (field : ItemField) :
    (stringSplit comma [] im).filterMap (valueOf field) = (im.splitOn comma).filterMap (valueOf field) := by
  have hnil : valueOf field [] = none := by cases field <;> rfl
  rw [stringSplit_eq, modifyHead_nil_append, Fields.filterMap_dropEmptyEnd hnil]

/-- **Scanning a description** sets the fields that it has. -/
theorem scan_get (round : ℕ) (item : ScratchItem) (im : Bytes) (field : ItemField) :
    (item.scan round im).get field = ((fieldValue field im).map (⟨round, ·⟩)).or (item.get field) := by
  rw [ScratchItem.scan, get_foldl_setField, filterMap_valueOf_stringSplit]
  rfl

theorem zero_notMem_fieldValue {im value : Bytes} {field : ItemField} (him : 0 ∉ im)
    (h : fieldValue field im = some value) : 0 ∉ value := by
  have hmem := List.mem_of_getLast? h
  obtain ⟨part, hpart, hvalue⟩ := List.mem_filterMap.mp hmem
  have hzero : 0 ∉ part := fun hmem => him (Fields.mem_of_mem_splitOn hpart hmem)
  unfold valueOf at hvalue
  split at hvalue
  case isTrue =>
    cases hvalue
    exact fun hmem => hzero (List.mem_of_mem_drop hmem)
  case isFalse => cases hvalue

/-! ### Packing -/

theorem cString_keyPart {before after s : Bytes} (hs : 0 ∉ s) :
    cString ((before ++ keyPart (some s) ++ after).drop before.length) = s := by
  rw [List.append_assoc, List.drop_left, keyPart, Option.getD_some, List.append_assoc, List.singleton_append,
    cString_append_zero, cString_of_noZero hs]

/-- **Packing keeps the strings.** -/
theorem view_pack {name layout variant : Option Bytes} (hname : ∀ s, name = some s → 0 ∉ s)
    (hlayout : ∀ s, layout = some s → 0 ∉ s) (hvariant : ∀ s, variant = some s → 0 ∉ s) (index : ℕ)
    (group : ImGroupPtr) :
    (InputMethodItem.pack name layout variant index group).view = ((name, layout, variant), index, group) := by
  have h₁ : (InputMethodItem.pack name layout variant index group).string (name.map fun _ => 0) = name := by
    cases name with
    | none => rfl
    | some s =>
      have hkey :
          cString (([] ++ keyPart (some s) ++ (keyPart layout ++ keyPart variant)).drop ([] : Bytes).length) = s :=
        cString_keyPart (hname s rfl)
      rw [List.nil_append, ← List.append_assoc] at hkey
      exact congrArg some hkey
  have h₂ : (InputMethodItem.pack name layout variant index group).string
      (layout.map fun _ => (keyPart name).length) = layout := by
    cases layout with
    | none => rfl
    | some s => exact congrArg some (cString_keyPart (hlayout s rfl))
  have h₃ : (InputMethodItem.pack name layout variant index group).string
      (variant.map fun _ => (keyPart name ++ keyPart layout).length) = variant := by
    cases variant with
    | none => rfl
    | some s =>
      have hkey : cString ((keyPart name ++ keyPart layout ++ keyPart (some s) ++ []).drop
          (keyPart name ++ keyPart layout).length) = s := cString_keyPart (hvariant s rfl)
      rw [List.append_nil] at hkey
      exact congrArg some hkey
  rw [InputMethodItem.view]
  exact congrArg₂ Prod.mk (congrArg₂ Prod.mk h₁ (congrArg₂ Prod.mk h₂ h₃)) rfl

/-! ### The strings one after the other -/

def SetsField (field : ItemField) (im : Bytes) : Prop := (fieldValue field im).isSome = true

instance SetsField.decidable (field : ItemField) (im : Bytes) : Decidable (SetsField field im) :=
  inferInstanceAs (Decidable (_ = true))

/-- Every string that has a name, or follows one that has, sets again the fields that earlier strings set. -/
def Renewed (earlier : List Bytes) : List Bytes → Prop
  | [] => True
  | im :: ims =>
    ((∃ s ∈ earlier ++ [im], SetsField .name s) →
        ∀ field ∈ [ItemField.name, .layout, .variant], (∃ s ∈ earlier, SetsField field s) → SetsField field im) ∧
      Renewed (earlier ++ [im]) ims

instance Renewed.decidable (earlier : List Bytes) : (ims : List Bytes) → Decidable (Renewed earlier ims)
  | [] => .isTrue trivial
  | im :: ims =>
    have := Renewed.decidable (earlier ++ [im]) ims
    inferInstanceAs (Decidable (((∃ s ∈ earlier ++ [im], SetsField .name s) → ∀ field ∈ _, _) ∧ _))

def newItems (group : ImGroupPtr) : ℕ → List Bytes → List InputMethodItem
  | _, [] => []
  | index, im :: ims =>
    match describe im with
    | none => newItems group index ims
    | some d => .pack (some d.name) d.layout d.variant index group :: newItems group (index + 1) ims

/-- What the scratch item holds after some strings: the fields that they set, in memory that is freed. -/
structure Scanned (earlier : List Bytes) (round : ℕ) (item : ScratchItem) : Prop where
  isSome : ∀ field, (item.get field).isSome = true ↔ ∃ s ∈ earlier, SetsField field s
  freed : ∀ field s, item.get field = some s → s.round < round

theorem Scanned.scan {earlier : List Bytes} {round : ℕ} {item : ScratchItem} (h : Scanned earlier round item)
    (im : Bytes) : Scanned (earlier ++ [im]) (round + 1) (item.scan round im) := by
  refine ⟨fun field => ?_, fun field s hs => ?_⟩
  · have hmem : (∃ s ∈ earlier ++ [im], SetsField field s) ↔
        (∃ s ∈ earlier, SetsField field s) ∨ SetsField field im := by
      simp only [List.mem_append, List.mem_singleton, or_and_right, exists_or, exists_eq_left]
    rw [scan_get, Option.isSome_or, Option.isSome_map, Bool.or_eq_true, h.isSome, hmem, Or.comm]
    rfl
  · rw [scan_get] at hs
    cases hvalue : fieldValue field im with
    | none =>
      rw [hvalue] at hs
      exact Nat.lt_succ_of_lt (h.freed field s hs)
    | some value =>
      rw [hvalue] at hs
      cases hs
      exact Nat.lt_succ_self round

/-- What is read of a field in a round: the value of its string, if no earlier string has set it alone. -/
theorem Scanned.read {earlier : List Bytes} {round : ℕ} {item : ScratchItem} (h : Scanned earlier round item)
    (im : Bytes) (field : ItemField) : readSplit round ((item.scan round im).get field) =
      if (∃ s ∈ earlier, SetsField field s) → SetsField field im then some (fieldValue field im) else none := by
  rw [scan_get]
  cases hvalue : fieldValue field im with
  | some value =>
    have hsets : SetsField field im := by rw [SetsField, hvalue]; rfl
    rw [if_pos fun _ => hsets]
    exact if_pos rfl
  | none =>
    have hnot : ¬ SetsField field im := by rw [SetsField, hvalue]; exact Bool.false_ne_true
    cases hget : item.get field with
    | none =>
      have hearlier : ¬ ∃ s ∈ earlier, SetsField field s := by
        rw [← h.isSome, hget]
        exact Bool.false_ne_true
      rw [if_pos fun hex => absurd hex hearlier]
      rfl
    | some s =>
      have hearlier : ∃ s ∈ earlier, SetsField field s := by
        rw [← h.isSome, hget]
        rfl
      rw [if_neg fun himp => hnot (himp hearlier)]
      exact if_neg (Nat.ne_of_lt (h.freed field s hget))

/-- **The loop** appends the items of the descriptions if the fields are renewed, and reads freed memory if not. -/
theorem setListLoop_eq (ims : List Bytes) {earlier : List Bytes} {round : ℕ} {item : ScratchItem}
    (h : Scanned earlier round item) (group : InputMethodGroup) :
    InputMethodManager.setListLoop (some group) item round ims =
      if Renewed earlier ims then
        some (some { group with items := group.items ++ newItems group.ptr group.items.length ims })
      else none := by
  induction ims generalizing earlier round item group with
  | nil =>
    rw [InputMethodManager.setListLoop, newItems, List.append_nil]
    exact (if_pos trivial).symm
  | cons im ims ih =>
    have hscan := h.scan im
    have hname : (item.scan round im).name.isSome = true ↔ ∃ s ∈ earlier ++ [im], SetsField .name s :=
      hscan.isSome .name
    rw [InputMethodManager.setListLoop, newItems]
    dsimp only
    by_cases hnamed : ∃ s ∈ earlier ++ [im], SetsField .name s
    · have hreadName : readSplit round (item.scan round im).name = _ := h.read im .name
      have hreadLayout : readSplit round (item.scan round im).layout = _ := h.read im .layout
      have hreadVariant : readSplit round (item.scan round im).variant = _ := h.read im .variant
      rw [if_pos (hname.mpr hnamed)]
      by_cases hall : ∀ field ∈ [ItemField.name, .layout, .variant],
          (∃ s ∈ earlier, SetsField field s) → SetsField field im
      · -- every string is read from this round
        rw [if_pos (hall .name (by decide))] at hreadName
        rw [if_pos (hall .layout (by decide))] at hreadLayout
        rw [if_pos (hall .variant (by decide))] at hreadVariant
        have hsets : SetsField .name im := by
          obtain ⟨s, hs, hset⟩ := hnamed
          rcases List.mem_append.mp hs with hs | hs
          · exact hall .name (by decide) ⟨s, hs, hset⟩
          · rw [← List.mem_singleton.mp hs]
            exact hset
        obtain ⟨name, hvalue⟩ := Option.isSome_iff_exists.mp hsets
        rw [hreadName, hreadLayout, hreadVariant, describe, hvalue]
        have hrest := ih hscan { group with items := group.items ++
          [InputMethodItem.pack (some name) (fieldValue .layout im) (fieldValue .variant im) group.items.length
            group.ptr] }
        dsimp only at hrest ⊢
        refine hrest.trans ?_
        rw [List.length_append, List.append_assoc]
        refine if_congr ⟨fun hr => ⟨fun _ => hall, hr⟩, fun hr => hr.2⟩ rfl rfl
      · rw [if_neg fun hr => hall (hr.1 hnamed)]
        -- one of the three reads is of freed memory
        rw [hreadName, hreadLayout, hreadVariant]
        by_cases h₁ : (∃ s ∈ earlier, SetsField .name s) → SetsField .name im
        · by_cases h₂ : (∃ s ∈ earlier, SetsField .layout s) → SetsField .layout im
          · by_cases h₃ : (∃ s ∈ earlier, SetsField .variant s) → SetsField .variant im
            · refine absurd (fun field hfield => ?_) hall
              cases field
              · exact h₁
              · exact h₂
              · exact h₃
            · rw [if_pos h₁, if_pos h₂, if_neg h₃]
              rfl
          · rw [if_pos h₁, if_neg h₂]
            rfl
        · rw [if_neg h₁]
          rfl
    · have hnot : ¬ SetsField .name im := fun hset =>
        hnamed ⟨im, List.mem_append_right earlier (List.mem_singleton_self im), hset⟩
      have hnone : describe im = none := by
        rw [describe, Option.map_eq_none_iff, ← Option.not_isSome_iff_eq_none]
        exact hnot
      rw [if_neg (mt hname.mp hnamed), hnone, ih hscan group]
      exact if_congr ⟨fun hr => ⟨fun hex => absurd hex hnamed, hr⟩, fun hr => hr.2⟩ rfl rfl

/-- With NULL for the group the loop goes through if no string has a name. -/
theorem setListLoop_null (ims : List Bytes) {round : ℕ} {item : ScratchItem} (h : item.name = none) :
    InputMethodManager.setListLoop none item round ims =
      if ∀ im ∈ ims, ¬ SetsField .name im then some none else none := by
  induction ims generalizing round item with
  | nil => exact (if_pos fun im him => absurd him List.not_mem_nil).symm
  | cons im ims ih =>
    have hname : (item.scan round im).name = (fieldValue .name im).map (⟨round, ·⟩) := by
      have hget := scan_get round item im .name
      rw [show item.get .name = none from h, Option.or_none] at hget
      exact hget
    rw [InputMethodManager.setListLoop]
    dsimp only
    by_cases hset : SetsField .name im
    · have hsome : (item.scan round im).name.isSome = true := by
        rw [hname, Option.isSome_map]
        exact hset
      rw [if_pos hsome, if_neg fun hall => hall im List.mem_cons_self hset]
      cases readSplit round (item.scan round im).name with
      | none => rfl
      | some _ =>
        cases readSplit round (item.scan round im).layout with
        | none => rfl
        | some _ => cases readSplit round (item.scan round im).variant <;> rfl
    · have hnone : (item.scan round im).name = none := by
        rw [hname, Option.map_eq_none_iff, ← Option.not_isSome_iff_eq_none]
        exact hset
      rw [hnone, if_neg (by simp), ih hnone]
      refine if_congr ⟨fun hall => ?_, fun hall im him => hall im (List.mem_cons_of_mem _ him)⟩ rfl rfl
      exact List.forall_mem_cons.mpr ⟨hset, hall⟩

/-! ### The law -/

theorem view_newItems (group : ImGroupPtr) (index : ℕ) {ims : List Bytes} (hims : ∀ im ∈ ims, 0 ∉ im) :
    (newItems group index ims).map InputMethodItem.view =
      (ims.filterMap describe).mapIdx fun i d => d.view group (index + i) := by
  induction ims generalizing index with
  | nil => rfl
  | cons im ims ih =>
    have hrest := fun index => ih index fun im him => hims im (List.mem_cons_of_mem _ him)
    rw [newItems, List.filterMap_cons]
    cases hdescribe : describe im with
    | none => exact hrest index
    | some d =>
      obtain ⟨name, hname, hd⟩ := Option.map_eq_some_iff.mp hdescribe
      have him := hims im List.mem_cons_self
      dsimp only
      rw [List.map_cons, List.mapIdx_cons, hrest (index + 1), view_pack]
      · simp only [Nat.add_zero, Nat.add_assoc, Nat.add_comm 1]
        rfl
      · intro s hs
        rw [← hd] at hs
        cases hs
        exact zero_notMem_fieldValue him hname
      · intro s hs
        rw [← hd] at hs
        exact zero_notMem_fieldValue him hs
      · intro s hs
        rw [← hd] at hs
        exact zero_notMem_fieldValue him hs

namespace InputMethodManager

/-- **Setting the list of a group**: its items are the descriptions in order, whatever it had before. -/
def ListSet (manager : InputMethodManager) (groupId : ℤ) (group : InputMethodGroup) (ims : List Bytes) : Prop :=
  ∃ items, manager.setInputMethodList groupId ims =
      some { manager with groups := manager.groups.set groupId.toNat { group with items := items } } ∧
    items.map InputMethodItem.view = (ims.filterMap describe).mapIdx fun i d => d.view group.ptr i

/-- **The list is set** exactly if the group was empty and the strings renew their fields. -/
theorem listSet_iff (manager : InputMethodManager) {groupId : ℤ} {group : InputMethodGroup} (hpos : 0 ≤ groupId)
    (hgroup : manager.groupAt groupId = some group) (ims : List Bytes) (hims : ∀ im ∈ ims, 0 ∉ im) :
    manager.ListSet groupId group ims ↔ group.items = [] ∧ Renewed [] ims := by
  obtain ⟨hlt, hget⟩ := List.getElem?_eq_some_iff.mp hgroup
  have hpass : ¬ manager.rejected groupId := by
    unfold rejected
    omega
  have hscanned : Scanned [] 0 ⟨none, none, none⟩ := by
    refine ⟨fun field => ⟨fun h => ?_, fun ⟨s, hs, _⟩ => absurd hs List.not_mem_nil⟩, fun field s h => ?_⟩
    · cases field <;> cases h
    · cases field <;> cases h
  have hview := fun index => view_newItems group.ptr index hims
  rw [ListSet, setInputMethodList, if_neg hpass, hgroup, setListLoop_eq ims hscanned group]
  by_cases hrenewed : Renewed [] ims
  · rw [if_pos hrenewed, Option.map_some]
    constructor
    · rintro ⟨items, hset, hitems⟩
      have hat := congrArg (fun m : Option InputMethodManager => m.bind fun m => m.groups[groupId.toNat]?) hset
      dsimp only [Option.bind_some] at hat
      rw [List.getElem?_set_self hlt, List.getElem?_set_self hlt] at hat
      have hsame : group.items ++ newItems group.ptr group.items.length ims = items :=
        congrArg InputMethodGroup.items (Option.some.inj hat)
      have hlen := congrArg List.length hitems
      have hnew := congrArg List.length (hview group.items.length)
      rw [← hsame, List.length_map, List.length_append, List.length_mapIdx] at hlen
      rw [List.length_map, List.length_mapIdx] at hnew
      exact ⟨List.eq_nil_of_length_eq_zero (by omega), hrenewed⟩
    · rintro ⟨hnil, -⟩
      refine ⟨newItems group.ptr 0 ims, ?_, ?_⟩
      · rw [hnil]
        rfl
      · rw [hview 0]
        simp only [Nat.zero_add]
  · rw [if_neg hrenewed]
    constructor
    · rintro ⟨items, hset, -⟩
      cases hset
    · exact fun h => absurd h.2 hrenewed

/-- With the number of groups for the group, nothing is done if no string has a name. -/
theorem setInputMethodList_length_iff (manager : InputMethodManager) (ims : List Bytes) :
    manager.setInputMethodList manager.groups.length ims = some manager ↔ ∀ im ∈ ims, ¬ SetsField .name im := by
  rw [setInputMethodList, if_neg manager.not_rejected_length, groupAt_length, setListLoop_null ims rfl]
  split
  case isTrue hall => exact ⟨fun _ => hall, fun _ => rfl⟩
  case isFalse hall => exact ⟨fun h => (by cases h), fun h => absurd h hall⟩

/-- `"name:a"`, `"name:b,layout:c"` -/
def twoMethods : List Bytes :=
  [[110, 97, 109, 101, 58, 97], [110, 97, 109, 101, 58, 98, 44, 108, 97, 121, 111, 117, 116, 58, 99]]

def oneGroup : InputMethodManager := run [.createGroup (some [106]) none]

theorem listSet_twoMethods : oneGroup.ListSet 0 ⟨0, ⟨[106], none⟩, []⟩ twoMethods :=
  (listSet_iff oneGroup (by decide) (by decide) twoMethods (by decide)).mpr ⟨rfl, by decide⟩

/-- With the two strings the other way round, the layout of the first is read for the second. -/
theorem not_listSet_reversed : ¬ oneGroup.ListSet 0 ⟨0, ⟨[106], none⟩, []⟩ twoMethods.reverse := by
  rintro ⟨items, hset, -⟩
  have hnone : oneGroup.setInputMethodList 0 twoMethods.reverse = none := by decide
  rw [hnone] at hset
  cases hset

end InputMethodManager

end Fcitx
