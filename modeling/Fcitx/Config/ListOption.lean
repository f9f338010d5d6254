/-
# Lists of options

A list is stored under the numbers from 0 on, below the node of the option, and read up
to the first number that is missing. Storing a list takes nothing out: what is
read afterwards is the list only if the number behind its last one was not there.

The counter is a `uint32_t`, so that a list that is longer than its values is never
stored to the end; `none` is a loop that goes on for ever.

Key definitions: `ElementFuncs`, `Configuration.setList`, `Configuration.getList`.
Key theorems: `Configuration.setListLoop_eq`, `Configuration.getListLoop_eq`,
`Configuration.getList_setList_iff`.
-/
import Fcitx.Config.Options
import Fcitx.Config.Paths

namespace Fcitx

open Decimal (digits digits_ne_nil digits_injective isDigit_of_mem)

/-- `storeFunc` and `loadFunc` of an `info`, which are inverse on one sub-configuration. -/
structure ElementFuncs (A : Type) where
  storeFunc : A → Configuration → Configuration
  loadFunc : Configuration → A
  distinct : ∀ data config, config.Distinct → (storeFunc data config).Distinct
  load_store : ∀ data config, config.Distinct → loadFunc (storeFunc data config) = data

/-- The values of the counter. -/
def counterValues : ℕ := 0x100000000

namespace Configuration

open KeyTree

variable {A : Type} (funcs : ElementFuncs A)

/-- One element of `fcitx_configuration_set_list`. -/
def storeElement (config : Configuration) (i : ℕ) (data : A) : Configuration :=
  let result := config._get (digits i) true
  match result.config with
  | some subConfig => result.root.modify (funcs.storeFunc data) subConfig
  | none => result.root

/-- The loop of `fcitx_configuration_set_list`, given rounds. -/
def setListLoop (list : List A) : ℕ → ℕ → Configuration → Option Configuration
  | 0, _, _ => none
  | rounds + 1, i, config =>
    match list[i]? with
    | none => some config
    | some data => setListLoop list rounds ((i + 1) % counterValues) (storeElement funcs config i data)

/-- `fcitx_configuration_set_list` -/
def setList (root : Configuration) (path : Bytes) (list : List A) : Option Configuration :=
  let result := root._get path true
  result.config.bind fun ptr =>
    (result.root.find ptr).bind fun config =>
      (setListLoop funcs list (list.length + 1) 0 config).map fun config =>
        result.root.modify (fun _ => config) ptr

/-- The loop of `fcitx_configuration_get_list`, given rounds. -/
def getListLoop (config : Configuration) : ℕ → ℕ → List A → Option (List A)
  | 0, _, _ => none
  | rounds + 1, i, list =>
    match (config.get (digits i)).bind config.find with
    | none => some list
    | some subConfig => getListLoop config rounds ((i + 1) % counterValues) (list ++ [funcs.loadFunc subConfig])

/-- `fcitx_configuration_get_list`; in as many rounds as the counter has values a missing number is found. -/
def getList (root : Configuration) (path : Bytes) : Option (List A) :=
  match (root.get path).bind root.find with
  | none => some []
  | some config => getListLoop funcs config counterValues 0 []

/-! ### The path of a number -/

theorem slash_notMem_digits (i : ℕ) : slash ∉ digits i := fun h => absurd (isDigit_of_mem h) (by decide)

/-- Looking for a number is looking for the child. -/
theorem get_digits (config : Configuration) (i : ℕ) :
    (config.get (digits i)).bind config.find = config.child (digits i) :=
  get_segment (digits_ne_nil i) (slash_notMem_digits i) config

/-! ### Storing -/

/-- **Storing an element** changes one child. -/
theorem storeElement_spec {config : Configuration} (h : config.Distinct) (i : ℕ) (data : A) :
    (storeElement funcs config i data).Distinct ∧
      (∃ subConfig : Configuration, subConfig.Distinct ∧
        (storeElement funcs config i data).child (digits i) = some (funcs.storeFunc data subConfig)) ∧
      ∀ k, k ≠ digits i → (storeElement funcs config i data).child k = config.child k := by
  obtain ⟨hconfig, hroot⟩ := _get_segment (digits_ne_nil i) (slash_notMem_digits i) config
  -- the tree with the child
  have hmade : (config._get (digits i) true).root.Distinct ∧
      (∃ c, (config._get (digits i) true).root.child (digits i) = some c) ∧
        ∀ k, k ≠ digits i → (config._get (digits i) true).root.child k = config.child k := by
    rw [hroot]
    split
    · next hsome => exact ⟨h, Option.isSome_iff_exists.mp hsome, fun _ _ => rfl⟩
    · next hnone =>
      rw [Bool.not_eq_true, Option.isSome_eq_false_iff, Option.isNone_iff_eq_none] at hnone
      refine ⟨h.insertChild hnone, ⟨.node ⟨some (digits i), none, none⟩ none, ?_⟩, fun k hk => ?_⟩
      · rw [child_insertChild hnone, if_pos rfl]
      · rw [child_insertChild hnone, if_neg hk]
  obtain ⟨hd, ⟨c, hc⟩, hother⟩ := hmade
  have hfind : (config._get (digits i) true).root.find [digits i] = some c := by rw [find_singleton, hc]
  have hcd : c.Distinct := hd.find hfind
  rw [storeElement, hconfig]
  dsimp only
  refine ⟨hd.modify fun u hu hdu => funcs.distinct data u hdu, ⟨c, hcd, ?_⟩, fun k hk => ?_⟩
  · rw [child_modify, if_pos rfl, hc]
    rfl
  · rw [child_modify, if_neg hk, hother k hk]

/-- **Storing a list** from a number on. -/
theorem setListLoop_eq {list : List A} (hlen : list.length < counterValues) {rounds i : ℕ} {config : Configuration}
    (h : config.Distinct) (hi : i ≤ list.length) (hrounds : list.length - i < rounds) :
    ∃ config', setListLoop funcs list rounds i config = some config' ∧ config'.Distinct ∧
      (∀ j data, i ≤ j → list[j]? = some data → ∃ subConfig : Configuration, subConfig.Distinct ∧
        config'.child (digits j) = some (funcs.storeFunc data subConfig)) ∧
      ∀ j, (j < i ∨ list.length ≤ j) → config'.child (digits j) = config.child (digits j) := by
  induction rounds generalizing i config with
  | zero => omega
  | succ rounds ih =>
    rw [setListLoop]
    cases hdata : list[i]? with
    | none =>
      have hend := List.getElem?_eq_none_iff.mp hdata
      refine ⟨config, rfl, h, fun j data hij hj => ?_, fun _ _ => rfl⟩
      obtain ⟨hlt, -⟩ := List.getElem?_eq_some_iff.mp hj
      omega
    | some data =>
      obtain ⟨hlt, -⟩ := List.getElem?_eq_some_iff.mp hdata
      obtain ⟨hd, ⟨subConfig, hsub, hchild⟩, hother⟩ := storeElement_spec funcs h i data
      have hmod : (i + 1) % counterValues = i + 1 := Nat.mod_eq_of_lt (Nat.lt_of_le_of_lt hlt hlen)
      obtain ⟨config', hloop, hd', hnumbers, hrest⟩ := ih (i := i + 1) hd hlt (by omega)
      refine ⟨config', ?_, hd', fun j data' hij hj => ?_, fun j hj => ?_⟩
      · dsimp only
        rw [hmod]
        exact hloop
      · rcases Nat.eq_or_lt_of_le hij with rfl | hlt'
        · rw [hdata] at hj
          obtain rfl := Option.some.inj hj
          exact ⟨subConfig, hsub, (hrest i (Or.inl (Nat.lt_succ_self i))).trans hchild⟩
        · exact hnumbers j data' hlt' hj
      · have hne : digits j ≠ digits i := fun heq => by
          have hij := digits_injective heq
          omega
        rw [hrest j (by omega), hother _ hne]

/-- A list that is too long is never stored to the end. -/
theorem setListLoop_eq_none {list : List A} (hlen : counterValues ≤ list.length) (rounds : ℕ) {i : ℕ}
    (hi : i < counterValues) (config : Configuration) : setListLoop funcs list rounds i config = none := by
  induction rounds generalizing i config with
  | zero => rfl
  | succ rounds ih =>
    have hlt : i < list.length := Nat.lt_of_lt_of_le hi hlen
    rw [setListLoop, List.getElem?_eq_getElem hlt]
    exact ih (Nat.mod_lt _ (by decide)) _

/-! ### Reading -/

/-- **Reading** numbers that are there, up to one that is missing. -/
theorem getListLoop_eq {config : Configuration} {list : List A} {n : ℕ} (hn : n < counterValues)
    (hmissing : config.child (digits n) = none) {rounds i : ℕ} (hi : i ≤ n)
    (hnumbers : ∀ j, i ≤ j → j < n → ∃ subConfig, config.child (digits j) = some subConfig ∧
      list[j]? = some (funcs.loadFunc subConfig)) (hlen : list.length = n) (hrounds : n - i < rounds) :
    getListLoop funcs config rounds i (list.take i) = some list := by
  induction rounds generalizing i with
  | zero => omega
  | succ rounds ih =>
    rw [getListLoop, get_digits]
    rcases Nat.eq_or_lt_of_le hi with rfl | hlt
    · rw [hmissing]
      dsimp only
      rw [← hlen, List.take_length]
    · obtain ⟨subConfig, hchild, hget⟩ := hnumbers i (Nat.le_refl i) hlt
      have hmod : (i + 1) % counterValues = i + 1 := Nat.mod_eq_of_lt (Nat.lt_of_le_of_lt hlt hn)
      have htake : list.take i ++ [funcs.loadFunc subConfig] = list.take (i + 1) := by
        rw [List.take_add_one, hget, Option.toList_some]
      rw [hchild]
      dsimp only
      rw [hmod, htake]
      exact ih hlt (fun j hij hj => hnumbers j (Nat.le_of_succ_le hij) hj) (by omega)

/-- What is read ends before a number that is missing. -/
theorem getListLoop_missing {config : Configuration} {rounds i : ℕ} (hi : i < counterValues) {list out : List A}
    (h : getListLoop funcs config rounds i list = some out) :
    ∃ k, out.length = list.length + k ∧ config.child (digits ((i + k) % counterValues)) = none := by
  induction rounds generalizing i list with
  | zero => cases h
  | succ rounds ih =>
    rw [getListLoop, get_digits] at h
    cases hchild : config.child (digits i) with
    | none =>
      rw [hchild] at h
      refine ⟨0, by rw [← Option.some.inj h]; rfl, ?_⟩
      rw [Nat.add_zero, Nat.mod_eq_of_lt hi, hchild]
    | some subConfig =>
      rw [hchild] at h
      obtain ⟨k, hlen, hmissing⟩ := ih (Nat.mod_lt _ (by decide)) h
      refine ⟨k + 1, ?_, ?_⟩
      · rw [hlen, List.length_append, List.length_singleton, Nat.add_assoc, Nat.add_comm 1 k]
      · rw [Nat.mod_add_mod, Nat.add_assoc, Nat.add_comm 1 k] at hmissing
        exact hmissing

/-! ### Storing and reading -/

/-- The node of a list, before and after the path is made: the numbers below it are the same. -/
theorem find_create_digits {root : Configuration} (h : root.Distinct) (path : Bytes) (i : ℕ) {config : Configuration}
    (hconfig : (root._get path true).root.find (segments path) = some config) :
    config.child (digits i) = none ↔ root.find (segments path ++ [digits i]) = none := by
  obtain ⟨-, -, -, hall⟩ := getLoop_create root [] none [] path rfl h
  have hnot : ¬ segments path ++ [digits i] <+: segments path := fun hway => by
    have hle := hway.length_le
    rw [List.length_append, List.length_singleton] at hle
    omega
  have hdata := hall (segments path ++ [digits i])
  rw [List.nil_append, if_neg hnot, Option.or_none, dataAt, dataAt] at hdata
  have hfind : (root._get path true).root.find (segments path ++ [digits i]) = config.child (digits i) := by
    rw [find_append, hconfig, Option.bind_some, find_singleton]
  rw [← Option.map_eq_none_iff (f := KeyTree.data), ← hfind]
  show Option.map _ ((getLoop true root [] none [] path).root.find _) = none ↔ _
  rw [hdata, Option.map_eq_none_iff]

/-- **What is read is the list that was stored** exactly if the counter does not pass its last value and
nothing was there before under the number behind the last one. -/
theorem getList_setList_iff (root : Configuration) (h : root.Distinct) (path : Bytes) (list : List A) :
    ((setList funcs root path list).bind fun root => getList funcs root path) = some list ↔
      list.length < counterValues ∧ root.find (segments path ++ [digits list.length]) = none := by
  obtain ⟨hptr, hfound, hd, -⟩ := getLoop_create root [] none [] path rfl h
  rw [List.nil_append] at hptr hfound
  obtain ⟨config, hconfig⟩ := Option.isSome_iff_exists.mp hfound
  change (root._get path true).config = some (segments path) at hptr
  change (root._get path true).root.find (segments path) = some config at hconfig
  have hset : setList funcs root path list = (setListLoop funcs list (list.length + 1) 0 config).map fun config =>
      (root._get path true).root.modify (fun _ => config) (segments path) := by
    rw [setList, hptr, Option.bind_some, hconfig, Option.bind_some]
  rw [hset]
  rcases Nat.lt_or_ge list.length counterValues with hlen | hlen
  · have hrounds : list.length - 0 < list.length + 1 := by omega
    obtain ⟨config', hloop, -, hnumbers, hrest⟩ :=
      setListLoop_eq funcs hlen (hd.find hconfig) (Nat.zero_le _) hrounds
    have hfind : ((root._get path true).root.modify (fun _ => config') (segments path)).find (segments path) =
        some config' := by
      rw [find_modify, hconfig, Option.map_some]
    have hget : getList funcs ((root._get path true).root.modify (fun _ => config') (segments path)) path =
        getListLoop funcs config' counterValues 0 [] := by
      rw [getList, get_eq, hfind, Option.isSome_some, if_pos rfl, Option.bind_some, hfind]
    have hlast : config'.child (digits list.length) = none ↔
        root.find (segments path ++ [digits list.length]) = none := by
      rw [hrest _ (Or.inr (Nat.le_refl _))]
      exact find_create_digits h path _ hconfig
    rw [hloop, Option.map_some, Option.bind_some, hget, and_iff_right hlen, ← hlast]
    constructor
    · intro hread
      obtain ⟨k, hk, hmissing⟩ := getListLoop_missing funcs (by decide) hread
      rw [List.length_nil, Nat.zero_add] at hk
      rw [← hk, Nat.zero_add, Nat.mod_eq_of_lt hlen] at hmissing
      exact hmissing
    · intro hmissing
      refine getListLoop_eq funcs hlen hmissing (Nat.zero_le _) (fun j _ hj => ?_) rfl (by omega)
      obtain ⟨subConfig, hsub, hchild⟩ := hnumbers j list[j] (Nat.zero_le j) (List.getElem?_eq_getElem hj)
      refine ⟨_, hchild, ?_⟩
      rw [funcs.load_store _ _ hsub, List.getElem?_eq_getElem hj]
  · -- the loop does not end
    rw [setListLoop_eq_none funcs hlen _ (by decide)]
    refine iff_of_false (fun hread => ?_) fun hcond => Nat.not_lt.mpr hlen hcond.1
    cases hread

/-- The elements of a list of strings without a limit. -/
def stringFuncs : ElementFuncs Bytes where
  storeFunc data config := config.setString [] (some data)
  loadFunc config := config.getString [] ⟨none, 0⟩
  distinct data _ h := (values_setValueByPath h [] (some data)).1
  load_store data _ h := (stringLaw h [] ⟨none, 0⟩).kept data (Or.inl rfl)

/-- Two strings in a new configuration. -/
theorem getList_setList_iff_two :
    ((setList stringFuncs (Configuration.new none) [76] [[49], [50]]).bind fun root =>
      getList stringFuncs root [76]) = some [[49], [50]] := by
  apply (getList_setList_iff stringFuncs (Configuration.new none) KeyTree.distinct_leaf [76] [[49], [50]]).mpr
  exact ⟨by decide, KeyTree.find_leaf (List.append_ne_nil_of_right_ne_nil _ (List.cons_ne_nil _ _))⟩

/-- A list of one string behind a list of two is read as two. -/
theorem not_getList_setList_longer :
    ¬ ∀ (A : Type) (funcs : ElementFuncs A) (root : Configuration) (path : Bytes) (list : List A), root.Distinct →
      ((setList funcs root path list).bind fun root => getList funcs root path) = some list := by
  intro h
  have hleaf : (Configuration.new none).Distinct := KeyTree.distinct_leaf
  have hfirst := values_setValueByPath hleaf [76, 47, 48] (some [120])
  have hsecond := values_setValueByPath hfirst.1 [76, 47, 49] (some [121])
  have hlist := h Bytes stringFuncs _ [76] [[122]] hsecond.1
  exact absurd hlist (by decide +kernel)

end Configuration
end Fcitx
