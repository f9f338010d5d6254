/-
# The cleanup of a load

`fcitx_addon_manager_load` first takes the addons that are not loaded out of its
dictionary, each by `fcitx_dict_remove_data`. The loop leaves the addons that are
loaded, with a count that is too small; it faults when no addon is loaded.

Key definitions: `AddonManager.unloadedCount`, `AddonManager.CleansUp`.
Key theorems: `AddonManager.removeUnloaded_count`, `AddonManager.cleansUp_iff`, `dictRemoval_never`.
-/
import Fcitx.Addon.Registry
import Fcitx.Utils.DictRemove

namespace Fcitx

namespace AddonManager

variable {m m' : AddonManager}

/-- How many of the entries are not loaded. -/
def unloadedCount (manager : AddonManager) (items : List (Bytes × AddonPtr)) : ℕ :=
  items.countP fun e => !(manager.addon e.2).loaded

/-- What the loop is for: the addons that are loaded stay, in their order, and they are counted. -/
def CleansUp (manager : AddonManager) : Prop :=
  ∃ manager', removeUnloaded manager.addons.items manager = some manager' ∧
    (manager'.addons.items = manager.addons.items.filter fun e => (manager.addon e.2).loaded) ∧
    manager'.addons.Counted

/-- Where all addons are loaded the loop does nothing. -/
theorem removeUnloaded_of_loaded {items : List (Bytes × AddonPtr)} (h : ∀ e ∈ items, (m.addon e.2).loaded = true) :
    removeUnloaded items m = some m := by
  induction items with
  | nil => rfl
  | cons e items ih =>
    rw [removeUnloaded, if_pos (h e List.mem_cons_self)]
    exact ih fun e' he' => h e' (List.mem_cons_of_mem e he')

/-- **Two are taken from the count for each addon** that is not loaded. -/
theorem removeUnloaded_count {items : List (Bytes × AddonPtr)} (hr : removeUnloaded items m = some m')
    (hbound : m.addons.numItems < 0x100000000) :
    (m'.addons.numItems + 2 * m.unloadedCount items) % 0x100000000 = m.addons.numItems := by
  induction items generalizing m with
  | nil =>
    cases hr
    rw [unloadedCount, List.countP_nil]
    omega
  | cons e items ih =>
    rw [removeUnloaded] at hr
    rw [unloadedCount, List.countP_cons, ← unloadedCount]
    split at hr
    case isTrue hl =>
      rw [hl]
      exact ih hr hbound
    case isFalse hl =>
      obtain ⟨addons, hremove, hr⟩ := Option.bind_eq_some_iff.mp hr
      rw [Bool.eq_false_iff.mpr hl]
      rw [Dict.removeData] at hremove
      split at hremove
      case isTrue => cases hremove
      case isFalse =>
        cases hremove
        have hcount := ih hr (Nat.mod_lt _ (by decide))
        have htwice : (m'.addons.numItems + 2 * m.unloadedCount items) % 0x100000000 =
            ((m.addons.numItems + 0xffffffff) % 0x100000000 + 0xffffffff) % 0x100000000 := hcount
        show (m'.addons.numItems + 2 * (m.unloadedCount items + 1)) % 0x100000000 = m.addons.numItems
        omega

/-- **The loop cleans up** only where there is nothing to do. -/
theorem cleansUp_iff (h : m.addons.Counted) :
    m.CleansUp ↔ ∀ e ∈ m.addons.items, (m.addon e.2).loaded = true := by
  constructor
  · rintro ⟨m', hr, hitems, hcounted⟩
    have hbound := h.bound
    have hsplit := List.length_eq_countP_add_countP (p := fun e => (m.addon e.2).loaded) (l := m.addons.items)
    have hcount := removeUnloaded_count hr (by rw [h.count]; exact hbound)
    have hlen : m'.addons.numItems = m.addons.items.countP fun e => (m.addon e.2).loaded := by
      rw [hcounted.count, hitems, List.countP_eq_length_filter]
    -- the count is right only if nothing was taken from it
    have hnone : m.unloadedCount m.addons.items = 0 := by
      have hsame : m.unloadedCount m.addons.items =
          m.addons.items.countP fun e => decide ¬(m.addon e.2).loaded = true :=
        List.countP_congr fun e _ => by simp
      rw [hlen, h.count] at hcount
      omega
    intro e he
    have hnot := List.countP_eq_zero.mp hnone e he
    simpa using hnot
  · intro hall
    refine ⟨m, removeUnloaded_of_loaded hall, (List.filter_eq_self.mpr hall).symm, h⟩

end AddonManager

/-- **Taking out an entry of a dictionary is never exact**, and the cleanup of a load only where every addon is
loaded. -/
theorem dictRemoval_never {A : Type} {dict : Dict A} {key : Bytes} {data : A} (hdict : dict.Counted)
    (hmem : (key, data) ∈ dict.items) (dataOut destroyNotify : Bool) {manager : AddonManager}
    (hmanager : manager.addons.Counted) :
    (¬ ∃ removal, dict.removeDataOut key data dataOut destroyNotify = some removal ∧
        dict.RemovesExactly key data dataOut destroyNotify removal) ∧
      (manager.CleansUp ↔ ∀ e ∈ manager.addons.items, (manager.addon e.2).loaded = true) :=
  ⟨Dict.not_removesExactly hdict hmem dataOut destroyNotify, AddonManager.cleansUp_iff hmanager⟩

/-- A dictionary with two entries. -/
def twoEntries : Dict ℕ := (Dict.new.insert [97] 1).insert [98] 2

/-- A manager with two addons that are not loaded. -/
def twoUnloaded : AddonManager := { AddonManager.new [] with addons := (Dict.new.insert [97] 0).insert [98] 1 }

theorem dictRemoval_never_first :
    (¬ ∃ removal, twoEntries.removeDataOut [97] 1 true false = some removal ∧
        twoEntries.RemovesExactly [97] 1 true false removal) ∧ ¬ twoUnloaded.CleansUp := by
  have hdict : twoEntries.Counted := ⟨by decide, by decide, by decide⟩
  have hmanager : twoUnloaded.addons.Counted := ⟨by decide, by decide, by decide⟩
  have hmem : (([97] : Bytes), 1) ∈ twoEntries.items := by decide
  obtain ⟨hremoval, hcleanup⟩ := dictRemoval_never hdict hmem true false hmanager
  exact ⟨hremoval, mt hcleanup.mp (by decide)⟩

/-- After one of the two entries is taken out, the other one is found, but the size is 0. -/
theorem not_removesExactly_twoEntries : ¬ ∃ removal, twoEntries.removeDataOut [98] 2 false true = some removal ∧
    twoEntries.RemovesExactly [98] 2 false true removal := by
  rintro ⟨removal, hremoval, hexact⟩
  cases hremoval
  exact absurd hexact.size (by decide)

end Fcitx
