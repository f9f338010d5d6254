/-
# Taking an entry out of a dictionary

`fcitx_dict_remove` deletes the entry of a key once, after it was found.
`fcitx_dict_remove_data` gets the entry itself and deletes it twice: the order
of the other entries and what is found stay right, but the count is two less,
and the only entry of a dictionary is deleted from a table that is gone.

Key definitions: `Dict.Counted`, `Dict.remove`, `Dict.removeDataOut`, `Dict.RemovesExactly`.
Key theorems: `Dict.remove_removesExactly`, `Dict.removeDataOut_spec`, `Dict.not_removesExactly`.
-/
import Fcitx.Utils.Dict

namespace Fcitx

namespace Dict

variable {A : Type}

/-- `fcitx_dict_size` -/
def size (dict : Dict A) : ℕ := if dict.items.isEmpty then 0 else dict.numItems

/-- The keys are different, and their number is the count of the table. -/
structure Counted (dict : Dict A) : Prop where
  keys : (Assoc.keys dict.items).Nodup
  count : dict.numItems = dict.items.length
  bound : dict.items.length < 0x100000000

/-- What a removal leaves: the dictionary, what it stored behind `dataOut`, and the values it gave to
`destroyNotify`. -/
structure Removal (A : Type) where
  dict : Dict A
  dataOut : Option A
  destroyed : List A

/-- What becomes of the value: it is handed out if `dataOut` is not NULL, and destroyed otherwise. -/
def handOut (dict : Dict A) (data : A) (dataOut destroyNotify : Bool) : Removal A :=
  ⟨dict, if dataOut then some data else none, if dataOut || !destroyNotify then [] else [data]⟩

/-- `fcitx_dict_remove`; `none` is `return false`. -/
def remove (dict : Dict A) (key : Bytes) (dataOut destroyNotify : Bool) : Option (Removal A) :=
  (dict.lookup key).map fun data => handOut (dict.hashDel key) data dataOut destroyNotify

/-- `fcitx_dict_remove_data` of the entry with this key and data; `none` is a read through NULL. -/
def removeDataOut (dict : Dict A) (key : Bytes) (data : A) (dataOut destroyNotify : Bool) : Option (Removal A) :=
  (dict.removeData key).map fun dict => handOut dict data dataOut destroyNotify

/-- **Exactly one entry is removed.** -/
structure RemovesExactly (dict : Dict A) (key : Bytes) (data : A) (dataOut destroyNotify : Bool)
    (removal : Removal A) : Prop where
  size : removal.dict.size = dict.size - 1
  lookup : ∀ k, removal.dict.lookup k = if k = key then none else dict.lookup k
  order : removal.dict.items = dict.items.filter fun e => e.1 ≠ key
  handed : removal.dataOut = if dataOut then some data else none
  given : removal.destroyed = if dataOut || !destroyNotify then [] else [data]

section remove

variable {dict : Dict A} {key : Bytes} {data : A}

theorem length_erase (hmem : (key, data) ∈ dict.items) :
    (Assoc.erase dict.items key).length = dict.items.length - 1 :=
  List.length_eraseP_of_mem hmem (beq_self_eq_true key)

/-- The count after deleting once. -/
theorem Counted.hashDel (h : dict.Counted) (hmem : (key, data) ∈ dict.items) : (dict.hashDel key).Counted := by
  have hlen := length_erase hmem
  have hpos := List.length_pos_of_mem hmem
  have hbound := h.bound
  refine ⟨Assoc.keys_erase_nodup h.keys, ?_, ?_⟩
  · show (dict.numItems + 0xffffffff) % 0x100000000 = (Assoc.erase dict.items key).length
    rw [h.count, hlen]
    omega
  · show (Assoc.erase dict.items key).length < 0x100000000
    omega

theorem Counted.size_eq (h : dict.Counted) : dict.size = dict.items.length := by
  unfold size
  split
  case isTrue hempty => rw [List.isEmpty_iff.mp hempty]; rfl
  case isFalse => exact h.count

/-- **Removing by the key** is exact. -/
theorem remove_removesExactly (h : dict.Counted) (hmem : (key, data) ∈ dict.items) (dataOut destroyNotify : Bool) :
    ∃ removal, dict.remove key dataOut destroyNotify = some removal ∧
      RemovesExactly dict key data dataOut destroyNotify removal := by
  have hfound : dict.lookup key = some data := (Assoc.lookup_eq_some_iff h.keys).mpr hmem
  refine ⟨handOut (dict.hashDel key) data dataOut destroyNotify, by rw [remove, hfound]; rfl, ?_, ?_, ?_, rfl, rfl⟩
  · show (dict.hashDel key).size = dict.size - 1
    rw [(h.hashDel hmem).size_eq, h.size_eq]
    exact length_erase hmem
  · intro k
    exact Assoc.lookup_erase h.keys
  · exact Assoc.erase_eq_filter h.keys

/-- The table is gone when the only entry is deleted again. -/
theorem hashDel_isEmpty_iff (hmem : (key, data) ∈ dict.items) :
    (dict.hashDel key).items.isEmpty = true ↔ dict.items.length = 1 := by
  have hlen := length_erase hmem
  have hpos := List.length_pos_of_mem hmem
  rw [List.isEmpty_iff, ← List.length_eq_zero_iff]
  show (Assoc.erase dict.items key).length = 0 ↔ _
  omega

/-- **Removing the entry itself**: a fault for the only entry; else everything is right but the count, which
is two less. -/
theorem removeDataOut_spec (h : dict.Counted) (hmem : (key, data) ∈ dict.items) (dataOut destroyNotify : Bool) :
    if dict.items.length = 1 then dict.removeDataOut key data dataOut destroyNotify = none
    else
      ∃ removal, dict.removeDataOut key data dataOut destroyNotify = some removal ∧
        removal.dict.size = dict.size - 2 ∧
        (∀ k, removal.dict.lookup k = if k = key then none else dict.lookup k) ∧
        (removal.dict.items = dict.items.filter fun e => e.1 ≠ key) ∧
        removal.dataOut = (if dataOut then some data else none) ∧
        removal.destroyed = if dataOut || !destroyNotify then [] else [data] := by
  have hempty := hashDel_isEmpty_iff hmem
  split
  case isTrue hone => rw [removeDataOut, removeData, if_pos (hempty.mpr hone)]; rfl
  case isFalse hmore =>
    have hnot := mt hempty.mp hmore
    refine ⟨_, by rw [removeDataOut, removeData, if_neg hnot]; rfl, ?_, ?_, ?_, rfl, rfl⟩
    · have hcount := (h.hashDel hmem).count
      have hlen := length_erase hmem
      have hpos := List.length_pos_of_mem hmem
      have hbound := h.bound
      show (if (dict.hashDel key).items.isEmpty = true then 0
        else ((dict.hashDel key).numItems + 0xffffffff) % 0x100000000) = dict.size - 2
      rw [if_neg hnot, hcount, h.size_eq]
      show ((Assoc.erase dict.items key).length + 0xffffffff) % 0x100000000 = _
      omega
    · intro k
      exact Assoc.lookup_erase h.keys
    · exact Assoc.erase_eq_filter h.keys

/-- **It is never exact.** -/
theorem not_removesExactly (h : dict.Counted) (hmem : (key, data) ∈ dict.items) (dataOut destroyNotify : Bool) :
    ¬ ∃ removal, dict.removeDataOut key data dataOut destroyNotify = some removal ∧
      RemovesExactly dict key data dataOut destroyNotify removal := by
  rintro ⟨removal, hremoval, hexact⟩
  have hspec := removeDataOut_spec h hmem dataOut destroyNotify
  have hpos := List.length_pos_of_mem hmem
  split at hspec
  case isTrue => rw [hremoval] at hspec; cases hspec
  case isFalse hmore =>
    obtain ⟨removal', hremoval', hsize, -⟩ := hspec
    rw [hremoval] at hremoval'
    cases hremoval'
    have hone := hexact.size
    rw [hsize, h.size_eq] at hone
    omega

end remove

end Dict

end Fcitx
