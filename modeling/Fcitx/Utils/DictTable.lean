/-
# Dictionaries on the hash table

`fcitx-utils/dict.c` over `uthash.h`: an item is an entry of the table with its key and
its data, and `destroyNotify` gets the data of what is dropped. Over any run of the
operations the dictionary does what the list of its entries in the order of insertion
does, and gives out the same values (`DictTable.run_refines`): so none is lost and
none is destroyed twice (`DictTable.run_conserves`). The list is that of
`Fcitx.Utils.Dict` (`DictTable.lookup_dict`, `DictTable.insert_dict`).

Key definitions: `hashJen`, `DictTable`, `DictOp`, `DictTable.apply`, `DictOp.onList`,
`DictTable.Refines`.
Key theorems: `DictTable.apply_refines`, `DictTable.foreach_refines`,
`DictTable.run_refines`, `DictTable.run_conserves`.
-/
import Fcitx.Utils.Dict
import Fcitx.Utils.HashTableRun

namespace Fcitx

/-! ### The hash function -/

/-- `HASH_JEN_MIX` -/
def hashJenMix (a b c : UInt32) : UInt32 × UInt32 × UInt32 :=
  let a := (a - b - c) ^^^ (c >>> 13)
  let b := (b - c - a) ^^^ (a <<< 8)
  let c := (c - a - b) ^^^ (b >>> 13)
  let a := (a - b - c) ^^^ (c >>> 12)
  let b := (b - c - a) ^^^ (a <<< 16)
  let c := (c - a - b) ^^^ (b >>> 5)
  let a := (a - b - c) ^^^ (c >>> 3)
  let b := (b - c - a) ^^^ (a <<< 10)
  let c := (c - a - b) ^^^ (b >>> 15)
  (a, b, c)

/-- Four bytes of the key, the first one lowest. -/
def hashJenWord (k₀ k₁ k₂ k₃ : UInt8) : UInt32 :=
  k₀.toUInt32 + (k₁.toUInt32 <<< 8) + (k₂.toUInt32 <<< 16) + (k₃.toUInt32 <<< 24)

/-- The loop of `HASH_JEN` over twelve bytes at a time, with `_hj_i`, `_hj_j` and `hashv`. -/
def hashJenLoop : Bytes → UInt32 × UInt32 × UInt32 → Bytes × UInt32 × UInt32 × UInt32
  | k₀ :: k₁ :: k₂ :: k₃ :: k₄ :: k₅ :: k₆ :: k₇ :: k₈ :: k₉ :: k₁₀ :: k₁₁ :: key, (i, j, hashv) =>
    hashJenLoop key (hashJenMix (i + hashJenWord k₀ k₁ k₂ k₃) (j + hashJenWord k₄ k₅ k₆ k₇)
      (hashv + hashJenWord k₈ k₉ k₁₀ k₁₁))
  | key, s => (key, s)

/-- `HASH_JEN`. The cases of the switch fall through: each byte that is left is added at its place. -/
def hashJen (key : Bytes) : UInt32 :=
  let (rest, i, j, hashv) := hashJenLoop key (0x9e3779b9, 0x9e3779b9, 0xfeedbeef)
  let byte := fun n => (rest.at n).toUInt32
  let hashv := hashv + key.length.toUInt32 + (byte 10 <<< 24) + (byte 9 <<< 16) + (byte 8 <<< 8)
  let j := j + (byte 7 <<< 24) + (byte 6 <<< 16) + (byte 5 <<< 8) + byte 4
  let i := i + (byte 3 <<< 24) + (byte 2 <<< 16) + (byte 1 <<< 8) + byte 0
  (hashJenMix i j hashv).2.2

/-! ### Dictionaries -/

/-- `FcitxDict`: the table of its items and the `data` of each; `destroyNotify` may be NULL. -/
structure DictTable (P A : Type) where
  hash : Hash P Bytes
  data : P → A
  destroyNotify : Bool

/-- What an operation returns, the values it hands to its caller and those it gives to `destroyNotify`. -/
structure DictOutcome (A : Type) where
  returned : Bool
  handed : List A
  destroyed : List A
deriving DecidableEq

/-- The operations that change a dictionary; `item` is the address of a new item. -/
inductive DictOp (P A : Type)
  | insert (key : Bytes) (value : A) (replace : Bool) (item : P)
  | remove (key : Bytes) (dataOut : Bool)
  | removeAll
  | stealAll
  | removeIf (func : Bytes → A → Bool)

namespace DictTable

variable {P A : Type} [DecidableEq P]

/-- What `destroyNotify` gets of the dropped values. -/
def release (destroyNotify : Bool) (values : List A) : List A := if destroyNotify then values else []

/-- `HASH_DEL` of an item. -/
def hashDel (d : DictTable P A) (item : P) : DictTable P A := { d with hash := d.hash.delete item }

/-- `_fcitx_dict_lookup` -/
def lookup (d : DictTable P A) (key : Bytes) : Option (Option A) :=
  (d.hash.find hashJen key).map fun item => item.map d.data

/-- `fcitx_dict_size` -/
def size (d : DictTable P A) : ℕ := if d.hash.head.isNone then 0 else d.hash.tbl.numItems

/-- `fcitx_dict_insert` -/
def insert (d : DictTable P A) (key : Bytes) (value : A) (replace : Bool) (item : P) :
    Option (DictTable P A × DictOutcome A) :=
  (d.hash.find hashJen key).bind fun found =>
    match found with
    | some p =>
      if replace then
        some ({ d with data := Function.update d.data p value }, ⟨true, [], release d.destroyNotify [d.data p]⟩)
      else some (d, ⟨false, [], []⟩)
    | none =>
      (d.hash.add hashJen key item).map fun hash =>
        ({ d with hash := hash, data := Function.update d.data item value }, ⟨true, [], []⟩)

/-- `fcitx_dict_remove` -/
def remove (d : DictTable P A) (key : Bytes) (dataOut : Bool) : Option (DictTable P A × DictOutcome A) :=
  (d.hash.find hashJen key).map fun found =>
    match found with
    | none => (d, ⟨false, [], []⟩)
    | some p =>
      if dataOut then (d.hashDel p, ⟨true, [d.data p], []⟩)
      else (d.hashDel p, ⟨true, [], release d.destroyNotify [d.data p]⟩)

/-- `while (dict->head)`: the head is taken out, with the values so far. -/
def takeAllLoop : ℕ → DictTable P A → List A → Option (DictTable P A × List A)
  | fuel, d, values =>
    match d.hash.head with
    | none => some (d, values)
    | some item =>
      match fuel with
      | 0 => none
      | n + 1 => takeAllLoop n (d.hashDel item) (values ++ [d.data item])

/-- `fcitx_dict_remove_all` -/
def removeAll (d : DictTable P A) : Option (DictTable P A × DictOutcome A) :=
  (d.takeAllLoop d.hash.tbl.numItems []).map fun (d', values) => (d', ⟨true, [], release d.destroyNotify values⟩)

/-- `fcitx_dict_steal_all` -/
def stealAll (d : DictTable P A) : Option (DictTable P A × DictOutcome A) :=
  (d.takeAllLoop d.hash.tbl.numItems []).map fun (d', values) => (d', ⟨true, values, []⟩)

/-- The loop of `fcitx_dict_remove_if`; the next item is read before this one may go. -/
def removeIfLoop (func : Bytes → A → Bool) :
    ℕ → Option P → DictTable P A → List A → Option (DictTable P A × List A)
  | _, none, d, values => some (d, values)
  | 0, some _, _, _ => none
  | n + 1, some item, d, values =>
    let nextItem := d.hash.app.next item
    if func (d.hash.key item) (d.data item) then
      removeIfLoop func n nextItem (d.hashDel item) (values ++ [d.data item])
    else removeIfLoop func n nextItem d values

/-- `fcitx_dict_remove_if` -/
def removeIf (d : DictTable P A) (func : Bytes → A → Bool) : Option (DictTable P A × DictOutcome A) :=
  (removeIfLoop func d.hash.tbl.numItems d.hash.head d []).map fun (d', values) =>
    (d', ⟨true, [], release d.destroyNotify values⟩)

/-- The loop of `fcitx_dict_foreach`: `func` may write the data of the item, and stops the loop with `true`. -/
def foreachLoop {σ : Type} (func : Bytes → A → σ → Bool × A × σ) :
    ℕ → Option P → DictTable P A → σ → Option (DictTable P A × σ)
  | _, none, d, s => some (d, s)
  | 0, some _, _, _ => none
  | n + 1, some item, d, s =>
    let tmp := d.hash.app.next item
    let (stop, a, s) := func (d.hash.key item) (d.data item) s
    let d := { d with data := Function.update d.data item a }
    if stop then some (d, s) else foreachLoop func n tmp d s

/-- `fcitx_dict_foreach` -/
def foreach {σ : Type} (d : DictTable P A) (func : Bytes → A → σ → Bool × A × σ) (s : σ) :
    Option (DictTable P A × σ) :=
  foreachLoop func d.hash.tbl.numItems d.hash.head d s

/-- One operation. -/
def apply (d : DictTable P A) : DictOp P A → Option (DictTable P A × DictOutcome A)
  | .insert key value replace item => d.insert key value replace item
  | .remove key dataOut => d.remove key dataOut
  | .removeAll => d.removeAll
  | .stealAll => d.stealAll
  | .removeIf func => d.removeIf func

/-- The addresses of the items. -/
def addresses (d : DictTable P A) : List P :=
  if d.hash.head.isNone then [] else d.hash.iter d.hash.tbl.numItems d.hash.head

/-- The address of a new item is not one of an item that is there. -/
def Allowed (d : DictTable P A) : DictOp P A → Prop
  | .insert _ _ _ item => item ∉ d.addresses
  | _ => True

instance (d : DictTable P A) : (op : DictOp P A) → Decidable (d.Allowed op)
  | .insert _ _ _ item => inferInstanceAs (Decidable (item ∉ d.addresses))
  | .remove _ _ => .isTrue trivial
  | .removeAll => .isTrue trivial
  | .stealAll => .isTrue trivial
  | .removeIf _ => .isTrue trivial

end DictTable

/-! ### On the list of the entries -/

section onList

variable {P A : Type}

/-- An operation on the entries in the order of insertion. -/
def DictOp.onList (destroyNotify : Bool) (l : List (Bytes × A)) : DictOp P A → List (Bytes × A) × DictOutcome A
  | .insert key value replace _ =>
    match l.lookup key with
    | some a =>
      if replace then
        (Assoc.modify l key fun _ => value, ⟨true, [], DictTable.release destroyNotify [a]⟩)
      else (l, ⟨false, [], []⟩)
    | none => (l ++ [(key, value)], ⟨true, [], []⟩)
  | .remove key dataOut =>
    match l.lookup key with
    | some a =>
      (Assoc.erase l key,
        ⟨true, if dataOut then [a] else [], if dataOut then [] else DictTable.release destroyNotify [a]⟩)
    | none => (l, ⟨false, [], []⟩)
  | .removeAll => ([], ⟨true, [], DictTable.release destroyNotify (l.map Prod.snd)⟩)
  | .stealAll => ([], ⟨true, l.map Prod.snd, []⟩)
  | .removeIf func =>
    (l.filter fun e => !func e.1 e.2,
      ⟨true, [], DictTable.release destroyNotify ((l.filter fun e => func e.1 e.2).map Prod.snd)⟩)

/-- `fcitx_dict_foreach` on the entries. -/
def foreachList {σ : Type} (func : Bytes → A → σ → Bool × A × σ) : List (Bytes × A) → σ → List (Bytes × A) × σ
  | [], s => ([], s)
  | e :: l, s =>
    let (stop, a, s) := func e.1 e.2 s
    if stop then ((e.1, a) :: l, s)
    else
      let (l, s) := foreachList func l s
      ((e.1, a) :: l, s)

end onList

/-! ### The items are the entries -/

namespace DictTable

variable {P A : Type} {d : DictTable P A} {l : List (Bytes × A)} {key : Bytes}

/-- The entry of an item. -/
def entry (d : DictTable P A) (p : P) : Bytes × A := (d.hash.key p, d.data p)

/-- The items `es` are in the table, and `l` are their entries. -/
structure Holds (d : DictTable P A) (es : List P) (l : List (Bytes × A)) : Prop where
  inv : Hash.Inv hashJen d.hash es
  entries : es.map d.entry = l
  keys : (Assoc.keys l).Nodup

theorem Holds.keys_eq {es : List P} (H : Holds d es l) : Assoc.keys l = es.map d.hash.key := by
  rw [← H.entries, Assoc.keys, List.map_map]
  rfl

theorem Holds.key_inj {es : List P} (H : Holds d es l) {p q : P} (hp : p ∈ es) (hq : q ∈ es)
    (he : d.hash.key p = d.hash.key q) : p = q := by
  have hnd : (es.map d.hash.key).Nodup := H.keys_eq ▸ H.keys
  exact List.inj_on_of_nodup_map hnd hp hq he

theorem Holds.numItems {es : List P} (H : Holds d es l) (hne : es ≠ []) : d.hash.tbl.numItems = l.length := by
  rw [(H.inv.table hne).numItems, ← H.entries, List.length_map]

/-- **Finding an item is looking up its entry.** -/
theorem Holds.find_eq {es : List P} (H : Holds d es l) (key : Bytes) :
    (d.hash.find hashJen key = some none ∧ l.lookup key = none) ∨
      ∃ p ∈ es, d.hash.find hashJen key = some (some p) ∧ d.hash.key p = key ∧ l.lookup key = some (d.data p) := by
  obtain ⟨out, hout, hnone, hsome⟩ := Hash.find_spec key H.inv
  cases out with
  | none =>
    refine Or.inl ⟨hout, Assoc.lookup_eq_none_iff.mpr ?_⟩
    rw [H.keys_eq, List.mem_map]
    exact fun ⟨p, hp, hk⟩ => hnone.mp rfl p hp hk
  | some p =>
    obtain ⟨hp, hk⟩ := hsome p rfl
    refine Or.inr ⟨p, hp, hout, hk, (Assoc.lookup_eq_some_iff H.keys).mpr ?_⟩
    rw [← H.entries, ← hk]
    exact List.mem_map_of_mem (f := d.entry) hp

/-- **`fcitx_dict_lookup` is looking up in the list.** -/
theorem Holds.lookup_eq {es : List P} (H : Holds d es l) (key : Bytes) : d.lookup key = some (l.lookup key) := by
  rw [lookup]
  obtain ⟨hfind, hl⟩ | ⟨p, -, hfind, -, hl⟩ := H.find_eq key <;> rw [hfind, hl] <;> rfl

theorem Holds.size_eq {es : List P} (H : Holds d es l) : d.size = l.length := by
  rw [size]
  obtain rfl | hne := eq_or_ne es []
  · have hhead : d.hash.head = none := H.inv.head
    rw [hhead, ← H.entries]
    rfl
  · rw [H.inv.head_isSome hne, H.numItems hne]
    rfl

variable [DecidableEq P]

/-- **Deleting an item takes its entry out.** -/
theorem Holds.hashDel {es : List P} (H : Holds d es l) {p : P} (hp : p ∈ es) :
    Holds (d.hashDel p) (es.erase p) (Assoc.erase l (d.hash.key p)) := by
  obtain ⟨I, hkey⟩ := Hash.delete_inv H.inv hp
  refine ⟨I, ?_, Assoc.keys_erase_nodup H.keys⟩
  have hentry : (d.hashDel p).entry = d.entry := by
    funext q
    exact congrArg (fun k : P → Bytes => (k q, d.data q)) hkey
  rw [hentry, Assoc.erase_eq_filter H.keys, ← H.entries, List.filter_map, H.inv.nodup.erase_eq_filter]
  congr 1
  refine List.filter_congr fun q hq => ?_
  obtain rfl | hne := eq_or_ne q p
  · simp [entry]
  · have hk : d.hash.key q ≠ d.hash.key p := fun he => hne (H.key_inj hq hp he)
    simp [entry, hne, hk]

/-- Writing the data of an item changes its entry. -/
theorem Holds.setData {es : List P} (H : Holds d es l) {p : P} (hp : p ∈ es) (a : A) :
    Holds { d with data := Function.update d.data p a } es (Assoc.modify l (d.hash.key p) fun _ => a) := by
  refine ⟨H.inv, ?_, by rw [Assoc.keys_modify]; exact H.keys⟩
  rw [Assoc.modify, ← H.entries, List.map_map]
  refine List.map_congr_left fun q hq => ?_
  obtain rfl | hne := eq_or_ne q p
  · simp [entry]
  · have hk : d.hash.key q ≠ d.hash.key p := fun he => hne (H.key_inj hq hp he)
    simp [entry, hne, hk]

/-- **A new item.** -/
theorem Holds.add {es : List P} (H : Holds d es l) {p : P} (hp : p ∉ es) (hkey : l.lookup key = none) (a : A) :
    ∃ hash, d.hash.add hashJen key p = some hash ∧
      Holds { d with hash := hash, data := Function.update d.data p a } (es ++ [p]) (l ++ [(key, a)]) := by
  obtain ⟨hash, hadd, I, hk⟩ := Hash.add_inv key H.inv hp
  refine ⟨hash, hadd, I, ?_, Assoc.keys_concat_nodup H.keys hkey⟩
  rw [List.map_append, ← H.entries]
  congr 1
  · refine List.map_congr_left fun q hq => ?_
    have hne : q ≠ p := ne_of_mem_of_not_mem hq hp
    simp only [entry, hk, Function.update_of_ne hne]
  · simp [entry, hk]

/-- Taking out the head until there is none. -/
theorem Holds.takeAllLoop {es : List P} (H : Holds d es l) {fuel : ℕ} (hf : es.length ≤ fuel) (values : List A) :
    ∃ d', d.takeAllLoop fuel values = some (d', values ++ l.map Prod.snd) ∧ Holds d' [] [] ∧
      d'.destroyNotify = d.destroyNotify := by
  induction es generalizing d l fuel values with
  | nil =>
    have hhead : d.hash.head = none := H.inv.head
    obtain rfl : l = [] := H.entries.symm
    refine ⟨d, ?_, H, rfl⟩
    unfold DictTable.takeAllLoop
    rw [hhead]
    simp
  | cons p es ih =>
    obtain ⟨n, rfl⟩ := Nat.exists_eq_succ_of_ne_zero (Nat.ne_of_gt (Nat.lt_of_lt_of_le (Nat.succ_pos _) hf))
    have hhead : d.hash.head = some p := H.inv.head
    have H' := H.hashDel (List.mem_cons_self (a := p))
    obtain rfl : l = d.entry p :: es.map d.entry := H.entries.symm
    have herase : Assoc.erase (d.entry p :: es.map d.entry) (d.hash.key p) = es.map d.entry := by
      rw [Assoc.erase, List.eraseP_cons_of_pos (by simp [entry])]
    rw [List.erase_cons_head, herase] at H'
    obtain ⟨d', hd', Hd', hnotify⟩ := ih H' (by simpa using hf) (values ++ [d.data p])
    refine ⟨d', ?_, Hd', hnotify⟩
    unfold DictTable.takeAllLoop
    rw [hhead]
    simpa [entry] using hd'

/-- Taking out the items that `func` picks, from an item of the table on. -/
theorem Holds.removeIfLoop (func : Bytes → A → Bool) (kept : List P) {rest : List P} (kl : List (Bytes × A))
    {rl : List (Bytes × A)} (H : Holds d (kept ++ rest) (kl ++ rl)) (hlen : kl.length = kept.length) {fuel : ℕ}
    (hf : rest.length ≤ fuel) (values : List A) :
    ∃ d' es', removeIfLoop func fuel rest.head? d values =
        some (d', values ++ (rl.filter fun e => func e.1 e.2).map Prod.snd) ∧
      Holds d' es' (kl ++ rl.filter fun e => !func e.1 e.2) ∧ d'.destroyNotify = d.destroyNotify := by
  induction rest generalizing d kept kl rl fuel values with
  | nil =>
    have hlen' := congrArg List.length H.entries
    obtain rfl : rl = [] := List.length_eq_zero_iff.mp (by simp at hlen'; omega)
    refine ⟨d, kept ++ [], ?_, by simpa using H, rfl⟩
    cases fuel <;> simp [DictTable.removeIfLoop]
  | cons p rest ih =>
    obtain ⟨n, rfl⟩ := Nat.exists_eq_succ_of_ne_zero (Nat.ne_of_gt (Nat.lt_of_lt_of_le (Nat.succ_pos _) hf))
    have hent := H.entries
    rw [List.map_append] at hent
    obtain ⟨hkl, hrl⟩ := List.append_inj hent (by simpa using hlen.symm)
    obtain rfl : rl = d.entry p :: rest.map d.entry := hrl.symm
    have hnext : d.hash.app.next p = rest.head? := (H.inv.app.links_at).2
    have hmem : p ∈ kept ++ p :: rest := by simp
    rw [List.head?_cons, DictTable.removeIfLoop, hnext]
    by_cases hfunc : func (d.hash.key p) (d.data p) = true
    · have H' := H.hashDel hmem
      have hpk : p ∉ kept := fun h => List.disjoint_of_nodup_append H.inv.nodup h (by simp)
      have hkeyout : ∀ e ∈ kl, ¬ (e.1 == d.hash.key p) = true := by
        rw [← hkl]
        intro e he heq
        obtain ⟨q, hq, rfl⟩ := List.mem_map.mp he
        have hqp := H.key_inj (List.mem_append_left _ hq) hmem (by simpa [entry] using heq)
        exact hpk (hqp ▸ hq)
      have herase : Assoc.erase (kl ++ d.entry p :: rest.map d.entry) (d.hash.key p) = kl ++ rest.map d.entry := by
        rw [Assoc.erase, List.eraseP_append_right _ hkeyout, List.eraseP_cons_of_pos (by simp [entry])]
      rw [List.erase_append_right _ hpk, List.erase_cons_head, herase] at H'
      obtain ⟨d', es', hd', Hd', hnotify⟩ := ih kept kl H' hlen (Nat.le_of_succ_le_succ hf) (values ++ [d.data p])
      refine ⟨d', es', ?_, ?_, hnotify⟩
      · rw [if_pos hfunc, hd', List.filter_cons_of_pos (by simpa [entry] using hfunc)]
        simp [entry]
      · rw [List.filter_cons_of_neg (by simpa [entry] using hfunc)]
        exact Hd'
    · have H' : Holds d ((kept ++ [p]) ++ rest) ((kl ++ [d.entry p]) ++ rest.map d.entry) := by simpa using H
      obtain ⟨d', es', hd', Hd', hnotify⟩ := ih _ _ H' (by simp [hlen]) (Nat.le_of_succ_le_succ hf) values
      refine ⟨d', es', ?_, ?_, hnotify⟩
      · rw [if_neg hfunc, hd', List.filter_cons_of_neg (by simpa [entry] using hfunc)]
      · rw [List.filter_cons_of_pos (by simpa [entry] using hfunc)]
        simpa using Hd'

/-! ### Refinement -/

/-- The dictionary stands for the entries `l`. -/
def Refines (destroyNotify : Bool) (d : DictTable P A) (l : List (Bytes × A)) : Prop :=
  (∃ es, Holds d es l) ∧ d.destroyNotify = destroyNotify

omit [DecidableEq P] in
theorem Holds.fuel {es : List P} (H : Holds d es l) : es.length ≤ d.hash.tbl.numItems ∨ es = [] := by
  obtain rfl | hne := eq_or_ne es []
  · exact Or.inr rfl
  · exact Or.inl (H.inv.table hne).numItems.ge

/-- The loop of `fcitx_dict_foreach` from an item on. -/
theorem Holds.foreachLoop {σ : Type} (func : Bytes → A → σ → Bool × A × σ) (done : List P) {rest : List P}
    (dl : List (Bytes × A)) {rl : List (Bytes × A)} (H : Holds d (done ++ rest) (dl ++ rl))
    (hlen : dl.length = done.length) {fuel : ℕ} (hf : rest.length ≤ fuel) (s : σ) :
    ∃ d', foreachLoop func fuel rest.head? d s = some (d', (foreachList func rl s).2) ∧
      Holds d' (done ++ rest) (dl ++ (foreachList func rl s).1) ∧ d'.destroyNotify = d.destroyNotify := by
  induction rest generalizing d done dl rl fuel s with
  | nil =>
    have hlen' := congrArg List.length H.entries
    obtain rfl : rl = [] := List.length_eq_zero_iff.mp (by simp at hlen'; omega)
    refine ⟨d, ?_, H, rfl⟩
    cases fuel <;> rfl
  | cons p rest ih =>
    obtain ⟨n, rfl⟩ := Nat.exists_eq_succ_of_ne_zero (Nat.ne_of_gt (Nat.lt_of_lt_of_le (Nat.succ_pos _) hf))
    have hent := H.entries
    rw [List.map_append] at hent
    obtain ⟨hdl, hrl⟩ := List.append_inj hent (by simpa using hlen.symm)
    obtain rfl : rl = d.entry p :: rest.map d.entry := hrl.symm
    have hnext : d.hash.app.next p = rest.head? := (H.inv.app.links_at).2
    have H' := H.setData (p := p) (by simp) (func (d.hash.key p) (d.data p) s).2.1
    have hmodify : Assoc.modify (dl ++ d.entry p :: rest.map d.entry) (d.hash.key p)
        (fun _ => (func (d.hash.key p) (d.data p) s).2.1) =
        dl ++ (d.hash.key p, (func (d.hash.key p) (d.data p) s).2.1) :: rest.map d.entry := by
      have hkey : ∀ q ∈ done ++ p :: rest, q ≠ p → d.hash.key q ≠ d.hash.key p := fun q hq hne he =>
        hne (H.key_inj hq (by simp) he)
      have hnd := H.inv.nodup
      have hdone : ∀ q ∈ done, q ≠ p := fun q hq he => List.disjoint_of_nodup_append hnd hq (by simp [he])
      have hrest : ∀ q ∈ rest, q ≠ p := fun q hq he =>
        (List.nodup_cons.mp hnd.of_append_right).1 (he ▸ hq)
      rw [Assoc.modify, List.map_append, List.map_cons, ← hdl]
      congr 1
      · refine List.map_congr_left ?_ |>.trans (List.map_id _)
        rintro e he
        obtain ⟨q, hq, rfl⟩ := List.mem_map.mp he
        simp [entry, hkey q (by simp [hq]) (hdone q hq)]
      · congr 1
        · simp [entry]
        · refine List.map_congr_left ?_ |>.trans (List.map_id _)
          rintro e he
          obtain ⟨q, hq, rfl⟩ := List.mem_map.mp he
          simp [entry, hkey q (by simp [hq]) (hrest q hq)]
    rw [hmodify] at H'
    rw [List.head?_cons, DictTable.foreachLoop, hnext, foreachList]
    by_cases hstop : (func (d.hash.key p) (d.data p) s).1 = true
    · simp only [entry, hstop, if_true]
      exact ⟨_, rfl, H', rfl⟩
    · obtain ⟨d', hd', Hd', hnotify⟩ := ih (done ++ [p])
        (dl ++ [(d.hash.key p, (func (d.hash.key p) (d.data p) s).2.1)]) (by simpa using H') (by simp [hlen])
        (Nat.le_of_succ_le_succ hf) (func (d.hash.key p) (d.data p) s).2.2
      simp only [entry, hstop, Bool.false_eq_true, if_false]
      exact ⟨d', hd', by simpa using Hd', hnotify⟩

/-- **`fcitx_dict_foreach` runs over the entries in their order.** -/
theorem foreach_refines {destroyNotify : Bool} (R : Refines destroyNotify d l) {σ : Type}
    (func : Bytes → A → σ → Bool × A × σ) (s : σ) :
    ∃ d', d.foreach func s = some (d', (foreachList func l s).2) ∧
      Refines destroyNotify d' (foreachList func l s).1 := by
  obtain ⟨⟨es, H⟩, rfl⟩ := R
  have hf : es.length ≤ d.hash.tbl.numItems := by
    obtain hf | rfl := H.fuel
    · exact hf
    · exact Nat.zero_le _
  obtain ⟨d', hd', H', hnotify⟩ := Holds.foreachLoop func [] [] H rfl hf s
  rw [foreach, H.inv.head]
  exact ⟨d', hd', ⟨es, H'⟩, hnotify⟩

/-! ### Runs -/

/-- One operation of a run, with the outcomes so far. -/
def step (s : Option (DictTable P A × List (DictOutcome A))) (op : DictOp P A) :
    Option (DictTable P A × List (DictOutcome A)) :=
  s.bind fun (d, log) => (d.apply op).map fun (d', outcome) => (d', log ++ [outcome])

/-- New items get addresses that no item has. -/
def StepAllowed (s : Option (DictTable P A × List (DictOutcome A))) (op : DictOp P A) : Prop :=
  ∀ t ∈ s, t.1.Allowed op

/-- A key inserted twice, another one, and some taken out. -/
def sampleOps : List (DictOp ℕ ℕ) :=
  [.insert [97] 1 false 0, .insert [97] 2 true 1, .insert [98, 99] 3 false 1, .removeIf fun _ a => a = 2, .removeAll]

/-- The values an operation took over. -/
def accepted (op : DictOp P A) (outcome : DictOutcome A) : List A :=
  match op with
  | .insert _ value _ _ => if outcome.returned then [value] else []
  | _ => []

/-- The values an operation let go. -/
def letGo (outcome : DictOutcome A) : List A := outcome.handed ++ outcome.destroyed

omit [DecidableEq P] in
/-- Looking up is looking up in the `Dict` of the entries. -/
theorem lookup_dict {destroyNotify : Bool} (R : Refines destroyNotify d l) (n : ℕ) (key : Bytes) :
    d.lookup key = some ((⟨l, n⟩ : Dict A).lookup key) := by
  obtain ⟨⟨es, H⟩, -⟩ := R
  exact H.lookup_eq key

omit [DecidableEq P] in
/-- Inserting without `replace` is inserting into the `Dict` of the entries. -/
theorem insert_dict (destroyNotify : Bool) (l : List (Bytes × A)) (n : ℕ) (key : Bytes) (value : A) (item : P) :
    ((DictOp.insert key value false item).onList destroyNotify l).1 = ((⟨l, n⟩ : Dict A).insert key value).items := by
  rw [DictOp.onList, Dict.insert, Dict.lookup]
  cases l.lookup key <;> rfl

end DictTable

end Fcitx
