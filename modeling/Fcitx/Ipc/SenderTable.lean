/-
# The table of the clients

The frontend has an entry for each client with a context: the contexts of the
client, in the order they were made, and one watch on its name. Taking a
context out frees the entry with its last one, and a new context makes the
entry if there is none.

Key definitions: `Ipc.owned`, `Ipc.SenderTable`.
Key theorems: `Ipc.SenderTable.own`, `Ipc.SenderTable.remove`.
-/
import Fcitx.Ipc.Frontend

namespace Fcitx
namespace Ipc

/-- Erasing from different elements leaves the others. -/
theorem erase_eq_filter_ne {α : Type} [BEq α] [LawfulBEq α] [DecidableEq α] {l : List α} (h : l.Nodup) (a : α) :
    l.erase a = l.filter fun b => b ≠ a := by
  rw [h.erase_eq_filter]
  refine List.filter_congr fun b _ => Bool.eq_iff_iff.mpr ?_
  simp

/-- The contexts of a client, given all contexts with their clients. -/
def owned (owners : List (ContextPtr × Bytes)) (sender : Bytes) : List ContextPtr :=
  (owners.filter fun o => o.2 = sender).map Prod.fst

section owned

variable {owners : List (ContextPtr × Bytes)} {sender other : Bytes} {c : ContextPtr}

theorem mem_owned : c ∈ owned owners sender ↔ (c, sender) ∈ owners := by
  unfold owned
  rw [List.mem_map]
  constructor
  · intro h
    obtain ⟨o, ho, rfl⟩ := h
    obtain ⟨hmem, hsender⟩ := List.mem_filter.mp ho
    have hsnd : o.2 = sender := of_decide_eq_true hsender
    rw [← hsnd]
    exact hmem
  · intro h
    exact ⟨(c, sender), List.mem_filter.mpr ⟨h, decide_eq_true rfl⟩, rfl⟩

theorem owned_concat : owned (owners ++ [(c, sender)]) other =
    if other = sender then owned owners other ++ [c] else owned owners other := by
  unfold owned
  rw [List.filter_append, List.map_append]
  split
  · next h => simp [h]
  · next h => simp [Ne.symm h]

theorem owned_nodup (hnd : (owners.map Prod.fst).Nodup) : (owned owners sender).Nodup :=
  hnd.sublist (List.filter_sublist.map Prod.fst)

/-- A context has one client. -/
theorem client_unique (hnd : (owners.map Prod.fst).Nodup) (hc : (c, sender) ∈ owners)
    (hc' : (c, other) ∈ owners) : other = sender :=
  (Prod.mk.inj (List.inj_on_of_nodup_map hnd hc' hc rfl)).2

/-- Without one context, its client has one less and the others have theirs. -/
theorem owned_remove (hnd : (owners.map Prod.fst).Nodup) (hc : (c, sender) ∈ owners) :
    owned (owners.filter fun o => o.1 ≠ c) other =
      if other = sender then (owned owners sender).erase c else owned owners other := by
  have hcomm : owned (owners.filter fun o => o.1 ≠ c) other = (owned owners other).filter fun d => d ≠ c := by
    unfold owned
    rw [List.filter_filter, List.filter_map, List.filter_filter]
    refine congrArg (List.map Prod.fst) (List.filter_congr fun o _ => ?_)
    exact Bool.and_comm _ _
  rw [hcomm]
  split
  · next h =>
    rw [h, erase_eq_filter_ne (owned_nodup hnd)]
  · next h =>
    refine List.filter_eq_self.mpr fun d hd => decide_eq_true ?_
    intro hdc
    rw [hdc] at hd
    exact h (client_unique hnd hc (mem_owned.mp hd))

end owned

/-- The entries of the table have the contexts of their clients, and their watches. -/
structure Entries (s : Ipc) (owners : List (ContextPtr × Bytes)) : Prop where
  keys : (Assoc.keys s.senderToIC).Nodup
  ptr_inj : ∀ e ∈ s.senderToIC, ∀ e' ∈ s.senderToIC, e.2 = e'.2 → e.1 = e'.1
  lt : ∀ e ∈ s.senderToIC, e.2 < s.senderTop
  entry : ∀ e ∈ s.senderToIC, ∃ senderData, s.senders e.2 = some senderData ∧
    senderData.ics = owned owners e.1 ∧ (senderData.watchId, e.1) ∈ s.watches
  known : ∀ o ∈ owners, o.2 ∈ Assoc.keys s.senderToIC
  watches : s.watches.map Prod.snd = Assoc.keys s.senderToIC
  watchIds : (s.watches.map Prod.fst).Nodup

/-- **The table has an entry for each client with a context**, and no other. -/
structure SenderTable (s : Ipc) (owners : List (ContextPtr × Bytes)) : Prop extends Entries s owners where
  nonempty : ∀ e ∈ s.senderToIC, owned owners e.1 ≠ []

namespace SenderTable

variable {s s' : Ipc} {owners : List (ContextPtr × Bytes)} {sender : Bytes} {c : ContextPtr} {ptr : SenderPtr}

theorem congr (h : SenderTable s owners) (htable : s'.senderToIC = s.senderToIC)
    (hsenders : s'.senders = s.senders) (htop : s'.senderTop = s.senderTop)
    (hwatches : s'.watches = s.watches) : SenderTable s' owners := by
  obtain ⟨⟨hkeys, hinj, hlt, hentry, hknown, hwatch, hids⟩, hne⟩ := h
  refine ⟨⟨?_, ?_, ?_, ?_, ?_, ?_, ?_⟩, ?_⟩
  · rwa [htable]
  · rwa [htable]
  · rwa [htable, htop]
  · rwa [htable, hsenders, hwatches]
  · rwa [htable]
  · rwa [hwatches, htable]
  · rwa [hwatches]
  · rwa [htable]

/-- A client has an entry exactly if it has a context. -/
theorem lookup_isSome (h : SenderTable s owners) :
    (s.senderToIC.lookup sender).isSome = true ↔ ∃ c, (c, sender) ∈ owners := by
  constructor
  · intro hsome
    obtain ⟨ptr, hptr⟩ := Option.isSome_iff_exists.mp hsome
    have hmem := (Assoc.lookup_eq_some_iff h.keys).mp hptr
    obtain ⟨d, hd⟩ := List.exists_mem_of_ne_nil _ (h.nonempty _ hmem)
    exact ⟨d, mem_owned.mp hd⟩
  · intro hex
    obtain ⟨c, hc⟩ := hex
    have hknown := h.known _ hc
    rw [Option.isSome_iff_ne_none]
    intro hnone
    exact Assoc.lookup_eq_none_iff.mp hnone hknown

/-- The entry of a context's client. -/
theorem find (h : SenderTable s owners) (hc : (c, sender) ∈ owners) :
    ∃ ptr senderData, s.senderToIC.lookup sender = some ptr ∧ s.senders ptr = some senderData ∧
      senderData.ics = owned owners sender ∧ (senderData.watchId, sender) ∈ s.watches := by
  obtain ⟨ptr, hptr⟩ := Option.isSome_iff_exists.mp (h.lookup_isSome.mpr ⟨c, hc⟩)
  obtain ⟨senderData, hdata, hics, hwatch⟩ := h.entry _ ((Assoc.lookup_eq_some_iff h.keys).mp hptr)
  exact ⟨ptr, senderData, hptr, hdata, hics, hwatch⟩

/-! ### Taking a context out -/

/-- Writing one entry leaves the others. -/
theorem update_entry (h : SenderTable s owners) (hptr : (sender, ptr) ∈ s.senderToIC) (data : Option IpcSender)
    {e : Bytes × SenderPtr} (he : e ∈ s.senderToIC) (hne : e.1 ≠ sender) :
    Function.update s.senders ptr data e.2 = s.senders e.2 := by
  rw [Function.update_of_ne]
  intro heq
  exact hne (h.ptr_inj e he (sender, ptr) hptr heq)

/-- The watches that are left when a client is forgotten. -/
theorem filter_watches (h : SenderTable s owners) {watchId : ℤ} (hwatch : (watchId, sender) ∈ s.watches) :
    (s.watches.filter fun watch => watch.1 ≠ watchId) = s.watches.filter fun watch => watch.2 ≠ sender := by
  have hsnd : (s.watches.map Prod.snd).Nodup := by
    rw [h.watches]
    exact h.keys
  refine List.filter_congr fun watch hmem => ?_
  congr 1
  refine propext (not_congr ⟨fun heq => ?_, fun heq => ?_⟩)
  · rw [List.inj_on_of_nodup_map h.watchIds hmem hwatch heq]
  · rw [List.inj_on_of_nodup_map hsnd hmem hwatch heq]

/-- **A context goes**: the entry goes with its last context, and its watch too. -/
theorem remove (h : SenderTable s owners) (hnd : (owners.map Prod.fst).Nodup) (hc : (c, sender) ∈ owners)
    (hptr : s.senderToIC.lookup sender = some ptr) {senderData : IpcSender}
    (hdata : s.senders ptr = some senderData) :
    SenderTable ({ s with
        senders := Function.update s.senders ptr (some { senderData with ics := senderData.ics.erase c })
      }.forgetSender sender ptr { senderData with ics := senderData.ics.erase c })
      (owners.filter fun o => o.1 ≠ c) := by
  have hmem : (sender, ptr) ∈ s.senderToIC := (Assoc.lookup_eq_some_iff h.keys).mp hptr
  obtain ⟨senderData', hdata', hics, hwatch⟩ := h.entry _ hmem
  obtain rfl : senderData' = senderData := Option.some.inj (hdata'.symm.trans hdata)
  have howned : ∀ other, owned (owners.filter fun o => o.1 ≠ c) other =
      if other = sender then senderData'.ics.erase c else owned owners other := by
    intro other
    rw [owned_remove hnd hc, hics]
  unfold forgetSender
  split
  · next hempty =>
    have herase : Assoc.erase s.senderToIC sender = s.senderToIC.filter fun e => e.1 ≠ sender :=
      Assoc.erase_eq_filter h.keys
    have hsub : ∀ e ∈ Assoc.erase s.senderToIC sender, e ∈ s.senderToIC ∧ e.1 ≠ sender := by
      intro e he
      rw [herase] at he
      obtain ⟨he, hne⟩ := List.mem_filter.mp he
      exact ⟨he, of_decide_eq_true hne⟩
    refine ⟨⟨?_, ?_, ?_, ?_, ?_, ?_, ?_⟩, fun e he => ?_⟩
    · exact Assoc.keys_erase_nodup h.keys
    · exact fun e he e' he' => h.ptr_inj e (hsub e he).1 e' (hsub e' he').1
    · exact fun e he => h.lt e (hsub e he).1
    · intro e he
      obtain ⟨he, hne⟩ := hsub e he
      obtain ⟨data, hdata, hics, hwatch'⟩ := h.entry e he
      refine ⟨data, ?_, ?_, ?_⟩
      · show Function.update (Function.update s.senders ptr _) ptr none e.2 = _
        rw [Function.update_idem, h.update_entry hmem none he hne, hdata]
      · rw [howned, if_neg hne, hics]
      · show (data.watchId, e.1) ∈ s.watches.filter _
        rw [h.filter_watches hwatch]
        exact List.mem_filter.mpr ⟨hwatch', decide_eq_true hne⟩
    · intro o ho
      obtain ⟨ho, hoc⟩ := List.mem_filter.mp ho
      have hne : o.2 ≠ sender := by
        intro heq
        have hin : o.1 ∈ senderData'.ics.erase c := by
          rw [hics, List.mem_erase_of_ne (of_decide_eq_true hoc), mem_owned, ← heq]
          exact ho
        have hnone : senderData'.ics.erase c = [] := hempty
        rw [hnone] at hin
        cases hin
      show o.2 ∈ Assoc.keys (Assoc.erase s.senderToIC sender)
      rw [Assoc.keys_erase, List.mem_erase_of_ne hne]
      exact h.known o ho
    · show (s.watches.filter _).map Prod.snd = Assoc.keys (Assoc.erase s.senderToIC sender)
      rw [h.filter_watches hwatch, Assoc.keys_erase, erase_eq_filter_ne h.keys, ← h.watches, List.filter_map]
      rfl
    · exact h.watchIds.sublist (List.filter_sublist.map Prod.fst)
    · rw [howned, if_neg (hsub e he).2]
      exact h.nonempty e (hsub e he).1
  · next hrest =>
    refine ⟨⟨h.keys, h.ptr_inj, h.lt, fun e he => ?_, fun o ho => h.known o (List.mem_filter.mp ho).1,
      h.watches, h.watchIds⟩, fun e he => ?_⟩
    · by_cases hsender : e.1 = sender
      · have hentry : e.2 = ptr := by
          rw [List.inj_on_of_nodup_map h.keys he hmem hsender]
        refine ⟨{ senderData' with ics := senderData'.ics.erase c }, ?_, ?_, ?_⟩
        · show Function.update s.senders ptr _ e.2 = _
          rw [hentry, Function.update_self]
        · rw [howned, if_pos hsender]
        · rw [hsender]
          exact hwatch
      · obtain ⟨data, hdata, hics, hwatch'⟩ := h.entry e he
        refine ⟨data, ?_, ?_, hwatch'⟩
        · show Function.update s.senders ptr _ e.2 = _
          rw [h.update_entry hmem _ he hsender, hdata]
        · rw [howned, if_neg hsender, hics]
    · rw [howned]
      split
      · exact hrest
      · exact h.nonempty e he

/-! ### Taking a context in -/

/-- The entry of the client is there, and nothing else changed. -/
structure Found (s s' : Ipc) (sender : Bytes) (ptr : SenderPtr) : Prop where
  icManager : s'.icManager = s.icManager
  objectPaths : s'.objectPaths = s.objectPaths
  frontendDataId : s'.frontendDataId = s.frontendDataId
  appNameId : s'.appNameId = s.appNameId
  mem : (sender, ptr) ∈ s'.senderToIC
  old : ∀ e ∈ s'.senderToIC, e ∈ s.senderToIC ∨ e.1 = sender

theorem senderFor (h : SenderTable s owners) (sender : Bytes) {watchId : ℤ}
    (hwatch : watchId ∉ s.watches.map Prod.fst) :
    Entries (s.senderFor sender watchId).2 owners ∧
      Found s (s.senderFor sender watchId).2 sender (s.senderFor sender watchId).1 := by
  unfold Ipc.senderFor
  split
  · next ptr hptr =>
    have hmem := (Assoc.lookup_eq_some_iff h.keys).mp hptr
    exact ⟨h.toEntries, rfl, rfl, rfl, rfl, hmem, fun e he => Or.inl he⟩
  · next hnone =>
    have hout : sender ∉ Assoc.keys s.senderToIC := Assoc.lookup_eq_none_iff.mp hnone
    have hcases : ∀ e ∈ s.senderToIC ++ [(sender, s.senderTop)],
        e ∈ s.senderToIC ∨ e = (sender, s.senderTop) := fun e he =>
      (List.mem_append.mp he).imp id List.mem_singleton.mp
    have hempty : owned owners sender = [] := by
      refine List.eq_nil_iff_forall_not_mem.mpr fun d hd => ?_
      exact hout (h.known _ (mem_owned.mp hd))
    refine ⟨⟨?_, fun e he e' he' heq => ?_, fun e he => ?_, fun e he => ?_, fun o ho => ?_, ?_, ?_⟩, rfl, rfl,
      rfl, rfl, ?_, fun e he => ?_⟩
    · exact Assoc.keys_concat_nodup h.keys hnone
    · -- the new entry is at an address that no other entry has
      rcases hcases e he with he | rfl
      · rcases hcases e' he' with he' | rfl
        · exact h.ptr_inj e he e' he' heq
        · exact absurd (h.lt e he) (by rw [heq]; exact Nat.lt_irrefl _)
      · rcases hcases e' he' with he' | rfl
        · exact absurd (h.lt e' he') (by rw [← heq]; exact Nat.lt_irrefl _)
        · rfl
    · rcases hcases e he with he | rfl
      · exact Nat.lt_succ_of_lt (h.lt e he)
      · exact Nat.lt_succ_self _
    · rcases hcases e he with he | rfl
      · obtain ⟨data, hdata, hics, hold⟩ := h.entry e he
        refine ⟨data, ?_, hics, List.mem_append_left _ hold⟩
        show Function.update s.senders s.senderTop _ e.2 = _
        rw [Function.update_of_ne (Nat.ne_of_lt (h.lt e he)), hdata]
      · exact ⟨⟨watchId, []⟩, Function.update_self _ _ _, hempty.symm,
          List.mem_append_right _ List.mem_cons_self⟩
    · show o.2 ∈ Assoc.keys (s.senderToIC ++ [(sender, s.senderTop)])
      rw [Assoc.keys_concat]
      exact List.mem_append_left _ (h.known o ho)
    · show (s.watches ++ [(watchId, sender)]).map Prod.snd = Assoc.keys (s.senderToIC ++ _)
      rw [List.map_append, h.watches, Assoc.keys_concat]
      rfl
    · show ((s.watches ++ [(watchId, sender)]).map Prod.fst).Nodup
      rw [List.map_append, List.map_singleton, ← List.concat_eq_append]
      exact h.watchIds.concat hwatch
    · exact List.mem_append_right _ List.mem_cons_self
    · rcases hcases e he with he | rfl
      · exact Or.inl he
      · exact Or.inr rfl

/-- What `own` does besides the table. -/
structure Owns (s s' : Ipc) (sender : Bytes) (c : ContextPtr) : Prop where
  icManager : s'.icManager = s.icManager.setProperty c s.frontendDataId (some (.frontendData sender))
  objectPaths : s'.objectPaths = s.objectPaths
  frontendDataId : s'.frontendDataId = s.frontendDataId
  appNameId : s'.appNameId = s.appNameId

/-- **A context comes**: its client has an entry afterwards. -/
theorem own (h : SenderTable s owners) (hc : c ∉ owners.map Prod.fst) (sender : Bytes) {watchId : ℤ}
    (hwatch : watchId ∉ s.watches.map Prod.fst) :
    ∃ s', s.own sender watchId c = some s' ∧ SenderTable s' (owners ++ [(c, sender)]) ∧ Owns s s' sender c := by
  obtain ⟨hentries, hfound⟩ := h.senderFor sender hwatch
  unfold Ipc.own
  generalize s.senderFor sender watchId = found at hentries hfound ⊢
  obtain ⟨ptr, s₁⟩ := found
  dsimp only at hentries hfound ⊢
  obtain ⟨data, hdata, hics, hdataWatch⟩ := hentries.entry _ hfound.mem
  have hnew : c ∉ data.ics := by
    rw [hics, mem_owned]
    exact fun hmem => hc (List.mem_map.mpr ⟨_, hmem, rfl⟩)
  rw [hdata]
  dsimp only
  rw [if_neg hnew]
  refine ⟨_, rfl, ⟨⟨hentries.keys, hentries.ptr_inj, hentries.lt, fun e he => ?_, fun o ho => ?_,
    hentries.watches, hentries.watchIds⟩, fun e he => ?_⟩, ?_, hfound.objectPaths, hfound.frontendDataId,
    hfound.appNameId⟩
  · rw [owned_concat]
    by_cases hsender : e.1 = sender
    · have hptr : e.2 = ptr := by
        rw [List.inj_on_of_nodup_map hentries.keys he hfound.mem hsender]
      refine ⟨{ data with ics := data.ics ++ [c] }, ?_, ?_, ?_⟩
      · show Function.update s₁.senders ptr _ e.2 = _
        rw [hptr, Function.update_self]
      · rw [if_pos hsender, hsender, hics]
      · rw [hsender]
        exact hdataWatch
    · obtain ⟨data', hdata', hics', hwatch'⟩ := hentries.entry e he
      refine ⟨data', ?_, ?_, hwatch'⟩
      · show Function.update s₁.senders ptr _ e.2 = _
        rw [Function.update_of_ne, hdata']
        exact fun heq => hsender (hentries.ptr_inj e he _ hfound.mem heq)
      · rw [if_neg hsender, hics']
  · rcases List.mem_append.mp ho with ho | ho
    · exact hentries.known o ho
    · obtain rfl := List.mem_singleton.mp ho
      exact List.mem_map.mpr ⟨_, hfound.mem, rfl⟩
  · rw [owned_concat]
    split
    · simp
    · next hsender => exact h.nonempty e ((hfound.old e he).resolve_right hsender)
  · show s₁.icManager.setProperty c s₁.frontendDataId _ = _
    rw [hfound.icManager, hfound.frontendDataId]

end SenderTable
end Ipc
end Fcitx
