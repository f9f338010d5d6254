/-
# Lists kept by key

Entries are put in lists by a key: `cls` gives the key of an entry, if it is in
a list at all, and a dictionary leads from a key to the head of its list.
`Classes` says that the lists are the classes of `cls` and that the dictionary
knows exactly the classes that are not empty. An entry leaves its class or
joins one; the dictionary changes where a class ends or begins.

Key definitions: `Classes`.
Key theorems: `Classes.leave`, `Classes.join`.
-/
import Fcitx.Lib.RingHeap

variable {H E K : Type} [DecidableEq H] [DecidableEq E] [DecidableEq K]

/-- The list of each key holds its class; `L` are the lists by their heads. -/
structure Classes (l : Links (H ⊕ E)) (dict : K → Option H) (cls : E → Option K)
    (L : H → List E) : Prop where
  rings : Rings l (fun h => ∃ k, dict k = some h) L
  inj : ∀ k k' h, dict k = some h → dict k' = some h → k = k'
  mem_iff : ∀ k h, dict k = some h → ∀ e, e ∈ L h ↔ cls e = some k
  entry : ∀ e k, cls e = some k → ∃ h, dict k = some h
  nonempty : ∀ k h, dict k = some h → L h ≠ []

namespace Classes

variable {l : Links (H ⊕ E)} {dict : K → Option H} {cls : E → Option K} {L : H → List E} {e e' : E}
  {k : K} {h : H}

omit [DecidableEq H] [DecidableEq E] [DecidableEq K] in
theorem nodup (c : Classes l dict cls L) (hk : dict k = some h) : (L h).Nodup :=
  c.rings.nodup ⟨k, hk⟩

omit [DecidableEq H] [DecidableEq K] in
/-- An entry that leaves takes the list of its class along if it is the last one. -/
theorem erase_eq_nil_iff (c : Classes l dict cls L) (hk : dict k = some h) :
    (L h).erase e = [] ↔ ∀ d, d ≠ e → cls d ≠ some k := by
  have hmem := c.mem_iff k h hk
  rw [List.eq_nil_iff_forall_not_mem]
  constructor
  · intro hnil d hd hdk
    exact hnil d ((c.nodup hk).mem_erase_iff.mpr ⟨hd, (hmem d).mpr hdk⟩)
  · intro hno d hd
    obtain ⟨hne, hm⟩ := (c.nodup hk).mem_erase_iff.mp hd
    exact hno d hne ((hmem d).mp hm)

/-- **Leaving a class.** The dictionary forgets the class if the list is empty then. -/
theorem leave (c : Classes l dict cls L) (hk : dict k = some h) (he : cls e = some k) :
    Classes (l.remove (.inr e))
      (if (l.remove (.inr e)).isEmpty (.inl h) then Function.update dict k none else dict)
      (Function.update cls e none) (Function.update L h ((L h).erase e)) := by
  have hem : e ∈ L h := (c.mem_iff k h hk e).mpr he
  have hrings := c.rings.remove (h := h) ⟨k, hk⟩ hem
  have hempty : (l.remove (.inr e)).isEmpty (.inl h) = true ↔ (L h).erase e = [] := by
    rw [hrings.isEmpty_iff ⟨k, hk⟩, Function.update_self]
  have hother : ∀ {k' h'}, dict k' = some h' → k' ≠ k → h' ≠ h := fun hk' hne e' =>
    hne (c.inj _ _ _ (e' ▸ hk') hk)
  have hsub : ∀ {k' h'},
      (if (l.remove (.inr e)).isEmpty (.inl h) then Function.update dict k none else dict) k' = some h' →
        dict k' = some h' ∧ (k' = k → (L h).erase e ≠ []) := by
    intro k' h' hk'
    split at hk'
    · by_cases hkk : k' = k
      · rw [hkk, Function.update_self] at hk'
        cases hk'
      · rw [Function.update_of_ne hkk] at hk'
        exact ⟨hk', fun e' => absurd e' hkk⟩
    · next hne => exact ⟨hk', fun _ hnil => hne (hempty.mpr hnil)⟩
  refine ⟨?_, fun k₁ k₂ h' h₁ h₂ => c.inj k₁ k₂ h' (hsub h₁).1 (hsub h₂).1, fun k' h' hk' d => ?_,
    fun d k' hd => ?_, fun k' h' hk' => ?_⟩
  · exact hrings.mono fun h' ⟨k', hk'⟩ => ⟨k', (hsub hk').1⟩
  · obtain ⟨hk₁, -⟩ := hsub hk'
    by_cases hkk : k' = k
    · subst hkk
      obtain rfl : h' = h := Option.some.inj (hk₁.symm.trans hk)
      rw [Function.update_self, (c.nodup hk).mem_erase_iff, c.mem_iff k' h' hk]
      by_cases hd : d = e
      · simp [hd]
      · simp [hd]
    · rw [Function.update_of_ne (hother hk₁ hkk), c.mem_iff k' h' hk₁]
      by_cases hd : d = e
      · rw [hd, Function.update_self, he]
        simp [Ne.symm hkk]
      · rw [Function.update_of_ne hd]
  · by_cases hde : d = e
    · rw [hde, Function.update_self] at hd
      cases hd
    · rw [Function.update_of_ne hde] at hd
      obtain ⟨h', hk'⟩ := c.entry d k' hd
      by_cases hkk : k' = k
      · -- somebody stays, so the class goes on
        subst hkk
        refine ⟨h', ?_⟩
        rw [if_neg fun h₁ => (c.erase_eq_nil_iff hk).mp (hempty.mp h₁) d hde hd]
        exact hk'
      · refine ⟨h', ?_⟩
        split
        · rw [Function.update_of_ne hkk]
          exact hk'
        · exact hk'
  · obtain ⟨hk₁, hk₂⟩ := hsub hk'
    by_cases hkk : k' = k
    · subst hkk
      obtain rfl : h' = h := Option.some.inj (hk₁.symm.trans hk)
      rw [Function.update_self]
      exact hk₂ rfl
    · rw [Function.update_of_ne (hother hk₁ hkk)]
      exact c.nonempty k' h' hk₁

omit [DecidableEq K] in
/-- **Joining a class that there is.** -/
theorem join (c : Classes l dict cls L) (hk : dict k = some h) (he : cls e = none) :
    Classes (l.append (.inr e) (.inl h)) dict (Function.update cls e (some k))
      (Function.update L h (L h ++ [e])) := by
  have hout : ∀ h', (∃ k', dict k' = some h') → e ∉ L h' := by
    rintro h' ⟨k', hk'⟩ hm
    rw [c.mem_iff k' h' hk', he] at hm
    cases hm
  refine ⟨c.rings.append ⟨k, hk⟩ hout, c.inj, fun k' h' hk' d => ?_, fun d k' hd => ?_,
    fun k' h' hk' => ?_⟩
  · by_cases hh : h' = h
    · subst hh
      obtain rfl : k' = k := c.inj k' k h' hk' hk
      rw [Function.update_self, List.mem_append, List.mem_singleton, c.mem_iff k' h' hk]
      by_cases hd : d = e
      · simp [hd]
      · simp [hd]
    · rw [Function.update_of_ne hh, c.mem_iff k' h' hk']
      by_cases hd : d = e
      · rw [hd, Function.update_self, he, Option.some.injEq]
        constructor
        · intro h₁
          cases h₁
        · rintro rfl
          exact absurd (Option.some.inj (hk'.symm.trans hk)) hh
      · rw [Function.update_of_ne hd]
  · by_cases hde : d = e
    · rw [hde, Function.update_self, Option.some.injEq] at hd
      exact ⟨h, hd ▸ hk⟩
    · rw [Function.update_of_ne hde] at hd
      exact c.entry d k' hd
  · by_cases hh : h' = h
    · simp [hh]
    · rw [Function.update_of_ne hh]
      exact c.nonempty k' h' hk'

/-- **Joining a class that begins**: its head is new. -/
theorem joinNew (c : Classes l dict cls L) (hk : dict k = none) (hh : ∀ k', dict k' ≠ some h)
    (he : cls e = none) :
    Classes ((l.init (.inl h)).append (.inr e) (.inl h)) (Function.update dict k (some h))
      (Function.update cls e (some k)) (Function.update L h [e]) := by
  have hlive : ∀ h', (∃ k', Function.update dict k (some h) k' = some h') ↔
      h' = h ∨ ∃ k', dict k' = some h' := by
    intro h'
    constructor
    · rintro ⟨k', hk'⟩
      by_cases hkk : k' = k
      · rw [hkk, Function.update_self] at hk'
        exact Or.inl (Option.some.inj hk').symm
      · rw [Function.update_of_ne hkk] at hk'
        exact Or.inr ⟨k', hk'⟩
    · rintro (rfl | ⟨k', hk'⟩)
      · exact ⟨k, Function.update_self ..⟩
      · refine ⟨k', ?_⟩
        rw [Function.update_of_ne fun e' => by rw [e', hk] at hk'; cases hk']
        exact hk'
  have hcases : ∀ {k' h'}, Function.update dict k (some h) k' = some h' →
      (k' = k ∧ h' = h) ∨ (k' ≠ k ∧ h' ≠ h ∧ dict k' = some h') := by
    intro k' h' hk'
    by_cases hkk : k' = k
    · rw [hkk, Function.update_self] at hk'
      exact Or.inl ⟨hkk, (Option.some.inj hk').symm⟩
    · rw [Function.update_of_ne hkk] at hk'
      exact Or.inr ⟨hkk, fun e' => hh k' (e' ▸ hk'), hk'⟩
  have hinit := c.rings.init (h := h) fun ⟨k', hk'⟩ => hh k' hk'
  have hout : ∀ h', h' = h ∨ (∃ k', dict k' = some h') → e ∉ Function.update L h [] h' := by
    intro h' hl hm
    by_cases hhh : h' = h
    · subst hhh
      simp at hm
    · obtain ⟨k', hk'⟩ := hl.resolve_left hhh
      rw [Function.update_of_ne hhh, c.mem_iff k' h' hk', he] at hm
      cases hm
  have happ := hinit.append (Or.inl rfl) hout
  rw [Function.update_self, List.nil_append, Function.update_idem] at happ
  refine ⟨happ.mono fun h' hl => (hlive h').mp hl, fun k₁ k₂ h' h₁ h₂ => ?_, fun k' h' hk' d => ?_,
    fun d k' hd => ?_, fun k' h' hk' => ?_⟩
  · rcases hcases h₁ with ⟨rfl, rfl⟩ | ⟨-, hne, h₁⟩ <;> rcases hcases h₂ with ⟨rfl, he₂⟩ | ⟨-, hne₂, h₂⟩
    · rfl
    · exact absurd rfl hne₂
    · exact absurd he₂ hne
    · exact c.inj k₁ k₂ h' h₁ h₂
  · rcases hcases hk' with ⟨rfl, rfl⟩ | ⟨hkk, hhh, hk'⟩
    · rw [Function.update_self, List.mem_singleton]
      by_cases hd : d = e
      · simp [hd]
      · rw [Function.update_of_ne hd]
        refine ⟨fun e' => absurd e' hd, fun hd' => ?_⟩
        obtain ⟨h₁, h₂⟩ := c.entry d k' hd'
        rw [hk] at h₂
        cases h₂
    · rw [Function.update_of_ne hhh, c.mem_iff k' h' hk']
      by_cases hd : d = e
      · rw [hd, Function.update_self, he]
        simp [Ne.symm hkk]
      · rw [Function.update_of_ne hd]
  · by_cases hde : d = e
    · rw [hde, Function.update_self, Option.some.injEq] at hd
      exact ⟨h, by rw [← hd, Function.update_self]⟩
    · rw [Function.update_of_ne hde] at hd
      obtain ⟨h₁, h₂⟩ := c.entry d k' hd
      refine ⟨h₁, ?_⟩
      rw [Function.update_of_ne fun e' => by rw [e', hk] at h₂; cases h₂]
      exact h₂
  · rcases hcases hk' with ⟨-, rfl⟩ | ⟨-, hhh, hk'⟩
    · simp
    · rw [Function.update_of_ne hhh]
      exact c.nonempty k' h' hk'

end Classes
