/-
# Going through a list that is changed on the way

An event loop calls the events of a list one after another, and a called event
may remove events that are still to come or register new ones. The log of the
loop keeps what happened as marks, and events are known by serial numbers, so
that a number is never used again. `Walk` goes through a list under such
changes; what it says of the log is told without the list the walk had at any
moment.

Key definitions: `Mark`, `Visit`, `Walk`, `OrderedRemovals`, `Joiners`, `Served`.
Key theorems: `Walk.order`, `Walk.called_iff`, `Walk.orderedRemovals`,
`Walk.served`.
-/
import Mathlib.Data.List.Induction
import Mathlib.Data.List.Nodup
import Mathlib.Data.List.Sublists

/-- An entry of the log of an event loop. -/
inductive Mark where
  | called (event : ℕ)
  | returned (event : ℕ)
  | registered (event : ℕ)
  /-- the callback of `running` removes `event`; `none` is outside of every callback -/
  | removed (running : Option ℕ) (event : ℕ)
  /-- its memory is given back -/
  | freed (event : ℕ)
  /-- its `destroyNotify` is called -/
  | destroyed (event : ℕ)
  | clock (time : ℤ)
deriving DecidableEq

namespace Mark

/-- The events that were called. -/
def calls (t : List Mark) : List ℕ :=
  t.filterMap fun
    | called e => some e
    | _ => none

/-- The events that were asked to be removed. -/
def removals (t : List Mark) : List ℕ :=
  t.filterMap fun
    | removed _ e => some e
    | _ => none

/-- The events that were registered. -/
def registrations (t : List Mark) : List ℕ :=
  t.filterMap fun
    | registered e => some e
    | _ => none

@[simp] theorem calls_nil : calls [] = [] := rfl

@[simp] theorem removals_nil : removals [] = [] := rfl

@[simp] theorem calls_append (t u : List Mark) : calls (t ++ u) = calls t ++ calls u :=
  List.filterMap_append

@[simp] theorem removals_append (t u : List Mark) : removals (t ++ u) = removals t ++ removals u :=
  List.filterMap_append

@[simp] theorem registrations_append (t u : List Mark) :
    registrations (t ++ u) = registrations t ++ registrations u :=
  List.filterMap_append

@[simp] theorem mem_calls {t : List Mark} {e : ℕ} : e ∈ calls t ↔ called e ∈ t := by
  rw [calls, List.mem_filterMap]
  constructor
  · rintro ⟨m, hm, he⟩
    cases m with
    | called d => exact Option.some.inj he ▸ hm
    | returned _ | registered _ | removed _ _ | freed _ | destroyed _ | clock _ => exact absurd he (by simp)
  · exact fun h => ⟨called e, h, rfl⟩

@[simp] theorem mem_removals {t : List Mark} {e : ℕ} : e ∈ removals t ↔ ∃ b, removed b e ∈ t := by
  rw [removals, List.mem_filterMap]
  constructor
  · rintro ⟨m, hm, he⟩
    cases m with
    | removed b d => exact ⟨b, Option.some.inj he ▸ hm⟩
    | called _ | returned _ | registered _ | freed _ | destroyed _ | clock _ => exact absurd he (by simp)
  · rintro ⟨b, h⟩
    exact ⟨removed b e, h, rfl⟩

end Mark

open Mark

/-- The marks of one visit: the event is called, and what is removed until the
next visit is removed by it. The serial numbers up to `n` were given before the visit,
those up to `n'` after it. -/
structure Visit (n e : ℕ) (t : List Mark) (n' : ℕ) : Prop where
  head : ∃ u, t = called e :: u ∧ calls u = []
  removed : ∀ b a, removed b a ∈ t → b = some e ∧ a < n'
  le : n ≤ n'

/-- A walk over the events of a list, which calls those that are due. After a
visit the events that it removed are not in the list any more, and some new ones
may have joined it. -/
inductive Walk (due joins : ℕ → Prop) : ℕ → List ℕ → List Mark → ℕ → Prop
  | done (n : ℕ) : Walk due joins n [] [] n
  | skip {n e n' : ℕ} {rest : List ℕ} {t : List Mark} (hdue : ¬ due e)
      (hrest : Walk due joins n rest t n') : Walk due joins n (e :: rest) t n'
  | visit {n e n₁ n' : ℕ} {rest added : List ℕ} {t t' : List Mark} (hdue : due e)
      (hvisit : Visit n e t n₁)
      (hnew : added.Nodup) (hadded : ∀ a ∈ added, joins a ∧ n ≤ a ∧ a < n₁ ∧ a ∉ removals t)
      (hrest : Walk due joins n₁ (rest.filter (· ∉ removals t) ++ added) t' n') :
      Walk due joins n (e :: rest) (t ++ t') n'

/-- Events that joined a list: they are new and were not removed since. -/
structure Joiners (n n' : ℕ) (t : List Mark) (added : List ℕ) : Prop where
  nodup : added.Nodup
  length_le : added.length ≤ (registrations t).length
  mem : ∀ a ∈ added, n ≤ a ∧ a < n' ∧ a ∉ removals t

theorem Joiners.nil (n n' : ℕ) (t : List Mark) : Joiners n n' t [] :=
  ⟨List.nodup_nil, Nat.zero_le _, fun _ ha => absurd ha List.not_mem_nil⟩

/-- What joined first and is still there, and what joined later. -/
theorem Joiners.trans {n n₁ n₂ : ℕ} {t t' : List Mark} {added added' : List ℕ} (h : Joiners n n₁ t added)
    (h' : Joiners n₁ n₂ t' added') (hle : n ≤ n₁) (hle' : n₁ ≤ n₂) (hlt : ∀ e ∈ removals t, e < n₁) :
    Joiners n n₂ (t ++ t') (added.filter (· ∉ removals t') ++ added') where
  nodup := List.nodup_append.mpr ⟨h.nodup.filter _, h'.nodup, fun a ha b hb hab => by
    have h1 := (h.mem a (List.mem_of_mem_filter ha)).2.1
    have h2 := (h'.mem b hb).1
    omega⟩
  length_le := by
    have h1 := List.length_filter_le (· ∉ removals t') added
    have h2 := h.length_le
    have h3 := h'.length_le
    rw [List.length_append, registrations_append, List.length_append]
    omega
  mem a ha := by
    rw [removals_append, List.mem_append, not_or]
    rcases List.mem_append.mp ha with ha | ha
    · obtain ⟨hmem, hkept⟩ := List.mem_filter.mp ha
      obtain ⟨h1, h2, h3⟩ := h.mem a hmem
      exact ⟨h1, Nat.lt_of_lt_of_le h2 hle', h3, of_decide_eq_true hkept⟩
    · obtain ⟨h1, h2, h3⟩ := h'.mem a ha
      exact ⟨Nat.le_trans hle h1, h2, fun hm => absurd (hlt a hm) (Nat.not_lt.mpr h1), h3⟩

theorem Visit.calls_eq {n e n' : ℕ} {t : List Mark} (h : Visit n e t n') : calls t = [e] := by
  obtain ⟨u, rfl, hu⟩ := h.head
  show e :: calls u = [e]
  rw [hu]

/-- The marks of a visit: those of the callback and of what follows it. -/
def visitMarks (e : ℕ) (t u : List Mark) : List Mark := called e :: t ++ [returned e] ++ u

theorem removals_visitMarks {e : ℕ} {t u : List Mark} (hu : removals u = []) :
    removals (visitMarks e t u) = removals t := by
  rw [visitMarks, removals_append, removals_append, hu]
  show removals t ++ [] ++ [] = _
  rw [List.append_nil, List.append_nil]

theorem calls_visitMarks {e : ℕ} {t u : List Mark} (ht : calls t = []) (hu : calls u = []) :
    calls (visitMarks e t u) = [e] := by
  rw [visitMarks, calls_append, calls_append, hu]
  show e :: calls t ++ [] ++ [] = _
  rw [ht]
  rfl

theorem mem_visitMarks {e : ℕ} {t u : List Mark} {m : Mark} (h : m ∈ visitMarks e t u) :
    m = called e ∨ m ∈ t ∨ m = returned e ∨ m ∈ u := by
  rw [visitMarks, List.mem_append, List.mem_append, List.mem_cons, List.mem_singleton] at h
  tauto

/-- A callback that only asks for removals itself, and what follows it. -/
theorem visit_visitMarks {n e n' : ℕ} {t u : List Mark} (ht : calls t = []) (hu : calls u = [])
    (hnone : removals u = []) (hremoved : ∀ b a, removed b a ∈ t → b = some e ∧ a < n') (hle : n ≤ n') :
    Visit n e (visitMarks e t u) n' := by
  refine ⟨⟨t ++ [returned e] ++ u, rfl, ?_⟩, fun b a hb => ?_, hle⟩
  · rw [calls_append, calls_append, ht, hu]
    rfl
  · rcases mem_visitMarks hb with hb | hb | hb | hb
    · exact absurd hb (by simp)
    · exact hremoved b a hb
    · exact absurd hb (by simp)
    · have hm : a ∈ removals u := mem_removals.mpr ⟨b, hb⟩
      rw [hnone] at hm
      exact absurd hm List.not_mem_nil

/-- The numbers of what is left were given before the next visit. -/
theorem Visit.next_lt {n e n' : ℕ} {t : List Mark} {joins : ℕ → Prop} {rest added : List ℕ}
    (h : Visit n e t n') (hrest : ∀ x ∈ rest, x < n)
    (hadded : ∀ a ∈ added, joins a ∧ n ≤ a ∧ a < n' ∧ a ∉ removals t) :
    ∀ x ∈ rest.filter (· ∉ removals t) ++ added, x < n' := by
  intro x hx
  rcases List.mem_append.mp hx with hx | hx
  · exact Nat.lt_of_lt_of_le (hrest x (List.mem_of_mem_filter hx)) h.le
  · exact (hadded x hx).2.2.1

/-- No event is called after it was removed. -/
def OrderedRemovals (t : List Mark) : Prop :=
  ∀ before after e, t = before ++ called e :: after → ∀ b, removed b e ∉ before

theorem OrderedRemovals.nil : OrderedRemovals [] := fun before after e h => absurd h (by simp)

theorem OrderedRemovals.append {t u : List Mark} (ht : OrderedRemovals t) (hu : OrderedRemovals u)
    (h : ∀ e, called e ∈ u → e ∉ removals t) : OrderedRemovals (t ++ u) := by
  intro before after e heq b
  have hlater : ∀ v, u = v ++ called e :: after → before = t ++ v → removed b e ∉ before := by
    rintro v hv rfl
    rw [List.mem_append, not_or]
    refine ⟨fun hm => h e ?_ (mem_removals.mpr ⟨b, hm⟩), hu v after e hv b⟩
    rw [hv]
    simp
  rcases List.append_eq_append_iff.mp heq with ⟨v, hbefore, hu'⟩ | ⟨v, ht', hv⟩
  · exact hlater v hu' hbefore
  · cases v with
    | nil =>
      rw [List.append_nil] at ht'
      exact hlater [] hv.symm (by rw [ht', List.append_nil])
    | cons m v =>
      obtain ⟨rfl, -⟩ := List.cons.inj hv
      exact ht before v e ht' b

theorem sublist_of_sublist_append {d e : ℕ} {xs ys : List ℕ} (h : [d, e].Sublist (xs ++ ys))
    (he : e ∉ ys) : [d, e].Sublist xs := by
  obtain ⟨l₁, l₂, hl, h₁, h₂⟩ := List.sublist_append_iff.mp h
  cases l₂ using List.reverseRecOn with
  | nil =>
    rw [List.append_nil] at hl
    rw [hl]
    exact h₁
  | append_singleton l x =>
    have hx : e = x := by
      have := congrArg List.getLast? hl
      simpa using this
    exact absurd (h₂.subset (by simp [hx])) he

theorem pair_sublist_filter {d e : ℕ} {xs gone : List ℕ} (h : [d, e].Sublist xs) (hd : d ∉ gone)
    (he : e ∉ gone) : [d, e].Sublist (xs.filter (· ∉ gone)) := by
  have hpair : [d, e].filter (· ∉ gone) = [d, e] := by
    apply List.filter_eq_self.mpr
    intro x hx
    rcases List.mem_pair.mp hx with rfl | rfl
    · exact decide_eq_true hd
    · exact decide_eq_true he
  rw [← hpair]
  exact h.filter _

/-- Of the numbers below `n`, those that are below `n'` as well. -/
theorem filter_filter_lt {n n' : ℕ} (hle : n ≤ n') (xs : List ℕ) :
    (xs.filter (· < n')).filter (· < n) = xs.filter (· < n) := by
  rw [List.filter_filter]
  refine List.filter_congr fun x _ => ?_
  rw [← Bool.decide_and]
  refine decide_eq_decide.mpr (and_iff_left_of_imp fun hx => ?_)
  exact Nat.lt_of_lt_of_le hx hle

namespace Walk

variable {due joins : ℕ → Prop} {n n' : ℕ} {xs : List ℕ} {t : List Mark}

/-- What is called was in the list or joined it. -/
theorem mem_of_called (h : Walk due joins n xs t n') {e : ℕ} (he : called e ∈ t) :
    e ∈ xs ∨ (joins e ∧ n ≤ e) := by
  induction h with
  | done n => exact absurd he List.not_mem_nil
  | skip _ _ ih => exact (ih he).imp_left (List.mem_cons_of_mem _)
  | @visit n d n₁ n' rest added t t' hdue hvisit hnew hadded hrest ih =>
    rcases List.mem_append.mp he with he | he
    · have hcalls := mem_calls.mpr he
      rw [hvisit.calls_eq, List.mem_singleton] at hcalls
      exact Or.inl (hcalls ▸ List.mem_cons_self)
    · rcases ih he with hmem | ⟨hjoin, hle⟩
      · rcases List.mem_append.mp hmem with hmem | hmem
        · exact Or.inl (List.mem_cons_of_mem _ (List.mem_of_mem_filter hmem))
        · exact Or.inr ⟨(hadded e hmem).1, (hadded e hmem).2.1⟩
      · exact Or.inr ⟨hjoin, Nat.le_trans hvisit.le hle⟩

/-- Only events that are due or have joined the list are called. -/
theorem due_of_called (h : Walk due joins n xs t n') {e : ℕ} (he : called e ∈ t) : due e := by
  induction h with
  | done n => exact absurd he List.not_mem_nil
  | skip _ _ ih => exact ih he
  | @visit n d n₁ n' rest added t t' hdue hvisit hnew hadded hrest ih =>
    rcases List.mem_append.mp he with he | he
    · have hcalls := mem_calls.mpr he
      rw [hvisit.calls_eq, List.mem_singleton] at hcalls
      exact hcalls ▸ hdue
    · exact ih he

/-- What is removed is removed by the callback of a called event. -/
theorem remover_called (h : Walk due joins n xs t n') {b : Option ℕ} {e : ℕ}
    (he : removed b e ∈ t) : ∃ d, b = some d ∧ called d ∈ t := by
  induction h with
  | done n => exact absurd he List.not_mem_nil
  | skip _ _ ih => exact ih he
  | @visit n d n₁ n' rest added t t' hdue hvisit hnew hadded hrest ih =>
    rcases List.mem_append.mp he with he | he
    · obtain ⟨u, hu, -⟩ := hvisit.head
      refine ⟨d, (hvisit.removed b e he).1, List.mem_append_left _ ?_⟩
      rw [hu]
      exact List.mem_cons_self
    · obtain ⟨c, hb, hc⟩ := ih he
      exact ⟨c, hb, List.mem_append_right _ hc⟩

/-- What a visit removed is not called later on. -/
theorem not_called_of_removed {e d n₁ : ℕ} {rest added : List ℕ} {u : List Mark} {b : Option ℕ}
    (h : Walk due joins n₁ (rest.filter (· ∉ removals u) ++ added) t n') (hvisit : Visit n d u n₁)
    (hadded : ∀ a ∈ added, joins a ∧ n ≤ a ∧ a < n₁ ∧ a ∉ removals u) (he : removed b e ∈ u) :
    called e ∉ t := by
  intro hcall
  have hgone : e ∈ removals u := mem_removals.mpr ⟨b, he⟩
  rcases h.mem_of_called hcall with hin | ⟨-, hle⟩
  · rcases List.mem_append.mp hin with hin | hin
    · exact of_decide_eq_true (List.mem_filter.mp hin).2 hgone
    · exact (hadded e hin).2.2.2 hgone
  · exact absurd (hvisit.removed b e he).2 (Nat.not_lt.mpr hle)

/-- **The events of the list are called in its order, each at most once.** -/
theorem order (h : Walk due joins n xs t n') : ((calls t).filter (· < n)).Sublist xs := by
  induction h with
  | done n => exact List.Sublist.refl []
  | skip _ _ ih => exact ih.cons _
  | @visit n d n₁ n' rest added t t' hdue hvisit hnew hadded hrest ih =>
    -- the calls of the rest of the walk that were in the list from the start
    have hold : ((calls t').filter (· < n)).Sublist rest := by
      have hnone : added.filter (· < n) = [] := by
        apply List.filter_eq_nil_iff.mpr
        intro a ha
        simpa using (hadded a ha).2.1
      have hsub := ih.filter (· < n)
      rw [filter_filter_lt hvisit.le, List.filter_append, hnone, List.append_nil] at hsub
      exact hsub.trans (List.filter_sublist.trans List.filter_sublist)
    rw [calls_append, hvisit.calls_eq, List.singleton_append, List.filter_cons]
    split
    · exact hold.cons_cons d
    · exact hold.cons d

/-- Of a list without repetitions each event is called at most once. -/
theorem count_le (h : Walk due joins n xs t n') (hnd : xs.Nodup) {e : ℕ} (he : e < n) :
    t.count (called e) ≤ 1 := by
  have hcount : t.count (called e) = (calls t).count e := by
    clear h
    induction t with
    | nil => rfl
    | cons m t ih =>
      cases m with
      | called d =>
        show (called d :: t).count (called e) = (d :: calls t).count e
        rw [List.count_cons, List.count_cons, ih]
        simp
      | returned _ | registered _ | removed _ _ | freed _ | destroyed _ | clock _ =>
        rw [List.count_cons_of_ne (by simp), ih]
        rfl
  have hfilter : ((calls t).filter (· < n)).count e = (calls t).count e :=
    List.count_filter (decide_eq_true he)
  rw [hcount, ← hfilter]
  exact Nat.le_trans (h.order.count_le e) (List.nodup_iff_count_le_one.mp hnd e)

/-- **A due event of the list is called unless an event before it removes it.** -/
theorem called_iff (h : Walk due joins n xs t n') (hnd : xs.Nodup) (hlt : ∀ x ∈ xs, x < n) {e : ℕ}
    (hdue : due e) (he : e ∈ xs) :
    called e ∈ t ↔ ¬ ∃ d, [d, e].Sublist xs ∧ removed (some d) e ∈ t := by
  induction h with
  | done n => exact absurd he List.not_mem_nil
  | @skip n c n' rest t hc hrest ih =>
    obtain ⟨hout, hnd'⟩ := List.nodup_cons.mp hnd
    have hlt' : ∀ x ∈ rest, x < n := fun x hx => hlt x (List.mem_cons_of_mem _ hx)
    have hec : e ≠ c := fun heq => hc (heq ▸ hdue)
    rw [ih hnd' hlt' ((List.mem_cons.mp he).resolve_left hec)]
    refine not_congr ⟨fun ⟨d, hd, hr⟩ => ⟨d, hd.cons c, hr⟩, fun ⟨d, hd, hr⟩ => ⟨d, ?_, hr⟩⟩
    -- the event that is skipped removes nothing
    obtain ⟨d', hd', hcalled⟩ := hrest.remover_called hr
    cases hd with
    | cons _ hd => exact hd
    | cons_cons _ _ =>
      have hbad : due c := hrest.due_of_called (Option.some.inj hd' ▸ hcalled)
      exact absurd hbad hc
  | @visit n c n₁ n' rest added t t' hc hvisit hnew hadded hrest ih =>
    obtain ⟨hout, hnd'⟩ := List.nodup_cons.mp hnd
    have hlt' : ∀ x ∈ rest, x < n := fun x hx => hlt x (List.mem_cons_of_mem _ hx)
    by_cases hec : e = c
    · -- the head is called, and nothing is before it
      refine ⟨fun _ => ?_, fun _ => ?_⟩
      · rintro ⟨d, hd, -⟩
        rw [hec] at hd
        cases hd with
        | cons _ hd => exact hout (hd.subset (by simp))
        | cons_cons _ hd => exact hout (hd.subset (by simp))
      · obtain ⟨u, hu, -⟩ := hvisit.head
        rw [hu, hec]
        exact List.mem_cons_self
    · have herest : e ∈ rest := (List.mem_cons.mp he).resolve_left hec
      have hcalled : called e ∈ t ++ t' ↔ called e ∈ t' := by
        rw [List.mem_append, ← mem_calls, hvisit.calls_eq, List.mem_singleton]
        exact or_iff_right hec
      rw [hcalled]
      by_cases hgone : e ∈ removals t
      · -- the head removes it
        obtain ⟨b, hb⟩ := mem_removals.mp hgone
        have hremoved : removed (some c) e ∈ t ++ t' :=
          List.mem_append_left _ ((hvisit.removed b e hb).1 ▸ hb)
        have hnot : called e ∉ t' := hrest.not_called_of_removed hvisit hadded hb
        refine ⟨fun hcall => absurd hcall hnot, fun hno => absurd ?_ hno⟩
        exact ⟨c, List.cons_sublist_cons.mpr (List.singleton_sublist.mpr herest), hremoved⟩
      · have hkept : e ∈ rest.filter (· ∉ removals t) ++ added :=
          List.mem_append_left _ (List.mem_filter.mpr ⟨herest, decide_eq_true hgone⟩)
        have hsep : ∀ a ∈ added, a ∉ rest := fun a ha hmem =>
          absurd (hlt' a hmem) (Nat.not_lt.mpr (hadded a ha).2.1)
        have hnd₁ : (rest.filter (· ∉ removals t) ++ added).Nodup :=
          List.nodup_append.mpr ⟨hnd'.filter _, hnew, fun x hx a ha hxa =>
            hsep a ha (hxa ▸ List.mem_of_mem_filter hx)⟩
        rw [ih hnd₁ (hvisit.next_lt hlt' hadded) hkept]
        refine not_congr ⟨fun ⟨d, hd, hr⟩ => ?_, fun ⟨d, hd, hr⟩ => ?_⟩
        · refine ⟨d, ?_, List.mem_append_right _ hr⟩
          have hrest' := sublist_of_sublist_append hd fun hmem => hsep e hmem herest
          exact (hrest'.trans List.filter_sublist).cons c
        · rcases List.mem_append.mp hr with hr | hr
          · exact absurd (mem_removals.mpr ⟨_, hr⟩) hgone
          · obtain ⟨d', hd', hcall⟩ := hrest.remover_called hr
            rw [Option.some.inj hd'] at hd hr
            have hdc : d' ∈ c :: rest := hd.subset (by simp)
            have hdn : d' < n := hlt d' hdc
            have hdkept : d' ∈ rest.filter (· ∉ removals t) := by
              rcases hrest.mem_of_called hcall with hmem | ⟨-, hle⟩
              · exact (List.mem_append.mp hmem).resolve_right fun ha =>
                  absurd hdn (Nat.not_lt.mpr (hadded d' ha).2.1)
              · have := hvisit.le
                omega
            have hdrest : [d', e].Sublist rest := by
              cases hd with
              | cons _ hd => exact hd
              | cons_cons _ _ => exact absurd (List.mem_of_mem_filter hdkept) hout
            have hdgone : d' ∉ removals t := of_decide_eq_true (List.mem_filter.mp hdkept).2
            exact ⟨d', (pair_sublist_filter hdrest hdgone hgone).trans (List.sublist_append_left _ _), hr⟩

/-- **No event is called after it was removed.** -/
theorem orderedRemovals (h : Walk due joins n xs t n') (hlt : ∀ x ∈ xs, x < n) : OrderedRemovals t := by
  induction h with
  | done n => exact OrderedRemovals.nil
  | skip _ _ ih => exact ih fun x hx => hlt x (List.mem_cons_of_mem _ hx)
  | @visit n c n₁ n' rest added t t' hc hvisit hnew hadded hrest ih =>
    have hlt' : ∀ x ∈ rest, x < n := fun x hx => hlt x (List.mem_cons_of_mem _ hx)
    refine OrderedRemovals.append ?_ (ih (hvisit.next_lt hlt' hadded)) fun e he hm => ?_
    · -- a visit starts with its call
      intro before after e ht b
      obtain ⟨v, hv, hcalls⟩ := hvisit.head
      cases before with
      | nil => exact List.not_mem_nil
      | cons m before =>
        rw [hv, List.cons_append, List.cons.injEq] at ht
        have hcall : e ∈ calls v := by
          rw [ht.2, mem_calls]
          simp
        rw [hcalls] at hcall
        exact absurd hcall List.not_mem_nil
    · obtain ⟨b, hb⟩ := mem_removals.mp hm
      exact hrest.not_called_of_removed hvisit hadded hb he

end Walk

/-- How the events `ys`, the numbers below `n`, fare in the marks `t` that come after
`before`: they are called in their order, each at most once, and each but those that
were removed `before` or by an event in front of them. -/
structure Served (n : ℕ) (ys : List ℕ) (before t : List Mark) : Prop where
  order : ((calls t).filter (· < n)).Sublist ys
  once : ∀ e < n, t.count (called e) ≤ 1
  called : ∀ e ∈ ys,
    called e ∈ t ↔ e ∉ removals before ∧ ¬ ∃ d, [d, e].Sublist ys ∧ removed (some d) e ∈ t

/-- **A walk that starts later**, on what is left of `ys` and what joined it. -/
theorem Walk.served {due joins : ℕ → Prop} {n n₁ n' : ℕ} {ys added : List ℕ} {before t : List Mark}
    (h : Walk due joins n₁ (ys.filter (· ∉ removals before) ++ added) t n') (hdue : ∀ e, due e)
    (hnd : ys.Nodup) (hlt : ∀ x ∈ ys, x < n) (hle : n ≤ n₁) (hjoined : Joiners n n₁ before added) :
    Served n ys before t := by
  have hsep : ∀ a ∈ added, a ∉ ys := fun a ha hmem =>
    absurd (hlt a hmem) (Nat.not_lt.mpr (hjoined.mem a ha).1)
  have hnd₁ : (ys.filter (· ∉ removals before) ++ added).Nodup :=
    List.nodup_append.mpr ⟨hnd.filter _, hjoined.nodup, fun x hx a ha hxa =>
      hsep a ha (hxa ▸ List.mem_of_mem_filter hx)⟩
  have hlt₁ : ∀ x ∈ ys.filter (· ∉ removals before) ++ added, x < n₁ := by
    intro x hx
    rcases List.mem_append.mp hx with hx | hx
    · exact Nat.lt_of_lt_of_le (hlt x (List.mem_of_mem_filter hx)) hle
    · exact (hjoined.mem x hx).2.1
  -- an event of `ys` that is called was not removed before
  have hkept : ∀ e ∈ ys, Mark.called e ∈ t → e ∉ removals before := by
    intro e he hcall
    rcases h.mem_of_called hcall with hmem | ⟨-, hge⟩
    · rcases List.mem_append.mp hmem with hmem | hmem
      · exact of_decide_eq_true (List.mem_filter.mp hmem).2
      · exact absurd he (hsep e hmem)
    · have := hlt e he
      omega
  refine ⟨?_, fun e he => h.count_le hnd₁ (Nat.lt_of_lt_of_le he hle), fun e he => ?_⟩
  · have hnone : added.filter (· < n) = [] := by
      apply List.filter_eq_nil_iff.mpr
      intro a ha
      simpa using (hjoined.mem a ha).1
    have hsub := h.order.filter (· < n)
    rw [filter_filter_lt hle, List.filter_append, hnone, List.append_nil] at hsub
    exact hsub.trans (List.filter_sublist.trans List.filter_sublist)
  · by_cases hgone : e ∈ removals before
    · exact iff_of_false (fun hcall => hkept e he hcall hgone) fun hno => hno.1 hgone
    · have hmem : e ∈ ys.filter (· ∉ removals before) ++ added :=
        List.mem_append_left _ (List.mem_filter.mpr ⟨he, decide_eq_true hgone⟩)
      rw [h.called_iff hnd₁ hlt₁ (hdue e) hmem, and_iff_right hgone]
      refine not_congr ⟨fun ⟨d, hd, hr⟩ => ⟨d, ?_, hr⟩, fun ⟨d, hd, hr⟩ => ⟨d, ?_, hr⟩⟩
      · exact (sublist_of_sublist_append hd fun hm => hsep e hm he).trans List.filter_sublist
      · obtain ⟨d', hd', hcall⟩ := h.remover_called hr
        rw [Option.some.inj hd'] at hd ⊢
        have hdgone := hkept d' (hd.subset (by simp)) hcall
        exact (pair_sublist_filter hd hdgone hgone).trans (List.sublist_append_left _ _)
