/-
# The merged file

What is asked of the merged file: an option `d/_name` is there as `d/name`, with
a text for every language that has one, every other option is there as it was,
and there is nothing else. The call for an option with nothing before its name
writes below the option instead, so that its value is only there if another
option happens to write the same one.

Key definitions: `asked`, `Merges`, `others`, `Mergeable`.
Key theorems: `values_merged`, `Mergeable.merges`, `Merges.mergeable`, `merges_iff`.
-/
import Fcitx.ConfigMerge.Translate

namespace Fcitx

open Fcitx.Configuration LastWrite

variable {poDict : PoDict} {config : Configuration} {ptr : NodePtr} {value : Option Bytes}

/-- What is asked for the node of an option. -/
def asked (poDict : PoDict) (ptr : NodePtr) (value : Option Bytes) : List (NodePtr × Option Bytes) :=
  if Marked (ptr.getLastD []) then renamed poDict ptr.dropLast (ptr.getLastD []) value else [(ptr, value)]

/-- **The translations are merged**: every option that is translated is there under its new name with its value and
its texts, every other value is there, and no other path has a value. -/
def Merges (poDict : PoDict) (config : Configuration) : Prop :=
  ∃ newconfig, mergeTranslation poDict config = some newconfig ∧
    (∀ d ∈ config.descendants, ∀ w ∈ asked poDict d.1 (getValue d.2), Marked (d.1.getLastD []) ∨ w.2 ≠ none →
      (newconfig.find w.1).isSome ∧ newconfig.values w.1 = w.2) ∧
    ∀ ks v, newconfig.values ks = some v → ∃ d ∈ config.descendants, (ks, some v) ∈ asked poDict d.1 (getValue d.2)

/-- A translated option with nothing before its name. -/
def Top (ptr : NodePtr) : Prop := Marked (ptr.getLastD []) ∧ (trimNames ptr).dropLast = []

instance topDecidable (ptr : NodePtr) : Decidable (Top ptr) := inferInstanceAs (Decidable (_ ∧ _))

/-- What the calls for all other options write. -/
def others (poDict : PoDict) (config : Configuration) : List (NodePtr × Option Bytes) :=
  config.descendants.flatMap fun d => if Top d.1 then [] else asked poDict (trimNames d.1) (getValue d.2)

/-- Where the call for a top option writes. -/
def misplaced (poDict : PoDict) (ptr : NodePtr) (value : Option Bytes) : List (NodePtr × Option Bytes) :=
  renamed poDict [ptr.getLastD []] (ptr.getLastD []) value

/-- Nothing is asked for below a node without a name. -/
def Named (config : Configuration) : Prop :=
  ∀ d ∈ config.descendants, d.1.head? = some [] → getValue d.2 = none ∧ ¬ Marked (d.1.getLastD [])

/-- Where the calls for all top options write. -/
def misplacedAll (poDict : PoDict) (config : Configuration) : List (NodePtr × Option Bytes) :=
  config.descendants.flatMap fun d => if Top d.1 then misplaced poDict d.1 (getValue d.2) else []

/-- The files whose translations are merged. -/
structure Mergeable (poDict : PoDict) (config : Configuration) : Prop where
  /-- The walk has a buffer for every path. -/
  walkable : config.Walkable
  /-- No dictionary is asked for an option without a value. -/
  noNull : NoNull poDict config
  /-- An option that starts with an empty name has no value, and is not translated. -/
  named : Named config
  /-- What is asked for is the last that the options in their places write there. -/
  last : ∀ d ∈ config.descendants, ∀ w ∈ asked poDict d.1 (getValue d.2), Marked (d.1.getLastD []) ∨ w.2 ≠ none →
    (lastAt (others poDict config) w.1).join = w.2
  /-- What a top option writes below itself is overwritten. -/
  covered : ∀ d ∈ config.descendants, Top d.1 → ∀ w ∈ misplaced poDict d.1 (getValue d.2), w.2 ≠ none →
    ∃ w' ∈ others poDict config, w'.1 = w.1
  /-- There is a node for the new name of a top option. -/
  shown : ∀ d ∈ config.descendants, Top d.1 →
    ∃ d' ∈ config.descendants, (trimNames d'.1).head? = some (d.1.getLastD []).tail

/-! ### The writes of one call -/

theorem trimNames_eq_self (h : ptr.head? ≠ some []) : trimNames ptr = ptr := by
  cases ptr with
  | nil => rfl
  | cons k ptr => exact trimNames_of_head (fun hk => h (congrArg some hk)) ptr

theorem head?_trimNames (ptr : NodePtr) : (trimNames ptr).head? ≠ some [] := by
  induction ptr with
  | nil => exact nofun
  | cons k ptr ih =>
    by_cases hk : k = []
    · rw [hk, trimNames_nil_cons]
      exact ih
    · rw [trimNames_of_head hk]
      simpa using hk

/-- The name of a node stays its name. -/
theorem getLastD_trimNames (ptr : NodePtr) : (trimNames ptr).getLastD [] = ptr.getLastD [] := by
  induction ptr with
  | nil => rfl
  | cons k ptr ih =>
    by_cases hk : k = []
    · rw [hk, trimNames_nil_cons, ih]
      cases ptr <;> rfl
    · rw [trimNames_of_head hk]

/-- A call that is in its place writes what is asked. -/
theorem placed_eq (poDict : PoDict) (ptr : NodePtr) (value : Option Bytes) :
    placed poDict ptr value = if Top ptr then misplaced poDict ptr value else asked poDict (trimNames ptr) value := by
  unfold placed misplaced asked
  dsimp only
  rw [getLastD_trimNames]
  by_cases hmarked : Marked (ptr.getLastD [])
  · rw [if_pos hmarked, if_pos hmarked]
    by_cases hdir : (trimNames ptr).dropLast = []
    · rw [if_pos hdir, if_pos ⟨hmarked, hdir⟩]
    · rw [if_neg hdir, if_neg fun h => hdir h.2]
  · rw [if_neg hmarked, if_neg hmarked, if_neg fun h => hmarked h.1]

theorem placedAll_eq (poDict : PoDict) (config : Configuration) : placedAll poDict config =
    config.descendants.flatMap fun d =>
      if Top d.1 then misplaced poDict d.1 (getValue d.2) else asked poDict (trimNames d.1) (getValue d.2) :=
  List.flatMap_congr fun d _ => placed_eq poDict d.1 (getValue d.2)

theorem mem_renamed {dir : NodePtr} {name : Bytes} {w : NodePtr × Option Bytes}
    (h : w ∈ renamed poDict dir name value) : ∃ text, w.1 = dir ++ [text] := by
  rcases List.mem_cons.mp h with rfl | h
  · exact ⟨_, rfl⟩
  · obtain ⟨t, -, rfl⟩ := List.mem_map.mp h
    exact ⟨_, rfl⟩

/-- What is asked for a node is beside it. -/
theorem dropLast_of_mem_asked {w : NodePtr × Option Bytes} (h : w ∈ asked poDict ptr value) :
    w.1.dropLast = ptr.dropLast := by
  unfold asked at h
  split at h
  · obtain ⟨text, hw⟩ := mem_renamed h
    rw [hw, List.dropLast_concat]
  · rw [List.mem_singleton.mp h]

theorem mem_misplaced {w : NodePtr × Option Bytes} (h : w ∈ misplaced poDict ptr value) :
    ∃ text, w.1 = [ptr.getLastD [], text] := mem_renamed h

/-- A node has one thing asked for it with its own value. -/
theorem exists_mem_asked (poDict : PoDict) (ptr : NodePtr) (value : Option Bytes) :
    ∃ ks, (ks, value) ∈ asked poDict ptr value ∧ (Marked (ptr.getLastD []) →
      ks = ptr.dropLast ++ [(ptr.getLastD []).tail]) ∧ (¬ Marked (ptr.getLastD []) → ks = ptr) := by
  unfold asked
  by_cases hmarked : Marked (ptr.getLastD [])
  · rw [if_pos hmarked]
    exact ⟨_, List.mem_cons_self, fun _ => rfl, fun h => absurd hmarked h⟩
  · rw [if_neg hmarked]
    exact ⟨_, List.mem_cons_self, fun h => absurd h hmarked, fun _ => rfl⟩

/-- A name that is not the only one stays the first. -/
theorem head?_of_dropLast {ks js : NodePtr} (h : ks.dropLast = js.dropLast) (hjs : js.dropLast ≠ []) :
    ks.head? = js.head? := by
  cases js with
  | nil => exact absurd rfl hjs
  | cons k js =>
    cases js with
    | nil => exact absurd rfl hjs
    | cons j js =>
      cases ks with
      | nil => cases h
      | cons i ks =>
        cases ks with
        | nil => cases h
        | cons i' ks => exact congrArg some (List.cons.inj h).1

theorem Top.trimNames_eq (h : Top ptr) : trimNames ptr = [ptr.getLastD []] := by
  rcases List.eq_nil_or_concat' (trimNames ptr) with hnil | ⟨front, name, hconcat⟩
  · have hlast := getLastD_trimNames ptr
    rw [hnil] at hlast
    exact absurd hlast.symm h.1.ne_nil
  · have hlast := getLastD_trimNames ptr
    have hfront := h.2
    rw [hconcat, List.dropLast_concat] at hfront
    rw [hconcat, hfront] at hlast
    rw [hconcat, hfront, ← hlast]
    rfl

/-- **Every write** of a call starts with the first name of the node that is not empty. -/
theorem head?_of_mem_placed {w : NodePtr × Option Bytes} (h : w ∈ placed poDict ptr value) :
    w.1.head? = (trimNames ptr).head? := by
  rw [placed_eq] at h
  by_cases htop : Top ptr
  · rw [if_pos htop] at h
    obtain ⟨text, hw⟩ := mem_misplaced h
    rw [hw, htop.trimNames_eq]
    rfl
  · rw [if_neg htop] at h
    by_cases hmarked : Marked (ptr.getLastD [])
    · exact head?_of_dropLast (dropLast_of_mem_asked h) fun hdir => htop ⟨hmarked, hdir⟩
    · unfold asked at h
      rw [getLastD_trimNames, if_neg hmarked] at h
      rw [List.mem_singleton.mp h]

theorem placed_ne_nil (poDict : PoDict) (ptr : NodePtr) (value : Option Bytes) : placed poDict ptr value ≠ [] := by
  unfold placed renamed
  dsimp only
  split <;> exact List.cons_ne_nil _ _

/-! ### Nodes without a name -/

theorem Named.trimNames_eq (h : Named config) {d : NodePtr × Configuration} (hd : d ∈ config.descendants)
    (hasked : Marked (d.1.getLastD []) ∨ getValue d.2 ≠ none) : trimNames d.1 = d.1 := by
  apply trimNames_eq_self
  intro hhead
  obtain ⟨hvalue, hmarked⟩ := h d hd hhead
  rcases hasked with hasked | hasked
  · exact hmarked hasked
  · exact hasked hvalue

theorem Named.top_eq (h : Named config) {d : NodePtr × Configuration} (hd : d ∈ config.descendants)
    (htop : Top d.1) : d.1 = [d.1.getLastD []] := by
  rw [← htop.trimNames_eq, h.trimNames_eq hd (Or.inl htop.1)]

/-- What is above a node is a node. -/
theorem dropLast_mem_descendants (h : config.Distinct) {d : NodePtr × Configuration} (hd : d ∈ config.descendants)
    (hne : d.1.dropLast ≠ []) : ∃ u, (d.1.dropLast, u) ∈ config.descendants := by
  obtain ⟨hptr, hfind⟩ := (KeyTree.mem_descendants h).mp hd
  have hsplit : d.1 = d.1.dropLast ++ [d.1.getLast hptr] := (List.dropLast_append_getLast hptr).symm
  rw [hsplit, KeyTree.find_append] at hfind
  obtain ⟨u, hu, -⟩ := Option.bind_eq_some_iff.mp hfind
  exact ⟨u, (KeyTree.mem_descendants h).mpr ⟨hne, hu⟩⟩

/-- **The order of the walk**: the call for a top option comes before the calls that write where it writes. -/
theorem Named.pairwise (hnamed : Named config) (h : config.Distinct) :
    config.descendants.Pairwise fun d e => ¬ Top d.1 → Top e.1 →
      ∀ w ∈ asked poDict (trimNames d.1) (getValue d.2), ∀ w' ∈ misplaced poDict e.1 (getValue e.2), w.1 ≠ w'.1 := by
  refine (KeyTree.descendants_parents_first h).imp_of_mem ?_
  intro d e hd he hbefore hdtop hetop w hw w' hw' heq
  obtain ⟨text, hw'⟩ := mem_misplaced hw'
  have hdir : (trimNames d.1).dropLast = [e.1.getLastD []] := by
    rw [← dropLast_of_mem_asked hw, heq, hw']
    rfl
  have hne : trimNames d.1 ≠ [] := by
    intro h
    rw [h] at hdir
    cases hdir
  have hptr : d.1 = d.1.takeWhile (· = []) ++ [e.1.getLastD []] ++ [(trimNames d.1).getLast hne] := by
    rw [List.append_assoc, ← hdir, List.dropLast_append_getLast]
    exact List.takeWhile_append_dropWhile.symm
  cases hempty : d.1.takeWhile (· = []) with
  | nil =>
    -- the option is below the top one, which comes before it
    apply hbefore
    rw [hptr, hempty, hnamed.top_eq he hetop]
    exact List.prefix_append _ _
  | cons k front =>
    -- a marked option below an empty name
    have hk : k = [] := by
      have hmem : k ∈ d.1.takeWhile (· = []) := by
        rw [hempty]
        exact List.mem_cons_self
      simpa using List.mem_takeWhile_imp hmem
    have hparent : d.1.dropLast = [] :: (front ++ [e.1.getLastD []]) := by
      rw [hptr, hempty, hk, List.dropLast_concat]
      rfl
    obtain ⟨u, hu⟩ := dropLast_mem_descendants h hd (by rw [hparent]; exact List.cons_ne_nil _ _)
    apply (hnamed _ hu (by rw [hparent]; rfl)).2
    have hlast : d.1.dropLast.getLastD [] = e.1.getLastD [] := by
      rw [hparent, ← List.cons_append, List.getLastD_concat]
    rw [hlast]
    exact hetop.1

/-- **The values of the merged file**: what the options in their places write counts, and where they write nothing
what the top ones write. -/
theorem values_merged (hnamed : Named config) (h : config.Distinct) (ks : NodePtr) :
    lastAt (placedAll poDict config) ks =
      (lastAt (others poDict config) ks).or (lastAt (misplacedAll poDict config) ks) := by
  rw [placedAll_eq]
  exact lastAt_flatMap_early (fun d : NodePtr × Configuration => Top d.1) _ _ (hnamed.pairwise h) ks

/-- Something is asked for translated options, and for the ones with a value. -/
theorem marked_or_value {w : NodePtr × Option Bytes} (hw : w ∈ asked poDict ptr value)
    (hasked : Marked (ptr.getLastD []) ∨ w.2 ≠ none) : Marked (ptr.getLastD []) ∨ value ≠ none := by
  by_cases hmarked : Marked (ptr.getLastD [])
  · exact Or.inl hmarked
  · unfold asked at hw
    rw [if_neg hmarked, List.mem_singleton] at hw
    rw [hw] at hasked
    exact hasked

/-- What is asked for an option in its place is written there. -/
theorem mem_others (hnamed : Named config) {d : NodePtr × Configuration} (hd : d ∈ config.descendants)
    (htop : ¬ Top d.1) {w : NodePtr × Option Bytes} (hw : w ∈ asked poDict d.1 (getValue d.2))
    (hasked : Marked (d.1.getLastD []) ∨ w.2 ≠ none) : w ∈ others poDict config := by
  refine List.mem_flatMap.mpr ⟨d, hd, ?_⟩
  rw [if_neg htop, hnamed.trimNames_eq hd (marked_or_value hw hasked)]
  exact hw

/-- What is asked for a top option has one name, and top options write to two. -/
theorem lastAt_misplacedAll_top (hnamed : Named config) {d : NodePtr × Configuration} (hd : d ∈ config.descendants)
    (htop : Top d.1) {w : NodePtr × Option Bytes} (hw : w ∈ asked poDict d.1 (getValue d.2)) :
    lastAt (misplacedAll poDict config) w.1 = none := by
  apply lastAt_eq_none_iff.mpr
  intro w' hw' heq
  obtain ⟨e, -, hw'⟩ := List.mem_flatMap.mp hw'
  split at hw'
  · obtain ⟨text, hw'⟩ := mem_misplaced hw'
    have hdir := dropLast_of_mem_asked hw
    rw [← heq, hw', hnamed.top_eq hd htop] at hdir
    cases hdir
  · cases hw'

/-- What is asked for and not written by an option in its place is not written at all. -/
theorem values_asked (hnamed : Named config) (h : config.Distinct) {d : NodePtr × Configuration}
    (hd : d ∈ config.descendants) {w : NodePtr × Option Bytes} (hw : w ∈ asked poDict d.1 (getValue d.2))
    (hasked : Marked (d.1.getLastD []) ∨ w.2 ≠ none) :
    (lastAt (placedAll poDict config) w.1).join = (lastAt (others poDict config) w.1).join := by
  rw [values_merged hnamed h]
  cases hother : lastAt (others poDict config) w.1 with
  | some v => rfl
  | none =>
    have htop : Top d.1 := by
      by_contra htop
      exact lastAt_eq_none_iff.mp hother w (mem_others hnamed hd htop hw hasked) rfl
    rw [lastAt_misplacedAll_top hnamed hd htop hw]
    rfl

/-- The value of an option that is written somewhere was asked for, unless it is a top one. -/
theorem asked_of_mem_others (hnamed : Named config) {ks : NodePtr} {v : Bytes}
    (h : (ks, some v) ∈ others poDict config) :
    ∃ d ∈ config.descendants, (ks, some v) ∈ asked poDict d.1 (getValue d.2) := by
  obtain ⟨d, hd, hw⟩ := List.mem_flatMap.mp h
  split at hw
  · cases hw
  · have hasked := marked_or_value hw (Or.inr (Option.some_ne_none v))
    rw [getLastD_trimNames] at hasked
    rw [hnamed.trimNames_eq hd hasked] at hw
    exact ⟨d, hd, hw⟩

theorem others_subset (poDict : PoDict) (config : Configuration) :
    ∀ w ∈ others poDict config, w ∈ placedAll poDict config := by
  intro w hw
  obtain ⟨d, hd, hw⟩ := List.mem_flatMap.mp hw
  rw [placedAll_eq]
  refine List.mem_flatMap.mpr ⟨d, hd, ?_⟩
  by_cases htop : Top d.1
  · rw [if_pos htop] at hw
    cases hw
  · rw [if_neg htop] at hw ⊢
    exact hw

/-- What is asked without a value is the option under its new name. -/
theorem asked_none {w : NodePtr × Option Bytes} (hw : w ∈ asked poDict ptr value)
    (hmarked : Marked (ptr.getLastD [])) (hnone : w.2 = none) : w.1 = ptr.dropLast ++ [(ptr.getLastD []).tail] := by
  unfold asked at hw
  rw [if_pos hmarked] at hw
  rcases List.mem_cons.mp hw with rfl | hw
  · rfl
  · obtain ⟨t, -, rfl⟩ := List.mem_map.mp hw
    cases hnone

/-- **The merged file in terms of its writes.** -/
theorem merges_iff_writes (h : config.WellFormed) : Merges poDict config ↔
    (config.Walkable ∧ NoNull poDict config) ∧
    (∀ d ∈ config.descendants, ∀ w ∈ asked poDict d.1 (getValue d.2), Marked (d.1.getLastD []) ∨ w.2 ≠ none →
      (w.1 = [] ∨ ∃ w' ∈ placedAll poDict config, w.1 <+: w'.1) ∧
        (lastAt (placedAll poDict config) w.1).join = w.2) ∧
    ∀ ks v, (lastAt (placedAll poDict config) ks).join = some v →
      ∃ d ∈ config.descendants, (ks, some v) ∈ asked poDict d.1 (getValue d.2) := by
  obtain ⟨hends, hfaults⟩ := mergeTranslation_run poDict h
  constructor
  · intro ⟨newconfig, hrun, hasked, helse⟩
    have hok : config.Walkable ∧ NoNull poDict config := by
      by_contra hnot
      rw [hfaults hnot] at hrun
      cases hrun
    obtain ⟨newconfig', hrun', hvalues, hfind⟩ := hends hok
    obtain rfl : newconfig' = newconfig := Option.some.inj (hrun'.symm.trans hrun)
    refine ⟨hok, ?_, ?_⟩
    · intro d hd w hw hwanted
      obtain ⟨hthere, hvalue⟩ := hasked d hd w hw hwanted
      exact ⟨(hfind w.1).mp hthere, (hvalues w.1).symm.trans hvalue⟩
    · intro ks v hv
      exact helse ks v ((hvalues ks).trans hv)
  · intro ⟨hok, hasked, helse⟩
    obtain ⟨newconfig, hrun, hvalues, hfind⟩ := hends hok
    refine ⟨newconfig, hrun, ?_, ?_⟩
    · intro d hd w hw hwanted
      obtain ⟨hthere, hvalue⟩ := hasked d hd w hw hwanted
      exact ⟨(hfind w.1).mpr hthere, (hvalues w.1).trans hvalue⟩
    · intro ks v hv
      exact helse ks v ((hvalues ks).symm.trans hv)

/-- The first name of a node makes the start of a path. -/
theorem prefix_of_head? {ks : NodePtr} {k : Bytes} (h : ks.head? = some k) : [k] <+: ks := by
  obtain ⟨rest, hrest⟩ := List.head?_eq_some_iff.mp h
  rw [hrest]
  exact List.prefix_append [k] rest

/-- **The condition is enough.** -/
theorem Mergeable.merges (hm : Mergeable poDict config) (h : config.WellFormed) : Merges poDict config := by
  refine (merges_iff_writes h).mpr ⟨⟨hm.walkable, hm.noNull⟩, ?_, ?_⟩
  · intro d hd w hw hasked
    have hvalue : (lastAt (placedAll poDict config) w.1).join = w.2 := by
      rw [values_asked hm.named h.distinct hd hw hasked]
      exact hm.last d hd w hw hasked
    refine ⟨Or.inr ?_, hvalue⟩
    cases hw2 : w.2 with
    | some v =>
      rw [hw2] at hvalue
      exact ⟨_, mem_of_lastAt (Option.join_eq_some_iff.mp hvalue), List.prefix_rfl⟩
    | none =>
      have hmarked : Marked (d.1.getLastD []) := hasked.resolve_right fun hne => hne hw2
      by_cases htop : Top d.1
      · obtain ⟨d', hd', hhead⟩ := hm.shown d hd htop
        obtain ⟨w', hw'⟩ := List.exists_mem_of_ne_nil _ (placed_ne_nil poDict d'.1 (getValue d'.2))
        refine ⟨w', List.mem_flatMap.mpr ⟨d', hd', hw'⟩, ?_⟩
        have hfirst : w.1 = [(d.1.getLastD []).tail] := by
          rw [asked_none hw hmarked hw2, hm.named.top_eq hd htop]
          rfl
        rw [hfirst]
        exact prefix_of_head? ((head?_of_mem_placed hw').trans hhead)
      · exact ⟨w, others_subset poDict config w (mem_others hm.named hd htop hw hasked), List.prefix_rfl⟩
  · intro ks v hv
    rw [values_merged hm.named h.distinct] at hv
    cases hother : lastAt (others poDict config) ks with
    | some x =>
      rw [hother] at hv
      obtain rfl : x = some v := hv
      exact asked_of_mem_others hm.named (mem_of_lastAt hother)
    | none =>
      -- a top option writes the value, and another one would write there too
      rw [hother, Option.none_or] at hv
      have hlast : lastAt (misplacedAll poDict config) ks = some (some v) := Option.join_eq_some_iff.mp hv
      obtain ⟨d, hd, hw⟩ := List.mem_flatMap.mp (mem_of_lastAt hlast)
      split at hw
      · next htop =>
        obtain ⟨w', hw', heq⟩ := hm.covered d hd htop _ hw (Option.some_ne_none v)
        exact absurd heq (lastAt_eq_none_iff.mp hother w' hw')
      · cases hw

/-! ### The converse -/

/-- Nothing is asked for where no call writes. -/
theorem Merges.named (h : config.WellFormed) (hm : Merges poDict config) : Named config := by
  obtain ⟨-, hasked, -⟩ := (merges_iff_writes h).mp hm
  intro d hd hhead
  have hnot : ∀ w ∈ asked poDict d.1 (getValue d.2), w.1.head? = some [] →
      ¬ (Marked (d.1.getLastD []) ∨ w.2 ≠ none) := by
    intro w hw hempty hwanted
    rcases (hasked d hd w hw hwanted).1 with hnil | ⟨w', hw', rest, hrest⟩
    · rw [hnil] at hempty
      cases hempty
    · obtain ⟨d', -, hw'⟩ := List.mem_flatMap.mp hw'
      apply head?_trimNames d'.1
      rw [← head?_of_mem_placed hw', ← hrest, List.head?_append, hempty]
      rfl
  obtain ⟨ks, hks, hmarkedAt, hplainAt⟩ := exists_mem_asked poDict d.1 (getValue d.2)
  by_cases hmarked : Marked (d.1.getLastD [])
  · -- the new name is below the empty one
    have hdir : d.1.dropLast ≠ [] := by
      intro hdir
      obtain ⟨rest, hrest⟩ := List.head?_eq_some_iff.mp hhead
      cases rest with
      | nil =>
        rw [hrest] at hmarked
        exact hmarked.ne_nil rfl
      | cons k rest =>
        rw [hrest] at hdir
        cases hdir
    have hfirst : ks.head? = some [] := by
      rw [head?_of_dropLast (dropLast_of_mem_asked hks) hdir, hhead]
    exact absurd (Or.inl hmarked) (hnot _ hks hfirst)
  · have hfirst : ks.head? = some [] := by rw [hplainAt hmarked, hhead]
    refine ⟨?_, hmarked⟩
    by_contra hvalue
    exact hnot _ hks hfirst (Or.inr hvalue)

/-- The values of a translated option are all there, or there is only its own. -/
theorem misplaced_value {w w' : NodePtr × Option Bytes} (hw : w ∈ misplaced poDict ptr value)
    (hw' : w' ∈ misplaced poDict ptr value) (hsome : w.2 ≠ none) : w'.2 ≠ none := by
  cases value with
  | some v =>
    rcases List.mem_cons.mp hw' with rfl | hw'
    · exact Option.some_ne_none v
    · obtain ⟨t, -, rfl⟩ := List.mem_map.mp hw'
      exact Option.some_ne_none t.2
  | none =>
    have htexts : textsIn poDict.dict.items none = [] := by
      apply List.filterMap_eq_nil_iff.mpr
      intro e _
      rfl
    unfold misplaced renamed at hw
    rw [htexts] at hw
    rw [List.mem_singleton.mp hw] at hsome
    exact absurd rfl hsome

/-- Where a top option writes a value, no top option writes that there is none. -/
theorem misplacedAll_value (hnamed : Named config) (h : config.Distinct) {d : NodePtr × Configuration}
    (hd : d ∈ config.descendants) (htop : Top d.1) {w : NodePtr × Option Bytes}
    (hw : w ∈ misplaced poDict d.1 (getValue d.2)) (hsome : w.2 ≠ none) {x : Option Bytes}
    (hx : lastAt (misplacedAll poDict config) w.1 = some x) : x ≠ none := by
  obtain ⟨e, he, hw'⟩ := List.mem_flatMap.mp (mem_of_lastAt hx)
  split at hw'
  · next hetop =>
    obtain ⟨text, htext⟩ := mem_misplaced hw
    obtain ⟨text', htext'⟩ := mem_misplaced hw'
    have hname : d.1.getLastD [] = e.1.getLastD [] := (List.cons.inj (htext.symm.trans htext')).1
    have hptr : d.1 = e.1 := by
      rw [hnamed.top_eq hd htop, hnamed.top_eq he hetop, hname]
    have hsame : d.2 = e.2 := by
      have hdfind := ((KeyTree.mem_descendants h).mp hd).2
      have hefind := ((KeyTree.mem_descendants h).mp he).2
      rw [hptr, hefind] at hdfind
      exact (Option.some.inj hdfind).symm
    rw [← hptr, ← hsame] at hw'
    exact misplaced_value hw hw' hsome
  · cases hw'

/-- **The condition is needed.** -/
theorem Merges.mergeable (h : config.WellFormed) (hm : Merges poDict config) : Mergeable poDict config := by
  have hnamed := hm.named h
  obtain ⟨⟨hwalkable, hnull⟩, hasked, helse⟩ := (merges_iff_writes h).mp hm
  refine ⟨hwalkable, hnull, hnamed, ?last, ?covered, ?shown⟩
  case last =>
    intro d hd w hw hwanted
    rw [← values_asked hnamed h.distinct hd hw hwanted]
    exact (hasked d hd w hw hwanted).2
  case covered =>
    intro d hd htop w hw hsome
    by_contra hnone
    have hother : lastAt (others poDict config) w.1 = none :=
      lastAt_eq_none_iff.mpr fun w' hw' heq => hnone ⟨w', hw', heq⟩
    have hmem : w ∈ misplacedAll poDict config := by
      refine List.mem_flatMap.mpr ⟨d, hd, ?_⟩
      rw [if_pos htop]
      exact hw
    obtain ⟨x, hx⟩ : ∃ x, lastAt (misplacedAll poDict config) w.1 = some x := by
      rw [← Option.ne_none_iff_exists']
      intro hlast
      exact lastAt_eq_none_iff.mp hlast w hmem rfl
    obtain ⟨y, rfl⟩ := Option.ne_none_iff_exists'.mp (misplacedAll_value hnamed h.distinct hd htop hw hsome hx)
    have hvalue : (lastAt (placedAll poDict config) w.1).join = some y := by
      rw [values_merged hnamed h.distinct, hother, Option.none_or, hx]
      rfl
    -- what has two names is not asked for a top option
    obtain ⟨e, he, hw'⟩ := helse w.1 y hvalue
    have hetop : ¬ Top e.1 := by
      intro hetop
      obtain ⟨text, htext⟩ := mem_misplaced hw
      have hdir := dropLast_of_mem_asked hw'
      rw [htext, hnamed.top_eq he hetop] at hdir
      cases hdir
    exact hnone ⟨_, mem_others hnamed he hetop hw' (Or.inr (Option.some_ne_none y)), rfl⟩
  case shown =>
    intro d hd htop
    obtain ⟨ks, hks, hmarkedAt, -⟩ := exists_mem_asked poDict d.1 (getValue d.2)
    have hks' : ks = [(d.1.getLastD []).tail] := by
      rw [hmarkedAt htop.1, hnamed.top_eq hd htop]
      rfl
    rcases (hasked d hd _ hks (Or.inl htop.1)).1 with hnil | ⟨w', hw', rest, hrest⟩
    · rw [hks'] at hnil
      cases hnil
    · obtain ⟨d', hd', hw'⟩ := List.mem_flatMap.mp hw'
      refine ⟨d', hd', ?_⟩
      rw [← head?_of_mem_placed hw', ← hrest, hks']
      rfl

/-- **Merging translations.** The file that is written has what is asked for every option, and nothing else, if and
only if the file is mergeable. -/
theorem merges_iff (h : config.WellFormed) : Merges poDict config ↔ Mergeable poDict config :=
  ⟨Merges.mergeable h, fun hm => hm.merges h⟩

/-- `{"de": {"V": "W"}}` -/
def germanDict : PoDict where
  dict := ⟨[([100, 101], ⟨[([86], [87])], 1⟩)], 1⟩
  fileNames := by decide
  strings := by decide

/-- `k/_N=V` in the file, with a German `W` for `V`. -/
theorem merges_iff_group :
    Merges germanDict ((Configuration.new none).setValueByPath [107, 47, 95, 78] (some [86])) := by
  have htree : (Configuration.new none).setValueByPath [107, 47, 95, 78] (some [86]) =
      .node ⟨none, none, none⟩ (some [([107], .node ⟨some [107], none, none⟩
        (some [([95, 78], .node ⟨some [95, 78], some [86], none⟩ none)]))]) := by
    simp [Configuration.setValueByPath, Configuration._get, Configuration.getLoop, skipSlash, segOf, strchrnulSlash,
      slash, Configuration.new, KeyTree.find, KeyTree.child, KeyTree.entries, KeyTree.children, KeyTree.modify,
      KeyTree.insertChild, Configuration.setValue, KeyTree.setData, KeyTree.data, stringSwap, Assoc.modify]
  have hroot : ((Configuration.new none).setValueByPath [107, 47, 95, 78] (some [86])).WellFormed :=
    (wellFormed_new none).setValueByPath (by decide) _
  refine (merges_iff hroot).mpr ?_
  rw [htree]
  refine ⟨walkable_of_names (by decide), ?_, ?_, by decide, by decide, by decide⟩
  · unfold NoNull LooksUpNull Marked
    decide
  · unfold Named Marked
    decide

/-- `_N=V` in the file: the value is at `_N/N`. -/
theorem not_merges_top :
    let root := (Configuration.new none).setValueByPath [95, 78] (some [86])
    root.WellFormed ∧ ¬ Merges germanDict root := by
  intro root
  have hroot : root.WellFormed := (wellFormed_new none).setValueByPath (by decide) _
  have htree : root = .node ⟨none, none, none⟩ (some [([95, 78], .node ⟨some [95, 78], some [86], none⟩ none)]) := by
    simp [root, Configuration.setValueByPath, Configuration._get, Configuration.getLoop, skipSlash, segOf,
      strchrnulSlash, slash, Configuration.new, KeyTree.find, KeyTree.child, KeyTree.entries, KeyTree.children,
      KeyTree.modify, KeyTree.insertChild, Configuration.setValue, KeyTree.setData, KeyTree.data, stringSwap,
      Assoc.modify]
  refine ⟨hroot, fun hm => ?_⟩
  obtain ⟨-, hasked, -⟩ := (merges_iff_writes hroot).mp hm
  rw [htree] at hasked
  have hvalue := (hasked _ (List.mem_singleton.mpr rfl) ([[78]], some [86]) (by decide) (Or.inl rfl)).2
  revert hvalue
  decide

end Fcitx
