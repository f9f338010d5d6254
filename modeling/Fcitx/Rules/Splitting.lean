/-
# The handlers and the splitting of texts

Between two texts the handlers of `fcitx/rules.c` have the rules that a handler
with a buffer has, whatever the parser did, exactly as long as the calls for each
text are clean.

Key definitions: `AllClean`, `RulesLaw`.
Key theorems: `follows_of_clean`, `rulesLaw_iff`, `run_eq_of_mergeRuns`.
-/
import Fcitx.Rules.Accumulate

namespace Fcitx

/-- The calls for each text are clean. -/
def AllClean (events : List RulesEvent) : Prop := ∀ element ∈ textElements events, element.1.kind.Clean element.2

instance allCleanDecidable (events : List RulesEvent) : Decidable (AllClean events) :=
  inferInstanceAs (Decidable (∀ element ∈ textElements events, element.1.kind.Clean element.2))

/-- No text is open. -/
def BetweenTexts (events : List RulesEvent) : Prop := (TextScan.of events).chunks = none

/-- The rules after any part of a file that ends between two texts depend on the whole texts only, and
are those that a handler with a buffer reads. -/
def RulesLaw (events : List RulesEvent) : Prop :=
  ∀ before after, events = before ++ after → BetweenTexts before →
    (RulesHandler.run before).map RulesHandler.rules = (accumulate (mergeRuns before)).map Accumulator.rules

theorem run_concat (events : List RulesEvent) (event : RulesEvent) :
    RulesHandler.run (events ++ [event]) = (RulesHandler.run events).bind fun handler => handler.step event := by
  rw [RulesHandler.run, List.foldlM_append]
  refine Option.bind_congr fun handler _ => ?_
  exact Option.bind_fun_some _

theorem accumulate_concat (events : List RulesEvent) (event : RulesEvent) :
    accumulate (events ++ [event]) = (accumulate events).bind fun acc => acc.step event := by
  rw [accumulate, List.foldlM_append]
  refine Option.bind_congr fun acc _ => ?_
  exact Option.bind_fun_some _

theorem closed_characters (scan : TextScan) (ch : Bytes) : (scan.step (.characters ch)).closed = scan.closed := by
  rw [TextScan.step]
  split <;> rfl

/-- The texts of a part of a file. -/
theorem closed_step (scan : TextScan) (event : RulesEvent) : scan.closed <+: (scan.step event).closed := by
  cases event with
  | startElement name atts => exact List.prefix_refl _
  | characters ch =>
    rw [closed_characters]
  | endElement name =>
    rw [TextScan.step]
    split
    · exact List.prefix_append _ _
    · exact List.prefix_refl _

theorem AllClean.of_append {before after : List RulesEvent} (h : AllClean (before ++ after)) : AllClean before := by
  induction after using List.reverseRecOn with
  | nil => rwa [List.append_nil] at h
  | append_singleton after event ih =>
    refine ih fun element helement => h element ?_
    rw [textElements, ← List.append_assoc, TextScan.of_concat]
    exact (closed_step _ event).subset helement

theorem WellFormed.of_append {before after : List RulesEvent} (h : WellFormed (before ++ after)) :
    WellFormed before := by
  induction after using List.reverseRecOn with
  | nil => rwa [List.append_nil] at h
  | append_singleton after event ih =>
    rw [← List.append_assoc] at h
    exact ih (wellFormedFrom_concat h).1

/-- **One call**, when the calls for the texts before are clean. -/
theorem follows_step {events : List RulesEvent} {event : RulesEvent} {handler : RulesHandler} {acc : Accumulator}
    (hadm : Admissible acc event) (h : Follows handler acc (TextScan.of events)) :
    ∃ handler' acc', handler.step event = some handler' ∧ acc.step event = some acc' ∧
      (Follows handler' acc' (TextScan.of (events ++ [event])) ∧
          textElements (events ++ [event]) = textElements events ∨
        ∃ field chunks, BetweenTexts (events ++ [event]) ∧
          textElements (events ++ [event]) = textElements events ++ [(field, chunks)] ∧
          (handler'.rules = acc'.rules ↔ field.kind.Clean chunks) ∧
          (field.kind.Clean chunks → Follows handler' acc' (TextScan.of (events ++ [event])))) := by
  unfold textElements BetweenTexts
  rw [TextScan.of_concat]
  cases event with
  | startElement name atts =>
    obtain ⟨handler', acc', hstep, hacc, hfollows⟩ := h.start hadm
    exact ⟨handler', acc', hstep, hacc, Or.inl ⟨hfollows, rfl⟩⟩
  | characters ch =>
    obtain ⟨handler', hstep, hfollows⟩ := h.characters hadm
    exact ⟨handler', acc.characters ch, hstep, rfl, Or.inl ⟨hfollows, closed_characters _ ch⟩⟩
  | endElement name =>
    cases hfield : fieldAt acc.path with
    | none =>
      obtain ⟨hacc, hclosed, hfollows⟩ := h.finish_other hadm hfield name
      exact ⟨handler.rulesHandlerEndElement, _, rfl, hacc, Or.inl ⟨hfollows, hclosed⟩⟩
    | some field =>
      obtain ⟨chunks, acc', hacc, hscan, hiff, hfollows⟩ := h.finish_text hadm hfield name
      refine ⟨handler.rulesHandlerEndElement, acc', rfl, hacc, Or.inr ⟨field, chunks, ?_⟩⟩
      rw [hscan]
      exact ⟨rfl, rfl, hiff, hfollows⟩

/-- **Both handlers** on a well-formed file with clean calls. -/
theorem follows_of_clean {events : List RulesEvent} (hwell : WellFormed events) (hclean : AllClean events) :
    ∃ handler acc, RulesHandler.run events = some handler ∧ accumulate events = some acc ∧
      Follows handler acc (TextScan.of events) := by
  induction events using List.reverseRecOn with
  | nil => exact ⟨_, _, rfl, rfl, follows_new⟩
  | append_singleton events event ih =>
    obtain ⟨handler, acc, hrun, hacc, hfollows⟩ := ih hwell.of_append hclean.of_append
    obtain ⟨handler', acc', hstep, hacc', hcases⟩ :=
      follows_step ((wellFormedFrom_concat hwell).2 acc hacc) hfollows
    refine ⟨handler', acc', ?_, ?_, ?_⟩
    · rw [run_concat, hrun]
      exact hstep
    · rw [accumulate_concat, hacc]
      exact hacc'
    · rcases hcases with ⟨hfollows', -⟩ | ⟨field, chunks, -, htexts, -, hfollows'⟩
      · exact hfollows'
      · refine hfollows' (hclean (field, chunks) ?_)
        rw [htexts]
        exact List.mem_concat_self

/-- Between two texts the rules agree. -/
theorem rules_of_clean {events : List RulesEvent} (hwell : WellFormed events) (hclean : AllClean events)
    (hbetween : BetweenTexts events) :
    (RulesHandler.run events).map RulesHandler.rules = (accumulate (mergeRuns events)).map Accumulator.rules := by
  obtain ⟨handler, acc, hrun, hacc, hfollows⟩ := follows_of_clean hwell hclean
  have hrules := hfollows.rules
  rw [show (TextScan.of events).chunks = none from hbetween] at hrules
  rw [accumulate_mergeRuns, hrun, hacc]
  exact hrules

/-- **Reading a rules file**: the rules depend on the whole texts only, and have them trimmed, exactly when
the calls for each text are clean. -/
theorem rulesLaw_iff {events : List RulesEvent} (hwell : WellFormed events) : RulesLaw events ↔ AllClean events := by
  constructor
  · intro hlaw
    induction events using List.reverseRecOn with
    | nil => exact fun element helement => absurd helement List.not_mem_nil
    | append_singleton events event ih =>
      have hclean : AllClean events := by
        refine ih hwell.of_append fun before after heq hbetween => ?_
        exact hlaw before (after ++ [event]) (by rw [heq, List.append_assoc]) hbetween
      obtain ⟨handler, acc, hrun, hacc, hfollows⟩ := follows_of_clean hwell.of_append hclean
      obtain ⟨handler', acc', hstep, hacc', hcases⟩ :=
        follows_step ((wellFormedFrom_concat hwell).2 acc hacc) hfollows
      unfold AllClean
      rcases hcases with ⟨-, htexts⟩ | ⟨field, chunks, hbetween, htexts, hiff, -⟩
      · rw [htexts]
        exact hclean
      · -- the law at the end of this text
        have hend := hlaw _ [] (List.append_nil _).symm hbetween
        rw [accumulate_mergeRuns, run_concat, hrun, accumulate_concat, hacc, Option.bind_some, Option.bind_some,
          hstep, hacc', Option.map_some, Option.map_some, Option.some_inj] at hend
        rw [htexts]
        intro element helement
        rcases List.mem_append.mp helement with helement | helement
        · exact hclean element helement
        · rw [List.mem_singleton.mp helement]
          exact hiff.mp hend
  · rintro hclean before after rfl hbetween
    exact rules_of_clean hwell.of_append hclean.of_append hbetween

/-- A rules file with one layout, its name split into calls. -/
def layoutFile (chunks : List String) : List RulesEvent :=
  ["xkbConfigRegistry", "layoutList", "layout", "configItem", "name"].map
      (fun name => RulesEvent.startElement name.toUTF8.toList []) ++
    chunks.map (fun ch => RulesEvent.characters ch.toUTF8.toList) ++
    ["name", "configItem", "layout", "layoutList", "xkbConfigRegistry"].map
      fun name => RulesEvent.endElement name.toUTF8.toList

/-- `rulesLaw_iff` where the law holds. -/
theorem rulesLaw_iff_us : RulesLaw (layoutFile ["\n ", "us\n"]) :=
  (rulesLaw_iff (by decide +kernel)).mpr (by decide +kernel)

/-- The names of the layouts that are read from a file. -/
def layoutNames (events : List RulesEvent) : Option (List (Option Bytes)) :=
  (RulesHandler.run events).map fun handler => handler.rules.layoutInfos.map XkbLayoutInfo.name

/-- The name of a layout in two calls, and with white space in front. -/
theorem not_rulesLaw_split :
    WellFormed (layoutFile ["us"]) ∧ WellFormed (layoutFile ["u", "s"]) ∧ WellFormed (layoutFile [" us"]) ∧
      mergeRuns (layoutFile ["u", "s"]) = mergeRuns (layoutFile ["us"]) ∧
      layoutNames (layoutFile ["us"]) = some [some "us".toUTF8.toList] ∧
      layoutNames (layoutFile ["u", "s"]) = some [some "s".toUTF8.toList] ∧
      layoutNames (layoutFile [" us"]) = some [some " us".toUTF8.toList] ∧
      ¬ RulesLaw (layoutFile ["u", "s"]) ∧ ¬ RulesLaw (layoutFile [" us"]) := by
  refine ⟨by decide +kernel, by decide +kernel, by decide +kernel, by decide +kernel, by decide +kernel,
    by decide +kernel, by decide +kernel, fun hlaw => ?_, fun hlaw => ?_⟩
  · have hend := hlaw _ [] (List.append_nil _).symm
      (show (TextScan.of (layoutFile ["u", "s"])).chunks = none by decide +kernel)
    exact absurd hend (by decide +kernel)
  · have hend := hlaw _ [] (List.append_nil _).symm
      (show (TextScan.of (layoutFile [" us"])).chunks = none by decide +kernel)
    exact absurd hend (by decide +kernel)

/-- Two ways to split the texts of a file, both clean, give the same rules. -/
theorem run_eq_of_mergeRuns {events events' : List RulesEvent} (hwell : WellFormed events)
    (hwell' : WellFormed events')
    (hclean : AllClean events) (hclean' : AllClean events') (hbetween : BetweenTexts events)
    (hbetween' : BetweenTexts events') (hmerge : mergeRuns events = mergeRuns events') :
    (RulesHandler.run events).map RulesHandler.rules = (RulesHandler.run events').map RulesHandler.rules := by
  rw [rules_of_clean hwell hclean hbetween, rules_of_clean hwell' hclean' hbetween', hmerge]

end Fcitx
