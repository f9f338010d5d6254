/-
# Reading a rules file with a buffer

What the handlers of `fcitx/rules.c` are for: a text of the rules is the
white-space-trimmed text of a whole element, stored when the element ends. The
parser may split the text of an element into any number of calls, which the
buffer puts together again.

Key definitions: `Accumulator`, `accumulate`, `mergeRuns`, `TextScan`, `WellFormed`.
Key theorems: `accumulate_mergeRuns`, `Follows.step`.
-/
import Fcitx.Rules.Chunks
import Mathlib.Data.List.Infix

namespace Fcitx

/-- A handler with a buffer. -/
structure Accumulator where
  path : List Bytes
  /-- the element with a text that is open, and its text so far -/
  text : Option (TextField × Bytes)
  rules : XkbRules
  deriving DecidableEq

/-- The text that an element at a path has for the rules. -/
def fieldAt (path : List Bytes) : Option TextField := textField (joinPath path)

namespace Accumulator

/-- Store the text of a whole element. -/
def storeWhole (rules : XkbRules) (text : Bytes) (field : TextField) : Option XkbRules :=
  if inplaceTrim text = [] then some rules else storeText rules (inplaceTrim text) field

/-- The start of an element. -/
def start (acc : Accumulator) (name : Bytes) (atts : List (Bytes × Bytes)) : Option Accumulator :=
  let path := acc.path ++ [name]
  (startElement (joinPath path) atts acc.rules).map fun rules =>
    ⟨path, ((fieldAt path).map fun field => (field, [])).or acc.text, rules⟩

/-- Characters. -/
def characters (acc : Accumulator) (ch : Bytes) : Accumulator :=
  if (fieldAt acc.path).isSome then { acc with text := acc.text.map fun open' => (open'.1, open'.2 ++ ch) } else acc

/-- The end of an element. -/
def finish (acc : Accumulator) : Option Accumulator :=
  match fieldAt acc.path, acc.text with
  | some _, some (field, text) =>
    (storeWhole acc.rules text field).map fun rules => ⟨acc.path.dropLast, none, rules⟩
  | _, _ => some { acc with path := acc.path.dropLast }

/-- One call. -/
def step (acc : Accumulator) : RulesEvent → Option Accumulator
  | .startElement name atts => acc.start name atts
  | .characters ch => some (acc.characters ch)
  | .endElement _ => acc.finish

/-- At the start of a file. -/
def new : Accumulator := ⟨[], none, XkbRules.new⟩

end Accumulator

/-- Read a file with a buffer. -/
def accumulate (events : List RulesEvent) : Option Accumulator := events.foldlM Accumulator.step .new

/-! ### Splitting the text -/

/-- Put a text in front. -/
def consCharacters (ch : Bytes) : List RulesEvent → List RulesEvent
  | .characters ch' :: events => .characters (ch ++ ch') :: events
  | events => if ch = [] then events else .characters ch :: events

/-- Every text in one piece. -/
def mergeRuns : List RulesEvent → List RulesEvent
  | [] => []
  | .characters ch :: events => consCharacters ch (mergeRuns events)
  | event :: events => event :: mergeRuns events

theorem Accumulator.characters_nil (acc : Accumulator) : acc.characters [] = acc := by
  unfold characters
  split
  · rcases acc with ⟨path, text, rules⟩
    cases text with
    | none => rfl
    | some open' => simp
  · rfl

theorem Accumulator.characters_append (acc : Accumulator) (ch ch' : Bytes) :
    (acc.characters ch).characters ch' = acc.characters (ch ++ ch') := by
  unfold characters
  by_cases hfield : (fieldAt acc.path).isSome = true
  · rw [if_pos hfield]
    dsimp only
    rw [if_pos hfield, if_pos hfield]
    cases acc.text with
    | none => rfl
    | some open' => simp
  · rw [if_neg hfield, if_neg hfield, if_neg hfield]

theorem foldlM_consCharacters (acc : Accumulator) (ch : Bytes) (events : List RulesEvent) :
    (consCharacters ch events).foldlM Accumulator.step acc = events.foldlM Accumulator.step (acc.characters ch) := by
  have hother : (if ch = [] then events else .characters ch :: events).foldlM Accumulator.step acc =
      events.foldlM Accumulator.step (acc.characters ch) := by
    split
    · next hch => rw [hch, acc.characters_nil]
    · rfl
  cases events with
  | nil => exact hother
  | cons event events =>
    cases event with
    | characters ch' =>
      show events.foldlM Accumulator.step (acc.characters (ch ++ ch')) = _
      rw [← acc.characters_append]
      rfl
    | startElement name atts => exact hother
    | endElement name => exact hother

/-- **With a buffer it does not matter** how a text is split. -/
theorem accumulate_mergeRuns (events : List RulesEvent) : accumulate (mergeRuns events) = accumulate events := by
  have hfrom : ∀ acc, (mergeRuns events).foldlM Accumulator.step acc = events.foldlM Accumulator.step acc := by
    induction events with
    | nil => exact fun _ => rfl
    | cons event events ih =>
      intro acc
      cases event with
      | characters ch =>
        show (consCharacters ch (mergeRuns events)).foldlM Accumulator.step acc = _
        rw [foldlM_consCharacters, ih]
        rfl
      | startElement name atts =>
        show ((acc.start name atts).bind fun acc => (mergeRuns events).foldlM Accumulator.step acc) = _
        simp only [ih]
        rfl
      | endElement name =>
        show (acc.finish.bind fun acc => (mergeRuns events).foldlM Accumulator.step acc) = _
        simp only [ih]
        rfl
  exact hfrom _

/-! ### Well-formed files -/

/-- The conditions of `RulesHandlerStartElement`. -/
def opensInfo (strPath : Bytes) : Bool :=
  endsWith strPath "layoutList/layout/configItem".toUTF8.toList ||
  endsWith strPath "layoutList/layout/variantList/variant".toUTF8.toList ||
  endsWith strPath "modelList/model".toUTF8.toList ||
  endsWith strPath "optionList/group".toUTF8.toList ||
  endsWith strPath "optionList/group/option".toUTF8.toList ||
  strPath = "xkbConfigRegistry".toUTF8.toList

/-- A call that a rules file leads to. An element of interest is not inside a text, and what it belongs
to is there; a text has no NUL. -/
def Admissible (acc : Accumulator) : RulesEvent → Prop
  | .startElement name atts =>
    let path := acc.path ++ [name]
    if acc.text.isSome then opensInfo (joinPath path) = false ∧ fieldAt path = none
    else ∃ rules ∈ startElement (joinPath path) atts acc.rules,
      ∀ field ∈ fieldAt path, (field.slot.get rules).isSome = true
  | .characters ch => 0 ∉ ch
  | .endElement _ => acc.path ≠ []

instance admissibleDecidable (acc : Accumulator) : (event : RulesEvent) → Decidable (Admissible acc event)
  | .startElement name atts =>
    inferInstanceAs (Decidable (if acc.text.isSome then
        opensInfo (joinPath (acc.path ++ [name])) = false ∧ fieldAt (acc.path ++ [name]) = none
      else ∃ rules ∈ startElement (joinPath (acc.path ++ [name])) atts acc.rules,
        ∀ field ∈ fieldAt (acc.path ++ [name]), (field.slot.get rules).isSome = true))
  | .characters ch => inferInstanceAs (Decidable (0 ∉ ch))
  | .endElement _ => inferInstanceAs (Decidable (acc.path ≠ []))

/-- All calls are admissible. -/
def wellFormedFrom (acc : Accumulator) : List RulesEvent → Prop
  | [] => True
  | event :: events => Admissible acc event ∧ ∀ acc' ∈ acc.step event, wellFormedFrom acc' events

instance wellFormedFromDecidable : (events : List RulesEvent) → (acc : Accumulator) →
    Decidable (wellFormedFrom acc events)
  | [], _ => .isTrue trivial
  | event :: events, acc =>
    have := fun acc' => wellFormedFromDecidable events acc'
    inferInstanceAs (Decidable (Admissible acc event ∧ ∀ acc' ∈ acc.step event, wellFormedFrom acc' events))

/-- The calls for a well-formed rules file. -/
def WellFormed (events : List RulesEvent) : Prop := wellFormedFrom .new events

instance wellFormedDecidable (events : List RulesEvent) : Decidable (WellFormed events) :=
  inferInstanceAs (Decidable (wellFormedFrom _ _))

/-! ### The texts of a file -/

/-- The elements with a text: the open one, and those that have ended. -/
structure TextScan where
  path : List Bytes
  chunks : Option (TextField × List Bytes)
  closed : List (TextField × List Bytes)

namespace TextScan

/-- One call. -/
def step (scan : TextScan) : RulesEvent → TextScan
  | .startElement name _ =>
    let path := scan.path ++ [name]
    { scan with path := path, chunks := ((fieldAt path).map fun field => (field, [])).or scan.chunks }
  | .characters ch =>
    if (fieldAt scan.path).isSome then
      { scan with chunks := scan.chunks.map fun open' => (open'.1, open'.2 ++ [ch]) }
    else scan
  | .endElement _ =>
    if (fieldAt scan.path).isSome then ⟨scan.path.dropLast, none, scan.closed ++ scan.chunks.toList⟩
    else { scan with path := scan.path.dropLast }

/-- The elements with a text of a list of calls. -/
def of (events : List RulesEvent) : TextScan := events.foldl step ⟨[], none, []⟩

theorem of_concat (events : List RulesEvent) (event : RulesEvent) :
    of (events ++ [event]) = (of events).step event := by
  rw [of, List.foldl_append]
  rfl

end TextScan

/-- The elements with a text that have ended, each with the calls for its text. -/
def textElements (events : List RulesEvent) : List (TextField × List Bytes) := (TextScan.of events).closed


/-- What comes first in a well-formed file. -/
theorem wellFormedFrom_concat {acc : Accumulator} {events : List RulesEvent} {event : RulesEvent}
    (h : wellFormedFrom acc (events ++ [event])) : wellFormedFrom acc events ∧
      ∀ acc' ∈ events.foldlM Accumulator.step acc, Admissible acc' event := by
  induction events generalizing acc with
  | nil =>
    refine ⟨trivial, fun acc' hacc => ?_⟩
    obtain rfl := Option.some.inj hacc
    exact h.1
  | cons event' events ih =>
    refine ⟨⟨h.1, fun acc' hacc => (ih (h.2 acc' hacc)).1⟩, fun acc' hacc => ?_⟩
    rw [List.foldlM_cons] at hacc
    obtain ⟨next, hnext, hrest⟩ := Option.bind_eq_some_iff.mp hacc
    exact (ih (h.2 next hnext)).2 acc' hrest

/-! ### The two handlers -/

/-- What the handler has stored of the open text is what its calls come to. -/
def pending (chunks : Option (TextField × List Bytes)) (rules : XkbRules) : Option XkbRules :=
  match chunks with
  | none => some rules
  | some (field, chunks) => field.slot.write (field.kind.putAll chunks) rules

/-- The handler is where the one with a buffer is, but for the text that is open. -/
structure Follows (handler : RulesHandler) (acc : Accumulator) (scan : TextScan) : Prop where
  path : handler.path = acc.path
  scanPath : scan.path = acc.path
  text : acc.text = scan.chunks.map fun open' => (open'.1, open'.2.flatten)
  fields : acc.path.inits.filterMap fieldAt = scan.chunks.toList.map Prod.fst
  info : ∀ open' ∈ scan.chunks, (open'.1.slot.get acc.rules).isSome = true
  trimmed : acc.rules.Trimmed
  rules : some handler.rules = pending scan.chunks acc.rules

theorem follows_new : Follows .new .new (TextScan.of []) where
  path := rfl
  scanPath := rfl
  text := rfl
  fields := by decide +kernel
  info _ h := absurd h (Option.not_mem_none _)
  trimmed := ⟨fun _ h => absurd h List.not_mem_nil, fun _ h => absurd h List.not_mem_nil,
    fun _ h => absurd h List.not_mem_nil⟩
  rules := rfl

theorem startElement_of_opensInfo {strPath : Bytes} (h : opensInfo strPath = false) (atts : List (Bytes × Bytes))
    (rules : XkbRules) : startElement strPath atts rules = some rules := by
  unfold opensInfo at h
  simp only [Bool.or_eq_false_iff, decide_eq_false_iff_not] at h
  obtain ⟨⟨⟨⟨⟨h1, h2⟩, h3⟩, h4⟩, h5⟩, h6⟩ := h
  simp only [startElement, h1, h2, h3, h4, h5, h6, Bool.false_eq_true, if_false]

/-- A path one element longer. -/
theorem filterMap_inits_concat (path : List Bytes) (name : Bytes) :
    (path ++ [name]).inits.filterMap fieldAt = path.inits.filterMap fieldAt ++ (fieldAt (path ++ [name])).toList := by
  rw [List.inits_append, List.filterMap_append]
  congr 1

/-! ### One call -/

section step

variable {handler : RulesHandler} {acc : Accumulator} {scan : TextScan}

/-- What holds of the path: the element that is open at its end has a text, and it is the open one. -/
theorem Follows.open_of_field (h : Follows handler acc scan) {field : TextField}
    (hfield : fieldAt acc.path = some field) :
    ∃ chunks, scan.chunks = some (field, chunks) := by
  have hmem : field ∈ acc.path.inits.filterMap fieldAt :=
    List.mem_filterMap.mpr ⟨acc.path, (List.mem_inits _ _).mpr (List.prefix_refl _), hfield⟩
  rw [h.fields] at hmem
  obtain ⟨⟨field', chunks⟩, hopen, rfl⟩ := List.mem_map.mp hmem
  exact ⟨chunks, Option.mem_toList.mp hopen⟩

theorem Follows.start (h : Follows handler acc scan) {name : Bytes} {atts : List (Bytes × Bytes)}
    (hadm : Admissible acc (.startElement name atts)) :
    ∃ handler' acc', handler.step (.startElement name atts) = some handler' ∧
      acc.step (.startElement name atts) = some acc' ∧
      Follows handler' acc' (scan.step (.startElement name atts)) := by
  unfold Admissible at hadm
  dsimp only at hadm
  cases hchunks : scan.chunks with
  | some open' =>
    -- inside a text: neither handler does anything
    have htext : acc.text.isSome = true := by rw [h.text, hchunks]; rfl
    rw [if_pos htext] at hadm
    obtain ⟨hopens, hfield⟩ := hadm
    refine ⟨⟨acc.path ++ [name], handler.rules⟩, ⟨acc.path ++ [name], acc.text, acc.rules⟩, ?_, ?_, ?_⟩
    · rw [RulesHandler.step, RulesHandler.rulesHandlerStartElement, h.path, startElement_of_opensInfo hopens]
      rfl
    · rw [Accumulator.step, Accumulator.start, startElement_of_opensInfo hopens, hfield]
      rfl
    · have hscan : scan.step (.startElement name atts) = { scan with path := acc.path ++ [name] } := by
        unfold TextScan.step
        rw [h.scanPath]
        dsimp only
        rw [hfield]
        rfl
      rw [hscan]
      refine ⟨rfl, rfl, h.text, ?_, h.info, h.trimmed, h.rules⟩
      rw [filterMap_inits_concat, hfield, h.fields]
      exact List.append_nil _
  | none =>
    have htext : acc.text = none := by rw [h.text, hchunks]; rfl
    have hsame : handler.rules = acc.rules := by
      have hrules := h.rules
      rw [hchunks] at hrules
      exact Option.some.inj hrules
    rw [htext, if_neg (by exact Bool.false_ne_true)] at hadm
    obtain ⟨rules, hstart, hinfo⟩ := hadm
    have hstart : startElement (joinPath (acc.path ++ [name])) atts acc.rules = some rules := hstart
    refine ⟨⟨acc.path ++ [name], rules⟩,
      ⟨acc.path ++ [name], (fieldAt (acc.path ++ [name])).map fun field => (field, []), rules⟩, ?_, ?_, ?_⟩
    · rw [RulesHandler.step, RulesHandler.rulesHandlerStartElement, h.path, hsame, hstart]
      rfl
    · rw [Accumulator.step, Accumulator.start, hstart, htext]
      simp
    · have hscan : scan.step (.startElement name atts) =
          { scan with path := acc.path ++ [name],
                      chunks := (fieldAt (acc.path ++ [name])).map fun field => (field, []) } := by
        unfold TextScan.step
        rw [h.scanPath, hchunks]
        simp
      rw [hscan]
      refine ⟨rfl, rfl, ?_, ?_, ?_, h.trimmed.startElement hstart, ?_⟩
      · rw [Option.map_map]
        rfl
      · rw [filterMap_inits_concat, h.fields, hchunks]
        cases fieldAt (acc.path ++ [name]) <;> rfl
      · rintro open' hopen
        obtain ⟨field, hfield, rfl⟩ := Option.map_eq_some_iff.mp hopen
        exact hinfo field hfield
      · cases hfield : fieldAt (acc.path ++ [name]) with
        | none => rfl
        | some field =>
          obtain ⟨old, hold⟩ := Option.isSome_iff_exists.mp (hinfo field hfield)
          show some rules = field.slot.write (field.kind.putAll []) rules
          rw [Slot.write, hold, Option.map_some]
          exact congrArg some (field.slot.set_get hold).symm

theorem Follows.characters (h : Follows handler acc scan) {ch : Bytes} (hadm : 0 ∉ ch) :
    ∃ handler', handler.step (.characters ch) = some handler' ∧
      Follows handler' (acc.characters ch) (scan.step (.characters ch)) := by
  have htrim : trim (cString ch) = trim ch := by rw [cString_of_noZero hadm]
  cases hfield : fieldAt acc.path with
  | none =>
    have hstep : handler.step (.characters ch) = some handler := by
      have htext : textField (joinPath handler.path) = none := by
        rw [h.path]
        exact hfield
      unfold RulesHandler.step RulesHandler.rulesHandlerCharacters
      dsimp only
      rw [htext]
      split <;> rfl
    have hacc : acc.characters ch = acc := by
      rw [Accumulator.characters, hfield]
      rfl
    have hscan : scan.step (.characters ch) = scan := by
      unfold TextScan.step
      rw [h.scanPath, hfield]
      rfl
    rw [hacc, hscan]
    exact ⟨handler, hstep, h⟩
  | some field =>
    obtain ⟨chunks, hchunks⟩ := h.open_of_field hfield
    have htext : textField (joinPath handler.path) = some field := by
      rw [h.path]
      exact hfield
    have hacc : acc.characters ch = { acc with text := some (field, chunks.flatten ++ ch) } := by
      rw [Accumulator.characters, hfield, h.text, hchunks]
      rfl
    have hscan : scan.step (.characters ch) = { scan with chunks := some (field, chunks ++ [ch]) } := by
      unfold TextScan.step
      rw [h.scanPath, hfield, hchunks]
      rfl
    have hrules : some handler.rules = field.slot.write (field.kind.putAll chunks) acc.rules := by
      have hrules := h.rules
      rw [hchunks] at hrules
      exact hrules
    have hstep : ∃ rules, handler.step (.characters ch) = some { handler with rules := rules } ∧
        some rules = field.slot.write (field.kind.putAll (chunks ++ [ch])) acc.rules := by
      unfold RulesHandler.step RulesHandler.rulesHandlerCharacters
      dsimp only
      rw [htrim, htext]
      by_cases hempty : trim ch = []
      · have hput : field.kind.putAll (chunks ++ [ch]) = field.kind.putAll chunks := by
          funext old
          rw [field.kind.putAll_concat, if_pos hempty]
        rw [if_pos hempty, hput]
        exact ⟨handler.rules, rfl, hrules⟩
      · have hput : field.kind.putAll (chunks ++ [ch]) = field.kind.put (trim ch) ∘ field.kind.putAll chunks := by
          funext old
          rw [field.kind.putAll_concat, if_neg hempty]
          rfl
        have hstore : storeText handler.rules (trim ch) field =
            field.slot.write (field.kind.putAll (chunks ++ [ch])) acc.rules := by
          rw [storeText_eq_write (field.slot.get_of_write hrules.symm), hput, ← Slot.write_bind_write, ← hrules]
          rfl
        obtain ⟨rules, hwrite⟩ :=
          field.slot.exists_write (field.kind.putAll (chunks ++ [ch])) (h.info (field, chunks) hchunks)
        rw [if_neg hempty]
        dsimp only
        rw [hstore, hwrite]
        exact ⟨rules, rfl, rfl⟩
    obtain ⟨rules, hstep, hwrite⟩ := hstep
    rw [hacc, hscan]
    refine ⟨{ handler with rules := rules }, hstep, h.path, h.scanPath, ?_, ?_, ?_, h.trimmed, hwrite⟩
    · simp
    · rw [h.fields, hchunks]
      rfl
    · intro open' hopen
      rw [← Option.some.inj hopen]
      exact h.info (field, chunks) hchunks

theorem storeWhole_eq {rules : XkbRules} {field : TextField} (hinfo : (field.slot.get rules).isSome) (text : Bytes) :
    Accumulator.storeWhole rules text field = field.slot.write (field.kind.putWhole text) rules := by
  unfold Accumulator.storeWhole
  by_cases hempty : inplaceTrim text = []
  · have hput : field.kind.putWhole text = id := by
      funext old
      exact if_pos hempty
    obtain ⟨old, hold⟩ := Option.isSome_iff_exists.mp hinfo
    rw [if_pos hempty, hput, Slot.write, hold, Option.map_some]
    exact congrArg some (field.slot.set_get hold).symm
  · have hput : field.kind.putWhole text = field.kind.put (inplaceTrim text) := by
      funext old
      exact if_neg hempty
    rw [if_neg hempty, storeText_eq_write hinfo, hput]

/-- What a whole element stores does not start with white space. -/
theorem TextKind.Trimmed.putWhole {kind : TextKind} {old : kind.Content} (h : kind.Trimmed old) (text : Bytes) :
    kind.Trimmed (kind.putWhole text old) := by
  unfold TextKind.putWhole
  split
  · exact h
  · cases kind with
    | one =>
      intro text' htext
      rw [← Option.some.inj htext]
      exact head?_inplaceTrim text
    | many => trivial

/-- The fields on the path of the parent. -/
theorem Follows.fields_dropLast (h : Follows handler acc scan) (hadm : acc.path ≠ []) :
    acc.path.dropLast.inits.filterMap fieldAt ++ (fieldAt acc.path).toList = scan.chunks.toList.map Prod.fst := by
  rcases List.eq_nil_or_concat acc.path with hnil | ⟨path, name, hconcat⟩
  · exact absurd hnil hadm
  · rw [List.concat_eq_append] at hconcat
    have hfields := h.fields
    rw [hconcat, filterMap_inits_concat] at hfields
    rw [hconcat, List.dropLast_concat]
    exact hfields

/-- The end of an element without a text. -/
theorem Follows.finish_other (h : Follows handler acc scan) (hadm : acc.path ≠ []) (hfield : fieldAt acc.path = none)
    (name : Bytes) :
    acc.finish = some { acc with path := acc.path.dropLast } ∧
      (scan.step (.endElement name)).closed = scan.closed ∧
      Follows handler.rulesHandlerEndElement { acc with path := acc.path.dropLast }
        (scan.step (.endElement name)) := by
  have hscan : scan.step (.endElement name) = { scan with path := acc.path.dropLast } := by
    unfold TextScan.step
    rw [h.scanPath, hfield]
    rfl
  refine ⟨?_, by rw [hscan], ?_⟩
  · rw [Accumulator.finish, hfield]
  · rw [hscan]
    refine ⟨congrArg List.dropLast h.path, rfl, h.text, ?_, h.info, h.trimmed, h.rules⟩
    have hfields := h.fields_dropLast hadm
    rw [hfield] at hfields
    exact (List.append_nil _).symm.trans hfields

/-- **The end of an element with a text**: the handler has stored what it should exactly when the calls
were clean. -/
theorem Follows.finish_text (h : Follows handler acc scan) (hadm : acc.path ≠ []) {field : TextField}
    (hfield : fieldAt acc.path = some field) (name : Bytes) :
    ∃ chunks acc', acc.finish = some acc' ∧
      scan.step (.endElement name) = ⟨acc.path.dropLast, none, scan.closed ++ [(field, chunks)]⟩ ∧
      (handler.rules = acc'.rules ↔ field.kind.Clean chunks) ∧
      (field.kind.Clean chunks →
        Follows handler.rulesHandlerEndElement acc' ⟨acc.path.dropLast, none, scan.closed ++ [(field, chunks)]⟩) := by
  obtain ⟨chunks, hchunks⟩ := h.open_of_field hfield
  have hinfo : (field.slot.get acc.rules).isSome = true := h.info (field, chunks) hchunks
  obtain ⟨old, hold⟩ := Option.isSome_iff_exists.mp hinfo
  obtain ⟨rules, hwrite⟩ := field.slot.exists_write (field.kind.putWhole chunks.flatten) hinfo
  have hrules : some handler.rules = field.slot.write (field.kind.putAll chunks) acc.rules := by
    have hrules := h.rules
    rw [hchunks] at hrules
    exact hrules
  have htrimmed : field.kind.Trimmed old := (field.slot_respects).get h.trimmed hold
  have hiff : handler.rules = rules ↔ field.kind.Clean chunks := by
    rw [← Option.some_inj, hrules, ← hwrite, field.slot.write_congr_iff hold]
    exact field.kind.putAll_eq_putWhole_iff chunks htrimmed
  refine ⟨chunks, ⟨acc.path.dropLast, none, rules⟩, ?_, ?_, hiff, fun hclean => ?_⟩
  · rw [Accumulator.finish, hfield, h.text, hchunks, Option.map_some]
    dsimp only
    rw [storeWhole_eq hinfo, hwrite]
    rfl
  · unfold TextScan.step
    rw [h.scanPath, hfield, hchunks]
    rfl
  · refine ⟨congrArg List.dropLast h.path, rfl, rfl, ?_, fun _ hopen => absurd hopen (Option.not_mem_none _), ?_, ?_⟩
    · have hfields : acc.path.dropLast.inits.filterMap fieldAt ++ [field] = [field] := by
        have hpath := h.fields_dropLast hadm
        rw [hfield, hchunks] at hpath
        exact hpath
      exact List.append_left_eq_self.mp hfields
    · exact field.slot_respects.write (fun _ hcontent => hcontent.putWhole _) h.trimmed hwrite
    · exact congrArg some (hiff.mpr hclean)

end step

end Fcitx
