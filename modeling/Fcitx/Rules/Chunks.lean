/-
# The text of one element

`RulesHandlerCharacters` stores each call's text by itself: a single text is
replaced by the next one, a list gets them all. What it should store is the
trimmed text of all the calls together.

Key definitions: `chunkTexts`, `TextKind.putAll`, `TextKind.putWhole`, `TextKind.Clean`.
Key theorems: `TextKind.putAll_eq_putWhole_iff`.
-/
import Fcitx.Rules.Handlers
import Fcitx.Utils.Trim

namespace Fcitx

/-- What the handler stores of the calls in one element. -/
def chunkTexts (chunks : List Bytes) : List Bytes := (chunks.map trim).filter (· ≠ [])

namespace TextKind

/-- A field after the calls in one element. -/
def putAll (kind : TextKind) (chunks : List Bytes) (old : kind.Content) : kind.Content :=
  (chunkTexts chunks).foldl (fun content text => kind.put text content) old

/-- A field after an element with this text. -/
def putWhole (kind : TextKind) (text : Bytes) (old : kind.Content) : kind.Content :=
  if inplaceTrim text = [] then old else kind.put (inplaceTrim text) old

/-- The last call with a text starts with no white space. A call with a text before it has white space
only, and in a list there is none. -/
def cleanFrom (kind : TextKind) : List Bytes → Bool
  | [] => true
  | last :: before =>
    last.head?.all (fun c => ¬ isspace c) &&
      match kind with
      | one => before.all fun ch => ch.all isspace
      | many => before.isEmpty

/-- The calls in an element are as the handler needs them. -/
def Clean (kind : TextKind) (chunks : List Bytes) : Prop :=
  kind.cleanFrom (chunks.filter (· ≠ [])).reverse = true

instance cleanDecidable (kind : TextKind) (chunks : List Bytes) : Decidable (kind.Clean chunks) :=
  inferInstanceAs (Decidable (_ = _))

end TextKind

/-! ### One call -/

/-- The calls with a text. -/
theorem chunkTexts_eq (chunks : List Bytes) : chunkTexts chunks = (chunks.filter (· ≠ [])).map trim := by
  unfold chunkTexts
  rw [List.filter_map]
  congr 1
  refine List.filter_congr fun ch _ => ?_
  simp only [Function.comp_apply, ne_eq, trim_eq_nil_iff]

theorem flatten_filter (chunks : List Bytes) : (chunks.filter (· ≠ [])).flatten = chunks.flatten := by
  induction chunks with
  | nil => rfl
  | cons ch chunks ih =>
    by_cases hch : ch = []
    · rw [List.filter_cons_of_neg (by simp [hch]), ih, hch]
      rfl
    · rw [List.filter_cons_of_pos (by simp [hch]), List.flatten_cons, List.flatten_cons, ih]

/-! ### All calls -/

/-- The last call of an element that trims to something. -/
theorem trim_eq_inplaceTrim_append_iff {before last : Bytes} (hne : last ≠ []) :
    trim last = inplaceTrim (before ++ last) ↔
      last.head?.all (fun c => ¬ isspace c) = true ∧ ∀ c ∈ before, isspace c = true := by
  constructor
  · intro h
    have hhead : last.head?.all (fun c => ¬ isspace c) = true := by
      rw [← head?_trim, h]
      cases hc : (inplaceTrim (before ++ last)).head? with
      | none => rfl
      | some c =>
        rw [Option.all_some, head?_inplaceTrim _ c hc]
        rfl
    refine ⟨hhead, ?_⟩
    by_contra hbefore
    have hlast : ¬ ∀ c ∈ last, isspace c = true := by
      intro hall
      obtain ⟨c, rest, rfl⟩ := List.exists_cons_of_ne_nil hne
      have hc : isspace c = false := by simpa using hhead
      rw [hall c List.mem_cons_self] at hc
      cases hc
    have hdrop : before.dropWhile isspace ≠ [] := by
      rw [ne_eq, List.dropWhile_eq_nil_iff]
      exact hbefore
    rw [trim_of_head hhead, inplaceTrim_eq (before ++ last), List.dropWhile_append,
      List.isEmpty_eq_false_iff.mpr hdrop, if_neg Bool.false_ne_true, rdropWhile_append hlast] at h
    have hdropLast : last.dropWhile isspace = last := by
      obtain ⟨c, rest, rfl⟩ := List.exists_cons_of_ne_nil hne
      have hc : isspace c = false := by simpa using hhead
      rw [List.dropWhile_cons, hc]
      rfl
    rw [inplaceTrim_eq, hdropLast] at h
    exact hdrop (List.append_left_eq_self.mp h.symm)
  · rintro ⟨hhead, hbefore⟩
    rw [trim_of_head hhead, inplaceTrim_append hbefore]

namespace TextKind

/-- One more call. -/
theorem putAll_concat (kind : TextKind) (chunks : List Bytes) (ch : Bytes) (old : kind.Content) :
    kind.putAll (chunks ++ [ch]) old =
      if trim ch = [] then kind.putAll chunks old else kind.put (trim ch) (kind.putAll chunks old) := by
  unfold putAll chunkTexts
  rw [List.map_append, List.filter_append, List.foldl_append]
  by_cases hempty : trim ch = []
  · rw [if_pos hempty]
    simp [hempty]
  · rw [if_neg hempty]
    simp [hempty]

/-- A single text is the last one. -/
theorem putAll_one (chunks : List Bytes) (old : Option Bytes) :
    one.putAll chunks old = ((chunks.filter (· ≠ [])).getLast?.map trim).or old := by
  unfold putAll
  rw [chunkTexts_eq]
  induction (chunks.filter (· ≠ [])) using List.reverseRecOn with
  | nil => rfl
  | append_singleton chunks ch _ =>
    rw [List.map_append, List.foldl_append, List.getLast?_concat]
    rfl

/-- A list gets them all. -/
theorem putAll_many (chunks : List Bytes) (old : List Bytes) :
    many.putAll chunks old = old ++ (chunks.filter (· ≠ [])).map trim := by
  unfold putAll
  rw [chunkTexts_eq]
  induction (chunks.filter (· ≠ [])) generalizing old with
  | nil => exact (List.append_nil old).symm
  | cons ch chunks ih =>
    rw [List.map_cons, List.foldl_cons, ih]
    exact List.append_assoc old [trim ch] _

/-- **The calls in an element are stored well** exactly when they are clean. -/
theorem putAll_eq_putWhole_iff (kind : TextKind) (chunks : List Bytes) {old : kind.Content}
    (hold : kind.Trimmed old) : kind.putAll chunks old = kind.putWhole chunks.flatten old ↔ kind.Clean chunks := by
  unfold Clean
  rw [← flatten_filter]
  have hnonempty : ∀ ch ∈ chunks.filter (· ≠ []), ch ≠ [] := by
    intro ch hch
    simpa using (List.mem_filter.mp hch).2
  rcases List.eq_nil_or_concat (chunks.filter (· ≠ [])) with hnil | ⟨before, last, hlast⟩
  · -- nothing is stored, and nothing has to be
    rw [hnil]
    cases kind with
    | one =>
      rw [putAll_one, hnil]
      exact iff_of_true rfl rfl
    | many =>
      rw [putAll_many, hnil]
      exact iff_of_true (List.append_nil old) rfl
  · rw [List.concat_eq_append] at hlast
    have hne : last ≠ [] := hnonempty last (by rw [hlast]; exact List.mem_concat_self)
    have hfull : (chunks.filter (· ≠ [])).flatten = before.flatten ++ last := by
      rw [hlast, List.flatten_append, List.flatten_singleton]
    have hrev : (chunks.filter (· ≠ [])).reverse = last :: before.reverse := by
      rw [hlast, List.reverse_append, List.reverse_singleton, List.singleton_append]
    -- a text of white space only is not clean
    have hblank : inplaceTrim (before.flatten ++ last) = [] → last.head?.all (fun c => ¬ isspace c) = false := by
      intro h
      obtain ⟨c, rest, rfl⟩ := List.exists_cons_of_ne_nil hne
      have hc := (inplaceTrim_eq_nil_iff _).mp h c (List.mem_append_right _ List.mem_cons_self)
      simp [hc]
    rw [hfull, hrev]
    unfold putWhole
    cases kind with
    | one =>
      rw [cleanFrom, Bool.and_eq_true, putAll_one, hlast, List.getLast?_concat, Option.map_some, Option.some_or]
      by_cases hempty : inplaceTrim (before.flatten ++ last) = []
      · rw [if_pos hempty, hblank hempty]
        refine iff_of_false (fun heq => ?_) fun h => Bool.false_ne_true h.1
        have hhead := hblank hempty
        obtain ⟨c, rest, rfl⟩ := List.exists_cons_of_ne_nil hne
        have hc : isspace c = false := hold _ heq.symm c (by rw [head?_trim]; rfl)
        simp [hc] at hhead
      · rw [if_neg hempty]
        refine (Option.some_inj.trans (trim_eq_inplaceTrim_append_iff hne)).trans (and_congr_right fun _ => ?_)
        simp only [List.mem_flatten, List.all_reverse, List.all_eq_true]
        exact ⟨fun h ch hch c hc => h c ⟨ch, hch, hc⟩, fun h c hc => h _ hc.choose_spec.1 c hc.choose_spec.2⟩
    | many =>
      rw [cleanFrom, Bool.and_eq_true, putAll_many, hlast, List.map_append]
      by_cases hempty : inplaceTrim (before.flatten ++ last) = []
      · rw [if_pos hempty, hblank hempty]
        refine iff_of_false (fun heq => ?_) fun h => Bool.false_ne_true h.1
        exact absurd (List.append_right_eq_self.mp heq) (by simp)
      · rw [if_neg hempty]
        refine List.append_right_inj old |>.trans ?_
        rw [List.isEmpty_reverse, List.isEmpty_iff]
        constructor
        · intro heq
          have hbefore : before = [] := by
            have hlen := congrArg List.length heq
            simpa using hlen
          subst hbefore
          exact ⟨head_of_trim (List.singleton_inj.mp heq), rfl⟩
        · rintro ⟨hhead, rfl⟩
          exact congrArg (fun text => [text]) (trim_of_head hhead)

end TextKind

end Fcitx
