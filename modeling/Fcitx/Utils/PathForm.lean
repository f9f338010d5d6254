/-
# What a path means

A path is read as its slashes at the start and its components, with `..` going
one component up. `fcitx_utils_clean_path` keeps that meaning as long as it
takes away the component that a `..` is for. It counts the components that are
no `.` or `..`, but not those it takes away again: once it has seen one, a `..`
takes away whatever was written last, another `..` or a slash at the start
included. After the first `..` of that kind the meaning is lost for good.

Key definitions: `pathForm`, `EscapesAt`, `Escapes`, `Faithful`, `Lost`.
Key theorems: `pathForm_cleanedPath`, `Faithful.up`, `Faithful.escape`, `Lost.up`, `run_faithful_or_lost`,
`pathForm_cleanedPath_iff`, `cleanLaw_iff`.
-/
import Fcitx.Lib.UpStack
import Fcitx.Utils.CleanInPlace

namespace Fcitx

open UpStack

/-! ### The meaning -/

/-- `..` -/
def parentDir : Bytes := [dot, dot]

/-- The components of a path that mean something. -/
def components (p : Bytes) : List Bytes :=
  ((p.dropWhile (· = pathSlash)).splitOn pathSlash).filter fun c => c ≠ [] ∧ c ≠ [dot]

/-- What a path means: the number of slashes at the start, and the normal form of its components,
the last one first. -/
def pathForm (p : Bytes) : ℕ × List Bytes :=
  ((p.takeWhile (· = pathSlash)).length, normalise parentDir (components p))

/-! ### The slash and the components that are written -/

/-- The components that are written are those that mean something. -/
def Cleaned.Proper (s : Cleaned) : Prop := ∀ c ∈ s.stack, pathSlash ∉ c ∧ c ≠ [] ∧ c ≠ [dot]

/-- The state after some components. -/
def Cleaned.run (s : Cleaned) (cs : List Bytes) : Cleaned := cs.foldl (fun s c => (s.component c).1) s

theorem takeWhile_slashes {rest : Bytes} (h : rest.at 0 ≠ pathSlash) (m : ℕ) :
    (List.replicate m pathSlash ++ rest).takeWhile (· = pathSlash) = List.replicate m pathSlash ∧
      (List.replicate m pathSlash ++ rest).dropWhile (· = pathSlash) = rest := by
  induction m with
  | zero =>
    cases rest with
    | nil => exact ⟨rfl, rfl⟩
    | cons c rest =>
      have hne : c ≠ pathSlash := h
      have hc : ¬ decide (c = pathSlash) = true := by simpa using hne
      exact ⟨List.takeWhile_cons_of_neg hc, List.dropWhile_cons_of_neg hc⟩
  | succ m ih =>
    rw [List.replicate_succ, List.cons_append, List.takeWhile_cons_of_pos (by simp),
      List.dropWhile_cons_of_pos (by simp),
      ih.1, ih.2]
    exact ⟨rfl, rfl⟩

theorem splitOn_flatMap (cs : List Bytes) (c : Bytes) (hcs : ∀ c ∈ cs, pathSlash ∉ c) (hc : pathSlash ∉ c) :
    ((cs.flatMap fun c => c ++ [pathSlash]) ++ c).splitOn pathSlash = cs ++ [c] := by
  induction cs with
  | nil => exact List.splitOn_eq_singleton hc
  | cons d cs ih =>
    have hd := hcs d List.mem_cons_self
    rw [List.flatMap_cons, List.append_assoc, List.append_assoc, List.singleton_append,
      List.splitOn_append_cons_self_of_not_mem hd, ih fun c hc => hcs c (List.mem_cons_of_mem d hc)]
    rfl

/-- What is written is read back. -/
theorem Cleaned.Proper.read {s : Cleaned} (h : s.Proper) {c : Bytes} (hc : pathSlash ∉ c) :
    ((s.out ++ c).takeWhile (· = pathSlash)).length = s.slashes ∧
      components (s.out ++ c) = s.stack.reverse ++ [c].filter fun c => c ≠ [] ∧ c ≠ [dot] := by
  have hstack : ∀ c ∈ s.stack.reverse, pathSlash ∉ c ∧ c ≠ [] ∧ c ≠ [dot] :=
    fun c hc => h c (List.mem_reverse.mp hc)
  have hhead : Bytes.at ((s.stack.reverse.flatMap fun c => c ++ [pathSlash]) ++ c) 0 ≠ pathSlash := by
    cases hcs : s.stack.reverse with
    | nil =>
      cases c with
      | nil => decide
      | cons x c => exact fun hx => hc (List.mem_cons.mpr (Or.inl hx.symm))
    | cons d cs =>
      obtain ⟨hd, hne, -⟩ := hstack d (by rw [hcs]; exact List.mem_cons_self)
      cases d with
      | nil => exact absurd rfl hne
      | cons x d => exact fun hx => hd (List.mem_cons.mpr (Or.inl hx.symm))
  obtain ⟨htake, hdrop⟩ := takeWhile_slashes hhead s.slashes
  rw [components, Cleaned.out, List.append_assoc, htake, hdrop, List.length_replicate,
    splitOn_flatMap _ _ (fun c hc => (hstack c hc).1) hc, List.filter_append]
  refine ⟨rfl, congrArg (· ++ _) (List.filter_eq_self.mpr fun d hd => ?_)⟩
  exact decide_eq_true (hstack d hd).2

namespace Cleaned

variable {s : Cleaned} {c : Bytes} {cs : List Bytes}

theorem Proper.component (h : s.Proper) (hc : pathSlash ∉ c ∧ c ≠ []) : (s.component c).1.Proper := by
  intro d hd
  rcases mem_component hd with hd | ⟨rfl, hdot⟩
  · exact h d hd
  · exact ⟨hc.1, hc.2, hdot⟩

theorem run_cons (s : Cleaned) (c : Bytes) (cs : List Bytes) : s.run (c :: cs) = (s.component c).1.run cs := rfl

/-- The end of the loop reads as the state after the components. -/
theorem finish_read (hcs : ∀ c ∈ cs, pathSlash ∉ c) (hne : cs ≠ []) : ∀ {s : Cleaned}, s.Proper →
    ((s.finish cs).takeWhile (· = pathSlash)).length = (s.run (cs.filter fun c => c ≠ [] ∧ c ≠ [dot])).slashes ∧
      components (s.finish cs) = (s.run (cs.filter fun c => c ≠ [] ∧ c ≠ [dot])).stack.reverse := by
  induction cs with
  | nil => exact absurd rfl hne
  | cons c cs ih =>
    intro s h
    have hc := hcs c List.mem_cons_self
    by_cases hlast : cs = []
    case pos =>
      subst hlast
      have hfinish : s.finish [c] = if (s.component c).2 then (s.component c).1.out else s.out ++ c := rfl
      have hout : ∀ {s : Cleaned}, s.Proper → ((s.out).takeWhile (· = pathSlash)).length = s.slashes ∧
          components s.out = s.stack.reverse := by
        intro s h
        have hread := h.read (c := []) List.not_mem_nil
        rw [List.append_nil] at hread
        exact ⟨hread.1, hread.2.trans (List.append_nil _)⟩
      rw [hfinish]
      by_cases hempty : c = []
      · subst hempty
        have heaten : (s.component []).2 = false := rfl
        rw [heaten, if_neg Bool.false_ne_true, List.append_nil]
        exact hout h
      · have hproper := h.component ⟨hc, hempty⟩
        rcases s.component_cases c with ⟨hdot, heq⟩ | ⟨s', hdots, -, -, heq⟩ | ⟨hdots, -, heq⟩ | ⟨hdot, -, heq⟩
        · rw [heq, if_pos rfl, List.filter_cons_of_neg (by simp [hdot])]
          exact hout h
        · rw [heq] at hproper
          rw [heq, if_pos rfl, List.filter_cons_of_pos (by simp [hdots]), run_cons, heq]
          exact hout hproper
        · have hread := h.read hc
          rw [List.filter_cons_of_pos (by simp [hdots])] at hread
          rw [heq, if_neg Bool.false_ne_true, List.filter_cons_of_pos (by simp [hdots]), run_cons, heq]
          exact ⟨hread.1, hread.2.trans List.reverse_cons.symm⟩
        · have hread := h.read hc
          rw [List.filter_cons_of_pos (by simp [hempty, hdot])] at hread
          rw [heq, if_neg Bool.false_ne_true, List.filter_cons_of_pos (by simp [hempty, hdot]), run_cons, heq]
          exact ⟨hread.1, hread.2.trans List.reverse_cons.symm⟩
    case neg =>
      have hrest := fun d hd => hcs d (List.mem_cons_of_mem c hd)
      rw [finish_cons _ _ hlast]
      by_cases hempty : c = []
      · rw [if_pos hempty, List.filter_cons_of_neg (by simp [hempty])]
        exact ih hrest hlast h
      · rw [if_neg hempty]
        by_cases hdot : c = [dot]
        · have heq : (s.component c).1 = s := by
            rw [hdot]
            rfl
          rw [List.filter_cons_of_neg (by simp [hdot]), heq]
          exact ih hrest hlast h
        · rw [List.filter_cons_of_pos (by simp [hempty, hdot]), run_cons]
          exact ih hrest hlast (h.component ⟨hc, hempty⟩)

end Cleaned

/-- No component has a slash. -/
theorem slash_notMem_splitOn (p : Bytes) : ∀ c ∈ p.splitOn pathSlash, pathSlash ∉ c := by
  induction p with
  | nil =>
    intro c hc
    rw [List.mem_singleton.mp hc]
    exact List.not_mem_nil
  | cons x p ih =>
    rw [List.splitOn_cons_eq_if_modifyHead]
    by_cases hx : x = pathSlash
    · rw [if_pos (beq_iff_eq.mpr hx)]
      intro c hc
      rcases List.mem_cons.mp hc with rfl | hc
      · exact List.not_mem_nil
      · exact ih c hc
    · rw [if_neg fun h => hx (beq_iff_eq.mp h)]
      cases hsplit : p.splitOn pathSlash with
      | nil => exact fun c hc => absurd hc List.not_mem_nil
      | cons d cs =>
        rw [hsplit] at ih
        intro c hc
        rcases List.mem_cons.mp hc with rfl | hc
        · rw [List.mem_cons, not_or]
          exact ⟨Ne.symm hx, ih d List.mem_cons_self⟩
        · exact ih c (List.mem_cons_of_mem d hc)

/-- What a cleaned path means is told by the state after the components. -/
theorem pathForm_cleanedPath (p : Bytes) :
    pathForm (cleanedPath p) =
      (((⟨(pathForm p).1, [], false⟩ : Cleaned).run (components p)).slashes,
        normalise parentDir ((⟨(pathForm p).1, [], false⟩ : Cleaned).run (components p)).stack.reverse) := by
  have hstart : (⟨(pathForm p).1, [], false⟩ : Cleaned).Proper := fun c hc => absurd hc List.not_mem_nil
  obtain ⟨hslashes, hcomponents⟩ := Cleaned.finish_read (slash_notMem_splitOn (p.dropWhile (· = pathSlash)))
    (List.splitOn_ne_nil _ _) hstart
  rw [pathForm, cleanedPath]
  exact Prod.ext hslashes (congrArg (normalise parentDir) hcomponents)

/-! ### Steps up that go wrong -/

/-- A `..` behind the components `cs` takes away what it is not for: a component that is no `..`
came before, none is left, and what was written last can be taken away. -/
def EscapesAt (slashes : ℕ) (cs : List Bytes) : Prop :=
  (∃ c ∈ cs, c ≠ parentDir) ∧ (∀ c rest, normalise parentDir cs = c :: rest → c = parentDir) ∧
    ¬ (slashes = 0 ∧ normalise parentDir cs = [parentDir]) ∧ ¬ (slashes = 1 ∧ normalise parentDir cs = [])

/-- Some `..` of the path goes wrong. -/
def Escapes (slashes : ℕ) (cs : List Bytes) : Prop :=
  ∃ pre post, cs = pre ++ parentDir :: post ∧ EscapesAt slashes pre

theorem escapes_append_iff (n : ℕ) (cs : List Bytes) (c : Bytes) :
    Escapes n (cs ++ [c]) ↔ Escapes n cs ∨ c = parentDir ∧ EscapesAt n cs := by
  constructor
  · rintro ⟨pre, post, heq, hat⟩
    cases post using List.reverseRecOn with
    | nil =>
      obtain ⟨rfl, hc⟩ := List.append_inj' heq rfl
      exact Or.inr ⟨List.singleton_inj.mp hc, hat⟩
    | append_singleton post d _ =>
      rw [← List.cons_append, ← List.append_assoc] at heq
      obtain ⟨heq, -⟩ := List.append_inj' heq rfl
      exact Or.inl ⟨pre, post, heq, hat⟩
  · rintro (⟨pre, post, rfl, hat⟩ | ⟨rfl, hat⟩)
    · exact ⟨pre, post ++ [c], by rw [List.append_assoc, List.cons_append], hat⟩
    · exact ⟨cs, [], rfl, hat⟩

/-- As long as no `..` goes wrong, the components that are written are those of the normal form; in
a path without a slash at the start a first component and its `..` may be below them. -/
structure Faithful (n : ℕ) (cs : List Bytes) (s : Cleaned) : Prop where
  slashes : s.slashes = n
  named : s.named = true ↔ ∃ c ∈ cs, c ≠ parentDir
  stack : s.stack = normalise parentDir cs ∨
    s.named = true ∧ n = 0 ∧ parentDir ∉ normalise parentDir cs ∧
      ∃ x, x ≠ parentDir ∧ s.stack = normalise parentDir cs ++ [parentDir, x]
  ups : s.named = false → ∃ k, s.stack = List.replicate k parentDir
  relative : s.named = true → n = 0 → s.stack ≠ []

/-- Once a `..` has gone wrong, a slash is missing, or fewer `..` are written than the normal form `stack` has. -/
inductive Lost (n : ℕ) (stack : List Bytes) (s : Cleaned) : Prop where
  | shorter (named : s.named = true) (fewer : s.slashes < n)
  | absolute (named : s.named = true) (slashes : s.slashes = n) (positive : 1 ≤ n) (normal : Normal parentDir s.stack)
      (fewer : s.stack.count parentDir < stack.count parentDir) (two : 2 ≤ stack.count parentDir)
  | relative (named : s.named = true) (slashes : s.slashes = n) (zero : n = 0) (normal : Normal parentDir s.stack)
      (fewer : s.stack.count parentDir < stack.count parentDir) (three : 3 ≤ stack.count parentDir)
      (last : s.stack.getLast? = some parentDir)
  | first (named : s.named = true) (slashes : s.slashes = n) (zero : n = 0) (one : 1 ≤ stack.count parentDir)
      (names : List Bytes) (x : Bytes) (isName : x ≠ parentDir) (areNames : parentDir ∉ names)
      (written : s.stack = names ++ [x] ∨ s.stack = names ++ [parentDir, x])

namespace Cleaned

variable {s : Cleaned} {c : Bytes}

theorem component_name (hdot : c ≠ [dot]) (hc : c ≠ parentDir) :
    (s.component c).1 = { s.push c with named := true } := by
  have hdots : ¬ c = [dot, dot] := hc
  rw [component, if_neg hdot, if_neg hdots]

theorem component_up (s : Cleaned) :
    (s.component parentDir).1 = if s.named then s.parent.getD (s.push parentDir) else s.push parentDir := by
  have hdots : parentDir = [dot, dot] := rfl
  rw [component, if_neg (by decide), if_pos hdots]
  split
  · cases s.parent <;> rfl
  · rfl

theorem parent_cons {stack : List Bytes} (h : s.stack = c :: stack) :
    s.parent = if s.slashes = 0 ∧ stack = [] then none else some { s with stack } := by
  rw [parent, h]

theorem parent_nil (h : s.stack = []) :
    s.parent = if s.slashes < 2 then none else some { s with slashes := s.slashes - 1 } := by
  rw [parent, h]

/-- A component behind a slash is taken away. -/
theorem component_up_pop {stack : List Bytes} (hnamed : s.named = true) (h : s.stack = c :: stack)
    (hslash : ¬ (s.slashes = 0 ∧ stack = [])) : (s.component parentDir).1 = { s with stack } := by
  rw [component_up, if_pos hnamed, parent_cons h, if_neg hslash]
  rfl

/-- One that starts the path is not. -/
theorem component_up_first (hnamed : s.named = true) (h : s.stack = [c]) (hslash : s.slashes = 0) :
    (s.component parentDir).1 = s.push parentDir := by
  rw [component_up, if_pos hnamed, parent_cons h, if_pos ⟨hslash, rfl⟩]
  rfl

end Cleaned

section Steps

variable {n : ℕ} {cs stack : List Bytes} {s : Cleaned} {c : Bytes}

theorem faithful_empty (n : ℕ) : Faithful n [] ⟨n, [], false⟩ where
  slashes := rfl
  named := ⟨fun h => (by cases h), fun h => (by obtain ⟨c, hc, -⟩ := h; exact absurd hc List.not_mem_nil)⟩
  stack := Or.inl rfl
  ups := fun _ => ⟨0, rfl⟩
  relative := fun h => (by cases h)

/-- A name is pushed on both sides. -/
theorem Faithful.name (h : Faithful n cs s) (hdot : c ≠ [dot]) (hc : c ≠ parentDir) :
    Faithful n (cs ++ [c]) (s.component c).1 := by
  rw [Cleaned.component_name hdot hc]
  refine ⟨h.slashes, ⟨fun _ => ⟨c, by simp, hc⟩, fun _ => rfl⟩, ?_, fun hnamed => (by cases hnamed),
    fun _ _ => List.cons_ne_nil _ _⟩
  rw [normalise_append, push_of_ne hc]
  rcases h.stack with hstack | ⟨-, hn, hnames, x, hx, hstack⟩
  · exact Or.inl (congrArg (c :: ·) hstack)
  · refine Or.inr ⟨rfl, hn, ?_, x, hx, congrArg (c :: ·) hstack⟩
    rw [List.mem_cons, not_or]
    exact ⟨Ne.symm hc, hnames⟩

theorem named_up_iff : (∃ c ∈ cs ++ [parentDir], c ≠ parentDir) ↔ ∃ c ∈ cs, c ≠ parentDir := by
  constructor
  · rintro ⟨c, hmem, hc⟩
    rcases List.mem_append.mp hmem with hmem | hmem
    · exact ⟨c, hmem, hc⟩
    · exact absurd (List.mem_singleton.mp hmem) hc
  · rintro ⟨c, hmem, hc⟩
    exact ⟨c, List.mem_append_left _ hmem, hc⟩

theorem Faithful.named_up (h : Faithful n cs s) {s' : Cleaned} (hs' : s'.named = s.named) :
    s'.named = true ↔ ∃ c ∈ cs ++ [parentDir], c ≠ parentDir := by
  rw [hs', named_up_iff]
  exact h.named

/-- Before the first name a `..` is kept on both sides. -/
theorem Faithful.up_unnamed (h : Faithful n cs s) (hnamed : s.named = false) :
    Faithful n (cs ++ [parentDir]) (s.component parentDir).1 := by
  have hstack : s.stack = normalise parentDir cs := by
    rcases h.stack with hstack | ⟨hnamed', -⟩
    · exact hstack
    · rw [hnamed] at hnamed'
      cases hnamed'
  obtain ⟨k, hk⟩ := h.ups hnamed
  rw [Cleaned.component_up, hnamed, if_neg Bool.false_ne_true]
  refine ⟨h.slashes, h.named_up rfl, Or.inl ?_, fun _ => ⟨k + 1, congrArg (parentDir :: ·) hk⟩,
    fun _ _ => List.cons_ne_nil _ _⟩
  rw [normalise_append, ← hstack, hk, push_up_replicate]
  exact congrArg (parentDir :: ·) hk

/-- Behind a name it takes the name away; only the first component of the path stays, with the `..`. -/
theorem Faithful.up_name (h : Faithful n cs s) (hnamed : s.named = true) {t : Bytes} {rest : List Bytes}
    (htop : normalise parentDir cs = t :: rest) (ht : t ≠ parentDir) :
    Faithful n (cs ++ [parentDir]) (s.component parentDir).1 := by
  have hrest : normalise parentDir (cs ++ [parentDir]) = rest := by
    rw [normalise_append, htop, push_up_name ht]
  have hups : ∀ {s' : Cleaned}, s'.named = s.named → s'.named = false →
      ∃ k, s'.stack = List.replicate k parentDir := by
    intro s' hs' hfalse
    rw [hs', hnamed] at hfalse
    cases hfalse
  rcases h.stack with hstack | ⟨-, hn, hnames, x, hx, hstack⟩
  · rw [htop] at hstack
    by_cases hfirst : s.slashes = 0 ∧ rest = []
    · obtain ⟨hzero, rfl⟩ := hfirst
      rw [Cleaned.component_up_first hnamed hstack hzero]
      refine ⟨h.slashes, h.named_up rfl, Or.inr ⟨hnamed, h.slashes.symm.trans hzero, ?_, t, ht, ?_⟩, hups rfl,
        fun _ _ => List.cons_ne_nil _ _⟩
      · rw [hrest]
        exact List.not_mem_nil
      · rw [hrest]
        exact congrArg (parentDir :: ·) hstack
    · rw [Cleaned.component_up_pop hnamed hstack hfirst]
      exact ⟨h.slashes, h.named_up rfl, Or.inl hrest.symm, hups rfl,
        fun _ hn hnil => hfirst ⟨h.slashes.trans hn, hnil⟩⟩
  · rw [htop] at hstack hnames
    have hne : rest ++ [parentDir, x] ≠ [] := List.append_ne_nil_of_right_ne_nil _ (List.cons_ne_nil _ _)
    rw [Cleaned.component_up_pop hnamed hstack fun hempty => hne hempty.2]
    refine ⟨h.slashes, h.named_up rfl, Or.inr ⟨hnamed, hn, ?_, x, hx, ?_⟩, hups rfl, fun _ _ => hne⟩
    · rw [hrest]
      exact fun hmem => hnames (List.mem_cons_of_mem t hmem)
    · rw [hrest]
      rfl

/-- Behind nothing that could be taken away it is kept on both sides. -/
theorem Faithful.up_kept (h : Faithful n cs s) (hnamed : s.named = true)
    (hkept : n = 0 ∧ normalise parentDir cs = [parentDir] ∨ n = 1 ∧ normalise parentDir cs = []) :
    Faithful n (cs ++ [parentDir]) (s.component parentDir).1 := by
  have hstack : s.stack = normalise parentDir cs := by
    rcases h.stack with hstack | ⟨-, hzero, hnames, -⟩
    · exact hstack
    · rcases hkept with ⟨-, hform⟩ | ⟨hone, -⟩
      · rw [hform] at hnames
        exact absurd List.mem_cons_self hnames
      · omega
  have hpush : (s.component parentDir).1 = s.push parentDir := by
    rcases hkept with ⟨hn, hform⟩ | ⟨hn, hform⟩
    · exact Cleaned.component_up_first hnamed (hstack.trans hform) (h.slashes.trans hn)
    · rw [Cleaned.component_up, if_pos hnamed, Cleaned.parent_nil (hstack.trans hform),
        if_pos (by rw [h.slashes]; omega)]
      rfl
  have hform : normalise parentDir (cs ++ [parentDir]) = parentDir :: normalise parentDir cs := by
    rw [normalise_append]
    rcases hkept with ⟨-, hform⟩ | ⟨-, hform⟩
    · rw [hform]
      rfl
    · rw [hform]
      rfl
  rw [hpush]
  refine ⟨h.slashes, h.named_up rfl, Or.inl ?_, fun hfalse => ?_, fun _ _ => List.cons_ne_nil _ _⟩
  · rw [hform]
    exact congrArg (parentDir :: ·) hstack
  · have htrue : (s.push parentDir).named = true := hnamed
    rw [htrue] at hfalse
    cases hfalse

/-- A `..` that does not go wrong takes away what it is for, or is kept on both sides. -/
theorem Faithful.up (h : Faithful n cs s) (hat : ¬ EscapesAt n cs) :
    Faithful n (cs ++ [parentDir]) (s.component parentDir).1 := by
  cases hnamed : s.named with
  | false => exact h.up_unnamed hnamed
  | true =>
    rcases (normal_normalise parentDir cs).cases with ⟨t, rest, htop, ht⟩ | ⟨k, hk⟩
    · exact h.up_name hnamed htop ht
    · refine h.up_kept hnamed ?_
      by_contra hnot
      rw [not_or] at hnot
      refine hat ⟨h.named.mp hnamed, fun c rest htop => ?_, hnot⟩
      rw [hk] at htop
      have hmem : c ∈ List.replicate k parentDir := by
        rw [htop]
        exact List.mem_cons_self
      exact List.eq_of_mem_replicate hmem

/-- A faithful state means what the components mean. -/
theorem Faithful.form (h : Faithful n cs s) :
    (s.slashes, normalise parentDir s.stack.reverse) = (n, normalise parentDir cs) := by
  refine Prod.ext h.slashes ?_
  rcases h.stack with hstack | ⟨-, -, hnames, x, hx, hstack⟩
  · rw [hstack]
    exact normalise_reverse (normal_normalise parentDir cs)
  · rw [hstack]
    exact normalise_name_up hx hnames

/-! ### The meaning is lost for good -/

/-- A `..` that goes wrong loses a slash or a `..`. -/
theorem Faithful.escape (h : Faithful n cs s) (hat : EscapesAt n cs) :
    Lost n (normalise parentDir (cs ++ [parentDir])) (s.component parentDir).1 := by
  obtain ⟨hexists, htop, hzero, hone⟩ := hat
  have hnamed := h.named.mpr hexists
  obtain ⟨k, hk⟩ : ∃ k, normalise parentDir cs = List.replicate k parentDir := by
    rcases (normal_normalise parentDir cs).cases with ⟨t, rest, heq, ht⟩ | hk
    · exact absurd (htop t rest heq) ht
    · exact hk
  have hform : normalise parentDir (cs ++ [parentDir]) = List.replicate (k + 1) parentDir := by
    rw [normalise_append, hk, push_up_replicate]
  rw [hform]
  rcases h.stack with hstack | ⟨-, hn, hnames, x, hx, hstack⟩
  · rw [hk] at hstack hzero hone
    cases k with
    | zero =>
      have hmany : ¬ s.slashes < 2 := by
        intro hfew
        rw [h.slashes] at hfew
        have hn : n = 0 ∨ n = 1 := by omega
        rcases hn with hn | hn
        · exact h.relative hnamed hn hstack
        · exact hone ⟨hn, rfl⟩
      rw [Cleaned.component_up, if_pos hnamed, Cleaned.parent_nil hstack, if_neg hmany, Option.getD_some]
      refine Lost.shorter hnamed ?_
      have hslashes := h.slashes
      dsimp only
      omega
    | succ k =>
      rw [List.replicate_succ] at hstack
      have hpop : ¬ (s.slashes = 0 ∧ List.replicate k parentDir = []) := by
        intro hfirst
        rw [List.replicate_succ, hfirst.2] at hzero
        exact hzero ⟨h.slashes.symm.trans hfirst.1, rfl⟩
      rw [Cleaned.component_up_pop hnamed hstack hpop]
      have hfewer : (List.replicate k parentDir).count parentDir <
          (List.replicate (k + 1 + 1) parentDir).count parentDir := by
        rw [List.count_replicate_self, List.count_replicate_self]
        omega
      by_cases hn : n = 0
      · cases k with
        | zero => exact absurd ⟨h.slashes.trans hn, rfl⟩ hpop
        | succ k =>
          refine Lost.relative hnamed h.slashes hn (normal_replicate _ _) hfewer ?_ ?_
          · rw [List.count_replicate_self]
            omega
          · show (List.replicate (k + 1) parentDir).getLast? = some parentDir
            rw [List.replicate_succ']
            exact List.getLast?_concat
      · refine Lost.absolute hnamed h.slashes (Nat.pos_of_ne_zero hn) (normal_replicate _ _) hfewer ?_
        rw [List.count_replicate_self]
        omega
  · cases k with
    | succ k =>
      rw [hk] at hnames
      exact absurd List.mem_cons_self hnames
    | zero =>
      rw [hk] at hstack
      rw [Cleaned.component_up_pop hnamed hstack fun hfirst => List.cons_ne_nil _ _ hfirst.2]
      exact Lost.first hnamed h.slashes hn (by decide) [] x hx List.not_mem_nil (Or.inl rfl)

/-- What is lost does not come back with a name. -/
theorem Lost.name (h : Lost n stack s) (hdot : c ≠ [dot]) (hc : c ≠ parentDir) :
    Lost n (push parentDir stack c) (s.component c).1 := by
  rw [Cleaned.component_name hdot hc, push_of_ne hc]
  have hcount : (c :: stack).count parentDir = stack.count parentDir := List.count_cons_of_ne hc
  have hwritten : (c :: s.stack).count parentDir = s.stack.count parentDir := List.count_cons_of_ne hc
  cases h with
  | shorter named fewer => exact Lost.shorter rfl fewer
  | absolute named slashes positive normal fewer two =>
    rw [← hwritten, ← hcount] at fewer
    exact Lost.absolute rfl slashes positive (normal.cons hc) fewer (hcount ▸ two)
  | relative named slashes zero normal fewer three last =>
    rw [← hwritten, ← hcount] at fewer
    refine Lost.relative rfl slashes zero (normal.cons hc) fewer (hcount ▸ three) ?_
    show (c :: s.stack).getLast? = some parentDir
    rw [List.getLast?_cons, last]
    rfl
  | first named slashes zero one names x isName areNames written =>
    refine Lost.first rfl slashes zero (hcount ▸ one) (c :: names) x isName ?_ ?_
    · rw [List.mem_cons, not_or]
      exact ⟨Ne.symm hc, areNames⟩
    · exact written.imp (congrArg (c :: ·)) (congrArg (c :: ·))

/-- Nor with a `..`. -/
theorem Lost.up (h : Lost n stack s) : Lost n (push parentDir stack parentDir) (s.component parentDir).1 := by
  have hmono := count_le_push parentDir stack parentDir
  cases h with
  | shorter named fewer =>
    rw [Cleaned.component_up, if_pos named]
    cases hparent : s.parent with
    | none => exact Lost.shorter named fewer
    | some s' =>
      obtain ⟨-, hnamed, hle⟩ := Cleaned.parent_stack hparent
      exact Lost.shorter (hnamed.trans named) (Nat.lt_of_le_of_lt hle fewer)
  | absolute named slashes positive normal fewer two =>
    cases hstack : s.stack with
    | nil =>
      rw [Cleaned.component_up, if_pos named, Cleaned.parent_nil hstack]
      by_cases hfew : s.slashes < 2
      · rw [if_pos hfew, Option.getD_none]
        have hup : (s.push parentDir).stack = [parentDir] := congrArg (parentDir :: ·) hstack
        refine Lost.absolute named slashes positive ?_ ?_ (Nat.le_trans two hmono)
        · rw [hup]
          exact normal_replicate parentDir 1
        · rw [hup, List.count_singleton_self]
          omega
      · rw [if_neg hfew, Option.getD_some]
        refine Lost.shorter named ?_
        dsimp only
        omega
    | cons t rest =>
      rw [Cleaned.component_up_pop named hstack fun hfirst => by omega]
      rw [hstack] at normal fewer
      refine Lost.absolute named slashes positive normal.tail ?_ (Nat.le_trans two hmono)
      have hle : rest.count parentDir ≤ (t :: rest).count parentDir := List.count_le_count_cons
      dsimp only
      omega
  | relative named slashes zero normal fewer three last =>
    cases hstack : s.stack with
    | nil =>
      rw [hstack] at last
      cases last
    | cons t rest =>
      rw [hstack] at normal fewer last
      by_cases hrest : rest = []
      · subst hrest
        obtain rfl := Option.some.inj last
        rw [Cleaned.component_up_first named hstack (slashes.trans zero)]
        have hup : (s.push parentDir).stack = [parentDir, parentDir] := congrArg (parentDir :: ·) hstack
        refine Lost.relative named slashes zero ?_ ?_ (Nat.le_trans three hmono) ?_
        · rw [hup]
          exact normal_replicate parentDir 2
        · rw [hup]
          exact Nat.lt_of_lt_of_le (by decide) (Nat.le_trans three hmono)
        · rw [hup]
          rfl
      · rw [Cleaned.component_up_pop named hstack fun hfirst => hrest hfirst.2]
        refine Lost.relative named slashes zero normal.tail ?_ (Nat.le_trans three hmono) ?_
        · have hle : rest.count parentDir ≤ (t :: rest).count parentDir := List.count_le_count_cons
          dsimp only
          omega
        · cases rest with
          | nil => exact absurd rfl hrest
          | cons u rest => exact last
  | first named slashes zero one names x isName areNames written =>
    have hone := Nat.le_trans one hmono
    cases names with
    | nil =>
      rcases written with hstack | hstack
      · rw [Cleaned.component_up_first named hstack (slashes.trans zero)]
        exact Lost.first named slashes zero hone [] x isName areNames (Or.inr (congrArg (parentDir :: ·) hstack))
      · rw [Cleaned.component_up_pop named hstack fun hfirst => List.cons_ne_nil _ _ hfirst.2]
        exact Lost.first named slashes zero hone [] x isName areNames (Or.inl rfl)
    | cons t names =>
      rw [List.mem_cons, not_or] at areNames
      rcases written with hstack | hstack
      · have hne : names ++ [x] ≠ [] := List.append_ne_nil_of_right_ne_nil _ (List.cons_ne_nil _ _)
        rw [Cleaned.component_up_pop named hstack fun hfirst => hne hfirst.2]
        exact Lost.first named slashes zero hone names x isName areNames.2 (Or.inl rfl)
      · have hne : names ++ [parentDir, x] ≠ [] := List.append_ne_nil_of_right_ne_nil _ (List.cons_ne_nil _ _)
        rw [Cleaned.component_up_pop named hstack fun hfirst => hne hfirst.2]
        exact Lost.first named slashes zero hone names x isName areNames.2 (Or.inr rfl)

theorem Lost.form (h : Lost n stack s) : (s.slashes, normalise parentDir s.stack.reverse) ≠ (n, stack) := by
  intro heq
  obtain ⟨hslashes, hform⟩ := Prod.mk.inj heq
  cases h with
  | shorter named fewer => omega
  | absolute named slashes positive normal fewer two =>
    rw [normalise_reverse normal] at hform
    rw [hform] at fewer
    exact Nat.lt_irrefl _ fewer
  | relative named slashes zero normal fewer three last =>
    rw [normalise_reverse normal] at hform
    rw [hform] at fewer
    exact Nat.lt_irrefl _ fewer
  | first named slashes zero one names x isName areNames written =>
    have hnone : parentDir ∉ stack := by
      rw [← hform]
      rcases written with hstack | hstack
      · have hmem : parentDir ∉ names ++ [x] := by
          rw [List.mem_append, not_or, List.mem_singleton]
          exact ⟨areNames, Ne.symm isName⟩
        rw [hstack, normalise_reverse ⟨names ++ [x], 0, (List.append_nil _).symm, hmem⟩]
        exact hmem
      · rw [hstack, normalise_name_up isName areNames]
        exact areNames
    rw [List.count_eq_zero.mpr hnone] at one
    omega

/-- A run of the loop stays faithful up to the first `..` that goes wrong, and is lost from there on. -/
theorem run_faithful_or_lost (n : ℕ) (hcs : ∀ c ∈ cs, c ≠ [dot]) :
    (¬ Escapes n cs → Faithful n cs ((⟨n, [], false⟩ : Cleaned).run cs)) ∧
      (Escapes n cs → Lost n (normalise parentDir cs) ((⟨n, [], false⟩ : Cleaned).run cs)) := by
  induction cs using List.reverseRecOn with
  | nil =>
    refine ⟨fun _ => faithful_empty n, fun hescapes => ?_⟩
    obtain ⟨pre, post, heq, -⟩ := hescapes
    cases pre <;> cases heq
  | append_singleton cs c ih =>
    have hdot := hcs c (by simp)
    obtain ⟨hfaithful, hlost⟩ := ih fun d hd => hcs d (List.mem_append_left _ hd)
    have hrun : (⟨n, [], false⟩ : Cleaned).run (cs ++ [c]) = (((⟨n, [], false⟩ : Cleaned).run cs).component c).1 :=
      List.foldl_append
    rw [escapes_append_iff, hrun]
    constructor
    · intro hnot
      rw [not_or] at hnot
      by_cases hc : c = parentDir
      · subst hc
        exact (hfaithful hnot.1).up fun hat => hnot.2 ⟨rfl, hat⟩
      · exact (hfaithful hnot.1).name hdot hc
    · intro hescapes
      by_cases hbefore : Escapes n cs
      · rw [normalise_append]
        by_cases hc : c = parentDir
        · subst hc
          exact (hlost hbefore).up
        · exact (hlost hbefore).name hdot hc
      · obtain ⟨rfl, hat⟩ := hescapes.resolve_left hbefore
        exact (hfaithful hbefore).escape hat

end Steps

/-- **The meaning is kept** by exactly the paths without a `..` that goes wrong. -/
theorem pathForm_cleanedPath_iff (p : Bytes) :
    pathForm (cleanedPath p) = pathForm p ↔ ¬ Escapes (pathForm p).1 (components p) := by
  have hdot : ∀ c ∈ components p, c ≠ [dot] := fun c hc => (of_decide_eq_true (List.mem_filter.mp hc).2).2
  obtain ⟨hfaithful, hlost⟩ := run_faithful_or_lost (pathForm p).1 hdot
  rw [pathForm_cleanedPath]
  constructor
  · intro heq hescapes
    exact (hlost hescapes).form heq
  · intro hnot
    exact (hfaithful hnot).form

/-! ### The call -/

theorem Leaves.unique {run : Option (Buffers × ℕ)} {r r' : Bytes} (h : Leaves run r) (h' : Leaves run r') :
    r = r' := by
  obtain ⟨-, b, heq, hholds, -⟩ := h
  obtain ⟨-, b', heq', hholds', -⟩ := h'
  rw [heq] at heq'
  obtain ⟨rfl, hlen⟩ := Prod.mk.inj (Option.some.inj heq')
  refine List.ext_getElem hlen fun k hk hk' => ?_
  have hbyte := (hholds k hk).symm.trans (hholds' k hk')
  rw [Bytes.at, Bytes.at, List.getD_eq_getElem _ _ hk, List.getD_eq_getElem _ _ hk'] at hbyte
  exact hbyte

/-- The string that a call leaves means what the path means. -/
def CleanLaw (p : Bytes) (run : Option (Buffers × ℕ)) : Prop := ∃ r, Leaves run r ∧ pathForm r = pathForm p

/-- **Path cleaning** keeps the meaning of exactly the paths without a `..` that goes wrong. -/
theorem cleanLaw_iff {p : Bytes} (h0 : 0 ∉ p) (hne : p ≠ []) {m : ByteMem} (hm : HoldsPath m p) (buf : ByteMem)
    {fuel : ℕ} (hfuel : p.length < fuel) :
    CleanLaw p (cleanPath fuel ⟨false, m, buf, []⟩) ↔ ¬ Escapes (pathForm p).1 (components p) := by
  have hleaves := cleanPath_leaves h0 hne hfuel (b := ⟨false, m, buf, []⟩) hm rfl
  rw [← pathForm_cleanedPath_iff]
  constructor
  · rintro ⟨r, hr, hform⟩
    rw [← hleaves.unique hr] at hform
    exact hform
  · intro hform
    exact ⟨cleanedPath p, hleaves, hform⟩

/-- `/a/./../b` keeps its meaning. -/
theorem cleanLaw_parent :
    CleanLaw [pathSlash, 0x61, pathSlash, dot, pathSlash, dot, dot, pathSlash, 0x62]
      (cleanPath 10 ⟨false, memOf [pathSlash, 0x61, pathSlash, dot, pathSlash, dot, dot, pathSlash, 0x62],
        fun _ => 0xff, []⟩) := by
  refine (cleanLaw_iff (by decide) (by decide) (fun _ _ => rfl) _ (by decide)).mpr ?_
  refine (pathForm_cleanedPath_iff _).mp ?_
  decide +kernel

/-- `x/../../y` becomes `x/y`. -/
theorem not_cleanLaw_parents :
    ¬ CleanLaw [0x78, pathSlash, dot, dot, pathSlash, dot, dot, pathSlash, 0x79]
      (cleanPath 10 ⟨false, memOf [0x78, pathSlash, dot, dot, pathSlash, dot, dot, pathSlash, 0x79],
        fun _ => 0xff, []⟩) := by
  rintro ⟨r, hr, hform⟩
  have hshort : ([0x78, pathSlash, dot, dot, pathSlash, dot, dot, pathSlash, 0x79] : Bytes).length < 10 := by decide
  have hleaves := cleanPath_leaves (by decide) (by decide) hshort
    (b := ⟨false, memOf [0x78, pathSlash, dot, dot, pathSlash, dot, dot, pathSlash, 0x79], fun _ => 0xff, []⟩)
    (fun _ _ => rfl) rfl
  rw [hr.unique hleaves] at hform
  revert hform
  decide +kernel

end Fcitx
