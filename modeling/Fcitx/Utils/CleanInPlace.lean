/-
# Cleaning a path in place

One round of the loop does to what has been written what `Cleaned.component`
says, and the whole call leaves `cleanedPath p`, whether it writes to the path
or to a buffer of its own. Between two components the written bytes end before
the byte that is read next, and that is all that writing in place needs.

Key definitions: `Finished`, `Leaves`, `WritesBehind`, `InPlaceLaw`.
Key theorems: `Cleaned.scanLoop_parent`, `Cleaned.afterComponent_spec`, `cleanLoop_spec`, `cleanPath_spec`,
`inPlaceLaw_holds`.
-/
import Fcitx.Lib.Fields
import Fcitx.Utils.CleanPath

namespace Fcitx

/-! ### One component -/

namespace Cleaned

variable {s s' : Cleaned} {c : Bytes}

theorem out_push (s : Cleaned) (c : Bytes) : (s.push c).out = s.out ++ c ++ [pathSlash] := by
  rw [out, out, push, List.reverse_cons, List.flatMap_append, List.flatMap_singleton, List.append_assoc,
    List.append_assoc]

theorem out_nil (s : Cleaned) (h : s.stack = []) : s.out = List.replicate s.slashes pathSlash := by
  rw [out, h]
  exact List.append_nil _

/-- What has been written ends with a slash. -/
theorem out_cases (s : Cleaned) :
    s.slashes = 0 ∧ s.stack = [] ∧ s.out = [] ∨
      ¬ (s.slashes = 0 ∧ s.stack = []) ∧ ∃ before, s.out = before ++ [pathSlash] := by
  cases hstack : s.stack with
  | nil =>
    rw [out_nil s hstack]
    cases hslashes : s.slashes with
    | zero => exact Or.inl ⟨rfl, rfl, rfl⟩
    | succ n => exact Or.inr ⟨fun h => absurd h.1 (Nat.succ_ne_zero n), _, List.replicate_succ'⟩
  | cons c stack =>
    have hs : s = ({ s with stack } : Cleaned).push c := by
      rw [push, ← hstack]
    refine Or.inr ⟨fun h => (by cases h.2), ?_⟩
    rw [hs, out_push]
    exact ⟨_, rfl⟩

/-- Looking backwards from the last slash finds where the parent ends. -/
theorem scanLoop_parent {b : Buffers} (hslash : ∀ c ∈ s.stack, pathSlash ∉ c)
    (h : ∀ k < s.out.length, b.buf k = s.out.at k) :
    (s.parent = none ∧ scanLoop b (s.out.length - 1) = none) ∨
      ∃ s' k removed, s.parent = some s' ∧ scanLoop b (s.out.length - 1) = some k ∧ k + 1 = s'.out.length ∧
        s.out = s'.out ++ removed ∧ s'.named = s.named := by
  cases hstack : s.stack with
  | nil =>
    rw [out_nil s hstack] at h ⊢
    rw [List.length_replicate] at h ⊢
    rw [parent, hstack]
    dsimp only
    by_cases hfew : s.slashes < 2
    · have hzero : s.slashes - 1 = 0 := by omega
      rw [if_pos hfew, hzero]
      exact Or.inl ⟨rfl, rfl⟩
    · obtain ⟨m, hm⟩ := Nat.exists_eq_add_of_le (Nat.not_lt.mp hfew)
      have hm1 : s.slashes - 1 = m + 1 := by omega
      have hout : (⟨s.slashes - 1, [], s.named⟩ : Cleaned).out = List.replicate (m + 1) pathSlash := by
        rw [out_nil _ rfl]
        dsimp only
        rw [hm1]
      have hlast : b.buf m = pathSlash := by
        rw [h m (by omega), Bytes.at, List.getD_replicate _ (by omega)]
      refine Or.inr ⟨_, m, [pathSlash], if_neg hfew, ?_, ?_, ?_, rfl⟩
      · rw [hm1, scanLoop, hlast, if_pos rfl]
      · rw [hout, List.length_replicate]
      · have hm2 : s.slashes = m + 1 + 1 := by omega
        rw [hout, hm2]
        exact List.replicate_succ'
  | cons c stack =>
    have hpush : s = ({ s with stack } : Cleaned).push c := by rw [push, ← hstack]
    have hparent : s.parent = if s.slashes = 0 ∧ stack = [] then none else some { s with stack } := by
      rw [parent, hstack]
    have hc : pathSlash ∉ c := hslash c (by rw [hstack]; exact List.mem_cons_self)
    generalize hbelow : ({ s with stack } : Cleaned) = below at hpush hparent
    have hfields : below.slashes = s.slashes ∧ below.stack = stack ∧ below.named = s.named := by
      rw [← hbelow]
      exact ⟨rfl, rfl, rfl⟩
    have hout : s.out = below.out ++ c ++ [pathSlash] := by
      rw [hpush, out_push]
    have hlen : s.out.length - 1 = (below.out ++ c).length := by
      rw [hout, List.length_append, List.length_singleton, Nat.add_sub_cancel]
    have hholds : ∀ k < (below.out ++ c).length, b.buf k = (below.out ++ c).at k := by
      intro k hk
      rw [h k (by omega), hout, Bytes.at, List.getD_append _ _ _ _ hk]
      rfl
    rw [hlen, hparent]
    rcases below.out_cases with ⟨h0, hnil, hempty⟩ | ⟨hne, before, hbefore⟩
    · rw [hfields.1] at h0
      rw [hfields.2.1] at hnil
      rw [hempty, List.nil_append] at hholds ⊢
      exact Or.inl ⟨if_pos ⟨h0, hnil⟩, scanLoop_none hc hholds⟩
    · rw [hfields.1, hfields.2.1] at hne
      refine Or.inr ⟨below, before.length, c ++ [pathSlash], if_neg hne, ?_, ?_, ?_, hfields.2.2⟩
      · rw [hbefore] at hholds ⊢
        exact scanLoop_slash hc hholds
      · rw [hbefore, List.length_append, List.length_singleton]
      · rw [hout, List.append_assoc]

/-- A component of dots only. -/
theorem count_dot_eq_iff {n : ℕ} : c.count dot = c.length ∧ c.length = n ↔ c = List.replicate n dot := by
  constructor
  · intro h
    refine List.eq_replicate_iff.mpr ⟨h.2, fun x hx => ?_⟩
    exact (List.count_eq_length.mp h.1 x hx).symm
  · rintro rfl
    exact ⟨by rw [List.count_replicate_self, List.length_replicate], List.length_replicate⟩

/-- What the code does about a component that was copied behind `s`. -/
theorem afterComponent_spec {b : Buffers} {i levels : ℕ} {rest : Bytes} (hslash : ∀ c ∈ s.stack, pathSlash ∉ c)
    (hnamed : 0 < levels ↔ s.named = true) (h : Cleaning b i (s.out ++ c) rest) :
    ∃ b' levels', afterComponent b i s.out.length (s.out ++ c).length c.length (c.count dot) levels =
        (b', (if (s.component c).2 then (s.component c).1.out else s.out ++ c).length, levels', (s.component c).2) ∧
      (0 < levels' ↔ (s.component c).1.named = true) ∧
      Cleaning b' i (if (s.component c).2 then (s.component c).1.out else s.out ++ c) rest := by
  have hle := h.le
  rw [List.length_append] at hle
  unfold afterComponent component
  by_cases hdots : c.count dot = c.length
  case neg =>
    have h1 : c ≠ [dot] := by
      rintro rfl
      exact hdots rfl
    have h2 : c ≠ [dot, dot] := by
      rintro rfl
      exact hdots rfl
    rw [if_neg hdots, if_neg h1, if_neg h2]
    exact ⟨b, levels + 1, rfl, ⟨fun _ => rfl, fun _ => Nat.succ_pos _⟩, h⟩
  case pos =>
    rw [if_pos hdots, hdots]
    by_cases hone : c.length = 1
    case pos =>
      have hc : c = [dot] := count_dot_eq_iff.mp ⟨hdots, hone⟩
      rw [if_pos hone, if_pos hc]
      exact ⟨_, levels, rfl, hnamed, h.truncate (by omega)⟩
    case neg =>
      have h1 : c ≠ [dot] := by
        rintro rfl
        exact hone rfl
      rw [if_neg hone, if_neg h1]
      by_cases htwo : c.length = 2
      case neg =>
        have h2 : c ≠ [dot, dot] := by
          rintro rfl
          exact htwo rfl
        rw [if_neg htwo, if_neg h2]
        exact ⟨b, levels + 1, rfl, ⟨fun _ => rfl, fun _ => Nat.succ_pos _⟩, h⟩
      case pos =>
        have h2 : c = [dot, dot] := count_dot_eq_iff.mp ⟨hdots, htwo⟩
        rw [if_pos htwo, if_pos h2]
        by_cases hlevels : 0 < levels
        case neg =>
          rw [if_neg hlevels, if_neg (fun hn => hlevels (hnamed.mpr hn))]
          exact ⟨b, levels, rfl, hnamed, h⟩
        case pos =>
          have hholds : ∀ k < s.out.length, b.buf k = s.out.at k := by
            intro k hk
            rw [h.holds k (by rw [List.length_append]; omega), Bytes.at, List.getD_append _ _ _ _ hk]
            rfl
          rw [if_pos hlevels, if_pos (hnamed.mp hlevels)]
          rcases scanLoop_parent hslash hholds with ⟨hparent, hscan⟩ |
            ⟨s', k, removed, hparent, hscan, hk, hout, hkeep⟩
          · rw [hparent, hscan]
            exact ⟨b, levels, rfl, hnamed, h⟩
          · have hshort : s'.out.length ≤ s.out.length := by
              rw [hout, List.length_append]
              exact Nat.le_add_right _ _
            rw [hparent, hscan]
            dsimp only
            rw [hk]
            rw [hout, List.append_assoc] at h
            exact ⟨_, levels, rfl, by rw [hkeep]; exact hnamed, h.truncate (by omega)⟩

end Cleaned

/-! ### All components -/

namespace Cleaned

variable {s : Cleaned} {c : Bytes} {cs : List Bytes}

theorem finish_cons (s : Cleaned) (c : Bytes) (hcs : cs ≠ []) :
    s.finish (c :: cs) = if c = [] then s.finish cs else (s.component c).1.finish cs := by
  cases cs with
  | nil => exact absurd rfl hcs
  | cons d cs => rfl

/-- A run of slashes separates two components. -/
theorem finish_slashes (s : Cleaned) (rest : Bytes) (m : ℕ) :
    s.finish ((List.replicate m pathSlash ++ rest).splitOn pathSlash) = s.finish (rest.splitOn pathSlash) := by
  induction m with
  | zero => rfl
  | succ m ih =>
    have hsplit : (pathSlash :: (List.replicate m pathSlash ++ rest)).splitOn pathSlash =
        [] :: (List.replicate m pathSlash ++ rest).splitOn pathSlash :=
      List.splitOn_append_cons_self_of_not_mem List.not_mem_nil _
    rw [List.replicate_succ, List.cons_append, hsplit, finish_cons _ _ (List.splitOn_ne_nil _ _), if_pos rfl]
    exact ih

/-- What can become of a component. -/
theorem component_cases (s : Cleaned) (c : Bytes) :
    (c = [dot] ∧ s.component c = (s, true)) ∨
      (∃ s', c = [dot, dot] ∧ s.named = true ∧ s.parent = some s' ∧ s.component c = (s', true)) ∨
      (c = [dot, dot] ∧ (s.named = true → s.parent = none) ∧ s.component c = (s.push c, false)) ∨
      (c ≠ [dot] ∧ c ≠ [dot, dot] ∧ s.component c = ({ s.push c with named := true }, false)) := by
  unfold component
  by_cases hdot : c = [dot]
  · rw [if_pos hdot]
    exact Or.inl ⟨hdot, rfl⟩
  · rw [if_neg hdot]
    by_cases hdots : c = [dot, dot]
    · rw [if_pos hdots]
      cases hnamed : s.named with
      | false =>
        refine Or.inr (Or.inr (Or.inl ⟨hdots, fun h => ?_, rfl⟩))
        cases h
      | true =>
        cases hparent : s.parent with
        | none => exact Or.inr (Or.inr (Or.inl ⟨hdots, fun _ => rfl, rfl⟩))
        | some s' => exact Or.inr (Or.inl ⟨s', hdots, rfl, rfl, rfl⟩)
    · rw [if_neg hdots]
      exact Or.inr (Or.inr (Or.inr ⟨hdot, hdots, rfl⟩))

theorem parent_stack {s' : Cleaned} (h : s.parent = some s') :
    s'.stack = s.stack.tail ∧ s'.named = s.named ∧ s'.slashes ≤ s.slashes := by
  unfold parent at h
  split at h
  · next hstack =>
    split at h
    · cases h
    · obtain rfl := Option.some.inj h
      rw [hstack]
      exact ⟨rfl, rfl, Nat.le_refl _⟩
  · next hstack =>
    split at h
    · cases h
    · obtain rfl := Option.some.inj h
      exact ⟨by rw [hstack]; rfl, rfl, Nat.sub_le ..⟩

/-- What is in the stack was there before, or is the component, if that is no `.`. -/
theorem mem_component {d : Bytes} (hd : d ∈ (s.component c).1.stack) : d ∈ s.stack ∨ d = c ∧ c ≠ [dot] := by
  rcases s.component_cases c with ⟨hc, h⟩ | ⟨s', hc, -, hparent, h⟩ | ⟨hc, -, h⟩ | ⟨hc, -, h⟩
  · rw [h] at hd
    exact Or.inl hd
  · rw [h, (parent_stack hparent).1] at hd
    exact Or.inl (List.mem_of_mem_tail hd)
  · rw [h] at hd
    rcases List.mem_cons.mp hd with hd | hd
    · exact Or.inr ⟨hd, by rw [hc]; decide⟩
    · exact Or.inl hd
  · rw [h] at hd
    rcases List.mem_cons.mp hd with hd | hd
    · exact Or.inr ⟨hd, hc⟩
    · exact Or.inl hd

/-- What is kept is written with a slash behind it. -/
theorem component_kept (h : (s.component c).2 = false) : (s.component c).1.out = s.out ++ c ++ [pathSlash] := by
  rcases s.component_cases c with ⟨-, heq⟩ | ⟨s', -, -, -, heq⟩ | ⟨-, -, heq⟩ | ⟨-, -, heq⟩
  · rw [heq] at h
    cases h
  · rw [heq] at h
    cases h
  · rw [heq]
    exact out_push s c
  · rw [heq]
    exact out_push s c

theorem zero_notMem_out (h : ∀ d ∈ s.stack, 0 ∉ d) : 0 ∉ s.out := by
  intro hmem
  rcases List.mem_append.mp hmem with hmem | hmem
  · exact absurd (List.eq_of_mem_replicate hmem) (by decide)
  · obtain ⟨d, hd, hzero⟩ := List.mem_flatMap.mp hmem
    rcases List.mem_append.mp hzero with hzero | hzero
    · exact h d (List.mem_reverse.mp hd) hzero
    · exact absurd (List.mem_singleton.mp hzero) (by decide)

theorem zero_notMem_finish {cs : List Bytes} (hs : ∀ d ∈ s.stack, 0 ∉ d) (hcs : ∀ d ∈ cs, 0 ∉ d) :
    0 ∉ s.finish cs := by
  have hcomponent : ∀ (s : Cleaned) (c : Bytes), (∀ d ∈ s.stack, 0 ∉ d) → 0 ∉ c →
      ∀ d ∈ (s.component c).1.stack, 0 ∉ d := by
    intro s c hs hc d hd
    rcases mem_component hd with hd | ⟨rfl, -⟩
    · exact hs d hd
    · exact hc
  induction s, cs using finish.induct with
  | case1 s => exact zero_notMem_out hs
  | case2 s c heaten =>
    rw [finish, if_pos heaten]
    exact zero_notMem_out (hcomponent s c hs (hcs c List.mem_cons_self))
  | case3 s c hkept =>
    rw [finish, if_neg hkept, List.mem_append, not_or]
    exact ⟨zero_notMem_out hs, hcs c List.mem_cons_self⟩
  | case4 s cs hne ih =>
    rw [finish, if_pos rfl]
    · exact ih hs fun d hd => hcs d (List.mem_cons_of_mem _ hd)
    · exact hne
  | case5 s c cs hne hc ih =>
    rw [finish, if_neg hc]
    · exact ih (hcomponent s c hs (hcs c List.mem_cons_self)) fun d hd => hcs d (List.mem_cons_of_mem _ hd)
    · exact hne

end Cleaned

/-- What is left of a string is one. -/
theorem zero_notMem_cleanedPath {p : Bytes} (h0 : 0 ∉ p) : 0 ∉ cleanedPath p := by
  refine Cleaned.zero_notMem_finish (fun d hd => absurd hd List.not_mem_nil) fun c hc hzero => ?_
  exact h0 (List.dropWhile_subset _ (Fields.mem_of_mem_splitOn hc hzero))

/-- The slashes before a component. -/
theorem exists_slashes (p : Bytes) : ∃ m rest, p = List.replicate m pathSlash ++ rest ∧ rest.at 0 ≠ pathSlash ∧
    p.takeWhile (· = pathSlash) = List.replicate m pathSlash ∧ p.dropWhile (· = pathSlash) = rest := by
  induction p with
  | nil => exact ⟨0, [], rfl, by decide, rfl, rfl⟩
  | cons c p ih =>
    by_cases hc : c = pathSlash
    · obtain ⟨m, rest, hp, hrest, htake, hdrop⟩ := ih
      refine ⟨m + 1, rest, ?_, hrest, ?_, ?_⟩
      · rw [hp, hc]
        rfl
      · rw [List.takeWhile_cons_of_pos (by simpa using hc), htake, hc]
        rfl
      · rw [List.dropWhile_cons_of_pos (by simpa using hc), hdrop]
    · exact ⟨0, c :: p, rfl, hc, List.takeWhile_cons_of_neg (by simpa using hc),
        List.dropWhile_cons_of_neg (by simpa using hc)⟩

/-- The component before a slash or the end. -/
theorem exists_component (p : Bytes) :
    ∃ c rest, p = c ++ rest ∧ pathSlash ∉ c ∧ (rest = [] ∨ rest.at 0 = pathSlash) := by
  induction p with
  | nil => exact ⟨[], [], rfl, List.not_mem_nil, Or.inl rfl⟩
  | cons x p ih =>
    by_cases hx : x = pathSlash
    · exact ⟨[], x :: p, rfl, List.not_mem_nil, Or.inr hx⟩
    · obtain ⟨c, rest, hp, hc, hrest⟩ := ih
      refine ⟨x :: c, rest, by rw [hp]; rfl, ?_, hrest⟩
      rw [List.mem_cons, not_or]
      exact ⟨Ne.symm hx, hc⟩

/-- At the end of a run the string `r` is in the buffer. -/
structure Finished (b : Buffers) (r : Bytes) (n : ℕ) : Prop where
  holds : ∀ k < r.length, b.buf k = r.at k
  terminated : b.buf r.length = 0
  le : r.length ≤ n
  behind : ∀ w ∈ b.writes, w.1 ≤ w.2

/-- The terminator is written, twice. -/
theorem Cleaning.finish {b : Buffers} {i : ℕ} {out : Bytes} (h : Cleaning b i out []) :
    Finished ((b.write out.length i 0).write out.length i 0) out i where
  holds := by
    intro k hk
    rw [Buffers.buf_write_of_ne (by omega), Buffers.buf_write_of_ne (by omega)]
    exact h.holds k hk
  terminated := Buffers.buf_write_self
  le := h.le
  behind := by
    intro w hw
    rcases List.mem_append.mp hw with hw | hw
    · exact h.behind_write h.le 0 w hw
    · rw [List.mem_singleton.mp hw]
      exact h.le

/-- **The loop** leaves what the components leave, with the writes behind the reads. -/
theorem cleanLoop_spec : ∀ {fuel : ℕ} {b : Buffers} {i levels : ℕ} {s : Cleaned} {rest : Bytes}, rest.length < fuel →
    0 ∉ rest → rest.at 0 ≠ pathSlash → (∀ c ∈ s.stack, pathSlash ∉ c) → (0 < levels ↔ s.named = true) →
    Cleaning b i s.out rest →
    ∃ b', cleanLoop fuel b i s.out.length levels = some (b', (s.finish (rest.splitOn pathSlash)).length) ∧
      Finished b' (s.finish (rest.splitOn pathSlash)) (i + rest.length) := by
  intro fuel
  induction fuel with
  | zero =>
    intro b i levels s rest hfuel
    exact absurd hfuel (Nat.not_lt_zero _)
  | succ fuel ih =>
    intro b i levels s rest hfuel h0 hhead hstack hnamed h
    obtain ⟨c, rest₁, rfl, hc, hrest₁⟩ := exists_component rest
    have hstop : rest₁.at 0 = 0 ∨ rest₁.at 0 = pathSlash := by
      rcases hrest₁ with rfl | hslash
      · exact Or.inl rfl
      · exact Or.inr hslash
    rw [List.mem_append, not_or] at h0
    rw [List.length_append] at hfuel
    have hshort : c.length < fuel + 1 := by omega
    obtain ⟨b₁, hcopy, hrun₁⟩ := componentLoop_spec hstop c 0 hshort h0.1 hc h
    rw [Nat.zero_add, ← List.length_append] at hcopy
    obtain ⟨b₂, levels₂, hafter, hnamed₂, hrun₂⟩ := Cleaned.afterComponent_spec hstack hnamed hrun₁
    have hread := hrun₂.read_head
    rw [cleanLoop, hcopy, Option.bind_eq_bind, Option.bind_some]
    dsimp only
    rw [Nat.add_sub_cancel_left, hafter]
    dsimp only
    rw [hread]
    cases hrest₁ with
    | inl hnil =>
      subst hnil
      have hzero : Bytes.at [] 0 = 0 := rfl
      rw [if_pos hzero, List.append_nil, List.splitOn_eq_singleton hc]
      have hfinish : s.finish [c] = if (s.component c).2 then (s.component c).1.out else s.out ++ c := rfl
      rw [hfinish]
      exact ⟨_, rfl, hrun₂.finish⟩
    | inr hslash =>
      have hne : c ≠ [] := by
        rintro rfl
        exact hhead hslash
      obtain ⟨m, rest₂, rfl, hrest₂, -⟩ := exists_slashes rest₁
      obtain ⟨m, rfl⟩ : ∃ m', m = m' + 1 := by
        cases m with
        | zero => exact absurd hslash hrest₂
        | succ m => exact ⟨m, rfl⟩
      rw [List.length_append, List.length_replicate] at hfuel
      rw [List.mem_append, not_or] at h0
      have hfew : m + 1 < fuel + 1 := by omega
      obtain ⟨hloop, hskip⟩ := skipLoop_spec hrest₂ (m + 1) hfew hrun₂
      have hsplit : (c ++ (List.replicate (m + 1) pathSlash ++ rest₂)).splitOn pathSlash =
          c :: (List.replicate m pathSlash ++ rest₂).splitOn pathSlash :=
        List.splitOn_append_cons_self_of_not_mem hc _
      have hnonzero : ¬ Bytes.at (List.replicate (m + 1) pathSlash ++ rest₂) 0 = 0 := by
        rw [hslash]
        decide
      have hend : i + (c ++ (List.replicate (m + 1) pathSlash ++ rest₂)).length =
          i + c.length + (m + 1) + rest₂.length := by
        rw [List.length_append, List.length_append, List.length_replicate]
        omega
      rw [if_neg hnonzero, hloop, Option.bind_eq_bind, Option.bind_some, hsplit,
        Cleaned.finish_cons _ _ (List.splitOn_ne_nil _ _), if_neg hne,
        Cleaned.finish_slashes, hend]
      have hstack₂ : ∀ d ∈ (s.component c).1.stack, pathSlash ∉ d := by
        intro d hd
        rcases Cleaned.mem_component hd with hd | ⟨rfl, -⟩
        · exact hstack d hd
        · exact hc
      cases heaten : (s.component c).2 with
      | true =>
        rw [heaten, if_pos rfl] at hskip
        rw [if_pos rfl, if_pos rfl]
        exact ih (by omega) h0.2.2 hrest₂ hstack₂ hnamed₂ hskip
      | false =>
        have hle := hrun₂.le
        rw [heaten, if_neg Bool.false_ne_true] at hskip hle
        have hrun₃ := hskip.append (by omega) pathSlash
        rw [← Cleaned.component_kept heaten] at hrun₃
        have hlen : (s.component c).1.out.length = (s.out ++ c).length + 1 := by
          rw [Cleaned.component_kept heaten, List.length_append, List.length_singleton]
        rw [if_neg Bool.false_ne_true, if_neg Bool.false_ne_true, ← hlen]
        exact ih (by omega) h0.2.2 hrest₂ hstack₂ hnamed₂ hrun₃

/-- **Cleaning a path** leaves `cleanedPath p` where it writes, whatever the two buffers are. -/
theorem cleanPath_spec {p : Bytes} (h0 : 0 ∉ p) (hne : p ≠ []) {fuel : ℕ} (hfuel : p.length < fuel) {b : Buffers}
    (hreads : ∀ k ≤ p.length, b.read k = p.at k) (hwrites : b.writes = []) :
    ∃ b', cleanPath fuel b = some (b', (cleanedPath p).length) ∧ Finished b' (cleanedPath p) p.length := by
  obtain ⟨m, rest, hp, hrest, htake, hdrop⟩ := exists_slashes p
  have hstart : Cleaning b ([] : Bytes).length [] (List.replicate m pathSlash ++ rest) := by
    rw [← hp]
    refine ⟨fun k hk => ?_, fun k hk => absurd hk (Nat.not_lt_zero k), Nat.le_refl _, fun w hw => ?_⟩
    · rw [List.length_nil, Nat.zero_add]
      exact hreads k hk
    · rw [hwrites] at hw
      exact absurd hw List.not_mem_nil
  have hlen : p.length = m + rest.length := by rw [hp, List.length_append, List.length_replicate]
  have h0rest : 0 ∉ rest := fun hmem => h0 (by rw [hp]; exact List.mem_append_right _ hmem)
  have hfew : m < fuel := by omega
  obtain ⟨b₁, hleading, hrun⟩ := leadingLoop_spec hrest m hfew hstart
  have hfirst : b.read 0 ≠ 0 := by
    rw [hreads 0 (Nat.zero_le _)]
    cases p with
    | nil => exact absurd rfl hne
    | cons c p => exact fun h => h0 (List.mem_cons.mpr (Or.inl h.symm))
  have hslashes : (⟨m, [], false⟩ : Cleaned).out = List.replicate m pathSlash := Cleaned.out_nil _ rfl
  rw [List.length_nil, Nat.zero_add] at hleading hrun
  rw [List.nil_append, ← hslashes] at hrun
  have hshort : rest.length < fuel := by omega
  have hlevels : 0 < 0 ↔ (⟨m, [], false⟩ : Cleaned).named = true :=
    ⟨fun h => absurd h (Nat.lt_irrefl 0), fun h => (by cases h)⟩
  obtain ⟨b', hloop, hfinished⟩ :=
    cleanLoop_spec hshort h0rest hrest (fun c hc => absurd hc List.not_mem_nil) hlevels hrun
  have hcleaned : cleanedPath p = (⟨m, [], false⟩ : Cleaned).finish (rest.splitOn pathSlash) := by
    rw [cleanedPath, htake, hdrop, List.length_replicate]
  rw [hslashes, List.length_replicate] at hloop
  refine ⟨b', ?_, by rw [hcleaned, hlen]; exact hfinished⟩
  rw [cleanPath, if_neg hfirst, hleading, hcleaned]
  exact hloop

/-! ### In place -/

/-- The memory holds the string `p` and its terminator. -/
def HoldsPath (m : ByteMem) (p : Bytes) : Prop := ∀ k ≤ p.length, m k = p.at k

/-- The string `r` is what a call has left in its buffer, and it returns its length. -/
def Leaves (run : Option (Buffers × ℕ)) (r : Bytes) : Prop :=
  0 ∉ r ∧ ∃ b, run = some (b, r.length) ∧ (∀ k < r.length, b.buf k = r.at k) ∧ b.buf r.length = 0

/-- No byte is written at an index greater than that of the next input byte to be read. -/
def WritesBehind (run : Option (Buffers × ℕ)) : Prop := ∃ b n, run = some (b, n) ∧ ∀ w ∈ b.writes, w.1 ≤ w.2

/-- **In place**: a call on the path itself and one with a buffer of its own leave the same string. -/
structure InPlaceLaw (p : Bytes) (inPlace outOfPlace : Option (Buffers × ℕ)) : Prop where
  same : ∃ r, Leaves inPlace r ∧ Leaves outOfPlace r ∧ r.length ≤ p.length
  behind : WritesBehind inPlace ∧ WritesBehind outOfPlace

/-- **The string that a call leaves** is `cleanedPath`. -/
theorem cleanPath_leaves {p : Bytes} (h0 : 0 ∉ p) (hne : p ≠ []) {fuel : ℕ} (hfuel : p.length < fuel) {b : Buffers}
    (hreads : ∀ k ≤ p.length, b.read k = p.at k) (hwrites : b.writes = []) :
    Leaves (cleanPath fuel b) (cleanedPath p) := by
  obtain ⟨b', heq, hfinished⟩ := cleanPath_spec h0 hne hfuel hreads hwrites
  exact ⟨zero_notMem_cleanedPath h0, b', heq, hfinished.holds, hfinished.terminated⟩

/-- **In-place cleaning** is cleaning. -/
theorem inPlaceLaw_holds {p : Bytes} (h0 : 0 ∉ p) (hne : p ≠ []) {m : ByteMem} (hm : HoldsPath m p) (buf : ByteMem)
    {fuel : ℕ} (hfuel : p.length < fuel) :
    InPlaceLaw p (cleanPath fuel ⟨true, m, m, []⟩) (cleanPath fuel ⟨false, m, buf, []⟩) := by
  obtain ⟨b₁, heq₁, h₁⟩ := cleanPath_spec h0 hne hfuel (b := ⟨true, m, m, []⟩) hm rfl
  obtain ⟨b₂, heq₂, h₂⟩ := cleanPath_spec h0 hne hfuel (b := ⟨false, m, buf, []⟩) hm rfl
  have hleaves₁ := cleanPath_leaves h0 hne hfuel (b := ⟨true, m, m, []⟩) hm rfl
  have hleaves₂ := cleanPath_leaves h0 hne hfuel (b := ⟨false, m, buf, []⟩) hm rfl
  exact ⟨⟨cleanedPath p, hleaves₁, hleaves₂, h₁.le⟩, ⟨b₁, _, heq₁, h₁.behind⟩, ⟨b₂, _, heq₂, h₂.behind⟩⟩

/-- The bytes of a string, followed by zeros. -/
def memOf (p : Bytes) : ByteMem := fun k => p.at k

/-- `a/..//b` is cleaned in place. -/
theorem inPlaceLaw_parent :
    InPlaceLaw [0x61, pathSlash, dot, dot, pathSlash, pathSlash, 0x62]
      (cleanPath 8 ⟨true, memOf [0x61, pathSlash, dot, dot, pathSlash, pathSlash, 0x62],
        memOf [0x61, pathSlash, dot, dot, pathSlash, pathSlash, 0x62], []⟩)
      (cleanPath 8 ⟨false, memOf [0x61, pathSlash, dot, dot, pathSlash, pathSlash, 0x62], fun _ => 0xff, []⟩) :=
  inPlaceLaw_holds (by decide) (by decide) (fun _ _ => rfl) _ (by decide)

end Fcitx
