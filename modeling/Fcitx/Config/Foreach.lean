/-
# Walking over the subitems

The helper of `fcitx_configuration_foreach` in `fcitx-config/configuration.c`
writes the path of each subitem to a buffer that it makes when a path is longer
than what it has. The first path may be empty: then there is no buffer, and the
helper writes to NULL.

A write to NULL, or past the end of the buffer, gives `none`. The callback gets
the path as a string, and passes a state along.

Key definitions: `ForeachContext`, `subitemsForeach`, `Configuration.foreach`.
Key theorems: `subitemsForeach_eq`, `Configuration.foreach_eq`.
-/
import Fcitx.Config.Configuration
import Fcitx.Utils.StringUtils
import Mathlib.Data.List.TakeWhile

namespace Fcitx

/-- `FcitxConfigurationForeachCallback`, with the state behind `userData`. -/
abbrev ForeachCallback (σ : Type) := Configuration → Bytes → σ → Option σ

/-- `fcitx_configuration_foreach_context`, with the memory of `pathBuf`. -/
structure ForeachContext where
  path : Bytes
  /-- `none` is NULL -/
  pathBuf : Option Bytes
  pathBufLen : ℕ

/-- Write to a buffer, which has to have room. -/
def writeAt (memory : Bytes) (pos : ℕ) (bytes : Bytes) : Option Bytes :=
  if pos + bytes.length ≤ memory.length then
    some (memory.take pos ++ bytes ++ memory.drop (pos + bytes.length))
  else none

/-- `fcitx_utils_realloc`; what is new is zero. -/
def realloc (memory : Option Bytes) (size : ℕ) : Bytes :=
  let old := (memory.getD []).take size
  old ++ List.replicate (size - old.length) 0

namespace ForeachContext

/-- `context->pathLen` -/
def pathLen (context : ForeachContext) : ℕ := context.path.length

/-- Where the name of a subitem starts in the buffer. -/
def start (context : ForeachContext) : ℕ := context.pathLen + if context.pathLen ≠ 0 then 1 else 0

/-- Make the buffer, or make it longer. -/
def grow (context : ForeachContext) (newPathLen : ℕ) : Option ForeachContext :=
  if context.pathBufLen < newPathLen then
    let memory := realloc context.pathBuf (newPathLen + 1)
    let memory :=
      if context.pathBufLen = 0 ∧ context.pathLen ≠ 0 then
        (writeAt memory 0 context.path).bind fun memory => writeAt memory context.pathLen [slash]
      else some memory
    memory.map fun memory => { context with pathBuf := some memory, pathBufLen := newPathLen }
  else some context

end ForeachContext

/-- `_fcitx_configuration_subitems_foreach`, with `recursive` false. -/
def subitemsForeach {σ : Type} (callback : ForeachCallback σ) (s : ForeachContext × σ)
    (item : Bytes × Configuration) : Option (ForeachContext × σ) :=
  let newPathLen := s.1.start + item.1.length
  (s.1.grow newPathLen).bind fun context =>
    context.pathBuf.bind fun memory =>
      (writeAt memory context.start item.1).bind fun memory =>
        (writeAt memory newPathLen [0]).bind fun memory =>
          (callback item.2 (cString memory) s.2).map fun state =>
            ({ context with pathBuf := some memory }, state)

namespace Configuration

/-- `_fcitx_configuration_foreach` -/
def _foreach {σ : Type} (config : Configuration) (path : Bytes) (callback : ForeachCallback σ) (s : σ) :
    Option σ :=
  match config.children with
  | none => some s
  | some subitems => (subitems.foldlM (subitemsForeach callback) (⟨path, none, 0⟩, s)).map Prod.snd

/-- `fcitx_configuration_foreach` -/
def «foreach» {σ : Type} (root : Configuration) (path pathPrefix : Bytes) (callback : ForeachCallback σ)
    (s : σ) : Option σ :=
  match (root.get path).bind root.find with
  | none => some s
  | some config => _foreach config pathPrefix callback s

/-- The path of a subitem. -/
def subPath (path key : Bytes) : Bytes := if path = [] then key else path ++ slash :: key

/-- The helper would write to NULL: the first subitem has no name, and there is nothing before it. -/
def NullBuffer (config : Configuration) (path : Bytes) : Prop :=
  path = [] ∧ (Assoc.keys config.entries).head? = some []

instance nullBufferDecidable (config : Configuration) (path : Bytes) : Decidable (config.NullBuffer path) :=
  inferInstanceAs (Decidable (_ ∧ _))

end Configuration

/-! ### The buffer -/

theorem writeAt_name {memory key : Bytes} {start : ℕ} (h : start + key.length < memory.length) :
    ((writeAt memory start key).bind fun memory => writeAt memory (start + key.length) [0]) =
      some (memory.take start ++ key ++ 0 :: memory.drop (start + key.length + 1)) := by
  have hstart : (memory.take start ++ key).length = start + key.length := by
    rw [List.length_append, List.length_take, Nat.min_eq_left (by omega)]
  have hroom : start + key.length + [(0 : UInt8)].length ≤
      (memory.take start ++ key ++ memory.drop (start + key.length)).length := by
    rw [List.length_append, hstart, List.length_drop, List.length_singleton]
    omega
  rw [writeAt, if_pos (Nat.le_of_lt h), Option.bind_some, writeAt, if_pos hroom]
  congr 1
  rw [List.take_left' hstart, List.length_singleton, ← List.drop_drop, List.drop_left' hstart, List.drop_drop,
    List.append_assoc, List.singleton_append]

namespace ForeachContext

variable {context : ForeachContext}

/-- What stands before every name. -/
def front (context : ForeachContext) : Bytes := if context.path = [] then [] else context.path ++ [slash]

theorem length_front (context : ForeachContext) : context.front.length = context.start := by
  unfold front start pathLen
  cases context.path with
  | nil => rfl
  | cons b path => simp

/-- The buffer has room for a path of `pathBufLen` bytes, and starts with the path of the node. -/
structure Ready (context : ForeachContext) : Prop where
  buf : ∀ memory ∈ context.pathBuf, 0 < context.pathBufLen ∧ memory.length = context.pathBufLen + 1 ∧
    context.front <+: memory
  null : context.pathBuf = none → context.pathBufLen = 0

theorem Ready.grow_new (h : context.Ready) (hnull : context.pathBuf = none) {newPathLen : ℕ}
    (hstart : context.start ≤ newPathLen) (hpos : 0 < newPathLen) :
    ∃ memory, context.grow newPathLen =
      some { context with pathBuf := some memory, pathBufLen := newPathLen } ∧
        memory.length = newPathLen + 1 ∧ context.front <+: memory := by
  have hlen : context.pathBufLen = 0 := h.null hnull
  unfold grow
  rw [hlen, hnull, if_pos hpos]
  have hnew : realloc none (newPathLen + 1) = List.replicate (newPathLen + 1) 0 := by
    simp [realloc]
  rw [hnew]
  by_cases hpath : context.path = []
  · have hzero : context.pathLen = 0 := by rw [pathLen, hpath, List.length_nil]
    simp only [hzero, ne_eq, not_true_eq_false, and_false, if_false, Option.map_some]
    refine ⟨_, rfl, List.length_replicate, ?_⟩
    rw [front, if_pos hpath]
    exact List.nil_prefix
  · have hne : context.pathLen ≠ 0 := fun hzero => hpath (List.length_eq_zero_iff.mp hzero)
    have hroom : context.pathLen + 1 ≤ newPathLen := by
      rw [start, if_pos hne] at hstart
      exact hstart
    simp only [hne, ne_eq, not_false_eq_true, and_self, if_true]
    have hpathlen : context.path.length = context.pathLen := rfl
    have hwrite : ((writeAt (List.replicate (newPathLen + 1) 0) 0 context.path).bind fun memory =>
        writeAt memory context.pathLen [slash]) =
          some (context.path ++ [slash] ++ List.replicate (newPathLen - context.pathLen) 0) := by
      rw [writeAt, if_pos (by rw [List.length_replicate, hpathlen]; omega), Option.bind_some, writeAt, if_pos]
      · rw [List.take_zero, List.nil_append, List.take_left' hpathlen, Nat.zero_add, List.length_singleton,
          ← List.drop_drop, List.drop_left' hpathlen, List.drop_drop, List.drop_replicate, hpathlen]
        congr 3
        omega
      · simp only [List.take_zero, List.nil_append, List.length_append, List.length_drop, List.length_replicate,
          List.length_singleton]
        omega
    rw [hwrite]
    refine ⟨_, rfl, ?_, ?_⟩
    · simp only [List.length_append, List.length_singleton, List.length_replicate]
      omega
    · rw [front, if_neg hpath]
      exact List.prefix_append _ _

/-- **After growing there is room for the new path**, unless there is no buffer and nothing to write. -/
theorem Ready.grow (h : context.Ready) {newPathLen : ℕ} (hstart : context.start ≤ newPathLen)
    (hsome : context.pathBuf = none → newPathLen ≠ 0) :
    ∃ memory len, context.grow newPathLen = some { context with pathBuf := some memory, pathBufLen := len } ∧
      0 < len ∧ newPathLen ≤ len ∧ memory.length = len + 1 ∧ context.front <+: memory := by
  cases hbuf : context.pathBuf with
  | none =>
    have hpos := Nat.pos_of_ne_zero (hsome hbuf)
    obtain ⟨memory, hgrow, hlen, hfront⟩ := h.grow_new hbuf hstart hpos
    exact ⟨memory, newPathLen, hgrow, hpos, Nat.le_refl _, hlen, hfront⟩
  | some old =>
    obtain ⟨hpos, hlen, hfront⟩ := h.buf old hbuf
    unfold ForeachContext.grow
    by_cases hlt : context.pathBufLen < newPathLen
    · have hold : ¬ (context.pathBufLen = 0 ∧ context.pathLen ≠ 0) := fun hzero => Nat.ne_of_gt hpos hzero.1
      rw [if_pos hlt]
      simp only [hold, if_false, Option.map_some]
      refine ⟨realloc context.pathBuf (newPathLen + 1), newPathLen, rfl, Nat.zero_lt_of_lt hlt, Nat.le_refl _,
        ?_, ?_⟩
      · simp only [realloc, hbuf, Option.getD_some, List.length_append, List.length_replicate, List.length_take]
        omega
      · rw [realloc, hbuf, Option.getD_some, List.take_of_length_le (by omega)]
        exact hfront.trans (List.prefix_append _ _)
    · rw [if_neg hlt]
      refine ⟨old, context.pathBufLen, ?_, hpos, Nat.le_of_not_lt hlt, hlen, hfront⟩
      rw [← hbuf]

theorem start_eq (path : Bytes) : Configuration.subPath path = fun key =>
    (if path = [] then [] else path ++ [slash]) ++ key := by
  funext key
  unfold Configuration.subPath
  split
  · rfl
  · rw [List.append_assoc, List.singleton_append]

end ForeachContext

/-! ### The subitems -/

section subitems

variable {σ : Type} {context : ForeachContext}

/-- **One subitem**: the callback gets its path, unless the path is empty and there is no buffer. -/
theorem subitemsForeach_eq (callback : ForeachCallback σ) (h : context.Ready) (s : σ) (item : Bytes × Configuration)
    (hsome : context.pathBuf = none → context.start + item.1.length ≠ 0) :
    ∃ context', context'.Ready ∧ context'.path = context.path ∧ context'.pathBuf ≠ none ∧
      subitemsForeach callback (context, s) item =
        (callback item.2 (cString (Configuration.subPath context.path item.1)) s).map fun s => (context', s) := by
  obtain ⟨memory, len, hgrow, hpos, hle, hlen, hfront⟩ := h.grow (Nat.le_add_right context.start item.1.length) hsome
  obtain ⟨rest, hrest⟩ := hfront
  have hroom : context.start + item.1.length < memory.length := by omega
  have htake : memory.take context.start = context.front := by
    rw [← hrest, List.take_left' context.length_front]
  set written := memory.take context.start ++ item.1 ++ 0 :: memory.drop (context.start + item.1.length + 1)
    with hwritten
  refine ⟨{ context with pathBuf := some written, pathBufLen := len }, ⟨fun m hm => ?_, fun hnone => ?_⟩, rfl, ?_, ?_⟩
  · obtain rfl := Option.some.inj hm
    refine ⟨hpos, ?_, ?_⟩
    · simp only [hwritten, List.length_append, List.length_take, List.length_cons, List.length_drop]
      omega
    · rw [hwritten, htake, List.append_assoc]
      exact List.prefix_append _ _
  · cases hnone
  · exact Option.some_ne_none _
  · have hpath : cString written = cString (Configuration.subPath context.path item.1) := by
      rw [hwritten, htake, cString_append_zero, ForeachContext.start_eq]
      rfl
    unfold subitemsForeach
    dsimp only
    rw [hgrow, Option.bind_some, Option.bind_some]
    show ((writeAt memory context.start item.1).bind fun memory => (writeAt memory _ [0]).bind _) = _
    rw [← Option.bind_assoc, writeAt_name hroom, Option.bind_some, ← hwritten, hpath]

/-- The subitems after the first one always have a buffer. -/
theorem foldlM_subitemsForeach (callback : Bytes × Configuration → ForeachCallback σ)
    (subitems : List (Bytes × Configuration)) (h : context.Ready) (hbuf : context.pathBuf ≠ none) (s : σ) :
    (subitems.foldlM (fun s item => subitemsForeach (callback item) s item) (context, s)).map Prod.snd =
      subitems.foldlM (fun s item =>
        callback item item.2 (cString (Configuration.subPath context.path item.1)) s) s := by
  induction subitems generalizing context s with
  | nil => rfl
  | cons item subitems ih =>
    obtain ⟨context', hready, hpath, hbuf', heq⟩ :=
      subitemsForeach_eq (callback item) h s item fun hnone => absurd hnone hbuf
    rw [List.foldlM_cons, List.foldlM_cons, heq]
    cases hcall : callback item item.2 (cString (Configuration.subPath context.path item.1)) s with
    | none => rfl
    | some t =>
      have hrest := ih hready hbuf' t
      rw [hpath] at hrest
      exact hrest

/-- **The subitems of a node**: the first one makes the buffer, unless there is nothing to write. -/
theorem foldlM_subitemsForeach_new (callback : Bytes × Configuration → ForeachCallback σ)
    (subitems : List (Bytes × Configuration)) {path : Bytes}
    (hnull : ¬ (path = [] ∧ (Assoc.keys subitems).head? = some [])) (s : σ) :
    (subitems.foldlM (fun s item => subitemsForeach (callback item) s item) (⟨path, none, 0⟩, s)).map Prod.snd =
      subitems.foldlM (fun s item => callback item item.2 (cString (Configuration.subPath path item.1)) s) s := by
  cases subitems with
  | nil => rfl
  | cons item subitems =>
    have hready : (⟨path, none, 0⟩ : ForeachContext).Ready :=
      ⟨fun m hm => absurd hm (Option.not_mem_none m), fun _ => rfl⟩
    have hsome : (⟨path, none, 0⟩ : ForeachContext).start + item.1.length ≠ 0 := by
      intro hzero
      have hkey : item.1 = [] := List.length_eq_zero_iff.mp (Nat.eq_zero_of_add_eq_zero_left hzero)
      refine hnull ⟨?_, congrArg some hkey⟩
      by_contra hpath
      have hfront := ForeachContext.length_front ⟨path, none, 0⟩
      rw [Nat.eq_zero_of_add_eq_zero_right hzero, ForeachContext.front, if_neg hpath, List.length_append] at hfront
      exact absurd hfront (Nat.succ_ne_zero _)
    obtain ⟨context', hready', hpath, hbuf, heq⟩ :=
      subitemsForeach_eq (callback item) hready s item fun _ => hsome
    rw [List.foldlM_cons, List.foldlM_cons, heq]
    cases hcall : callback item item.2 (cString (Configuration.subPath path item.1)) s with
    | none => rfl
    | some t =>
      have hrest := foldlM_subitemsForeach callback subitems hready' hbuf t
      rw [hpath] at hrest
      exact hrest

/-- **What walking over the subitems comes to**: the callback is called for each of them in order, with
its path, or the helper writes to NULL. -/
theorem Configuration._foreach_eq (config : Configuration) (path : Bytes) (callback : ForeachCallback σ) (s : σ) :
    Configuration._foreach config path callback s =
      if config.NullBuffer path then none
      else config.entries.foldlM (fun s item =>
        callback item.2 (cString (Configuration.subPath path item.1)) s) s := by
  obtain ⟨data, _ | subitems⟩ := config
  · rw [if_neg]
    · rfl
    · intro hnull
      exact absurd hnull.2 (by simp [KeyTree.entries, KeyTree.children, Assoc.keys])
  · split
    · next hnull =>
      obtain ⟨rfl, hhead⟩ := hnull
      cases subitems with
      | nil => cases hhead
      | cons item subitems =>
        -- the first name is empty, and there is no buffer
        have hkey : item.1 = [] := Option.some.inj hhead
        have hfault : subitemsForeach callback (⟨[], none, 0⟩, s) item = none := by
          unfold subitemsForeach
          rw [hkey]
          rfl
        simp only [Configuration._foreach, KeyTree.children, List.foldlM_cons, hfault]
        rfl
    · next hnull => exact foldlM_subitemsForeach_new (fun _ => callback) subitems hnull s

end subitems

/-! ### Callbacks that always go on -/

theorem foldlM_isSome {ι σ : Type} {f : σ → ι → Option σ} {P : ι → Prop} {l : List ι}
    (h : ∀ e ∈ l, ∀ s, (f s e).isSome = true ↔ P e) (s : σ) :
    (l.foldlM f s).isSome = true ↔ ∀ e ∈ l, P e := by
  induction l generalizing s with
  | nil => simp
  | cons e l ih =>
    rw [List.foldlM_cons, List.forall_mem_cons, ← h e List.mem_cons_self s]
    cases hfe : f s e with
    | none => simp
    | some t =>
      simp only [Option.isSome_some, true_and]
      exact ih (fun e he => h e (List.mem_cons_of_mem _ he)) t

/-- Callbacks that always go on. -/
theorem Configuration._foreach_isSome {σ : Type} (config : Configuration) (callback : ForeachCallback σ) (s : σ)
    (h : ∀ config path s, (callback config path s).isSome = true) :
    (Configuration._foreach config [] callback s).isSome = true ↔ (Assoc.keys config.entries).head? ≠ some [] := by
  rw [Configuration._foreach_eq]
  split
  · next hnull => exact iff_of_false Bool.false_ne_true fun hne => hne hnull.2
  · next hnull =>
    refine iff_of_true ?_ fun hhead => hnull ⟨rfl, hhead⟩
    exact (foldlM_isSome (P := fun _ => True) (fun e _ s => iff_of_true (h _ _ s) trivial) s).mpr fun _ _ => trivial

end Fcitx
