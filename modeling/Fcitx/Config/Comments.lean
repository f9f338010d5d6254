/-
# Values and comments

`fcitx_configuration_set_comment_by_path` finds the node as
`fcitx_configuration_set_value_by_path` does, and then sets its value, not its comment. So a
run that sets both keeps them apart only if a comment is set where it is the value, and the
comment, already.

Key definitions: `Configuration.setCommentByPath`, `Configuration.comments`, `CommentOp`,
`StringsMap.step`, `Configuration.Apart`.
Key theorems: `Configuration.comments_setValueByPath`, `run_apart_iff`.
-/
import Fcitx.Config.IniRoundTrip
import Fcitx.Lib.Run

namespace Fcitx
namespace Configuration

/-- `fcitx_configuration_get_comment` -/
def getComment (config : Configuration) : Option Bytes := config.data.comment

/-- `fcitx_configuration_set_comment_by_path` -/
def setCommentByPath (root : Configuration) (path : Bytes) (value : Option Bytes) : Configuration :=
  let result := root._get path true
  match result.config with
  | some config => result.root.modify (setValue value) config
  | none => result.root

/-- The comment of the node at a path. -/
def commentAt (root : Configuration) (path : Bytes) : Option Bytes :=
  ((root.get path).bind root.find).bind getComment

/-- The comment at every list of segments. -/
def comments (root : Configuration) : PathMap := fun ks => (root.dataAt ks).bind (·.comment)

end Configuration

/-! ### Runs -/

/-- The setters by path. -/
inductive CommentOp where
  | setValueByPath (path : Bytes) (value : Option Bytes)
  | setCommentByPath (path : Bytes) (comment : Option Bytes)
deriving DecidableEq

/-- A step on the tree. -/
def Configuration.commentStep (root : Configuration) : CommentOp → Configuration
  | .setValueByPath path value => root.setValueByPath path value
  | .setCommentByPath path comment => root.setCommentByPath path comment

/-- The values and the comments. -/
structure StringsMap where
  values : PathMap
  comments : PathMap

/-- What a step should do: a value goes to the values, a comment to the comments. -/
def StringsMap.step (m : StringsMap) : CommentOp → StringsMap
  | .setValueByPath path value => { m with values := m.values.setValue (segments path) value }
  | .setCommentByPath path comment => { m with comments := m.comments.setValue (segments path) comment }

namespace Configuration

/-- The maps of a tree. -/
def stringsMap (root : Configuration) : StringsMap := ⟨root.values, root.comments⟩

/-- The tree shows the values and the comments that were set, and its text is read with those values
where the format can hold them. -/
structure Apart (beyond : Bytes → ℕ → UInt8) (root : Configuration) (m : StringsMap) : Prop where
  value : ∀ path, root.getValueByPath path = m.values (segments path)
  comment : ∀ path, root.commentAt path = m.comments (segments path)
  text : Writable root → root.data.value = none → (∀ ks value, root.values ks = some value → KeptValue value) →
    ∃ text, iniPrint beyond root = some text ∧
      ∀ path, (iniParse text freshConfiguration).getValueByPath path = m.values (segments path)

/-! ### One step -/

theorem commentAt_eq (root : Configuration) (path : Bytes) : root.commentAt path = root.comments (segments path) := by
  rw [commentAt, get_eq, comments, KeyTree.dataAt, Option.bind_map]
  split
  · rfl
  · next h =>
    rw [Bool.not_eq_true, Option.isSome_eq_false_iff, Option.isNone_iff_eq_none] at h
    rw [h]
    rfl

/-- Setting a value leaves the comments. -/
theorem comments_setValueByPath {root : Configuration} (h : root.Distinct) (path : Bytes) (value : Option Bytes) :
    (root.setValueByPath path value).comments = root.comments := by
  funext js
  rw [comments, (dataAt_setValueByPath h path value).2 js, comments]
  cases hroot : root.dataAt js with
  | some strings =>
    rw [Option.some_or, Option.map_some]
    split <;> rfl
  | none =>
    rw [Option.none_or]
    cases hmade : (if js <+: segments path then made js else none) with
    | none => rfl
    | some strings =>
      rw [Option.map_some]
      split
      · exact (made_strings hmade).2
      · exact (made_strings hmade).2

/-- **Setting a comment sets the value.** -/
theorem setCommentByPath_eq (root : Configuration) (path : Bytes) (comment : Option Bytes) :
    root.setCommentByPath path comment = root.setValueByPath path comment := rfl

theorem distinct_commentStep {root : Configuration} (h : root.Distinct) (op : CommentOp) :
    (root.commentStep op).Distinct := by
  cases op with
  | setValueByPath path value => exact (values_setValueByPath h path value).1
  | setCommentByPath path comment =>
    rw [commentStep, setCommentByPath_eq]
    exact (values_setValueByPath h path comment).1

/-- A step that sets what is there as value and comment, or that sets a value. -/
def Harmless (root : Configuration) : CommentOp → Prop
  | .setValueByPath _ _ => True
  | .setCommentByPath path comment => root.getValueByPath path = comment ∧ root.commentAt path = comment

/-- **A harmless step does what it should.** -/
theorem stringsMap_commentStep {root : Configuration} (h : root.Distinct) {op : CommentOp} (hop : root.Harmless op) :
    (root.commentStep op).stringsMap = root.stringsMap.step op := by
  cases op with
  | setValueByPath path value =>
    rw [commentStep, stringsMap, (values_setValueByPath h path value).2, comments_setValueByPath h]
    rfl
  | setCommentByPath path comment =>
    obtain ⟨hvalue, hcomment⟩ := hop
    rw [getValueByPath_eq] at hvalue
    rw [commentAt_eq] at hcomment
    have hvalues : root.values.setValue (segments path) comment = root.values := by
      rw [PathMap.setValue, ← hvalue, Function.update_eq_self]
    have hcomments : root.comments.setValue (segments path) comment = root.comments := by
      rw [PathMap.setValue, ← hcomment, Function.update_eq_self]
    rw [commentStep, setCommentByPath_eq, stringsMap, (values_setValueByPath h path comment).2,
      comments_setValueByPath h, hvalues]
    show _ = StringsMap.mk root.values (root.comments.setValue (segments path) comment)
    rw [hcomments]

theorem apart_stringsMap (beyond : Bytes → ℕ → UInt8) (root : Configuration) : root.Apart beyond root.stringsMap where
  value := root.getValueByPath_eq
  comment := root.commentAt_eq
  text hwritable hroot hkept := by
    have hlaw : RoundTripLaw beyond root := roundTripLaw_of_kept hwritable hroot hkept
    obtain ⟨text, htext, hread⟩ := hlaw
    refine ⟨text, htext, fun path => ?_⟩
    rw [hread path, getValueByPath_eq]
    rfl

/-- A comment that is kept apart was there as value and comment. -/
theorem harmless_of_apart {beyond : Bytes → ℕ → UInt8} {root : Configuration} (h : root.Distinct) {m : StringsMap}
    (hbefore : root.Apart beyond m) {op : CommentOp} (hafter : (root.commentStep op).Apart beyond (m.step op)) :
    root.Harmless op := by
  cases op with
  | setValueByPath path value => trivial
  | setCommentByPath path comment =>
    have hvalue := hafter.value path
    have hcomment := hafter.comment path
    rw [commentStep, setCommentByPath_eq, getValueByPath_eq, (values_setValueByPath h path comment).2,
      PathMap.setValue, Function.update_self] at hvalue
    rw [commentStep, setCommentByPath_eq, commentAt_eq, comments_setValueByPath h, ← commentAt_eq] at hcomment
    refine ⟨(hbefore.value path).trans hvalue.symm, hcomment.trans ?_⟩
    exact Function.update_self ..

end Configuration

/-! ### Whole runs -/

theorem distinct_commentRun {root : Configuration} (h : root.Distinct) (ops : List CommentOp) :
    (Run.exec Configuration.commentStep root ops).Distinct := by
  induction ops generalizing root with
  | nil => exact h
  | cons op ops ih => exact ih (Configuration.distinct_commentStep h op)

theorem stringsMap_commentRun {root : Configuration} (h : root.Distinct) {ops : List CommentOp}
    (hops : Run.Admissible Configuration.commentStep Configuration.Harmless root ops) :
    (Run.exec Configuration.commentStep root ops).stringsMap = Run.exec StringsMap.step root.stringsMap ops := by
  induction ops generalizing root with
  | nil => rfl
  | cons op ops ih =>
    obtain ⟨hfirst, hrest⟩ := hops
    rw [Run.exec_cons, ih (Configuration.distinct_commentStep h op) hrest,
      Configuration.stringsMap_commentStep h hfirst, Run.exec_cons]

/-- **Values and comments are kept apart in every state of a run** exactly if each comment that is set
is, in the state before, the value and the comment at its path. -/
theorem run_apart_iff (beyond : Bytes → ℕ → UInt8) (root : Configuration) (h : root.Distinct)
    (ops : List CommentOp) :
    (∀ before, before <+: ops → (Run.exec Configuration.commentStep root before).Apart beyond
        (Run.exec StringsMap.step root.stringsMap before)) ↔
      Run.Admissible Configuration.commentStep Configuration.Harmless root ops := by
  constructor
  · intro hapart
    refine Run.admissible_iff.mpr fun before op after hsplit => ?_
    have hbefore := hapart before (hsplit ▸ List.prefix_append before (op :: after))
    have hafter := hapart (before ++ [op]) ⟨after, by rw [hsplit, List.append_assoc]; rfl⟩
    rw [Run.exec_append, Run.exec_append] at hafter
    exact Configuration.harmless_of_apart (distinct_commentRun h before) hbefore hafter
  · rintro hops before ⟨after, rfl⟩
    rw [← stringsMap_commentRun h (Run.admissible_append.mp hops).1]
    exact Configuration.apart_stringsMap beyond _

/-- A comment that is NULL can be set at a new node, and a value after it. -/
theorem run_apart_iff_null :
    let ops : List CommentOp := [.setCommentByPath [97] none, .setValueByPath [97] (some [49])]
    (Run.exec Configuration.commentStep (Configuration.new none) ops).Apart (fun _ _ => 0)
      (Run.exec StringsMap.step (Configuration.new none).stringsMap ops) := by
  intro ops
  have hops : Run.Admissible Configuration.commentStep Configuration.Harmless (Configuration.new none) ops :=
    ⟨⟨by decide +kernel, by decide +kernel⟩, trivial, trivial⟩
  exact (run_apart_iff (fun _ _ => 0) (Configuration.new none) KeyTree.distinct_leaf ops).mpr hops ops List.prefix_rfl

/-- Setting a comment behind a value changes the value. -/
theorem not_apart_comment :
    ¬ ∀ (beyond : Bytes → ℕ → UInt8) (root : Configuration) (ops : List CommentOp), root.Distinct →
      (Run.exec Configuration.commentStep root ops).Apart beyond
        (Run.exec StringsMap.step root.stringsMap ops) := by
  intro h
  have hapart := h (fun _ _ => 0) (Configuration.new none)
    [.setValueByPath [97] (some [49]), .setCommentByPath [97] (some [99])] KeyTree.distinct_leaf
  exact absurd (hapart.value [97]) (by decide +kernel)

end Fcitx
