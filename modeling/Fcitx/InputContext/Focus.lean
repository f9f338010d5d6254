/-
# Focus groups

The focus functions of `fcitx/inputcontext.c`. A context is in the global
group, in a local group or in none. A group has at most one focus; a focus in
the global group excludes every local one.

Key definitions: `IcSystem.focusIn`, `IcSystem.focusOut`,
`IcSystem._setFocusGroup`, `IcSystem.focusGroupFree`.
-/
import Fcitx.InputContext.State

namespace Fcitx
namespace IcSystem

variable {V : Type}

/-- `_fcitx_input_context_focus_in`. -/
def _focusIn (s : IcSystem V) (c : ContextPtr) : IcSystem V :=
  (s.modify c fun ic => { ic with focused := true }).emit .inputContextFocusIn c .none

/-- `_fcitx_input_context_focus_out`. -/
def _focusOut (s : IcSystem V) (c : ContextPtr) : IcSystem V :=
  (s.modify c fun ic => { ic with focused := false }).emit .inputContextFocusOut c .none

/-- `_fcitx_input_context_group_set_focus`. -/
def _groupSetFocus (s : IcSystem V) (g : GroupPtr) (ic : Option ContextPtr) : IcSystem V :=
  let focus := (s.group g).focus
  let s := s.setGroupFocus g ic
  let s := match focus with
    | some old => s._focusOut old
    | none => s
  match ic with
  | some c => s._focusIn c
  | none => s

/-- `fcitx_input_context_focus_in`. -/
def focusIn (s : IcSystem V) (c : ContextPtr) : IcSystem V :=
  if (s.ctx c).group = some s.globalGroup then
    let s := Links.forEachEntry (fun s : IcSystem V => s.groupLinks) ()
      (fun g s => s._groupSetFocus g none) (s.groupTop + 1) s
    s._groupSetFocus s.globalGroup (some c)
  else
    match (s.ctx c).group with
    | some g => (s._groupSetFocus s.globalGroup none)._groupSetFocus g (some c)
    | none => if (s.ctx c).focused then s else s._focusIn c

/-- `fcitx_input_context_focus_out`. -/
def focusOut (s : IcSystem V) (c : ContextPtr) : IcSystem V :=
  match (s.ctx c).group with
  | some g => if (s.group g).focus = some c then s._groupSetFocus g none else s
  | none => if (s.ctx c).focused then s._focusOut c else s

/-- Unlink `c` from the list of its group. -/
def unlinkContext (s : IcSystem V) (c : ContextPtr) : IcSystem V :=
  { s with contextLinks := s.contextLinks.remove (.inr c) }

/-- Link `c` at the end of the list of `g`. -/
def linkContext (s : IcSystem V) (c : ContextPtr) (g : GroupPtr) : IcSystem V :=
  { s with contextLinks := s.contextLinks.append (.inr c) (.inl g) }

/-- The membership part of `_fcitx_input_context_set_focus_group`: unlink, link
in, and write `ic->group`. -/
def relink (s : IcSystem V) (c : ContextPtr) (group : Option GroupPtr) : IcSystem V :=
  let s := match (s.ctx c).group with
    | some _ => s.unlinkContext c
    | none => s
  let s := match group with
    | some g => s.linkContext c g
    | none => s
  s.modify c fun ic => { ic with group := group }

/-- `_fcitx_input_context_set_focus_group`. -/
def _setFocusGroup (s : IcSystem V) (c : ContextPtr) (group : Option GroupPtr) : IcSystem V :=
  if (s.ctx c).group = group then s
  else
    let oldFocus := (s.ctx c).focused
    let s := if oldFocus then s.focusOut c else s
    let s := s.relink c group
    if oldFocus then s.focusIn c else s

/-- `fcitx_input_context_set_focus_group`. -/
def setFocusGroup (s : IcSystem V) (c : ContextPtr) (type : FocusGroupType)
    (group : Option GroupPtr) : IcSystem V :=
  if (type = .local ∧ group = none) ∨ (type ≠ .local ∧ group ≠ none) then s
  else s._setFocusGroup c (if type = .global then some s.globalGroup else group)

/-- `_fcitx_input_context_focus_group_new`: the new group is at the old `groupTop`. -/
def _focusGroupNew (s : IcSystem V) : IcSystem V :=
  { s with
    contextLinks := s.contextLinks.init (.inl s.groupTop)
    group := Function.update s.group s.groupTop ⟨none⟩
    groupTop := s.groupTop + 1 }

/-- `fcitx_input_context_focus_group_new`. -/
def focusGroupNew (s : IcSystem V) : IcSystem V :=
  let g := s.groupTop
  let s := s._focusGroupNew
  { s with groupLinks := s.groupLinks.append (.inr g) (.inl ()) }

/-- `fcitx_input_context_focus_group_free`. -/
def focusGroupFree (s : IcSystem V) (g : GroupPtr) : IcSystem V :=
  let s := if g ≠ s.globalGroup then { s with groupLinks := s.groupLinks.remove (.inr g) } else s
  Links.forEachEntrySafe (fun s : IcSystem V => s.contextLinks) g
    (fun entry s => s._setFocusGroup entry none) (s.ctxTop + 1) s

end IcSystem
end Fcitx
