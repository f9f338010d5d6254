/-
# Circular doubly linked lists

A list node carries two links, `next` and `prev`; a head is a node that is
never an element. `LinkRing l h xs` says that following `next` from the head `h`
visits the nodes `xs` in order and returns to `h`, and that `prev` undoes each
step. Appending before the head, prepending after it and unlinking a node act on
the ring as `xs ++ [n]`, `n :: xs` and `xs.erase n` (`LinkRing.append`,
`LinkRing.prepend`, `LinkRing.remove`) and leave every other ring alone
(`LinkRing.append_frame`, `LinkRing.remove_frame`).

Key definitions: `Links`, `LinkRing`, `Links.toList`, `Links.forEach`,
`Links.forEachSafe`.
Key theorems: `LinkRing.append`, `LinkRing.prepend`, `LinkRing.remove`,
`LinkRing.toList_eq`, `LinkRing.forEach_eq_foldl`, `LinkRing.forEachSafe_eq_foldl`.
-/
import Mathlib.Data.List.Chain
import Mathlib.Data.List.Nodup
import Mathlib.Logic.Function.Basic

/-- The two links of every node; `none` is the null pointer. -/
structure Links (α : Type) where
  next : α → Option α
  prev : α → Option α

namespace Links

variable {α : Type}

/-- Neighbours: each link leads to the other node. -/
def Adj (l : Links α) (a b : α) : Prop := l.next a = some b ∧ l.prev b = some a

/-- A chain reads the `next` of all its nodes but the last and the `prev` of
all but the first. -/
theorem chain_transport {l l' : Links α} :
    ∀ {xs : List α}, xs.IsChain l.Adj → (∀ a ∈ xs.dropLast, l'.next a = l.next a) →
      (∀ b ∈ xs.tail, l'.prev b = l.prev b) → xs.IsChain l'.Adj
  | [], _, _, _ => .nil
  | [a], _, _, _ => .singleton a
  | a :: b :: xs, h, hn, hp => by
    rw [List.isChain_cons_cons] at h ⊢
    obtain ⟨hab, hc⟩ := h
    refine ⟨⟨(hn a (by simp)).trans hab.1, (hp b (by simp)).trans hab.2⟩, ?_⟩
    refine chain_transport hc (fun x hx => hn x ?_) (fun x hx => hp x ?_)
    · rw [List.dropLast_cons_of_ne_nil (by simp)]
      exact List.mem_cons_of_mem _ hx
    · exact List.mem_of_mem_tail hx

variable [DecidableEq α]

def setNext (l : Links α) (a : α) (b : Option α) : Links α :=
  { l with next := Function.update l.next a b }

def setPrev (l : Links α) (a : α) (b : Option α) : Links α :=
  { l with prev := Function.update l.prev a b }

/-- No node is linked. -/
def null : Links α := ⟨fun _ => none, fun _ => none⟩

/-- A node that points at itself both ways: the empty ring. -/
def init (l : Links α) (pos : α) : Links α :=
  (l.setNext pos (some pos)).setPrev pos (some pos)

def isEmpty (l : Links α) (pos : α) : Bool := l.next pos = some pos

def insertBetween (l : Links α) (add prev next : α) : Links α :=
  (((l.setPrev next (some add)).setNext prev (some add)).setNext add (some next)).setPrev add
    (some prev)

/-- Link `add` in before `pos`, that is at the end of the ring of the head `pos`. -/
def append (l : Links α) (add pos : α) : Links α :=
  match l.prev pos with
  | some p => l.insertBetween add p pos
  | none => l

/-- Link `add` in after `pos`, that is at the start of the ring of the head `pos`. -/
def prepend (l : Links α) (add pos : α) : Links α :=
  match l.next pos with
  | some n => l.insertBetween add pos n
  | none => l

/-- The links read the other way round. -/
def swap (l : Links α) : Links α := ⟨l.prev, l.next⟩

/-- Link the neighbours of `pos` to each other and clear its own links. -/
def remove (l : Links α) (pos : α) : Links α :=
  match l.next pos, l.prev pos with
  | some n, some p =>
    (((l.setNext p (some n)).setPrev n (some p)).setNext pos none).setPrev pos none
  | _, _ => l

/-- The nodes met by following `next` from `a` until the head `h`. -/
def walk (l : Links α) (h : α) : ℕ → Option α → List α
  | 0, _ => []
  | _ + 1, none => []
  | n + 1, some a => if a = h then [] else a :: walk l h n (l.next a)

/-- The elements of the ring of `h`, `fuel` of them at most. -/
def toList (l : Links α) (h : α) (fuel : ℕ) : List α := walk l h fuel (l.next h)

section loops

variable {σ : Type} (links : σ → Links α) (h : α) (body : α → σ → σ)

/-- `for (key = cur; key != h; key = key->next) body`: the step to the next
node reads the links the body left. -/
def forEachFrom : ℕ → Option α → σ → σ
  | 0, _, s => s
  | _ + 1, none, s => s
  | n + 1, some key, s =>
    if key = h then s
    else
      let s' := body key s
      forEachFrom n ((links s').next key) s'

/-- The loop over the ring of `h`. -/
def forEach (fuel : ℕ) (s : σ) : σ := forEachFrom links h body fuel ((links s).next h) s

/-- The loop that fetches the node after `key` before it runs the body, so
that the body may unlink `key`. -/
def forEachSafeFrom : ℕ → Option α → Option α → σ → σ
  | 0, _, _, s => s
  | _ + 1, none, _, s => s
  | n + 1, some key, following, s =>
    if key = h then s
    else
      let s' := body key s
      forEachSafeFrom n following (following.bind (links s').next) s'

def forEachSafe (fuel : ℕ) (s : σ) : σ :=
  let first := (links s).next h
  forEachSafeFrom links h body fuel first (first.bind (links s).next) s

variable {links h body}

/-- Whatever the links are, a loop keeps what its body keeps. -/
theorem forEachFrom_invariant {P : σ → Prop} (hb : ∀ key s, P s → P (body key s)) :
    ∀ (fuel : ℕ) (cur : Option α) (s : σ), P s → P (forEachFrom links h body fuel cur s)
  | 0, _, _, hs => hs
  | _ + 1, none, _, hs => hs
  | fuel + 1, some key, s, hs => by
    rw [forEachFrom]
    split
    · exact hs
    · exact forEachFrom_invariant hb fuel _ _ (hb key s hs)

theorem forEachSafeFrom_invariant {P : σ → Prop} (hb : ∀ key s, P s → P (body key s)) :
    ∀ (fuel : ℕ) (cur following : Option α) (s : σ), P s →
      P (forEachSafeFrom links h body fuel cur following s)
  | 0, _, _, _, hs => hs
  | _ + 1, none, _, _, hs => hs
  | fuel + 1, some key, following, s, hs => by
    rw [forEachSafeFrom]
    split
    · exact hs
    · exact forEachSafeFrom_invariant hb fuel _ _ _ (hb key s hs)

end loops

/-! ### What each operation writes -/

@[simp] theorem setNext_next (l : Links α) (a : α) (b : Option α) (x : α) :
    (l.setNext a b).next x = if x = a then b else l.next x := by
  simp [setNext, Function.update_apply]

@[simp] theorem setNext_prev (l : Links α) (a : α) (b : Option α) : (l.setNext a b).prev = l.prev :=
  rfl

@[simp] theorem setPrev_prev (l : Links α) (a : α) (b : Option α) (x : α) :
    (l.setPrev a b).prev x = if x = a then b else l.prev x := by
  simp [setPrev, Function.update_apply]

@[simp] theorem setPrev_next (l : Links α) (a : α) (b : Option α) : (l.setPrev a b).next = l.next :=
  rfl

theorem init_of_ne (l : Links α) {pos x : α} (hx : x ≠ pos) :
    (l.init pos).next x = l.next x ∧ (l.init pos).prev x = l.prev x := by
  simp [init, hx]

theorem append_eq {l : Links α} {add pos p : α} (hp : l.prev pos = some p) :
    l.append add pos = l.insertBetween add p pos := by
  simp [append, hp]

theorem insertBetween_next (l : Links α) (add p n x : α) :
    (l.insertBetween add p n).next x =
      if x = add then some n else if x = p then some add else l.next x := by
  simp [insertBetween]

theorem insertBetween_prev (l : Links α) (add p n x : α) :
    (l.insertBetween add p n).prev x =
      if x = add then some p else if x = n then some add else l.prev x := by
  simp [insertBetween]

theorem swap_insertBetween (l : Links α) (add p n : α) :
    (l.insertBetween add p n).swap = l.swap.insertBetween add n p := by
  rw [swap, swap, Links.mk.injEq]
  constructor
  · funext x
    rw [insertBetween_prev, insertBetween_next]
  · funext x
    rw [insertBetween_prev, insertBetween_next]

/-- Prepending is appending to the ring the other way round. -/
theorem swap_prepend (l : Links α) (add pos : α) :
    (l.prepend add pos).swap = l.swap.append add pos := by
  rw [prepend, append]
  show _ = match l.next pos with
    | some n => l.swap.insertBetween add n pos
    | none => l.swap
  cases l.next pos with
  | none => rfl
  | some n => exact swap_insertBetween l add pos n

theorem remove_next {l : Links α} {pos n p : α} (hn : l.next pos = some n) (hp : l.prev pos = some p)
    (x : α) :
    (l.remove pos).next x = if x = pos then none else if x = p then some n else l.next x := by
  simp [remove, hn, hp]

theorem remove_prev {l : Links α} {pos n p : α} (hn : l.next pos = some n) (hp : l.prev pos = some p)
    (x : α) :
    (l.remove pos).prev x = if x = pos then none else if x = n then some p else l.prev x := by
  simp [remove, hn, hp]

end Links

/-! ### Rings -/

variable {α : Type}

/-- The ring of the head `h` has the elements `xs`, in this order. -/
structure LinkRing (l : Links α) (h : α) (xs : List α) : Prop where
  nodup : (h :: xs).Nodup
  chain : (h :: (xs ++ [h])).IsChain l.Adj

namespace LinkRing

variable {l l' : Links α} {h n : α} {xs : List α}

theorem head_notMem (r : LinkRing l h xs) : h ∉ xs := (List.nodup_cons.mp r.nodup).1

theorem nodup_elems (r : LinkRing l h xs) : xs.Nodup := (List.nodup_cons.mp r.nodup).2

/-- A ring reads only the links of its own nodes. -/
theorem frame (r : LinkRing l h xs)
    (hl : ∀ a ∈ h :: xs, l'.next a = l.next a ∧ l'.prev a = l.prev a) : LinkRing l' h xs := by
  refine ⟨r.nodup, Links.chain_transport r.chain (fun a ha => (hl a ?_).1) fun b hb => (hl b ?_).2⟩
  · rwa [← List.cons_append, List.dropLast_concat] at ha
  · simpa [or_comm] using hb

theorem next_head (r : LinkRing l h xs) : l.next h = some ((xs ++ [h]).headD h) := by
  have hc := r.chain
  cases xs with
  | nil => exact ((List.isChain_cons_cons.mp hc).1).1
  | cons x xs => exact ((List.isChain_cons_cons.mp hc).1).1

/-- The node before the head is the last one. -/
theorem prev_head (r : LinkRing l h xs) : l.prev h = some ((h :: xs).getLast (by simp)) := by
  have hc := r.chain
  rw [← List.cons_append, List.isChain_append] at hc
  exact (hc.2.2 _ (List.getLast?_eq_some_getLast (by simp)) h rfl).2

/-- The neighbours of an element. -/
theorem neighbours (r : LinkRing l h xs) (hn : n ∈ xs) :
    ∃ p q, l.next n = some q ∧ l.prev n = some p ∧ p ∈ h :: xs ∧ q ∈ h :: xs := by
  obtain ⟨as, bs, rfl⟩ := List.append_of_mem hn
  have hc := r.chain
  rw [List.append_assoc, ← List.cons_append, List.isChain_append] at hc
  obtain ⟨-, hb, hab⟩ := hc
  refine ⟨(h :: as).getLast (by simp), (bs ++ [h]).head (by simp), ?_, ?_, ?_, ?_⟩
  · have := hb.rel_head? (List.head?_eq_some_head (by simp : bs ++ [h] ≠ []))
    exact this.1
  · exact (hab _ (List.getLast?_eq_some_getLast (by simp)) n rfl).2
  · have := List.getLast_mem (l := h :: as) (by simp)
    simp only [List.mem_cons, List.mem_append] at this ⊢
    tauto
  · have := List.head_mem (l := bs ++ [h]) (by simp)
    simp only [List.mem_cons, List.mem_append, List.not_mem_nil, or_false] at this ⊢
    tauto

/-- The node after an element. -/
theorem next_elem {ys : List α} (r : LinkRing l h (xs ++ n :: ys)) :
    l.next n = some ((ys ++ [h]).headD h) := by
  have hc := r.chain
  rw [List.append_assoc, ← List.cons_append, List.isChain_append] at hc
  have hys : (n :: (ys ++ [h])).IsChain l.Adj := hc.2.1
  cases ys with
  | nil => exact ((List.isChain_cons_cons.mp hys).1).1
  | cons y ys => exact ((List.isChain_cons_cons.mp hys).1).1

variable [DecidableEq α]

theorem isEmpty_iff (r : LinkRing l h xs) : l.isEmpty h = true ↔ xs = [] := by
  rw [Links.isEmpty, decide_eq_true_iff, r.next_head]
  cases xs with
  | nil => simp
  | cons x xs =>
    have : x ≠ h := fun e => r.head_notMem (e ▸ List.mem_cons_self)
    simpa using this

theorem init (l : Links α) (h : α) : LinkRing (l.init h) h [] := by
  refine ⟨by simp, ?_⟩
  simp [Links.init, Links.Adj]

theorem init_frame (r : LinkRing l h xs) {pos : α} (hp : pos ∉ h :: xs) : LinkRing (l.init pos) h xs :=
  r.frame fun _ ha => l.init_of_ne fun e => hp (e ▸ ha)

/-- **Appending a new node puts it at the end.** -/
theorem append (r : LinkRing l h xs) (hn : n ∉ h :: xs) : LinkRing (l.append n h) h (xs ++ [n]) := by
  have hnd : (h :: (xs ++ [n])).Nodup := by
    rw [← List.cons_append]
    exact List.nodup_append.mpr ⟨r.nodup, by simp, fun a ha b hb => by
      rw [List.mem_singleton] at hb
      exact fun e => hn (by rw [← hb, ← e]; exact ha)⟩
  refine ⟨hnd, ?_⟩
  set p := (h :: xs).getLast (by simp) with hpdef
  have hp : p ∈ h :: xs := List.getLast_mem _
  have hc := r.chain
  rw [← List.cons_append, List.isChain_append] at hc
  rw [Links.append_eq r.prev_head]
  have hnp : p ≠ n := fun e => hn (e ▸ hp)
  have hhn : h ≠ n := fun e => hn (e ▸ List.mem_cons_self)
  -- the old part keeps its links: only its last node's `next` and the head's `prev` are written
  have hold : (h :: xs).IsChain (l.insertBetween n p h).Adj := by
    refine Links.chain_transport hc.1 (fun a ha => ?_) fun b hb => ?_
    · have hap : a ≠ p := by
        intro e
        have hcat := List.dropLast_append_getLast (l := h :: xs) (by simp)
        rw [← hpdef] at hcat
        have hnd' := r.nodup
        rw [← hcat] at hnd'
        exact (List.nodup_append.mp hnd').2.2 a ha p (by simp) e
      have han : a ≠ n := fun e => hn (e ▸ List.dropLast_subset _ ha)
      rw [Links.insertBetween_next, if_neg han, if_neg hap]
    · have hbn : b ≠ n := fun e => hn (e ▸ List.mem_of_mem_tail hb)
      have hbh : b ≠ h := fun e => r.head_notMem (e ▸ hb)
      rw [Links.insertBetween_prev, if_neg hbn, if_neg hbh]
  have hpn : (l.insertBetween n p h).Adj p n := by
    constructor
    · rw [Links.insertBetween_next, if_neg hnp, if_pos rfl]
    · rw [Links.insertBetween_prev, if_pos rfl]
  have hnh : (l.insertBetween n p h).Adj n h := by
    constructor
    · rw [Links.insertBetween_next, if_pos rfl]
    · rw [Links.insertBetween_prev, if_neg hhn, if_pos rfl]
  rw [List.append_assoc, ← List.cons_append, List.isChain_append]
  refine ⟨hold, by simpa using hnh, fun x hx y hy => ?_⟩
  rw [List.getLast?_eq_some_getLast (by simp), Option.mem_some_iff] at hx
  simp only [List.cons_append, List.head?_cons, Option.mem_some_iff] at hy
  rw [← hx, ← hy]
  exact hpn

omit [DecidableEq α] in
/-- A ring read the other way round. -/
theorem swap (r : LinkRing l h xs) : LinkRing l.swap h xs.reverse := by
  refine ⟨?_, ?_⟩
  · rw [List.nodup_cons, List.mem_reverse, List.nodup_reverse]
    exact ⟨r.head_notMem, r.nodup_elems⟩
  · have hrev : h :: (xs.reverse ++ [h]) = (h :: (xs ++ [h])).reverse := by simp
    rw [hrev, List.isChain_reverse]
    exact r.chain.imp fun _ _ hab => ⟨hab.2, hab.1⟩

/-- **Prepending a new node puts it at the start.** -/
theorem prepend (r : LinkRing l h xs) (hn : n ∉ h :: xs) : LinkRing (l.prepend n h) h (n :: xs) := by
  have happend := r.swap.append (n := n) (by simpa using hn)
  have hswap := happend.swap
  rw [← Links.swap_prepend, List.reverse_append, List.reverse_reverse] at hswap
  exact hswap

/-- Appending to the ring of `h` writes no node outside it. -/
theorem append_frame {h' : α} {ys : List α} (r : LinkRing l h xs) (r' : LinkRing l h' ys)
    (hn : n ∉ h' :: ys) (hd : ∀ a ∈ h :: xs, a ∉ h' :: ys) : LinkRing (l.append n h) h' ys := by
  rw [Links.append_eq r.prev_head]
  refine r'.frame fun a ha => ?_
  have h1 : a ≠ n := fun e => hn (e ▸ ha)
  have h2 : a ≠ (h :: xs).getLast (by simp) := fun e => hd _ (List.getLast_mem _) (e ▸ ha)
  have h3 : a ≠ h := fun e => hd h List.mem_cons_self (e ▸ ha)
  exact ⟨by rw [Links.insertBetween_next, if_neg h1, if_neg h2],
    by rw [Links.insertBetween_prev, if_neg h1, if_neg h3]⟩

/-- **Removing an element takes exactly it out.** -/
theorem remove (r : LinkRing l h xs) (hn : n ∈ xs) : LinkRing (l.remove n) h (xs.erase n) := by
  have hnd := r.nodup
  obtain ⟨as, bs, rfl⟩ := List.append_of_mem hn
  have hnas : n ∉ as := fun hm =>
    (List.nodup_append.mp r.nodup_elems).2.2 n hm n List.mem_cons_self rfl
  rw [List.erase_append_right _ hnas, List.erase_cons_head]
  have hc := r.chain
  rw [List.append_assoc, ← List.cons_append, List.isChain_append] at hc
  obtain ⟨ha, hb, hab⟩ := hc
  set p := (h :: as).getLast (by simp) with hpdef
  set q := (bs ++ [h]).head (by simp) with hqdef
  have hbs : (bs ++ [h]).IsChain l.Adj := hb.tail
  have hnext : l.next n = some q := (hb.rel_head? (List.head?_eq_some_head (by simp))).1
  have hprev : l.prev n = some p := (hab p (List.getLast?_eq_some_getLast (by simp)) n rfl).2
  -- where the nodes of the two halves are
  rw [← List.cons_append, List.nodup_append] at hnd
  obtain ⟨hndA, hndB, hAB⟩ := hnd
  obtain ⟨hnbs, hndbs⟩ := List.nodup_cons.mp hndB
  have hhas : h ∉ as := (List.nodup_cons.mp hndA).1
  have hhbs : h ∉ bs := fun hm => hAB h List.mem_cons_self h (List.mem_cons_of_mem _ hm) rfl
  have hpA : p ∈ h :: as := List.getLast_mem _
  have hpn : p ≠ n := fun e => hAB p hpA n List.mem_cons_self e
  have hqB : q ∈ bs ++ [h] := List.head_mem _
  have hhn : h ≠ n := fun e => hAB h List.mem_cons_self n List.mem_cons_self e
  have hqn : q ≠ n := by
    intro e
    rcases List.mem_append.mp hqB with hm | hm
    · exact hnbs (e ▸ hm)
    · exact hhn ((List.mem_singleton.mp hm).symm.trans e)
  have hA : (h :: as).IsChain (l.remove n).Adj := by
    refine Links.chain_transport ha (fun a ham => ?_) fun b hbm => ?_
    · have han : a ≠ n := fun e => hAB a (List.dropLast_subset _ ham) n List.mem_cons_self e
      have hap : a ≠ p := by
        have hcat := List.dropLast_append_getLast (l := h :: as) (by simp)
        rw [← hpdef] at hcat
        rw [← hcat] at hndA
        exact (List.nodup_append.mp hndA).2.2 a ham p (by simp)
      rw [Links.remove_next hnext hprev, if_neg han, if_neg hap]
    · have hbA : b ∈ h :: as := List.mem_of_mem_tail hbm
      have hbn : b ≠ n := fun e => hAB b hbA n List.mem_cons_self e
      have hbq : b ≠ q := by
        intro e
        rcases List.mem_append.mp hqB with hm | hm
        · exact hAB b hbA q (List.mem_cons_of_mem _ hm) e
        · exact hhas ((e.trans (List.mem_singleton.mp hm)) ▸ hbm)
      rw [Links.remove_prev hnext hprev, if_neg hbn, if_neg hbq]
  have hB : (bs ++ [h]).IsChain (l.remove n).Adj := by
    refine Links.chain_transport hbs (fun a ham => ?_) fun b hbm => ?_
    · rw [List.dropLast_concat] at ham
      have han : a ≠ n := fun e => hnbs (e ▸ ham)
      have hap : a ≠ p := fun e => hAB p hpA a (List.mem_cons_of_mem _ ham) e.symm
      rw [Links.remove_next hnext hprev, if_neg han, if_neg hap]
    · have hndb : (bs ++ [h]).Nodup := List.nodup_append.mpr ⟨hndbs, by simp, fun a ha b hb e =>
        hhbs (by rw [List.mem_singleton] at hb; rw [← hb, ← e]; exact ha)⟩
      have hbq : b ≠ q := by
        intro e
        obtain ⟨c, cs, hcs⟩ := List.exists_cons_of_ne_nil (l := bs ++ [h]) (by simp)
        have hqc : q = c := by simp [hqdef, hcs]
        rw [hcs] at hndb hbm
        exact (List.nodup_cons.mp hndb).1 ((e.trans hqc) ▸ hbm)
      have hbn : b ≠ n := by
        intro e
        rcases List.mem_append.mp (List.mem_of_mem_tail hbm) with hm | hm
        · exact hnbs (e ▸ hm)
        · exact hhn ((List.mem_singleton.mp hm).symm.trans e)
      rw [Links.remove_prev hnext hprev, if_neg hbn, if_neg hbq]
  refine ⟨?_, ?_⟩
  · rw [← List.cons_append]
    exact List.nodup_append.mpr ⟨hndA, hndbs, fun a ha b hb => hAB a ha b (List.mem_cons_of_mem _ hb)⟩
  · rw [List.append_assoc, ← List.cons_append, List.isChain_append]
    refine ⟨hA, hB, fun x hx y hy => ?_⟩
    rw [List.getLast?_eq_some_getLast (by simp), Option.mem_some_iff] at hx
    rw [List.head?_eq_some_head (by simp), Option.mem_some_iff] at hy
    rw [← hx, ← hy]
    constructor
    · rw [Links.remove_next hnext hprev, if_neg hpn, if_pos rfl]
    · rw [Links.remove_prev hnext hprev, if_neg hqn, if_pos rfl]

/-- Removing an element of the ring of `h` writes no node outside it. -/
theorem remove_frame {h' : α} {ys : List α} (r : LinkRing l h xs) (r' : LinkRing l h' ys) (hn : n ∈ xs)
    (hd : ∀ a ∈ h :: xs, a ∉ h' :: ys) : LinkRing (l.remove n) h' ys := by
  obtain ⟨p, q, hnext, hprev, hp, hq⟩ := r.neighbours hn
  refine r'.frame fun a ha => ?_
  have h1 : a ≠ n := fun e => hd n (List.mem_cons_of_mem _ hn) (e ▸ ha)
  have h2 : a ≠ p := fun e => hd p hp (e ▸ ha)
  have h3 : a ≠ q := fun e => hd q hq (e ▸ ha)
  exact ⟨by rw [Links.remove_next hnext hprev, if_neg h1, if_neg h2],
    by rw [Links.remove_prev hnext hprev, if_neg h1, if_neg h3]⟩

/-! ### Walking a ring -/

theorem walk_eq (l : Links α) (h : α) :
    ∀ (ys : List α) (a : α) (fuel : ℕ), (a :: (ys ++ [h])).IsChain l.Adj → h ∉ ys →
      ys.length < fuel → l.walk h fuel (l.next a) = ys
  | [], a, fuel + 1, hc, _, _ => by
    have : l.next a = some h := ((List.isChain_cons_cons.mp hc).1).1
    simp [this, Links.walk]
  | y :: ys, a, fuel + 1, hc, hh, hf => by
    obtain ⟨hay, hc'⟩ := List.isChain_cons_cons.mp hc
    have hyh : y ≠ h := fun e => hh (e ▸ List.mem_cons_self)
    rw [hay.1, Links.walk, if_neg hyh,
      walk_eq l h ys y fuel hc' (fun hm => hh (List.mem_cons_of_mem _ hm)) (by simpa using hf)]

theorem toList_eq (r : LinkRing l h xs) (fuel : ℕ) (hf : xs.length < fuel) : l.toList h fuel = xs :=
  walk_eq l h xs h fuel r.chain r.head_notMem hf

section loops

variable {σ : Type} {links : σ → Links α} {body : α → σ → σ}

theorem forEachFrom_eq_foldl :
    ∀ (ys : List α) (a : α) (fuel : ℕ) (s : σ), (a :: (ys ++ [h])).IsChain (links s).Adj → h ∉ ys →
      (∀ y ∈ ys, ∀ s, links (body y s) = links s) → ys.length < fuel →
      Links.forEachFrom links h body fuel ((links s).next a) s = ys.foldl (fun s y => body y s) s
  | [], a, fuel + 1, s, hc, _, _, _ => by
    have : (links s).next a = some h := ((List.isChain_cons_cons.mp hc).1).1
    simp [this, Links.forEachFrom]
  | y :: ys, a, fuel + 1, s, hc, hh, hb, hf => by
    obtain ⟨hay, hc'⟩ := List.isChain_cons_cons.mp hc
    have hyh : y ≠ h := fun e => hh (e ▸ List.mem_cons_self)
    have hs : links (body y s) = links s := hb y List.mem_cons_self s
    rw [hay.1, Links.forEachFrom, if_neg hyh, List.foldl_cons]
    exact forEachFrom_eq_foldl ys y fuel (body y s) (by rw [hs]; exact hc')
      (fun hm => hh (List.mem_cons_of_mem _ hm)) (fun z hz => hb z (List.mem_cons_of_mem _ hz))
      (by simpa using hf)

/-- **A loop whose body keeps the links runs the body on each element in order.** -/
theorem forEach_eq_foldl {s : σ} (r : LinkRing (links s) h xs)
    (hb : ∀ y ∈ xs, ∀ s, links (body y s) = links s) {fuel : ℕ} (hf : xs.length < fuel) :
    Links.forEach links h body fuel s = xs.foldl (fun s y => body y s) s :=
  forEachFrom_eq_foldl xs h fuel s r.chain r.head_notMem hb hf

theorem forEachSafeFrom_eq_foldl {P : List α → σ → Prop}
    (hP : ∀ ys s, P ys s → LinkRing (links s) h ys) (hb : ∀ y ys s, P (y :: ys) s → P ys (body y s)) :
    ∀ (ys : List α) (fuel : ℕ) (s : σ), P ys s → ys.length < fuel →
      Links.forEachSafeFrom links h body fuel ((links s).next h)
        (((links s).next h).bind (links s).next) s = ys.foldl (fun s y => body y s) s
  | [], fuel + 1, s, hp, _ => by
    have : (links s).next h = some h := by simpa using (hP _ _ hp).next_head
    simp [this, Links.forEachSafeFrom]
  | y :: ys, fuel + 1, s, hp, hf => by
    have r := hP _ _ hp
    have hy : (links s).next h = some y := by simpa using r.next_head
    have hyh : y ≠ h := fun e => r.head_notMem (e ▸ List.mem_cons_self)
    have hp' := hb y ys s hp
    -- the node fetched before the body ran is the first one of the ring after it
    have hfetch : (links s).next y = (links (body y s)).next h := by
      rw [(hP _ _ hp').next_head]
      have hc := (List.isChain_cons_cons.mp r.chain).2
      cases ys with
      | nil => exact ((List.isChain_cons_cons.mp hc).1).1
      | cons z zs => exact ((List.isChain_cons_cons.mp hc).1).1
    rw [hy, Links.forEachSafeFrom, if_neg hyh, List.foldl_cons, Option.bind_some, hfetch]
    exact forEachSafeFrom_eq_foldl hP hb ys fuel (body y s) hp' (by simpa using hf)

/-- **A loop whose body takes the current element out of the ring runs the
body on each element in order.** `P` is what the body keeps. -/
theorem forEachSafe_eq_foldl {P : List α → σ → Prop} {s : σ}
    (hP : ∀ ys s, P ys s → LinkRing (links s) h ys) (hb : ∀ y ys s, P (y :: ys) s → P ys (body y s))
    (hs : P xs s) {fuel : ℕ} (hf : xs.length < fuel) :
    Links.forEachSafe links h body fuel s = xs.foldl (fun s y => body y s) s :=
  forEachSafeFrom_eq_foldl hP hb xs fuel s hs hf

end loops

end LinkRing
