/-
# Sorting a linked list

`fcitx-utils/list.c`: the nodes of a ring are sorted by moving their links. A
slow and a fast pointer find the middle; each half is closed around the head,
sorted, and cut open again; the two lines are merged and closed around the head.
A link is `none` for the null pointer, and reading or writing through the null
pointer has no result.

Key definitions: `ListSort.sortedMerge`, `ListSort.findMiddle`, `ListSort.sortR`.
Key theorems: `ListSort.sortedMerge_spec`, `ListSort.findMiddle_spec`, `ListSort.sortR_sorts`.
-/
import Fcitx.Lib.MergeSort
import Fcitx.Lib.RingCut

namespace Fcitx
namespace ListSort

variable {α E T : Type} [DecidableEq α]

section
/- `entry` is `((char*) node) - offset`, where the list is linked through its entries. -/
variable (entry : α → E) (compare : E → E → T → ℤ) (data : T)

/-- `result->next = next`, and the end of `fcitx_list_sorted_merge`: the result, `*end` and the links. -/
def linkResult (result : α) (merged : Option α × Option α × Links α) : Option α × Option α × Links α :=
  let (next, end', l) := merged
  let l := l.setNext result next
  match next with
  | some n => (some result, end', l.setPrev n (some result))
  | none => (some result, some result, l)

/-- `fcitx_list_sorted_merge`, with at most `fuel` calls. -/
def sortedMerge : ℕ → Links α → Option α → Option α → Option α → Option α → Option (Option α × Option α × Links α)
  | 0, _, _, _, _, _ => none
  | fuel + 1, l, heada, enda, headb, endb =>
    match heada, headb with
    | none, headb => some (headb, endb, l)
    | some a, none => some (some a, enda, l)
    | some a, some b =>
      if compare (entry a) (entry b) data ≤ 0 then
        (sortedMerge fuel l (l.next a) enda (some b) endb).map (linkResult a)
      else
        (sortedMerge fuel l (some a) enda (l.next b) endb).map (linkResult b)

/-- The loop with the two pointers: where the slow one stops, after at most `fuel` rounds. -/
def findMiddle (l : Links α) (list : α) : ℕ → α → α → Option α
  | 0, _, _ => none
  | fuel + 1, slow, fast =>
    if fast ≠ list then do
      let fast ← l.next fast
      if fast ≠ list then
        findMiddle l list fuel (← l.next slow) (← l.next fast)
      else
        findMiddle l list fuel slow fast
    else some slow

/-- `fcitx_list_sort_r`; the loop, the merge and the calls below have less `fuel`. -/
def sortR : ℕ → Links α → α → Option (Links α)
  | 0, _, _ => none
  | fuel + 1, l, list =>
    if l.isEmpty list then some l
    else if l.prev list = l.next list then some l
    else do
      let slow ← l.next list
      let slow ← findMiddle l list fuel slow (← l.next slow)
      let headb ← l.next slow
      let endb ← l.prev list
      -- the first half
      let l := (l.setPrev list (some slow)).setNext slow (some list)
      let l ← sortR fuel l list
      let (heada, enda, l) ← l.cut list
      -- the second half
      let l ← sortR fuel (l.close list headb endb) list
      let (headb, endb, l) ← l.cut list
      let (head, last, l) ← sortedMerge entry compare data fuel l (some heada) (some enda) (some headb) (some endb)
      some (l.close list (← head) (← last))

/-- `fcitx_list_sort`, with `fcitx_list_cmp_helper` -/
def sort (compare : E → E → ℤ) (fuel : ℕ) (l : Links α) (list : α) : Option (Links α) :=
  sortR entry (fun a b (data : E → E → ℤ) => data a b) compare fuel l list

/-- `compare(dataa, datab, data) <= 0` -/
def leb (a b : α) : Bool := compare (entry a) (entry b) data ≤ 0

end

/-! ### Merging -/

variable {entry : α → E} {compare : E → E → T → ℤ} {data : T} {l l' : Links α} {h : α} {xs ys : List α}

/-- What a call of the merge leaves: the line of `zs`, with no other node written than `nodes`. -/
def Merged (l : Links α) (nodes zs : List α) (result : Option (Option α × Option α × Links α)) : Prop :=
  ∃ l', result = some (zs.head?, zs.getLast?, l') ∧ Line l' zs ∧ Links.SameOff nodes l l'

theorem Merged.link {x : α} {nodes zs : List α} {result : Option (Option α × Option α × Links α)}
    (hmerged : Merged l nodes zs result) (hx : x ∉ zs) (hzs : zs ⊆ x :: nodes) :
    Merged l (x :: nodes) (x :: zs) (result.map (linkResult x)) := by
  obtain ⟨l', rfl, hline, hoff⟩ := hmerged
  have hbase := hoff.mono (List.subset_cons_self x nodes)
  cases zs with
  | nil => exact ⟨_, rfl, .singleton l' x, hbase.setNext List.mem_cons_self none⟩
  | cons z zs =>
    refine ⟨(l'.setNext x (some z)).setPrev z (some x), ?_, hline.cons hx, ?_⟩
    · rw [List.getLast?_cons_cons]
      rfl
    · exact (hbase.setNext List.mem_cons_self _).setPrev (hzs List.mem_cons_self) _

omit [DecidableEq α] in
theorem getLast?_cons_of_ne_nil {x : α} (h : xs ≠ []) : (x :: xs).getLast? = xs.getLast? := by
  obtain ⟨y, ys, rfl⟩ := List.exists_cons_of_ne_nil h
  exact List.getLast?_cons_cons

variable (entry compare data) in
/-- **Merging two lines** gives the line of the merged lists. -/
theorem sortedMerge_spec (fuel : ℕ) : ∀ (l : Links α) (xs ys : List α) (enda endb : Option α), Line l xs → Line l ys →
    (xs ++ ys).Nodup → xs.length + ys.length ≤ fuel → (xs ≠ [] → enda = xs.getLast?) →
    (ys ≠ [] → endb = ys.getLast?) → xs ++ ys ≠ [] →
    Merged l (xs ++ ys) (xs.merge ys (leb entry compare data))
      (sortedMerge entry compare data fuel l xs.head? enda ys.head? endb) := by
  induction fuel with
  | zero =>
    intro l xs ys enda endb _ _ _ hfuel _ _ hne
    exact absurd (List.length_eq_zero_iff.mp (by rw [List.length_append]; omega)) hne
  | succ fuel ih =>
    intro l xs ys enda endb hxs hys hnodup hfuel henda hendb hne
    unfold sortedMerge
    cases xs with
    | nil =>
      rw [List.nil_append] at hne
      rw [List.nil_merge, hendb hne]
      exact ⟨l, rfl, hys, Links.SameOff.refl _ l⟩
    | cons x xs =>
      cases ys with
      | nil =>
        rw [List.merge_right, henda (List.cons_ne_nil x xs)]
        exact ⟨l, rfl, hxs, Links.SameOff.refl _ l⟩
      | cons y ys =>
        have hsame : ∀ as bs : List α, as.merge bs (leb entry compare data) ⊆ as ++ bs := fun as bs =>
          (List.merge_perm_append _).subset
        dsimp only [List.head?_cons]
        by_cases hle : compare (entry x) (entry y) data ≤ 0
        · -- the node of the first line is taken
          have hrest := List.nodup_cons.mp hnodup
          have hmerged := ih l xs (y :: ys) enda endb hxs.tail hys hrest.2
            (by simp only [List.length_cons] at hfuel ⊢; omega)
            (fun hne => (henda (List.cons_ne_nil x xs)).trans (getLast?_cons_of_ne_nil hne)) hendb (by simp)
          rw [if_pos hle, hxs.next_first, List.cons_merge_cons_pos (leb entry compare data) _ _ (decide_eq_true hle)]
          exact hmerged.link (fun hm => hrest.1 (hsame _ _ hm))
            (List.Subset.trans (hsame _ _) (List.subset_cons_self _ _))
        · -- the node of the second line is taken
          have hperm : (x :: xs ++ y :: ys).Perm (y :: (x :: xs ++ ys)) := List.perm_middle
          have hrest := List.nodup_cons.mp (hperm.nodup_iff.mp hnodup)
          have hmerged := ih l (x :: xs) ys enda endb hxs hys.tail hrest.2
            (by simp only [List.length_cons] at hfuel ⊢; omega) henda
            (fun hne => (hendb (List.cons_ne_nil y ys)).trans (getLast?_cons_of_ne_nil hne)) (by simp)
          rw [if_neg hle, hys.next_first,
            List.cons_merge_cons_neg (leb entry compare data) _ _ (by simpa [leb] using hle)]
          obtain ⟨l', hresult, hline, hoff⟩ :=
            hmerged.link (fun hm => hrest.1 (hsame _ _ hm))
              (List.Subset.trans (hsame _ _) (List.subset_cons_self _ _))
          exact ⟨l', hresult, hline, hoff.mono hperm.symm.subset⟩

/-! ### The middle -/

omit [DecidableEq α] in
theorem next_of_ring (r : LinkRing l h xs) (as : List α) {bs : List α} {x : α} (hxs : xs = as ++ x :: bs) :
    l.next x = some ((bs ++ [h]).headD h) := by
  subst hxs
  exact r.next_elem

/-- **The slow pointer** stops at a node with at least one behind it: `mid` are the nodes between the two
pointers, `rest` those from the fast one on. -/
theorem findMiddle_spec (r : LinkRing l h xs) (fuel : ℕ) : ∀ (as mid rest : List α) (slow : α),
    xs = as ++ slow :: (mid ++ rest) → mid ++ rest ≠ [] → rest.length < fuel →
    ∃ as' slow' bs, findMiddle l h fuel slow ((rest ++ [h]).headD h) = some slow' ∧ xs = as' ++ slow' :: bs ∧
      bs ≠ [] := by
  induction fuel with
  | zero => exact fun _ _ _ _ _ _ hfuel => absurd hfuel (Nat.not_lt_zero _)
  | succ fuel ih =>
    intro as mid rest slow hxs hbehind hfuel
    have hne : ∀ x ∈ xs, x ≠ h := fun x hx e => r.head_notMem (e ▸ hx)
    unfold findMiddle
    cases rest with
    | nil => exact ⟨as, slow, mid ++ [], if_neg fun hno => hno rfl, hxs, hbehind⟩
    | cons f rest =>
      have hf : f ≠ h := hne f (by simp [hxs])
      have hnext : l.next f = some ((rest ++ [h]).headD h) :=
        next_of_ring r (as ++ slow :: mid) (by simp [hxs])
      rw [List.cons_append, List.headD_cons, if_pos hf, hnext]
      cases rest with
      | nil =>
        -- the list ends behind the fast pointer: the slow one stays
        have hstop := ih as (mid ++ [f]) [] slow (by simp [hxs]) (by simp) (by simpa using hfuel)
        simpa using hstop
      | cons f' rest =>
        obtain ⟨m, tail, htail⟩ : ∃ m tail, mid ++ [f] = m :: tail := List.exists_cons_of_ne_nil (by simp)
        have hxs' : xs = as ++ slow :: m :: (tail ++ f' :: rest) := by
          have hmid : mid ++ f :: f' :: rest = (mid ++ [f]) ++ f' :: rest := by simp
          rw [hxs, hmid, htail, List.cons_append]
        have hf' : f' ≠ h := hne f' (by simp [hxs])
        have hslow : l.next slow = some m := by
          have hread := next_of_ring r as hxs'
          simpa using hread
        have hfast : l.next f' = some ((rest ++ [h]).headD h) :=
          next_of_ring r (as ++ slow :: m :: tail) (by simp [hxs'])
        have hmore := ih (as ++ [slow]) (tail ++ [f']) rest m (by simp [hxs']) (by simp)
          (by simp only [List.length_cons] at hfuel; omega)
        simpa [hf', hslow, hfast] using hmore

/-! ### The sort -/

/-- What a call of the sort does to every ring of fewer nodes than its fuel. -/
def Sorts (entry : α → E) (compare : E → E → T → ℤ) (data : T) (h : α) (fuel : ℕ) : Prop :=
  ∀ (l : Links α) (xs : List α), LinkRing l h xs → xs.length < fuel →
    ∃ l' ys, sortR entry compare data fuel l h = some l' ∧ LinkRing l' h ys ∧
      MergeSort.StableSort (leb entry compare data) xs ys ∧ Links.SameOff (h :: xs) l l'

theorem Sorts.half {fuel : ℕ} (hsorts : Sorts entry compare data h fuel) (hnodup : (h :: xs).Nodup)
    (hchain : xs.IsChain l.Adj) (hlen : xs.length < fuel) {first last : α} (hfirst : xs.head? = some first)
    (hlast : xs.getLast? = some last) :
    ∃ l' ys a b l'', sortR entry compare data fuel (l.close h first last) h = some l' ∧ l'.cut h = some (a, b, l'') ∧
      ys.head? = some a ∧ ys.getLast? = some b ∧ MergeSort.StableSort (leb entry compare data) xs ys ∧
      Line l'' ys ∧ Links.SameOff (h :: xs) l l'' := by
  obtain ⟨hh, hxs⟩ := List.nodup_cons.mp hnodup
  have hring := Links.close_ring hxs hchain hh hfirst hlast
  have hclose := l.close_sameOff h (List.mem_of_head? hfirst) (List.mem_of_getLast? hlast)
  obtain ⟨l', ys, hsort, hring', hstable, hoff⟩ := hsorts _ xs hring hlen
  have hne : ys ≠ [] := by
    rintro rfl
    rw [List.nil_perm.mp hstable.perm] at hfirst
    cases hfirst
  obtain ⟨a, b, l'', hcut, ha, hb, hline, hoff'⟩ := hring'.cut hne
  have hsub : ys ⊆ h :: xs := fun y hy => List.mem_cons_of_mem h (hstable.perm.mem_iff.mp hy)
  exact ⟨l', ys, a, b, l'', hsort, hcut, ha, hb, hstable, hline, (hclose.trans hoff).trans (hoff'.mono hsub)⟩

/-- The first half is closed by two of the four links; the other two are there. -/
theorem close_front {as bs : List α} {x first : α} (r : LinkRing l h (as ++ x :: bs))
    (hfirst : (as ++ [x]).head? = some first) :
    (l.setPrev h (some x)).setNext x (some h) = l.close h first x := by
  obtain ⟨ys, hys⟩ : ∃ ys, as ++ x :: bs = first :: ys := by
    apply List.head?_eq_some_iff.mp
    cases as with
    | nil => exact hfirst
    | cons a as => exact hfirst
  rw [hys] at r
  obtain ⟨hnext, hprev⟩ := (List.isChain_cons_cons.mp r.chain).1
  unfold Links.close
  rw [Links.setNext_eq_self hnext, Links.setPrev_eq_self hprev]

/-- What the middle cuts a ring into: the nodes up to the slow pointer and the nodes behind it. -/
structure Halves (l : Links α) (h : α) (xs front back : List α) (heada slow headb endb : α) : Prop where
  all : xs = front ++ back
  front_head : front.head? = some heada
  front_last : front.getLast? = some slow
  back_head : back.head? = some headb
  back_last : back.getLast? = some endb
  slow_next : l.next slow = some headb
  head_prev : l.prev h = some endb
  closed : (l.setPrev h (some slow)).setNext slow (some h) = l.close h heada slow

/-- The middle of a ring of two nodes or more. -/
theorem halves (r : LinkRing l h xs) {x y : α} {ys : List α} (hxs : xs = x :: y :: ys) {fuel : ℕ}
    (hfuel : xs.length < fuel + 1) :
    ∃ front back heada slow headb endb, findMiddle l h fuel x y = some slow ∧
      Halves l h xs front back heada slow headb endb := by
  obtain ⟨as, slow, bs, hmid, hall, hbs⟩ := findMiddle_spec r fuel [] [] (y :: ys) x hxs (by simp)
    (by rw [hxs] at hfuel; simp only [List.length_cons] at hfuel ⊢; omega)
  obtain ⟨headb, back, rfl⟩ := List.exists_cons_of_ne_nil hbs
  obtain ⟨heada, hheada⟩ : ∃ heada, (as ++ [slow]).head? = some heada := ⟨_, List.head?_eq_some_head (by simp)⟩
  rw [hall] at r
  refine ⟨as ++ [slow], headb :: back, heada, slow, headb, _, hmid, by rw [hall]; simp, hheada, by simp, rfl,
    List.getLast?_eq_some_getLast hbs, r.next_elem, ?_, close_front r hheada⟩
  have hcat : h :: (as ++ slow :: headb :: back) = (h :: (as ++ [slow])) ++ headb :: back := by simp
  rw [r.prev_head, ← List.getLast?_eq_some_getLast, ← List.getLast?_eq_some_getLast hbs, hcat, List.getLast?_append,
    List.getLast?_eq_some_getLast hbs]
  rfl

theorem Sorts.step (ho : MergeSort.Order (leb entry compare data)) {fuel : ℕ}
    (ih : Sorts entry compare data h fuel) (r : LinkRing l h xs) {x y : α} {ys : List α} (hxs : xs = x :: y :: ys)
    (hfuel : xs.length < fuel + 1) :
    ∃ l' zs, sortR entry compare data (fuel + 1) l h = some l' ∧ LinkRing l' h zs ∧
      MergeSort.StableSort (leb entry compare data) xs zs ∧ Links.SameOff (h :: xs) l l' := by
  obtain ⟨front, back, heada, slow, headb, endb, hmid, hhalves⟩ := halves r hxs hfuel
  have hall := hhalves.all
  have hnodup := r.nodup
  have hchain : (front ++ back).IsChain l.Adj := hall ▸ (List.isChain_append.mp r.chain.tail).1
  obtain ⟨hchaina, hchainb, -⟩ := List.isChain_append.mp hchain
  have hlen : xs.length = front.length + back.length := by rw [hall, List.length_append]
  have hlena := List.length_pos_of_mem (List.mem_of_head? hhalves.front_head)
  have hlenb := List.length_pos_of_mem (List.mem_of_head? hhalves.back_head)
  rw [hall, List.nodup_cons, List.nodup_append] at hnodup
  obtain ⟨hh, hfront, hback, hne⟩ := hnodup
  have hdisj : ∀ c ∈ front, c ∉ back := fun c hc hc' => hne c hc c hc' rfl
  have hnoda : (h :: front).Nodup := List.nodup_cons.mpr ⟨fun hm => hh (List.mem_append_left _ hm), hfront⟩
  have hnodb : (h :: back).Nodup := List.nodup_cons.mpr ⟨fun hm => hh (List.mem_append_right _ hm), hback⟩
  -- each half is sorted and cut open; neither sees the other
  obtain ⟨l₁, as, a, a', l₂, hsort₁, hcut₁, ha, ha', hstable₁, hline₁, hoff₁⟩ := ih.half hnoda hchaina (by omega)
    hhalves.front_head hhalves.front_last
  have hout₁ : ∀ b ∈ back, l₂.next b = l.next b ∧ l₂.prev b = l.prev b := by
    intro b hb
    exact hoff₁ b (by grind)
  have hchainb' : back.IsChain l₂.Adj := Links.chain_transport hchainb
    (fun b hb => (hout₁ b (List.dropLast_subset _ hb)).1) fun b hb => (hout₁ b (List.mem_of_mem_tail hb)).2
  obtain ⟨l₃, bs, b, b', l₄, hsort₂, hcut₂, hb, hb', hstable₂, hline₂, hoff₂⟩ := ih.half hnodb hchainb' (by omega)
    hhalves.back_head hhalves.back_last
  have hout₂ : ∀ c ∈ as, l₄.next c = l₂.next c ∧ l₄.prev c = l₂.prev c := by
    intro c hc
    have hmem := hstable₁.perm.mem_iff.mp hc
    exact hoff₂ c (by grind)
  -- the two lines are merged
  have hperm : (as ++ bs).Perm xs := hall ▸ hstable₁.perm.append hstable₂.perm
  have hpermlen := hperm.length_eq
  rw [List.length_append] at hpermlen
  obtain ⟨l₅, hmerge, hline, hoff⟩ := sortedMerge_spec entry compare data fuel l₄
    as bs (some a') (some b') (hline₁.frame hout₂) hline₂ (hperm.nodup_iff.mpr r.nodup_elems) (by omega)
    (fun _ => ha'.symm) (fun _ => hb'.symm) (fun hnil => by rw [hnil, hxs] at hperm; simp at hperm)
  have hstable := hstable₁.merge ho hstable₂
  rw [← hall] at hstable
  set zs := as.merge bs (leb entry compare data)
  have hzs : zs ≠ [] := by
    intro hnil
    rw [hnil, hxs] at hstable
    exact absurd hstable.perm.nil_eq (by simp)
  have hsub : zs ⊆ xs := hstable.perm.subset
  obtain ⟨head, hhead⟩ : ∃ head, zs.head? = some head := ⟨_, List.head?_eq_some_head hzs⟩
  obtain ⟨last, hlast⟩ : ∃ last, zs.getLast? = some last := ⟨_, List.getLast?_eq_some_getLast hzs⟩
  refine ⟨l₅.close h head last, zs, ?_, Links.close_ring hline.nodup hline.chain
    (fun hh => r.head_notMem (hsub hh)) hhead hlast, hstable, ?_⟩
  · have hfull : ¬ l.isEmpty h = true := fun hempty => by simp [r.isEmpty_iff.mp hempty] at hxs
    have hfirst : l.next h = some x := by rw [r.next_head, hxs, List.cons_append, List.headD_cons]
    have hsecond : l.next x = some y := next_of_ring r [] hxs
    have hends : l.prev h ≠ l.next h := by
      rw [hhalves.head_prev, hfirst]
      intro e
      have hx : x ∈ back := Option.some_inj.mp e ▸ List.mem_of_getLast? hhalves.back_last
      have hxa : x = heada := by
        have hhead : xs.head? = some heada := by
          rw [hall, List.head?_append, hhalves.front_head]
          rfl
        rw [hxs] at hhead
        exact Option.some_inj.mp hhead
      exact hdisj x (hxa ▸ List.mem_of_head? hhalves.front_head) hx
    unfold sortR
    rw [if_neg hfull, if_neg hends, hfirst]
    simp only [Option.bind_eq_bind, Option.bind_some, hsecond, hmid, hhalves.slow_next, hhalves.head_prev,
      hhalves.closed, hsort₁, hcut₁, hsort₂, hcut₂]
    rw [← ha, ← hb, hmerge, hhead, hlast]
    rfl
  · have hclose := l₅.close_sameOff h (List.mem_of_head? hhead) (List.mem_of_getLast? hlast)
    have hfront : h :: front ⊆ h :: xs := by simp [hall]
    have hback : h :: back ⊆ h :: xs := by simp [hall]
    have hmerged := hoff.mono fun z hz => List.mem_cons_of_mem h (hperm.subset hz)
    have hends := hclose.mono (List.cons_subset_cons h hsub)
    exact (((hoff₁.mono hfront).trans (hoff₂.mono hback)).trans hmerged).trans hends

/-- **Sorting**: with a round for each node and one more, the ring is sorted. -/
theorem sorts (ho : MergeSort.Order (leb entry compare data)) (h : α) (fuel : ℕ) :
    Sorts entry compare data h fuel := by
  induction fuel with
  | zero => exact fun _ _ _ hfuel => absurd hfuel (Nat.not_lt_zero _)
  | succ fuel ih =>
    intro l xs r hfuel
    cases xs with
    | nil => exact ⟨l, [], if_pos (r.isEmpty_iff.mpr rfl), r, .nil, Links.SameOff.refl _ l⟩
    | cons x xs =>
      cases xs with
      | nil =>
        have hfull : ¬ l.isEmpty h = true := fun hempty => List.cons_ne_nil x [] (r.isEmpty_iff.mp hempty)
        have hsame : l.prev h = l.next h := r.prev_head.trans r.next_head.symm
        have hsort : sortR entry compare data (fuel + 1) l h = some l := (if_neg hfull).trans (if_pos hsame)
        exact ⟨l, [x], hsort, r, ⟨List.Perm.refl _, List.pairwise_singleton _ x, fun _ hc _ => hc⟩,
          Links.SameOff.refl _ l⟩
      | cons y xs => exact ih.step ho r rfl hfuel

/-- **The sort of a linked list.** For a comparison that is a total preorder and a ring of any length, the sort
comes to an end and leaves a ring with the same head: its nodes are those of the old ring, in order, with
the nodes that are equal for the comparison as they stood. No other node is written. -/
theorem sortR_sorts (ho : MergeSort.Order fun a b => decide (compare a b data ≤ 0)) (r : LinkRing l h xs) :
    ∀ fuel, xs.length < fuel → ∃ l' ys, sortR entry compare data fuel l h = some l' ∧ LinkRing l' h ys ∧
      ys.Perm xs ∧ (ys.Pairwise fun a b => compare (entry a) (entry b) data ≤ 0) ∧
      (∀ x, ys.filter (fun y => leb entry compare data x y && leb entry compare data y x) =
        xs.filter fun y => leb entry compare data x y && leb entry compare data y x) ∧
      Links.SameOff (h :: xs) l l' := by
  intro fuel hfuel
  have ho' : MergeSort.Order (leb entry compare data) :=
    ⟨fun a b c => ho.trans (entry a) (entry b) (entry c), fun a b => ho.total (entry a) (entry b)⟩
  obtain ⟨l', ys, hsort, hring, hstable, hoff⟩ := sorts ho' h fuel l xs r hfuel
  refine ⟨l', ys, hsort, hring, hstable.perm, hstable.sorted.imp of_decide_eq_true, ?_, hoff⟩
  exact fun x => hstable.filter_eq ho' x

/-- The odd numbers come after the even one, in their old order. -/
theorem sortR_sorts_three :
    ∃ l' ys, sortR (fun n : ℕ => n % 2) (fun a b (_ : Unit) => (a : ℤ) - b) () 4
        ((((Links.null.init 0).append 1 0).append 2 0).append 3 0) 0 = some l' ∧
      LinkRing l' 0 ys ∧ ys.Perm [1, 2, 3] := by
  have ho : MergeSort.Order fun a b : ℕ => decide ((a : ℤ) - b ≤ 0) := ⟨by grind, by grind⟩
  have hring : LinkRing ((((Links.null.init 0).append 1 0).append 2 0).append 3 0) 0 [1, 2, 3] :=
    (((LinkRing.init Links.null 0).append (by decide)).append (by decide)).append (by decide)
  obtain ⟨l', ys, hsort, hring', hperm, -⟩ := @sortR_sorts _ _ Unit _ (fun n : ℕ => n % 2)
    (fun a b _ => (a : ℤ) - b) () _ 0 [1, 2, 3] ho hring 4 (by decide)
  exact ⟨l', ys, hsort, hring', hperm⟩

end ListSort
end Fcitx
