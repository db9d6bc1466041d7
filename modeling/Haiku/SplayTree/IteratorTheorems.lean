import Haiku.SplayTree.SplayTheorems

/-!
# The list of an iteratable splay tree

The links of the nodes are in the order of the tree after every call. So an iterator returns the nodes
in the order of their keys, also when the nodes that it has returned are removed.
-/

namespace Haiku.SplayTree

open Function Lib SortedList

variable {K N : Type} [LinearOrder K] {getKey : N → K} {key : K} {n x : N} {l as bs : List N}
  {link : N → Option N} {p q r : Option N}

/-! ## Links -/

/-- The links lead from `p` through the nodes to `q`. -/
def Leads (link : N → Option N) : Option N → List N → Option N → Prop
  | p, [], q => p = q
  | p, n :: l, q => p = some n ∧ Leads link (link n) l q

lemma leads_append : Leads link p (as ++ bs) r ↔ ∃ q, Leads link p as q ∧ Leads link q bs r := by
  induction as generalizing p with
  | nil => simp [Leads]
  | cons n as ih =>
    simp only [List.cons_append, Leads, ih]
    constructor
    · rintro ⟨hp, q, h, h'⟩
      exact ⟨q, ⟨hp, h⟩, h'⟩
    · rintro ⟨q, ⟨hp, h⟩, h'⟩
      exact ⟨hp, q, h, h'⟩

/-- The link of a node that is not on the way does not matter. -/
lemma Leads.update [DecidableEq N] (h : Leads link p l q) (hn : n ∉ l) (r : Option N) :
    Leads (update link n r) p l q := by
  induction l generalizing p with
  | nil => exact h
  | cons m l ih =>
    rw [List.mem_cons, not_or] at hn
    refine ⟨h.1, ?_⟩
    rw [update_of_ne (Ne.symm hn.1)]
    exact ih h.2 hn.2

namespace IteratableSplayTree

variable [DecidableEq N] {s : IteratableSplayTree N}

omit [DecidableEq N] in
lemma readNext_of_leads (h : Leads s.listLink s.first as q) : s.readNext as.getLast? = q := by
  rcases List.eq_nil_or_concat as with rfl | ⟨as, m, rfl⟩
  · exact h
  · rw [List.concat_eq_append] at h ⊢
    obtain ⟨q', -, -, hm⟩ := leads_append.1 h
    rw [List.getLast?_concat]
    exact hm

lemma leads_writeNext (hnodup : (as ++ bs).Nodup) (has : Leads s.listLink s.first as q)
    (hbs : Leads s.listLink p bs none) :
    Leads (s.writeNext p as.getLast?).listLink (s.writeNext p as.getLast?).first (as ++ bs) none := by
  rcases List.eq_nil_or_concat as with rfl | ⟨as, m, rfl⟩
  · exact hbs
  · rw [List.concat_eq_append] at hnodup has ⊢
    obtain ⟨q', has, hm, -⟩ := leads_append.1 has
    rw [List.append_assoc, List.nodup_append] at hnodup
    obtain ⟨-, hrest, hdisjoint⟩ := hnodup
    have hmas : m ∉ as := fun hmem => hdisjoint m hmem m (by simp) rfl
    have hmbs : m ∉ bs := (List.nodup_cons.1 hrest).1
    rw [List.getLast?_concat, List.append_assoc]
    apply leads_append.2
    subst hm
    refine ⟨some m, has.update hmas p, rfl, ?_⟩
    show Leads (update s.listLink m p) (update s.listLink m p m) bs none
    rw [update_self]
    exact hbs.update hmbs p

/-- The tree holds the nodes of the list, and so do the links. -/
structure Holds (getKey : N → K) (s : IteratableSplayTree N) (l : List N) : Prop where
  tree : s.tree.toList = l
  sorted : Sorted getKey l
  list : Leads s.listLink s.first l none

omit [DecidableEq N] in
lemma holds_empty : Holds getKey empty ([] : List N) := ⟨rfl, .nil, rfl⟩

omit [DecidableEq N] in
/-- Only the shape of the tree has changed. -/
lemma Holds.reshape (h : Holds getKey s l) {tree : Tree N} (ht : tree.toList = s.tree.toList) :
    Holds getKey { s with tree := tree } l :=
  ⟨ht.trans h.tree, h.sorted, h.list⟩

lemma Holds.unlink (h : Holds getKey s (as ++ n :: bs)) {tree : Tree N}
    (ht : tree.toList = as ++ bs) : Holds getKey (s.unlink getKey tree (getKey n) n) (as ++ bs) := by
  obtain ⟨hbefore, hbehind⟩ := h.sorted.split
  have hsorted : Sorted getKey (as ++ bs) :=
    List.Pairwise.sublist ((List.Sublist.refl as).append (List.sublist_cons_self n bs)) h.sorted
  have hprevious : tree.previousDontSplay getKey (getKey n) none = as.getLast? := by
    rw [Tree.previousDontSplay_eq (ht ▸ hsorted), ht,
      (below_append hbefore fun m hm => (hbehind m hm).le).1]
  obtain ⟨q, has, rfl, hbs⟩ := leads_append.1 h.list
  unfold IteratableSplayTree.unlink
  rw [hprevious]
  refine ⟨?_, hsorted, ?_⟩
  · rw [← ht]
    cases as.getLast? <;> rfl
  · exact leads_writeNext hsorted.nodup has hbs

/-- The tree has got the node, which has no place in the list yet. -/
lemma Holds.linked (h : Holds getKey s (as ++ bs)) {tree : Tree N} (ht : tree.toList = as ++ n :: bs)
    (hbefore : ∀ m ∈ as, getKey m < getKey n) (hbehind : ∀ m ∈ bs, getKey n < getKey m) :
    Holds getKey (IteratableSplayTree.writeNext
      ⟨tree, s.first, update s.listLink n (s.readNext as.getLast?)⟩ (some n) as.getLast?)
      (as ++ n :: bs) := by
  have hsorted : Sorted getKey (as ++ n :: bs) := by
    apply List.pairwise_append.2
    exact ⟨h.sorted.left, List.pairwise_cons.2 ⟨hbehind, h.sorted.right⟩, fun m hm =>
      List.forall_mem_cons.2 ⟨hbefore m hm, fun m' hm' => (hbefore m hm).trans (hbehind m' hm')⟩⟩
  obtain ⟨q, has, hbs⟩ := leads_append.1 h.list
  have hnas : n ∉ as := fun hn => (hbefore n hn).false
  have hnbs : n ∉ bs := fun hn => (hbehind n hn).false
  rw [readNext_of_leads has]
  refine ⟨?_, hsorted, ?_⟩
  · rw [← ht]
    cases as.getLast? <;> rfl
  · apply leads_writeNext hsorted.nodup (has.update hnas q)
    refine ⟨rfl, ?_⟩
    dsimp only
    rw [update_self]
    exact hbs.update hnbs q

lemma Holds.insert (h : Holds getKey s l) (n : N) :
    (s.insert getKey n).1 = (SortedList.insert getKey n l).1 ∧
      Holds getKey (s.insert getKey n).2 (SortedList.insert getKey n l).2 := by
  obtain rfl := h.tree
  have htree := Tree.insert_toList h.sorted n
  unfold IteratableSplayTree.insert
  unfold SortedList.insert at htree ⊢
  cases hins : s.tree.insert getKey n with
  | mk done tree =>
    rw [hins] at htree
    split_ifs at htree ⊢ with hnone
    · obtain ⟨rfl, ht⟩ := Prod.ext_iff.1 htree
      have ht : tree.toList = _ := ht
      have hbefore : ∀ m ∈ below getKey (getKey n) s.tree.toList, getKey m < getKey n := fun m hm =>
        of_decide_eq_true (List.mem_filter.1 hm).2
      have hbehind := lt_of_find h.sorted hnone
      rw [← append_rest h.sorted (getKey n)] at h
      have hlinked := h.linked ht hbefore hbehind
      have hprevious : tree.previousDontSplay getKey (getKey n) none =
          (below getKey (getKey n) s.tree.toList).getLast? := by
        rw [Tree.previousDontSplay_eq (ht ▸ hlinked.sorted), ht]
        exact congrArg _ (below_append hbefore
          (List.forall_mem_cons.2 ⟨le_rfl, fun m hm => (hbehind m hm).le⟩)).1
      dsimp only
      rw [hprevious]
      exact ⟨rfl, hlinked⟩
    · obtain ⟨rfl, ht⟩ := Prod.ext_iff.1 htree
      exact ⟨rfl, h.reshape ht⟩

lemma Holds.takeOut (h : Holds getKey s l) (hfind : find getKey key l = some n) {tree : Tree N}
    (ht : tree.toList = erase getKey key l) :
    Holds getKey (s.unlink getKey tree key n) (erase getKey key l) := by
  obtain ⟨hrest, rfl⟩ := rest_of_find hfind
  have hl := append_rest h.sorted (getKey n)
  rw [hrest] at hl
  unfold SortedList.erase at ht ⊢
  rw [hrest, List.tail_cons] at ht ⊢
  rw [← hl] at h
  exact h.unlink ht

lemma Holds.remove (h : Holds getKey s l) (key : K) :
    (s.remove getKey key).1 = find getKey key l ∧ Holds getKey (s.remove getKey key).2
      (if find getKey key l = none then l else erase getKey key l) := by
  obtain rfl := h.tree
  have htree := Tree.remove_toList h.sorted key
  unfold IteratableSplayTree.remove
  cases hrem : s.tree.remove getKey key with
  | mk found tree =>
    rw [hrem] at htree
    obtain ⟨hfound, ht⟩ := Prod.ext_iff.1 htree
    have hfound : found = find getKey key s.tree.toList := hfound
    rw [← hfound] at ht ⊢
    cases found with
    | none => exact ⟨rfl, h.reshape ht⟩
    | some n => exact ⟨rfl, h.takeOut hfound.symm ht⟩

lemma Holds.removeNode (h : Holds getKey s l) (hl : l ≠ []) (n : N) :
    ∃ s', s.removeNode getKey n = some (decide (find getKey (getKey n) l = some n), s') ∧
      Holds getKey s' (if find getKey (getKey n) l = some n then erase getKey (getKey n) l else l) := by
  obtain rfl := h.tree
  have htree := Tree.removeNode_toList h.sorted (fun heq => hl (by rw [heq, Tree.toList])) n
  unfold IteratableSplayTree.removeNode
  cases hrem : s.tree.removeNode getKey n with
  | none =>
    rw [hrem] at htree
    split_ifs at htree <;> cases htree
  | some r =>
    obtain ⟨done, tree⟩ := r
    rw [hrem] at htree
    split_ifs at htree ⊢ with hfind
    · obtain ⟨rfl, ht⟩ := Prod.ext_iff.1 (Option.some.inj htree)
      rw [decide_eq_true hfind]
      exact ⟨_, rfl, h.takeOut hfind ht⟩
    · obtain ⟨rfl, ht⟩ := Prod.ext_iff.1 (Option.some.inj htree)
      rw [decide_eq_false hfind]
      exact ⟨_, rfl, h.reshape ht⟩

omit [DecidableEq N] in
lemma Holds.reshaped (h : Holds getKey s l) {f : Option N → Result N} {found : Option N}
    {r : Option N × Tree N} (hr : r.map id Tree.toList = (found, l)) :
    (r.map f fun tree => { s with tree := tree }).1 = f found ∧
      Holds getKey (r.map f fun tree => { s with tree := tree }).2 l := by
  obtain ⟨rfl, ht⟩ := Prod.ext_iff.1 hr
  exact ⟨rfl, h.reshape (Eq.trans ht h.tree.symm)⟩

/-- A call does to the tree what it does to the list. -/
lemma Holds.step (h : Holds getKey s l) (call : Call K N) :
    Alike (Holds getKey) (s.step getKey call) (SortedList.step getKey l call) := by
  obtain rfl := h.tree
  cases call with
  | insert n =>
    obtain ⟨hdone, hholds⟩ := h.insert n
    exact .some ⟨congrArg _ hdone, hholds⟩
  | remove key =>
    obtain ⟨hfound, hholds⟩ := h.remove key
    exact .some ⟨congrArg _ hfound, hholds⟩
  | removeNode n =>
    by_cases hl : s.tree.toList = []
    · have htree : s.tree = .nil := Tree.eq_nil_of_toList hl
      have hnone : s.removeNode getKey n = none := by
        unfold IteratableSplayTree.removeNode
        rw [htree]
        rfl
      unfold IteratableSplayTree.step SortedList.step
      dsimp only
      rw [hnone, if_pos hl]
      exact .none
    · obtain ⟨s', hs', hholds⟩ := h.removeNode hl n
      unfold IteratableSplayTree.step SortedList.step
      dsimp only
      rw [hs', if_neg hl]
      split_ifs at hholds ⊢ with hfind
      · exact .some ⟨congrArg _ (decide_eq_true hfind), hholds⟩
      · exact .some ⟨congrArg _ (decide_eq_false hfind), hholds⟩
  | lookup key =>
    exact .some (h.reshaped (Tree.lookup_toList h.sorted key))
  | getIterator key greater orEqual =>
    exact .some (h.reshaped (Tree.findClosest_toList h.sorted key greater orEqual))

/-! ## Sweeps -/

lemma Holds.sweep (drop : N → Bool) (h : Holds getKey s (as ++ bs)) {it : Iterator N}
    (hit : it.next = bs.head?) {fuel : ℕ} (hfuel : bs.length < fuel) :
    ∃ s', SplayTree.sweep getKey drop fuel it s = some (bs, s') ∧
      Holds getKey s' (as ++ bs.filter fun n => !drop n) := by
  -- what the iterator has left is the end of the list, whatever was removed before it
  induction fuel generalizing s it as bs with
  | zero => exact absurd hfuel (Nat.not_lt_zero _)
  | succ fuel ih =>
    unfold SplayTree.sweep Iterator.advance
    cases bs with
    | nil =>
      rw [hit]
      exact ⟨s, rfl, h⟩
    | cons n bs =>
      obtain ⟨q, -, hq, hbs⟩ := leads_append.1 h.list
      have hnext : Iterator.next ⟨some n, s.listLink n⟩ = bs.head? := by
        cases bs with
        | nil => exact hbs
        | cons m bs => exact hbs.1
      have hlength : bs.length < fuel := Nat.lt_of_succ_lt_succ hfuel
      rw [hit]
      dsimp only [List.head?_cons, Option.bind_some]
      by_cases hdrop : drop n
      · obtain ⟨s', hs', hholds⟩ := h.removeNode (by simp) n
        obtain ⟨hfind, herase⟩ := h.sorted.erase_node
        rw [if_pos hfind, herase] at hholds
        obtain ⟨s'', hs'', hdone⟩ := ih hholds hnext hlength
        refine ⟨s'', ?_, ?_⟩
        · rw [if_pos hdrop, hs', Option.map_some, Option.bind_some, hs'', Option.map_some]
        · rw [List.filter_cons_of_neg (by simp [hdrop])]
          exact hdone
      · have happend : as ++ n :: bs = (as ++ [n]) ++ bs := by simp
        rw [happend] at h
        obtain ⟨s'', hs'', hdone⟩ := ih h hnext hlength
        refine ⟨s'', ?_, ?_⟩
        · rw [if_neg hdrop, Option.bind_some, hs'', Option.map_some]
        · rw [List.filter_cons_of_pos (by simp [hdrop])]
          simpa using hdone

end IteratableSplayTree

/-! ## Calls -/

open IteratableSplayTree

variable [DecidableEq N]

variable (getKey) in
/-- Every list of calls is answered as by a sorted list of the nodes. -/
theorem answers_right (calls : List (Call K N)) :
    (responses (IteratableSplayTree.step getKey) .empty calls).map Prod.fst =
      (responses (SortedList.step getKey) [] calls).map Prod.fst :=
  (alike_responses (fun call h => h.step call) holds_empty calls).map_fst

/-- After every list of calls a loop over the nodes from a key on visits all of them in order, and the
nodes that it removes on the way are gone afterwards, from the tree and from the list. -/
theorem sweep_right {calls : List (Call K N)} {answers : List (Result N)} {s : IteratableSplayTree N}
    (h : responses (IteratableSplayTree.step getKey) .empty calls = some (answers, s)) (key : K)
    (drop : N → Bool) {fuel : ℕ} (hfuel : s.tree.toList.length < fuel) :
    ∃ s', sweep getKey drop fuel (s.getIterator getKey key true true).1
        (s.getIterator getKey key true true).2 = some (rest getKey key s.tree.toList, s') ∧
      Holds getKey s' (below getKey key s.tree.toList ++
        (rest getKey key s.tree.toList).filter fun n => !drop n) := by
  have hempty : Holds getKey (.empty : IteratableSplayTree N) [] := holds_empty
  have hrun := alike_responses (fun call h => h.step call) hempty calls
  rw [h] at hrun
  obtain ⟨⟨_, l⟩, -, hs⟩ := hrun.of_some
  have hs : Holds getKey s l := hs
  obtain rfl := hs.tree
  obtain ⟨hnext, htree⟩ := Prod.ext_iff.1 (Tree.findClosest_toList hs.sorted key true true)
  have hopen : Holds getKey (s.getIterator getKey key true true).2 s.tree.toList := hs.reshape htree
  rw [← append_rest hs.sorted key] at hopen
  have hlength := Nat.lt_of_le_of_lt (List.length_filter_le (key ≤ getKey ·) _) hfuel
  exact hopen.sweep drop hnext hlength

def insertThree : List (Call ℕ ℕ) := [.insert 3, .insert 1, .insert 2]

/-- The loop visits two of the nodes, and removes one of them. -/
theorem sweep_right_insertThree : ∃ answers s,
    responses (IteratableSplayTree.step id) .empty insertThree = some (answers, s) ∧
      ∃ s', sweep id (· == 2) 4 (s.getIterator id 2 true true).1 (s.getIterator id 2 true true).2 =
        some ([2, 3], s') ∧ Holds id s' [1, 3] :=
  ⟨_, _, rfl, @sweep_right _ _ _ id _ insertThree _ _ rfl 2 (· == 2) 4 (by decide)⟩

end Haiku.SplayTree
