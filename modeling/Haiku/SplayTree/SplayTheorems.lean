import Mathlib.Order.Nat
import Haiku.Lib.Responses
import Haiku.SplayTree.Basic

/-!
# Splay trees as sorted lists

A splay moves nodes around, but keeps their order. The nodes of a tree in this order are a list that
is sorted by the keys, and each call does to the tree what the same call does to the list.
-/

namespace Haiku.SplayTree

open Function Lib

/-! ## Sorted lists -/

section

variable {K N : Type} [LinearOrder K] (getKey : N → K)

def Sorted (l : List N) : Prop := l.Pairwise fun n m => getKey n < getKey m

namespace SortedList

def below (key : K) (l : List N) : List N := l.filter (getKey · < key)

def rest (key : K) (l : List N) : List N := l.filter (key ≤ getKey ·)

/-- The node with a key -/
def find (key : K) (l : List N) : Option N := (rest getKey key l).head?.filter (getKey · = key)

def insert (n : N) (l : List N) : Bool × List N :=
  if find getKey (getKey n) l = none then
    (true, below getKey (getKey n) l ++ n :: rest getKey (getKey n) l)
  else (false, l)

def erase (key : K) (l : List N) : List N := below getKey key l ++ (rest getKey key l).tail

def closest (key : K) (greater orEqual : Bool) (l : List N) : Option N :=
  match greater, orEqual with
  | true, true => (rest getKey key l).head?
  | true, false => (l.filter (key < getKey ·)).head?
  | false, true => (l.filter (getKey · ≤ key)).getLast?
  | false, false => (below getKey key l).getLast?

def step [DecidableEq N] (l : List N) : Call K N → Option (Result N × List N)
  | .insert n => some ((insert getKey n l).map .success id)
  | .remove key =>
    some (.found (find getKey key l), if find getKey key l = none then l else erase getKey key l)
  | .removeNode n =>
    if l = [] then none
    else if find getKey (getKey n) l = some n then some (.success true, erase getKey (getKey n) l)
    else some (.success false, l)
  | .lookup key => some (.found (find getKey key l), l)
  | .getIterator key greater orEqual => some (.found (closest getKey key greater orEqual l), l)

end SortedList

end

variable {K N : Type} [LinearOrder K] {getKey : N → K} {key : K} {n x : N} {l l' as bs : List N}

lemma Sorted.split (h : Sorted getKey (as ++ x :: bs)) :
    (∀ n ∈ as, getKey n < getKey x) ∧ ∀ n ∈ bs, getKey x < getKey n := by
  obtain ⟨-, hrest, hcross⟩ := List.pairwise_append.1 h
  exact ⟨fun n hn => hcross n hn x List.mem_cons_self, (List.pairwise_cons.1 hrest).1⟩

/-- What is before a node with a smaller key has a smaller key as well. -/
lemma Sorted.before (h : Sorted getKey l) (hlt : getKey x < key) (hl : as ++ x :: bs = l) :
    ∀ n ∈ as ++ [x], getKey n < key := by
  subst hl
  exact List.forall_mem_append.2
    ⟨fun n hn => (h.split.1 n hn).trans hlt, List.forall_mem_singleton.2 hlt⟩

lemma Sorted.behind (h : Sorted getKey l) (hlt : key < getKey x) (hl : as ++ x :: bs = l) :
    ∀ n ∈ x :: bs, key < getKey n := by
  subst hl
  exact List.forall_mem_cons.2 ⟨hlt, fun n hn => hlt.trans (h.split.2 n hn)⟩

lemma Sorted.left (h : Sorted getKey (as ++ bs)) : Sorted getKey as :=
  (List.pairwise_append.1 h).1

lemma Sorted.right (h : Sorted getKey (as ++ bs)) : Sorted getKey bs :=
  (List.pairwise_append.1 h).2.1

lemma Sorted.tail (h : Sorted getKey (x :: bs)) : Sorted getKey bs :=
  (List.pairwise_cons.1 h).2

lemma Sorted.nodup (h : Sorted getKey l) : l.Nodup :=
  List.Pairwise.imp (fun hlt heq => hlt.ne (congrArg getKey heq)) h

/-- The list is cut at the key, which only the node `x` can have. -/
structure CutAt (getKey : N → K) (key : K) (as : List N) (x : N) (bs : List N) : Prop where
  before : ∀ n ∈ as, getKey n < key
  behind : ∀ n ∈ bs, key < getKey n

namespace SortedList

lemma below_append (hbefore : ∀ n ∈ as, getKey n < key) (hbehind : ∀ n ∈ bs, key ≤ getKey n) :
    below getKey key (as ++ bs) = as ∧ rest getKey key (as ++ bs) = bs := by
  unfold below rest
  rw [List.filter_append, List.filter_append,
    List.filter_eq_self.2 fun n hn => decide_eq_true (hbefore n hn),
    List.filter_eq_nil_iff.2 fun n hn => by simpa using hbehind n hn,
    List.filter_eq_nil_iff.2 fun n hn => by simpa using hbefore n hn,
    List.filter_eq_self.2 fun n hn => decide_eq_true (hbehind n hn)]
  exact ⟨List.append_nil as, List.nil_append bs⟩

lemma append_rest (h : Sorted getKey l) (key : K) :
    below getKey key l ++ rest getKey key l = l := by
  induction l with
  | nil => rfl
  | cons n l ih =>
    by_cases hlt : getKey n < key
    · unfold below rest
      rw [List.filter_cons, List.filter_cons, if_pos (decide_eq_true hlt), if_neg (by simpa using hlt)]
      exact congrArg (n :: ·) (ih h.tail)
    · have hle : ∀ m ∈ n :: l, key ≤ getKey m := List.forall_mem_cons.2
        ⟨not_lt.1 hlt, fun m hm => (not_lt.1 hlt).trans (List.rel_of_pairwise_cons h hm).le⟩
      obtain ⟨hbelow, hrest⟩ := below_append (List.forall_mem_nil _) hle
      rw [List.nil_append] at hbelow hrest
      rw [hbelow, hrest, List.nil_append]

lemma rest_of_find (h : find getKey key l = some n) :
    rest getKey key l = n :: (rest getKey key l).tail ∧ getKey n = key := by
  unfold find at h
  cases hrest : rest getKey key l with
  | nil => simp [hrest] at h
  | cons m bs =>
    rw [hrest] at h
    obtain ⟨hm, hkey⟩ := Option.filter_eq_some_iff.1 h
    obtain rfl : m = n := Option.some.inj hm
    exact ⟨rfl, of_decide_eq_true hkey⟩

/-- All nodes from a key on are greater when no node has the key. -/
lemma lt_of_find (h : Sorted getKey l) (hnone : find getKey key l = none) :
    ∀ n ∈ rest getKey key l, key < getKey n := by
  intro n hn
  have hsorted : Sorted getKey (rest getKey key l) := List.Pairwise.filter _ h
  have hall : ∀ m ∈ rest getKey key l, key ≤ getKey m := fun m hm =>
    of_decide_eq_true (List.mem_filter.1 hm).2
  unfold find at hnone
  cases hrest : rest getKey key l with
  | nil => simp [hrest] at hn
  | cons m bs =>
    rw [hrest] at hn hsorted hall hnone
    have hne : getKey m ≠ key := by simpa [Option.filter] using hnone
    have hlt : key < getKey m := lt_of_le_of_ne (hall m List.mem_cons_self) hne.symm
    exact hsorted.behind hlt (List.nil_append _) n hn

end SortedList

open SortedList

namespace CutAt

variable (h : CutAt getKey key as x bs)
include h

lemma of_lt (hlt : getKey x < key) : below getKey key (as ++ x :: bs) = as ++ [x] ∧
    rest getKey key (as ++ x :: bs) = bs ∧ find getKey key (as ++ x :: bs) = none := by
  have hbefore : ∀ n ∈ as ++ [x], getKey n < key :=
    List.forall_mem_append.2 ⟨h.before, List.forall_mem_singleton.2 hlt⟩
  have hcut := below_append hbefore fun n hn => (h.behind n hn).le
  rw [List.append_assoc, List.singleton_append] at hcut
  refine ⟨hcut.1, hcut.2, ?_⟩
  unfold find
  rw [hcut.2]
  cases bs with
  | nil => rfl
  | cons n bs => simp [Option.filter, (h.behind n List.mem_cons_self).ne']

lemma of_ge (hge : key ≤ getKey x) : below getKey key (as ++ x :: bs) = as ∧
    rest getKey key (as ++ x :: bs) = x :: bs ∧
      find getKey key (as ++ x :: bs) = if getKey x = key then some x else none := by
  have hbehind : ∀ n ∈ x :: bs, key ≤ getKey n :=
    List.forall_mem_cons.2 ⟨hge, fun n hn => (h.behind n hn).le⟩
  have hcut := below_append h.before hbehind
  refine ⟨hcut.1, hcut.2, ?_⟩
  unfold find
  rw [hcut.2]
  simp [Option.filter]

lemma find_eq : find getKey key (as ++ x :: bs) = if getKey x = key then some x else none := by
  rcases lt_or_ge (getKey x) key with hlt | hge
  · rw [(h.of_lt hlt).2.2, if_neg hlt.ne]
  · exact (h.of_ge hge).2.2

lemma erase_eq (heq : getKey x = key) : erase getKey key (as ++ x :: bs) = as ++ bs := by
  obtain ⟨hbefore, hrest, -⟩ := h.of_ge heq.ge
  unfold erase
  rw [hbefore, hrest, List.tail_cons]

end CutAt

lemma Sorted.erase_node (h : Sorted getKey (as ++ x :: bs)) :
    find getKey (getKey x) (as ++ x :: bs) = some x ∧
      erase getKey (getKey x) (as ++ x :: bs) = as ++ bs := by
  have hcut : CutAt getKey (getKey x) as x bs := ⟨h.split.1, h.split.2⟩
  exact ⟨hcut.find_eq.trans (if_pos rfl), hcut.erase_eq rfl⟩

/-! ## The order of the nodes -/

namespace Tree

def toList : Tree N → List N
  | nil => []
  | node left value right => left.toList ++ value :: right.toList

/-- The nodes of the left tree, without those at its open end -/
def leftNodes : List (Tree N × N) → List N
  | [] => []
  | n :: l => leftNodes l ++ (n.1.toList ++ [n.2])

/-- The nodes of the right tree, without those at its open end -/
def rightNodes : List (N × Tree N) → List N
  | [] => []
  | n :: r => n.1 :: (n.2.toList ++ rightNodes r)

attribute [simp] toList leftNodes rightNodes

lemma toList_closeLeft (l : List (Tree N × N)) (t : Tree N) :
    (closeLeft l t).toList = leftNodes l ++ t.toList := by
  induction l generalizing t with
  | nil => rfl
  | cons n l ih =>
    rw [closeLeft, List.foldl_cons]
    refine (ih _).trans ?_
    simp

lemma toList_closeRight (r : List (N × Tree N)) (t : Tree N) :
    (closeRight r t).toList = t.toList ++ rightNodes r := by
  induction r generalizing t with
  | nil => exact (List.append_nil _).symm
  | cons n r ih =>
    rw [closeRight, List.foldl_cons]
    refine (ih _).trans ?_
    simp

/-- The loop has ended at a node: all nodes before it have smaller keys, all nodes behind it have
greater keys. -/
structure Splayed.Cut (getKey : N → K) (key : K) (l : List N) (s : Splayed N) (a : Tree N) (x : N)
    (b : Tree N) : Prop where
  ends : s.t = node a x b
  nodes : leftNodes s.l ++ a.toList ++ x :: (b.toList ++ rightNodes s.r) = l
  before : ∀ n ∈ leftNodes s.l ++ a.toList, getKey n < key
  behind : ∀ n ∈ b.toList ++ rightNodes s.r, key < getKey n

variable (key) in
lemma splayLoop_cut (hsorted : Sorted getKey bs) (l : List (Tree N × N)) (r : List (N × Tree N))
    (t : Tree N) (ht : t ≠ nil) (hbs : leftNodes l ++ (t.toList ++ rightNodes r) = bs)
    (hl : ∀ n ∈ leftNodes l, getKey n < key) (hr : ∀ n ∈ rightNodes r, key < getKey n) :
    ∃ a x b, (splayLoop getKey key l r t).Cut getKey key bs a x b := by
  -- what is linked to a side is on this side of the key, since the tree is in order
  fun_induction splayLoop getKey key l r t with
  | case1 => exact absurd rfl ht
  | case2 l r value right hlt =>
    have hbehind := hsorted.behind hlt hbs
    exact ⟨_, _, _, rfl, by simpa using hbs, by simpa using hl,
      fun n hn => hbehind n (List.mem_cons_of_mem _ hn)⟩
  | case3 l r value right hlt y yRight hy =>
    have hy' : leftNodes l ++ y :: (yRight.toList ++ value :: (right.toList ++ rightNodes r)) = bs := by
      simpa using hbs
    have hbehind := hsorted.behind hy hy'
    refine ⟨_, _, _, rfl, by simpa using hbs, by simpa using hl, fun n hn => hbehind n ?_⟩
    simpa using List.mem_cons_of_mem y hn
  | case4 l r value right hlt y yRight hy a x b ih =>
    have hy' : leftNodes l ++ ((node a x b).toList ++
        rightNodes ((y, node yRight value right) :: r)) = bs := by
      simpa using hbs
    have hbehind := hsorted.behind hy ((List.append_assoc _ _ _).trans hy')
    exact ih (by simp) hy' hl hbehind
  | case5 l r value right hlt yLeft y yRight hy ih =>
    have hvalue : leftNodes l ++ ((node yLeft y yRight).toList ++
        rightNodes ((value, right) :: r)) = bs := by
      simpa using hbs
    have hbehind := hsorted.behind hlt ((List.append_assoc _ _ _).trans hvalue)
    exact ih (by simp) hvalue hl hbehind
  | case6 l r left value _ hlt =>
    have hvalue : leftNodes l ++ left.toList ++ value :: rightNodes r = bs := by
      simpa using hbs
    have hbefore := hsorted.before hlt hvalue
    exact ⟨_, _, _, rfl, by simpa using hbs, fun n hn => hbefore n (List.mem_append_left _ hn),
      by simpa using hr⟩
  | case7 l r left value _ hlt yLeft y hy =>
    have hy' : leftNodes l ++ (left.toList ++ value :: yLeft.toList) ++ y :: rightNodes r = bs := by
      simpa using hbs
    have hbefore := hsorted.before hy hy'
    exact ⟨_, _, _, rfl, by simpa using hbs, fun n hn => hbefore n (List.mem_append_left _ hn),
      by simpa using hr⟩
  | case8 l r left value _ hlt yLeft y hy a x b ih =>
    have hy' : leftNodes ((node left value yLeft, y) :: l) ++ ((node a x b).toList ++
        rightNodes r) = bs := by
      simpa using hbs
    have hy'' : leftNodes l ++ (left.toList ++ value :: yLeft.toList) ++
        y :: ((node a x b).toList ++ rightNodes r) = bs := by
      simpa using hbs
    have hbefore := hsorted.before hy hy''
    exact ih (by simp) hy' (by simpa using hbefore) hr
  | case9 l r left value _ hlt yLeft y yRight hy ih =>
    have hvalue : leftNodes ((left, value) :: l) ++ ((node yLeft y yRight).toList ++
        rightNodes r) = bs := by
      simpa using hbs
    have hvalue' : leftNodes l ++ left.toList ++
        value :: ((node yLeft y yRight).toList ++ rightNodes r) = bs := by
      simpa using hbs
    have hbefore := hsorted.before hlt hvalue'
    exact ih (by simp) hvalue (by simpa using hbefore) hr
  | case10 l r left value right hge hle =>
    obtain rfl : key = getKey value := le_antisymm (not_lt.1 hle) (not_lt.1 hge)
    have hvalue : leftNodes l ++ left.toList ++ value :: (right.toList ++ rightNodes r) = bs := by
      simpa using hbs
    subst hvalue
    obtain ⟨hbefore, hbehind⟩ := hsorted.split
    exact ⟨_, _, _, rfl, rfl, hbefore, hbehind⟩

variable {t : Tree N}

lemma eq_nil_of_toList (h : t.toList = []) : t = nil := by
  cases t with
  | nil => rfl
  | node left value right => simp at h

/-- A splay keeps the order of the nodes, and cuts the tree at the key. -/
lemma splay_cut (hsorted : Sorted getKey t.toList) (ht : t ≠ nil) (key : K) :
    ∃ a x b, t.splay getKey key = node a x b ∧ t.toList = a.toList ++ x :: b.toList ∧
      CutAt getKey key a.toList x b.toList := by
  obtain ⟨a, x, b, hends, hnodes, hbefore, hbehind⟩ :=
    splayLoop_cut key hsorted [] [] t ht (List.append_nil _) (by simp) (by simp)
  have hsplay : t.splay getKey key = node (closeLeft (splayLoop getKey key [] [] t).l a) x
      (closeRight (splayLoop getKey key [] [] t).r b) := by
    unfold splay Splayed.assemble
    rw [hends]
  refine ⟨_, _, _, hsplay, ?_, ?_, ?_⟩
  · rw [toList_closeLeft, toList_closeRight]
    exact hnodes.symm
  · rw [toList_closeLeft]
    exact hbefore
  · rw [toList_closeRight]
    exact hbehind

lemma toList_deleteRoot {left : Tree N} (hsorted : Sorted getKey left.toList)
    (hbefore : ∀ n ∈ left.toList, getKey n < key) (right : Tree N) :
    (deleteRoot getKey key left right).toList = left.toList ++ right.toList := by
  cases left with
  | nil => rfl
  | node a y b =>
    obtain ⟨left, x, rest, hsplay, hl, hcut⟩ := splay_cut hsorted (by simp) key
    -- the greatest node is at the root, so no pointer to a node is overwritten
    have hrest : rest.toList = [] := by
      rw [List.eq_nil_iff_forall_not_mem]
      intro n hn
      have hmem : n ∈ (node a y b).toList := by
        rw [hl]
        exact List.mem_append_right _ (List.mem_cons_of_mem _ hn)
      exact (hbefore n hmem).not_gt (hcut.behind n hn)
    unfold deleteRoot
    dsimp only
    rw [hsplay, hl, hrest, toList, List.append_assoc]
    rfl

lemma insert_toList (hsorted : Sorted getKey t.toList) (n : N) :
    (t.insert getKey n).map id toList = SortedList.insert getKey n t.toList := by
  unfold SortedList.insert
  cases t with
  | nil => rfl
  | node left value right =>
    obtain ⟨a, x, b, hsplay, hl, hcut⟩ := splay_cut hsorted (by simp) (getKey n)
    unfold insert
    dsimp only
    rw [hsplay, hl]
    dsimp only
    rcases lt_trichotomy (getKey n) (getKey x) with hlt | heq | hgt
    · obtain ⟨hbefore, hrest, hfind⟩ := hcut.of_ge hlt.le
      rw [hbefore, hrest, hfind, if_neg hlt.ne, if_pos hlt, if_neg hlt.ne', if_pos rfl]
      rfl
    · rw [hcut.find_eq, if_pos heq, if_pos heq.symm, if_neg (by simp)]
      rfl
    · obtain ⟨hbefore, hrest, hfind⟩ := hcut.of_lt hgt
      rw [hbefore, hrest, hfind, if_neg hgt.ne', if_neg hgt.not_gt, if_pos rfl]
      simp

lemma remove_toList (hsorted : Sorted getKey t.toList) (key : K) :
    (t.remove getKey key).map id toList = (find getKey key t.toList,
      if find getKey key t.toList = none then t.toList else erase getKey key t.toList) := by
  cases t with
  | nil => rfl
  | node left value right =>
    obtain ⟨a, x, b, hsplay, hl, hcut⟩ := splay_cut hsorted (by simp) key
    rw [hl] at hsorted
    unfold remove
    dsimp only
    rw [hsplay, hl, hcut.find_eq]
    dsimp only
    by_cases heq : getKey x = key
    · rw [if_neg (not_not.2 heq), if_pos heq, if_neg (by simp), hcut.erase_eq heq]
      exact Prod.ext rfl (toList_deleteRoot hsorted.left hcut.before b)
    · rw [if_pos heq, if_neg heq, if_pos rfl]
      rfl

lemma removeNode_toList (hsorted : Sorted getKey t.toList) [DecidableEq N] (ht : t ≠ nil) (n : N) :
    (t.removeNode getKey n).map (Prod.map id toList) =
      if find getKey (getKey n) t.toList = some n then some (true, erase getKey (getKey n) t.toList)
      else some (false, t.toList) := by
  cases t with
  | nil => exact absurd rfl ht
  | node left value right =>
    obtain ⟨a, x, b, hsplay, hl, hcut⟩ := splay_cut hsorted ht (getKey n)
    rw [hl] at hsorted
    unfold removeNode
    dsimp only
    rw [hsplay, hl, hcut.find_eq]
    dsimp only
    by_cases heq : n = x
    · subst heq
      rw [if_neg (not_not.2 rfl), if_pos rfl, if_pos rfl, hcut.erase_eq rfl]
      exact congrArg some (Prod.ext rfl (toList_deleteRoot hsorted.left hcut.before b))
    · have hne : (if getKey x = getKey n then some x else none) ≠ some n := by
        split_ifs
        · exact fun h => heq (Option.some.inj h).symm
        · simp
      rw [if_pos heq, if_neg hne]
      rfl

lemma lookup_toList (hsorted : Sorted getKey t.toList) (key : K) :
    (t.lookup getKey key).map id toList = (find getKey key t.toList, t.toList) := by
  cases t with
  | nil => rfl
  | node left value right =>
    obtain ⟨a, x, b, hsplay, hl, hcut⟩ := splay_cut hsorted (by simp) key
    unfold lookup
    dsimp only
    rw [hsplay, hl, hcut.find_eq]
    exact Prod.ext (if_congr eq_comm rfl rfl) rfl

lemma toList_splay (hsorted : Sorted getKey t.toList) (key : K) :
    (t.splay getKey key).toList = t.toList := by
  by_cases ht : t = nil
  · rw [ht]
    rfl
  · obtain ⟨a, x, b, hsplay, hl, -⟩ := splay_cut hsorted ht key
    rw [hsplay, hl]
    rfl

lemma closest_first {orEqual : Bool} {p : N → Bool} (hsorted : Sorted getKey t.toList)
    (hp : ∀ n, p n = true ↔ key = getKey n ∧ orEqual ∨ key < getKey n) (closestNode : Option N) :
    t.closest getKey key true orEqual closestNode = (t.toList.filter p).head?.or closestNode := by
  induction t generalizing closestNode with
  | nil => rfl
  | node left value right ihl ihr =>
    -- a node whose key is not below that of the root does not count in the left subtree
    have hleft (hle : getKey value ≤ key) : left.toList.filter p = [] := by
      rw [List.filter_eq_nil_iff]
      intro n hn hpn
      have hlt := (hsorted.split.1 n hn).trans_le hle
      rcases (hp n).1 hpn with heq | hgt
      · exact hlt.ne' heq.1
      · exact hlt.not_gt hgt
    have hvalue := hp value
    unfold closest
    rw [toList, List.filter_append, List.filter_cons, if_pos rfl, ihl hsorted.left,
      ihr hsorted.right.tail]
    by_cases heq : key = getKey value ∧ orEqual
    · rw [if_pos heq, hleft heq.1.ge, if_pos (hvalue.2 (.inl heq))]
      rfl
    · rw [if_neg heq]
      by_cases hlt : key < getKey value
      · rw [if_pos hlt, if_pos (hvalue.2 (.inr hlt)), List.head?_append, List.head?_cons]
        cases (left.toList.filter p).head? <;> rfl
      · rw [if_neg hlt, if_neg fun h => (hvalue.1 h).elim heq hlt, hleft (not_lt.1 hlt),
          List.nil_append]

lemma closest_last {orEqual : Bool} {p : N → Bool} (hsorted : Sorted getKey t.toList)
    (hp : ∀ n, p n = true ↔ key = getKey n ∧ orEqual ∨ getKey n < key) (closestNode : Option N) :
    t.closest getKey key false orEqual closestNode =
      (t.toList.filter p).getLast?.or closestNode := by
  induction t generalizing closestNode with
  | nil => rfl
  | node left value right ihl ihr =>
    have hright (hle : key ≤ getKey value) : right.toList.filter p = [] := by
      rw [List.filter_eq_nil_iff]
      intro n hn hpn
      have hlt := hle.trans_lt (hsorted.split.2 n hn)
      rcases (hp n).1 hpn with heq | hgt
      · exact hlt.ne heq.1
      · exact hlt.not_gt hgt
    have hvalue := hp value
    unfold closest
    rw [toList, List.filter_append, List.filter_cons, if_neg Bool.false_ne_true,
      ihl hsorted.left, ihr hsorted.right.tail]
    by_cases heq : key = getKey value ∧ orEqual
    · rw [if_pos heq, hright heq.1.le, if_pos (hvalue.2 (.inl heq)), List.getLast?_concat]
      rfl
    · rw [if_neg heq]
      by_cases hlt : getKey value < key
      · rw [if_pos hlt, if_pos (hvalue.2 (.inr hlt)), List.getLast?_append, List.getLast?_cons]
        cases (right.toList.filter p).getLast? <;> rfl
      · rw [if_neg hlt, if_neg fun h => (hvalue.1 h).elim heq hlt, hright (not_lt.1 hlt),
          List.append_nil]

lemma closest_eq (hsorted : Sorted getKey t.toList) (key : K) (greater orEqual : Bool) :
    t.closest getKey key greater orEqual none =
      SortedList.closest getKey key greater orEqual t.toList := by
  cases greater with
  | true =>
    cases orEqual with
    | true =>
      exact (closest_first hsorted (by simp [le_iff_eq_or_lt]) none).trans Option.or_none
    | false => exact (closest_first hsorted (by simp) none).trans Option.or_none
  | false =>
    cases orEqual with
    | true =>
      have hle (n : N) : decide (getKey n ≤ key) = true ↔
          key = getKey n ∧ true = true ∨ getKey n < key := by
        rw [decide_eq_true_iff, le_iff_eq_or_lt, eq_comm, and_iff_left rfl]
      exact (closest_last hsorted hle none).trans Option.or_none
    | false => exact (closest_last hsorted (by simp) none).trans Option.or_none

lemma findClosest_toList (hsorted : Sorted getKey t.toList) (key : K) (greater orEqual : Bool) :
    (t.findClosest getKey key greater orEqual).map id toList =
      (SortedList.closest getKey key greater orEqual t.toList, t.toList) := by
  cases t with
  | nil => cases greater <;> cases orEqual <;> rfl
  | node left value right =>
    have hsplay := toList_splay hsorted key
    rw [← hsplay] at hsorted ⊢
    exact Prod.ext (closest_eq hsorted key greater orEqual) rfl

lemma previousDontSplay_eq (hsorted : Sorted getKey t.toList) (key : K) :
    t.previousDontSplay getKey key none = (below getKey key t.toList).getLast? := by
  have hloop (t : Tree N) (closestNode : Option N) : t.previousDontSplay getKey key closestNode =
      t.closest getKey key false false closestNode := by
    induction t generalizing closestNode with
    | nil => rfl
    | node left value right ihl ihr =>
      unfold previousDontSplay closest
      have hne : ¬(key = getKey value ∧ false = true) := fun h => Bool.false_ne_true h.2
      rw [ihl, ihr, if_neg hne, if_neg Bool.false_ne_true]
  exact (hloop t none).trans (closest_eq hsorted key false false)

end Tree

end Haiku.SplayTree
