import Haiku.AddressSpace.AVLTree

/-!
# The closest node of an AVL tree

`AVLTreeBase::FindClosest()` for any comparison of which only the sign is known. The ancestors of a
node, from its parent up, stand for the pointers to the parents; with each of them goes whether the
node is in its left subtree.
-/

namespace Haiku.AddressSpace

namespace Tree

def rightMost : Tree → Option ℕ
  | nil => none
  | node _ value _ right => right.rightMost.or (some value)

def leftMost : Tree → Option ℕ
  | nil => none
  | node left value _ _ => left.leftMost.or (some value)

/-- `AVLTreeBase::FindClosest()` in a subtree, where `previous` is the nearest ancestor that has it in
its right subtree, and `next` the nearest one that has it in its left subtree: without a subtree on
its side `Previous()` or `Next()` backtracks to that. -/
def findClosestBy (compare : ℕ → ℤ) (less : Bool) : Tree → Option ℕ → Option ℕ → Option ℕ
  | nil, _, _ => none
  | node left value _ right, previous, next =>
    let cmp := compare value
    let expectedCmp := if less then 1 else -1
    let stop :=
      if cmp ≠ expectedCmp then
        if less then left.rightMost.or previous else right.leftMost.or next
      else some value
    if cmp = 0 then some value
    else if cmp < 0 then
      if left ≠ nil then findClosestBy compare less left previous (some value) else stop
    else if right ≠ nil then findClosestBy compare less right (some value) next
    else stop

/-! ## Comparisons -/

/-- A consistent total order of the keys and nodes, and a `CompareKeyNode()` with its signs. -/
structure Comparator (κ : Type) [LinearOrder κ] where
  position : ℕ → κ
  compareKeyNode : κ → ℕ → ℤ
  keyNode_neg : ∀ k x, compareKeyNode k x < 0 ↔ k < position x
  keyNode_zero : ∀ k x, compareKeyNode k x = 0 ↔ k = position x

variable {κ : Type} [LinearOrder κ] {c : Comparator κ} {k : κ} {less : Bool} {t : Tree} {x : ℕ}

lemma Comparator.keyNode_pos (k : κ) (x : ℕ) : 0 < c.compareKeyNode k x ↔ c.position x < k := by
  have hneg := c.keyNode_neg k x
  have hzero := c.keyNode_zero k x
  rw [← not_le (a := k), le_iff_lt_or_eq, ← hneg, ← hzero]
  omega

inductive Reachable (c : Comparator κ) : Tree → Prop
  | empty : Reachable c nil
  | insert {t : Tree} {r : Tree × Bool} (x : ℕ) :
    Reachable c t → insert c.position x t = some r → Reachable c r.1
  | remove {t : Tree} (x : ℕ) : Reachable c t → Reachable c (t.remove x).1

def Sorted (c : Comparator κ) (t : Tree) : Prop :=
  t.inorder.Pairwise fun x y => c.position x < c.position y

lemma Sorted.node {left right : Tree} {value : ℕ} {balanceFactor : ℤ}
    (h : Sorted c (node left value balanceFactor right)) :
    Sorted c left ∧ Sorted c right ∧ (∀ x ∈ left.inorder, c.position x < c.position value) ∧
      ∀ x ∈ right.inorder, c.position value < c.position x := by
  obtain ⟨hleft, hrest, hcross⟩ := List.pairwise_append.1 h
  obtain ⟨hvalue, hright⟩ := List.pairwise_cons.1 hrest
  exact ⟨hleft, hright, fun x hx => hcross x hx value List.mem_cons_self, hvalue⟩

lemma insert_cut (hsorted : Sorted c t) {r : Tree × Bool}
    (h : insert c.position x t = some r) : ∃ as bs, t.inorder = as ++ bs ∧
      r.1.inorder = as ++ x :: bs ∧ (∀ a ∈ as, c.position a < c.position x) ∧
        ∀ b ∈ bs, c.position x < c.position b := by
  induction t generalizing r with
  | nil =>
    rw [← Option.some.inj h]
    exact ⟨[], [], rfl, rfl, by simp, by simp⟩
  | node left value balanceFactor right ihl ihr =>
    obtain ⟨hleft, hright, hbefore, hbehind⟩ := hsorted.node
    rw [insert] at h
    split_ifs at h with heq hlt
    · obtain ⟨⟨child, changed⟩, hr', hr⟩ := Option.map_eq_some_iff.1 h
      obtain ⟨as, bs, has, hinorder, hlow, hhigh⟩ := ihl hleft hr'
      refine ⟨as, bs ++ value :: right.inorder, ?_, ?_, hlow, ?_⟩
      · rw [inorder, has, List.append_assoc]
      · have hinorder : child.inorder = as ++ x :: bs := hinorder
        rw [← hr]
        cases changed <;> simp [inorder, hinorder]
      · intro b hb
        rcases List.mem_append.1 hb with hb | hb
        · exact hhigh b hb
        · rcases List.mem_cons.1 hb with rfl | hb
          · exact hlt
          · exact hlt.trans (hbehind b hb)
    · obtain ⟨⟨child, changed⟩, hr', hr⟩ := Option.map_eq_some_iff.1 h
      obtain ⟨as, bs, has, hinorder, hlow, hhigh⟩ := ihr hright hr'
      refine ⟨left.inorder ++ value :: as, bs, ?_, ?_, ?_, hhigh⟩
      · rw [inorder, has, List.append_assoc, List.cons_append]
      · have hinorder : child.inorder = as ++ x :: bs := hinorder
        rw [← hr]
        cases changed <;> simp [inorder, hinorder]
      · intro a ha
        have hx : c.position value < c.position x :=
          lt_of_le_of_ne (not_lt.1 hlt) (Ne.symm heq)
        rcases List.mem_append.1 ha with ha | ha
        · exact (hbefore a ha).trans hx
        · rcases List.mem_cons.1 ha with rfl | ha
          · exact hx
          · exact hlow a ha

lemma Sorted.nodup (h : Sorted c t) : t.inorder.Nodup :=
  List.Pairwise.imp (fun hlt heq => hlt.ne (congrArg c.position heq)) h

lemma Reachable.sorted (h : Reachable c t) : Sorted c t := by
  induction h with
  | empty => exact List.Pairwise.nil
  | insert x _ hins ih =>
    obtain ⟨as, bs, has, hinorder, hlow, hhigh⟩ := insert_cut ih hins
    unfold Sorted at ih ⊢
    rw [has, List.pairwise_append] at ih
    rw [hinorder, List.pairwise_append, List.pairwise_cons]
    refine ⟨ih.1, ⟨hhigh, ih.2.1⟩, ?_⟩
    intro a ha b hb
    rcases List.mem_cons.1 hb with rfl | hb
    · exact hlow a ha
    · exact ih.2.2 a ha b hb
  | remove x _ ih =>
    unfold Sorted
    rw [inorder_remove x _ ih.nodup]
    exact List.Pairwise.sublist List.erase_sublist ih

/-! ## The closest node -/

lemma rightMost_eq : t.rightMost = t.inorder.getLast? := by
  induction t with
  | nil => rfl
  | node left value balanceFactor right _ ih =>
    rw [rightMost, ih, inorder, List.getLast?_append, List.getLast?_cons]
    cases right.inorder.getLast? <;> rfl

lemma leftMost_eq : t.leftMost = t.inorder.head? := by
  induction t with
  | nil => rfl
  | node left value balanceFactor right ih _ =>
    rw [leftMost, ih, inorder, List.head?_append, List.head?_cons]

/-- `x` is the greatest node not greater than the key, or the least not less. -/
def IsClosest (c : Comparator κ) (k : κ) (less : Bool) (t : Tree) (x : ℕ) : Prop :=
  x ∈ t.inorder ∧ if less then
    c.position x ≤ k ∧ ∀ y ∈ t.inorder, c.position y ≤ k → c.position y ≤ c.position x
  else k ≤ c.position x ∧ ∀ y ∈ t.inorder, k ≤ c.position y → c.position x ≤ c.position y

/-- The closest node, found in the list of all nodes -/
def closest (c : Comparator κ) (k : κ) (less : Bool) (t : Tree) : Option ℕ :=
  if less then t.inorder.reverse.find? (c.position · ≤ k) else t.inorder.find? (k ≤ c.position ·)

lemma find?_eq_some_iff_least {ν : Type} [LinearOrder ν] {f : ℕ → ν} {p : ℕ → Bool} {l : List ℕ}
    (h : l.Pairwise fun x y => f x < f y) :
    l.find? p = some x ↔ x ∈ l ∧ p x ∧ ∀ y ∈ l, p y → f x ≤ f y := by
  rw [List.find?_eq_some_iff_append]
  constructor
  · rintro ⟨hx, as, bs, rfl, has⟩
    have hlt := (List.pairwise_cons.1 (List.pairwise_append.1 h).2.1).1
    refine ⟨by simp, hx, ?_⟩
    intro y hy hp
    rcases List.mem_append.1 hy with hy | hy
    · have hnot := has y hy
      simp [hp] at hnot
    · rcases List.mem_cons.1 hy with rfl | hy
      · exact le_rfl
      · exact (hlt y hy).le
  · rintro ⟨hx, hp, hleast⟩
    obtain ⟨as, bs, heq⟩ := List.append_of_mem hx
    refine ⟨hp, as, bs, heq, ?_⟩
    intro a ha
    rw [heq] at h
    have hlt := (List.pairwise_append.1 h).2.2 a ha x List.mem_cons_self
    by_contra hpa
    exact absurd (hleast a (by simp [heq, ha]) (by simpa using hpa)) (not_le.2 hlt)

lemma closest_eq_some (hsorted : Sorted c t) :
    closest c k less t = some x ↔ IsClosest c k less t x := by
  unfold closest IsClosest
  cases less with
  | true =>
    have hreverse : t.inorder.reverse.Pairwise fun x y =>
        OrderDual.toDual (c.position x) < OrderDual.toDual (c.position y) :=
      List.pairwise_reverse.2 hsorted
    rw [if_pos rfl, if_pos rfl, find?_eq_some_iff_least hreverse]
    simp
  | false =>
    rw [if_neg Bool.false_ne_true, if_neg Bool.false_ne_true, find?_eq_some_iff_least hsorted]
    simp

section

variable {left right : Tree} {value : ℕ} {balanceFactor : ℤ}

section

variable (hsorted : Sorted c (node left value balanceFactor right))
include hsorted

lemma closest_of_lt
    (h : k < c.position value) : closest c k less (node left value balanceFactor right) =
      (closest c k less left).or (if less then none else some value) := by
  have hright : ∀ x ∈ right.inorder, ¬ c.position x ≤ k :=
    fun x hx => not_le.2 (h.trans (hsorted.node.2.2.2 x hx))
  unfold closest
  cases less with
  | true =>
    have hnone : right.inorder.reverse.find? (c.position · ≤ k) = none := by
      simpa using fun x hx => not_le.1 (hright x hx)
    simp [inorder, List.find?_append, hnone, not_le.2 h]
  | false => simp [inorder, List.find?_append, h.le]

lemma closest_of_gt
    (h : c.position value < k) : closest c k less (node left value balanceFactor right) =
      (closest c k less right).or (if less then some value else none) := by
  have hleft : ∀ x ∈ left.inorder, ¬ k ≤ c.position x :=
    fun x hx => not_le.2 ((hsorted.node.2.2.1 x hx).trans h)
  unfold closest
  cases less with
  | true => simp [inorder, List.find?_append, h.le]
  | false =>
    have hnone : left.inorder.find? (k ≤ c.position ·) = none := by
      simpa using fun x hx => not_le.1 (hleft x hx)
    simp [inorder, List.find?_append, hnone, not_le.2 h]

lemma closest_of_eq (h : k = c.position value) :
    closest c k less (node left value balanceFactor right) = some value := by
  rw [closest_eq_some hsorted]
  refine ⟨by simp [inorder], ?_⟩
  cases less with
  | true => exact ⟨h.ge, fun y _ hy => hy.trans h.le⟩
  | false => exact ⟨h.le, fun y _ hy => h.ge.trans hy⟩

end

end

/-! ## The search -/

/-- The node `x` of the tree has no child on the side where a key is that `x` is closest to. -/
def Childless (less : Bool) (x : ℕ) : Tree → Prop
  | nil => False
  | node left value _ right => value = x ∧ (if less then right else left) = nil ∨
      Childless less x left ∨ Childless less x right

/-- Where the closest node is not equal to the key and has no child on the side of the key, the
comparison with it gives 1 or -1. -/
def Tested (c : Comparator κ) (k : κ) (less : Bool) (t : Tree) : Prop :=
  ∀ x, closest c k less t = some x → c.position x ≠ k → Childless less x t →
    c.compareKeyNode k x = if less then 1 else -1

lemma mem_of_childless (h : Childless less x t) : x ∈ t.inorder := by
  induction t with
  | nil => exact absurd h id
  | node left value balanceFactor right ihl ihr =>
    rw [inorder, List.mem_append, List.mem_cons]
    rcases h with h | h | h
    · exact .inr (.inl h.1.symm)
    · exact .inl (ihl h)
    · exact .inr (.inr (ihr h))

lemma mem_of_closest (hsorted : Sorted c t) (h : closest c k less t = some x) : x ∈ t.inorder :=
  ((closest_eq_some hsorted).1 h).1

lemma stop_iff {left right s : Tree} {value : ℕ} {balanceFactor : ℤ}
    {own outer neighbour found : Option ℕ}
    (hsorted : Sorted c (node left value balanceFactor right)) (hpos : c.position value ≠ k)
    (hs : s = left ∨ s = right)
    (hclosest : closest c k less (node left value balanceFactor right) =
      (closest c k less s).or own)
    (hown : own = none ∧ (s = nil → neighbour = outer) ∧
        c.compareKeyNode k value ≠ (if less then 1 else -1) ∨
      own = some value ∧ (if less then right else left) = s ∧ neighbour ≠ some value)
    (ih : s ≠ nil → (found = (closest c k less s).or (own.or outer) ↔ Tested c k less s)) :
    (if s ≠ nil then found
      else if c.compareKeyNode k value ≠ (if less then 1 else -1) then neighbour else some value) =
        (closest c k less (node left value balanceFactor right)).or outer ↔
      Tested c k less (node left value balanceFactor right) := by
  obtain ⟨hleft, hright, hbefore, hbehind⟩ := hsorted.node
  have hdisjoint := (List.pairwise_append.1 hsorted).2.2
  have hsub : Sorted c s := by rcases hs with rfl | rfl <;> assumption
  have hapart : value ∉ left.inorder ∧ value ∉ right.inorder :=
    ⟨fun h => lt_irrefl _ (hbefore value h), fun h => lt_irrefl _ (hbehind value h)⟩
  have hvalue : value ∉ s.inorder := by rcases hs with rfl | rfl <;> simp [hapart]
  by_cases hnil : s = nil
  · rw [if_neg (not_not.2 hnil)]
    have hempty : closest c k less s = none := by
      rw [hnil]
      cases less <;> rfl
    rw [hempty, Option.none_or] at hclosest
    rw [hclosest]
    rcases hown with ⟨hown, hneighbour, hcmp⟩ | ⟨hown, hside, hneighbour⟩
    · rw [if_pos hcmp, hown, hneighbour hnil]
      exact iff_of_true rfl fun x hx => by simp [hclosest, hown] at hx
    · -- the node is the closest one, and the search stops at it
      rw [hown, Option.some_or]
      have htested : Tested c k less (node left value balanceFactor right) ↔
          c.compareKeyNode k value = if less then 1 else -1 := by
        unfold Tested
        rw [hclosest, hown]
        constructor
        · intro h
          exact h value rfl hpos (.inl ⟨rfl, hside.trans hnil⟩)
        · intro h x hx _ _
          exact Option.some.inj hx ▸ h
      rw [htested]
      by_cases hcmp : c.compareKeyNode k value = if less then 1 else -1
      · rw [if_neg (not_not.2 hcmp)]
        exact iff_of_true rfl hcmp
      · rw [if_pos hcmp]
        exact iff_of_false hneighbour hcmp
  · rw [if_pos hnil, hclosest, Option.or_assoc, ih hnil]
    constructor
    · intro h x hx hne hchildless
      rw [hclosest, Option.or_eq_some_iff] at hx
      rcases hx with hx | ⟨_, hx⟩
      · have hmem := mem_of_closest hsub hx
        have hin : Childless less x s := by
          rcases hchildless with h | h | h
          · exact absurd (h.1 ▸ hmem) hvalue
          all_goals
            have hother := mem_of_childless h
            rcases hs with rfl | rfl
          · exact h
          · exact absurd (hdisjoint x hother x (List.mem_cons_of_mem _ hmem)) (lt_irrefl _)
          · exact absurd (hdisjoint x hmem x (List.mem_cons_of_mem _ hother)) (lt_irrefl _)
          · exact h
        exact h x hx hne hin
      · -- the node itself has a child on the side of the key
        rcases hown with ⟨hown, _⟩ | ⟨hown, hside, _⟩
        · rw [hown] at hx
          cases hx
        · have hxv : value = x := Option.some.inj (hown.symm.trans hx)
          rcases hchildless with h | h | h
          · exact absurd (hside.symm.trans h.2) hnil
          · exact absurd (hxv ▸ mem_of_childless h) hapart.1
          · exact absurd (hxv ▸ mem_of_childless h) hapart.2
    · intro h x hx hne hchildless
      refine h x (by rw [hclosest, hx, Option.some_or]) hne ?_
      rcases hs with rfl | rfl
      · exact .inr (.inl hchildless)
      · exact .inr (.inr hchildless)

lemma findClosestBy_iff (hsorted : Sorted c t) (hne : t ≠ nil) (previous next : Option ℕ)
    (hprevious : ∀ x ∈ t.inorder, previous ≠ some x) (hnext : ∀ x ∈ t.inorder, next ≠ some x) :
    findClosestBy (c.compareKeyNode k) less t previous next =
      (closest c k less t).or (if less then previous else next) ↔ Tested c k less t := by
  induction t generalizing previous next with
  | nil => exact absurd rfl hne
  | node left value balanceFactor right ihl ihr =>
    obtain ⟨hleft, hright, hbefore, hbehind⟩ := hsorted.node
    have hself : value ∈ (node left value balanceFactor right).inorder := by simp [inorder]
    rw [findClosestBy]
    rcases lt_trichotomy k (c.position value) with hlt | heq | hgt
    · have hcmp := (c.keyNode_neg k value).2 hlt
      rw [if_neg hcmp.ne, if_pos hcmp]
      refine stop_iff hsorted hlt.ne' (.inl rfl) (closest_of_lt hsorted hlt) ?_ ?_
      · cases less with
        | true => exact .inl ⟨rfl, fun h => by simp [h, rightMost], by simp; omega⟩
        | false =>
          refine .inr ⟨rfl, rfl, ?_⟩
          rw [if_neg Bool.false_ne_true, leftMost_eq, ne_eq, Option.or_eq_some_iff]
          rintro (h | ⟨_, h⟩)
          · exact lt_irrefl _ (hbehind value (List.mem_of_mem_head? h))
          · exact hnext value hself h
      · intro hnil
        rw [← ihl hleft hnil previous (some value)
          (fun x hx => hprevious x (List.mem_append_left _ hx)) fun x hx h =>
            lt_irrefl _ ((Option.some.inj h) ▸ hbefore x hx)]
        cases less <;> rfl
    · have hclosest := @closest_of_eq _ _ c k less _ _ _ _ hsorted heq
      rw [if_pos ((c.keyNode_zero k value).2 heq), hclosest]
      refine iff_of_true rfl fun x hx hpos => ?_
      exact absurd (Option.some.inj (hclosest.symm.trans hx) ▸ heq.symm) hpos
    · have hcmp := (c.keyNode_pos k value).2 hgt
      rw [if_neg hcmp.ne', if_neg hcmp.not_gt]
      refine stop_iff hsorted hgt.ne (.inr rfl) (closest_of_gt hsorted hgt) ?_ ?_
      · cases less with
        | false => exact .inl ⟨rfl, fun h => by simp [h, leftMost], by simp; omega⟩
        | true =>
          refine .inr ⟨rfl, rfl, ?_⟩
          rw [if_pos rfl, rightMost_eq, ne_eq, Option.or_eq_some_iff]
          rintro (h | ⟨_, h⟩)
          · exact lt_irrefl _ (hbefore value (List.mem_of_getLast? h))
          · exact hprevious value hself h
      · intro hnil
        rw [← ihr hright hnil (some value) next
          (fun x hx h => lt_irrefl _ ((Option.some.inj h) ▸ hbehind x hx)) fun x hx =>
            hnext x (List.mem_append_right _ (List.mem_cons_of_mem _ hx))]
        cases less <;> rfl

/-- The search finds the closest node if there is one. -/
def FindsClosest (c : Comparator κ) (k : κ) (less : Bool) (t : Tree) : Prop :=
  ∀ x, findClosestBy (c.compareKeyNode k) less t none none = some x ↔ IsClosest c k less t x

/-- The search is right if and only if the closest node is equal to the key, has a child on the
side of the key, or is compared as 1 or -1. -/
theorem findClosest_right (h : Reachable c t) (k : κ) (less : Bool) :
    FindsClosest c k less t ↔ Tested c k less t := by
  have hsorted := h.sorted
  have heq : FindsClosest c k less t ↔ findClosestBy (c.compareKeyNode k) less t none none =
      closest c k less t := by
    unfold FindsClosest
    rw [Option.ext_iff]
    exact forall_congr' fun x => by rw [closest_eq_some hsorted]
  rw [heq]
  by_cases hnil : t = nil
  · rw [hnil]
    exact iff_of_true (by cases less <;> rfl) fun x _ _ h => absurd h id
  · have hiff := @findClosestBy_iff _ _ c k less t hsorted hnil none none (by simp) (by simp)
    rw [← hiff]
    cases less <;> simp

/-- Nodes at their addresses, compared by the difference -/
def difference : Comparator ℤ where
  position x := x
  compareKeyNode k x := k - x
  keyNode_neg k x := by omega
  keyNode_zero k x := by omega

lemma reachable_ten : Reachable difference (node nil 10 0 nil) :=
  .insert (r := (node nil 10 0 nil, true)) 10 .empty rfl

theorem findClosest_right_eleven : FindsClosest difference 11 true (node nil 10 0 nil) :=
  (findClosest_right reachable_ten 11 true).2 (by
    intro x hx _ _
    have hx : some 10 = some x := hx
    rw [← Option.some.inj hx]
    rfl)

/-- The difference 2 of the key 12 and the node is not the 1 that is tested for, and so the node is
not found. -/
theorem not_findClosest_right : ¬ ∀ (t : Tree) (k : ℤ) (less : Bool), Reachable difference t →
    FindsClosest difference k less t := by
  intro h
  have hfound := (h (node nil 10 0 nil) 12 true reachable_ten 10).2
    ⟨List.mem_singleton.2 rfl, by decide⟩
  exact absurd hfound (by decide)

end Tree

end Haiku.AddressSpace
