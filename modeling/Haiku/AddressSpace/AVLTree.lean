import Mathlib.Data.List.Basic
import Mathlib.Algebra.Order.Ring.Int

/-!
# The AVL tree

`src/system/kernel/util/AVLTreeBase.cpp`. The nodes are numbers, the addresses of the values the
tree holds; the keys are read from the values when they are needed, so that a value may change its
key while it is in the tree. Walking up the parents is walking back the recursion. A rotation that
the source does not make because the child is missing leaves the tree as it is.
-/

namespace Haiku.AddressSpace

inductive Tree where
  | nil
  | node (left : Tree) (value : ℕ) (balanceFactor : ℤ) (right : Tree)
  deriving DecidableEq

namespace Tree

/-- The values from left to right, as the iterator of the tree returns them. -/
def inorder : Tree → List ℕ
  | nil => []
  | node left value _ right => left.inorder ++ value :: right.inorder

def balance : Tree → ℤ
  | nil => 0
  | node _ _ balanceFactor _ => balanceFactor

/-! ## Rotations -/

def rotateRight : Tree → Tree
  | node (node a left leftBalance b) value balanceFactor c =>
    let balanceFactor :=
      if leftBalance ≥ 0 then balanceFactor + 1 else balanceFactor + (1 - leftBalance)
    let leftBalance :=
      if balanceFactor ≤ 0 then leftBalance + 1 else leftBalance + (balanceFactor + 1)
    node a left leftBalance (node b value balanceFactor c)
  | t => t

def rotateLeft : Tree → Tree
  | node a value balanceFactor (node b right rightBalance c) =>
    let balanceFactor :=
      if rightBalance ≤ 0 then balanceFactor - 1 else balanceFactor - (rightBalance + 1)
    let rightBalance :=
      if balanceFactor ≥ 0 then rightBalance - 1 else rightBalance + (balanceFactor - 1)
    node (node a value balanceFactor b) right rightBalance c
  | t => t

/-- The two rotations of a node whose left subtree is too high. -/
def rotateLeftRight : Tree → Tree
  | node left value balanceFactor right => rotateRight (node left.rotateLeft value balanceFactor right)
  | nil => nil

/-- The two rotations of a node whose right subtree is too high. -/
def rotateRightLeft : Tree → Tree
  | node left value balanceFactor right => rotateLeft (node left value balanceFactor right.rotateRight)
  | nil => nil

def leftBalance : Tree → ℤ
  | node left _ _ _ => left.balance
  | nil => 0

def rightBalance : Tree → ℤ
  | node _ _ _ right => right.balance
  | nil => 0

/-! ## Insertion -/

/-- `AVLTreeBase::_BalanceInsertLeft()`, and whether the height has changed. -/
def balanceInsertLeft (t : Tree) : Tree × Bool :=
  if t.balance < -1 then
    (if t.leftBalance = -1 then t.rotateRight else t.rotateLeftRight, false)
  else (t, t.balance ≠ 0)

def balanceInsertRight (t : Tree) : Tree × Bool :=
  if t.balance > 1 then
    (if t.rightBalance = 1 then t.rotateLeft else t.rotateRightLeft, false)
  else (t, t.balance ≠ 0)

/-- `AVLTreeBase::_Insert()`, with `none` for a duplicate. Of the comparison only the sign counts. -/
def insert {κ : Type} [LinearOrder κ] (key : ℕ → κ) (x : ℕ) : Tree → Option (Tree × Bool)
  | nil => some (node nil x 0 nil, true)
  | node left value balanceFactor right =>
    if key x = key value then none
    else if key x < key value then
      (insert key x left).map fun (left, changed) =>
        if changed then balanceInsertLeft (node left value (balanceFactor - 1) right)
        else (node left value balanceFactor right, false)
    else
      (insert key x right).map fun (right, changed) =>
        if changed then balanceInsertRight (node left value (balanceFactor + 1) right)
        else (node left value balanceFactor right, false)

/-! ## Removal -/

def balanceRemoveLeft (t : Tree) : Tree × Bool :=
  if t.balance > 1 then
    if t.rightBalance = 1 then (t.rotateLeft, true)
    else if t.rightBalance = 0 then (t.rotateLeft, false)
    else (t.rotateRightLeft, true)
  else (t, t.balance ≠ 1)

def balanceRemoveRight (t : Tree) : Tree × Bool :=
  if t.balance < -1 then
    if t.leftBalance = -1 then (t.rotateRight, true)
    else if t.leftBalance = 0 then (t.rotateRight, false)
    else (t.rotateLeftRight, true)
  else (t, t.balance ≠ -1)

/-- `AVLTreeBase::_RemoveRightMostChild()` of a tree with the given root: the rest of the tree, the
value found, and whether the height has changed. -/
def removeRightMost (left : Tree) (value : ℕ) (balanceFactor : ℤ) : Tree → Tree × ℕ × Bool
  | nil => (left, value, true)
  | node rightLeft rightValue rightBalance rightRight =>
    let (right, found, changed) := removeRightMost rightLeft rightValue rightBalance rightRight
    if changed then
      let (t, changed) := balanceRemoveRight (node left value (balanceFactor - 1) right)
      (t, found, changed)
    else (node left value balanceFactor right, found, false)

/-- The part of `AVLTreeBase::_Remove()` that takes a node out of the tree. -/
def removeRoot (left : Tree) (balanceFactor : ℤ) (right : Tree) : Tree × Bool :=
  match left, right with
  | node leftLeft leftValue leftBalance leftRight, node .. =>
    let (left, found, changed) := removeRightMost leftLeft leftValue leftBalance leftRight
    if changed then balanceRemoveLeft (node left found (balanceFactor + 1) right)
    else (node left found balanceFactor right, false)
  | node leftLeft leftValue _ leftRight, nil =>
    (node leftLeft leftValue (balanceFactor + 1) leftRight, true)
  | nil, node rightLeft rightValue _ rightRight =>
    (node rightLeft rightValue (balanceFactor - 1) rightRight, true)
  | nil, nil => (nil, true)

/-- `AVLTreeBase::_Remove()`; the tree does not change when it does not hold the value. -/
def remove (x : ℕ) : Tree → Tree × Bool
  | nil => (nil, false)
  | node left value balanceFactor right =>
    if value = x then removeRoot left balanceFactor right
    else if x ∈ left.inorder then
      let (left, changed) := remove x left
      if changed then balanceRemoveLeft (node left value (balanceFactor + 1) right)
      else (node left value balanceFactor right, false)
    else
      let (right, changed) := remove x right
      if changed then balanceRemoveRight (node left value (balanceFactor - 1) right)
      else (node left value balanceFactor right, false)

/-! ## Searching -/

/-- `AVLTreeBase::FindClosest()` for a key at most the given one. `closest` is the last node that
the search left to the right: when the search ends without the key, this is the node found last, or
its predecessor. -/
def findClosestLess (key : ℕ → ℕ) (k : ℕ) : Tree → Option ℕ → Option ℕ
  | nil, closest => closest
  | node left value _ right, closest =>
    if k = key value then some value
    else if k < key value then findClosestLess key k left closest
    else findClosestLess key k right (some value)

/-- `AVLTreeBase::FindClosest()` for a key at least the given one. -/
def findClosestGreater (key : ℕ → ℕ) (k : ℕ) : Tree → Option ℕ → Option ℕ
  | nil, closest => closest
  | node left value _ right, closest =>
    if k = key value then some value
    else if k < key value then findClosestGreater key k left (some value)
    else findClosestGreater key k right closest

def findClosest (key : ℕ → ℕ) (k : ℕ) (less : Bool) (t : Tree) : Option ℕ :=
  if less then findClosestLess key k t none else findClosestGreater key k t none

end Tree

end Haiku.AddressSpace

/-!
# The order of the values in an AVL tree

Whatever rotations are made, the tree is seen from outside as the list of its values from left to
right: insertion, removal and search are stated by this list.
-/

namespace Haiku.AddressSpace.Tree

attribute [simp] inorder

/-! ## Rotations -/

@[simp]
lemma inorder_rotateRight (t : Tree) : t.rotateRight.inorder = t.inorder := by
  unfold rotateRight
  split <;> simp

@[simp]
lemma inorder_rotateLeft (t : Tree) : t.rotateLeft.inorder = t.inorder := by
  unfold rotateLeft
  split <;> simp

@[simp]
lemma inorder_rotateLeftRight (t : Tree) : t.rotateLeftRight.inorder = t.inorder := by
  cases t <;> simp [rotateLeftRight]

@[simp]
lemma inorder_rotateRightLeft (t : Tree) : t.rotateRightLeft.inorder = t.inorder := by
  cases t <;> simp [rotateRightLeft]

@[simp]
lemma inorder_balanceInsertLeft (t : Tree) : t.balanceInsertLeft.1.inorder = t.inorder := by
  unfold balanceInsertLeft
  split
  next => dsimp only; split <;> simp
  next => rfl

@[simp]
lemma inorder_balanceInsertRight (t : Tree) : t.balanceInsertRight.1.inorder = t.inorder := by
  unfold balanceInsertRight
  split
  next => dsimp only; split <;> simp
  next => rfl

@[simp]
lemma inorder_balanceRemoveLeft (t : Tree) : t.balanceRemoveLeft.1.inorder = t.inorder := by
  unfold balanceRemoveLeft
  split
  next => split <;> [skip; split] <;> simp
  next => rfl

@[simp]
lemma inorder_balanceRemoveRight (t : Tree) : t.balanceRemoveRight.1.inorder = t.inorder := by
  unfold balanceRemoveRight
  split
  next => split <;> [skip; split] <;> simp
  next => rfl

/-! ## Removal -/

lemma inorder_removeRightMost (right : Tree) : ∀ (left : Tree) (value : ℕ) (balanceFactor : ℤ),
    (removeRightMost left value balanceFactor right).1.inorder ++
      [(removeRightMost left value balanceFactor right).2.1] =
        left.inorder ++ value :: right.inorder := by
  induction right with
  | nil => intro left value balanceFactor; rfl
  | node rightLeft rightValue rightBalance rightRight _ ihr =>
    intro left value balanceFactor
    have ih := ihr rightLeft rightValue rightBalance
    simp only [removeRightMost]
    split
    · simp only [inorder_balanceRemoveRight, inorder, List.append_assoc, List.cons_append, ih]
    · simp only [inorder, List.append_assoc, List.cons_append, ih]

lemma inorder_removeRoot (left : Tree) (balanceFactor : ℤ) (right : Tree) :
    (removeRoot left balanceFactor right).1.inorder = left.inorder ++ right.inorder := by
  unfold removeRoot
  split
  next leftLeft leftValue leftBalance leftRight _ _ _ _ =>
    have h := inorder_removeRightMost leftRight leftLeft leftValue leftBalance
    have hleft : (node leftLeft leftValue leftBalance leftRight).inorder =
        (removeRightMost leftLeft leftValue leftBalance leftRight).1.inorder ++
          [(removeRightMost leftLeft leftValue leftBalance leftRight).2.1] := h.symm
    rw [hleft]
    dsimp only
    split <;> simp
  next => simp
  next => simp
  next => rfl

lemma inorder_remove (x : ℕ) (t : Tree) (hnodup : t.inorder.Nodup) :
    (remove x t).1.inorder = t.inorder.erase x := by
  induction t with
  | nil => rfl
  | node left value balanceFactor right ihl ihr =>
    obtain ⟨hl, hvr, hdis⟩ := List.nodup_append.1 hnodup
    have hr := (List.nodup_cons.1 hvr).2
    simp only [remove]
    by_cases hv : value = x
    · subst hv
      have hnot : value ∉ left.inorder := fun hmem => hdis _ hmem _ (List.mem_cons_self ..) rfl
      rw [if_pos rfl, inorder_removeRoot, inorder, List.erase_append_right _ hnot,
        List.erase_cons_head]
    · rw [if_neg hv]
      by_cases hmem : x ∈ left.inorder
      · rw [if_pos hmem, inorder, List.erase_append_left _ hmem, ← ihl hl]
        split <;> simp
      · rw [if_neg hmem, inorder, List.erase_append_right _ hmem,
          List.erase_cons_tail (by simpa using hv), ← ihr hr]
        split <;> simp

end Haiku.AddressSpace.Tree
