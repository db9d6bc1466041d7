import Mathlib.Data.List.Basic
import Mathlib.Order.Lattice

/-!
# Splay trees

`SplayTree` and `IteratableSplayTree` of `util/SplayTree.h`, which keep the pages of a `VMCache`. The
nodes have keys of any linear order, which stands for `Definition::Compare()`. The second class also
links its nodes in the order of their keys, and its iterators follow these links.
-/

namespace Haiku.SplayTree

open Function

/-- Nodes with the `left` and `right` of their `SplayTreeLink` -/
inductive Tree (N : Type)
  | nil
  | node (left : Tree N) (value : N) (right : Tree N)
  deriving DecidableEq

variable {K N : Type} [LinearOrder K] (getKey : N → K)

namespace Tree

/-- What hangs below `headerLink` on both sides, with the last link first, and `t` -/
structure Splayed (N : Type) where
  /-- the nodes linked to `lLink`, with their left subtrees -/
  l : List (Tree N × N)
  /-- the nodes linked to `rLink`, with their right subtrees -/
  r : List (N × Tree N)
  t : Tree N

def splayLoop (key : K) : List (Tree N × N) → List (N × Tree N) → Tree N → Splayed N
  | l, r, nil => ⟨l, r, nil⟩
  | l, r, node left value right =>
    if key < getKey value then
      match left with
      | nil => ⟨l, r, node nil value right⟩
      | node yLeft y yRight =>
        if key < getKey y then
          -- rotate right
          match yLeft with
          | nil => ⟨l, r, node nil y (node yRight value right)⟩
          | node a x b => splayLoop key l ((y, node yRight value right) :: r) (node a x b)
        else
          -- link right
          splayLoop key l ((value, right) :: r) (node yLeft y yRight)
    else if getKey value < key then
      match right with
      | nil => ⟨l, r, node left value nil⟩
      | node yLeft y yRight =>
        if getKey y < key then
          -- rotate left
          match yRight with
          | nil => ⟨l, r, node (node left value yLeft) y nil⟩
          | node a x b => splayLoop key ((node left value yLeft, y) :: l) r (node a x b)
        else
          -- link left
          splayLoop key ((left, value) :: l) r (node yLeft y yRight)
    else ⟨l, r, node left value right⟩

/-- The left tree, with `right` at its open end -/
def closeLeft (l : List (Tree N × N)) (right : Tree N) : Tree N :=
  l.foldl (fun right n => node n.1 n.2 right) right

/-- The right tree, with `left` at its open end -/
def closeRight (r : List (N × Tree N)) (left : Tree N) : Tree N :=
  r.foldl (fun left n => node left n.1 n.2) left

def Splayed.assemble (s : Splayed N) : Tree N :=
  match s.t with
  | nil => nil
  | node left value right => node (closeLeft s.l left) value (closeRight s.r right)

/-- `_Splay()`, of a tree that has a root -/
def splay (key : K) (t : Tree N) : Tree N := (splayLoop getKey key [] [] t).assemble

def insert (n : N) : Tree N → Bool × Tree N
  | nil => (true, node nil n nil)
  | node left value right =>
    match (node left value right).splay getKey (getKey n) with
    | nil => (false, nil)
    | node left value right =>
      if getKey n = getKey value then (false, node left value right)
      else if getKey n < getKey value then (true, node left n (node nil value right))
      else (true, node (node left value nil) n right)

/-- What takes the place of the root when it is deleted -/
def deleteRoot (key : K) (left right : Tree N) : Tree N :=
  match left with
  | nil => right
  | node a x b =>
    match (node a x b).splay getKey key with
    | nil => nil
    | node left value _ => node left value right

/-- `Remove()` with a key -/
def remove (key : K) : Tree N → Option N × Tree N
  | nil => (none, nil)
  | node left value right =>
    match (node left value right).splay getKey key with
    | nil => (none, nil)
    | node left value right =>
      if getKey value ≠ key then (none, node left value right)
      else (some value, deleteRoot getKey key left right)

/-- `Remove()` with a node, which follows the pointer to the root whether there is one or not -/
def removeNode [DecidableEq N] (n : N) : Tree N → Option (Bool × Tree N)
  | nil => none
  | node left value right =>
    match (node left value right).splay getKey (getKey n) with
    | nil => none
    | node left value right =>
      if n ≠ value then some (false, node left value right)
      else some (true, deleteRoot getKey (getKey n) left right)

def lookup (key : K) : Tree N → Option N × Tree N
  | nil => (none, nil)
  | node left value right =>
    match (node left value right).splay getKey key with
    | nil => (none, nil)
    | node left value right =>
      (if key = getKey value then some value else none, node left value right)

/-- The loop of `PreviousDontSplay()` -/
def previousDontSplay (key : K) : Tree N → Option N → Option N
  | nil, closestNode => closestNode
  | node left value right, closestNode =>
    if getKey value < key then previousDontSplay key right (some value)
    else previousDontSplay key left closestNode

/-- The loop of `FindClosest()` -/
def closest (key : K) (greater orEqual : Bool) : Tree N → Option N → Option N
  | nil, closestNode => closestNode
  | node left value right, closestNode =>
    if key = getKey value ∧ orEqual then some value
    else if greater then
      if key < getKey value then closest key greater orEqual left (some value)
      else closest key greater orEqual right closestNode
    else if getKey value < key then closest key greater orEqual right (some value)
    else closest key greater orEqual left closestNode

def findClosest (key : K) (greater orEqual : Bool) (t : Tree N) : Option N × Tree N :=
  match t with
  | nil => (none, nil)
  | node left value right =>
    let t := (node left value right).splay getKey key
    (closest getKey key greater orEqual t none, t)

end Tree

structure IteratableSplayTree (N : Type) where
  tree : Tree N
  first : Option N
  /-- `*GetListLink()` -/
  listLink : N → Option N

structure Iterator (N : Type) where
  current : Option N
  next : Option N

inductive Call (K N : Type)
  | insert (n : N)
  | remove (key : K)
  | removeNode (n : N)
  | lookup (key : K)
  /-- `GetIterator()`, which is answered by the node to start with -/
  | getIterator (key : K) (greater orEqual : Bool)

inductive Result (N : Type)
  | success (done : Bool)
  | found (n : Option N)
  deriving DecidableEq

namespace IteratableSplayTree

variable [DecidableEq N] (s : IteratableSplayTree N)

def empty : IteratableSplayTree N := ⟨.nil, none, fun _ => none⟩

/-- `*previousNext`, of a node or of `fFirst` -/
def readNext : Option N → Option N
  | none => s.first
  | some previous => s.listLink previous

def writeNext (next : Option N) : Option N → IteratableSplayTree N
  | none => { s with first := next }
  | some previous => { s with listLink := update s.listLink previous next }

def insert (n : N) : Bool × IteratableSplayTree N :=
  match s.tree.insert getKey n with
  | (false, tree) => (false, { s with tree := tree })
  | (true, tree) =>
    let previous := tree.previousDontSplay getKey (getKey n) none
    let linked : IteratableSplayTree N :=
      ⟨tree, s.first, update s.listLink n (s.readNext previous)⟩
    (true, linked.writeNext (some n) previous)

/-- Takes a node that was removed from the tree out of the list -/
def unlink (tree : Tree N) (key : K) (n : N) : IteratableSplayTree N :=
  { s with tree := tree }.writeNext (s.listLink n) (tree.previousDontSplay getKey key none)

def remove (key : K) : Option N × IteratableSplayTree N :=
  match s.tree.remove getKey key with
  | (none, tree) => (none, { s with tree := tree })
  | (some n, tree) => (some n, s.unlink getKey tree key n)

def removeNode (n : N) : Option (Bool × IteratableSplayTree N) :=
  (s.tree.removeNode getKey n).map fun
    | (false, tree) => (false, { s with tree := tree })
    | (true, tree) => (true, s.unlink getKey tree (getKey n) n)

/-- `GetIterator()` with a key -/
def getIterator (key : K) (greater orEqual : Bool) : Iterator N × IteratableSplayTree N :=
  let r := s.tree.findClosest getKey key greater orEqual
  (⟨none, r.1⟩, { s with tree := r.2 })

def step : Call K N → Option (Result N × IteratableSplayTree N)
  | .insert n => some ((s.insert getKey n).map .success id)
  | .remove key => some ((s.remove getKey key).map .found id)
  | .removeNode n => (s.removeNode getKey n).map (Prod.map .success id)
  | .lookup key => some ((s.tree.lookup getKey key).map .found fun tree => { s with tree := tree })
  | .getIterator key greater orEqual =>
    some ((s.getIterator getKey key greater orEqual).map (.found ·.next) id)

end IteratableSplayTree

/-- `Iterator::Next()` -/
def Iterator.advance (it : Iterator N) (s : IteratableSplayTree N) : Option N × Iterator N :=
  (it.next, ⟨it.next, it.next.bind s.listLink⟩)

/-- A loop like those of `VMCache`, over the nodes that an iterator returns: those for which `drop`
holds are removed. The number bounds the rounds; the nodes are returned in the order of the visits. -/
def sweep [DecidableEq N] (drop : N → Bool) :
    ℕ → Iterator N → IteratableSplayTree N → Option (List N × IteratableSplayTree N)
  | 0, _, _ => none
  | fuel + 1, it, s =>
    match it.advance s with
    | (none, _) => some ([], s)
    | (some n, it) =>
      let s' := if drop n then (s.removeNode getKey n).map Prod.snd else some s
      s'.bind fun s' => (sweep drop fuel it s').map fun r => (n :: r.1, r.2)

end Haiku.SplayTree
