import Mathlib.Data.List.Basic
import Mathlib.Algebra.Order.Ring.Int

/-!
# The data of the B+tree

The structures of `src/add-ons/kernel/file_systems/bfs/BPlusTree.h`: nodes, the header, the
tree and its iterators.

* A node is read as the list of its (key, value) pairs. The key lengths and the positions of
  the three arrays in the node's bytes follow from the list; where the code tests or moves
  bytes, the model computes the byte counts.
* The stream of the tree is a map from offsets to slots. What a slot holds (an index or leaf
  node, sixteen fragment arrays, one duplicate array, or an entry of the free list) is a
  constructor; a slot read as something it does not hold is taken for unreadable.
* `fHeader` and the header on disk always agree, since `CachedNode::Unset()` copies a changed
  header back; the model has one header.
* Reading and writing nodes, and growing the stream, always succeed.
-/

namespace Haiku.BPlusTree

/-- What the tree asks of its keys: `compareKeys()` and the length in bytes. -/
class TreeKey (K : Type) where
  keyLength : K → ℕ
  compareKeys : K → K → ℤ

export TreeKey (keyLength compareKeys)

inductive Status where
  | ok
  | nameInUse
  | entryNotFound
  | badValue
  | badType
  | badData
  | ioError
  | error
deriving DecidableEq

/-- A link between nodes: `BPLUSTREE_NULL`, `BPLUSTREE_FREE`, or an offset in the stream. -/
inductive Link where
  | null
  | free
  | node (offset : ℕ)
deriving DecidableEq

/-- `BPLUSTREE_NODE_SIZE` -/
def nodeSize : ℕ := 1024

/-- `BPLUSTREE_MIN_KEY_LENGTH` -/
def minKeyLength : ℕ := 1

/-- `BPLUSTREE_MAX_KEY_LENGTH` -/
def maxKeyLength : ℕ := 256

/-- `sizeof(bplustree_node)`: the links and counts before the keys. -/
def nodeHeaderSize : ℕ := 28

/-- `sizeof(uint16) + sizeof(off_t)`: what a pair takes beside its key. -/
def pairSize : ℕ := 10

/-- `key_align()`: rounds up to the next `off_t` boundary. -/
def keyAlign (data : ℕ) : ℕ := (data + 7) / 8 * 8

/-- `struct bplustree_node`, as an index or leaf node. -/
structure Node (K : Type) where
  leftLink : Link
  rightLink : Link
  overflowLink : Link
  /-- The keys with their values, in the order of the node's arrays. -/
  entries : List (K × ℕ)

inductive Slot (K : Type) where
  | node (n : Node K)
  /-- a fragment node: `maxFragments` arrays, an unused one is empty -/
  | fragment (arrays : List (List ℕ))
  /-- a duplicate node -/
  | duplicate (left right : Link) (values : List ℕ)
  /-- a node of the free list, with the next one in its left link -/
  | free (next : Link)

structure TreeIterator where
  currentNodeOffset : Link
  currentKey : ℤ
  /-- The link that is followed through the duplicates of a key, if any. -/
  duplicateNode : Option ℕ
  duplicate : ℕ
  numDuplicates : ℕ
  isFragment : Bool
deriving DecidableEq

/-- `class BPlusTree` with the stream its nodes are stored in. -/
structure Tree (K : Type) where
  maxNumberOfLevels : ℕ
  rootNode : ℕ
  freeNode : Link
  maximumSize : ℕ
  allowDuplicates : Bool
  slots : ℕ → Slot K
  iterators : List TreeIterator

/-! ## Links that are values

A value of a leaf whose two upper bits are set stands for a duplicate node or for an array in
a fragment node. Values are read as 64 bit patterns. -/

/-- `BPLUSTREE_DUPLICATE_NODE` -/
def duplicateNodeType : ℕ := 2

/-- `BPLUSTREE_DUPLICATE_FRAGMENT` -/
def duplicateFragmentType : ℕ := 3

def linkType (link : ℕ) : ℕ := link / 2 ^ 62

def fragmentOffset (link : ℕ) : ℕ := link % 2 ^ 62 / nodeSize * nodeSize

def fragmentIndex (link : ℕ) : ℕ := link % nodeSize

/-!
## Keys

`compareKeys()` of `src/add-ons/kernel/file_systems/bfs/BPlusTree.cpp` for the key types of the
tree. The two floating point types are left out.
-/

/-- `enum bplustree_types` -/
inductive DataType where
  | string
  | int32
  | uint32
  | int64
  | uint64

/-- A key of a tree whose header has the given data type. -/
structure Key (type : DataType) where
  bytes : List UInt8
deriving DecidableEq

/-- `memcmp()`: the difference of the first two bytes that differ. -/
def memcmp : List UInt8 → List UInt8 → ℕ → ℤ
  | a :: as, b :: bs, n + 1 => if a = b then memcmp as bs n else (a.toNat : ℤ) - b.toNat
  | _, _, _ => 0

/-- An unsigned number of `n` bytes in host order. -/
def toUnsigned : ℕ → List UInt8 → ℕ
  | n + 1, b :: bs => b.toNat + 256 * toUnsigned n bs
  | _, _ => 0

/-- The signed reading of a number of `bits` bits. -/
def toSigned (bits : ℕ) (n : ℕ) : ℤ := if n < 2 ^ (bits - 1) then n else (n : ℤ) - 2 ^ bits

/-- The part of `compareKeys()` for strings: one trailing null byte is ignored. -/
def compareStrings (key1 key2 : List UInt8) : ℤ :=
  let result := memcmp key1 key2 (min key1.length key2.length)
  if result ≠ 0 then result
  else if (key1.length = key2.length + 1 ∧ key1[key2.length]? = some 0) ∨
      (key2.length = key1.length + 1 ∧ key2[key1.length]? = some 0) then 0
  else (key1.length : ℤ) - key2.length

/-- The comparison of the number types that test for equality first. -/
def compareNumbers (a b : ℤ) : ℤ := if a = b then 0 else if a > b then 1 else -1

/-- `compareKeys()`. Two `int32` keys are subtracted, which may overflow. -/
def compareBytes (type : DataType) (key1 key2 : List UInt8) : ℤ :=
  match type with
  | .string => compareStrings key1 key2
  | .int32 => toSigned 32 ((toUnsigned 4 key1 + (2 ^ 32 - toUnsigned 4 key2)) % 2 ^ 32)
  | .uint32 => compareNumbers (toUnsigned 4 key1) (toUnsigned 4 key2)
  | .int64 => compareNumbers (toSigned 64 (toUnsigned 8 key1)) (toSigned 64 (toUnsigned 8 key2))
  | .uint64 => compareNumbers (toUnsigned 8 key1) (toUnsigned 8 key2)

instance (type : DataType) : TreeKey (Key type) where
  keyLength key := key.bytes.length
  compareKeys key1 key2 := compareBytes type key1.bytes key2.bytes

/-!
## Nodes and the stream of a tree

`struct bplustree_node` and `class CachedNode` of
`src/add-ons/kernel/file_systems/bfs/BPlusTree.cpp`: reading nodes with their sanity checks. A
key of a tree that allows duplicates may have its values in an array of a fragment node that
several keys share, or in a chain of duplicate nodes.
-/

variable {K : Type}

namespace Node

def numKeys (n : Node K) : ℕ := n.entries.length

def isLeaf (n : Node K) : Bool := n.overflowLink = .null

/-- `bplustree_node::Initialize()` -/
def initialized : Node K where
  leftLink := .null
  rightLink := .null
  overflowLink := .null
  entries := []

variable [TreeKey K]

/-- The lengths of the keys; the node stores their prefix sums. -/
def lengths (n : Node K) : List ℕ := n.entries.map fun e => keyLength e.1

def allKeyLength (n : Node K) : ℕ := n.lengths.sum

def used (n : Node K) : ℕ := keyAlign (nodeHeaderSize + n.allKeyLength) + n.numKeys * pairSize

/-- The test that follows each `KeyAt()`: the key may lie at that place in the node. -/
def keyInBounds (n : Node K) (index : ℕ) : Bool :=
  nodeHeaderSize + (n.lengths.take (index + 1)).sum + pairSize ≤ nodeSize ∧
    n.lengths.getD index 0 ≤ maxKeyLength

end Node

/-- The link that belongs to a position: a value, or the overflow link behind the last key. -/
def Node.linkAt (n : Node K) (index : ℕ) : Link :=
  match n.entries[index]? with
  | some e => .node e.2
  | none => n.overflowLink

/-- The value of a pair. -/
def Node.valueAt (n : Node K) (index : ℕ) : ℕ := (n.entries[index]?.map Prod.snd).getD 0

/-- The array of a fragment node for a link. -/
def fragmentAt (arrays : List (List ℕ)) (link : ℕ) : List ℕ :=
  arrays.getD (fragmentIndex link) []

/-- A duplicate node: its links and its array. -/
structure DuplicateNode where
  left : Link
  right : Link
  values : List ℕ

namespace Tree

def isValidLink (t : Tree K) : Link → Bool
  | .null => true
  | .free => false
  | .node offset => 0 < offset ∧ offset + nodeSize ≤ t.maximumSize

/-- The test of `SetTo()`: you can only ask for nodes at valid positions. -/
def isNodeOffset (t : Tree K) (offset : ℕ) : Bool :=
  offset + nodeSize ≤ t.maximumSize ∧ 0 < offset ∧ offset % nodeSize = 0

def checkNode [TreeKey K] (t : Tree K) (n : Node K) : Bool :=
  t.isValidLink n.leftLink ∧ t.isValidLink n.rightLink ∧ t.isValidLink n.overflowLink ∧
    n.used ≤ nodeSize

/-- `CachedNode::SetTo()` and `SetToWritable()`, with the sanity checks. -/
def setTo [TreeKey K] (t : Tree K) : Link → Option (Node K)
  | .node offset =>
    if t.isNodeOffset offset then
      match t.slots offset with
      | .node n => if t.checkNode n then some n else none
      | _ => none
    else none
  | _ => none

/-- Reads a fragment node, `SetTo(offset, false)`. -/
def fragments (t : Tree K) (offset : ℕ) : Option (List (List ℕ)) :=
  if t.isNodeOffset offset then
    match t.slots offset with
    | .fragment arrays => some arrays
    | _ => none
  else none

/-- Reads a duplicate node, `SetTo(offset, false)`. -/
def duplicates (t : Tree K) (offset : ℕ) : Option DuplicateNode :=
  if t.isNodeOffset offset then
    match t.slots offset with
    | .duplicate left right values => some ⟨left, right, values⟩
    | _ => none
  else none

/-- As many rounds as a loop over nodes makes at most, if it does not run forever. -/
def numNodes (t : Tree K) : ℕ := t.maximumSize / nodeSize

end Tree

/-!
## Tree iterators

`class TreeIterator` of `src/add-ons/kernel/file_systems/bfs/BPlusTree.cpp`. An iterator keeps
a position (a leaf and the index of the key it returned last there) that `Update()` adjusts
when the leaf changes. The buffer for the key is taken to be large enough. What the bytes of
the nodes behind their last pairs hold is an argument.
-/

variable {K : Type} [TreeKey K]

/-- `enum bplustree_traversing` -/
inductive Direction where
  | forward
  | backward
deriving DecidableEq

namespace TreeIterator

/-- A new iterator. -/
def create : TreeIterator where
  currentNodeOffset := .null
  currentKey := 0
  duplicateNode := none
  duplicate := 0
  numDuplicates := 0
  isFragment := false

/-- The loop of `Goto()`: down the first or the last links to a leaf. -/
def gotoLoop (t : Tree K) (direction : Direction) : ℕ → Link → Option (Option (ℕ × Node K))
  | 0, _ => none
  | _ + 1, .null => some none
  | _ + 1, .free => some none
  | rounds + 1, .node offset =>
    match t.setTo (.node offset) with
    | none => some none
    | some n =>
      if n.isLeaf then some (some (offset, n))
      else
        let next := if direction = .forward then n.linkAt 0 else n.overflowLink
        if next = .node offset then some none else gotoLoop t direction rounds next

/-- `Goto()`; an iterator that goes forward starts before the first key. -/
def goto (it : TreeIterator) (t : Tree K) (direction : Direction) :
    Option (TreeIterator × Status) :=
  (gotoLoop t direction t.numNodes (.node t.rootNode)).map fun
  | none => (it, .error)
  | some (offset, n) =>
    ({ it with
        currentNodeOffset := .node offset
        currentKey := if direction = .forward then -1 else n.numKeys
        duplicateNode := none }, .ok)

/-- What `Traverse()` delivers: the key, if it is updated, and the value. -/
structure Entry (K : Type) where
  key : Option K
  value : ℕ
deriving DecidableEq

/-- The result of `Traverse()`. -/
structure Outcome (K : Type) where
  iterator : TreeIterator
  status : Status
  entry : Option (Entry K)
deriving DecidableEq

/-- The values of a duplicate link: `CountDuplicates()` and `DuplicateAt()`. -/
def duplicateValues (t : Tree K) (link : ℕ) (isFragment : Bool) : Option (List ℕ) :=
  if isFragment then (t.fragments (fragmentOffset link)).map (fragmentAt · link)
  else (t.duplicates (fragmentOffset link)).map (·.values)

/-- The part of `Traverse()` for an iterator that is among the duplicates of a key: the next
one of them, if there is one. -/
def nextDuplicate (it : TreeIterator) (t : Tree K) : Option (TreeIterator × ℕ) :=
  match it.duplicateNode with
  | none => none
  | some link =>
    if it.duplicate < it.numDuplicates then
      (duplicateValues t link it.isFragment).map fun values =>
        ({ it with duplicate := it.duplicate + 1 }, values.getD it.duplicate 0)
    else if it.isFragment then none
    else
      -- If the node is out of duplicates, we go directly to the next one.
      match t.duplicates (fragmentOffset link) with
      | some ⟨_, .node right, _⟩ =>
        match t.duplicates right with
        | some d =>
          if 0 < d.values.length then
            some ({ it with
                duplicateNode := some right
                duplicate := 1
                numDuplicates := d.values.length }, d.values.getD 0 0)
          else none
        | none => none
      | _ => none

inductive Reached (K : Type) where
  | key (offset : ℕ) (key : ℤ) (n : Node K)
  /-- there are no nodes left -/
  | end
  /-- the next node could not be read -/
  | unreadable (link : Link) (key : ℤ)

/-- The loop of `Traverse()`: is the current key in the current node? It goes on to the next
node while there is one. -/
def traverseLoop (t : Tree K) (direction : Direction) : ℕ → ℕ → ℤ → Node K → Option (Reached K)
  | 0, _, _, _ => none
  | rounds + 1, offset, key, n =>
    if (direction = .forward ∧ (n.numKeys : ℤ) ≤ key) ∨ (direction = .backward ∧ key < 0) then
      match if direction = .forward then n.rightLink else n.leftLink with
      | .null => some .end
      | .free => some (.unreadable .free key)
      | .node next =>
        match t.setTo (.node next) with
        | none => some (.unreadable (.node next) key)
        | some n' =>
          -- Going backward, the position behind the last key is taken.
          traverseLoop t direction rounds next (if direction = .forward then 0 else n'.numKeys) n'
    else some (.key offset key n)

/-- The pair at a position, if the key passes the test that follows `KeyAt()`. `KeyAt()` allows
the position behind the last key: the first value is read as the end of the key there, and
`behind` is what the bytes behind the keys and the values are read as. -/
def pairAt (n : Node K) (behind : K × ℕ) (index : ℕ) : Option (K × ℕ) :=
  match n.entries[index]? with
  | some e => if n.keyInBounds index then some e else none
  | none =>
    let length := (n.valueAt 0 % 2 ^ 16 + 2 ^ 16 - n.allKeyLength) % 2 ^ 16
    if nodeHeaderSize + n.allKeyLength + length + pairSize ≤ nodeSize ∧ length ≤ maxKeyLength
    then some behind else none

/-- The part of `Traverse()` that returns the key and value the position points to. -/
def deliver (it : TreeIterator) (t : Tree K) (behind : ℕ → K × ℕ) (offset : ℕ) (key : ℤ)
    (n : Node K) : Outcome K :=
  let it := { it with currentNodeOffset := .node offset, currentKey := key }
  if n.numKeys = 0 ∨ n.numKeys < key then ⟨it, .error, none⟩
  else
    match pairAt n (behind offset) key.toNat with
    | none => ⟨it, .badData, none⟩
    | some e =>
      let isFragment := linkType e.2 = duplicateFragmentType
      if isFragment ∨ linkType e.2 = duplicateNodeType then
        match duplicateValues t e.2 isFragment with
        | none => ⟨{ it with duplicateNode := some e.2 }, .error, none⟩
        | some values =>
          if 0 < values.length then
            ⟨{ it with
                duplicateNode := some e.2
                duplicate := 1
                numDuplicates := values.length
                isFragment := isFragment }, .ok, some ⟨some e.1, values.getD 0 0⟩⟩
          else
            ⟨{ it with isFragment := isFragment, numDuplicates := 0 }, .ok, some ⟨some e.1, 0⟩⟩
      else ⟨it, .ok, some ⟨some e.1, e.2⟩⟩

/-- The part of `Traverse()` that moves on to the next key. -/
def nextKey (it : TreeIterator) (t : Tree K) (behind : ℕ → K × ℕ) (direction : Direction) :
    Option (Outcome K) :=
  match it.currentNodeOffset with
  | .node offset =>
    match t.setTo (.node offset) with
    | none => some ⟨it, .error, none⟩
    | some n =>
      let key := if direction = .forward then it.currentKey + 1 else it.currentKey - 1
      (traverseLoop t direction t.numNodes offset key n).map fun
      -- There are no nodes left, so turn back to the last key.
      | .end => ⟨it, .entryNotFound, none⟩
      | .unreadable link key =>
        ⟨{ it with currentNodeOffset := link, currentKey := key }, .error, none⟩
      | .key offset key n => it.deliver t behind offset key n
  | _ => some ⟨it, .error, none⟩

def traverse (it : TreeIterator) (t : Tree K) (behind : ℕ → K × ℕ) (direction : Direction) :
    Option (Outcome K) :=
  let started := if it.currentNodeOffset = .null then it.goto t direction else some (it, .ok)
  started.bind fun
  | (it, .ok) =>
    -- if the tree was emptied since the last call
    if it.currentNodeOffset = .free then some ⟨it, .entryNotFound, none⟩
    else
      match it.nextDuplicate t with
      | some (it, value) => some ⟨it, .ok, some ⟨none, value⟩⟩
      | none => { it with duplicateNode := none }.nextKey t behind direction
  | (it, _) => some ⟨it, .error, none⟩

end TreeIterator

end Haiku.BPlusTree
