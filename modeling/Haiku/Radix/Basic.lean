import Haiku.Lib.Run
import Mathlib.Data.BitVec
import Mathlib.Data.Nat.Count

/-!
# The radix bitmap

The slot allocator of `src/system/kernel/util/RadixBitmap.cpp`: a radix tree of hints over the words
of a bitmap, laid out in one array. Every access to the array checks its bounds, and recursion and
loops are bounded by numbers; a function that runs out of either is undefined (`none`).

The `union` of a node is two fields here, as the bitmap is only used in leaves and the number of
available slots only in inner nodes.
-/

namespace Haiku.Radix

open Lib

def bitmapRadix : ℕ := 32

def nodeRadix : ℕ := 16

def int32 (x : ℤ) : ℤ := x.bmod (2 ^ 32)

structure RadixNode where
  bitmap : BitVec 32
  available : ℤ
  bigHint : ℤ

/-- The array of nodes. What is behind its end is not there. -/
structure Nodes where
  size : ℕ
  at_ : ℕ → RadixNode

def Nodes.read (nodes : Nodes) (i : ℕ) : Option RadixNode :=
  if i < nodes.size then some (nodes.at_ i) else none

def Nodes.write (nodes : Nodes) (i : ℕ) (node : RadixNode) : Option Nodes :=
  if i < nodes.size then some { nodes with at_ := Function.update nodes.at_ i node } else none

/-! ## Creating a bitmap -/

/-- Sets up a node of the tree; without an array only the indices are computed. -/
def setUp (nodes : Nodes) (node : Option ℕ) (f : RadixNode → RadixNode) : Option Nodes :=
  match node with
  | none => some nodes
  | some i => (nodes.read i).bind fun x => nodes.write i (f x)

/-- The loop of `radix_bitmap_init()` over the children of a node. The first number bounds its
iterations. -/
def initLoop (child : Nodes → Option ℕ → ℕ → Option (ℕ × Nodes)) (node : Option ℕ)
    (radix skip nextSkip : ℕ) : ℕ → Nodes → ℕ → ℕ → ℕ → Option (ℕ × Nodes)
  | 0, _, _, _, _ => none
  | fuel + 1, nodes, i, index, slots =>
    if i ≤ skip then
      if slots ≥ radix then
        (child nodes (node.map (· + i)) radix).bind fun r =>
          initLoop child node radix skip nextSkip fuel r.2 (i + nextSkip) (i + r.1) (slots - radix)
      else if slots > 0 then
        (child nodes (node.map (· + i)) slots).bind fun r =>
          initLoop child node radix skip nextSkip fuel r.2 (i + nextSkip) (i + r.1) 0
      else
        -- add a terminator
        (setUp nodes (node.map (· + i)) fun x => { x with bigHint := -1 }).map fun nodes =>
          (if index < i then i else index, nodes)
    else some (if index < i then i else index, nodes)

/-- `radix_bitmap_init()`; the first number bounds the depth of the recursion. -/
def radixBitmapInit : ℕ → Nodes → Option ℕ → ℕ → ℕ → ℕ → Option (ℕ × Nodes)
  | 0, _, _, _, _, _ => none
  | fuel + 1, nodes, node, radix, skip, slots =>
    let bigHint := if radix < slots then radix else slots
    if radix = bitmapRadix then
      (setUp nodes node fun x => { x with
        bigHint := bigHint
        bitmap  := if bigHint = bitmapRadix then 0 else BitVec.allOnes 32 <<< bigHint }).map
          fun nodes => (0, nodes)
    else
      (setUp nodes node fun x => { x with bigHint := bigHint, available := bigHint }).bind
        fun nodes =>
          let radix := radix / nodeRadix
          let nextSkip := skip / nodeRadix
          initLoop (fun nodes node slots =>
              radixBitmapInit fuel nodes node radix (nextSkip - 1) slots)
            node radix skip nextSkip (nodeRadix + 1) nodes 1 0 slots

structure RadixBitmap where
  freeSlots : ℕ
  radix : ℕ
  skip : ℕ
  root : Nodes

/-- The loop of `radix_bitmap_create()` that finds the radix; the first number bounds it. -/
def createLoop (slots : ℕ) : ℕ → ℕ → ℕ → Option (ℕ × ℕ)
  | 0, _, _ => none
  | fuel + 1, radix, skip =>
    if radix < slots then
      createLoop slots fuel (radix * nodeRadix % 2 ^ 32) ((skip + 1) * nodeRadix % 2 ^ 32)
    else some (radix, skip)

/-- How deep the tree, and how long the loop that finds its radix, can get. -/
def maxDepth : ℕ := 8

/-- `radix_bitmap_create()`; `memory` is what the allocated memory contains. -/
def radixBitmapCreate (memory : ℕ → RadixNode) (slots : ℕ) : Option RadixBitmap :=
  (createLoop slots maxDepth bitmapRadix 0).bind fun (radix, skip) =>
    (radixBitmapInit maxDepth ⟨0, memory⟩ none radix skip slots).bind fun r =>
      (radixBitmapInit maxDepth ⟨1 + r.1, memory⟩ (some 0) radix skip slots).map fun r =>
        { freeSlots := slots
          radix := radix
          skip := skip
          root := r.2 }

/-! ## Allocating slots -/

/-- A right shift of a 32 bit word by a 32 bit number, of which the processor uses five bits. -/
def shiftRight (x : BitVec 32) (n : ℕ) : BitVec 32 := x >>> (n % 32)

/-- The loop of `radix_leaf_alloc()`: the offset of the first run of free slots, and its mask. -/
def leafLoop (bitmap : BitVec 32) : ℕ → BitVec 32 → ℕ → Option (ℕ × BitVec 32)
  | 0, _, _ => none
  | left + 1, mask, j =>
    if bitmap &&& mask = mask then some (j, mask) else leafLoop bitmap left (mask <<< 1) (j + 1)

/-- `radix_leaf_alloc()`; no slot for `RADIX_SLOT_NONE` -/
def radixLeafAlloc (nodes : Nodes) (leaf slotIndex : ℕ) (count : ℤ) :
    Option (Nodes × Option ℕ) :=
  (nodes.read leaf).bind fun node =>
    let n := ((bitmapRadix - count) % 2 ^ 32).toNat
    let found :=
      if count ≤ bitmapRadix then
        leafLoop (~~~node.bitmap) (n + 1) (shiftRight (BitVec.allOnes 32) n) 0
      else none
    match found with
    | some (j, mask) =>
      (nodes.write leaf { node with bitmap := node.bitmap ||| mask }).map fun nodes =>
        (nodes, some (slotIndex + j))
    | none =>
      -- we could not allocate count here, update big_hint
      (nodes.write leaf { node with
        bigHint := if node.bigHint ≥ count then count - 1 else node.bigHint }).map fun nodes =>
          (nodes, none)

/-- The loop of `radix_node_alloc()` over the children of a node. -/
def allocLoop (child : Nodes → ℕ → ℕ → Option (Nodes × Option ℕ)) (node : ℕ) (count : ℤ)
    (radix skip nextSkip : ℕ) : ℕ → Nodes → ℕ → ℕ → Option (Nodes × Option ℕ)
  | 0, _, _, _ => none
  | fuel + 1, nodes, i, slotIndex =>
    if i ≤ skip then
      (nodes.read (node + i)).bind fun x =>
        if x.bigHint = -1 then some (nodes, none)
        else if count ≤ x.bigHint then
          (child nodes (node + i) slotIndex).bind fun r =>
            match r.2 with
            | some addr => some (r.1, some addr)
            | none =>
              allocLoop child node count radix skip nextSkip fuel r.1 (i + nextSkip)
                (slotIndex + radix)
        else
          allocLoop child node count radix skip nextSkip fuel nodes (i + nextSkip)
            (slotIndex + radix)
    else some (nodes, none)

def radixNodeAlloc : ℕ → Nodes → ℕ → ℕ → ℤ → ℕ → ℕ → Option (Nodes × Option ℕ)
  | 0, _, _, _, _, _, _ => none
  | fuel + 1, nodes, node, slotIndex, count, radix, skip =>
    let nextSkip := skip / nodeRadix
    let radix := radix / nodeRadix
    (allocLoop (fun nodes child slotIndex =>
        if nextSkip = 1 then radixLeafAlloc nodes child slotIndex count
        else radixNodeAlloc fuel nodes child slotIndex count radix (nextSkip - 1))
      node count radix skip nextSkip (nodeRadix + 1) nodes 1 slotIndex).bind fun r =>
        (r.1.read node).bind fun x =>
          match r.2 with
          | some addr =>
            let available := int32 (x.available - count)
            (r.1.write node { x with
              available := available
              bigHint   := if x.bigHint > available then available else x.bigHint }).map
                fun nodes => (nodes, some addr)
          | none =>
            -- we could not allocate count in the subtree, update big_hint
            (r.1.write node { x with
              bigHint := if x.bigHint ≥ count then count - 1 else x.bigHint }).map
                fun nodes => (nodes, none)

def radixBitmapAlloc (bmp : RadixBitmap) (count : ℕ) : Option (RadixBitmap × Option ℕ) :=
  let r :=
    if bmp.radix = bitmapRadix then radixLeafAlloc bmp.root 0 0 (int32 count)
    else radixNodeAlloc maxDepth bmp.root 0 0 (int32 count) bmp.radix bmp.skip
  r.map fun r =>
    ({ bmp with
        root      := r.1
        freeSlots := if r.2.isSome then (bmp.freeSlots + 2 ^ 32 - count) % 2 ^ 32
          else bmp.freeSlots }, r.2)

/-! ## Freeing slots -/

def radixLeafDealloc (nodes : Nodes) (leaf slotIndex count : ℕ) : Option Nodes :=
  (nodes.read leaf).bind fun node =>
    let n := slotIndex % bitmapRadix
    let mask := shiftRight (BitVec.allOnes 32) (bitmapRadix - count - n) &&& BitVec.allOnes 32 <<< n
    nodes.write leaf { node with bitmap := node.bitmap &&& ~~~mask, bigHint := bitmapRadix }

/-- The loop of `radix_node_dealloc()` over the children of a node. -/
def deallocLoop (child : Nodes → ℕ → ℕ → ℕ → ℕ → Option Nodes) (node radix skip nextSkip : ℕ) :
    ℕ → Nodes → ℕ → ℕ → ℕ → ℕ → Option Nodes
  | 0, _, _, _, _, _ => none
  | fuel + 1, nodes, i, index, slotIndex, count =>
    if i ≤ skip ∧ index < slotIndex + count then
      let v := min (index + radix - slotIndex) count
      (child nodes (node + i) slotIndex v index).bind fun nodes =>
        (nodes.read (node + i)).bind fun y =>
          (nodes.read node).bind fun x =>
            (nodes.write node { x with
              bigHint := if x.bigHint < y.bigHint then y.bigHint else x.bigHint }).bind fun nodes =>
                deallocLoop child node radix skip nextSkip fuel nodes (i + nextSkip) (index + radix)
                  (slotIndex + v) (count - v)
    else some nodes

def radixNodeDealloc : ℕ → Nodes → ℕ → ℕ → ℕ → ℕ → ℕ → ℕ → Option Nodes
  | 0, _, _, _, _, _, _, _ => none
  | fuel + 1, nodes, node, slotIndex, count, radix, skip, index =>
    (nodes.read node).bind fun x =>
      (nodes.write node { x with available := int32 (x.available + count) }).bind fun nodes =>
        let nextSkip := skip / nodeRadix
        let radix := radix / nodeRadix
        let i := (slotIndex - index) / radix
        deallocLoop (fun nodes child slotIndex v index =>
            if nextSkip = 1 then radixLeafDealloc nodes child slotIndex v
            else radixNodeDealloc fuel nodes child slotIndex v radix (nextSkip - 1) index)
          node radix skip nextSkip (nodeRadix + 1) nodes (i * nextSkip + 1) (index + i * radix)
          slotIndex count

def radixBitmapDealloc (bmp : RadixBitmap) (slotIndex count : ℕ) : Option RadixBitmap :=
  let r :=
    if bmp.radix = bitmapRadix then radixLeafDealloc bmp.root 0 slotIndex count
    else radixNodeDealloc maxDepth bmp.root 0 slotIndex count bmp.radix bmp.skip 0
  r.map fun root => { bmp with root := root, freeSlots := (bmp.freeSlots + count) % 2 ^ 32 }

end Haiku.Radix
