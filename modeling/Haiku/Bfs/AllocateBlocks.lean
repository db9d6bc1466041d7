import Haiku.Bfs.CheckBlocks

/-!
# Allocating blocks

`BlockAllocator::AllocateBlocks()` and `AllocationGroup::Allocate()` of
`src/add-ons/kernel/file_systems/bfs/BlockAllocator.cpp`. A failed assertion and the panic for
blocks that are set already are the result `none`.
-/

namespace Haiku.Bfs

structure BlockRun where
  allocationGroup : ℤ
  start : ℕ
  length : ℕ
deriving DecidableEq

/-! ## The search -/

/-- The range that can fulfill the request best, as far as it is known. -/
structure Best where
  group : ℤ
  start : ℤ
  length : ℤ

structure Scan where
  best : Best
  currentStart : ℕ
  currentLength : ℕ
  currentBit : ℕ
  groupLargestStart : ℤ
  groupLargestLength : ℤ

/-- The variables before the first bit that is looked at. -/
def Scan.begin (best : Best) (start : ℕ) : Scan where
  best := best
  currentStart := 0
  currentLength := 0
  currentBit := start
  groupLargestStart := -1
  groupLargestLength := -1

inductive ScanEnd where
  /-- all bits of the block have been looked at -/
  | block
  /-- a range large enough has been found -/
  | found
  /-- there cannot be a bigger range in this group anymore -/
  | skip
deriving DecidableEq

/-- The current range is the best one so far, if it is longer. -/
def Scan.improveBest (s : Scan) (groupIndex : ℕ) : Scan :=
  if (s.currentLength : ℤ) > s.best.length
  then { s with best := ⟨groupIndex, s.currentStart, s.currentLength⟩ }
  else s

/-- The current range is the largest one of the group so far, if it is longer. -/
def Scan.improveLargest (s : Scan) : Scan :=
  if (s.currentLength : ℤ) > s.groupLargestLength
  then { s with groupLargestStart := s.currentStart, groupLargestLength := s.currentLength }
  else s

def Scan.endRange (s : Scan) (groupIndex : ℕ) : Scan :=
  if s.currentLength ≠ 0
  then { (s.improveBest groupIndex).improveLargest with currentLength := 0 }
  else s

/-- A free bit makes the current range longer, or begins one. -/
def Scan.addBit (s : Scan) : Scan :=
  { s with
    currentStart := if s.currentLength = 0 then s.currentBit else s.currentStart
    currentLength := s.currentLength + 1 }

/-- The loop over the bits of a bitmap block, from `bit` on. -/
def scanBits (cached : AllocationBlock) (numBits groupIndex maximum : ℕ) :
    (rounds bit : ℕ) → Scan → Scan × ScanEnd
  | 0, _, s => (s, .block)
  | rounds + 1, bit, s =>
    if bit < cached.numBits then
      if !cached.isUsed bit then
        let s := s.addBit
        if s.currentLength ≥ maximum then
          ({ s with best := ⟨groupIndex, s.currentStart, s.currentLength⟩ }, .found)
        else
          scanBits cached numBits groupIndex maximum rounds (bit + 1)
            { s with currentBit := s.currentBit + 1 }
      else
        let s := s.endRange groupIndex
        if (numBits : ℤ) - s.currentBit ≤ s.groupLargestLength then (s, .skip)
        else
          scanBits cached numBits groupIndex maximum rounds (bit + 1)
            { s with currentBit := s.currentBit + 1 }
    else (s, .block)

/-- The loop over the bitmap blocks of a group. The result tells whether the largest range of
the group can still be found. -/
def scanBlocks (a : BlockAllocator) (groupIndex maximum : ℕ) :
    (rounds block start : ℕ) → (canFindGroupLargest : Bool) → Scan → Scan × Bool
  | 0, _, _, canFindGroupLargest, s => (s, canFindGroupLargest)
  | rounds + 1, block, start, canFindGroupLargest, s =>
    let group := a.groups groupIndex
    if block < group.numBlocks then
      let cached := setTo a group block
      let (s, ended) := scanBits cached group.numBits groupIndex maximum cached.numBits
        (start % a.geometry.bitsPerBlock) s
      if s.best.length ≥ maximum then (s, false)
      else if ended = .skip then (s, canFindGroupLargest)
      else scanBlocks a groupIndex maximum rounds (block + 1) 0 canFindGroupLargest s
    else (s, canFindGroupLargest)

def BlockAllocator.setGroup (a : BlockAllocator) (i : ℕ) (group : AllocationGroup) :
    BlockAllocator :=
  { a with groups := Function.update a.groups i group }

/-- The part of the search that reads the bitmap of a group. -/
def scanGroup (a : BlockAllocator) (groupIndex start maximum : ℕ) (best : Best) :
    BlockAllocator × Best :=
  let group := a.groups groupIndex
  let (s, canFindGroupLargest) :=
    scanBlocks a groupIndex maximum group.numBlocks (start / a.geometry.bitsPerBlock) start
      (start = 0) (.begin best start)
  let s :=
    if s.currentBit = group.numBits then
      let s := s.improveBest groupIndex
      if canFindGroupLargest then s.improveLargest else s
    else s
  if canFindGroupLargest ∧ !group.largestValid ∧ s.groupLargestLength ≥ 0 then
    (a.setGroup groupIndex
      { group with
        largestStart := s.groupLargestStart
        largestLength := s.groupLargestLength
        largestValid := true }, s.best)
  else (a, s.best)

/-- One round of the search, in one group. The start is an `uint16`. -/
def searchGroup (a : BlockAllocator) (groupIndex start maximum : ℕ) (best : Best) :
    BlockAllocator × Best :=
  let group := a.groups groupIndex
  if start ≥ group.numBits ∨ group.freeBits = 0 then (a, best)
  else
    let start := if start < group.firstFree then (group.firstFree % 2 ^ 16).toNat else start
    if group.largestValid ∧ group.largestLength < best.length then (a, best)
    else if group.largestValid ∧ group.largestStart ≥ start then
      -- We know everything about this group we have to.
      if group.largestLength ≥ best.length
      then (a, ⟨groupIndex, group.largestStart, group.largestLength⟩)
      else (a, best)
    else scanGroup a groupIndex start maximum best

/-- The rounds of the search, until a range is large enough. The first group is visited again
at the end, from its first bit on. -/
def search (a : BlockAllocator) (maximum : ℕ) :
    (rounds groupIndex start : ℕ) → Best → BlockAllocator × Best
  | 0, _, _, best => (a, best)
  | rounds + 1, groupIndex, start, best =>
    let groupIndex := groupIndex % a.geometry.numGroups
    let (a, best) := searchGroup a groupIndex start maximum best
    if best.length ≥ maximum then (a, best)
    else search a maximum rounds (groupIndex + 1) 0 best

/-! ## `AllocationGroup::Allocate()` -/

/-- What `Allocate()` does to the summaries of the group. The first free block does not have to
be really free. -/
def AllocationGroup.take (group : AllocationGroup) (start length : ℕ) : AllocationGroup :=
  let group := if (start : ℤ) = group.firstFree
    then { group with firstFree := start + length } else group
  let group := { group with freeBits := group.freeBits - length }
  if group.largestValid then
    let (group, cut) :=
      if group.largestStart = start then
        -- cut from start
        ({ group with
          largestStart := group.largestStart + length
          largestLength := group.largestLength - length }, true)
      else if (start : ℤ) > group.largestStart ∧
          (start : ℤ) < group.largestStart + group.largestLength then
        -- cut from end
        ({ group with largestLength := start - group.largestStart }, true)
      else (group, false)
    if cut ∧ (group.largestLength < group.largestStart ∨
        group.largestLength < group.numBits - (group.largestStart + group.largestLength))
    then { group with largestValid := false }
    else group
  else group

/-- `AllocationBlock::Allocate()`: the bits are set, which were clear. -/
def AllocationBlock.allocate (b : AllocationBlock) (start numBlocks : ℕ) :
    Option AllocationBlock :=
  if start < b.numBits ∧ start + numBlocks ≤ b.numBits ∧
      (List.range numBlocks).all fun i => !b.bits (start + i) then
    some { b with bits := fun i => (start ≤ i ∧ i < start + numBlocks) || b.bits i }
  else none

/-- The loop of `AllocationGroup::Allocate()` over the bitmap blocks of the group. -/
def allocateLoop (a : BlockAllocator) (group : AllocationGroup) :
    (rounds block start length : ℕ) → Option BlockAllocator
  | 0, _, _, length => if length = 0 then some a else none
  | rounds + 1, block, start, length =>
    if 0 < length then
      let cached := setTo a group block
      let numBlocks := if start + length > cached.numBits then cached.numBits - start else length
      match cached.allocate start numBlocks with
      | none => none
      | some cached =>
        allocateLoop
          { a with bitmap := Function.update a.bitmap (group.start + block) cached.bits }
          group rounds (block + 1) 0 (length - numBlocks)
    else some a

def allocate (a : BlockAllocator) (groupIndex start length : ℕ) : Option BlockAllocator :=
  if start + length ≤ (a.groups groupIndex).numBits then
    let group := (a.groups groupIndex).take start length
    allocateLoop (a.setGroup groupIndex group) group (length + 1)
      (start / a.geometry.bitsPerBlock) (start % a.geometry.bitsPerBlock) length
  else none

/-- `round_down()`: the bits below the power of two are cleared. -/
def roundDown (value multiple : ℕ) : ℕ := value - (value &&& (multiple - 1))

def allocateBlocks (a : BlockAllocator) (groupIndex start maximum minimum : ℕ) :
    Option (BlockAllocator × Status × Option BlockRun) :=
  if maximum = 0 then some (a, .badValue, none)
  else
    let (a, best) := search a maximum (a.geometry.numGroups + 1) groupIndex start ⟨-1, -1, -1⟩
    if best.length < minimum then some (a, .deviceFull, none)
    else
      let bestLength :=
        if best.length > maximum then maximum
        else if minimum > 1 then roundDown best.length.toNat minimum
        else best.length.toNat
      (allocate a best.group.toNat best.start.toNat bestLength).map fun a =>
        ({ a with usedBlocks := a.usedBlocks + bestLength }, .ok,
          some ⟨best.group, best.start.toNat % 2 ^ 16, bestLength % 2 ^ 16⟩)

end Haiku.Bfs
