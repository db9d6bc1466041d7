import Haiku.Lib.Table

/-!
# Anonymous memory and swap space

The data of `src/system/kernel/vm/VMAnonymousCache.cpp`: caches of anonymous memory, the swap
blocks that say where the pages of a cache are stored, and the swap files.

* The contents of a page are a value of a type `P`.
* `sSwapHashTable` is a table with the cache and the number of the block as its key. The
  `swap_slots` of a block are missing (`none`) where the source has `SWAP_SLOT_NONE`.
* The bitmaps of all swap files together are one map from slots, since the files have disjoint
  ranges of slots. Which free slots `radix_bitmap_alloc()` picks is an argument of the calls.
* Whether real memory can be reserved, and whether I/O succeeds, are arguments as well.
* A `panic()` or a failed assertion is the result `none`.
-/

namespace Haiku.Swap

open Lib

/-- `B_PAGE_SIZE` -/
def pageSize : ℕ := 4096

/-- `SWAP_BLOCK_PAGES` -/
def blockPages : ℕ := 32

lemma mod_blockPages_lt (n : ℕ) : n % blockPages < blockPages := Nat.mod_lt n (by decide)

/-- `BITMAP_RADIX`: a bitmap can hand out no more slots at once. -/
def bitmapRadix : ℕ := 32

/-- `struct swap_block`, without its hash link and key. -/
structure SwapBlock where
  used : UInt32
  slots : Fin blockPages → Option ℕ

structure Page (P : Type) where
  data : P
  busy : Bool

/-- `class VMAnonymousCache` -/
structure AnonymousCache (P : Type) where
  virtualBase : ℕ
  virtualEnd : ℕ
  committedSize : ℤ
  committedSwapSize : ℤ
  allocatedSwapSize : ℤ
  canOvercommit : Bool
  hasPrecommitted : Bool
  precommittedPages : ℕ
  guardedSize : ℕ
  /-- The resident pages, by their index. -/
  pages : Table ℕ (Page P)

structure SwapFile where
  vnode : ℕ
  firstSlot : ℕ
  lastSlot : ℕ
deriving DecidableEq

/-- A write that was started by `WriteAsync()` and is not finished: its `WriteCallback`. -/
structure PendingWrite where
  cache : ℕ
  pageIndex : ℕ
  slot : ℕ
  newSlot : Bool
deriving DecidableEq

/-- The swap subsystem. -/
structure State (P : Type) where
  caches : Table ℕ (AnonymousCache P)
  /-- `sSwapHashTable` -/
  blocks : Table (ℕ × ℕ) SwapBlock
  /-- `sSwapFileList` -/
  files : List SwapFile
  /-- the bits of the swap files' bitmaps -/
  allocated : ℕ → Bool
  /-- `sAvailSwapSpace` -/
  available : ℤ
  pending : List PendingWrite

inductive Status where
  | ok
  | error
  | badValue
  | badAddress
  | badHandler
  | noMemory
deriving DecidableEq

/-- After `swap_init()`. -/
def initial (P : Type) : State P where
  caches := ∅
  blocks := ∅
  files := []
  allocated := fun _ => false
  available := 0
  pending := []

variable {P : Type}

def AnonymousCache.lookupPage (c : AnonymousCache P) (index : ℕ) : Option (Page P) :=
  c.pages.lookup index

def AnonymousCache.removePage (c : AnonymousCache P) (index : ℕ) : AnonymousCache P :=
  { c with pages := c.pages.erase index }

def AnonymousCache.insertPage (c : AnonymousCache P) (index : ℕ) (page : Page P) :
    AnonymousCache P :=
  { c with pages := c.pages.insert index page }

def AnonymousCache.pageCount (c : AnonymousCache P) : ℕ := c.pages.keys.length

def State.setCache (s : State P) (id : ℕ) (c : AnonymousCache P) : State P :=
  { s with caches := s.caches.insert id c }

/-!
## Reserving swap space

The functions of `src/system/kernel/vm/VMAnonymousCache.cpp` that move bytes between
`sAvailSwapSpace` and the commitments of the caches.
-/

/-! ## Swap files -/

def SwapFile.pages (f : SwapFile) : ℕ := f.lastSlot - f.firstSlot

def State.isUnused (s : State P) (f : SwapFile) : Bool :=
  (List.range f.pages).all fun i => !s.allocated (f.firstSlot + i)

/-- `swap_file_add()`, for a file that can be opened and has the given size in bytes. Between
two files there is a gap of one slot. -/
def swapFileAdd (s : State P) (vnode size : ℕ) : State P × Status :=
  if size < pageSize then (s, .badValue)
  else
    let pageCount := size / pageSize
    let firstSlot :=
      match s.files.getLast? with
      | none => 0
      | some last => last.lastSlot + 1
    ({ s with
        files := s.files ++ [⟨vnode, firstSlot, firstSlot + pageCount⟩]
        available := s.available + pageCount * pageSize }, .ok)

def swapFileDelete (s : State P) (vnode : ℕ) : State P × Status :=
  match s.files.find? fun f => f.vnode = vnode with
  | none => (s, .error)
  | some f =>
    if !s.isUnused f then (s, .error)
    else
      ({ s with
          files := s.files.erase f
          available := s.available - f.pages * pageSize }, .ok)

/-! ## Commitments -/

/-- `swap_space_reserve()`: the amount that could be reserved. -/
def swapSpaceReserve (s : State P) (amount : ℤ) : State P × ℤ :=
  if s.available ≥ amount then ({ s with available := s.available - amount }, amount)
  else ({ s with available := 0 }, s.available)

def swapSpaceUnreserve (s : State P) (amount : ℤ) : State P :=
  { s with available := s.available + amount }

/-- The first part of `_Commit()`: as much as possible of the final commitment is reserved in the
swap space. -/
def reserveSwap (s : State P) (c : AnonymousCache P) (size : ℤ) : State P × AnonymousCache P :=
  if size > c.committedSwapSize then
    let committedMemory := c.committedSize - c.committedSwapSize
    let (s, reserved) := swapSpaceReserve s (size - c.committedSwapSize)
    let committedSwapSize := c.committedSwapSize + reserved
    (s, { c with
      committedSwapSize := committedSwapSize
      committedSize := committedSwapSize + committedMemory })
  else (s, c)

/-- The part of `_Commit()` for a commitment that shrinks: real memory is unreserved first. -/
def shrinkCommitment (s : State P) (c : AnonymousCache P) (size : ℤ) :
    State P × AnonymousCache P :=
  let committedMemory := c.committedSize - c.committedSwapSize
  let unreserved := if committedMemory > 0 then min (c.committedSize - size) committedMemory else 0
  let toUnreserve := c.committedSize - size - unreserved
  let c := { c with committedSize := c.committedSize - unreserved }
  if toUnreserve > 0 then
    (swapSpaceUnreserve s toUnreserve,
      { c with
        committedSwapSize := c.committedSwapSize - toUnreserve
        committedSize := c.committedSize - toUnreserve })
  else (s, c)

/-- `_Commit()`; `memory` tells whether `vm_try_reserve_memory()` succeeds. -/
def commitSpace (s : State P) (c : AnonymousCache P) (size : ℤ) (memory : Bool) :
    State P × AnonymousCache P × Status :=
  let (s, c) := reserveSwap s c size
  if c.committedSize = size then (s, c, .ok)
  else if c.committedSize > size then
    let (s, c) := shrinkCommitment s c size
    (s, c, .ok)
  else if memory then (s, { c with committedSize := size }, .ok)
  else (s, c, .noMemory)

def commit (s : State P) (c : AnonymousCache P) (size : ℤ) (memory : Bool) :
    State P × AnonymousCache P × Status :=
  if c.canOvercommit ∧ size > c.committedSize then
    if c.hasPrecommitted then (s, c, .ok)
    else
      -- pre-commit some pages to make a later failure less probable
      let c := { c with hasPrecommitted := true }
      commitSpace s c (min size (c.precommittedPages * pageSize)) memory
  else commitSpace s c size memory

/-- `Fault()` for a page that is neither resident nor swapped out if `missing`. The guard pages
are at the beginning of the cache. -/
def fault (s : State P) (c : AnonymousCache P) (offset : ℕ) (missing memory : Bool) :
    State P × AnonymousCache P × Status :=
  if c.canOvercommit ∧ missing then
    if c.guardedSize > 0 ∧ offset < c.guardedSize then (s, c, .badAddress)
    else if c.precommittedPages = 0 then
      -- never commit more than needed
      if c.committedSize / pageSize > c.pageCount then (s, c, .badHandler)
      else
        let (s, reserved) := swapSpaceReserve s pageSize
        if reserved = pageSize then
          (s, { c with
            committedSwapSize := c.committedSwapSize + pageSize
            committedSize := c.committedSize + pageSize }, .badHandler)
        else if memory then
          (s, { c with committedSize := c.committedSize + pageSize }, .badHandler)
        else (s, c, .noMemory)
    else (s, { c with precommittedPages := c.precommittedPages - 1 }, .badHandler)
  else (s, c, .badHandler)

/-!
## Swap slots and swap blocks

The functions of `src/system/kernel/vm/VMAnonymousCache.cpp` that give pages a place in the swap
space, write them there and give it up again.
-/

/-! ## Slots -/

/-- `swap_slot_alloc()` when the bitmap of a file finds `count` free slots from `slot` on. -/
def swapSlotAlloc (s : State P) (count slot : ℕ) : Option (State P) :=
  if 0 < count ∧ count ≤ bitmapRadix ∧
      (s.files.any fun f => f.firstSlot ≤ slot ∧ slot + count ≤ f.lastSlot) ∧
      (List.range count).all (fun i => !s.allocated (slot + i)) then
    some { s with allocated := fun x => (slot ≤ x ∧ x < slot + count) || s.allocated x }
  else none

/-- `find_swap_file()` finds a file for the slot. -/
def State.hasSlot (s : State P) (slot : ℕ) : Bool :=
  s.files.any fun f => f.firstSlot ≤ slot ∧ slot < f.lastSlot

/-- `swap_slot_dealloc()`. It panics if no file has the slot. -/
def swapSlotDealloc (s : State P) (slot count : ℕ) : Option (State P) :=
  if s.hasSlot slot then
    some { s with allocated := fun x => !(slot ≤ x ∧ x < slot + count) && s.allocated x }
  else none

/-! ## Blocks -/

/-- `_SwapBlockGetAddress()` -/
def getAddress (s : State P) (id pageIndex : ℕ) : Option ℕ :=
  (s.blocks.lookup (id, pageIndex / blockPages)).bind fun b =>
    b.slots ⟨pageIndex % blockPages, mod_blockPages_lt pageIndex⟩

def emptyBlock : SwapBlock where
  used := 0
  slots := fun _ => none

/-- The numbers of the blocks that have pages from `start` to `start + count`. -/
def blockRange (start count : ℕ) : List ℕ :=
  (List.range ((start + count + (blockPages - 1)) / blockPages - start / blockPages)).map
    (start / blockPages + ·)

/-- Whether an entry of a block belongs to one of the `count` pages from `start` on. -/
def isCovered (start count block : ℕ) (i : Fin blockPages) : Bool :=
  start ≤ block * blockPages + i ∧ block * blockPages + i < start + count

/-- The number of entries of a block that belong to the given pages. -/
def numCovered (start count block : ℕ) : ℕ :=
  (List.finRange blockPages).countP (isCovered start count block)

/-- One round of `_SwapBlockBuild()`: the pages in one block. -/
def buildBlock (s : State P) (id start slot count block : ℕ) : State P :=
  let b := (s.blocks.lookup (id, block)).getD emptyBlock
  let b' : SwapBlock :=
    { used := b.used + .ofNat (numCovered start count block)
      slots := fun i =>
        if isCovered start count block i then some (slot + (block * blockPages + i - start))
        else b.slots i }
  { s with blocks := s.blocks.insert (id, block) b' }

def swapBlockBuild (s : State P) (id start slot count : ℕ) : State P :=
  (blockRange start count).foldl (fun s block => buildBlock s id start slot count block) s

/-- One round of `_SwapBlockFree()`: the pages in one block. -/
def freeBlock (s : State P) (id start count block : ℕ) : Option (State P) :=
  match s.blocks.lookup (id, block) with
  | none => none
  | some b =>
    let used := b.used - .ofNat (numCovered start count block)
    if used = 0 then some { s with blocks := s.blocks.erase (id, block) }
    else
      let b' : SwapBlock :=
        { used := used
          slots := fun i => if isCovered start count block i then none else b.slots i }
      some { s with blocks := s.blocks.insert (id, block) b' }

def swapBlockFree (s : State P) (id start count : ℕ) : Option (State P) :=
  (blockRange start count).foldlM (fun s block => freeBlock s id start count block) s

/-! ## `Write()` -/

def addAllocated (s : State P) (id : ℕ) (amount : ℤ) : State P :=
  match s.caches.lookup id with
  | some c => s.setCache id { c with allocatedSwapSize := c.allocatedSwapSize + amount }
  | none => s

/-- The first loop of `Write()`: the pages that are written give up their slots. -/
def releaseOld (s : State P) (id pageIndex : ℕ) : List ℕ → Option (State P)
  | [] => some s
  | pageCount :: vecs =>
    match getAddress s id pageIndex with
    | none => releaseOld s id (pageIndex + pageCount) vecs
    | some slot => do
      let s ← swapSlotDealloc s slot pageCount
      let s ← swapBlockFree s id pageIndex pageCount
      releaseOld (addAllocated s id (-(pageCount * pageSize))) id (pageIndex + pageCount) vecs

/-- How a part of a write goes: the number of slots is halved `halvings` times until a bitmap
can hand them out, then the slots are allocated, and the I/O succeeds or not. -/
structure WriteAnswer where
  halvings : ℕ
  slot : ℕ
  ok : Bool

/-- The loop of `Write()` over one vector of `pageCount` pages, `n` pages at a time. It gives the
pages left, the remaining answers, and whether it went on to the end. -/
def writeVector (id pageIndex pageCount : ℕ) :
    State P → (j n : ℕ) → (pagesLeft : ℤ) → List WriteAnswer →
      Option (State P × ℤ × List WriteAnswer × Bool)
  | s, j, n, pagesLeft, answers =>
    if j < pageCount then
      match answers with
      | [] => none
      | a :: answers => do
        let n := n / 2 ^ a.halvings
        let s ← swapSlotAlloc s n a.slot
        if a.ok then
          -- The pages from the beginning of the vector are meant in each round.
          writeVector id pageIndex pageCount (swapBlockBuild s id pageIndex a.slot n) (j + n) n
            (pagesLeft - n) answers
        else
          let s ← swapSlotDealloc (addAllocated s id (-(pagesLeft * pageSize))) a.slot n
          some (s, pagesLeft, answers, false)
    else some (s, pagesLeft, answers, true)
  termination_by structural _ _ _ _ answers => answers

/-- The second loop of `Write()`, over all vectors. At the end there must be no pages left. -/
def writeVectors (s : State P) (id pageIndex : ℕ) (pagesLeft : ℤ) (answers : List WriteAnswer) :
    List ℕ → Option (State P × Status)
  | [] => if pagesLeft = 0 then some (s, .ok) else none
  | pageCount :: vecs => do
    let (s, pagesLeft, answers, completed) ←
      writeVector id pageIndex pageCount s 0 pageCount pagesLeft answers
    if completed then writeVectors s id (pageIndex + pageCount) pagesLeft answers vecs
    else some (s, .error)

/-- `Write()` of vectors with the given numbers of pages. -/
def write (s : State P) (id pageIndex : ℕ) (vecs : List ℕ) (answers : List WriteAnswer) :
    Option (State P × Status) := do
  let s ← releaseOld s id pageIndex vecs
  let c ← s.caches.lookup id
  let totalSize : ℤ := vecs.sum * pageSize
  if c.allocatedSwapSize + totalSize > c.committedSwapSize then some (s, .error)
  else writeVectors (addAllocated s id totalSize) id pageIndex vecs.sum answers vecs

/-! ## `WriteAsync()` -/

/-- `WriteAsync()` of one page; `slot` is the slot that is allocated if the page has none, and
`memory` tells whether the callback can be created. -/
def writeAsync (s : State P) (id pageIndex slot : ℕ) (memory : Bool) :
    Option (State P × Status) := do
  let c ← s.caches.lookup id
  match getAddress s id pageIndex with
  | some slot =>
    if memory then some ({ s with pending := ⟨id, pageIndex, slot, false⟩ :: s.pending }, .ok)
    else some (s, .noMemory)
  | none =>
    if c.allocatedSwapSize + pageSize > c.committedSwapSize then some (s, .error)
    else
      let s ← swapSlotAlloc (addAllocated s id pageSize) 1 slot
      if memory then some ({ s with pending := ⟨id, pageIndex, slot, true⟩ :: s.pending }, .ok)
      else
        let s ← swapSlotDealloc (addAllocated s id (-pageSize)) slot 1
        some (s, .noMemory)

def ioFinished (s : State P) (w : PendingWrite) (ok : Bool) : Option (State P) :=
  if w ∈ s.pending then
    let s := { s with pending := s.pending.erase w }
    if w.newSlot then
      if ok then some (swapBlockBuild s w.cache w.pageIndex w.slot 1)
      else swapSlotDealloc (addAllocated s w.cache (-pageSize)) w.slot 1
    else some s
  else none

def swapFreePageSwapSpace (s : State P) (id pageIndex : ℕ) : Option (State P) :=
  match getAddress s id pageIndex with
  | none => some s
  | some slot => do
    let s ← swapSlotDealloc s slot 1
    swapBlockFree (addAllocated s id (-pageSize)) id pageIndex 1

/-! ## `Resize()` -/

/-- The pages of `size` bytes, the last one may be partial. -/
def numPages (size : ℕ) : ℕ := (size + (pageSize - 1)) / pageSize

def AnonymousCache.isBusy (c : AnonymousCache P) (pageIndex : ℕ) : Bool :=
  (c.lookupPage pageIndex).any (·.busy)

/-- The loop of `Resize()` that drops the swap pages beyond the new size; `hasBlock` tells
whether `swapBlock` is set. A block that was discarded has no slots anymore. Where there is no
block, the loop goes on behind the first page of the next block. -/
def resizeLoop (id oldPageCount : ℕ) :
    ℕ → State P → (pageIndex : ℕ) → (hasBlock : Bool) → Option (State P)
  | 0, s, _, _ => some s
  | rounds + 1, s, pageIndex, hasBlock => do
    let c ← s.caches.lookup id
    if pageIndex < oldPageCount ∧ c.allocatedSwapSize > 0 then
      let look := !hasBlock ∨ pageIndex % blockPages = 0
      if look ∧ s.blocks.lookup (id, pageIndex / blockPages) = none then
        resizeLoop id oldPageCount rounds s
          ((pageIndex + 1 + (blockPages - 1)) / blockPages * blockPages + 1) false
      else
        match getAddress s id pageIndex with
        | some slot =>
          if c.isBusy pageIndex then resizeLoop id oldPageCount rounds s (pageIndex + 1) true
          else
            let s ← swapSlotDealloc s slot 1
            let s ← swapBlockFree (addAllocated s id (-pageSize)) id pageIndex 1
            resizeLoop id oldPageCount rounds s (pageIndex + 1) true
        | none => resizeLoop id oldPageCount rounds s (pageIndex + 1) true
    else some s

/-- The first part of `Resize()`: the swap pages beyond the new size are dropped. -/
def dropSwapPages (s : State P) (id newSize : ℕ) (c : AnonymousCache P) : Option (State P) :=
  if c.allocatedSwapSize > 0 then
    resizeLoop id (numPages c.virtualEnd) (numPages c.virtualEnd + 1) s (numPages newSize) false
  else some s

/-- `VMCache::Resize()`. Busy pages stay. -/
def resizePages (c : AnonymousCache P) (newSize : ℕ) : AnonymousCache P :=
  let pages :=
    if numPages newSize < numPages c.virtualEnd
    then c.pages.filter fun index page => index < numPages newSize ∨ page.busy
    else c.pages
  { c with pages := pages, virtualEnd := newSize }

def resize (s : State P) (id newSize : ℕ) (memory : Bool) : Option (State P × Status) := do
  let c ← s.caches.lookup id
  let s ← dropSwapPages s id newSize c
  let c ← s.caches.lookup id
  match commit s c (newSize - c.virtualBase : ℤ) memory with
  | (s, c, .ok) => some (s.setCache id (resizePages c newSize), .ok)
  | (s, c, status) => some (s.setCache id c, status)

/-! ## Deleting a cache -/

/-- The loop of `~VMAnonymousCache()`, over the pages from `pageIndex` on. -/
def releaseAll (id : ℕ) : ℕ → State P → (pageIndex : ℕ) → (toFree : ℤ) → Option (State P)
  | 0, s, _, _ => some s
  | pages + 1, s, pageIndex, toFree =>
    if toFree > 0 then
      match getAddress s id pageIndex with
      | none => releaseAll id pages s (pageIndex + 1) toFree
      | some slot => do
        let s ← swapSlotDealloc s slot 1
        let s ← swapBlockFree s id pageIndex 1
        releaseAll id pages s (pageIndex + 1) (toFree - pageSize)
    else some s

/-- `~VMAnonymousCache()` -/
def destroy (s : State P) (id : ℕ) : Option (State P) := do
  let c ← s.caches.lookup id
  let s ← releaseAll id (numPages (c.virtualEnd - c.virtualBase)) s (c.virtualBase / pageSize)
    c.allocatedSwapSize
  some { swapSpaceUnreserve s c.committedSwapSize with caches := s.caches.erase id }

end Haiku.Swap
