import Haiku.Cache.Basic

/-!
# Writing blocks back

`BlockWriter` of `block_cache.cpp`. `Add()` marks a block busy; `Write()` drops the lock,
writes the blocks in the order of their numbers, takes the lock again and calls
`_BlockDone()` for each of them. A writer that has dropped the lock is an entry of
`BlockCache.writers`; `addAll`, `writeBlock` and `blockDone` are its three phases.
-/

namespace Haiku.Cache

variable {D : Type}

/-- `BlockWriter::Add()`. The growth of the writer's array always succeeds. -/
def BlockCache.addBusy (s : BlockCache D) (n : BlockNumber) : BlockCache D :=
  match s.hash n with
  | none => s
  | some b =>
    { s.setBlock n { b with busyWriting := true } with
      busyWritingCount := s.busyWritingCount + 1
      transactionBusy := fun id =>
        if b.previousTransaction = some id then s.transactionBusy id + 1
        else s.transactionBusy id }

/-- `BlockWriter::Add()` for each block of a list. -/
def BlockCache.addAll (s : BlockCache D) (ns : List BlockNumber) : BlockCache D :=
  ns.foldl BlockCache.addBusy s

/-- `BlockWriter::_Data()`: changes of a previous transaction have to be written first. -/
def CachedBlock.data (b : CachedBlock D) : D :=
  if b.previousTransaction.isSome then b.originalData.getD b.currentData else b.currentData

def CachedBlock.dataIsCurrent (b : CachedBlock D) : Bool :=
  b.previousTransaction.isNone || b.originalData.isNone

/-- `BlockWriter::_WriteBlock()`: the contents reach the device. -/
def BlockCache.writeData (s : BlockCache D) (n : BlockNumber) (b : CachedBlock D) :
    BlockCache D :=
  { s with
    device := Function.update s.device n b.data
    written := s.written ++ [(n, b.data)] }

/-- `BlockWriter::_UnmarkWriting()`, on a block taken out of the hash table. -/
def BlockCache.unmarkWriting (s : BlockCache D) (b : CachedBlock D) : BlockCache D :=
  { s with
    busyWritingCount := s.busyWritingCount - 1
    transactionBusy := fun id =>
      if b.previousTransaction = some id then s.transactionBusy id - 1
      else s.transactionBusy id }

/-- The part of `_BlockDone()` that concerns the closed transaction `id` of the block:
the block leaves its list, and the transaction is reported and deleted with its last
block. -/
def BlockCache.previousDone (s : BlockCache D) (n : BlockNumber) (id : TransactionId) :
    BlockCache D :=
  match s.transactionHash id with
  | none => s
  | some t =>
    let t := { t with blocks := t.blocks.erase n, numBlocks := t.numBlocks - 1 }
    if t.numBlocks = 0 then (s.notify id .written).deleteTransaction id
    else s.setTransaction id t

def BlockCache.blockDone (s : BlockCache D) (n : BlockNumber) : BlockCache D :=
  match s.hash n with
  | none => s
  | some b =>
    let b' := { b with
      isDirty := if b.dataIsCurrent then false else b.isDirty
      busyWriting := false
      previousTransaction := none
      -- a block that is not part of a transaction does not need its original data anymore
      originalData :=
        if b.previousTransaction.isSome && b.transaction.isNone then none
        else b.originalData }
    let s := { s with numDirtyBlocks := s.numDirtyBlocks - 1 }
    let s := s.unmarkWriting b
    let s := match b.previousTransaction with
      | none => s
      | some id => s.previousDone n id
    if b.transaction.isNone && b.refCount == 0 then
      (s.setBlock n { b' with unused := true }).addUnused n
    else s.setBlock n b'

/-- `BlockWriter::WriteBlock()`: a writer with one block. It is called where the cache
evicts a block, and runs here without dropping the lock. -/
def BlockCache.writeBlockNow (s : BlockCache D) (n : BlockNumber) : BlockCache D :=
  let s := s.addBusy n
  match s.hash n with
  | none => s
  | some b => (s.writeData n b).blockDone n

/-!
## Getting and putting blocks

The private block functions of `block_cache.cpp`, from `NewBlock()` to
`get_writable_cached_block()`, and the eviction of unused blocks.

`get_cached_block()` and `get_writable_cached_block()` drop the lock while they read, copy or
clear a block. They mark the block `busy_reading` meanwhile, every other function waits for
or skips such a block, and nothing else of theirs is unfinished then. The model runs each
of them as one step.
-/

/-! ## Evicting unused blocks -/

/-- The loop of `block_cache::RemoveUnusedBlocks()`, over the rest of the unused list. -/
def BlockCache.removeUnusedLoop (minSecondsOld now : ℤ) :
    List BlockNumber → ℤ → BlockCache D → BlockCache D
  | [], _, s => s
  | n :: rest, count, s =>
    match s.hash n with
    | none => s
    | some b =>
      -- the list is sorted by last access
      if minSecondsOld ≥ now - b.lastAccessed then s
      else if b.busyReading || b.busyWriting then
        removeUnusedLoop minSecondsOld now rest count s
      else
        let s := if b.isDirty && !b.discard then s.writeBlockNow n else s
        let s := (s.dropUnused n).removeBlock n
        if count - 1 ≤ 0 then s
        else removeUnusedLoop minSecondsOld now rest (count - 1) s

def BlockCache.removeUnusedBlocks (s : BlockCache D) (count minSecondsOld now : ℤ) :
    BlockCache D :=
  BlockCache.removeUnusedLoop minSecondsOld now s.unusedBlocks count s

/-- A writer that holds the `cached_block` structure of block `old` holds that of block `n`
once the structure is reused. -/
def BlockWriter.reuse (old n : BlockNumber) (w : BlockWriter) : BlockWriter :=
  { w with
    pending := w.pending.map fun m => if m = old then n else m
    done := w.done.map fun m => if m = old then n else m }

/-- `block_cache::_GetUnusedBlock()`, for a new block `n`: the first unused block leaves the
cache. -/
def BlockCache.getUnusedBlock (s : BlockCache D) (n : BlockNumber) : Option (BlockCache D) :=
  match s.unusedBlocks with
  | [] => none
  | old :: _ =>
    match s.hash old with
    | none => none
    | some b =>
      let s := if b.isDirty && !b.busyWriting && !b.discard then s.writeBlockNow old else s
      let s := (s.dropUnused old).removeBlock old
      some { s with writers := s.writers.map (BlockWriter.reuse old n) }

/-- `block_cache::Allocate()`: if memory is short, unused blocks are recycled first. -/
def BlockCache.allocate (s : BlockCache D) (m : Memory) : BlockCache D :=
  if m.shrink then s.removeUnusedBlocks 100 0 m.now else s

/-- `block_cache::NewBlock()`, up to the insertion of the block into the hash table. -/
def BlockCache.newBlock (s : BlockCache D) (m : Memory) (n : BlockNumber) : BlockCache D :=
  match if m.reuse then s.getUnusedBlock n else none with
  | some s' => s'
  | none => s.allocate m

/-! ## `put_cached_block()` and `get_cached_block()` -/

def BlockCache.putCachedBlock (s : BlockCache D) (n : BlockNumber) : Option (BlockCache D) :=
  match s.hash n with
  | none => some s
  | some b =>
    if b.refCount < 1 then none
    else
      let b := { b with refCount := b.refCount - 1 }
      if b.refCount = 0 ∧ b.transaction = none ∧ b.previousTransaction = none then
        -- not used anymore, and not part of any transaction
        if b.discard then some (s.removeBlock n)
        else some ((s.setBlock n { b with isWriting := false, unused := true }).addUnused n)
      else some (s.setBlock n b)

variable [Zero D]

/-- `get_cached_block()`: the new state and `_allocated`. A block that is not read holds
whatever its buffer held; the callers clear it. -/
def BlockCache.getCachedBlock (s : BlockCache D) (m : Memory) (n : BlockNumber)
    (readBlock : Bool) : Option (BlockCache D × Bool) :=
  if s.maxBlocks ≤ n then none
  else
    match s.hash n with
    | none =>
      let s := s.newBlock m n
      let b := CachedBlock.fresh (if readBlock then s.device n else 0)
      some (s.setBlock n { b with refCount := 1, lastAccessed := m.now }, true)
    | some b =>
      if b.busyReading then none
      else
        let s := if b.unused then s.dropUnused n else s
        some (s.setBlock n
          { b with unused := false, refCount := b.refCount + 1, lastAccessed := m.now }, false)

/-! ## `get_writable_cached_block()` -/

/-- `get_writable_cached_block()` without a transaction (`transactionID == -1`), on the
block just fetched. -/
def BlockCache.makeDirty (s : BlockCache D) (n : BlockNumber) (b : CachedBlock D)
    (cleared : Bool) : BlockCache D :=
  { s.setBlock n
      { b with
        currentData := if cleared then 0 else b.currentData
        discard := false
        isWriting := true
        isDirty := true } with
    numDirtyBlocks := if b.isDirty then s.numDirtyBlocks else s.numDirtyBlocks + 1 }

/-- The transaction of a block that is to be changed in transaction `id`, after the block
was attached to it if it had none. -/
def BlockCache.attach (s : BlockCache D) (n : BlockNumber) (b : CachedBlock D)
    (id : TransactionId) : Option CacheTransaction :=
  match b.transaction with
  | some id' => if id' = id then s.transactionHash id else none
  | none =>
    match s.transactionHash id with
    | none => none
    | some t =>
      if t.isOpen then
        some { t with firstBlock := n :: t.firstBlock, numBlocks := t.numBlocks + 1 }
      else none

/-- Whether the original contents of a block have to be preserved when it is fetched for
writing. -/
def CachedBlock.needsOriginal (b : CachedBlock D) (allocated cleared : Bool) : Bool :=
  !(allocated && cleared) && b.originalData.isNone

/-- `original_data == NULL || previous_transaction != NULL`. -/
def CachedBlock.wasUnchanged (b : CachedBlock D) : Bool :=
  b.originalData.isNone || b.previousTransaction.isSome

/-- How much `sub_num_blocks` grows when a block is fetched for writing. -/
def CacheTransaction.subGrowth (t : CacheTransaction) (b : CachedBlock D) : ℤ :=
  match b.parentData with
  | .current => 1
  | .null => if t.hasSubTransaction && b.wasUnchanged then 1 else 0
  | .copy _ => 0

/-- The block after it was made writable in transaction `id`. -/
def CachedBlock.writable (b : CachedBlock D) (id : TransactionId) (allocated cleared : Bool) :
    CachedBlock D :=
  { b with
    discard := false
    transaction := some id
    originalData :=
      if b.needsOriginal allocated cleared then some b.currentData else b.originalData
    -- remember any previous contents for the parent transaction
    parentData :=
      match b.parentData with
      | .current => .copy b.currentData
      | p => p
    currentData := if cleared then 0 else b.currentData
    isDirty := true }

def BlockCache.getWritableCachedBlock (s : BlockCache D) (m : Memory) (n : BlockNumber)
    (transactionID : Option TransactionId) (cleared : Bool) : Option (BlockCache D) := do
  let (s, allocated) ← s.getCachedBlock m n (!cleared)
  let b ← s.hash n
  -- waits while the block is written back
  if b.busyWriting then none
  else
    match transactionID with
    | none => some (s.makeDirty n b cleared)
    | some id =>
      let t ← s.attach n b id
      let s := if b.needsOriginal allocated cleared then s.allocate m else s
      let s := match b.parentData with
        | .current => s.allocate m
        | _ => s
      some ((s.setBlock n (b.writable id allocated cleared)).setTransaction id
        { t with subNumBlocks := t.subNumBlocks + t.subGrowth b })

end Haiku.Cache
