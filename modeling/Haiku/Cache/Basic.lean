import Mathlib.Data.List.Basic
import Mathlib.Algebra.Order.Ring.Int

/-!
# The data of the block cache

The structures of `src/system/kernel/cache/block_cache.cpp`: cached blocks, transactions,
block writers and the cache itself.

* The contents of a block are values of a type `D`; a buffer is replaced as a whole.
* `parent_data` is a pointer that may be null, may alias `current_data`, or may own a buffer
  of its own. The three cases are the constructors of `ParentData`.
* The chain of blocks that starts at `cache_transaction::first_block` and the lists
  `cache_transaction::blocks` and `block_cache::unused_blocks` are lists of block numbers.
* The device behind `fd` and the log of what was written to it belong to the state.
* A `panic()`, and a wait for another thread, is the result `none`: the call is then not a
  step of the system. `FATAL` is `panic` in this file, so a failed allocation, read or write
  is one too.
* Listeners are left out; `notified` records the calls of `notify_transaction_listeners()`.
-/

namespace Haiku.Cache

/-- Block numbers. Negative ones are rejected at every entry point (`off_t`). -/
abbrev BlockNumber := ℕ

/-- Transaction ids, handed out by counting up from 1. -/
abbrev TransactionId := ℕ

/-- Where `cached_block::parent_data` points. -/
inductive ParentData (D : Type) where
  /-- `NULL`: the parent part of the transaction did not change the block. -/
  | null
  /-- The pointer equals `current_data`: changed by the parent part, not yet by the sub. -/
  | current
  /-- A buffer of its own with the parent's version. -/
  | copy (data : D)
deriving DecidableEq

/-- `struct cached_block`, without its hash and list links. -/
structure CachedBlock (D : Type) where
  currentData : D
  originalData : Option D
  parentData : ParentData D
  refCount : ℕ
  lastAccessed : ℤ
  busyReading : Bool
  busyWriting : Bool
  /-- Checked out for writing without transactions, and cannot be written back if set. -/
  isWriting : Bool
  isDirty : Bool
  unused : Bool
  discard : Bool
  transaction : Option TransactionId
  previousTransaction : Option TransactionId

/-- `struct cache_transaction`. Its `busy_writing_count` is kept in the cache. -/
structure CacheTransaction where
  numBlocks : ℤ
  mainNumBlocks : ℤ
  subNumBlocks : ℤ
  /-- The chain of blocks from `first_block` on. -/
  firstBlock : List BlockNumber
  /-- The blocks of a closed transaction that are still to be written. -/
  blocks : List BlockNumber
  isOpen : Bool
  hasSubTransaction : Bool
deriving DecidableEq

/-- The events of `fs_cache.h`; `TRANSACTION_IDLE` only reaches listeners. -/
inductive TransactionEvent where
  | written
  | aborted
  | ended
deriving DecidableEq

/-- What the caller of `BlockWriter::Write()` goes on with when the blocks are written. -/
inductive AfterWrite where
  | nothing
  | endTransaction (id : TransactionId)
  | detachSubTransaction (id : TransactionId)
  | discard (blockNumber : BlockNumber) (numBlocks : ℕ)
deriving DecidableEq

/-- A `BlockWriter` inside `Write()`, which has dropped the lock: the blocks it still has to
write, in on-disk order, and those it has written. -/
structure BlockWriter where
  pending : List BlockNumber
  done : List BlockNumber
  next : AfterWrite

def BlockWriter.blocks (w : BlockWriter) : List BlockNumber := w.pending ++ w.done

/-- `struct block_cache` and the device below it. -/
structure BlockCache (D : Type) where
  device : BlockNumber → D
  maxBlocks : ℕ
  readOnly : Bool
  hash : BlockNumber → Option (CachedBlock D)
  transactionHash : TransactionId → Option CacheTransaction
  /-- `cache_transaction::busy_writing_count`. -/
  transactionBusy : TransactionId → ℤ
  nextTransactionId : TransactionId
  lastTransaction : Option TransactionId
  unusedBlocks : List BlockNumber
  unusedBlockCount : ℤ
  busyWritingCount : ℤ
  numDirtyBlocks : ℕ
  writers : List BlockWriter
  /-- The device writes so far, oldest first. -/
  written : List (BlockNumber × D)
  notified : List (TransactionId × TransactionEvent)

/-- What the memory manager and the clock decide during a call: whether `NewBlock()` reuses
an unused block, whether `Allocate()` has to evict blocks first, and `system_time()` in
seconds. -/
structure Memory where
  reuse : Bool
  shrink : Bool
  now : ℤ
deriving DecidableEq

variable {D : Type}

def CachedBlock.canBeWritten (b : CachedBlock D) : Bool :=
  !b.busyWriting && !b.busyReading
    && (b.previousTransaction.isSome
      || (b.transaction.isNone && b.isDirty && !b.isWriting))

/-- The fields `NewBlock()` sets up, with the given contents. -/
def CachedBlock.fresh (data : D) : CachedBlock D where
  currentData := data
  originalData := none
  parentData := .null
  refCount := 0
  lastAccessed := 0
  busyReading := false
  busyWriting := false
  isWriting := false
  isDirty := false
  unused := false
  discard := false
  transaction := none
  previousTransaction := none

/-- The constructor `cache_transaction::cache_transaction()`. -/
def CacheTransaction.new : CacheTransaction where
  numBlocks := 0
  mainNumBlocks := 0
  subNumBlocks := 0
  firstBlock := []
  blocks := []
  isOpen := true
  hasSubTransaction := false

/-- `block_cache_create()` on a device with the given contents. -/
def BlockCache.create (device : BlockNumber → D) (maxBlocks : ℕ) (readOnly : Bool) :
    BlockCache D where
  device := device
  maxBlocks := maxBlocks
  readOnly := readOnly
  hash := fun _ => none
  transactionHash := fun _ => none
  transactionBusy := fun _ => 0
  nextTransactionId := 1
  lastTransaction := none
  unusedBlocks := []
  unusedBlockCount := 0
  busyWritingCount := 0
  numDirtyBlocks := 0
  writers := []
  written := []
  notified := []

/-! ## Updates of single entries -/

def BlockCache.setBlock (s : BlockCache D) (n : BlockNumber) (b : CachedBlock D) :
    BlockCache D :=
  { s with hash := Function.update s.hash n (some b) }

def BlockCache.setTransaction (s : BlockCache D) (id : TransactionId) (t : CacheTransaction) :
    BlockCache D :=
  { s with transactionHash := Function.update s.transactionHash id (some t) }

def BlockCache.removeBlock (s : BlockCache D) (n : BlockNumber) : BlockCache D :=
  { s with hash := Function.update s.hash n none }

def BlockCache.addUnused (s : BlockCache D) (n : BlockNumber) : BlockCache D :=
  { s with
    unusedBlocks := s.unusedBlocks ++ [n]
    unusedBlockCount := s.unusedBlockCount + 1 }

def BlockCache.dropUnused (s : BlockCache D) (n : BlockNumber) : BlockCache D :=
  { s with
    unusedBlocks := s.unusedBlocks.erase n
    unusedBlockCount := s.unusedBlockCount - 1 }

/-- `notify_transaction_listeners()`. -/
def BlockCache.notify (s : BlockCache D) (id : TransactionId) (e : TransactionEvent) :
    BlockCache D :=
  { s with notified := s.notified ++ [(id, e)] }

/-- Takes a transaction out of the transaction hash and deletes it
(`delete_transaction()`). -/
def BlockCache.deleteTransaction (s : BlockCache D) (id : TransactionId) : BlockCache D :=
  { s with
    transactionHash := Function.update s.transactionHash id none
    lastTransaction := if s.lastTransaction = some id then none else s.lastTransaction }

end Haiku.Cache
