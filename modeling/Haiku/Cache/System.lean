import Haiku.Cache.Transactions
import Haiku.Lib.Run

/-!
# The block cache as a transition system

`step` runs one call of the public API (or one phase of a writer that has dropped the lock)
on the cache. The calls of any number of threads interleave at this grain.

* The blocks and transactions that the hash iterators deliver are arguments of the calls
  that iterate over them.
* `edit` is a caller that stores into a buffer it got writable.
* `callerOk` is what the callers promise: a transaction function is only called for an open
  transaction, by the one thread that owns it, and only blocks that were fetched for writing
  are edited.
-/

namespace Haiku.Cache

open Lib

inductive Call (D : Type) where
  /-- `block_cache_get()` -/
  | get (m : Memory) (n : BlockNumber)
  /-- `block_cache_put()` -/
  | put (n : BlockNumber)
  /-- `block_cache_get_writable()`, and `block_cache_get_empty()` if `cleared`; no transaction
  is the id -1 of the source -/
  | getWritable (m : Memory) (n : BlockNumber) (id : Option TransactionId) (cleared : Bool)
  /-- `block_cache_make_writable()` -/
  | makeWritable (m : Memory) (n : BlockNumber) (id : Option TransactionId)
  /-- the holder of a writable block changes its contents -/
  | edit (id : Option TransactionId) (n : BlockNumber) (data : D)
  /-- `cache_start_transaction()` -/
  | startTransaction
  /-- `cache_end_transaction()` -/
  | endTransaction (id : TransactionId)
  /-- `cache_abort_transaction()` -/
  | abortTransaction (id : TransactionId)
  /-- `cache_start_sub_transaction()` -/
  | startSubTransaction (id : TransactionId)
  /-- `cache_abort_sub_transaction()` -/
  | abortSubTransaction (id : TransactionId)
  /-- `cache_detach_sub_transaction()` -/
  | detachSubTransaction (id : TransactionId)
  /-- `block_cache_sync()`, over the blocks of the hash table -/
  | sync (blocks : List BlockNumber)
  /-- `block_cache_sync_etc()` -/
  | syncEtc (n : BlockNumber) (numBlocks : ℕ)
  /-- one round of `cache_sync_transaction()`, over the transaction hash -/
  | syncTransaction (id : TransactionId) (transactions : List TransactionId)
  /-- one round of `block_notifier_and_writer()` for this cache -/
  | backgroundWriter (blocks : List BlockNumber) (transactions : List TransactionId)
  /-- `block_cache_discard()` -/
  | discard (n : BlockNumber) (numBlocks : ℕ)
  /-- `RemoveUnusedBlocks()`, from the low memory handler or the background thread -/
  | removeUnusedBlocks (count minSecondsOld now : ℤ)
  /-- a writer writes its next block -/
  | writeBlock (writer : ℕ)
  /-- a writer has written its blocks and takes the lock again -/
  | writeDone (writer : ℕ)
deriving DecidableEq

variable {D : Type}

/-! ## Starting to write -/

/-- The blocks of `ns` that can be written, each once. -/
def BlockCache.writable (s : BlockCache D) (ns : List BlockNumber) : List BlockNumber :=
  (s.select ns CachedBlock.canBeWritten).dedup

/-- The blocks that `BlockWriter::Add(cache_transaction*)` adds for the given transactions:
those of the closed ones none of whose blocks is being written. -/
def BlockCache.transactionBlocks (s : BlockCache D) (ids : List TransactionId) :
    List BlockNumber :=
  ids.flatMap fun id =>
    match s.transactionHash id with
    | none => []
    | some t => if t.isOpen || s.transactionBusy id != 0 then [] else t.blocks

/-- The blocks of a chain whose changes by an earlier transaction are still to be written. -/
def BlockCache.pendingBlocks (s : BlockCache D) (ns : List BlockNumber) : List BlockNumber :=
  s.select ns (·.previousTransaction.isSome)

/-- The second loop of `block_cache_discard()`. -/
def BlockCache.discardLoop : BlockCache D → BlockNumber → ℕ → BlockCache D
  | s, _, 0 => s
  | s, n, numBlocks + 1 =>
    let s := match s.hash n with
      | none => s
      | some b =>
        if b.unused then (s.dropUnused n).removeBlock n
        else s.setBlock n { b with discard := true }
    discardLoop s (n + 1) numBlocks

/-- What the caller of `BlockWriter::Write()` does next. -/
def BlockCache.afterWrite (s : BlockCache D) : AfterWrite → Option (BlockCache D)
  | .nothing => some s
  | .endTransaction id => s.finishEnd id
  | .detachSubTransaction id => s.finishDetach id
  | .discard n numBlocks => some (s.discardLoop n numBlocks)

/-- `BlockWriter::Write()` for the given blocks: without any it returns at once, otherwise it
sorts them and drops the lock. -/
def BlockCache.write (s : BlockCache D) (ns : List BlockNumber) (next : AfterWrite) :
    Option (BlockCache D) :=
  if ns = [] then s.afterWrite next
  else
    let s := s.addAll ns
    some { s with writers := s.writers ++ [⟨ns.mergeSort, [], next⟩] }

def BlockCache.cacheEndTransaction (s : BlockCache D) (id : TransactionId) :
    Option (BlockCache D) :=
  if s.busyWritingCount ≠ 0 then none
  else
    match s.transactionHash id with
    | none => none
    | some t => s.write (s.pendingBlocks t.firstBlock) (.endTransaction id)

/-- `cache_detach_sub_transaction()`. Without a sub-transaction it returns `B_BAD_VALUE` and
changes nothing. -/
def BlockCache.cacheDetachSubTransaction (s : BlockCache D) (id : TransactionId) :
    Option (BlockCache D) :=
  if s.busyWritingCount ≠ 0 then none
  else
    match s.transactionHash id with
    | none => none
    | some t =>
      if !t.hasSubTransaction then some s
      else s.write (s.pendingBlocks t.firstBlock) (.detachSubTransaction id)

/-- `block_cache_discard()`. The first loop counts `numBlocks` down to 0 and
`blockNumber` up to the end of the range; the second one goes on with these values. -/
def BlockCache.blockCacheDiscard (s : BlockCache D) (n : BlockNumber) (numBlocks : ℕ) :
    Option (BlockCache D) :=
  if s.busyWritingCount ≠ 0 then none
  else s.write (s.pendingBlocks (List.range' n numBlocks)) (.discard (n + numBlocks) 0)

/-- One round of `block_notifier_and_writer()`: at most 64 blocks, those that can be written
if the cache is used without transactions, else those of the closed transactions. -/
def BlockCache.blockNotifierAndWriter (s : BlockCache D) (blocks : List BlockNumber)
    (transactions : List TransactionId) : Option (BlockCache D) :=
  let candidates :=
    if s.numDirtyBlocks ≠ 0 then blocks else s.transactionBlocks transactions
  s.write ((s.writable candidates).take 64) .nothing

/-- One round of the loop of `cache_sync_transaction()`. -/
def BlockCache.cacheSyncTransaction (s : BlockCache D) (id : TransactionId)
    (transactions : List TransactionId) : Option (BlockCache D) :=
  if s.busyWritingCount ≠ 0 then none
  else s.write (s.writable (s.transactionBlocks (transactions.filter (· ≤ id)))) .nothing

def BlockCache.writeNext (s : BlockCache D) (i : ℕ) : Option (BlockCache D) :=
  match s.writers[i]? with
  | some ⟨n :: pending, done, next⟩ =>
    match s.hash n with
    | none => none
    | some b =>
      some { s.writeData n b with
        writers := s.writers.set i ⟨pending, done ++ [n], next⟩ }
  | _ => none

/-- A writer that has written all its blocks finishes them, and its caller goes on. -/
def BlockCache.writeDone (s : BlockCache D) (i : ℕ) : Option (BlockCache D) :=
  match s.writers[i]? with
  | some ⟨[], done, next⟩ =>
    (done.foldl BlockCache.blockDone { s with writers := s.writers.eraseIdx i }).afterWrite next
  | _ => none

/-! ## The transition function -/

variable [Zero D]

/-- One call. -/
def step (s : BlockCache D) : Call D → Option (BlockCache D)
  | .get m n => (s.getCachedBlock m n true).map Prod.fst
  | .put n => if s.maxBlocks ≤ n then none else s.putCachedBlock n
  | .getWritable m n id cleared =>
    if s.readOnly then none else s.getWritableCachedBlock m n id cleared
  | .makeWritable m n id =>
    if s.readOnly then none
    else (s.getWritableCachedBlock m n id false).bind (·.putCachedBlock n)
  | .edit _ n d => (s.hash n).map fun b => s.setBlock n { b with currentData := d }
  | .startTransaction => s.cacheStartTransaction
  | .endTransaction id => s.cacheEndTransaction id
  | .abortTransaction id => s.cacheAbortTransaction id
  | .startSubTransaction id => s.cacheStartSubTransaction id
  | .abortSubTransaction id => s.cacheAbortSubTransaction id
  | .detachSubTransaction id => s.cacheDetachSubTransaction id
  | .sync blocks => s.write (s.writable blocks) .nothing
  | .syncEtc n numBlocks =>
    if s.maxBlocks ≤ n then none
    else s.write (s.writable (List.range' n numBlocks)) .nothing
  | .syncTransaction id transactions => s.cacheSyncTransaction id transactions
  | .backgroundWriter blocks transactions => s.blockNotifierAndWriter blocks transactions
  | .discard n numBlocks => s.blockCacheDiscard n numBlocks
  | .removeUnusedBlocks count minSecondsOld now =>
    some (s.removeUnusedBlocks count minSecondsOld now)
  | .writeBlock i => s.writeNext i
  | .writeDone i => s.writeDone i

/-! ## What the callers promise -/

def BlockCache.isOpen (s : BlockCache D) (id : TransactionId) : Bool :=
  (s.transactionHash id).any (·.isOpen)

/-- Whether the thread that owns transaction `id` is inside `cache_end_transaction()` or
`cache_detach_sub_transaction()`. -/
def BlockCache.isClosing (s : BlockCache D) (id : TransactionId) : Bool :=
  s.writers.any fun w => w.next = .endTransaction id || w.next = .detachSubTransaction id

/-- Whether a caller may store into block `n`: a reference to the block is held, and it was
fetched for writing in the current part of the transaction, or without one. -/
def BlockCache.isEditable (s : BlockCache D) (id : Option TransactionId) (n : BlockNumber) :
    Bool :=
  (s.hash n).any fun b =>
    0 < b.refCount &&
      match id with
      | none => b.isWriting
      | some id =>
        b.transaction = some id &&
          match b.parentData with
          | .current => false
          | _ => true

/-- The promises of the callers. The lists that stand for hash iterators enumerate the
tables. -/
def callerOk (s : BlockCache D) : Call D → Prop
  | .getWritable _ _ (some id) _ => s.isClosing id = false
  | .makeWritable _ _ (some id) => s.isClosing id = false
  | .edit id n _ =>
    s.isEditable id n = true ∧ ∀ t, id = some t → s.isClosing t = false
  | .endTransaction id => s.isOpen id = true
  | .abortTransaction id => s.isOpen id = true
  | .startSubTransaction id => s.isOpen id = true
  | .abortSubTransaction id => s.isOpen id = true
  | .detachSubTransaction id => s.isOpen id = true
  | .sync blocks => blocks.Nodup ∧ ∀ n, n ∈ blocks ↔ (s.hash n).isSome
  | .syncTransaction _ ids => ids.Nodup ∧ ∀ id, id ∈ ids ↔ (s.transactionHash id).isSome
  | .backgroundWriter blocks ids =>
    (blocks.Nodup ∧ ∀ n, n ∈ blocks ↔ (s.hash n).isSome)
      ∧ ids.Nodup ∧ ∀ id, id ∈ ids ↔ (s.transactionHash id).isSome
  | _ => True

end Haiku.Cache
