import Haiku.Cache.Blocks

/-!
# The transaction functions

The public transaction API of `block_cache.cpp`. All of these functions take the
`TransactionLocker`: they wait until no block is being written (`busyWritingCount = 0`).

Each of the loops over the chain of a transaction's blocks reads and writes the block at hand
only, so the model applies the loop's body to all blocks of the chain at once. A body is a
function on `CachedBlock`; `none` stands for a block that `DiscardBlock()` removed.

`cache_end_transaction()` and `cache_detach_sub_transaction()` first write back what earlier
transactions left to be written. They drop the lock for it; the rest of each function is
`finishEnd` and `finishDetach`, which `BlockWriter.next` refers to.
-/

namespace Haiku.Cache

variable {D : Type}

/-- Applies the body of a loop to the blocks of a chain. -/
def BlockCache.mapBlocks (s : BlockCache D) (ns : List BlockNumber)
    (body : CachedBlock D → Option (CachedBlock D)) : BlockCache D :=
  { s with hash := fun n => if n ∈ ns then (s.hash n).bind body else s.hash n }

def BlockCache.select (s : BlockCache D) (ns : List BlockNumber)
    (test : CachedBlock D → Bool) : List BlockNumber :=
  ns.filter fun n => (s.hash n).any test

/-- `cache_start_transaction()`. The new transaction's id is the old `nextTransactionId`. -/
def BlockCache.cacheStartTransaction (s : BlockCache D) : Option (BlockCache D) :=
  if s.busyWritingCount ≠ 0 then none
  else if (s.lastTransaction.bind s.transactionHash).any (·.isOpen) then none
  else
    let id := s.nextTransactionId
    some { s.setTransaction id .new with
      nextTransactionId := id + 1
      lastTransaction := some id
      transactionBusy := Function.update s.transactionBusy id 0 }

/-! ## `cache_end_transaction()` -/

/-- The body of the loop of `cache_end_transaction()`. -/
def CachedBlock.ended (id : TransactionId) (hasSubTransaction : Bool) (b : CachedBlock D) :
    Option (CachedBlock D) :=
  if b.discard then none
  else some { b with
    originalData := none
    parentData := if hasSubTransaction then .null else b.parentData
    previousTransaction := some id
    transaction := none }

/-- `cache_end_transaction()` after the pending changes have been written back. -/
def BlockCache.finishEnd (s : BlockCache D) (id : TransactionId) : Option (BlockCache D) :=
  match s.transactionHash id with
  | none => none
  | some t =>
    let kept := s.select t.firstBlock (!·.discard)
    let discarded := s.select t.firstBlock (·.discard)
    some (((s.notify id .ended).mapBlocks t.firstBlock
        (CachedBlock.ended id t.hasSubTransaction)).setTransaction id
      { t with
        blocks := t.blocks ++ kept
        numBlocks := t.numBlocks - discarded.length
        isOpen := false })

/-! ## `cache_abort_transaction()` -/

/-- The body of the loop of `cache_abort_transaction()`. -/
def CachedBlock.aborted (hasSubTransaction : Bool) (b : CachedBlock D) :
    Option (CachedBlock D) :=
  some { b with
    currentData := b.originalData.getD b.currentData
    originalData := none
    parentData := if hasSubTransaction then .null else b.parentData
    transaction := none
    discard := false }

def BlockCache.cacheAbortTransaction (s : BlockCache D) (id : TransactionId) :
    Option (BlockCache D) :=
  if s.busyWritingCount ≠ 0 then none
  else
    match s.transactionHash id with
    | none => none
    | some t =>
      some (((s.notify id .aborted).mapBlocks t.firstBlock
        (CachedBlock.aborted t.hasSubTransaction)).deleteTransaction id)

/-! ## `cache_detach_sub_transaction()` -/

/-- The body of the loop of `cache_detach_sub_transaction()`, for the closed transaction
`id` and the new transaction `newId`. -/
def CachedBlock.detached (id newId : TransactionId) (b : CachedBlock D) :
    Option (CachedBlock D) :=
  if b.discard then none
  else
    match b.parentData with
    | .null =>
      -- moved over to the new transaction; `original_data` is set to `parent_data`
      some { b with originalData := none, transaction := some newId }
    | .copy d =>
      some { b with
        originalData := some d
        parentData := .null
        transaction := some newId
        previousTransaction := some id }
    | .current =>
      some { b with
        originalData := none
        parentData := .null
        transaction := none
        previousTransaction := some id }

/-- Whether a block is moved over to the new transaction. -/
def CachedBlock.movesOver (b : CachedBlock D) : Bool :=
  match b.parentData with
  | .current => false
  | _ => !b.discard

/-- Whether a block goes to the list of the closed transaction. -/
def CachedBlock.changedByParent (b : CachedBlock D) : Bool :=
  match b.parentData with
  | .null => false
  | _ => !b.discard

/-- `cache_detach_sub_transaction()` after the pending changes have been written back. The
new transaction's id is the old `nextTransactionId`. -/
def BlockCache.finishDetach (s : BlockCache D) (id : TransactionId) : Option (BlockCache D) :=
  match s.transactionHash id with
  | none => none
  | some t =>
    let newId := s.nextTransactionId
    let main := t.mainNumBlocks - (s.select t.firstBlock (·.discard)).length
    let newTransaction :=
      { CacheTransaction.new with
        firstBlock := s.select t.firstBlock CachedBlock.movesOver
        numBlocks := t.subNumBlocks }
    let closed :=
      { t with
        blocks := t.blocks ++ s.select t.firstBlock CachedBlock.changedByParent
        isOpen := false
        hasSubTransaction := false
        mainNumBlocks := main
        numBlocks := main
        subNumBlocks := 0 }
    some { (((s.notify id .ended).mapBlocks t.firstBlock
          (CachedBlock.detached id newId)).setTransaction id closed).setTransaction newId
          newTransaction with
      nextTransactionId := newId + 1
      lastTransaction := some newId
      transactionBusy := Function.update s.transactionBusy newId 0 }

/-! ## Sub-transactions -/

/-- The body of the loop of `cache_abort_sub_transaction()`. -/
def CachedBlock.subAborted (b : CachedBlock D) : Option (CachedBlock D) :=
  some { b with
    currentData :=
      match b.parentData with
      | .null => b.originalData.getD b.currentData
      | .copy d => d
      | .current => b.currentData
    parentData := .null
    discard := false }

/-- `cache_abort_sub_transaction()`. Without a sub-transaction it returns `B_BAD_VALUE` and
changes nothing. -/
def BlockCache.cacheAbortSubTransaction (s : BlockCache D) (id : TransactionId) :
    Option (BlockCache D) :=
  if s.busyWritingCount ≠ 0 then none
  else
    match s.transactionHash id with
    | none => none
    | some t =>
      if !t.hasSubTransaction then some s
      else
        some (((s.notify id .aborted).mapBlocks t.firstBlock
            CachedBlock.subAborted).setTransaction id
          { t with hasSubTransaction := false, subNumBlocks := 0 })

/-- The body of the loop of `cache_start_sub_transaction()`. -/
def CachedBlock.subStarted (b : CachedBlock D) : Option (CachedBlock D) :=
  if b.discard then none else some { b with parentData := .current }

def BlockCache.cacheStartSubTransaction (s : BlockCache D) (id : TransactionId) :
    Option (BlockCache D) :=
  if s.busyWritingCount ≠ 0 then none
  else
    match s.transactionHash id with
    | none => none
    | some t =>
      let kept := s.select t.firstBlock (!·.discard)
      let num := t.numBlocks - (s.select t.firstBlock (·.discard)).length
      some (((s.notify id .ended).mapBlocks t.firstBlock
          CachedBlock.subStarted).setTransaction id
        { t with
          firstBlock := kept
          numBlocks := num
          hasSubTransaction := true
          mainNumBlocks := num
          subNumBlocks := 0 })

end Haiku.Cache
