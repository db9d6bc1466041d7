import Haiku.Log.Journal
import Haiku.Cache.System

/-!
# Replaying the log

`_CheckRunArray()`, `_ReplayRunArray()` and `ReplayLog()` of
`src/add-ons/kernel/file_systems/bfs/Journal.cpp`. The loop of `ReplayLog()` need not come to an
end; it is given the number of rounds it may take.
-/

namespace Haiku.Log

variable {D : Type}

def checkRunArray (v : Volume) (a : RunArray) : Bool :=
  let maxRuns := maxRuns v.blockSize - 1
  a.maxRuns - 1 = maxRuns && a.runs.length ≤ maxRuns && 0 < a.runs.length &&
    a.runs.all v.validateBlockRun

/-- The first pass of `_ReplayRunArray()` over the blocks of an array, the first of which is found
at the given position of the log. -/
def checkBlocks (v : Volume) (f : Format D) (log : ℕ → LogBlock D) : List ℕ → ℕ → Bool
  | [], _ => true
  | b :: bs, blockNumber =>
    (b ≠ 0 || f.checkSuperBlock (f.readData (log blockNumber))) &&
      checkBlocks v f log bs ((blockNumber + 1) % v.logSize)

/-- The second pass: the blocks are written to their places. -/
def copyBlocks (v : Volume) (f : Format D) (log : ℕ → LogBlock D) : List ℕ → ℕ → List (ℕ × D)
  | [], _ => []
  | b :: bs, blockNumber =>
    (b, f.readData (log blockNumber)) :: copyBlocks v f log bs ((blockNumber + 1) % v.logSize)

/-- `Journal::_ReplayRunArray()`: the blocks it writes and the new value of `_start`, or `none`
when the array is not accepted. -/
def replayRunArray (v : Volume) (f : Format D) (log : ℕ → LogBlock D) (start : ℕ) :
    Option (List (ℕ × D) × ℕ) :=
  let firstBlockNumber := start % v.logSize
  let a := f.readArray (log firstBlockNumber)
  if !checkRunArray v a then none
  else
    let firstBlockNumber := (firstBlockNumber + 1) % v.logSize
    if !checkBlocks v f log (a.blocks v) firstBlockNumber then none
    else
      some (copyBlocks v f log (a.blocks v) firstBlockNumber, start + ((a.blocks v).length + 1))

/-- What `ReplayLog()` returns, all blocks it wrote, and the super block it leaves. -/
structure Replay (D : Type) where
  status : Status
  writes : List (ℕ × D)
  superBlock : SuperBlock

/-- The loop of `ReplayLog()`: its status and the blocks it wrote, `none` when it has not come to
an end. -/
def replayLoop (v : Volume) (f : Format D) (log : ℕ → LogBlock D) (logEnd : ℕ) :
    ℕ → ℕ → Option ℕ → List (ℕ × D) → Option (Status × List (ℕ × D))
  | 0, _, _, _ => none
  | rounds + 1, start, lastStart, writes =>
    if start = logEnd then some (.ok, writes)
    else if lastStart = some start then some (.error, writes)
    else
      match replayRunArray v f log start with
      | none => some (.error, writes)
      | some (blocks, next) =>
        replayLoop v f log logEnd rounds (next % v.logSize) (some start) (writes ++ blocks)

def replayLog (v : Volume) (f : Format D) (disk : Disk D) (readOnly : Bool) (rounds : ℕ) :
    Option (Replay D) :=
  let sb := disk.superBlock
  if sb.logStart = sb.logEnd then some ⟨.ok, [], sb⟩
  else if readOnly then some ⟨.readOnlyDevice, [], sb⟩
  else
    (replayLoop v f disk.log sb.logEnd rounds sb.logStart none []).map fun (status, writes) =>
      if status = .ok then ⟨.ok, writes, { sb with logStart := sb.logEnd, flags := .clean }⟩
      else ⟨status, writes, sb⟩

/-!
## The journal as a transition system

A step is one call of `_WriteTransactionToLog()` or one callback of `_TransactionWritten()`. Beside
the journal, the state keeps what every entry logged, from the first one on.
-/

open Lib

/-- What one entry logged. -/
structure Commit (D : Type) where
  arrays : List RunArray
  get : ℕ → D

/-- The log blocks of a run array and of what follows it. -/
def arrayLayout (v : Volume) (get : ℕ → D) (a : RunArray) : List (LogBlock D) :=
  .array a :: (a.blocks v).map fun b => .data (get b)

def Commit.layout (v : Volume) (c : Commit D) : List (LogBlock D) :=
  c.arrays.flatMap (arrayLayout v c.get)

/-- The blocks of the volume that the entry logged, with their contents. -/
def Commit.logged (v : Volume) (c : Commit D) : List (ℕ × D) :=
  c.arrays.flatMap fun a => (a.blocks v).map fun b => (b, c.get b)

structure System (D : Type) where
  journal : Journal D
  /-- the entry with number `i` is the one at index `i` -/
  commits : List (Commit D)

/-- The blocks of a transaction are blocks of the volume other than the super block, which is not
in the block cache. -/
def Transaction.Valid (v : Volume) (t : Transaction D) : Prop :=
  ∀ main, ∀ b ∈ t.blocks main, 0 < b ∧ b < v.numBlocks

instance (v : Volume) (t : Transaction D) : Decidable (t.Valid v) :=
  inferInstanceAs (Decidable (∀ main, ∀ b ∈ t.blocks main, 0 < b ∧ b < v.numBlocks))

inductive Call (D : Type) where
  /-- `_WriteTransactionToLog()`; the entries reported written when the cache is synced -/
  | write (t : Transaction D) (ids : List ℕ)
  /-- `_TransactionWritten()` for an entry -/
  | written (id : ℕ)

def step (v : Volume) (s : System D) : Call D → Option (System D)
  | .write t ids =>
    if t.Valid v then
      (writeTransactionToLog v s.journal s.commits.length t ids).map fun r =>
        match loggedArrays v t with
        | none => { s with journal := r.1 }
        | some arrays => ⟨r.1, s.commits ++ [⟨arrays, t.get⟩]⟩
    else none
  | .written id => (written v s.journal id).map fun j => { s with journal := j }

/-- A volume after it was initialized or mounted: the log is empty and both positions are the
same. `Volume::Initialize()` sets them to the block number of the log, which may be any number of
times the size of the log. -/
def mounted (position : ℕ) (log : ℕ → LogBlock D) : System D where
  journal :=
    let superBlock := ⟨position, position, .clean⟩
    { superBlock, logStart := position, logEnd := position, entries := [],
      disk := ⟨superBlock, log⟩ }
  commits := []

/-- The oldest entry that was not reported written; all later ones have larger numbers. -/
def System.oldest (s : System D) : ℕ :=
  (s.journal.entries.head?.map LogEntry.id).getD s.commits.length

/-- The entries that have to be in the log: those from the oldest unfinished one on. -/
def System.pending (s : System D) : List (Commit D) := s.commits.drop s.oldest

end Haiku.Log

/-!
## The transaction as the block cache tells it

What `_WriteTransactionToLog()` asks the block cache for: the functions of `block_cache.cpp` that
report the size and the blocks of a transaction, and the contents that `block_cache_get()` returns.
-/

namespace Haiku.Cache

variable {D : Type}

def BlockCache.cacheBlocksInTransaction (s : BlockCache D) (id : TransactionId) : ℤ :=
  (s.transactionHash id).elim (-1) (·.numBlocks)

def BlockCache.cacheBlocksInMainTransaction (s : BlockCache D) (id : TransactionId) : ℤ :=
  (s.transactionHash id).elim (-1) fun t =>
    if t.hasSubTransaction then t.mainNumBlocks else t.numBlocks

def BlockCache.cacheBlocksInSubTransaction (s : BlockCache D) (id : TransactionId) : ℤ :=
  (s.transactionHash id).elim (-1) (·.subNumBlocks)

/-- Whether `cache_next_block_in_transaction()` skips a block. -/
def CachedBlock.skipped (hasSubTransaction mainOnly : Bool) (b : CachedBlock D) : Bool :=
  if hasSubTransaction then
    if mainOnly then
      match b.parentData with
      | .null => true
      | _ => false
    else b.discard
  else false

/-- `cache_next_block_in_transaction()`. The cookie is the block returned last; here it is the part
of the chain behind that block. -/
def BlockCache.cacheNextBlockInTransaction (s : BlockCache D) (id : TransactionId)
    (mainOnly : Bool) (cookie : Option (List BlockNumber)) :
    Option (BlockNumber × List BlockNumber) :=
  match s.transactionHash id with
  | none => none
  | some t =>
    if !t.isOpen then none
    else
      let rest := cookie.getD t.firstBlock
      match rest.dropWhile fun n => (s.hash n).any (·.skipped t.hasSubTransaction mainOnly) with
      | [] => none
      | n :: rest => some (n, rest)

/-- The blocks that a loop over `cache_next_block_in_transaction()` gets, in at most the given
number of rounds. -/
def BlockCache.nextBlocks (s : BlockCache D) (id : TransactionId) (mainOnly : Bool) :
    ℕ → Option (List BlockNumber) → List BlockNumber
  | 0, _ => []
  | rounds + 1, cookie =>
    match s.cacheNextBlockInTransaction id mainOnly cookie with
    | none => []
    | some (n, rest) => n :: s.nextBlocks id mainOnly rounds (some rest)

end Haiku.Cache

namespace Haiku.Log

open Cache

variable {D : Type}

/-- The current transaction, for `Journal::fTransactionID` and `Journal::fHasSubtransaction`. -/
def cachedTransaction (s : BlockCache D) (id : TransactionId) (hasSubtransaction : Bool) :
    Transaction D where
  size := (s.cacheBlocksInTransaction id).toNat
  mainSize :=
    if hasSubtransaction then some (s.cacheBlocksInMainTransaction id).toNat else none
  detachedSize := (s.cacheBlocksInSubTransaction id).toNat
  blocks := fun mainOnly =>
    s.nextBlocks id mainOnly ((s.transactionHash id).elim 0 (·.firstBlock.length)) none
  -- `block_cache_get()` returns the current contents, in a sub-transaction, too
  get := fun n => (s.hash n).elim (s.device n) (·.currentData)

end Haiku.Log
