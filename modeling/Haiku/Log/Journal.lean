import Haiku.Lib.Ring
import Mathlib.Data.Finset.Image

/-!
# The log area of a BFS volume

The data of `src/add-ons/kernel/file_systems/bfs/Journal.cpp`: block runs, the run arrays that
head each part of a log entry, and the blocks of the log area. Positions in the log are counted in
blocks from its start.
-/

namespace Haiku.Log

inductive Status where
  | ok
  | error
  | noMemory
  | bufferOverflow
  | readOnlyDevice
  deriving DecidableEq

/-! ## Volumes and block runs -/

/-- What the journal reads of a mounted volume. The last four fields are checked when a volume is
created or mounted (`disk_super_block::IsValid()`, `Volume::Initialize()`). -/
structure Volume where
  blockSize : ℕ
  allocationGroupShift : ℕ
  numBlocks : ℕ
  /-- `Log().Length()` -/
  logSize : ℕ
  blockSize_ge : 1024 ≤ blockSize
  shift_pos : 1 ≤ allocationGroupShift
  shift_le : allocationGroupShift ≤ 16
  logSize_pos : 0 < logSize

-- what the volumes of the examples have to satisfy, whatever the size of their logs
lemma example_blockSize_ge : 1024 ≤ 1024 := le_rfl
lemma example_shift_pos : 1 ≤ 13 := by decide
lemma example_shift_le : 13 ≤ 16 := by decide

structure BlockRun where
  allocationGroup : ℕ
  start : ℕ
  length : ℕ
  deriving DecidableEq

/-- `AllocationGroups()`, as the super block has to have it. -/
def Volume.allocationGroups (v : Volume) : ℕ :=
  (v.numBlocks + 2 ^ v.allocationGroupShift - 1) / 2 ^ v.allocationGroupShift

def Volume.toBlock (v : Volume) (run : BlockRun) : ℕ :=
  run.allocationGroup <<< v.allocationGroupShift ||| run.start

def Volume.toBlockRun (v : Volume) (block : ℕ) : BlockRun where
  allocationGroup := block >>> v.allocationGroupShift
  start := block % 2 ^ v.allocationGroupShift
  length := 1

def Volume.validateBlockRun (v : Volume) (run : BlockRun) : Bool :=
  !(run.allocationGroup > v.allocationGroups || run.start > 2 ^ v.allocationGroupShift ||
    run.length == 0 || run.length + run.start > 2 ^ v.allocationGroupShift)

def Volume.blocksOf (v : Volume) (run : BlockRun) : List ℕ :=
  (List.range run.length).map (v.toBlock run + ·)

/-! ## Run arrays -/

/-- `run_array`; its `count` is the number of runs. -/
structure RunArray where
  maxRuns : ℕ
  runs : List BlockRun
  deriving DecidableEq

def maxRuns (blockSize : ℕ) : ℕ :=
  let maxCount := (blockSize - 8) / 8
  if maxCount < 128 then maxCount else 127

/-- `run_array::_Compare()` -/
def compareRuns (a b : BlockRun) : ℤ :=
  let cmp : ℤ := a.allocationGroup - b.allocationGroup
  if cmp = 0 then (a.start : ℤ) - b.start else cmp

/-- The binary search of `run_array::_FindInsertionIndex()`, over the runs from `min` to before
`bound`; `i` is the index looked at last. The result is `none` when the run is there already. -/
def searchRuns (runs : List BlockRun) (run : BlockRun) : ℕ → ℕ → ℕ → ℕ → Option ℕ
  | 0, _, _, i => some i
  | fuel + 1, min, bound, i =>
    if min < bound then
      let i := (min + (bound - 1)) / 2
      let cmp := compareRuns (runs.getD i run) run
      if cmp < 0 then searchRuns runs run fuel (i + 1) bound i
      else if cmp > 0 then searchRuns runs run fuel min i i
      else none
    else some i

/-- `run_array::_FindInsertionIndex()`, with `none` for -1: the run goes to the end. -/
def RunArray.findInsertionIndex (a : RunArray) (run : BlockRun) : Option ℕ :=
  if a.runs.length ≥ 9 then
    (searchRuns a.runs run a.runs.length 0 a.runs.length 0).map fun i =>
      if compareRuns (a.runs.getD i run) run < 0 then i + 1 else i
  else
    let i := a.runs.findIdx fun r => decide (compareRuns r run > 0)
    if i = a.runs.length then none else some i

def RunArray.insert (a : RunArray) (run : BlockRun) : RunArray :=
  match a.findInsertionIndex run with
  | none => { a with runs := a.runs ++ [run] }
  | some i => { a with runs := a.runs.take i ++ run :: a.runs.drop i }

/-- The blocks whose contents follow the array in the log, in order. -/
def RunArray.blocks (v : Volume) (a : RunArray) : List ℕ := a.runs.flatMap v.blocksOf

/-! ## The arrays of one log entry -/

def containsRun (arrays : List RunArray) (run : BlockRun) : Bool :=
  arrays.any fun a => a.runs.any fun r =>
    run.allocationGroup == r.allocationGroup && decide (run.start ≥ r.start) &&
      decide (run.start + run.length ≤ r.start + r.length)

/-- `RunArrays::_AddRun()`: fails without an array, and when the last one is full. An array is
full one run early, as Be's replay routine wants it. -/
def addRun (arrays : List RunArray) (run : BlockRun) : Option (List RunArray) :=
  match arrays.getLast? with
  | none => none
  | some last =>
    if last.runs.length = last.maxRuns - 1 then none
    else some (arrays.dropLast ++ [last.insert run])

def addArray (v : Volume) (arrays : List RunArray) : List RunArray :=
  arrays ++ [⟨maxRuns v.blockSize, []⟩]

/-- `RunArrays::Insert()` -/
def insertBlock (v : Volume) (arrays : List RunArray) (block : ℕ) : Option (List RunArray) :=
  let run := v.toBlockRun block
  if containsRun arrays run then some arrays
  else
    match addRun arrays run with
    | some arrays => some arrays
    | none => addRun (addArray v arrays) run

/-- The loop of `Journal::_WriteTransactionToLog()` that makes the arrays for all blocks. -/
def runArraysOf (v : Volume) (blocks : List ℕ) : Option (List RunArray) :=
  blocks.foldlM (insertBlock v) []

def countBlocks (arrays : List RunArray) : ℕ := (arrays.map fun a => a.runs.length).sum

def logEntryLength (arrays : List RunArray) : ℕ := countBlocks arrays + arrays.length

/-! ## Blocks of the log -/

variable (D : Type)

/-- A block of the log area: a run array, or a copy of a block of the volume. -/
inductive LogBlock where
  | array (a : RunArray)
  | data (d : D)

/-- How the bytes of a block are read when they were not written as what they are read as, and
`Volume::CheckSuperBlock()`. -/
structure Format where
  decode : D → RunArray
  encode : RunArray → D
  checkSuperBlock : D → Bool

variable {D}

def Format.readArray (f : Format D) : LogBlock D → RunArray
  | .array a => a
  | .data d => f.decode d

def Format.readData (f : Format D) : LogBlock D → D
  | .array a => f.encode a
  | .data d => d

/-!
## Writing the log

`FreeLogBlocks()` of `src/add-ons/kernel/file_systems/bfs/Journal.h`, and
`_TransactionWritten()` and `_WriteTransactionToLog()` of `Journal.cpp`. The log area and the other
blocks of the volume are kept apart: no transaction changes blocks of the log.
-/

open Lib

variable {D : Type}

/-! ## The journal -/

inductive Flags where
  | clean
  | dirty

/-- The fields of `disk_super_block` that the journal maintains. -/
structure SuperBlock where
  logStart : ℕ
  logEnd : ℕ
  flags : Flags

/-- `LogEntry`; the number tells the entries apart. -/
structure LogEntry where
  id : ℕ
  start : ℕ
  length : ℕ
  deriving DecidableEq

/-- What is found on the device after the machine stopped. -/
structure Disk (D : Type) where
  superBlock : SuperBlock
  log : ℕ → LogBlock D

structure Journal (D : Type) where
  superBlock : SuperBlock
  /-- `Volume::LogStart()` -/
  logStart : ℕ
  /-- `Volume::LogEnd()` -/
  logEnd : ℕ
  /-- `fEntries`, in the order of the log -/
  entries : List LogEntry
  disk : Disk D

def Journal.freeLogBlocks (v : Volume) (j : Journal D) : ℕ :=
  if j.logStart ≤ j.logEnd then v.logSize + j.logStart - j.logEnd else j.logStart - j.logEnd

def Journal.writeSuperBlock (j : Journal D) : Journal D :=
  { j with disk := { j.disk with superBlock := j.superBlock } }

def LogEntry.blocks (v : Volume) (e : LogEntry) : Finset ℕ :=
  (Finset.range e.length).image fun i => (e.start + i) % v.logSize

/-! ## A transaction was written back -/

def transactionWritten (v : Volume) (j : Journal D) (e : LogEntry) : Journal D :=
  let entries := j.entries.erase e
  if j.entries.head? = some e then
    let logStart :=
      match entries.head? with
      | some next => next.start % v.logSize
      | none => j.logEnd
    let superBlock : SuperBlock := { j.superBlock with logStart }
    let superBlock : SuperBlock :=
      if superBlock.logStart = superBlock.logEnd then { superBlock with flags := .clean }
      else superBlock
    { ({ j with superBlock, entries }).writeSuperBlock with logStart }
  else { j with entries }

/-- The callback for the entry with the given number, if there is one. -/
def written (v : Volume) (j : Journal D) (id : ℕ) : Option (Journal D) :=
  (j.entries.find? fun e => e.id = id).map (transactionWritten v j)

/-! ## Writing a transaction -/

/-- What the block cache tells about the current transaction. -/
structure Transaction (D : Type) where
  /-- `cache_blocks_in_transaction()` -/
  size : ℕ
  /-- `cache_blocks_in_main_transaction()`, if there is a sub-transaction -/
  mainSize : Option ℕ
  /-- `cache_blocks_in_transaction()` of the transaction a detached sub-transaction becomes -/
  detachedSize : ℕ
  /-- the blocks `cache_next_block_in_transaction()` returns, with or without those of the
  sub-transaction only -/
  blocks : Bool → List ℕ
  /-- the contents `block_cache_get()` returns -/
  get : ℕ → D

/-- `Journal::_TransactionSize()` for the given number of blocks. -/
def transactionSize (v : Volume) (count : ℕ) : ℕ :=
  if count = 0 then 0
  else
    let maxRuns := maxRuns v.blockSize
    count + (count + maxRuns - 1) / maxRuns

/-- Whether `_WriteTransactionToLog()` has to detach the sub-transaction; `none` when the
transaction does not fit into the log at all. -/
def detaches (v : Volume) (t : Transaction D) : Option Bool :=
  if transactionSize v t.size > v.logSize then
    match t.mainSize with
    | some mainSize => if mainSize < v.logSize then some true else none
    | none => none
  else some false

/-- The local variables of the loop that writes one array with its blocks, and the calls to
`writev_pos()` so far. -/
structure Writer (D : Type) where
  logStart : ℕ
  logPosition : ℕ
  wrap : ℕ
  count : ℕ
  vecs : List (LogBlock D)
  writes : List (ℕ × List (LogBlock D))

/-- One round of the inner loop: writes what was collected when the end of the log is reached, and
adds a block. -/
def Writer.add (v : Volume) (w : Writer D) (d : D) : Writer D :=
  let w :=
    if w.count ≥ w.wrap then
      { w with
        writes := w.writes ++ [(w.logStart, w.vecs)]
        logPosition := w.logStart + w.count
        logStart := 0
        wrap := v.logSize
        count := 0
        vecs := [] }
    else w
  { w with vecs := w.vecs ++ [.data d], count := w.count + 1 }

/-- The part of the loop before the blocks of an array are added. -/
def Writer.begin (v : Volume) (w : Writer D) (a : RunArray) : Writer D :=
  { w with wrap := v.logSize - w.logStart, count := 1, vecs := [.array a] }

/-- The part of the loop after all blocks of an array were added. -/
def Writer.finish (v : Volume) (w : Writer D) : Writer D :=
  let w :=
    if w.count > 0 then
      { w with
        logPosition := w.logStart + w.count
        writes := w.writes ++ [(w.logStart, w.vecs)] }
    else w
  { w with logStart := w.logPosition % v.logSize }

def Writer.writeArray (v : Volume) (get : ℕ → D) (w : Writer D) (a : RunArray) : Writer D :=
  (((a.blocks v).map get).foldl (Writer.add v) (w.begin v a)).finish v

/-- All arrays of an entry, the log ending at the given position before. -/
def writeArrays (v : Volume) (get : ℕ → D) (logEnd : ℕ) (arrays : List RunArray) : Writer D :=
  let logStart := logEnd % v.logSize
  arrays.foldl (Writer.writeArray v get) ⟨logStart, logStart, 0, 0, [], []⟩

/-- The journal after `cache_sync_transaction()`, which is called when the entry has more blocks
than are free. Meanwhile the given entries are reported written. -/
def syncedFor (v : Volume) (j : Journal D) (length : ℕ) (ids : List ℕ) : Option (Journal D) :=
  if length > j.freeLogBlocks v then ids.foldlM (written v) j else some j

/-- The last part of `_WriteTransactionToLog()`: the log blocks and the super block are written,
and the entry is added. -/
def appendEntry (v : Volume) (j : Journal D) (id : ℕ) (get : ℕ → D) (arrays : List RunArray) :
    Journal D :=
  let w := writeArrays v get j.logEnd arrays
  let superBlock : SuperBlock := { j.superBlock with flags := .dirty, logEnd := w.logPosition }
  { j with
    superBlock
    logEnd := w.logPosition
    entries := j.entries ++ [⟨id, j.logEnd, logEntryLength arrays⟩]
    disk := ⟨superBlock, applyWrites j.disk.log w.writes⟩ }

/-- The arrays that `_WriteTransactionToLog()` writes to the log; `none` when it does not write
an entry. -/
def loggedArrays (v : Volume) (t : Transaction D) : Option (List RunArray) :=
  (detaches v t).bind fun detached =>
    (runArraysOf v (t.blocks detached)).bind fun arrays =>
      if countBlocks arrays = 0 then none else some arrays

/-- `Journal::_WriteTransactionToLog()`. A new entry gets the given number; `ids` are the entries
reported written in case the cache has to be synced. The result is `none` when there is no space
in the log even then, and the kernel panics. -/
def writeTransactionToLog (v : Volume) (j : Journal D) (id : ℕ) (t : Transaction D)
    (ids : List ℕ) : Option (Journal D × Status) :=
  match detaches v t with
  | none => some (j, .bufferOverflow)
  | some detached =>
    match runArraysOf v (t.blocks detached) with
    | none => some (j, .noMemory)
    | some arrays =>
      if countBlocks arrays = 0 then some (j, .ok)
      else
        (syncedFor v j (logEntryLength arrays) ids).bind fun j =>
          if logEntryLength arrays > j.freeLogBlocks v then none
          else
            some (appendEntry v j id t.get arrays,
              if detached && decide (transactionSize v t.detachedSize > v.logSize) then
                .bufferOverflow
              else .ok)

end Haiku.Log
