import Haiku.Bfs.DataStream
import Haiku.Lib.Marking

/-!
# Checking an inode

`BlockAllocator::CheckInode()` and `CheckBlockRun()` of
`src/add-ons/kernel/file_systems/bfs/BlockAllocator.cpp` during a check run: the cookie and the
check bitmap exist. The functions return an error, or `none` for `B_OK`.

* `firstMissing` and `firstSet` only choose what is printed, and are left out.
* The check bitmap is read as its bits. A function stands for the memory it lies in, so that what
  lies behind it is something unknown.
-/

namespace Haiku.Bfs

open Haiku.Lib

/-- What a check run changes: the check bitmap, and parts of the `check_cookie`. -/
structure Check where
  /-- `fCheckBitmap` -/
  bitmap : ℕ → Bool
  /-- `BFS_INVALID_BLOCK_RUN` -/
  invalidBlockRun : Bool
  /-- `BFS_MISSING_BLOCKS` -/
  missingBlocks : Bool
  /-- `BFS_BLOCKS_ALREADY_SET` -/
  blocksAlreadySet : Bool
  missing : ℕ
  alreadySet : ℕ
  stack : List BlockRun

/-- `BitmapSize()`; `fNumBlocks` and the product are `uint32`. -/
def Geometry.bitmapSize (g : Geometry) : ℕ :=
  g.blockSize * ((g.numBlocks + g.bitsPerBlock - 1) / g.bitsPerBlock % 2 ^ 32) % 2 ^ 32

/-- `_CheckBitmapIsUsedAt()` -/
def Check.isUsedAt (c : Check) (g : Geometry) (block : ℕ) : Bool :=
  let index := block / 32 % 2 ^ 32
  if index > g.bitmapSize / 4 then false else c.bitmap (index * 32 + block % 32)

/-- `_SetCheckBitmapAt()` -/
def Check.setAt (c : Check) (g : Geometry) (block : ℕ) : Check :=
  let index := block / 32 % 2 ^ 32
  if index > g.bitmapSize / 4 then c
  else { c with bitmap := Function.update c.bitmap (index * 32 + block % 32) true }

/-- What `CheckBlockRun()` does with a block, whose state in the block bitmap is `used`. -/
def Check.visit (c : Check) (g : Geometry) (allocated used : Bool) (block : ℕ) : Check :=
  let c := if used ≠ allocated
    then { c with missingBlocks := true, missing := c.missing + 1 } else c
  if c.isUsedAt g block
  then { c with blocksAlreadySet := true, alreadySet := c.alreadySet + 1 }
  else c.setAt g block

/-- The loop of `CheckBlockRun()` over the bits of a bitmap block. The result is what is left of
the run. -/
def checkRunBits (g : Geometry) (cached : AllocationBlock) (allocated : Bool) (firstBlock : ℕ) :
    (length pos : ℕ) → Check → ℕ × Check
  | 0, _, c => (0, c)
  | length + 1, pos, c =>
    if pos < cached.numBits then
      checkRunBits g cached allocated firstBlock length (pos + 1)
        (c.visit g allocated (cached.isUsed pos) (firstBlock + pos))
    else (length + 1, c)

/-- The loop of `CheckBlockRun()` over the bitmap blocks of a group. -/
def checkRunBlocks (a : BlockAllocator) (allocated : Bool) (group : ℕ) :
    (rounds block pos length : ℕ) → Check → Option StreamError × Check
  | 0, _, _, _, c => (none, c)
  | rounds + 1, block, pos, length, c =>
    if 0 < length then
      let cached := setTo a (a.groups group) block
      -- something very strange has happened...
      if pos ≥ cached.numBits then (some .error, c)
      else
        let (length, c) := checkRunBits a.geometry cached allocated
          (group * a.geometry.bitsPerGroup + block * a.geometry.bitsPerBlock) length pos c
        checkRunBlocks a allocated group rounds (block + 1) 0 length c
    else (none, c)

def checkBlockRun (a : BlockAllocator) (run : BlockRun) (allocated : Bool) (c : Check) :
    Option StreamError × Check :=
  if run.allocationGroup < 0 ∨ run.allocationGroup ≥ a.geometry.numGroups ∨
      run.start > (a.groups run.allocationGroup.toNat).numBits ∨
      run.start + run.length > (a.groups run.allocationGroup.toNat).numBits ∨
      run.length = 0 then
    (none, { c with invalidBlockRun := true })
  else
    let block := run.start / a.geometry.bitsPerBlock
    checkRunBlocks a allocated run.allocationGroup.toNat (a.geometry.blocksPerGroup - block) block
      (run.start % a.geometry.bitsPerBlock) run.length c

/-- The part of an inode that `CheckInode()` looks at. -/
structure CheckedInode where
  blockRun : BlockRun
  attributes : BlockRun
  isSymLink : Bool
  /-- `INODE_LONG_SYMLINK` -/
  longSymLink : Bool
  /-- `strlen(short_symlink)` -/
  shortSymLinkLength : ℕ
  data : DataStream

def shortSymLinkNameLength : ℕ := 144

inductive RunLoop where
  /-- all runs of the array have been looked at, or all of the block up to the index -/
  | next (index : ℕ)
  /-- a run that is zero ends the array -/
  | zero
  | failed (status : StreamError)

/-- A loop over an array of runs, which ends with a run that is zero, or at the end of the
array. -/
def checkRuns (a : BlockAllocator) (runs : ℕ → BlockRun) :
    (rounds index : ℕ) → Check → RunLoop × Check
  | 0, index, c => (.next index, c)
  | rounds + 1, index, c =>
    if (runs index).isZero then (.zero, c)
    else
      match checkBlockRun a (runs index) true c with
      | (some status, c) => (.failed status, c)
      | (none, c) => checkRuns a runs rounds (index + 1) c

def checkIndirect (a : BlockAllocator) (d : Disk) (block : ℤ) :
    (rounds i : ℕ) → Check → Option StreamError × Check
  | 0, _, c => (none, c)
  | rounds + 1, i, c =>
    match d (block + i) with
    | none => (some .ioError, c)
    | some runs =>
      match checkRuns a runs a.geometry.runsPerBlock 0 c with
      | (.failed status, c) => (some status, c)
      | (.zero, c) => (none, c)
      | (.next _, c) => checkIndirect a d block rounds (i + 1) c

/-- The inner loop over the runs of a double indirect array: a `do`-`while` loop that reads its
block once, and goes on until the index is a multiple of `runsPerArray`. -/
def checkArrayRuns (a : BlockAllocator) (runs : ℕ → BlockRun) (runsPerBlock runsPerArray : ℕ) :
    (rounds index : ℕ) → Check → RunLoop × Check
  | 0, index, c => (.next index, c)
  | rounds + 1, index, c =>
    -- are we finished yet?
    if (runs (index % runsPerBlock)).isZero then (.zero, c)
    else
      match checkBlockRun a (runs (index % runsPerBlock)) true c with
      | (some status, c) => (.failed status, c)
      | (none, c) =>
        if (index + 1) % runsPerArray ≠ 0
        then checkArrayRuns a runs runsPerBlock runsPerArray rounds (index + 1) c
        else (.next (index + 1), c)

/-- The loop over the blocks of a double indirect array. Each round makes the index larger. -/
def checkArray (a : BlockAllocator) (d : Disk) (block : ℤ) (runsPerArray maxIndex : ℕ) :
    (rounds index : ℕ) → Check → RunLoop × Check
  | 0, index, c => (.next index, c)
  | rounds + 1, index, c =>
    if index < maxIndex then
      match d (block + (index / a.geometry.runsPerBlock : ℕ)) with
      | none => (.failed .ioError, c)
      | some runs =>
        match checkArrayRuns a runs a.geometry.runsPerBlock runsPerArray runsPerArray index c with
        | (.next index, c) => checkArray a d block runsPerArray maxIndex rounds index c
        | result => result
    else (.next index, c)

/-- The loop over the entries of the double indirect array. -/
def checkDoubleIndirect (a : BlockAllocator) (d : Disk) (data : DataStream) :
    (rounds indirectIndex : ℕ) → Check → Option StreamError × Check
  | 0, _, c => (none, c)
  | rounds + 1, indirectIndex, c =>
    let runsPerBlock := a.geometry.runsPerBlock
    match d (a.geometry.toBlock data.doubleIndirect + (indirectIndex / runsPerBlock : ℕ)) with
    | none => (some .ioError, c)
    | some array =>
      let indirect := array (indirectIndex % runsPerBlock)
      if indirect.isZero then (none, c)
      else
        match checkBlockRun a indirect true c with
        | (some status, c) => (some status, c)
        | (none, c) =>
          let maxIndex := indirect.length * a.geometry.blockSize / 8
          match checkArray a d (a.geometry.toBlock indirect) (data.runsPerArray a.geometry)
            maxIndex maxIndex 0 c with
          | (.failed status, c) => (some status, c)
          | (.zero, c) => (none, c)
          | (.next _, c) => checkDoubleIndirect a d data rounds (indirectIndex + 1) c

/-- Goes on with the next range after one that has been checked. -/
def andThen (result : Option StreamError × Check)
    (f : Check → Option StreamError × Check) : Option StreamError × Check :=
  match result with
  | (some status, c) => (some status, c)
  | (none, c) => f c

def checkDirectRange (a : BlockAllocator) (data : DataStream) (c : Check) :
    Option StreamError × Check :=
  if data.maxDirectRange ≠ 0 then
    match checkRuns a data.direct numDirectBlocks 0 c with
    | (.failed status, c) => (some status, c)
    | (_, c) => (none, c)
  else (none, c)

def checkIndirectRange (a : BlockAllocator) (d : Disk) (data : DataStream) (c : Check) :
    Option StreamError × Check :=
  if data.maxIndirectRange ≠ 0 then
    andThen (checkBlockRun a data.indirect true c) fun c =>
      checkIndirect a d (a.geometry.toBlock data.indirect) data.indirect.length 0 c
  else (none, c)

def checkDoubleIndirectRange (a : BlockAllocator) (d : Disk) (data : DataStream) (c : Check) :
    Option StreamError × Check :=
  if data.maxDoubleIndirectRange ≠ 0 then
    andThen (checkBlockRun a data.doubleIndirect true c) fun c =>
      checkDoubleIndirect a d data (data.runsPerArray a.geometry) 0 c
  else (none, c)

def checkInode (a : BlockAllocator) (d : Disk) (inode : CheckedInode) (c : Check) :
    Option StreamError × Check :=
  andThen (checkBlockRun a inode.blockRun true c) fun c =>
    -- If the inode has an attribute directory, push it on the stack
    let c := if !inode.attributes.isZero then { c with stack := inode.attributes :: c.stack } else c
    if inode.isSymLink ∧ !inode.longSymLink then
      if inode.shortSymLinkLength ≥ shortSymLinkNameLength then (some .badData, c) else (none, c)
    else
      andThen (checkDirectRange a inode.data c) fun c =>
      andThen (checkIndirectRange a d inode.data c) fun c =>
      checkDoubleIndirectRange a d inode.data c

end Haiku.Bfs
