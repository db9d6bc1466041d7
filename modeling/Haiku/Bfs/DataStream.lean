import Haiku.Bfs.AllocateBlocks
import Haiku.Lib.Extents
import Mathlib.Data.Int.Bitwise

/-!
# Data streams

The `data_stream` of an inode, `src/add-ons/kernel/file_systems/bfs/bfs.h`, and what
`Inode::_GrowStream()` and `Inode::_ShrinkStream()` of
`src/add-ons/kernel/file_systems/bfs/Inode.cpp` keep about it.

* The ranges of a stream are not negative.
* A block of the disk is read as an array of block runs. One that cannot be read is `none`.
-/

namespace Haiku.Bfs

open Haiku.Lib

def int32 (x : ℤ) : ℤ := x.bmod (2 ^ 32)

lemma int32_of_lt {n : ℕ} (h : n < 2 ^ 31) : int32 n = n := by
  apply Int.bmod_eq_of_le <;> omega

lemma int32_lt (x : ℤ) : int32 x < 2 ^ 31 := by
  have hlt : int32 x < ((2 ^ 32 : ℕ) + 1) / 2 := Int.bmod_lt (by decide)
  omega

def numDirectBlocks : ℕ := 12

def numArrayBlocks : ℕ := 4

def BlockRun.zero : BlockRun := ⟨0, 0, 0⟩

def BlockRun.isZero (run : BlockRun) : Bool := run = .zero

/-- The part of `struct data_stream` that describes where the blocks are. -/
structure DataStream where
  direct : ℕ → BlockRun
  maxDirectRange : ℕ
  indirect : BlockRun
  maxIndirectRange : ℕ
  doubleIndirect : BlockRun
  maxDoubleIndirectRange : ℕ

/-- The errors of the functions that follow a data stream. -/
inductive StreamError where
  | badData
  | error
  | ioError
  | entryNotFound

/-- The blocks of the disk, as arrays of block runs. -/
abbrev Disk := ℤ → Option (ℕ → BlockRun)

namespace Geometry

variable (g : Geometry)

/-- `runs_per_block()`; a `block_run` has 8 bytes. -/
def runsPerBlock : ℕ := g.blockSize / 8

def toBlock (run : BlockRun) : ℤ := Int.lor (run.allocationGroup * 2 ^ g.groupShift) run.start

/-- `Volume::ValidateBlockRun()`; an invalid run makes the volume read-only as well. -/
def validateBlockRun (run : BlockRun) : Bool :=
  ¬(run.allocationGroup < 0 ∨ run.allocationGroup > g.numGroups ∨ run.start > 2 ^ g.groupShift ∨
    run.length = 0 ∨ run.length + run.start > 2 ^ g.groupShift)

/-- The run lies in one of the groups of the volume. Its length has 16 bits. -/
structure IsRun (run : BlockRun) : Prop where
  nonneg : 0 ≤ run.allocationGroup
  group_lt : run.allocationGroup < g.numGroups
  length_pos : 0 < run.length
  length_lt : run.length < 65536
  end_le : run.start + run.length ≤ g.numBits run.allocationGroup.toNat

def firstBlock (run : BlockRun) : ℕ := run.allocationGroup.toNat * g.bitsPerGroup + run.start

def runBlocks (run : BlockRun) : List ℕ :=
  (List.range run.length).map fun i => g.firstBlock run + i

def runSize (run : BlockRun) : ℕ := run.length * g.blockSize

lemma length_runBlocks (run : BlockRun) : (g.runBlocks run).length = run.length := by
  unfold runBlocks
  rw [List.length_map, List.length_range]

variable {g} {run : BlockRun}

lemma IsRun.end_le_group (h : g.IsRun run) : run.start + run.length ≤ g.bitsPerGroup := by
  have hend := h.end_le
  have hlt : run.allocationGroup.toNat < g.numGroups := by
    have hnonneg := h.nonneg
    have hgroup := h.group_lt
    omega
  exact hend.trans (g.numBits_le hlt)

lemma IsRun.ne_zero (h : g.IsRun run) : run.isZero = false := by
  have hpos := h.length_pos
  apply decide_eq_false
  rintro rfl
  exact absurd hpos (lt_irrefl 0)

lemma IsRun.valid (h : g.IsRun run) : g.validateBlockRun run = true := by
  have hend : run.start + run.length ≤ 2 ^ g.groupShift := h.end_le_group
  have hnonneg := h.nonneg
  have hlt := h.group_lt
  have hpos := h.length_pos
  apply decide_eq_true
  omega

lemma IsRun.toBlock_eq (h : g.IsRun run) : g.toBlock run = g.firstBlock run := by
  have hend : run.start + run.length ≤ 2 ^ g.groupShift := h.end_le_group
  have hpos := h.length_pos
  obtain ⟨group, hgroup⟩ := Int.eq_ofNat_of_zero_le h.nonneg
  unfold toBlock firstBlock bitsPerGroup
  rw [hgroup, Int.toNat_natCast]
  have hor := Nat.two_pow_add_eq_or_of_lt (i := g.groupShift) (b := run.start) (by omega) group
  rw [Nat.mul_comm] at hor
  rw [hor]
  rfl

end Geometry

/-! ## The invariant of a data stream -/

/-- An entry of the array of runs that starts with the block. -/
def Disk.entry (d : Disk) (g : Geometry) (block : ℤ) (i : ℕ) : Option BlockRun :=
  (d (block + (i / g.runsPerBlock : ℕ))).map fun runs => runs (i % g.runsPerBlock)

/-- An array of `n` runs can be read, starts with the given runs, and is zero behind them. -/
def Holds (entry : ℕ → Option BlockRun) (n : ℕ) (runs : List BlockRun) : Prop :=
  runs.length ≤ n ∧ ∀ i < n, entry i = some (runs.getD i .zero)

/-- The runs that a data stream describes, and the arrays behind its double indirect array. -/
structure StreamRuns where
  direct : List BlockRun
  indirect : List BlockRun
  arrays : List BlockRun
  doubleIndirect : List BlockRun

/-- The runs of the data, in the order of the stream. -/
def StreamRuns.all (v : StreamRuns) : List BlockRun := v.direct ++ v.indirect ++ v.doubleIndirect

/-- The runs in which the stream keeps its arrays. -/
def StreamRuns.ofArrays (v : StreamRuns) (data : DataStream) : List BlockRun :=
  (if v.indirect = [] then [] else [data.indirect]) ++
    if v.doubleIndirect = [] then [] else data.doubleIndirect :: v.arrays

/-- The entries of an array of the double indirect range: all arrays have the length of
`double_indirect`. -/
def DataStream.runsPerArray (data : DataStream) (g : Geometry) : ℕ :=
  data.doubleIndirect.length * g.runsPerBlock

/-- The runs of the array with the index `j` of the double indirect range. -/
def StreamRuns.ofArray (v : StreamRuns) (n j : ℕ) : List BlockRun :=
  (v.doubleIndirect.drop (j * n)).take n

/-- The double indirect range: arrays and runs all have the length of `double_indirect`, and all
arrays but the last one are full. -/
structure IsDoubleIndirect (g : Geometry) (d : Disk) (data : DataStream) (v : StreamRuns) :
    Prop where
  length_le : data.doubleIndirect.length ≤ numArrayBlocks
  range : data.maxDoubleIndirectRange = data.maxIndirectRange + extent g.runSize v.doubleIndirect
  arrays : Holds (d.entry g (g.toBlock data.doubleIndirect)) (data.runsPerArray g) v.arrays
  arrays_length : v.arrays.length =
    (v.doubleIndirect.length + data.runsPerArray g - 1) / data.runsPerArray g
  array_length : ∀ run ∈ v.arrays, run.length = data.doubleIndirect.length
  run_length : ∀ run ∈ v.doubleIndirect, run.length = data.doubleIndirect.length
  runs : ∀ j (hj : j < v.arrays.length),
    Holds (d.entry g (g.toBlock v.arrays[j])) (data.runsPerArray g)
      (v.ofArray (data.runsPerArray g) j)

/-- The invariant of a data stream that describes the runs `v`. -/
structure IsStream (g : Geometry) (d : Disk) (data : DataStream) (v : StreamRuns) : Prop where
  isRun : ∀ run ∈ v.all ++ v.ofArrays data, g.IsRun run
  nodup : ((v.all ++ v.ofArrays data).flatMap g.runBlocks).Nodup
  direct : Holds (fun i => some (data.direct i)) numDirectBlocks v.direct
  directRange : data.maxDirectRange = extent g.runSize v.direct
  noIndirect : v.indirect = [] → data.maxIndirectRange = 0 ∧ v.doubleIndirect = []
  indirect : v.indirect ≠ [] →
    Holds (d.entry g (g.toBlock data.indirect)) (data.indirect.length * g.runsPerBlock)
      v.indirect ∧
    data.maxIndirectRange = data.maxDirectRange + extent g.runSize v.indirect
  noDoubleIndirect : v.doubleIndirect = [] → data.maxDoubleIndirectRange = 0 ∧ v.arrays = []
  doubleIndirect : v.doubleIndirect ≠ [] → IsDoubleIndirect g d data v

def DataStream.largestRange (data : DataStream) : ℕ :=
  max data.maxDirectRange (max data.maxIndirectRange data.maxDoubleIndirectRange)

/-! ## Arrays of runs -/

variable {g : Geometry} {d : Disk} {data : DataStream} {v : StreamRuns}

lemma extent_pos {l : List BlockRun} (hne : l ≠ []) (hrun : ∀ run ∈ l, g.IsRun run) :
    0 < extent g.runSize l := by
  obtain ⟨run, hmem⟩ := List.exists_mem_of_ne_nil _ hne
  obtain ⟨l₁, l₂, rfl⟩ := List.append_of_mem hmem
  have hsize : 0 < g.runSize run := Nat.mul_pos (hrun run hmem).length_pos g.blockSize_pos
  rw [extent_append, extent_cons]
  omega

lemma sizes_bounds (hmin : 10 ≤ g.blockShift) (hmax : g.blockShift ≤ 13) :
    g.blockSize ≤ 8192 ∧ 0 < g.runsPerBlock ∧ g.runsPerBlock ≤ 1024 := by
  have hlow : 2 ^ 10 ≤ g.blockSize := Nat.pow_le_pow_right (by decide) hmin
  have hhigh : g.blockSize ≤ 2 ^ 13 := Nat.pow_le_pow_right (by decide) hmax
  unfold Geometry.runsPerBlock
  omega

lemma Disk.entry_block {block : ℤ} {i k : ℕ} (hk : k < g.runsPerBlock) :
    d.entry g block (i * g.runsPerBlock + k) = (d (block + i)).map fun runs => runs k := by
  have hpos : 0 < g.runsPerBlock := by omega
  unfold Disk.entry
  rw [Nat.add_comm, Nat.add_mul_div_right _ _ hpos, Nat.div_eq_of_lt hk, Nat.zero_add,
    Nat.add_mul_mod_self_right, Nat.mod_eq_of_lt hk]

lemma exists_block {block : ℤ} {i : ℕ} (hpos : 0 < g.runsPerBlock) {f : ℕ → BlockRun}
    (h : ∀ k < g.runsPerBlock, d.entry g block (i * g.runsPerBlock + k) = some (f k)) :
    ∃ runs, d (block + i) = some runs ∧ ∀ k < g.runsPerBlock, runs k = f k := by
  have hfirst := h 0 hpos
  rw [Disk.entry_block hpos] at hfirst
  obtain ⟨runs, hruns, -⟩ := Option.map_eq_some_iff.1 hfirst
  refine ⟨runs, hruns, fun k hk => ?_⟩
  have hentry := h k hk
  rw [Disk.entry_block hk, hruns] at hentry
  exact Option.some.inj hentry

lemma IsDoubleIndirect.array_lt (h : IsDoubleIndirect g d data v) (hper : 0 < data.runsPerArray g)
    {k : ℕ} (hk : k < v.doubleIndirect.length) : k / data.runsPerArray g < v.arrays.length := by
  rw [h.arrays_length]
  apply (Nat.le_div_iff_mul_le hper).2
  have hle := Nat.div_mul_le_self k (data.runsPerArray g)
  rw [Nat.succ_mul]
  omega

lemma StreamRuns.ofArray_getD {n k : ℕ} (hn : 0 < n) (hk : k < v.doubleIndirect.length) :
    (v.ofArray n (k / n)).getD (k % n) .zero = v.doubleIndirect[k] := by
  have hdiv := Nat.div_add_mod k n
  rw [Nat.mul_comm] at hdiv
  unfold StreamRuns.ofArray
  rw [List.getD_eq_getElem?_getD, List.getElem?_take_of_lt (Nat.mod_lt k hn), List.getElem?_drop,
    hdiv, List.getElem?_eq_getElem hk]
  rfl

end Haiku.Bfs
