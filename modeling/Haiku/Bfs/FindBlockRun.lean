import Haiku.Bfs.SampleStream
import Mathlib.Tactic.Linarith

/-!
# Finding the block run of a position

`Inode::FindBlockRun()` of `src/add-ons/kernel/file_systems/bfs/Inode.cpp`, with
`get_double_indirect_sizes()` of `src/add-ons/kernel/file_systems/bfs/Utility.h`, and what it finds
in a stream: the seams between the three ranges, and the two levels of arrays of the last one.
-/

namespace Haiku.Bfs

open Haiku.Lib

/-- The results of `get_double_indirect_sizes()`, which are `int32`. -/
structure DoubleIndirectSizes where
  runsPerBlock : ℤ
  directSize : ℤ
  indirectSize : ℤ

def getDoubleIndirectSizes (baseLength blockSize : ℕ) : DoubleIndirectSizes :=
  let runsPerBlock := int32 (blockSize / 8 : ℕ)
  let directSize := int32 (baseLength * blockSize : ℕ)
  { runsPerBlock := runsPerBlock
    directSize := directSize
    indirectSize := int32 (baseLength * directSize * runsPerBlock) }

/-- The end of `FindBlockRun()`: the run is only returned if it is valid. -/
def Geometry.validated (g : Geometry) (run : BlockRun) (offset : ℤ) :
    Except StreamError (BlockRun × ℤ) :=
  if g.validateBlockRun run then .ok (run, offset) else .error .badData

/-- The search through an array of runs, from `current` on. The result is a run and its offset, or
the end of the last run that has been looked at. -/
def searchRuns (g : Geometry) (runs : ℕ → BlockRun) (pos : ℕ) :
    (rounds current runBlockEnd : ℕ) → (BlockRun × ℕ) ⊕ ℕ
  | 0, _, runBlockEnd => .inr runBlockEnd
  | rounds + 1, current, runBlockEnd =>
    if (runs current).isZero then .inr runBlockEnd
    else
      let runBlockEnd := runBlockEnd + (runs current).length * g.blockSize
      if runBlockEnd > pos
      then .inl (runs current, runBlockEnd - (runs current).length * g.blockSize)
      else searchRuns g runs pos rounds (current + 1) runBlockEnd

def findDirect (g : Geometry) (data : DataStream) (pos : ℕ) : Except StreamError (BlockRun × ℤ) :=
  match searchRuns g data.direct pos numDirectBlocks 0 0 with
  | .inl (run, offset) => g.validated run offset
  | .inr _ => .error .entryNotFound

def searchBlocks (g : Geometry) (d : Disk) (block : ℤ) (pos : ℕ) :
    (rounds i runBlockEnd : ℕ) → Except StreamError (BlockRun × ℤ)
  | 0, _, _ => .error .error
  | rounds + 1, i, runBlockEnd =>
    match d (block + i) with
    | none => .error .ioError
    | some indirect =>
      match searchRuns g indirect pos g.runsPerBlock 0 runBlockEnd with
      | .inl (run, offset) => g.validated run offset
      | .inr runBlockEnd => searchBlocks g d block pos rounds (i + 1) runBlockEnd

def findIndirect (g : Geometry) (d : Disk) (data : DataStream) (pos : ℕ) :
    Except StreamError (BlockRun × ℤ) :=
  searchBlocks g d (g.toBlock data.indirect) pos data.indirect.length 0 data.maxDirectRange

/-- The access to double indirect blocks. The products are `int32`, only the sum is an `off_t`. -/
def findDoubleIndirect (g : Geometry) (d : Disk) (data : DataStream) (pos : ℕ) :
    Except StreamError (BlockRun × ℤ) :=
  let sizes := getDoubleIndirectSizes data.doubleIndirect.length g.blockSize
  let start : ℤ := pos - data.maxIndirectRange
  let index := int32 (start.tdiv sizes.indirectSize)
  match d (g.toBlock data.doubleIndirect + index.tdiv sizes.runsPerBlock) with
  | none => .error .error
  | some indirect =>
    let current := int32 ((start.tmod sizes.indirectSize).tdiv sizes.directSize)
    match d (g.toBlock (indirect (index.tmod sizes.runsPerBlock).toNat) +
        current.tdiv sizes.runsPerBlock) with
    | none => .error .error
    | some indirect =>
      let run := indirect (current.tmod sizes.runsPerBlock).toNat
      if run.length ≠ data.doubleIndirect.length then .error .badData
      else
        g.validated run (data.maxIndirectRange + int32 (index * sizes.indirectSize) +
          int32 (current * sizes.directSize))

def findBlockRun (g : Geometry) (d : Disk) (data : DataStream) (pos : ℕ) :
    Except StreamError (BlockRun × ℤ) :=
  if data.maxIndirectRange > 0 ∧ pos ≥ data.maxDirectRange then
    if data.maxDoubleIndirectRange > 0 ∧ pos ≥ data.maxIndirectRange
    then findDoubleIndirect g d data pos
    else findIndirect g d data pos
  else findDirect g data pos

/-! ## The linear searches -/

variable {g : Geometry} {d : Disk} {data : DataStream} {v : StreamRuns}
  {l : List BlockRun} {run : BlockRun} {pos offset : ℕ}

lemma searchRuns_spec (runs : ℕ → BlockRun) (hrun : ∀ run ∈ l, g.IsRun run) (pos rounds : ℕ) :
    ∀ current runBlockEnd, l.length ≤ rounds →
      (∀ i < rounds, runs (current + i) = l.getD i .zero) →
      (∀ run offset, Locates g.runSize l pos run offset →
        searchRuns g runs (runBlockEnd + pos) rounds current runBlockEnd =
          .inl (run, runBlockEnd + offset)) ∧
      (extent g.runSize l ≤ pos →
        searchRuns g runs (runBlockEnd + pos) rounds current runBlockEnd =
          .inr (runBlockEnd + extent g.runSize l)) := by
  induction l generalizing pos rounds with
  | nil =>
    intro current runBlockEnd _ hruns
    refine ⟨fun run offset h => absurd h.lt (Nat.not_lt_zero _), fun _ => ?_⟩
    cases rounds with
    | zero => rfl
    | succ rounds =>
      have hzero : runs current = .zero := hruns 0 (Nat.succ_pos _)
      unfold searchRuns
      rw [hzero, if_pos (by decide)]
      rfl
  | cons x l ih =>
    intro current runBlockEnd hle hruns
    rw [List.length_cons] at hle
    obtain ⟨rounds, rfl⟩ : ∃ k, rounds = k + 1 := ⟨rounds - 1, by omega⟩
    have hx : runs current = x := hruns 0 (Nat.succ_pos _)
    have hne := (hrun x List.mem_cons_self).ne_zero
    have hrest : ∀ i < rounds, runs (current + 1 + i) = l.getD i .zero := by
      intro i hi
      have hnext := hruns (i + 1) (by omega)
      rw [List.getD_cons_succ] at hnext
      rw [← hnext]
      congr 1
      omega
    unfold searchRuns
    rw [hx, if_neg (by rw [hne]; exact Bool.false_ne_true)]
    dsimp only
    have hsize : x.length * g.blockSize = g.runSize x := rfl
    rw [hsize]
    by_cases hpos : pos < g.runSize x
    · -- The position lies in the first run.
      rw [if_pos (by omega)]
      refine ⟨fun run offset h => ?_, fun hext => ?_⟩
      · obtain ⟨hhead, hoffset⟩ := h.unique (locates_head hpos)
        rw [hhead, hoffset, Nat.add_sub_cancel, Nat.add_zero]
      · rw [extent_cons] at hext
        omega
    · rw [if_neg (by omega)]
      obtain ⟨hin, hout⟩ := ih (fun run hmem => hrun run (List.mem_cons_of_mem x hmem))
        (pos - g.runSize x) rounds (current + 1) (runBlockEnd + g.runSize x) (by omega) hrest
      have hsum : runBlockEnd + g.runSize x + (pos - g.runSize x) = runBlockEnd + pos := by omega
      rw [hsum] at hin hout
      refine ⟨fun run offset h => ?_, fun hext => ?_⟩
      · have hlt := h.lt
        rw [extent_cons] at hlt
        have hrestlt : pos - g.runSize x < extent g.runSize l := by omega
        obtain ⟨y, o, hy⟩ := exists_locates hrestlt
        have hcons := hy.cons x
        rw [Nat.add_sub_cancel' (Nat.le_of_not_lt hpos)] at hcons
        obtain ⟨hyrun, hyoffset⟩ := h.unique hcons
        rw [hin y o hy, hyrun, hyoffset, Nat.add_assoc]
      · rw [extent_cons] at hext ⊢
        rw [hout (by omega), Nat.add_assoc]

lemma findDirect_spec (h : Holds (fun i => some (data.direct i)) numDirectBlocks v.direct)
    (hrun : ∀ run ∈ v.direct, g.IsRun run) (hloc : Locates g.runSize v.direct pos run offset) :
    findDirect g data pos = .ok (run, (offset : ℤ)) := by
  have hfound := (searchRuns_spec data.direct hrun pos numDirectBlocks 0 0 h.1
    fun i hi => by
      rw [Nat.zero_add]
      exact Option.some.inj (h.2 i hi)).1 run offset hloc
  rw [Nat.zero_add, Nat.zero_add] at hfound
  unfold findDirect
  rw [hfound]
  exact if_pos (hrun run hloc.mem).valid

lemma searchBlocks_spec {block : ℤ} (hpos : 0 < g.runsPerBlock) (rounds : ℕ) :
    ∀ (l : List BlockRun) (pos i runBlockEnd run offset), (∀ run ∈ l, g.IsRun run) →
      l.length ≤ rounds * g.runsPerBlock →
      (∀ k < rounds * g.runsPerBlock,
        d.entry g block (i * g.runsPerBlock + k) = some (l.getD k .zero)) →
      Locates g.runSize l pos run offset →
      searchBlocks g d block (runBlockEnd + pos) rounds i runBlockEnd =
        .ok (run, ((runBlockEnd + offset : ℕ) : ℤ)) := by
  induction rounds with
  | zero =>
    intro l pos i runBlockEnd run offset _ hle _ hloc
    rw [Nat.zero_mul, Nat.le_zero, List.length_eq_zero_iff] at hle
    rw [hle] at hloc
    exact absurd hloc.lt (Nat.not_lt_zero _)
  | succ rounds ih =>
    intro l pos i runBlockEnd run offset hrun hle hentry hloc
    rw [Nat.succ_mul] at hle hentry
    obtain ⟨runs, hblock, hruns⟩ := exists_block (f := fun k => l.getD k .zero) hpos
      fun k hk => hentry k (by omega)
    unfold searchBlocks
    rw [hblock]
    dsimp only
    -- The block holds the first runs of the list, the blocks behind it hold the rest.
    have hfirst : ∀ r ∈ l.take g.runsPerBlock, g.IsRun r :=
      fun r hr => hrun r (List.mem_of_mem_take hr)
    obtain ⟨hin, hout⟩ := searchRuns_spec runs hfirst pos g.runsPerBlock 0
      runBlockEnd (List.length_take_le _ _) fun k hk => by
        rw [Nat.zero_add, hruns k hk, List.getD_eq_getElem?_getD, List.getD_eq_getElem?_getD,
          List.getElem?_take_of_lt hk]
    have hsplit := List.take_append_drop g.runsPerBlock l
    by_cases hlt : pos < extent g.runSize (l.take g.runsPerBlock)
    · obtain ⟨x, o, hx⟩ := exists_locates hlt
      rw [hin x o hx]
      have happ := hx.append_right (l.drop g.runsPerBlock)
      rw [hsplit] at happ
      obtain ⟨hxrun, hxoffset⟩ := hloc.unique happ
      rw [hxrun, hxoffset]
      exact if_pos (hfirst x hx.mem).valid
    · rw [hout (Nat.le_of_not_lt hlt)]
      dsimp only
      have htotal := hloc.lt
      rw [← hsplit, extent_append] at htotal
      have hrestlt : pos - extent g.runSize (l.take g.runsPerBlock) <
          extent g.runSize (l.drop g.runsPerBlock) := by omega
      obtain ⟨x, o, hx⟩ := exists_locates hrestlt
      have happ := hx.append_left (l.take g.runsPerBlock)
      rw [hsplit, Nat.add_sub_cancel' (Nat.le_of_not_lt hlt)] at happ
      obtain ⟨hxrun, hxoffset⟩ := hloc.unique happ
      have hrest := ih (l.drop g.runsPerBlock) _ (i + 1)
        (runBlockEnd + extent g.runSize (l.take g.runsPerBlock)) x o
        (fun r hr => hrun r (List.mem_of_mem_drop hr)) (by rw [List.length_drop]; omega)
        (fun k hk => ?_) hx
      · have hsum : runBlockEnd + extent g.runSize (l.take g.runsPerBlock) +
            (pos - extent g.runSize (l.take g.runsPerBlock)) = runBlockEnd + pos := by omega
        rw [hsum] at hrest
        rw [hrest, hxrun, hxoffset, Nat.add_assoc]
      · have hnext := hentry (g.runsPerBlock + k) (by omega)
        rw [← Nat.add_assoc, ← Nat.succ_mul] at hnext
        rw [hnext, List.getD_eq_getElem?_getD, List.getD_eq_getElem?_getD, List.getElem?_drop]

lemma findIndirect_spec (hpos : 0 < g.runsPerBlock)
    (h : Holds (d.entry g (g.toBlock data.indirect)) (data.indirect.length * g.runsPerBlock)
      v.indirect)
    (hrun : ∀ run ∈ v.indirect, g.IsRun run) (hloc : Locates g.runSize v.indirect pos run offset) :
    findIndirect g d data (data.maxDirectRange + pos) =
      .ok (run, ((data.maxDirectRange + offset : ℕ) : ℤ)) := by
  apply searchBlocks_spec hpos data.indirect.length v.indirect pos 0 _ run offset hrun h.1 _ hloc
  intro k hk
  rw [Nat.zero_mul, Nat.zero_add]
  exact h.2 k hk

/-!
## Every position of a stream is found

`Inode::FindBlockRun()` returns the run a position lies in, as long as the `int32` product of the
array's index and size does not overflow.
-/

/-- The bytes that an array of the double indirect range stands for. -/
def DataStream.indirectSize (data : DataStream) (g : Geometry) : ℕ :=
  data.doubleIndirect.length * g.blockSize * data.runsPerArray g

section

variable (hmin : 10 ≤ g.blockShift) (hmax : g.blockShift ≤ 13)
include hmin hmax

lemma runsPerArray_le
    (hlength : data.doubleIndirect.length ≤ numArrayBlocks) : data.runsPerArray g ≤ 4 * 1024 :=
  Nat.mul_le_mul hlength (sizes_bounds hmin hmax).2.2

lemma indirectSize_le
    (hlength : data.doubleIndirect.length ≤ numArrayBlocks) :
    data.indirectSize g ≤ 4 * 8192 * (4 * 1024) := by
  have hsize := (sizes_bounds hmin hmax).1
  exact Nat.mul_le_mul (Nat.mul_le_mul hlength hsize) (runsPerArray_le hmin hmax hlength)

lemma getDoubleIndirectSizes_eq
    (hlength : data.doubleIndirect.length ≤ numArrayBlocks) :
    getDoubleIndirectSizes data.doubleIndirect.length g.blockSize =
      { runsPerBlock := (g.runsPerBlock : ℕ)
        directSize := (data.doubleIndirect.length * g.blockSize : ℕ)
        indirectSize := (data.indirectSize g : ℕ) } := by
  obtain ⟨hsize, -, hruns⟩ := sizes_bounds hmin hmax
  have hdirect : data.doubleIndirect.length * g.blockSize ≤ 4 * 8192 :=
    Nat.mul_le_mul hlength hsize
  have hindirect := indirectSize_le hmin hmax hlength
  unfold getDoubleIndirectSizes
  dsimp only
  have hblock : int32 ((g.blockSize / 8 : ℕ) : ℤ) = (g.runsPerBlock : ℕ) :=
    int32_of_lt (by change g.runsPerBlock < _; omega)
  have hproduct : data.doubleIndirect.length * (data.doubleIndirect.length * g.blockSize) *
      g.runsPerBlock = data.indirectSize g := by
    unfold DataStream.indirectSize DataStream.runsPerArray
    ring
  rw [hblock, int32_of_lt (by omega), ← Nat.cast_mul, ← Nat.cast_mul, hproduct,
    int32_of_lt (by omega)]

lemma findDoubleIndirect_spec
    (h : IsDoubleIndirect g d data v) (hpositive : 0 < data.doubleIndirect.length)
    (hrun : ∀ run ∈ v.doubleIndirect, g.IsRun run)
    (hk : pos / (data.doubleIndirect.length * g.blockSize) < v.doubleIndirect.length) :
    findDoubleIndirect g d data (data.maxIndirectRange + pos) =
      .ok (v.doubleIndirect[pos / (data.doubleIndirect.length * g.blockSize)],
        data.maxIndirectRange +
          int32 (pos / data.indirectSize g * data.indirectSize g : ℕ) +
          (pos % data.indirectSize g / (data.doubleIndirect.length * g.blockSize) *
            (data.doubleIndirect.length * g.blockSize) : ℕ)) := by
  obtain ⟨hsize, hruns, -⟩ := sizes_bounds hmin hmax
  have hper : 0 < data.runsPerArray g := Nat.mul_pos hpositive hruns
  have hperle := runsPerArray_le hmin hmax h.length_le
  -- The position is in the run `k`, which is in the array `k / runsPerArray`.
  have hindex : pos / data.indirectSize g =
      pos / (data.doubleIndirect.length * g.blockSize) / data.runsPerArray g :=
    (Nat.div_div_eq_div_mul _ _ _).symm
  have hcurrent : pos % data.indirectSize g / (data.doubleIndirect.length * g.blockSize) =
      pos / (data.doubleIndirect.length * g.blockSize) % data.runsPerArray g :=
    Nat.mod_mul_right_div_self _ _ _
  have harray := h.array_lt hper hk
  have hcurrentlt := Nat.mod_lt (pos / (data.doubleIndirect.length * g.blockSize)) hper
  rw [← hindex] at harray
  rw [← hcurrent] at hcurrentlt
  have harrayle := h.arrays.1
  have hentry := h.arrays.2 (pos / data.indirectSize g) (by omega)
  rw [List.getD_eq_getElem _ _ harray] at hentry
  have hrunentry := (h.runs _ harray).2 _ hcurrentlt
  have hget : (v.ofArray (data.runsPerArray g) (pos / data.indirectSize g)).getD
      (pos % data.indirectSize g / (data.doubleIndirect.length * g.blockSize)) .zero =
      v.doubleIndirect[pos / (data.doubleIndirect.length * g.blockSize)] := by
    rw [hindex, hcurrent]
    exact StreamRuns.ofArray_getD hper hk
  rw [hget] at hrunentry
  obtain ⟨runs, hblock, hslot⟩ := Option.map_eq_some_iff.1 hentry
  obtain ⟨runs', hblock', hslot'⟩ := Option.map_eq_some_iff.1 hrunentry
  -- The numbers of the source are these natural numbers.
  have hdirectle : pos % data.indirectSize g / (data.doubleIndirect.length * g.blockSize) *
      (data.doubleIndirect.length * g.blockSize) < 2 ^ 31 := by
    have hle : _ ≤ 4 * 1024 * (4 * 8192) :=
      Nat.mul_le_mul (hcurrentlt.le.trans hperle) (Nat.mul_le_mul h.length_le hsize)
    exact lt_of_le_of_lt hle (by decide)
  have hstart : ((data.maxIndirectRange + pos : ℕ) : ℤ) - data.maxIndirectRange = (pos : ℕ) := by
    push_cast
    ring
  unfold findDoubleIndirect
  rw [getDoubleIndirectSizes_eq hmin hmax h.length_le]
  dsimp only
  rw [hstart, ← Int.ofNat_tdiv, int32_of_lt (by omega), ← Int.ofNat_tdiv, hblock]
  dsimp only
  rw [← Int.ofNat_tmod, ← Int.ofNat_tmod, ← Int.ofNat_tdiv, Int.toNat_natCast,
    int32_of_lt (by omega), ← Int.ofNat_tdiv, hslot, hblock']
  dsimp only
  rw [← Int.ofNat_tmod, Int.toNat_natCast, hslot']
  have hmem : v.doubleIndirect[pos / (data.doubleIndirect.length * g.blockSize)] ∈
      v.doubleIndirect := List.getElem_mem hk
  rw [if_neg (not_not.2 (h.run_length _ hmem)), ← Nat.cast_mul, ← Nat.cast_mul,
    int32_of_lt hdirectle]
  exact if_pos (hrun _ hmem).valid

end

/-! ## Every position -/

/-- `FindBlockRun()` returns the run the position lies in, and the length of the runs before it. -/
def Finds (g : Geometry) (d : Disk) (data : DataStream) (v : StreamRuns) (pos : ℕ) : Prop :=
  ∃ (run : BlockRun) (offset : ℕ), findBlockRun g d data pos = .ok (run, (offset : ℤ)) ∧
    Locates g.runSize v.all pos run offset

/-- The disk block of a position, as its run and the offset tell. -/
def diskBlock (g : Geometry) (d : Disk) (data : DataStream) (pos : ℕ) : Option ℤ :=
  match findBlockRun g d data pos with
  | .ok (run, offset) => some (g.toBlock run + (pos - offset) / g.blockSize)
  | .error _ => none

/-- Every position is found, and the blocks of the file are different blocks of the disk. -/
structure FindsAll (g : Geometry) (d : Disk) (data : DataStream) (v : StreamRuns) : Prop where
  finds : ∀ pos < data.largestRange, Finds g d data v pos
  distinct : ∀ pos < data.largestRange, ∀ pos' < data.largestRange,
    pos / g.blockSize ≠ pos' / g.blockSize → diskBlock g d data pos ≠ diskBlock g d data pos'

/-- The array the position lies in begins less than 2 GB behind the start of the double indirect
range. -/
def DataStream.InReach (data : DataStream) (g : Geometry) (pos : ℕ) : Prop :=
  data.maxDoubleIndirectRange = 0 ∨
    (pos - data.maxIndirectRange) / data.indirectSize g * data.indirectSize g < 2 ^ 31

lemma DataStream.inReach_of_lt (h : pos < data.maxIndirectRange) : data.InReach g pos := by
  right
  rw [Nat.sub_eq_zero_of_le h.le, Nat.zero_div, Nat.zero_mul]
  decide

lemma finds_direct (h : IsStream g d data v)
    (hpos : pos < data.maxDirectRange) : Finds g d data v pos := by
  rw [h.directRange] at hpos
  obtain ⟨run, offset, hloc⟩ := exists_locates hpos
  have hrun : ∀ run ∈ v.direct, g.IsRun run := fun run hmem =>
    h.isRun run (List.mem_append_left _ (List.mem_append_left _ (List.mem_append_left _ hmem)))
  refine ⟨run, offset, ?_, (hloc.append_right _).append_right _⟩
  unfold findBlockRun
  rw [if_neg (by rw [h.directRange]; omega)]
  exact findDirect_spec h.direct hrun hloc

lemma finds_indirect (hruns : 0 < g.runsPerBlock) (h : IsStream g d data v)
    (hdirect : data.maxDirectRange ≤ pos) (hpos : pos < data.maxIndirectRange) :
    Finds g d data v pos := by
  have hne : v.indirect ≠ [] := by
    intro hnil
    have hzero := (h.noIndirect hnil).1
    omega
  obtain ⟨hholds, hrange⟩ := h.indirect hne
  obtain ⟨p, rfl⟩ := Nat.exists_eq_add_of_le hdirect
  have hp : p < extent g.runSize v.indirect := by omega
  obtain ⟨run, offset, hloc⟩ := exists_locates hp
  have hrun : ∀ run ∈ v.indirect, g.IsRun run := fun run hmem =>
    h.isRun run (List.mem_append_left _ (List.mem_append_left _ (List.mem_append_right _ hmem)))
  have hall := (hloc.append_left v.direct).append_right v.doubleIndirect
  rw [← h.directRange] at hall
  refine ⟨run, data.maxDirectRange + offset, ?_, hall⟩
  unfold findBlockRun
  rw [if_pos ⟨by omega, by omega⟩, if_neg (by omega)]
  exact findIndirect_spec hruns hholds hrun hloc

lemma div_mul_split (pos size n : ℕ) : pos / size * size =
    pos / (size * n) * (size * n) + pos % (size * n) / size * size := by
  rw [Nat.mod_mul_right_div_self, ← Nat.div_div_eq_div_mul]
  calc pos / size * size = (n * (pos / size / n) + pos / size % n) * size := by
        rw [Nat.div_add_mod]
    _ = pos / size / n * (size * n) + pos / size % n * size := by ring

lemma finds_doubleIndirect (hmin : 10 ≤ g.blockShift) (hmax : g.blockShift ≤ 13)
    (h : IsStream g d data v) (hne : v.doubleIndirect ≠ [])
    (hlow : data.maxIndirectRange ≤ pos) (hpos : pos < data.maxDoubleIndirectRange) :
    Finds g d data v pos ↔ data.InReach g pos := by
  have hindirect : v.indirect ≠ [] := fun hnil => hne (h.noIndirect hnil).2
  have hdouble := h.doubleIndirect hne
  have hrun : ∀ run ∈ v.doubleIndirect, g.IsRun run := fun run hmem =>
    h.isRun run (List.mem_append_left _ (List.mem_append_right _ hmem))
  have hpositive : 0 < data.doubleIndirect.length := by
    obtain ⟨run, hmem⟩ := List.exists_mem_of_ne_nil _ hne
    rw [← hdouble.run_length run hmem]
    exact (hrun run hmem).length_pos
  have hsize : 0 < data.doubleIndirect.length * g.blockSize :=
    Nat.mul_pos hpositive g.blockSize_pos
  obtain ⟨p, rfl⟩ := Nat.exists_eq_add_of_le hlow
  have hlen : ∀ run ∈ v.doubleIndirect, g.runSize run =
      data.doubleIndirect.length * g.blockSize := by
    intro run hmem
    unfold Geometry.runSize
    rw [hdouble.run_length run hmem]
  have hp : p / (data.doubleIndirect.length * g.blockSize) < v.doubleIndirect.length := by
    rw [Nat.div_lt_iff_lt_mul hsize, ← extent_uniform hlen]
    have hrange := hdouble.range
    omega
  have hspec := findDoubleIndirect_spec hmin hmax hdouble hpositive hrun hp
  have hloc := (locates_of_uniform hlen hsize hp).append_left (v.direct ++ v.indirect)
  have hbefore : extent g.runSize (v.direct ++ v.indirect) = data.maxIndirectRange := by
    rw [extent_append, (h.indirect hindirect).2, h.directRange]
  rw [hbefore] at hloc
  have hoffset := div_mul_split p (data.doubleIndirect.length * g.blockSize) (data.runsPerArray g)
  have hfold : data.doubleIndirect.length * g.blockSize * data.runsPerArray g =
    data.indirectSize g := rfl
  rw [hoffset, hfold] at hloc
  have hfind : findBlockRun g d data (data.maxIndirectRange + p) =
      findDoubleIndirect g d data (data.maxIndirectRange + p) := by
    have hindirectRange := (h.indirect hindirect).2
    have hrunIndirect : 0 < extent g.runSize v.indirect := extent_pos hindirect fun run hmem =>
      h.isRun run (List.mem_append_left _ (List.mem_append_left _ (List.mem_append_right _ hmem)))
    unfold findBlockRun
    rw [if_pos ⟨by omega, by omega⟩, if_pos ⟨by omega, by omega⟩]
  unfold DataStream.InReach
  rw [Nat.add_sub_cancel_left]
  generalize p / data.indirectSize g * data.indirectSize g = array at hspec hloc ⊢
  constructor
  · rintro ⟨run, offset, hok, hfound⟩
    right
    have heq := (hfound.unique hloc).2
    rw [hfind, hspec] at hok
    have hresult := congrArg Prod.snd (Except.ok.inj hok)
    dsimp only at hresult
    have hcut := int32_lt array
    rw [heq, Nat.cast_add, Nat.cast_add] at hresult
    have harray : int32 array = array := by linarith only [hresult]
    rw [harray] at hcut
    exact_mod_cast hcut
  · rintro (hzero | hreach)
    · omega
    · refine ⟨_, _, ?_, hloc⟩
      rw [hfind, hspec, int32_of_lt hreach, Nat.cast_add, Nat.cast_add, add_assoc]

lemma finds_iff (hmin : 10 ≤ g.blockShift) (hmax : g.blockShift ≤ 13) (h : IsStream g d data v)
    (hpos : pos < data.largestRange) : Finds g d data v pos ↔ data.InReach g pos := by
  have hruns := (sizes_bounds hmin hmax).2.1
  unfold DataStream.largestRange at hpos
  by_cases hdirect : pos < data.maxDirectRange
  · refine ⟨fun _ => ?_, fun _ => finds_direct h hdirect⟩
    by_cases hnil : v.indirect = []
    · exact .inl (h.noDoubleIndirect (h.noIndirect hnil).2).1
    · have hrange := (h.indirect hnil).2
      exact DataStream.inReach_of_lt (by omega)
  · by_cases hindirect : pos < data.maxIndirectRange
    · exact ⟨fun _ => DataStream.inReach_of_lt hindirect,
        fun _ => finds_indirect hruns h (Nat.le_of_not_lt hdirect) hindirect⟩
    · have hne : v.doubleIndirect ≠ [] := by
        intro hnil
        have hzero := (h.noDoubleIndirect hnil).1
        omega
      exact finds_doubleIndirect hmin hmax h hne (Nat.le_of_not_lt hindirect) (by omega)

lemma Finds.diskBlock_eq (h : IsStream g d data v) (hfinds : Finds g d data v pos) :
    ∃ block : ℕ, (v.all.flatMap g.runBlocks)[pos / g.blockSize]? = some block ∧
      diskBlock g d data pos = some (block : ℤ) := by
  obtain ⟨run, offset, hok, hloc⟩ := hfinds
  have hisRun := h.isRun run (List.mem_append_left _ hloc.mem)
  obtain ⟨hblocks, hoffset⟩ := Locates.div g.blockSize_pos hloc
  have hget := hblocks.getElem_flatMap fun run => g.length_runBlocks run
  obtain ⟨-, -, -, -, hle, hlt⟩ := hblocks
  have hplace : (g.runBlocks run)[pos / g.blockSize - offset / g.blockSize]? =
      some (g.firstBlock run + (pos / g.blockSize - offset / g.blockSize)) := by
    unfold Geometry.runBlocks
    rw [List.getElem?_map, List.getElem?_range (by omega)]
    rfl
  refine ⟨_, hget.trans hplace, ?_⟩
  unfold diskBlock
  rw [hok]
  dsimp only
  obtain ⟨-, -, -, -, hle', -⟩ := hloc
  have hsub : (pos : ℤ) - offset = (pos - g.blockSize * (offset / g.blockSize) : ℕ) := by
    rw [Nat.mul_comm, hoffset, Nat.cast_sub hle']
  rw [hisRun.toBlock_eq, hsub, ← Int.natCast_ediv, Nat.sub_mul_div,
    ← Nat.cast_add]

/-- `FindBlockRun()` finds a position if and only if the array the position lies in begins less
than 2 GB behind the start of the double indirect range; if this holds for the whole stream, the
blocks of the file are different blocks of the disk. -/
theorem findBlockRun_right (hmin : 10 ≤ g.blockShift) (hmax : g.blockShift ≤ 13)
    (h : IsStream g d data v) :
    (∀ pos < data.largestRange, Finds g d data v pos ↔ data.InReach g pos) ∧
      (FindsAll g d data v ↔ ∀ pos < data.largestRange, data.InReach g pos) := by
  have hiff : ∀ pos < data.largestRange, Finds g d data v pos ↔ data.InReach g pos :=
    fun pos hpos => finds_iff hmin hmax h hpos
  refine ⟨hiff, fun hall pos hpos => (hiff pos hpos).1 (hall.finds pos hpos), fun hreach => ?_⟩
  have hfinds : ∀ pos < data.largestRange, Finds g d data v pos :=
    fun pos hpos => (hiff pos hpos).2 (hreach pos hpos)
  refine ⟨hfinds, fun pos hpos pos' hpos' hne heq => hne ?_⟩
  obtain ⟨block, hget, hblock⟩ := (hfinds pos hpos).diskBlock_eq h
  obtain ⟨block', hget', hblock'⟩ := (hfinds pos' hpos').diskBlock_eq h
  rw [hblock, hblock', Option.some_inj, Nat.cast_inj] at heq
  rw [← heq] at hget'
  have hnodup : (v.all.flatMap g.runBlocks).Nodup := by
    have hnodup := h.nodup
    rw [List.flatMap_append] at hnodup
    exact (List.nodup_append.1 hnodup).1
  have hlt := (List.getElem?_eq_some_iff.1 hget).1
  exact (List.getElem?_inj hlt hnodup).1 (hget.trans hget'.symm)

/-- A stream of a little more than 2 GB. -/
theorem findBlockRun_right_sample :
    (∀ pos < (sampleStream volume8192 1 262145).largestRange,
      Finds volume8192 (sampleDisk volume8192 1 262145) (sampleStream volume8192 1 262145)
        (sampleRuns volume8192 1 262145) pos ↔
      (sampleStream volume8192 1 262145).InReach volume8192 pos) ∧
    (FindsAll volume8192 (sampleDisk volume8192 1 262145) (sampleStream volume8192 1 262145)
        (sampleRuns volume8192 1 262145) ↔
      ∀ pos < (sampleStream volume8192 1 262145).largestRange,
        (sampleStream volume8192 1 262145).InReach volume8192 pos) :=
  findBlockRun_right (by decide) (by decide) (isStream_8192 (by decide) (by decide))

lemma not_inReach {n : ℕ} (hsize : data.indirectSize g = 8388608)
    (hrange : data.maxDoubleIndirectRange = data.maxIndirectRange + n) (hn : 2 ^ 31 < n) :
    data.maxIndirectRange + 2 ^ 31 < data.largestRange ∧
      ¬data.InReach g (data.maxIndirectRange + 2 ^ 31) := by
  unfold DataStream.largestRange DataStream.InReach
  rw [Nat.add_sub_cancel_left, hsize]
  omega

lemma not_findsAll_8192 {n : ℕ} (hn : 262144 < n) (hn' : n ≤ 20 * 16384) :
    ¬FindsAll volume8192 (sampleDisk volume8192 1 n) (sampleStream volume8192 1 n)
      (sampleRuns volume8192 1 n) := by
  intro hall
  have hstream := isStream_8192 (by omega) hn'
  have hblock : volume8192.blockSize = 8192 := rfl
  have hsize : (sampleStream volume8192 1 n).indirectSize volume8192 = 8388608 := by
    show 1 * volume8192.blockSize * (1 * (volume8192.blockSize / 8)) = 8388608
    rw [hblock]
  have hrange : (sampleStream volume8192 1 n).maxDoubleIndirectRange =
      (sampleStream volume8192 1 n).maxIndirectRange + n * (1 * volume8192.blockSize) :=
    sample_range
  rw [hblock] at hrange
  obtain ⟨hpos, hreach⟩ := not_inReach hsize hrange (by omega)
  exact hreach ((finds_iff (by decide) (by decide) hstream hpos).1 (hall.finds _ hpos))

theorem not_findBlockRun_right : ¬∀ (g : Geometry) (d : Disk) (data : DataStream)
    (v : StreamRuns), 10 ≤ g.blockShift → g.blockShift ≤ 13 → IsStream g d data v →
      FindsAll g d data v := by
  intro hall
  apply not_findsAll_8192 (n := 262145) (by decide) (by decide)
  apply hall _ _ _ _ (by decide) (by decide)
  exact isStream_8192 (by decide) (by decide)

end Haiku.Bfs
