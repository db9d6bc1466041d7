import Haiku.Bfs.DataStream

/-!
# Streams of every length

The invariant of a data stream holds for streams whose double indirect range has any number of
runs, on a volume of 40 groups.
-/

namespace Haiku.Bfs

open Haiku.Lib

def BlockRun.run (group start length : ℕ) : BlockRun := ⟨group, start, length⟩

lemma run_length (group start length : ℕ) : (BlockRun.run group start length).length = length :=
  rfl

abbrev Geometry.Ascending (g : Geometry) (l : List BlockRun) : Prop :=
  l.Pairwise fun run run' => g.firstBlock run + run.length ≤ g.firstBlock run'

lemma nodup_runBlocks {g : Geometry} {l : List BlockRun} (h : g.Ascending l) :
    (l.flatMap g.runBlocks).Nodup := by
  refine List.nodup_flatMap.2 ⟨fun run _ => ?_, h.imp fun {run run'} hle block hmem hmem' => ?_⟩
  · exact List.nodup_range.map fun i j hij => Nat.add_left_cancel hij
  · obtain ⟨i, hi, rfl⟩ := List.mem_map.1 hmem
    obtain ⟨i', _, heq⟩ := List.mem_map.1 hmem'
    rw [List.mem_range] at hi
    omega

/-- The runs of a stream with `n` runs of `length` blocks in its double indirect range. The arrays
before that range are full, and no two runs before it could be merged. -/
def sampleRuns (g : Geometry) (length n : ℕ) : StreamRuns where
  direct := (List.range numDirectBlocks).map fun i => .run 1 (2 * i) 1
  indirect := (List.range (numArrayBlocks * g.runsPerBlock)).map fun i => .run 2 (2 * i) 1
  arrays := (List.range ((n + length * g.runsPerBlock - 1) / (length * g.runsPerBlock))).map
    fun j => .run 30 (j * length) length
  doubleIndirect := (List.range n).map fun k => .run (3 + k / 16384) (k % 16384 * length) length

def sampleStream (g : Geometry) (length n : ℕ) : DataStream where
  direct := fun i => (sampleRuns g length n).direct.getD i .zero
  maxDirectRange := extent g.runSize (sampleRuns g length n).direct
  indirect := .run 29 0 numArrayBlocks
  maxIndirectRange := extent g.runSize (sampleRuns g length n).direct +
    extent g.runSize (sampleRuns g length n).indirect
  doubleIndirect := .run 29 100 length
  maxDoubleIndirectRange := extent g.runSize (sampleRuns g length n).direct +
    extent g.runSize (sampleRuns g length n).indirect +
    extent g.runSize (sampleRuns g length n).doubleIndirect

/-- An entry of a block of the disk with the arrays of the stream. -/
def sampleEntry (g : Geometry) (length n block i : ℕ) : BlockRun :=
  if block < 29 * 65536 + 100 then
    (sampleRuns g length n).indirect.getD ((block - 29 * 65536) * g.runsPerBlock + i) .zero
  else if block < 30 * 65536 then
    (sampleRuns g length n).arrays.getD ((block - (29 * 65536 + 100)) * g.runsPerBlock + i) .zero
  else
    (sampleRuns g length n).doubleIndirect.getD ((block - 30 * 65536) * g.runsPerBlock + i) .zero

def sampleDisk (g : Geometry) (length n : ℕ) : Disk := fun block =>
  some fun i => sampleEntry g length n block.toNat i

section Sample

variable {g : Geometry} {length n : ℕ}

lemma sample_numGroups (hshift : g.groupShift = 16) (hblocks : g.numBlocks = 40 * 65536) :
    g.numGroups = 40 := by
  unfold Geometry.numGroups Geometry.bitsPerGroup
  rw [hshift, hblocks]
  rfl

lemma sample_bitsPerGroup (hshift : g.groupShift = 16) : g.bitsPerGroup = 65536 := by
  unfold Geometry.bitsPerGroup
  rw [hshift]
  rfl

lemma sample_isRun (hshift : g.groupShift = 16) (hblocks : g.numBlocks = 40 * 65536)
    {group start k : ℕ} (hgroup : group < 40) (hk : 0 < k) (hk' : k < 65536)
    (hend : start + k ≤ 65536) : g.IsRun (.run group start k) := by
  have hgroups := sample_numGroups hshift hblocks
  have hbits := sample_bitsPerGroup hshift
  refine ⟨Int.natCast_nonneg _, ?_, hk, hk', ?_⟩
  · show (group : ℤ) < g.numGroups
    rw [hgroups]
    exact_mod_cast hgroup
  · show start + k ≤ g.numBits group
    unfold Geometry.numBits
    rw [hgroups, hblocks, hbits]
    split <;> omega

lemma ascending_append {l l' : List BlockRun} (m : ℕ)
    (h : g.Ascending l) (h' : g.Ascending l')
    (hlow : ∀ run ∈ l, g.firstBlock run + run.length ≤ m)
    (hhigh : ∀ run ∈ l', m ≤ g.firstBlock run) : g.Ascending (l ++ l') :=
  List.pairwise_append.2
    ⟨h, h', fun run hmem run' hmem' => (hlow run hmem).trans (hhigh run' hmem')⟩

lemma ascending_map {f : ℕ → BlockRun} {k : ℕ}
    (h : ∀ i j, i < j → j < k → g.firstBlock (f i) + (f i).length ≤ g.firstBlock (f j)) :
    g.Ascending ((List.range k).map f) := by
  apply List.pairwise_map.2
  refine List.pairwise_lt_range.imp_of_mem fun {i j} _ hj hij => ?_
  exact h i j hij (List.mem_range.1 hj)

lemma sample_firstBlock (hshift : g.groupShift = 16) (group start k : ℕ) :
    g.firstBlock (.run group start k) = group * 65536 + start := by
  unfold Geometry.firstBlock
  rw [sample_bitsPerGroup hshift]
  rfl

lemma sample_mul_lt {i j : ℕ} (h : i < j) (length : ℕ) : i * length + length ≤ j * length := by
  have hle : (i + 1) * length ≤ j * length := Nat.mul_le_mul_right _ h
  rwa [Nat.succ_mul] at hle

lemma sample_end_le (hlength : length ≤ numArrayBlocks) (k : ℕ) :
    k % 16384 * length + length ≤ 65536 := by
  have hlt := sample_mul_lt (Nat.mod_lt k (y := 16384) (by decide)) length
  have hle : 16384 * length ≤ 16384 * 4 := Nat.mul_le_mul_left _ hlength
  omega

section

variable (hshift : g.groupShift = 16)
include hshift

lemma sample_doubleIndirect_ascending (hlength : length ≤ numArrayBlocks) :
    g.Ascending (sampleRuns g length n).doubleIndirect := by
  apply ascending_map
  intro i j hij _
  rw [sample_firstBlock hshift, sample_firstBlock hshift, run_length]
  have hend := sample_end_le hlength i
  by_cases hgroup : i / 16384 = j / 16384
  · have hlt := sample_mul_lt (i := i % 16384) (j := j % 16384) (by omega) length
    omega
  · omega

lemma sample_indirect_ascending (group k : ℕ) :
    g.Ascending ((List.range k).map fun i => BlockRun.run group (2 * i) 1) := by
  apply ascending_map
  intro i j hij _
  rw [sample_firstBlock hshift, sample_firstBlock hshift, run_length]
  omega

lemma sample_arrays_ascending : g.Ascending (sampleRuns g length n).arrays := by
  apply ascending_map
  intro i j hij _
  rw [sample_firstBlock hshift, sample_firstBlock hshift, run_length]
  have hlt := sample_mul_lt hij length
  omega

lemma sample_ascending (hruns : g.runsPerBlock ≤ 1024)
    (hlength : length ≤ numArrayBlocks) (hn : n ≤ 20 * 16384) :
    g.Ascending ((sampleRuns g length n).all ++ ((sampleStream g length n).indirect ::
      (sampleStream g length n).doubleIndirect :: (sampleRuns g length n).arrays)) := by
  have hfirst := fun group start k => sample_firstBlock (g := g) hshift group start k
  have hblocks : numArrayBlocks * g.runsPerBlock ≤ 4 * 1024 := Nat.mul_le_mul_left _ hruns
  -- The last block of each range lies in an earlier group than the first one of the next.
  have hdirect : ∀ run ∈ (sampleRuns g length n).direct,
      g.firstBlock run + run.length ≤ 2 * 65536 := by
    intro run hmem
    obtain ⟨i, hi, rfl⟩ := List.mem_map.1 hmem
    have hlt : i < 12 := List.mem_range.1 hi
    rw [hfirst, run_length]
    omega
  have hindirect : ∀ run ∈ (sampleRuns g length n).indirect,
      2 * 65536 ≤ g.firstBlock run ∧ g.firstBlock run + run.length ≤ 3 * 65536 := by
    intro run hmem
    obtain ⟨i, hi, rfl⟩ := List.mem_map.1 hmem
    have hlt := List.mem_range.1 hi
    rw [hfirst, run_length]
    omega
  have hdouble : ∀ run ∈ (sampleRuns g length n).doubleIndirect,
      3 * 65536 ≤ g.firstBlock run ∧ g.firstBlock run + run.length ≤ 29 * 65536 := by
    intro run hmem
    obtain ⟨k, hk, rfl⟩ := List.mem_map.1 hmem
    have hlt := List.mem_range.1 hk
    have hend := sample_end_le hlength k
    rw [hfirst, run_length]
    omega
  have harrays : ∀ run ∈ (sampleRuns g length n).arrays, 30 * 65536 ≤ g.firstBlock run := by
    intro run hmem
    obtain ⟨j, _, rfl⟩ := List.mem_map.1 hmem
    rw [hfirst]
    omega
  have hsplit : ∀ run ∈ (sampleRuns g length n).direct ++ (sampleRuns g length n).indirect,
      g.firstBlock run + run.length ≤ 3 * 65536 := by
    intro run hmem
    rcases List.mem_append.1 hmem with hmem | hmem
    · exact (hdirect run hmem).trans (by decide)
    · exact (hindirect run hmem).2
  have hfour : length ≤ 4 := hlength
  have hlast : ∀ run ∈ (sampleStream g length n).doubleIndirect :: (sampleRuns g length n).arrays,
      29 * 65536 + 100 ≤ g.firstBlock run := by
    intro run hmem
    rcases List.mem_cons.1 hmem with rfl | hmem
    · exact (hfirst 29 100 length).ge
    · exact le_trans (by decide) (harrays run hmem)
  refine ascending_append (29 * 65536) (ascending_append (3 * 65536) (ascending_append (2 * 65536)
    (sample_indirect_ascending hshift 1 _) (sample_indirect_ascending hshift 2 _) hdirect
    fun run hmem => (hindirect run hmem).1) (sample_doubleIndirect_ascending hshift hlength) hsplit
    fun run hmem => (hdouble run hmem).1) ?_ ?_ ?_
  · refine List.pairwise_cons.2 ⟨fun run hmem => ?_, List.pairwise_cons.2
      ⟨fun run hmem => ?_, sample_arrays_ascending hshift⟩⟩
    · have hle := hlast run hmem
      have hfirst29 : g.firstBlock (sampleStream g length n).indirect = 29 * 65536 + 0 :=
        hfirst 29 0 numArrayBlocks
      rw [hfirst29]
      show 29 * 65536 + 0 + 4 ≤ _
      omega
    · have hle := harrays run hmem
      have hfirst29 : g.firstBlock (sampleStream g length n).doubleIndirect = 29 * 65536 + 100 :=
        hfirst 29 100 length
      rw [hfirst29]
      show 29 * 65536 + 100 + length ≤ _
      omega
  · intro run hmem
    rcases List.mem_append.1 hmem with hmem | hmem
    · exact (hsplit run hmem).trans (by decide)
    · exact (hdouble run hmem).2
  · intro run hmem
    rcases List.mem_cons.1 hmem with rfl | hmem
    · exact (hfirst 29 0 numArrayBlocks).ge
    · exact le_trans (by decide) (hlast run hmem)

end

lemma sample_runsPerArray : (sampleStream g length n).runsPerArray g = length * g.runsPerBlock :=
  rfl

lemma sample_arrays_length : (sampleRuns g length n).arrays.length =
    (n + length * g.runsPerBlock - 1) / (length * g.runsPerBlock) := by
  unfold sampleRuns
  rw [List.length_map, List.length_range]

lemma sample_doubleIndirect_length : (sampleRuns g length n).doubleIndirect.length = n := by
  unfold sampleRuns
  rw [List.length_map, List.length_range]

lemma sample_range : (sampleStream g length n).maxDoubleIndirectRange =
    (sampleStream g length n).maxIndirectRange + n * (length * g.blockSize) := by
  have huniform : extent g.runSize (sampleRuns g length n).doubleIndirect =
      (sampleRuns g length n).doubleIndirect.length * (length * g.blockSize) := by
    apply extent_uniform
    intro run hmem
    obtain ⟨k, _, rfl⟩ := List.mem_map.1 hmem
    rfl
  rw [sample_doubleIndirect_length] at huniform
  rw [← huniform]
  rfl

lemma sample_arrays_le {per : ℕ} (hper : 0 < per) (hcount : n ≤ per * per) :
    (n + per - 1) / per ≤ per := by
  apply Nat.lt_succ_iff.1
  rw [Nat.div_lt_iff_lt_mul hper, Nat.succ_mul]
  omega

lemma sample_isRuns (hshift : g.groupShift = 16) (hblocks : g.numBlocks = 40 * 65536)
    (hruns : 0 < g.runsPerBlock) (hruns' : g.runsPerBlock ≤ 1024) (hlength : 0 < length)
    (hlength' : length ≤ numArrayBlocks) (hn : n ≤ 20 * 16384)
    (hcount : n ≤ length * g.runsPerBlock * (length * g.runsPerBlock)) :
    ∀ run ∈ (sampleRuns g length n).all ++ ((sampleStream g length n).indirect ::
      (sampleStream g length n).doubleIndirect :: (sampleRuns g length n).arrays),
      g.IsRun run := by
  have hfour : length ≤ 4 := hlength'
  have hindirect : numArrayBlocks * g.runsPerBlock ≤ 4 * 1024 := Nat.mul_le_mul_left _ hruns'
  intro run hmem
  rcases List.mem_append.1 hmem with hmem | hmem
  · rcases List.mem_append.1 hmem with hmem | hmem
    · rcases List.mem_append.1 hmem with hmem | hmem
      · obtain ⟨i, hi, rfl⟩ := List.mem_map.1 hmem
        have hlt : i < 12 := List.mem_range.1 hi
        apply sample_isRun hshift hblocks <;> omega
      · obtain ⟨i, hi, rfl⟩ := List.mem_map.1 hmem
        have hlt := List.mem_range.1 hi
        apply sample_isRun hshift hblocks <;> omega
    · obtain ⟨k, hk, rfl⟩ := List.mem_map.1 hmem
      have hlt := List.mem_range.1 hk
      have hend := sample_end_le hlength' k
      apply sample_isRun hshift hblocks <;> omega
  · rcases List.mem_cons.1 hmem with rfl | hmem
    · exact sample_isRun hshift hblocks (by decide) (by decide) (by decide) (by decide)
    · rcases List.mem_cons.1 hmem with rfl | hmem
      · apply sample_isRun hshift hblocks <;> omega
      · obtain ⟨j, hj, rfl⟩ := List.mem_map.1 hmem
        have hper : 0 < length * g.runsPerBlock := Nat.mul_pos hlength hruns
        have hlt := (List.mem_range.1 hj).trans_le (sample_arrays_le hper hcount)
        have hle : length * g.runsPerBlock ≤ 4 * 1024 := Nat.mul_le_mul hlength' hruns'
        have hend : j * length + length ≤ 4096 * length := by
          apply sample_mul_lt
          omega
        apply sample_isRun hshift hblocks <;> omega

lemma sampleDisk_entry (block i : ℕ) : (sampleDisk g length n).entry g block i =
    some (sampleEntry g length n (block + i / g.runsPerBlock) (i % g.runsPerBlock)) := by
  unfold Disk.entry sampleDisk
  rw [← Nat.cast_add, Int.toNat_natCast]
  rfl

lemma sample_index (base start i k : ℕ) :
    (base + start + i / k - base) * k + i % k = start * k + i := by
  have hdiv := Nat.div_add_mod i k
  rw [Nat.mul_comm] at hdiv
  rw [Nat.add_assoc, Nat.add_sub_cancel_left, Nat.add_mul, Nat.add_assoc, hdiv]

lemma sampleDisk_indirect {i : ℕ} (hi : i < numArrayBlocks * g.runsPerBlock) :
    (sampleDisk g length n).entry g (29 * 65536 : ℕ) i =
      some ((sampleRuns g length n).indirect.getD i .zero) := by
  have hlt : i / g.runsPerBlock < 4 := Nat.div_lt_of_lt_mul (by rwa [Nat.mul_comm])
  have hindex := sample_index (29 * 65536) 0 i g.runsPerBlock
  rw [Nat.zero_mul, Nat.zero_add, Nat.add_zero] at hindex
  rw [sampleDisk_entry]
  unfold sampleEntry
  rw [if_pos (by omega), hindex]

lemma sampleDisk_arrays (hlength : length ≤ numArrayBlocks) {i : ℕ}
    (hi : i < length * g.runsPerBlock) :
    (sampleDisk g length n).entry g (29 * 65536 + 100 : ℕ) i =
      some ((sampleRuns g length n).arrays.getD i .zero) := by
  have hfour : length ≤ 4 := hlength
  have hlt : i / g.runsPerBlock < length := Nat.div_lt_of_lt_mul (by rwa [Nat.mul_comm])
  have hindex := sample_index (29 * 65536 + 100) 0 i g.runsPerBlock
  rw [Nat.zero_mul, Nat.zero_add, Nat.add_zero] at hindex
  rw [sampleDisk_entry]
  unfold sampleEntry
  generalize i / g.runsPerBlock = block at hlt hindex ⊢
  rw [if_neg (by omega), if_pos (by omega), hindex]

lemma sampleDisk_doubleIndirect (j i : ℕ) :
    (sampleDisk g length n).entry g (30 * 65536 + j * length : ℕ) i =
      some ((sampleRuns g length n).doubleIndirect.getD (j * (length * g.runsPerBlock) + i)
        .zero) := by
  have hindex := sample_index (30 * 65536) (j * length) i g.runsPerBlock
  rw [Nat.mul_assoc] at hindex
  rw [sampleDisk_entry]
  unfold sampleEntry
  generalize i / g.runsPerBlock = block at hindex ⊢
  rw [if_neg (by omega), if_neg (by omega), hindex]

lemma sample_isDoubleIndirect (hshift : g.groupShift = 16) (hruns : 0 < g.runsPerBlock)
    (hlength : 0 < length) (hlength' : length ≤ numArrayBlocks)
    (hcount : n ≤ length * g.runsPerBlock * (length * g.runsPerBlock))
    (hisRun : ∀ run ∈ (sampleStream g length n).doubleIndirect :: (sampleRuns g length n).arrays,
      g.IsRun run) :
    IsDoubleIndirect g (sampleDisk g length n) (sampleStream g length n)
      (sampleRuns g length n) := by
  have hper : 0 < length * g.runsPerBlock := Nat.mul_pos hlength hruns
  have harrays : g.toBlock (sampleStream g length n).doubleIndirect = (29 * 65536 + 100 : ℕ) := by
    rw [(hisRun _ List.mem_cons_self).toBlock_eq]
    congr 1
    exact sample_firstBlock hshift 29 100 length
  refine
    { length_le := hlength'
      range := rfl
      arrays := ⟨?_, fun i hi => ?_⟩
      arrays_length := ?_
      array_length := ?_
      run_length := ?_
      runs := fun j hj => ⟨List.length_take_le _ _, fun i hi => ?_⟩ }
  · rw [sample_arrays_length]
    exact sample_arrays_le hper hcount
  · rw [harrays]
    exact sampleDisk_arrays hlength' hi
  · rw [sample_arrays_length, sample_doubleIndirect_length, sample_runsPerArray]
  · intro run hmem
    obtain ⟨j, _, rfl⟩ := List.mem_map.1 hmem
    rfl
  · intro run hmem
    obtain ⟨k, _, rfl⟩ := List.mem_map.1 hmem
    rfl
  · have harray : (sampleRuns g length n).arrays[j] = .run 30 (j * length) length := by
      simp only [sampleRuns, List.getElem_map, List.getElem_range]
    have hblock : g.toBlock (sampleRuns g length n).arrays[j] = (30 * 65536 + j * length : ℕ) := by
      rw [(hisRun _ (List.mem_cons_of_mem _ (List.getElem_mem hj))).toBlock_eq, harray,
        sample_firstBlock hshift]
    rw [sample_runsPerArray] at hi ⊢
    rw [hblock, sampleDisk_doubleIndirect]
    unfold StreamRuns.ofArray
    rw [List.getD_eq_getElem?_getD, List.getD_eq_getElem?_getD, List.getElem?_take_of_lt hi,
      List.getElem?_drop]

lemma sample_indirect_ne (hruns : 0 < g.runsPerBlock) :
    (sampleRuns g length n).indirect ≠ [] := by
  intro hnil
  have hzero := congrArg List.length hnil
  unfold sampleRuns numArrayBlocks at hzero
  rw [List.length_map, List.length_range, List.length_nil] at hzero
  omega

lemma sample_doubleIndirect_ne (hn : 0 < n) : (sampleRuns g length n).doubleIndirect ≠ [] := by
  intro hnil
  have hzero : (sampleRuns g length n).doubleIndirect.length = n := sample_doubleIndirect_length
  rw [hnil, List.length_nil] at hzero
  omega

lemma sample_ofArrays (hruns : 0 < g.runsPerBlock) (hn : 0 < n) :
    (sampleRuns g length n).ofArrays (sampleStream g length n) =
      (sampleStream g length n).indirect :: (sampleStream g length n).doubleIndirect ::
        (sampleRuns g length n).arrays := by
  unfold StreamRuns.ofArrays
  rw [if_neg (sample_indirect_ne hruns), if_neg (sample_doubleIndirect_ne hn)]
  rfl

lemma isStream_sample (hshift : g.groupShift = 16) (hblocks : g.numBlocks = 40 * 65536)
    (hruns : 0 < g.runsPerBlock) (hruns' : g.runsPerBlock ≤ 1024) (hlength : 0 < length)
    (hlength' : length ≤ numArrayBlocks) (hn : 0 < n) (hn' : n ≤ 20 * 16384)
    (hcount : n ≤ length * g.runsPerBlock * (length * g.runsPerBlock)) :
    IsStream g (sampleDisk g length n) (sampleStream g length n) (sampleRuns g length n) := by
  have hisRun := sample_isRuns hshift hblocks hruns hruns' hlength hlength' hn' hcount
  have hindirect := @sample_indirect_ne g length n hruns
  have hdouble := @sample_doubleIndirect_ne g length n hn
  have hofArrays := @sample_ofArrays g length n hruns hn
  have hblock : g.toBlock (sampleStream g length n).indirect = (29 * 65536 : ℕ) := by
    rw [(hisRun _ (List.mem_append_right _ List.mem_cons_self)).toBlock_eq]
    congr 1
    exact sample_firstBlock hshift 29 0 numArrayBlocks
  refine
    { isRun := ?_
      nodup := ?_
      direct := ⟨?_, fun i _ => rfl⟩
      directRange := rfl
      noIndirect := fun hnil => absurd hnil hindirect
      indirect := fun _ => ⟨⟨?_, fun i hi => ?_⟩, rfl⟩
      noDoubleIndirect := fun hnil => absurd hnil hdouble
      doubleIndirect := fun _ => ?_ }
  · rw [hofArrays]
    exact hisRun
  · rw [hofArrays]
    exact nodup_runBlocks (sample_ascending hshift hruns' hlength' hn')
  · unfold sampleRuns
    rw [List.length_map, List.length_range]
  · unfold sampleRuns
    rw [List.length_map, List.length_range]
    exact le_rfl
  · rw [hblock]
    exact sampleDisk_indirect hi
  · exact sample_isDoubleIndirect hshift hruns hlength hlength' hcount
      fun run hmem => hisRun run (List.mem_append_right _ (List.mem_cons_of_mem _ hmem))

end Sample

def volume8192 : Geometry where
  blockShift := 13
  groupShift := 16
  blocksPerGroup := 1
  numBlocks := 40 * 65536
  shift_eq := rfl
  shift_le := le_rfl
  numBlocks_pos := by decide
  numGroups_lt := by decide

def volume1024 : Geometry where
  blockShift := 10
  groupShift := 16
  blocksPerGroup := 8
  numBlocks := 40 * 65536
  shift_eq := rfl
  shift_le := le_rfl
  numBlocks_pos := by decide
  numGroups_lt := by decide

lemma isStream_8192 {n : ℕ} (hn : 0 < n) (hn' : n ≤ 20 * 16384) :
    IsStream volume8192 (sampleDisk volume8192 1 n) (sampleStream volume8192 1 n)
      (sampleRuns volume8192 1 n) :=
  isStream_sample rfl rfl (by decide) (by decide) (by decide) (by decide) hn hn'
    (hn'.trans (by decide))

end Haiku.Bfs
