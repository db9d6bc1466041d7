import Haiku.Bfs.CheckWalk
import Haiku.Bfs.SampleStream
import Mathlib.Data.List.Flatten

/-!
# The check of an inode covers its stream

When `CheckInode()` sets exactly the blocks of an inode and visits each of them once.
-/

namespace Haiku.Bfs

open Haiku.Lib

variable {a : BlockAllocator} {g : Geometry} {d : Disk} {data : DataStream} {v : StreamRuns}
  {inode : CheckedInode}

/-- A symbolic link that is stored in the inode has no data stream. -/
def CheckedInode.isShortSymLink (inode : CheckedInode) : Bool :=
  inode.isSymLink && !inode.longSymLink

/-- All runs of an inode: its own, those of the data and those of the arrays. -/
def CheckedInode.runs (inode : CheckedInode) (v : StreamRuns) : List BlockRun :=
  inode.blockRun :: if inode.isShortSymLink then [] else v.all ++ v.ofArrays inode.data

def CheckedInode.blocks (inode : CheckedInode) (g : Geometry) (v : StreamRuns) : List ℕ :=
  (inode.runs v).flatMap g.runBlocks

structure IsInode (g : Geometry) (d : Disk) (inode : CheckedInode) (v : StreamRuns) : Prop where
  isRun : g.IsRun inode.blockRun
  shortSymLink : inode.isShortSymLink = true → inode.shortSymLinkLength < shortSymLinkNameLength
  isStream : inode.isShortSymLink = false → IsStream g d inode.data v
  nodup : (inode.blocks g v).Nodup

def CheckedInode.visited (inode : CheckedInode) (g : Geometry) (v : StreamRuns) : List BlockRun :=
  inode.blockRun :: if inode.isShortSymLink then [] else
    v.direct ++ (if v.indirect = [] then [] else inode.data.indirect :: v.indirect) ++
      if v.doubleIndirect = [] then []
      else inode.data.doubleIndirect :: walkedFrom g inode.data v 0

/-! ## The ranges -/

lemma checkDirectRange_spec (ha : a.Initialized) (h : IsStream a.geometry d data v) (c : Check) :
    checkDirectRange a data c = (none, c.visitRuns a v.direct) := by
  have hrun : ∀ run ∈ v.direct, a.geometry.IsRun run := fun run hmem =>
    h.isRun run (List.mem_append_left _ (List.mem_append_left _ (List.mem_append_left _ hmem)))
  have hspec := checkRuns_spec ha data.direct hrun numDirectBlocks 0 c h.direct.1 fun i hi => by
    rw [Nat.zero_add]
    exact Option.some.inj (h.direct.2 i hi)
  unfold checkDirectRange
  by_cases hzero : data.maxDirectRange = 0
  · -- A run has a length, so that there is none.
    have hnil : v.direct = [] := by
      by_contra hne
      have hrange := h.directRange
      have hpos := extent_pos hne hrun
      omega
    rw [if_neg (not_not.2 hzero), hnil]
    rfl
  · rw [if_pos hzero, hspec]
    by_cases hlt : v.direct.length < numDirectBlocks
    · rw [if_pos hlt]
    · rw [if_neg hlt]

lemma checkIndirectRange_spec (ha : a.Initialized) (hpos : 0 < a.geometry.runsPerBlock)
    (h : IsStream a.geometry d data v) (c : Check) :
    checkIndirectRange a d data c =
      (none, c.visitRuns a (if v.indirect = [] then [] else data.indirect :: v.indirect)) := by
  unfold checkIndirectRange
  by_cases hnil : v.indirect = []
  · rw [if_neg (not_not.2 (h.noIndirect hnil).1), if_pos hnil]
    rfl
  · obtain ⟨hholds, hrange⟩ := h.indirect hnil
    have hrun : ∀ run ∈ v.indirect, a.geometry.IsRun run := fun run hmem =>
      h.isRun run (List.mem_append_left _ (List.mem_append_left _ (List.mem_append_right _ hmem)))
    have harray : a.geometry.IsRun data.indirect := by
      apply h.isRun
      unfold StreamRuns.ofArrays
      rw [if_neg hnil]
      exact List.mem_append_right _ List.mem_cons_self
    have hne : data.maxIndirectRange ≠ 0 := by
      have hextent := extent_pos hnil hrun
      omega
    rw [if_pos hne, if_neg hnil, checkBlockRun_spec ha harray, Check.visitRuns_cons]
    apply checkIndirect_spec ha hpos _ _ _ _ hrun hholds.1
    intro k hk
    rw [Nat.zero_mul, Nat.zero_add]
    exact hholds.2 k hk

lemma IsStream.doubleIndirect_isRun (h : IsStream g d data v) (hne : v.doubleIndirect ≠ []) :
    g.IsRun data.doubleIndirect ∧ (∀ run ∈ v.arrays, g.IsRun run) ∧
      ∀ run ∈ v.doubleIndirect, g.IsRun run := by
  have hofArrays : ∀ run ∈ data.doubleIndirect :: v.arrays, g.IsRun run := by
    intro run hmem
    apply h.isRun
    unfold StreamRuns.ofArrays
    rw [if_neg hne]
    exact List.mem_append_right _ (List.mem_append_right _ hmem)
  exact ⟨hofArrays _ List.mem_cons_self,
    fun run hmem => hofArrays run (List.mem_cons_of_mem _ hmem),
    fun run hmem => h.isRun run (List.mem_append_left _ (List.mem_append_right _ hmem))⟩

lemma checkDoubleIndirectRange_spec (ha : a.Initialized) (hpos : 0 < a.geometry.runsPerBlock)
    (hsize : 8 ∣ a.geometry.blockSize) (h : IsStream a.geometry d data v) (c : Check) :
    checkDoubleIndirectRange a d data c =
      (none, c.visitRuns a (if v.doubleIndirect = [] then []
        else data.doubleIndirect :: walkedFrom a.geometry data v 0)) := by
  unfold checkDoubleIndirectRange
  by_cases hnil : v.doubleIndirect = []
  · rw [if_neg (not_not.2 (h.noDoubleIndirect hnil).1), if_pos hnil]
    rfl
  · have hdouble := h.doubleIndirect hnil
    obtain ⟨hisRun, harrays, hruns⟩ := h.doubleIndirect_isRun hnil
    have hne : data.maxDoubleIndirectRange ≠ 0 := by
      have hrange := hdouble.range
      have hextent := extent_pos hnil hruns
      omega
    rw [if_pos hne, if_neg hnil, checkBlockRun_spec ha hisRun, Check.visitRuns_cons]
    exact checkDoubleIndirect_spec ha hpos hsize hisRun.length_pos hdouble harrays hruns _ 0 _
      (Nat.zero_add _) (Nat.zero_le _)

lemma Check.visitAll_stack (c : Check) (stack : List BlockRun) (l : List ℕ) :
    ({ c with stack := stack } : Check).visitAll a l = { c.visitAll a l with stack := stack } := by
  induction l generalizing c with
  | nil => rfl
  | cons block l ih =>
    have hvisit : ({ c with stack := stack } : Check).visit a.geometry true (a.isAllocated block)
        block = { c.visit a.geometry true (a.isAllocated block) block with stack := stack } := by
      unfold visit isUsedAt setAt
      dsimp only
      split_ifs <;> rfl
    show (({ c with stack := stack } : Check).visit a.geometry true (a.isAllocated block)
      block).visitAll a l = _
    rw [hvisit, ih]
    rfl

lemma checkInode_spec (ha : a.Initialized) (hpos : 0 < a.geometry.runsPerBlock)
    (hsize : 8 ∣ a.geometry.blockSize) (h : IsInode a.geometry d inode v) (c : Check) :
    ∃ stack, checkInode a d inode c =
      (none, { c.visitRuns a (inode.visited a.geometry v) with stack := stack }) := by
  have hpush : ∀ c : Check, ∃ stack, (if !inode.attributes.isZero
      then { c with stack := inode.attributes :: c.stack } else c) =
      ({ c with stack := stack } : Check) := by
    intro c
    split
    · exact ⟨_, rfl⟩
    · exact ⟨c.stack, rfl⟩
  obtain ⟨stack, hstack⟩ := hpush (c.visitAll a (a.geometry.runBlocks inode.blockRun))
  refine ⟨stack, ?_⟩
  have hlink : inode.isSymLink = true ∧ (!inode.longSymLink) = true ↔
      inode.isShortSymLink = true := by
    unfold CheckedInode.isShortSymLink
    rw [Bool.and_eq_true]
  unfold checkInode CheckedInode.visited
  rw [checkBlockRun_spec ha h.isRun, Check.visitRuns_cons]
  dsimp only [andThen]
  rw [hstack]
  by_cases hshort : inode.isShortSymLink = true
  · rw [if_pos (hlink.2 hshort), if_neg (Nat.not_le.2 (h.shortSymLink hshort)), if_pos hshort]
    rfl
  · have hstream := h.isStream (by simpa using hshort)
    rw [if_neg fun hcon => hshort (hlink.1 hcon), if_neg hshort,
      checkDirectRange_spec ha hstream]
    dsimp only
    rw [checkIndirectRange_spec ha hpos hstream]
    dsimp only
    rw [checkDoubleIndirectRange_spec ha hpos hsize hstream, ← Check.visitRuns_append,
      ← Check.visitRuns_append, List.append_assoc]
    congr 1
    exact Check.visitAll_stack _ _ _

/-! ## The visited runs -/

lemma flatMap_range_take {α : Type*} (l : List α) (n m : ℕ) :
    (List.range m).flatMap (fun j => (l.drop (j * n)).take n) = l.take (m * n) := by
  induction m with
  | zero => rw [Nat.zero_mul]; rfl
  | succ m ih =>
    rw [List.range_succ, List.flatMap_append, ih, List.flatMap_singleton, Nat.succ_mul,
      List.take_add]

lemma IsDoubleIndirect.flatMap_ofArray (h : IsDoubleIndirect g d data v)
    (hper : 0 < data.runsPerArray g) :
    (List.range v.arrays.length).flatMap (v.ofArray (data.runsPerArray g)) =
      v.doubleIndirect := by
  have htake := flatMap_range_take v.doubleIndirect (data.runsPerArray g) v.arrays.length
  have hle : v.doubleIndirect.length ≤ v.arrays.length * data.runsPerArray g := by
    have hlt := Nat.lt_div_mul_add (a := v.doubleIndirect.length + data.runsPerArray g - 1) hper
    rw [h.arrays_length]
    omega
  rw [List.take_of_length_le hle] at htake
  exact htake

lemma walked_eq {runsPerBlock runsPerArray : ℕ} {l : List BlockRun}
    (h : l.length < runsPerBlock ∨ l.length = runsPerBlock ∧ runsPerArray = runsPerBlock) :
    walked runsPerBlock runsPerArray l = l := by
  unfold walked
  rcases h with hlt | ⟨heq, hper⟩
  · rw [if_pos hlt]
  · rw [if_neg (by omega), hper, ← heq]
    apply List.ext_getElem
    · rw [List.length_map, List.length_range]
    · intro i hi hi'
      rw [List.getElem_map, List.getElem_range, Nat.mod_eq_of_lt hi', List.getD_eq_getElem _ _ hi']

lemma walkedFrom_perm (h : IsDoubleIndirect g d data v) (hper : 0 < data.runsPerArray g)
    (hwalked : ∀ j < v.arrays.length,
      walked g.runsPerBlock (data.runsPerArray g) (v.ofArray (data.runsPerArray g) j) =
        v.ofArray (data.runsPerArray g) j) :
    (walkedFrom g data v 0).Perm (v.arrays ++ v.doubleIndirect) := by
  have hmap : (List.range v.arrays.length).map (fun j => v.arrays.getD j .zero) = v.arrays := by
    apply List.ext_getElem
    · rw [List.length_map, List.length_range]
    · intro i hi hi'
      rw [List.getElem_map, List.getElem_range, List.getD_eq_getElem _ _ hi']
  have hperm := List.map_append_flatMap_perm (List.range v.arrays.length)
    (fun j => v.arrays.getD j .zero) (v.ofArray (data.runsPerArray g))
  rw [hmap, h.flatMap_ofArray hper] at hperm
  apply List.Perm.trans ?_ hperm.symm
  apply List.Perm.of_eq
  unfold walkedFrom
  rw [Nat.sub_zero, ← List.range_eq_range']
  apply List.flatMap_congr
  intro j hj
  rw [hwalked j (List.mem_range.1 hj)]

/-- The arrays of the walk have no runs behind their first block. -/
def DataStream.FirstBlocks (data : DataStream) (g : Geometry) (v : StreamRuns) : Prop :=
  data.doubleIndirect.length = 1 ∨ v.doubleIndirect.length < g.runsPerBlock

lemma walked_ofArray (hfirst : data.FirstBlocks g v) (j : ℕ) :
    walked g.runsPerBlock (data.runsPerArray g) (v.ofArray (data.runsPerArray g) j) =
      v.ofArray (data.runsPerArray g) j := by
  apply walked_eq
  have hlength : (v.ofArray (data.runsPerArray g) j).length =
      min (data.runsPerArray g) (v.doubleIndirect.length - j * data.runsPerArray g) := by
    unfold StreamRuns.ofArray
    rw [List.length_take, List.length_drop]
  rcases hfirst with hone | hfew
  · have hper : data.runsPerArray g = g.runsPerBlock := by
      unfold DataStream.runsPerArray
      rw [hone, Nat.one_mul]
    omega
  · omega

lemma visited_perm (hpos : 0 < g.runsPerBlock) (h : IsInode g d inode v)
    (hfirst : inode.isShortSymLink = true ∨ inode.data.FirstBlocks g v) :
    (inode.visited g v).Perm (inode.runs v) := by
  unfold CheckedInode.visited CheckedInode.runs
  apply List.Perm.cons
  by_cases hshort : inode.isShortSymLink = true
  · rw [if_pos hshort, if_pos hshort]
  · have hfirst := hfirst.resolve_left hshort
    have hstream := h.isStream (by simpa using hshort)
    rw [if_neg hshort, if_neg hshort]
    unfold StreamRuns.all StreamRuns.ofArrays
    rw [List.perm_iff_count]
    intro run
    by_cases hdouble : v.doubleIndirect = []
    · by_cases hindirect : v.indirect = []
      · rw [if_pos hdouble, if_pos hindirect, if_pos hdouble, if_pos hindirect, hdouble, hindirect]
        simp only [List.count_append, List.count_nil]
      · rw [if_pos hdouble, if_neg hindirect, if_pos hdouble, if_neg hindirect, hdouble]
        simp only [List.count_append, List.count_cons, List.count_nil]
        omega
    · have hindirect : v.indirect ≠ [] := fun hnil => hdouble (hstream.noIndirect hnil).2
      have hisRun := (hstream.doubleIndirect_isRun hdouble).1
      have hper : 0 < inode.data.runsPerArray g := Nat.mul_pos hisRun.length_pos hpos
      have hwalk := walkedFrom_perm (hstream.doubleIndirect hdouble) hper
        fun j _ => walked_ofArray hfirst j
      have hcount := List.perm_iff_count.1 hwalk run
      rw [if_neg hdouble, if_neg hindirect, if_neg hdouble, if_neg hindirect]
      simp only [List.count_append, List.count_cons, List.count_nil] at hcount ⊢
      omega

lemma visited_subset (hpos : 0 < g.runsPerBlock) :
    ∀ run ∈ inode.visited g v, run ∈ inode.runs v := by
  unfold CheckedInode.visited CheckedInode.runs
  intro run hmem
  rcases List.mem_cons.1 hmem with rfl | hmem
  · exact List.mem_cons_self
  apply List.mem_cons_of_mem
  by_cases hshort : inode.isShortSymLink = true
  · rw [if_pos hshort] at hmem
    cases hmem
  rw [if_neg hshort] at hmem ⊢
  unfold StreamRuns.all StreamRuns.ofArrays
  simp only [List.mem_append] at hmem ⊢
  rcases hmem with (hmem | hmem) | hmem
  · exact .inl (.inl (.inl hmem))
  · by_cases hindirect : v.indirect = []
    · rw [if_pos hindirect] at hmem
      cases hmem
    · rw [if_neg hindirect] at hmem ⊢
      rcases List.mem_cons.1 hmem with rfl | hmem
      · exact .inr (.inl List.mem_cons_self)
      · exact .inl (.inl (.inr hmem))
  · by_cases hdouble : v.doubleIndirect = []
    · rw [if_pos hdouble] at hmem
      cases hmem
    · rw [if_neg hdouble] at hmem ⊢
      rcases List.mem_cons.1 hmem with rfl | hmem
      · exact .inr (.inr List.mem_cons_self)
      · unfold walkedFrom at hmem
        obtain ⟨j, hj, hmem⟩ := List.mem_flatMap.1 hmem
        have hlt : j < v.arrays.length := by
          rw [Nat.sub_zero, ← List.range_eq_range'] at hj
          exact List.mem_range.1 hj
        rcases List.mem_cons.1 hmem with rfl | hmem
        · rw [List.getD_eq_getElem _ _ hlt]
          exact .inr (.inr (List.mem_cons_of_mem _ (List.getElem_mem hlt)))
        · apply Or.inl
          apply Or.inr
          have hsub : run ∈ v.ofArray (inode.data.runsPerArray g) j := by
            unfold walked at hmem
            split at hmem
            · exact hmem
            · next hfull =>
              obtain ⟨i, _, rfl⟩ := List.mem_map.1 hmem
              have hi := (Nat.mod_lt i hpos).trans_le (Nat.le_of_not_lt hfull)
              rw [List.getD_eq_getElem _ _ hi]
              exact List.getElem_mem hi
          exact List.mem_of_mem_drop (List.mem_of_mem_take hsub)

lemma walked_not_nodup {runsPerBlock runsPerArray : ℕ} {l : List BlockRun}
    (hpos : 0 < runsPerBlock) (hper : runsPerBlock < runsPerArray)
    (hfull : runsPerBlock ≤ l.length) (hrun : ∀ run ∈ l, g.IsRun run) :
    ¬((walked runsPerBlock runsPerArray l).flatMap g.runBlocks).Nodup := by
  intro hnodup
  unfold walked at hnodup
  rw [if_neg (Nat.not_lt.2 hfull)] at hnodup
  have hpairs := List.pairwise_map.1 (List.nodup_flatMap.1 hnodup).2
  -- The visits with the numbers 0 and `runsPerBlock` are visits of the same run.
  have hpair := List.pairwise_iff_getElem.1 hpairs 0 runsPerBlock
    (by rw [List.length_range]; omega) (by rw [List.length_range]; exact hper) hpos
  rw [List.getElem_range, List.getElem_range, Nat.zero_mod, Nat.mod_self] at hpair
  have hlt : 0 < l.length := by omega
  have hfirst := (hrun _ (List.getElem_mem hlt)).length_pos
  rw [List.getD_eq_getElem _ _ hlt] at hpair
  have hmem : g.firstBlock l[0] + 0 ∈ g.runBlocks l[0] :=
    List.mem_map.2 ⟨0, List.mem_range.2 hfirst, rfl⟩
  exact hpair hmem hmem

lemma visited_not_nodup (hpos : 0 < g.runsPerBlock) (h : IsInode g d inode v)
    (hshort : inode.isShortSymLink = false) (hfirst : ¬inode.data.FirstBlocks g v) :
    ¬((inode.visited g v).flatMap g.runBlocks).Nodup := by
  have hstream := h.isStream hshort
  obtain ⟨hone, hmany⟩ := not_or.1 hfirst
  have hdouble : v.doubleIndirect ≠ [] := by
    intro hnil
    rw [hnil, List.length_nil] at hmany
    exact hmany hpos
  obtain ⟨hisRun, -, hruns⟩ := hstream.doubleIndirect_isRun hdouble
  have hlength := hisRun.length_pos
  have htwo : 2 * g.runsPerBlock ≤ inode.data.runsPerArray g :=
    Nat.mul_le_mul_right _ (by omega)
  have hper : 0 < inode.data.runsPerArray g := by omega
  have harray := (hstream.doubleIndirect hdouble).array_lt hper (k := 0) (by omega)
  rw [Nat.zero_div] at harray
  intro hnodup
  have hwalk : (walked g.runsPerBlock (inode.data.runsPerArray g)
      (v.ofArray (inode.data.runsPerArray g) 0)).Sublist (inode.visited g v) := by
    have hcount : v.arrays.length - 0 = v.arrays.length - 1 + 1 := by omega
    unfold CheckedInode.visited walkedFrom
    rw [if_neg (by rw [hshort]; exact Bool.false_ne_true), if_neg hdouble, hcount,
      List.range'_succ, List.flatMap_cons]
    apply List.Sublist.cons
    apply List.Sublist.trans ?_ (List.sublist_append_right _ _)
    apply List.Sublist.cons
    exact (List.sublist_cons_self _ _).trans (List.sublist_append_left _ _)
  apply walked_not_nodup hpos ?_ ?_ ?_ ((hwalk.flatMap _).nodup hnodup)
  · omega
  · unfold StreamRuns.ofArray
    rw [List.length_take, List.length_drop]
    omega
  · exact fun run hmem => hruns run (List.mem_of_mem_drop (List.mem_of_mem_take hmem))

/-! ## The check covers the stream -/

/-- The check of an inode succeeds and sets exactly the blocks of the inode; it finds none of them
set that was not set before, and none missing that is allocated. -/
def CoversStream (a : BlockAllocator) (d : Disk) (inode : CheckedInode) (v : StreamRuns) : Prop :=
  ∀ c : Check,
    (checkInode a d inode c).1 = none ∧
    (∀ block, (checkInode a d inode c).2.IsSet a.geometry block ↔
      c.IsSet a.geometry block ∨ block ∈ inode.blocks a.geometry v) ∧
    ((∀ block ∈ inode.blocks a.geometry v, ¬c.IsSet a.geometry block) →
      (checkInode a d inode c).2.alreadySet = c.alreadySet) ∧
    ((∀ block ∈ inode.blocks a.geometry v, a.isAllocated block = true) →
      (checkInode a d inode c).2.missing = c.missing)

def Check.empty : Check where
  bitmap := fun _ => false
  invalidBlockRun := false
  missingBlocks := false
  blocksAlreadySet := false
  missing := 0
  alreadySet := 0
  stack := []

lemma eight_dvd_blockSize (hmin : 10 ≤ g.blockShift) : 8 ∣ g.blockSize := by
  have hdvd : 2 ^ 3 ∣ 2 ^ g.blockShift := Nat.pow_dvd_pow 2 (by omega)
  exact hdvd

lemma visited_blocks_subset (hpos : 0 < g.runsPerBlock) :
    (inode.visited g v).flatMap g.runBlocks ⊆ inode.blocks g v := by
  intro block hmem
  obtain ⟨run, hrun, hblock⟩ := List.mem_flatMap.1 hmem
  exact List.mem_flatMap.2 ⟨run, visited_subset hpos run hrun, hblock⟩

lemma CoversStream.needs (ha : a.Initialized) (hmin : 10 ≤ a.geometry.blockShift)
    (hmax : a.geometry.blockShift ≤ 13) (h : IsInode a.geometry d inode v)
    (hcovers : CoversStream a d inode v) :
    (∀ block ∈ inode.blocks a.geometry v, a.geometry.InCheckBitmap block) ∧
      (inode.isShortSymLink = true ∨ inode.data.FirstBlocks a.geometry v) := by
  have hpos := (sizes_bounds hmin hmax).2.1
  have hsub := @visited_blocks_subset _ v inode hpos
  obtain ⟨-, hset, halready, -⟩ := hcovers .empty
  have hin : ∀ block ∈ inode.blocks a.geometry v, a.geometry.InCheckBitmap block :=
    fun block hmem => ((hset block).2 (.inr hmem)).1
  refine ⟨hin, ?_⟩
  by_contra hnot
  obtain ⟨hlong, hfirst⟩ := not_or.1 hnot
  -- Nothing was set before, but a block is visited twice.
  have hsame := halready fun block _ hbit => Bool.false_ne_true hbit.2
  obtain ⟨stack, hcheck⟩ := checkInode_spec ha hpos (eight_dvd_blockSize hmin) h .empty
  have hcount := (Check.empty.visitAll_spec fun block hmem => hin block (hsub hmem)).2.1
  rw [hcheck] at hsame
  change (Check.empty.visitRuns a (inode.visited a.geometry v)).alreadySet = _ at hsame
  unfold Check.visitRuns at hsame
  rw [hcount, Nat.add_eq_left] at hsame
  exact visited_not_nodup hpos h (by simpa using hlong) hfirst (revisits_eq_zero_iff.1 hsame).1

/-- The check of an inode covers its stream if and only if the check bitmap has bits for all of
its blocks, and no double indirect array has runs behind its first block. -/
theorem checkInode_right (ha : a.Initialized) (hmin : 10 ≤ a.geometry.blockShift)
    (hmax : a.geometry.blockShift ≤ 13) (h : IsInode a.geometry d inode v) :
    CoversStream a d inode v ↔
      (∀ block ∈ inode.blocks a.geometry v, a.geometry.InCheckBitmap block) ∧
        (inode.isShortSymLink = true ∨ inode.data.FirstBlocks a.geometry v) := by
  have hpos := (sizes_bounds hmin hmax).2.1
  have hsub := @visited_blocks_subset _ v inode hpos
  constructor
  · exact fun hcovers => hcovers.needs ha hmin hmax h
  · rintro ⟨hin, hfirst⟩ c
    obtain ⟨stack, hcheck⟩ := checkInode_spec ha hpos (eight_dvd_blockSize hmin) h c
    have hperm : ((inode.visited a.geometry v).flatMap a.geometry.runBlocks).Perm
        (inode.blocks a.geometry v) := (visited_perm hpos h hfirst).flatMap_right _
    obtain ⟨hbitmap, hcount, hmissing⟩ :=
      c.visitAll_spec (a := a) fun block hmem => hin block (hsub hmem)
    rw [hcheck]
    refine ⟨rfl, fun block => ?_, fun hfresh => ?_, fun hall => ?_⟩
    · unfold Check.IsSet
      dsimp only [Check.visitRuns]
      rw [hbitmap, marksAfter_iff, hperm.mem_iff]
      constructor
      · rintro ⟨hblock, hbit | hmem⟩
        · exact .inl ⟨hblock, hbit⟩
        · exact .inr hmem
      · rintro (⟨hblock, hbit⟩ | hmem)
        · exact ⟨hblock, .inl hbit⟩
        · exact ⟨hin block hmem, .inr hmem⟩
    · dsimp only [Check.visitRuns]
      rw [hcount, revisits_eq_zero_iff.2 ⟨hperm.nodup_iff.2 h.nodup, ?_⟩, Nat.add_zero]
      intro block hmem
      by_contra hbit
      exact hfresh block (hsub hmem) ⟨hin block (hsub hmem), by simpa using hbit⟩
    · exact hmissing fun block hmem => hall block (hsub hmem)

/-- An inode in the first group with a stream of the given length. -/
def sampleInode (g : Geometry) (length n : ℕ) : CheckedInode where
  blockRun := .run 0 100 1
  attributes := .zero
  isSymLink := false
  longSymLink := false
  shortSymLinkLength := 0
  data := sampleStream g length n

lemma isInode_1024 {n : ℕ} (hn : 0 < n) (hn' : n ≤ 262144) :
    IsInode volume1024 (sampleDisk volume1024 4 n) (sampleInode volume1024 4 n)
      (sampleRuns volume1024 4 n) := by
  have hstream : IsStream volume1024 (sampleDisk volume1024 4 n) (sampleStream volume1024 4 n)
      (sampleRuns volume1024 4 n) :=
    isStream_sample rfl rfl (by decide) (by decide) (by decide) (by decide) hn (by omega)
      (hn'.trans (by decide))
  refine ⟨sample_isRun rfl rfl (by decide) (by decide) (by decide) (by decide), nofun,
    fun _ => hstream, ?_⟩
  have hascending := sample_ascending (g := volume1024) (n := n) rfl (by decide)
    (by decide : 4 ≤ numArrayBlocks) (by omega)
  have hruns : (sampleInode volume1024 4 n).runs (sampleRuns volume1024 4 n) =
      .run 0 100 1 :: ((sampleRuns volume1024 4 n).all ++
        ((sampleStream volume1024 4 n).indirect :: (sampleStream volume1024 4 n).doubleIndirect ::
          (sampleRuns volume1024 4 n).arrays)) := by
    rw [← sample_ofArrays (by decide) hn]
    rfl
  unfold CheckedInode.blocks
  rw [hruns]
  refine nodup_runBlocks (List.pairwise_cons.2 ⟨fun run hmem => ?_, hascending⟩)
  -- The first run of the stream lies behind the inode, and all others behind that one.
  obtain ⟨rest, hrest⟩ : ∃ rest, (sampleRuns volume1024 4 n).all ++
      ((sampleStream volume1024 4 n).indirect :: (sampleStream volume1024 4 n).doubleIndirect ::
        (sampleRuns volume1024 4 n).arrays) = .run 1 0 1 :: rest := ⟨_, rfl⟩
  have hfirst : volume1024.firstBlock (.run 1 0 1) = 65536 := sample_firstBlock rfl 1 0 1
  have hinode : volume1024.firstBlock (.run 0 100 1) = 100 := sample_firstBlock rfl 0 100 1
  rw [hrest] at hascending hmem
  rw [hinode, run_length]
  rcases List.mem_cons.1 hmem with rfl | hmem
  · rw [hfirst]
    decide
  · have hle := (List.pairwise_cons.1 hascending).1 run hmem
    rw [hfirst, run_length] at hle
    omega

/-- The block allocator of this volume, with all blocks allocated. -/
def allocator1024 : BlockAllocator := .ofBitmap volume1024 fun _ _ => true

/-- A stream with 100 runs in its double indirect range. -/
theorem checkInode_right_sample :
    CoversStream allocator1024 (sampleDisk volume1024 4 100) (sampleInode volume1024 4 100)
        (sampleRuns volume1024 4 100) ↔
      (∀ block ∈ (sampleInode volume1024 4 100).blocks volume1024 (sampleRuns volume1024 4 100),
        volume1024.InCheckBitmap block) ∧
      ((sampleInode volume1024 4 100).isShortSymLink = true ∨
        (sampleInode volume1024 4 100).data.FirstBlocks volume1024 (sampleRuns volume1024 4 100)) :=
  checkInode_right (initialized_ofBitmap _ _) (by decide) (by decide)
    (isInode_1024 (by decide) (by decide))

/-- With 128 runs, the first block of the first array is full. -/
theorem not_checkInode_right : ¬∀ (a : BlockAllocator) (d : Disk) (inode : CheckedInode)
    (v : StreamRuns), a.Initialized → 10 ≤ a.geometry.blockShift → a.geometry.blockShift ≤ 13 →
      IsInode a.geometry d inode v → CoversStream a d inode v := by
  intro hall
  have hinode : IsInode volume1024 (sampleDisk volume1024 4 128) (sampleInode volume1024 4 128)
    (sampleRuns volume1024 4 128) := isInode_1024 (by decide) (by decide)
  have ha : allocator1024.Initialized := initialized_ofBitmap _ _
  have hcovers := hall allocator1024 _ _ _ ha (by decide) (by decide) hinode
  rcases (hcovers.needs ha (by decide) (by decide) hinode).2 with hshort | hfour | hmany
  · cases hshort
  · exact absurd hfour (by decide)
  · rw [sample_doubleIndirect_length] at hmany
    exact absurd hmany (by decide)

end Haiku.Bfs
