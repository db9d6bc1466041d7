import Haiku.Bfs.CheckInode

/-!
# Checking a block run

`CheckBlockRun()` visits the blocks of a valid run one after the other. What a sequence of visits
leaves behind: the marks in the check bitmap, and how many blocks were set already or are missing
in the block bitmap.
-/

namespace Haiku.Bfs

open Haiku.Lib

variable {a : BlockAllocator} {c : Check} {l l' : List ℕ}

def Check.visitAll (c : Check) (a : BlockAllocator) (blocks : List ℕ) : Check :=
  blocks.foldl (fun c block => c.visit a.geometry true (a.isAllocated block) block) c

lemma Check.visitAll_append (c : Check) (a : BlockAllocator) (l l' : List ℕ) :
    c.visitAll a (l ++ l') = (c.visitAll a l).visitAll a l' := by
  unfold visitAll
  rw [List.foldl_append]

lemma checkRunBits_spec (ha : a.Initialized) {group block : ℕ}
    (hgroup : group < a.geometry.numGroups) (hblock : block < (a.groups group).numBlocks)
    (length : ℕ) : ∀ (pos : ℕ) (c : Check),
      checkRunBits a.geometry (setTo a (a.groups group) block) true
        (group * a.geometry.bitsPerGroup + block * a.geometry.bitsPerBlock) length pos c =
      (length - min length ((setTo a (a.groups group) block).numBits - pos),
        c.visitAll a (List.range' (a.geometry.blockAt group block pos)
          (min length ((setTo a (a.groups group) block).numBits - pos)))) := by
  induction length with
  | zero =>
    intro pos c
    rw [Nat.zero_min]
    rfl
  | succ length ih =>
    intro pos c
    unfold checkRunBits
    by_cases hlt : pos < (setTo a (a.groups group) block).numBits
    · have hbits := (setTo_numBits ha hgroup hblock pos).1 hlt
      have hin := hbits.2.trans_le (a.geometry.numBits_le hgroup)
      have hused : (setTo a (a.groups group) block).isUsed pos =
          a.isAllocated (a.geometry.blockAt group block pos) := by
        rw [isAllocated_blockAt hin]
        exact isUsed_setTo ha hgroup hblock hlt
      have hmin : min (length + 1) ((setTo a (a.groups group) block).numBits - pos) =
          min length ((setTo a (a.groups group) block).numBits - (pos + 1)) + 1 := by omega
      have hnext : a.geometry.blockAt group block (pos + 1) =
          a.geometry.blockAt group block pos + 1 := by
        unfold Geometry.blockAt
        omega
      have hplace : group * a.geometry.bitsPerGroup + block * a.geometry.bitsPerBlock + pos =
          a.geometry.blockAt group block pos := by
        unfold Geometry.blockAt
        omega
      rw [if_pos hlt, hused, hplace, ih, hmin, hnext, List.range'_succ, Nat.add_sub_add_right]
      rfl
    · have hmin : min (length + 1) ((setTo a (a.groups group) block).numBits - pos) = 0 := by omega
      rw [if_neg hlt, hmin]
      rfl

lemma checkRunBlocks_spec (ha : a.Initialized) {group : ℕ}
    (hgroup : group < a.geometry.numGroups) (rounds : ℕ) :
    ∀ (block pos length : ℕ) (c : Check), block + rounds = a.geometry.blocksPerGroup →
      (0 < length → pos < a.geometry.bitsPerBlock ∧
        block * a.geometry.bitsPerBlock + pos + length ≤ a.geometry.numBits group) →
      checkRunBlocks a true group rounds block pos length c =
        (none, c.visitAll a (List.range' (a.geometry.blockAt group block pos) length)) := by
  induction rounds with
  | zero =>
    intro block pos length c hblock hlength
    have hend := a.geometry.numBits_le hgroup
    rw [a.geometry.bitsPerGroup_eq, ← hblock, Nat.add_zero, Nat.mul_comm] at hend
    have hzero : length = 0 := by
      by_contra hne
      have hfits := (hlength (Nat.pos_of_ne_zero hne)).2
      omega
    rw [hzero]
    rfl
  | succ rounds ih =>
    intro block pos length c hblock hlength
    unfold checkRunBlocks
    by_cases hpos : 0 < length
    · obtain ⟨hbit, hfits⟩ := hlength hpos
      have hin : block < (a.groups group).numBlocks := by
        rw [ha.numBlocks group hgroup, a.geometry.lt_numBitmapBlocks_iff]
        omega
      have hbits := setTo_numBits_eq ha hgroup hin
      have hsucc := Nat.succ_mul block a.geometry.bitsPerBlock
      rw [if_pos hpos]
      dsimp only
      rw [if_neg (by omega), checkRunBits_spec ha hgroup hin]
      dsimp only
      rw [ih (block + 1) 0 _ _ (by omega) fun hrest => ⟨a.geometry.bitsPerBlock_pos, ?_⟩,
        ← Check.visitAll_append]
      · -- What is left of the run begins with the next bitmap block.
        congr 2
        by_cases hrest : length ≤ (setTo a (a.groups group) block).numBits - pos
        · rw [Nat.min_eq_left hrest, Nat.sub_self, List.range'_zero, List.append_nil]
        · have hnext : a.geometry.blockAt group (block + 1) 0 =
              a.geometry.blockAt group block pos +
                ((setTo a (a.groups group) block).numBits - pos) := by
            unfold Geometry.blockAt
            rw [hsucc]
            omega
          rw [Nat.min_eq_right (by omega), hnext, List.range'_append_1]
          congr 1
          omega
      · change (block + 1) * _ = _ at hsucc
        omega
    · have hzero : length = 0 := by omega
      rw [if_neg hpos, hzero]
      rfl

lemma checkBlockRun_spec (ha : a.Initialized) {run : BlockRun} (h : a.geometry.IsRun run)
    (c : Check) :
    checkBlockRun a run true c = (none, c.visitAll a (a.geometry.runBlocks run)) := by
  have hnonneg := h.nonneg
  have hlt := h.group_lt
  have hpos := h.length_pos
  have hend := h.end_le
  have hgroup : run.allocationGroup.toNat < a.geometry.numGroups := by omega
  have hbits := ha.numBits _ hgroup
  have hdiv := Nat.div_add_mod run.start a.geometry.bitsPerBlock
  have hmod := Nat.mod_lt run.start a.geometry.bitsPerBlock_pos
  have hle := h.end_le_group
  rw [a.geometry.bitsPerGroup_eq] at hle
  have hblock : run.start / a.geometry.bitsPerBlock < a.geometry.blocksPerGroup :=
    Nat.div_lt_of_lt_mul (by omega)
  rw [Nat.mul_comm] at hdiv
  unfold checkBlockRun
  rw [if_neg (by omega)]
  dsimp only
  rw [checkRunBlocks_spec ha hgroup _ _ _ _ _ (by omega) fun _ => ⟨hmod, by omega⟩]
  congr 2
  unfold Geometry.runBlocks Geometry.firstBlock Geometry.blockAt
  rw [hdiv, List.range'_eq_map_range]

/-! ## What the visits leave behind -/

def Geometry.InCheckBitmap (g : Geometry) (block : ℕ) : Prop := block / 32 < g.bitmapSize / 4

def Check.IsSet (c : Check) (g : Geometry) (block : ℕ) : Prop :=
  g.InCheckBitmap block ∧ c.bitmap block = true

variable {g : Geometry} {block : ℕ}

section

variable (h : g.InCheckBitmap block)
include h

lemma Geometry.InCheckBitmap.index_eq :
    block / 32 % 2 ^ 32 = block / 32 ∧ block / 32 * 32 + block % 32 = block := by
  have hsize : g.bitmapSize < 2 ^ 32 := Nat.mod_lt _ (by decide)
  unfold InCheckBitmap at h
  omega

lemma Check.isUsedAt_eq (c : Check) : c.isUsedAt g block = c.bitmap block := by
  obtain ⟨hindex, hplace⟩ := h.index_eq
  unfold isUsedAt
  dsimp only
  rw [hindex, hplace, if_neg (Nat.lt_asymm h)]

lemma Check.setAt_eq (c : Check) :
    c.setAt g block = { c with bitmap := Function.update c.bitmap block true } := by
  obtain ⟨hindex, hplace⟩ := h.index_eq
  unfold setAt
  dsimp only
  rw [hindex, hplace, if_neg (Nat.lt_asymm h)]

lemma Check.visit_spec (c : Check) (used : Bool) :
    (c.visit g true used block).bitmap = Function.update c.bitmap block true ∧
    (c.visit g true used block).alreadySet =
      c.alreadySet + (if c.bitmap block then 1 else 0) ∧
    (used = true → (c.visit g true used block).missing = c.missing) := by
  unfold visit
  dsimp only
  have hused : ∀ c : Check, c.isUsedAt g block = c.bitmap block := isUsedAt_eq h
  have hset : ∀ c : Check, c.setAt g block =
      { c with bitmap := Function.update c.bitmap block true } := setAt_eq h
  rw [hused, hset]
  by_cases hbit : c.bitmap block = true
  · have hsame : Function.update c.bitmap block true = c.bitmap := by
      rw [← hbit, Function.update_eq_self]
    cases used <;> simp [hbit, hsame]
  · cases used <;> simp [hbit]

end

lemma Check.visitAll_spec (h : ∀ block ∈ l, a.geometry.InCheckBitmap block) (c : Check) :
    (c.visitAll a l).bitmap = marksAfter c.bitmap l ∧
    (c.visitAll a l).alreadySet = c.alreadySet + revisits c.bitmap l ∧
    ((∀ block ∈ l, a.isAllocated block = true) → (c.visitAll a l).missing = c.missing) := by
  induction l generalizing c with
  | nil => exact ⟨rfl, rfl, fun _ => rfl⟩
  | cons block l ih =>
    obtain ⟨hbitmap, hset, hmissing⟩ :=
      c.visit_spec (h block List.mem_cons_self) (a.isAllocated block)
    obtain ⟨hbitmap', hset', hmissing'⟩ :=
      ih (fun x hx => h x (List.mem_cons_of_mem block hx))
        (c.visit a.geometry true (a.isAllocated block) block)
    refine ⟨?_, ?_, fun hall => ?_⟩
    · rw [hbitmap] at hbitmap'
      exact hbitmap'
    · rw [hbitmap, hset, Nat.add_assoc] at hset'
      exact hset'
    · have hrest := hmissing' fun x hx => hall x (List.mem_cons_of_mem block hx)
      rw [hmissing (hall block List.mem_cons_self)] at hrest
      exact hrest

/-!
## The walk of `CheckInode()`

Which runs the loops of `CheckInode()` visit, in which order. The loop over a double indirect array
reads the first block of the array only: if that block is full, its runs are visited again instead
of those of the other blocks.
-/

variable {a : BlockAllocator} {d : Disk} {data : DataStream} {v : StreamRuns} {l : List BlockRun}

def Check.visitRuns (c : Check) (a : BlockAllocator) (runs : List BlockRun) : Check :=
  c.visitAll a (runs.flatMap a.geometry.runBlocks)

lemma Check.visitRuns_append (c : Check) (l l' : List BlockRun) :
    c.visitRuns a (l ++ l') = (c.visitRuns a l).visitRuns a l' := by
  unfold visitRuns
  rw [List.flatMap_append, visitAll_append]

lemma Check.visitRuns_cons (c : Check) (run : BlockRun) (l : List BlockRun) :
    c.visitRuns a (run :: l) = (c.visitAll a (a.geometry.runBlocks run)).visitRuns a l := by
  unfold visitRuns
  rw [List.flatMap_cons, visitAll_append]

lemma checkRuns_spec (ha : a.Initialized) (runs : ℕ → BlockRun)
    (hrun : ∀ run ∈ l, a.geometry.IsRun run) (rounds : ℕ) : ∀ (index : ℕ) (c : Check),
      l.length ≤ rounds → (∀ i < rounds, runs (index + i) = l.getD i .zero) →
      checkRuns a runs rounds index c =
        (if l.length < rounds then .zero else .next (index + rounds), c.visitRuns a l) := by
  induction l generalizing rounds with
  | nil =>
    intro index c _ hruns
    cases rounds with
    | zero => rfl
    | succ rounds =>
      have hzero : runs index = .zero := hruns 0 (Nat.succ_pos _)
      unfold checkRuns
      rw [hzero, if_pos (by decide), List.length_nil, if_pos (Nat.succ_pos rounds)]
      rfl
  | cons x l ih =>
    intro index c hle hruns
    rw [List.length_cons] at hle ⊢
    obtain ⟨rounds, rfl⟩ : ∃ k, rounds = k + 1 := ⟨rounds - 1, by omega⟩
    have hx : runs index = x := hruns 0 (Nat.succ_pos _)
    have hisRun := hrun x List.mem_cons_self
    have hrest : ∀ i < rounds, runs (index + 1 + i) = l.getD i .zero := by
      intro i hi
      have hnext := hruns (i + 1) (by omega)
      rw [List.getD_cons_succ] at hnext
      rw [← hnext]
      congr 1
      omega
    unfold checkRuns
    rw [hx, if_neg (by rw [hisRun.ne_zero]; exact Bool.false_ne_true), checkBlockRun_spec ha hisRun]
    dsimp only
    rw [ih (fun run hmem => hrun run (List.mem_cons_of_mem x hmem)) rounds (index + 1) _ (by omega)
      hrest, Check.visitRuns_cons]
    have hsum : index + 1 + rounds = index + (rounds + 1) := by omega
    simp only [Nat.add_lt_add_iff_right, hsum]

lemma checkIndirect_spec (ha : a.Initialized) (hpos : 0 < a.geometry.runsPerBlock) {block : ℤ}
    (rounds : ℕ) : ∀ (l : List BlockRun) (i : ℕ) (c : Check),
      (∀ run ∈ l, a.geometry.IsRun run) → l.length ≤ rounds * a.geometry.runsPerBlock →
      (∀ k < rounds * a.geometry.runsPerBlock,
        d.entry a.geometry block (i * a.geometry.runsPerBlock + k) = some (l.getD k .zero)) →
      checkIndirect a d block rounds i c = (none, c.visitRuns a l) := by
  induction rounds with
  | zero =>
    intro l i c _ hle _
    rw [Nat.zero_mul, Nat.le_zero, List.length_eq_zero_iff] at hle
    rw [hle]
    rfl
  | succ rounds ih =>
    intro l i c hrun hle hentry
    rw [Nat.succ_mul] at hle hentry
    obtain ⟨runs, hblock, hruns⟩ := exists_block (f := fun k => l.getD k .zero) hpos
      fun k hk => hentry k (by omega)
    have hspec := checkRuns_spec ha runs (l := l.take a.geometry.runsPerBlock)
      (fun r hr => hrun r (List.mem_of_mem_take hr)) a.geometry.runsPerBlock 0 c
      (List.length_take_le _ _) fun k hk => by
        rw [Nat.zero_add, hruns k hk, List.getD_eq_getElem?_getD, List.getD_eq_getElem?_getD,
          List.getElem?_take_of_lt hk]
    unfold checkIndirect
    rw [hblock]
    dsimp only
    rw [hspec]
    by_cases hlast : l.length < a.geometry.runsPerBlock
    · -- The runs end within this block.
      rw [if_pos (by rw [List.length_take]; omega), List.take_of_length_le hlast.le]
    · rw [if_neg (by rw [List.length_take]; omega)]
      dsimp only
      rw [ih (l.drop a.geometry.runsPerBlock) (i + 1) _
        (fun r hr => hrun r (List.mem_of_mem_drop hr)) (by rw [List.length_drop]; omega)
        (fun k hk => ?_), ← Check.visitRuns_append, List.take_append_drop]
      have hnext := hentry (a.geometry.runsPerBlock + k) (by omega)
      rw [← Nat.add_assoc, ← Nat.succ_mul] at hnext
      rw [hnext, List.getD_eq_getElem?_getD, List.getD_eq_getElem?_getD, List.getElem?_drop]

/-! ## Double indirect arrays -/

/-- The runs that are visited of a double indirect array: if the first block is not full, all runs
of the array, else those of the first block once for each block. -/
def walked (runsPerBlock runsPerArray : ℕ) (l : List BlockRun) : List BlockRun :=
  if l.length < runsPerBlock then l
  else (List.range runsPerArray).map fun i => l.getD (i % runsPerBlock) .zero

variable {runs : ℕ → BlockRun} {runsPerBlock runsPerArray : ℕ}

lemma checkArrayRuns_zero (ha : a.Initialized) (hrun : ∀ run ∈ l, a.geometry.IsRun run)
    (hlength : l.length < runsPerBlock) (hper : runsPerBlock ≤ runsPerArray)
    (hruns : ∀ k < runsPerBlock, runs k = l.getD k .zero) (rounds : ℕ) :
    ∀ (index : ℕ) (c : Check), index ≤ l.length → l.length < index + rounds →
      checkArrayRuns a runs runsPerBlock runsPerArray rounds index c =
        (.zero, c.visitRuns a (l.drop index)) := by
  induction rounds with
  | zero =>
    intro index c hle hlt
    omega
  | succ rounds ih =>
    intro index c hle hlt
    unfold checkArrayRuns
    rw [Nat.mod_eq_of_lt (by omega), hruns index (by omega)]
    by_cases hend : index < l.length
    · have hisRun := hrun _ (List.getElem_mem hend)
      rw [List.getD_eq_getElem _ _ hend,
        if_neg (by rw [hisRun.ne_zero]; exact Bool.false_ne_true), checkBlockRun_spec ha hisRun]
      dsimp only
      rw [Nat.mod_eq_of_lt (by omega), if_pos (Nat.succ_ne_zero index), ih _ _ hend (by omega),
        List.drop_eq_getElem_cons hend, Check.visitRuns_cons]
    · rw [List.getD_eq_default _ _ (Nat.le_of_not_lt hend), if_pos (by decide),
        List.drop_eq_nil_of_le (Nat.le_of_not_lt hend)]
      rfl

lemma checkArrayRuns_full (ha : a.Initialized) (hpos : 0 < runsPerBlock)
    (hrun : ∀ k < runsPerBlock, a.geometry.IsRun (runs k)) (rounds : ℕ) :
    ∀ (index : ℕ) (c : Check), index + (rounds + 1) = runsPerArray →
      checkArrayRuns a runs runsPerBlock runsPerArray (rounds + 1) index c =
        (.next runsPerArray, c.visitRuns a ((List.range' index (rounds + 1)).map
          fun i => runs (i % runsPerBlock))) := by
  induction rounds with
  | zero =>
    intro index c hsum
    have hisRun := hrun _ (Nat.mod_lt index hpos)
    unfold checkArrayRuns
    rw [if_neg (by rw [hisRun.ne_zero]; exact Bool.false_ne_true), checkBlockRun_spec ha hisRun]
    dsimp only
    rw [hsum, Nat.mod_self, if_neg (not_not.2 rfl), List.range'_one, List.map_singleton,
      Check.visitRuns_cons]
    rfl
  | succ rounds ih =>
    intro index c hsum
    have hisRun := hrun _ (Nat.mod_lt index hpos)
    have hrange :
        List.range' index (rounds + 1 + 1) = index :: List.range' (index + 1) (rounds + 1) :=
      List.range'_succ
    unfold checkArrayRuns
    rw [if_neg (by rw [hisRun.ne_zero]; exact Bool.false_ne_true), checkBlockRun_spec ha hisRun]
    dsimp only
    rw [Nat.mod_eq_of_lt (by omega), if_pos (Nat.succ_ne_zero index), ih _ _ (by omega), hrange,
      List.map_cons, Check.visitRuns_cons]

lemma checkArray_spec (ha : a.Initialized) (hpos : 0 < a.geometry.runsPerBlock) {block : ℤ}
    (hrun : ∀ run ∈ l, a.geometry.IsRun run) (hper : a.geometry.runsPerBlock ≤ runsPerArray)
    (hholds : Holds (d.entry a.geometry block) runsPerArray l) (c : Check) :
    checkArray a d block runsPerArray runsPerArray runsPerArray 0 c =
      (if l.length < a.geometry.runsPerBlock then .zero else .next runsPerArray,
        c.visitRuns a (walked a.geometry.runsPerBlock runsPerArray l)) := by
  obtain ⟨rounds, rfl⟩ : ∃ k, runsPerArray = k + 1 := ⟨runsPerArray - 1, by omega⟩
  obtain ⟨runs, hblock, hruns⟩ := exists_block (f := fun k => l.getD k .zero) (i := 0) hpos
    fun k hk => by
      rw [Nat.zero_mul, Nat.zero_add]
      exact hholds.2 k (by omega)
  unfold checkArray
  rw [if_pos (Nat.succ_pos _), Nat.zero_div, hblock]
  dsimp only
  unfold walked
  by_cases hlength : l.length < a.geometry.runsPerBlock
  · rw [checkArrayRuns_zero ha hrun hlength hper hruns _ 0 c (Nat.zero_le _) (by omega),
      if_pos hlength, if_pos hlength, List.drop_zero]
  · have hfull : ∀ k < a.geometry.runsPerBlock, a.geometry.IsRun (runs k) := by
      intro k hk
      have hlt : k < l.length := by omega
      rw [hruns k hk, List.getD_eq_getElem _ _ hlt]
      exact hrun _ (List.getElem_mem hlt)
    have hmap : (List.range (rounds + 1)).map (fun i => runs (i % a.geometry.runsPerBlock)) =
        (List.range (rounds + 1)).map fun i => l.getD (i % a.geometry.runsPerBlock) .zero :=
      List.map_congr_left fun i _ => hruns _ (Nat.mod_lt i hpos)
    rw [checkArrayRuns_full ha hpos hfull rounds 0 c (Nat.zero_add _), if_neg hlength,
      if_neg hlength, ← List.range_eq_range', hmap]
    dsimp only
    cases rounds with
    | zero => rfl
    | succ rounds =>
      unfold checkArray
      rw [if_neg (lt_irrefl _)]

/-- The runs that are visited in the double indirect range from the array `j` on. -/
def walkedFrom (g : Geometry) (data : DataStream) (v : StreamRuns) (j : ℕ) : List BlockRun :=
  (List.range' j (v.arrays.length - j)).flatMap fun i =>
    v.arrays.getD i .zero :: walked g.runsPerBlock (data.runsPerArray g)
      (v.ofArray (data.runsPerArray g) i)

lemma IsDoubleIndirect.last_array (h : IsDoubleIndirect g d data v)
    (hper : 0 < data.runsPerArray g) {j : ℕ} (hj : j + 1 < v.arrays.length) :
    (v.ofArray (data.runsPerArray g) j).length = data.runsPerArray g := by
  rw [h.arrays_length] at hj
  have hle := (Nat.le_div_iff_mul_le hper).1 hj
  unfold StreamRuns.ofArray
  rw [List.length_take, List.length_drop]
  rw [Nat.succ_mul, Nat.succ_mul] at hle
  omega

lemma checkDoubleIndirect_spec (ha : a.Initialized) (hpos : 0 < a.geometry.runsPerBlock)
    (hsize : 8 ∣ a.geometry.blockSize) (hlength : 0 < data.doubleIndirect.length)
    (h : IsDoubleIndirect a.geometry d data v)
    (harrays : ∀ run ∈ v.arrays, a.geometry.IsRun run)
    (hruns : ∀ run ∈ v.doubleIndirect, a.geometry.IsRun run) (rounds : ℕ) :
    ∀ (j : ℕ) (c : Check), j + rounds = data.runsPerArray a.geometry → j ≤ v.arrays.length →
      checkDoubleIndirect a d data rounds j c =
        (none, c.visitRuns a (walkedFrom a.geometry data v j)) := by
  have hper : 0 < data.runsPerArray a.geometry := Nat.mul_pos hlength hpos
  have hle : a.geometry.runsPerBlock ≤ data.runsPerArray a.geometry :=
    Nat.le_mul_of_pos_left _ hlength
  induction rounds with
  | zero =>
    intro j c hsum hj
    have hmax := h.arrays.1
    have hzero : v.arrays.length - j = 0 := by omega
    unfold walkedFrom
    rw [hzero]
    rfl
  | succ rounds ih =>
    intro j c hsum hj
    have hentry := h.arrays.2 j (by omega)
    obtain ⟨array, hblock, hslot⟩ := Option.map_eq_some_iff.1 hentry
    unfold checkDoubleIndirect
    dsimp only
    rw [hblock]
    dsimp only
    rw [hslot]
    by_cases hend : j < v.arrays.length
    · have hmem := List.getElem_mem hend
      have hisRun := harrays _ hmem
      have hmax : v.arrays[j].length * a.geometry.blockSize / 8 =
          data.runsPerArray a.geometry := by
        rw [h.array_length _ hmem, Nat.mul_div_assoc _ hsize]
        rfl
      have hwalk : walkedFrom a.geometry data v j = v.arrays[j] ::
          (walked a.geometry.runsPerBlock (data.runsPerArray a.geometry)
            (v.ofArray (data.runsPerArray a.geometry) j) ++
          walkedFrom a.geometry data v (j + 1)) := by
        have hcount : v.arrays.length - j = v.arrays.length - (j + 1) + 1 := by omega
        unfold walkedFrom
        rw [hcount, List.range'_succ, List.flatMap_cons, List.getD_eq_getElem _ _ hend,
          List.cons_append]
      have hsub : ∀ run ∈ v.ofArray (data.runsPerArray a.geometry) j, a.geometry.IsRun run :=
        fun run hmem => hruns run (List.mem_of_mem_drop (List.mem_of_mem_take hmem))
      rw [List.getD_eq_getElem _ _ hend,
        if_neg (by rw [hisRun.ne_zero]; exact Bool.false_ne_true), checkBlockRun_spec ha hisRun]
      dsimp only
      rw [hmax, checkArray_spec ha hpos hsub hle (h.runs j hend), hwalk, Check.visitRuns_cons]
      by_cases hlast : (v.ofArray (data.runsPerArray a.geometry) j).length <
          a.geometry.runsPerBlock
      · have hnext : v.arrays.length - (j + 1) = 0 := by
          by_contra hne
          have hfull := h.last_array hper (j := j) (by omega)
          omega
        rw [if_pos hlast]
        unfold walkedFrom
        rw [hnext, List.range'_zero, List.flatMap_nil, List.append_nil]
      · rw [if_neg hlast]
        dsimp only
        rw [ih (j + 1) _ (by omega) hend, Check.visitRuns_append]
    · have hzero : v.arrays.length - j = 0 := by omega
      rw [List.getD_eq_default _ _ (Nat.le_of_not_lt hend), if_pos (by decide)]
      unfold walkedFrom
      rw [hzero]
      rfl

end Haiku.Bfs
