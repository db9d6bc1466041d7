import Haiku.Bfs.Groups

/-!
# Checking a range of blocks

`BlockAllocator::CheckBlocks()` of `src/add-ons/kernel/file_systems/bfs/BlockAllocator.cpp`,
and when it tells whether all blocks of a range have the wanted state.
-/

namespace Haiku.Bfs

inductive Status where
  | ok
  | badValue
  | badData
  | deviceFull
  | error
deriving DecidableEq

/-- The inner loop of `CheckBlocks()`: what is left of the length at the end of the bitmap
block, or `none` where a bit is wrong. -/
def checkBits (cached : AllocationBlock) (allocated : Bool) : (length blockOffset : ℕ) → Option ℕ
  | 0, _ => some 0
  | length + 1, blockOffset =>
    if blockOffset < cached.numBits then
      if cached.isUsed blockOffset ≠ allocated then none
      else checkBits cached allocated length (blockOffset + 1)
    else some (length + 1)

/-- The outer loop of `CheckBlocks()`, over the bitmap blocks. -/
def checkLoop (a : BlockAllocator) (allocated : Bool) :
    (rounds group groupBlock blockOffset length : ℕ) → Option Status
  | 0, _, _, _, _ => none
  | rounds + 1, group, groupBlock, blockOffset, length =>
    if groupBlock < (a.groups group).numBlocks ∧ 0 < length then
      match checkBits (setTo a (a.groups group) groupBlock) allocated length blockOffset with
      | none => some .badData
      | some length =>
        if groupBlock + 1 ≥ (a.groups group).numBlocks
        then checkLoop a allocated rounds (group + 1) 0 0 length
        else checkLoop a allocated rounds group (groupBlock + 1) 0 length
    else some .ok

/-- `CheckBlocks()`. The numbers of the group and of the bitmap block are `uint32`. Each round
but the first one makes the length smaller. -/
def checkBlocks (a : BlockAllocator) (start length : ℤ) (allocated : Bool) : Option Status :=
  if start < 0 ∨ start + length > a.geometry.numBlocks then some .badValue
  else
    let group := start.toNat / a.geometry.bitsPerGroup % 2 ^ 32
    let groupBlock := start.toNat / a.geometry.bitsPerBlock % 2 ^ 32
    let blockOffset := start.toNat % a.geometry.blockSize
    checkLoop a allocated (length.toNat + 2) group groupBlock blockOffset length.toNat

variable {a : BlockAllocator} (allocated : Bool)

def BlockAllocator.AllOf (a : BlockAllocator) (allocated : Bool) (start length : ℕ) : Prop :=
  ∀ block, start ≤ block → block < start + length → a.isAllocated block = allocated

variable {allocated} in
lemma allOf_zero (start : ℕ) : a.AllOf allocated start 0 := by
  intro block hle hlt
  omega

variable {allocated} in
lemma allOf_add (start m n : ℕ) :
    a.AllOf allocated start (m + n) ↔
      a.AllOf allocated start m ∧ a.AllOf allocated (start + m) n := by
  constructor
  · intro h
    refine ⟨fun block hle hlt => h block hle (by omega), fun block hle hlt => ?_⟩
    exact h block (by omega) (by omega)
  · rintro ⟨hm, hn⟩ block hle hlt
    by_cases hb : block < start + m
    · exact hm block hle hb
    · exact hn block (by omega) (by omega)

def Geometry.blockAt (g : Geometry) (group groupBlock blockOffset : ℕ) : ℕ :=
  group * g.bitsPerGroup + (groupBlock * g.bitsPerBlock + blockOffset)

lemma isAllocated_blockAt {group groupBlock blockOffset : ℕ}
    (h : groupBlock * a.geometry.bitsPerBlock + blockOffset < a.geometry.bitsPerGroup) :
    a.isAllocated (a.geometry.blockAt group groupBlock blockOffset) =
      a.groupBit group (groupBlock * a.geometry.bitsPerBlock + blockOffset) := by
  unfold BlockAllocator.isAllocated Geometry.blockAt
  rw [Nat.mul_comm group, Nat.mul_add_div a.geometry.bitsPerGroup_pos, Nat.mul_add_mod,
    Nat.div_eq_of_lt h, Nat.mod_eq_of_lt h, Nat.add_zero]

lemma checkBits_spec (ha : a.Initialized) {group groupBlock : ℕ}
    (hgroup : group < a.geometry.numGroups) (hblock : groupBlock < (a.groups group).numBlocks)
    (length : ℕ) : ∀ blockOffset, blockOffset ≤ (setTo a (a.groups group) groupBlock).numBits →
      let n := min length ((setTo a (a.groups group) groupBlock).numBits - blockOffset)
      let start := a.geometry.blockAt group groupBlock blockOffset
      (a.AllOf allocated start n →
        checkBits (setTo a (a.groups group) groupBlock) allocated length blockOffset =
          some (length - n)) ∧
      (¬a.AllOf allocated start n →
        checkBits (setTo a (a.groups group) groupBlock) allocated length blockOffset = none) := by
  induction length with
  | zero =>
    intro blockOffset _
    dsimp only
    rw [Nat.zero_min]
    exact ⟨fun _ => rfl, fun h => absurd (allOf_zero _) h⟩
  | succ length ih =>
    intro blockOffset hle
    dsimp only
    set cached := setTo a (a.groups group) groupBlock
    unfold checkBits
    by_cases hlt : blockOffset < cached.numBits
    · rw [if_pos hlt]
      have hbits := (setTo_numBits ha hgroup hblock blockOffset).1 hlt
      have hin : groupBlock * a.geometry.bitsPerBlock + blockOffset < a.geometry.bitsPerGroup :=
        hbits.2.trans_le (a.geometry.numBits_le hgroup)
      have hused : cached.isUsed blockOffset =
          a.isAllocated (a.geometry.blockAt group groupBlock blockOffset) := by
        rw [isAllocated_blockAt hin]
        exact isUsed_setTo ha hgroup hblock hlt
      have hn : min (length + 1) (cached.numBits - blockOffset) =
          1 + min length (cached.numBits - (blockOffset + 1)) := by
        omega
      have hnext : a.geometry.blockAt group groupBlock blockOffset + 1 =
          a.geometry.blockAt group groupBlock (blockOffset + 1) := rfl
      have hone : a.AllOf allocated (a.geometry.blockAt group groupBlock blockOffset) 1 ↔
          cached.isUsed blockOffset = allocated := by
        rw [hused]
        refine ⟨fun h => h _ le_rfl (Nat.lt_succ_self _), fun h block hle hlt => ?_⟩
        rw [show block = a.geometry.blockAt group groupBlock blockOffset by omega]
        exact h
      obtain ⟨hall, hnone⟩ := ih (blockOffset + 1) hlt
      rw [hn, allOf_add, hnext, hone]
      by_cases hstate : cached.isUsed blockOffset = allocated
      · rw [if_neg (not_not_intro hstate)]
        refine ⟨fun h => ?_, fun h => hnone fun hrest => h ⟨hstate, hrest⟩⟩
        rw [hall h.2]
        congr 1
        omega
      · rw [if_pos hstate]
        exact ⟨fun h => absurd h.1 hstate, fun _ => rfl⟩
    · rw [if_neg hlt, show cached.numBits - blockOffset = 0 by omega, Nat.min_zero]
      exact ⟨fun _ => rfl, fun h => absurd (allOf_zero _) h⟩

lemma checkLoop_spec (ha : a.Initialized) (rounds : ℕ) :
    ∀ group groupBlock blockOffset length : ℕ, 0 < length →
      length < rounds →
      groupBlock * a.geometry.bitsPerBlock + blockOffset < a.geometry.bitsPerGroup →
      blockOffset < a.geometry.bitsPerBlock →
      a.geometry.blockAt group groupBlock blockOffset + length ≤ a.geometry.numBlocks →
      (a.AllOf allocated (a.geometry.blockAt group groupBlock blockOffset) length →
        checkLoop a allocated rounds group groupBlock blockOffset length = some .ok) ∧
      (¬a.AllOf allocated (a.geometry.blockAt group groupBlock blockOffset) length →
        checkLoop a allocated rounds group groupBlock blockOffset length = some .badData) := by
  induction rounds with
  | zero =>
    intro group groupBlock blockOffset length _ hrounds
    omega
  | succ rounds ih =>
    intro group groupBlock blockOffset length hlength hrounds hin hoffset hend
    set first := a.geometry.blockAt group groupBlock blockOffset with hfirst
    have hdiv : first / a.geometry.bitsPerGroup = group := by
      rw [hfirst, Geometry.blockAt, Nat.mul_comm group,
        Nat.mul_add_div a.geometry.bitsPerGroup_pos, Nat.div_eq_of_lt hin, Nat.add_zero]
    have hmod : first % a.geometry.bitsPerGroup =
        groupBlock * a.geometry.bitsPerBlock + blockOffset := by
      rw [hfirst, Geometry.blockAt, Nat.mul_comm group, Nat.mul_add_mod, Nat.mod_eq_of_lt hin]
    have hvolume : first < a.geometry.numBlocks := by omega
    have hgroup : group < a.geometry.numGroups := hdiv ▸ a.geometry.group_lt hvolume
    have hbits : groupBlock * a.geometry.bitsPerBlock + blockOffset < a.geometry.numBits group := by
      have hlt := a.geometry.mod_lt_numBits hvolume
      rwa [hdiv, hmod] at hlt
    have hblock : groupBlock < (a.groups group).numBlocks := by
      rw [ha.numBlocks group hgroup, a.geometry.lt_numBitmapBlocks_iff]
      omega
    have hcount := setTo_numBits_eq ha hgroup hblock
    obtain ⟨hall, hnone⟩ := checkBits_spec allocated ha hgroup hblock length
      blockOffset (by omega)
    set numBits := (setTo a (a.groups group) groupBlock).numBits
    set n := min length (numBits - blockOffset)
    have hsplit : a.AllOf allocated first length ↔
        a.AllOf allocated first n ∧ a.AllOf allocated (first + n) (length - n) := by
      rw [← allOf_add, Nat.add_sub_cancel' (by omega)]
    unfold checkLoop
    rw [if_pos ⟨hblock, hlength⟩]
    by_cases hstate : a.AllOf allocated first n
    · rw [hall hstate]
      dsimp only
      -- Either the range ends here, or the walk goes on behind the blocks it has seen.
      have hrest : ∀ {group' groupBlock'},
          (length - n ≠ 0 → a.geometry.blockAt group' groupBlock' 0 = first + n ∧
            groupBlock' * a.geometry.bitsPerBlock + 0 < a.geometry.bitsPerGroup) →
          (a.AllOf allocated first length →
            checkLoop a allocated rounds group' groupBlock' 0 (length - n) = some .ok) ∧
          (¬a.AllOf allocated first length →
            checkLoop a allocated rounds group' groupBlock' 0 (length - n) = some .badData) := by
        intro group' groupBlock' hnext
        by_cases hleft : length - n = 0
        · obtain ⟨rounds', rfl⟩ : ∃ rounds', rounds = rounds' + 1 := ⟨rounds - 1, by omega⟩
          rw [hsplit, hleft]
          refine ⟨fun _ => ?_, fun h => absurd ⟨hstate, allOf_zero _⟩ h⟩
          unfold checkLoop
          rw [if_neg (by omega)]
        · obtain ⟨hpos, hin'⟩ := hnext hleft
          have h := ih group' groupBlock' 0 (length - n) (by omega) (by omega) hin' a.geometry.bitsPerBlock_pos (by omega)
          rw [hpos] at h
          rw [hsplit]
          exact ⟨fun hs => h.1 hs.2, fun hs => h.2 fun hs' => hs ⟨hstate, hs'⟩⟩
      split
      · next hlast =>
        refine hrest fun hleft => ?_
        rw [ha.numBlocks group hgroup] at hlast
        have hover := (not_congr (a.geometry.lt_numBitmapBlocks_iff group (groupBlock + 1))).1 (by omega)
        rw [Nat.succ_mul] at hover
        -- Behind the last bitmap block of a group comes the next group.
        have hnotLast : group ≠ a.geometry.numGroups - 1 := by
          intro hlastGroup
          have hbitsOf : a.geometry.numBits group =
              a.geometry.numBlocks - group * a.geometry.bitsPerGroup := if_pos hlastGroup
          unfold Geometry.blockAt at hfirst
          omega
        have hbitsOf : a.geometry.numBits group = a.geometry.bitsPerGroup := if_neg hnotLast
        refine ⟨?_, ?_⟩
        · unfold Geometry.blockAt at hfirst ⊢
          rw [Nat.succ_mul]
          omega
        · have hpos := a.geometry.bitsPerGroup_pos
          omega
      · next hmore =>
        refine hrest fun hleft => ?_
        rw [ha.numBlocks group hgroup] at hmore
        have hunder := (a.geometry.lt_numBitmapBlocks_iff group (groupBlock + 1)).1 (by omega)
        rw [Nat.succ_mul] at hunder
        have hle := a.geometry.numBits_le hgroup
        rw [Nat.succ_mul]
        refine ⟨?_, by omega⟩
        unfold Geometry.blockAt at hfirst ⊢
        rw [Nat.succ_mul]
        omega
    · rw [hnone hstate]
      exact ⟨fun h => absurd (hsplit.1 h).1 hstate, fun _ => rfl⟩

/-! ## When the check is right -/

/-- `CheckBlocks()` tells whether all blocks of the range have the state. -/
def BlockAllocator.ChecksRight (a : BlockAllocator) (start length : ℕ) (allocated : Bool) : Prop :=
  ∃ status, checkBlocks a start length allocated = some status ∧
    (status = .ok ↔ a.AllOf allocated start length)

/-- The bitmap block of `start`, counted from the first group on, is taken for one of a group. -/
def Geometry.IsEntered (g : Geometry) (start : ℕ) : Prop :=
  start / g.bitsPerBlock % 2 ^ 32 < g.blocksPerGroup

def Geometry.firstLooked (g : Geometry) (start : ℕ) : ℕ :=
  start / g.bitsPerBlock * g.bitsPerBlock + start % g.blockSize

/-- The walk looks at the right blocks, or what it looks at has the same answer. -/
def BlockAllocator.LooksRight (a : BlockAllocator) (start length : ℕ) (allocated : Bool) : Prop :=
  length = 0 ∨
    (a.geometry.IsEntered start ∧ start % a.geometry.bitsPerBlock < a.geometry.blockSize) ∨
    (a.geometry.IsEntered start ∧
      (a.AllOf allocated (a.geometry.firstLooked start) length ↔
        a.AllOf allocated start length)) ∨
    (¬a.geometry.IsEntered start ∧ a.AllOf allocated start length)

lemma Geometry.firstLooked_le (g : Geometry) (start : ℕ) : g.firstLooked start ≤ start := by
  unfold firstLooked
  have hdvd : g.blockSize ∣ g.bitsPerBlock := Nat.dvd_mul_right _ _
  have hmod : start % g.blockSize ≤ start % g.bitsPerBlock := by
    rw [← Nat.mod_mod_of_dvd start hdvd]
    exact Nat.mod_le _ _
  have hdiv := Nat.div_add_mod start g.bitsPerBlock
  rw [Nat.mul_comm] at hdiv
  omega

variable {start : ℕ}

lemma Geometry.firstLooked_eq (g : Geometry) (h : start % g.bitsPerBlock < g.blockSize) :
    g.firstLooked start = start := by
  unfold firstLooked
  have hdvd : g.blockSize ∣ g.bitsPerBlock := Nat.dvd_mul_right _ _
  have hmod : start % g.blockSize = start % g.bitsPerBlock := by
    rw [← Nat.mod_mod_of_dvd start hdvd, Nat.mod_eq_of_lt h]
  have hdiv := Nat.div_add_mod start g.bitsPerBlock
  rw [Nat.mul_comm] at hdiv
  omega

lemma Geometry.blockAt_entered (g : Geometry) (h : g.IsEntered start) :
    g.blockAt (start / g.bitsPerGroup) (start / g.bitsPerBlock % 2 ^ 32)
      (start % g.blockSize) = g.firstLooked start := by
  have hgroup : start / g.bitsPerGroup = start / g.bitsPerBlock / g.blocksPerGroup := by
    rw [Nat.div_div_eq_div_mul, ← bitsPerGroup_eq]
  have hmod : start / g.bitsPerBlock % 2 ^ 32 = start / g.bitsPerBlock % g.blocksPerGroup := by
    rw [← Nat.mod_mod_of_dvd _ g.blocksPerGroup_dvd, Nat.mod_eq_of_lt h]
  have hdiv := Nat.div_add_mod (start / g.bitsPerBlock) g.blocksPerGroup
  unfold blockAt firstLooked
  rw [hgroup, hmod, bitsPerGroup_eq]
  calc start / g.bitsPerBlock / g.blocksPerGroup * (g.bitsPerBlock * g.blocksPerGroup)
        + (start / g.bitsPerBlock % g.blocksPerGroup * g.bitsPerBlock + start % g.blockSize)
      = (g.blocksPerGroup * (start / g.bitsPerBlock / g.blocksPerGroup)
          + start / g.bitsPerBlock % g.blocksPerGroup) * g.bitsPerBlock + start % g.blockSize := by
        ring
    _ = start / g.bitsPerBlock * g.bitsPerBlock + start % g.blockSize := by rw [hdiv]

variable {length : ℕ}

lemma checkBlocks_spec (ha : a.Initialized) (hlength : 0 < length)
    (hend : start + length ≤ a.geometry.numBlocks) :
    ∃ status, checkBlocks a start length allocated = some status ∧ (status = .ok ↔
      (a.geometry.IsEntered start →
        a.AllOf allocated (a.geometry.firstLooked start) length)) := by
  have hgroup : start / a.geometry.bitsPerGroup < a.geometry.numGroups :=
    a.geometry.group_lt (by omega)
  have hsmall : start / a.geometry.bitsPerGroup % 2 ^ 32 = start / a.geometry.bitsPerGroup := by
    have hlt : a.geometry.numGroups < 2 ^ 31 := a.geometry.numGroups_lt
    exact Nat.mod_eq_of_lt (by omega)
  unfold checkBlocks
  rw [if_neg (by omega), Int.toNat_natCast, Int.toNat_natCast, hsmall]
  dsimp only
  by_cases hentered : a.geometry.IsEntered start
  · have hpos := a.geometry.blockAt_entered hentered
    have hle := a.geometry.firstLooked_le start
    have hoffset : start % a.geometry.blockSize < a.geometry.bitsPerBlock := by
      have hlt := Nat.mod_lt start a.geometry.blockSize_pos
      unfold Geometry.bitsPerBlock
      omega
    have hin : start / a.geometry.bitsPerBlock % 2 ^ 32 * a.geometry.bitsPerBlock
        + start % a.geometry.blockSize < a.geometry.bitsPerGroup := by
      rw [a.geometry.bitsPerGroup_eq, Nat.mul_comm]
      calc a.geometry.bitsPerBlock * (start / a.geometry.bitsPerBlock % 2 ^ 32)
            + start % a.geometry.blockSize
          < a.geometry.bitsPerBlock * (start / a.geometry.bitsPerBlock % 2 ^ 32)
            + a.geometry.bitsPerBlock := by omega
        _ = a.geometry.bitsPerBlock * (start / a.geometry.bitsPerBlock % 2 ^ 32 + 1) := by ring
        _ ≤ a.geometry.bitsPerBlock * a.geometry.blocksPerGroup :=
          Nat.mul_le_mul_left _ hentered
    obtain ⟨hok, hbad⟩ := checkLoop_spec allocated ha (length + 2) _ _ _ length hlength (by omega)
      hin hoffset (by rw [hpos]; omega)
    rw [hpos] at hok hbad
    by_cases hall : a.AllOf allocated (a.geometry.firstLooked start) length
    · exact ⟨.ok, hok hall, fun _ _ => hall, fun _ => rfl⟩
    · exact ⟨.badData, hbad hall, nofun, fun h => absurd (h hentered) hall⟩
  · refine ⟨.ok, ?_, fun _ h => absurd h hentered, fun _ => rfl⟩
    unfold checkLoop
    have hfew : (a.groups (start / a.geometry.bitsPerGroup)).numBlocks ≤
        a.geometry.blocksPerGroup := by
      rw [ha.numBlocks _ hgroup]
      by_contra hcon
      have hlt := (a.geometry.lt_numBitmapBlocks_iff (start / a.geometry.bitsPerGroup)
        a.geometry.blocksPerGroup).1 (by omega)
      have hle := a.geometry.numBits_le hgroup
      rw [Nat.mul_comm, ← a.geometry.bitsPerGroup_eq] at hlt
      omega
    unfold Geometry.IsEntered at hentered
    rw [if_neg (by omega)]

lemma checksRight_iff (ha : a.Initialized) (hend : start + length ≤ a.geometry.numBlocks) :
    a.ChecksRight start length allocated ↔ a.LooksRight start length allocated := by
  unfold BlockAllocator.ChecksRight BlockAllocator.LooksRight
  rcases Nat.eq_zero_or_pos length with hzero | hlength
  · subst hzero
    refine ⟨fun _ => .inl rfl, fun _ => ⟨.ok, ?_, fun _ => allOf_zero _, fun _ => rfl⟩⟩
    unfold checkBlocks
    rw [if_neg (by omega)]
    dsimp only
    unfold checkLoop
    rw [if_neg fun h => absurd h.2 (Nat.lt_irrefl 0)]
  · obtain ⟨status, hstatus, hok⟩ := checkBlocks_spec allocated ha hlength hend
    have hright : (∃ status', checkBlocks a start length allocated = some status' ∧
        (status' = .ok ↔ a.AllOf allocated start length)) ↔
        (status = .ok ↔ a.AllOf allocated start length) := by
      rw [hstatus]
      constructor
      · rintro ⟨_, ⟨⟩, h⟩
        exact h
      · exact fun h => ⟨status, rfl, h⟩
    rw [hright, hok]
    by_cases hentered : a.geometry.IsEntered start
    · by_cases haligned : start % a.geometry.bitsPerBlock < a.geometry.blockSize
      · rw [a.geometry.firstLooked_eq haligned]
        simp only [hentered, haligned, true_implies, iff_self, true_and, true_or, or_true]
      · simp only [hentered, haligned, hlength.ne', true_implies, and_false, false_or, true_and,
          not_true_eq_false, false_and, or_false]
    · simp only [hentered, hlength.ne', false_implies, true_iff, false_and, false_or,
        not_false_eq_true, true_and]

/-! ## Ranges that are checked right whatever the bitmap is -/

/-- Where in the bitmap the bit of a block of the volume is. -/
def Geometry.position (g : Geometry) (block : ℕ) : ℕ × ℕ :=
  (1 + block / g.bitsPerBlock, block % g.bitsPerBlock)

lemma isAllocated_eq (block : ℕ) :
    a.isAllocated block =
      a.bitmap (a.geometry.position block).1 (a.geometry.position block).2 := by
  have hdvd : a.geometry.bitsPerBlock ∣ a.geometry.bitsPerGroup := by
    rw [Geometry.bitsPerGroup_eq]
    exact Nat.dvd_mul_right _ _
  have hblock : block / a.geometry.bitsPerGroup * a.geometry.blocksPerGroup
      + block % a.geometry.bitsPerGroup / a.geometry.bitsPerBlock =
        block / a.geometry.bitsPerBlock := by
    rw [a.geometry.bitsPerGroup_eq, ← Nat.div_div_eq_div_mul, Nat.mod_mul_right_div_self,
      Nat.mul_comm, Nat.div_add_mod]
  unfold BlockAllocator.isAllocated BlockAllocator.groupBit Geometry.position
  rw [Nat.mod_mod_of_dvd _ hdvd, Nat.add_assoc, hblock]

lemma position_injective (g : Geometry) {block block' : ℕ}
    (h : g.position block = g.position block') : block = block' := by
  unfold Geometry.position at h
  rw [Prod.mk.injEq] at h
  rw [← Nat.div_add_mod block g.bitsPerBlock, ← Nat.div_add_mod block' g.bitsPerBlock, h.2,
    Nat.add_left_cancel h.1]

def oneFree (g : Geometry) (block : ℕ) : ℕ → ℕ → Bool :=
  fun disk bit => (disk, bit) ≠ g.position block

lemma isAllocated_oneFree (block block' : ℕ) :
    ({ a with bitmap := oneFree a.geometry block } : BlockAllocator).isAllocated block' =
      decide (block' ≠ block) := by
  rw [isAllocated_eq]
  show decide (a.geometry.position block' ≠ a.geometry.position block) = _
  rw [decide_eq_decide, not_iff_not]
  exact ⟨position_injective a.geometry, fun h => h ▸ rfl⟩

lemma checksRight_always_iff (ha : a.Initialized) (hend : start + length ≤ a.geometry.numBlocks) :
    (∀ bitmap allocated, ({ a with bitmap := bitmap } : BlockAllocator).ChecksRight start length
        allocated) ↔
      length = 0 ∨ a.geometry.IsEntered start ∧
        start % a.geometry.bitsPerBlock < a.geometry.blockSize := by
  have hinit : ∀ bitmap, ({ a with bitmap := bitmap } : BlockAllocator).Initialized :=
    fun bitmap => ⟨ha.numBits, ha.numBlocks, ha.start⟩
  constructor
  · intro h
    by_contra hcon
    rw [not_or] at hcon
    -- In this bitmap the last block of the range is the only one that is free.
    set b : BlockAllocator := { a with bitmap := oneFree a.geometry (start + length - 1) }
    have hbits : ∀ block, b.isAllocated block = decide (block ≠ start + length - 1) :=
      isAllocated_oneFree _
    have hnot : ¬b.AllOf true start length := by
      intro hall
      have hlast := hall (start + length - 1) (by omega) (by omega)
      rw [hbits, decide_eq_true_eq] at hlast
      exact hlast rfl
    rcases (checksRight_iff true (hinit (oneFree a.geometry (start + length - 1)))
      hend).1 (h _ true) with
      hzero | haligned | hlooked | hall
    · exact hcon.1 hzero
    · exact hcon.2 haligned
    · have hle := a.geometry.firstLooked_le start
      have hlt : a.geometry.firstLooked start < start := by
        refine lt_of_le_of_ne hle fun heq => hcon.2 ⟨hlooked.1, ?_⟩
        have hdiv := Nat.div_add_mod start a.geometry.bitsPerBlock
        rw [Nat.mul_comm] at hdiv
        unfold Geometry.firstLooked at heq
        have hmod := Nat.mod_lt start a.geometry.blockSize_pos
        omega
      refine hnot (hlooked.2.1 fun block hfirst hblock => ?_)
      rw [hbits, decide_eq_true_eq]
      change block < a.geometry.firstLooked start + length at hblock
      omega
    · exact hnot hall.2
  · intro h bitmap allocated
    refine (checksRight_iff allocated (hinit bitmap) hend).2 ?_
    rcases h with hzero | haligned
    · exact .inl hzero
    · exact .inr (.inl haligned)

/-- When `CheckBlocks()` is right, for one bitmap and for all of them. -/
theorem checkBlocks_right (ha : a.Initialized) {start length : ℕ}
    (hend : start + length ≤ a.geometry.numBlocks) :
    (∀ allocated, a.ChecksRight start length allocated ↔ a.LooksRight start length allocated) ∧
      ((∀ bitmap allocated, ({ a with bitmap := bitmap } : BlockAllocator).ChecksRight start length
          allocated) ↔
        length = 0 ∨ a.geometry.IsEntered start ∧
          start % a.geometry.bitsPerBlock < a.geometry.blockSize) :=
  ⟨fun allocated => checksRight_iff allocated ha hend, checksRight_always_iff ha hend⟩

def onlyFree1024 : BlockAllocator :=
  .ofBitmap twoGroups fun disk bit => (disk, bit) ≠ (1, 1024)

theorem checkBlocks_right_begin :
    1000 + 100 ≤ onlyFree1024.geometry.numBlocks ∧
      (onlyFree1024.ChecksRight 1000 100 true ↔ onlyFree1024.LooksRight 1000 100 true) :=
  ⟨by decide, (checkBlocks_right (initialized_ofBitmap _ _) (by decide)).1 true⟩

/-- The range of block 1024 alone passes the check, since block 0 is looked at in its place. -/
theorem not_checkBlocks_right : ¬∀ a : BlockAllocator, a.Initialized →
    ∀ (start length : ℕ) (allocated : Bool), start + length ≤ a.geometry.numBlocks →
      a.ChecksRight start length allocated := by
  intro h
  obtain ⟨status, hstatus, hright⟩ :=
    h onlyFree1024 (initialized_ofBitmap _ _) 1024 1 true (by decide)
  have hok : checkBlocks onlyFree1024 (1024 : ℕ) (1 : ℕ) true = some .ok := by decide
  rw [hok, Option.some.injEq] at hstatus
  have hused := hright.1 hstatus.symm 1024 le_rfl (by decide)
  revert hused
  decide

end Haiku.Bfs
