import Mathlib.Data.List.Basic
import Mathlib.Algebra.Order.Ring.Int
import Mathlib.Tactic.Ring

/-!
# Allocation groups and the block bitmap

The data of `src/add-ons/kernel/file_systems/bfs/BlockAllocator.cpp`. A volume is divided into
allocation groups; each of them has its own blocks of the block bitmap, one bit for a block of
the volume.

* The 32 bit words of a bitmap block are read as their bits.
* `fGroups` is a function, so that what lies behind the array is something unknown.
* Reading and writing bitmap blocks always succeeds.
-/

namespace Haiku.Bfs

/-- What the super block says about the size of a volume and of its groups. -/
structure Geometry where
  blockShift : ℕ
  /-- `AllocationGroupShift()` -/
  groupShift : ℕ
  /-- `BlocksPerAllocationGroup()`: the bitmap blocks of a group -/
  blocksPerGroup : ℕ
  numBlocks : ℕ
  shift_eq : 2 ^ groupShift = 2 ^ blockShift * 8 * blocksPerGroup
  /-- the start of a `block_run` has 16 bits -/
  shift_le : groupShift ≤ 16
  numBlocks_pos : 0 < numBlocks
  /-- `num_ags` is an `int32` -/
  numGroups_lt : (numBlocks + 2 ^ groupShift - 1) / 2 ^ groupShift < 2 ^ 31

namespace Geometry

def blockSize (g : Geometry) : ℕ := 2 ^ g.blockShift

/-- `BlockSize() << 3`: the bits in a block of the bitmap. -/
def bitsPerBlock (g : Geometry) : ℕ := g.blockSize * 8

/-- The bits of a group, of the last one maybe less. -/
def bitsPerGroup (g : Geometry) : ℕ := 2 ^ g.groupShift

/-- `AllocationGroups()`, see `disk_super_block::IsValid()`. -/
def numGroups (g : Geometry) : ℕ := (g.numBlocks + g.bitsPerGroup - 1) / g.bitsPerGroup

variable (g : Geometry)

lemma blockSize_pos : 0 < g.blockSize := Nat.two_pow_pos _

lemma bitsPerBlock_pos : 0 < g.bitsPerBlock := Nat.mul_pos g.blockSize_pos (by decide)

lemma bitsPerGroup_pos : 0 < g.bitsPerGroup := Nat.two_pow_pos _

lemma bitsPerGroup_eq : g.bitsPerGroup = g.bitsPerBlock * g.blocksPerGroup := g.shift_eq

lemma bitsPerGroup_le : g.bitsPerGroup ≤ 65536 :=
  Nat.pow_le_pow_right (by decide) g.shift_le

lemma blocksPerGroup_dvd : g.blocksPerGroup ∣ 2 ^ 32 := by
  have hgroup : g.blocksPerGroup ∣ g.bitsPerGroup := by
    rw [bitsPerGroup_eq]
    exact Nat.dvd_mul_left _ _
  have hshift : g.groupShift ≤ 32 := by
    have := g.shift_le
    omega
  exact hgroup.trans (Nat.pow_dvd_pow 2 hshift)

lemma numGroups_pos : 0 < g.numGroups := by
  unfold numGroups
  have hpos := g.numBlocks_pos
  exact Nat.div_pos (by omega) g.bitsPerGroup_pos

lemma numBlocks_le : g.numBlocks ≤ g.numGroups * g.bitsPerGroup := by
  have hpos := g.bitsPerGroup_pos
  have hdiv := Nat.div_add_mod (g.numBlocks + g.bitsPerGroup - 1) g.bitsPerGroup
  have hmod := Nat.mod_lt (g.numBlocks + g.bitsPerGroup - 1) hpos
  rw [Nat.mul_comm] at hdiv
  change g.numGroups * g.bitsPerGroup + _ = _ at hdiv
  omega

lemma lt_numBlocks : (g.numGroups - 1) * g.bitsPerGroup < g.numBlocks := by
  have hpos := g.bitsPerGroup_pos
  have hdiv : g.numGroups * g.bitsPerGroup ≤ g.numBlocks + g.bitsPerGroup - 1 :=
    Nat.div_mul_le_self _ _
  have hsub :
    (g.numGroups - 1) * g.bitsPerGroup = g.numGroups * g.bitsPerGroup - g.bitsPerGroup := by
    rw [Nat.sub_mul, Nat.one_mul]
  have hgroups : g.bitsPerGroup ≤ g.numGroups * g.bitsPerGroup :=
    Nat.le_mul_of_pos_left _ g.numGroups_pos
  omega

lemma group_lt {block : ℕ} (h : block < g.numBlocks) : block / g.bitsPerGroup < g.numGroups :=
  Nat.div_lt_of_lt_mul ((h.trans_le g.numBlocks_le).trans_eq (Nat.mul_comm _ _))

end Geometry

structure AllocationGroup where
  numBits : ℕ
  numBlocks : ℕ
  start : ℕ
  firstFree : ℤ
  freeBits : ℤ
  largestStart : ℤ
  largestLength : ℤ
  largestValid : Bool

/-- `class BlockAllocator`, with the block bitmap of the volume: the bits of a disk block. -/
structure BlockAllocator where
  geometry : Geometry
  groups : ℕ → AllocationGroup
  bitmap : ℕ → ℕ → Bool
  /-- `SuperBlock().used_blocks` -/
  usedBlocks : ℤ

/-- `class AllocationBlock`: a bitmap block, of which only the first `numBits` bits count. -/
structure AllocationBlock where
  numBits : ℕ
  bits : ℕ → Bool

/-- `AllocationBlock::SetTo()` and `SetToWritable()`; the last group may have less bits in its
last block. -/
def setTo (a : BlockAllocator) (group : AllocationGroup) (block : ℕ) : AllocationBlock where
  numBits :=
    if (block + 1) * a.geometry.bitsPerBlock > group.numBits
    then group.numBits % a.geometry.bitsPerBlock
    else a.geometry.bitsPerBlock
  bits := a.bitmap (group.start + block)

def AllocationBlock.isUsed (b : AllocationBlock) (bit : ℕ) : Bool :=
  if bit > b.numBits then true else b.bits bit

/-- The number of bits of a group, as `_Initialize()` computes it. -/
def Geometry.numBits (g : Geometry) (i : ℕ) : ℕ :=
  if i = g.numGroups - 1 then g.numBlocks - i * g.bitsPerGroup else g.bitsPerGroup

/-- The number of bitmap blocks of a group, as `_Initialize()` computes it. -/
def Geometry.numBitmapBlocks (g : Geometry) (i : ℕ) : ℕ :=
  if i = g.numGroups - 1 then 1 + (g.numBits i - 1) / g.bitsPerBlock else g.blocksPerGroup

/-- What `_Initialize()` sets in the groups apart from their summaries. The bitmap starts
directly after the super block. -/
structure BlockAllocator.Initialized (a : BlockAllocator) : Prop where
  numBits : ∀ i < a.geometry.numGroups, (a.groups i).numBits = a.geometry.numBits i
  numBlocks : ∀ i < a.geometry.numGroups, (a.groups i).numBlocks = a.geometry.numBitmapBlocks i
  start : ∀ i < a.geometry.numGroups, (a.groups i).start = 1 + i * a.geometry.blocksPerGroup

/-- An allocator whose groups know nothing about the bitmap yet. -/
def BlockAllocator.ofBitmap (g : Geometry) (bitmap : ℕ → ℕ → Bool) : BlockAllocator where
  geometry := g
  groups := fun i =>
    { numBits := g.numBits i
      numBlocks := g.numBitmapBlocks i
      start := 1 + i * g.blocksPerGroup
      firstFree := 0
      freeBits := g.numBits i
      largestStart := 0
      largestLength := 0
      largestValid := false }
  bitmap := bitmap
  usedBlocks := 0

lemma initialized_ofBitmap (g : Geometry) (bitmap : ℕ → ℕ → Bool) :
    (BlockAllocator.ofBitmap g bitmap).Initialized :=
  ⟨fun _ _ => rfl, fun _ _ => rfl, fun _ _ => rfl⟩

/-- 16 MB in blocks of 1024 bytes: two groups with one bitmap block each. -/
def twoGroups : Geometry where
  blockShift := 10
  groupShift := 13
  blocksPerGroup := 1
  numBlocks := 16384
  shift_eq := rfl
  shift_le := by decide
  numBlocks_pos := by decide
  numGroups_lt := by decide

def BlockAllocator.groupBit (a : BlockAllocator) (i bit : ℕ) : Bool :=
  a.bitmap (1 + i * a.geometry.blocksPerGroup + bit / a.geometry.bitsPerBlock)
    (bit % a.geometry.bitsPerBlock)

def BlockAllocator.isAllocated (a : BlockAllocator) (block : ℕ) : Bool :=
  a.groupBit (block / a.geometry.bitsPerGroup) (block % a.geometry.bitsPerGroup)

/-! ## Bits of a group -/

namespace Geometry

variable (g : Geometry)

lemma numBits_le {i : ℕ} (_ : i < g.numGroups) : g.numBits i ≤ g.bitsPerGroup := by
  unfold numBits
  split
  · next h =>
    have hle := g.numBlocks_le
    have hsucc : g.numGroups * g.bitsPerGroup = i * g.bitsPerGroup + g.bitsPerGroup := by
      rw [← Nat.succ_mul]
      congr 1
      omega
    omega
  · exact le_rfl

lemma numBits_pos (i : ℕ) : 0 < g.numBits i := by
  unfold numBits
  split
  · next h =>
    have hlt := g.lt_numBlocks
    rw [← h] at hlt
    omega
  · exact g.bitsPerGroup_pos

lemma mod_lt_numBits {block : ℕ} (h : block < g.numBlocks) :
    block % g.bitsPerGroup < g.numBits (block / g.bitsPerGroup) := by
  unfold numBits
  split
  · have hdiv := Nat.div_add_mod block g.bitsPerGroup
    rw [Nat.mul_comm] at hdiv
    omega
  · exact Nat.mod_lt _ g.bitsPerGroup_pos

lemma lt_numBitmapBlocks_iff (i block : ℕ) :
    block < g.numBitmapBlocks i ↔ block * g.bitsPerBlock < g.numBits i := by
  have hpos := g.bitsPerBlock_pos
  unfold numBitmapBlocks
  split
  · have hbits := g.numBits_pos i
    have hle := Nat.le_div_iff_mul_le hpos (x := block) (y := g.numBits i - 1)
    omega
  · next h =>
    have hbits : g.numBits i = g.bitsPerBlock * g.blocksPerGroup := by
      unfold numBits
      rw [if_neg h, bitsPerGroup_eq]
    rw [hbits, Nat.mul_comm]
    exact (Nat.mul_lt_mul_left hpos).symm

end Geometry

variable {a : BlockAllocator}

lemma setTo_numBits (h : a.Initialized) {i block : ℕ} (hi : i < a.geometry.numGroups)
    (hblock : block < (a.groups i).numBlocks) (bit : ℕ) :
    bit < (setTo a (a.groups i) block).numBits ↔
      bit < a.geometry.bitsPerBlock ∧
        block * a.geometry.bitsPerBlock + bit < a.geometry.numBits i := by
  rw [h.numBlocks i hi, a.geometry.lt_numBitmapBlocks_iff] at hblock
  unfold setTo
  dsimp only
  rw [h.numBits i hi]
  have hsucc := Nat.succ_mul block a.geometry.bitsPerBlock
  change (block + 1) * _ = _ at hsucc
  split
  · next hlt =>
    have hmod : a.geometry.numBits i % a.geometry.bitsPerBlock =
        a.geometry.numBits i - block * a.geometry.bitsPerBlock := by
      have hsplit : a.geometry.numBits i = (a.geometry.numBits i - block * a.geometry.bitsPerBlock)
          + a.geometry.bitsPerBlock * block := by
        rw [Nat.mul_comm a.geometry.bitsPerBlock]
        omega
      rw [hsplit, Nat.add_mul_mod_self_left, Nat.mod_eq_of_lt (by omega)]
      rw [Nat.mul_comm block]
      omega
    rw [hmod]
    omega
  · omega

lemma setTo_numBits_eq (h : a.Initialized) {i block : ℕ} (hi : i < a.geometry.numGroups)
    (hblock : block < (a.groups i).numBlocks) :
    (setTo a (a.groups i) block).numBits =
      min a.geometry.bitsPerBlock (a.geometry.numBits i - block * a.geometry.bitsPerBlock) := by
  have hlt := setTo_numBits h hi hblock
  apply le_antisymm
  · by_contra hcon
    have := (hlt (min a.geometry.bitsPerBlock
      (a.geometry.numBits i - block * a.geometry.bitsPerBlock))).1 (by omega)
    omega
  · by_contra hcon
    have := (hlt (setTo a (a.groups i) block).numBits).2 ⟨by omega, by omega⟩
    omega

lemma isUsed_setTo (h : a.Initialized) {i block bit : ℕ} (hi : i < a.geometry.numGroups)
    (hblock : block < (a.groups i).numBlocks)
    (hbit : bit < (setTo a (a.groups i) block).numBits) :
    (setTo a (a.groups i) block).isUsed bit =
      a.groupBit i (block * a.geometry.bitsPerBlock + bit) := by
  have hlt := ((setTo_numBits h hi hblock bit).1 hbit).1
  have hdiv : (block * a.geometry.bitsPerBlock + bit) / a.geometry.bitsPerBlock = block := by
    rw [Nat.add_comm, Nat.add_mul_div_right _ _ a.geometry.bitsPerBlock_pos,
      Nat.div_eq_of_lt hlt, Nat.zero_add]
  have hmod : (block * a.geometry.bitsPerBlock + bit) % a.geometry.bitsPerBlock = bit := by
    rw [Nat.add_comm, Nat.add_mul_mod_self_right, Nat.mod_eq_of_lt hlt]
  unfold AllocationBlock.isUsed BlockAllocator.groupBit
  rw [if_neg (by omega), hdiv, hmod, ← h.start i hi]
  rfl

end Haiku.Bfs
