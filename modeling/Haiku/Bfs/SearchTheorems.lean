import Haiku.Bfs.AllocateBlocks
import Haiku.Lib.Runs

/-!
# The search for free blocks

What a round of the search finds in a group: either a range of at least the wanted length, which
ends the search, or the longest one it can know of.
-/

namespace Haiku.Bfs

open Function Lib

variable {a a' : BlockAllocator} {i maximum lo : ℕ} {best best' : Best} {s : Scan}

def BlockAllocator.IsRange (a : BlockAllocator) (b : Best) : Prop :=
  ∃ i start length : ℕ, b = ⟨i, start, length⟩ ∧ i < a.geometry.numGroups ∧ 0 < length ∧
    start + length ≤ a.geometry.numBits i ∧ IsFree (a.groupBit i) start length

/-- There is no best range yet, or it is a free range. A group that has no free range can leave
a best range of length 0 behind. -/
def BlockAllocator.BestOk (a : BlockAllocator) (b : Best) : Prop :=
  (-1 ≤ b.length ∧ b.length ≤ 0) ∨ a.IsRange b

lemma BlockAllocator.BestOk.ge (h : a.BestOk best) : -1 ≤ best.length := by
  rcases h with h | ⟨i, start, length, rfl, -⟩
  · exact h.1
  · dsimp only
    omega

/-- The summaries of a group are consistent with the bitmap. -/
structure BlockAllocator.Consistent (a : BlockAllocator) (i : ℕ) : Prop where
  freeBits : (a.groups i).freeBits =
    (List.range (a.geometry.numBits i)).countP fun bit => !a.groupBit i bit
  firstFree : ∀ bit < a.geometry.numBits i, a.groupBit i bit = false →
    (a.groups i).firstFree ≤ bit
  largest : (a.groups i).largestValid = true → ∃ start length : ℕ,
    (a.groups i).largestStart = start ∧ (a.groups i).largestLength = length ∧
      start + length ≤ a.geometry.numBits i ∧ IsFree (a.groupBit i) start length ∧
      AtMost (a.groupBit i) 0 (a.geometry.numBits i) length

/-! ## The bits of a group -/

/-- What holds while the bits of a group are read, from `lo` on. -/
structure Scanning (a : BlockAllocator) (i maximum lo : ℕ) (best : Best) (s : Scan) : Prop where
  run : InRun (a.groupBit i) lo s.currentBit s.currentLength
  started : 0 < s.currentLength → s.currentStart + s.currentLength = s.currentBit
  start_le : s.currentStart ≤ s.currentBit
  short : s.currentLength < maximum
  inGroup : s.currentBit ≤ a.geometry.numBits i
  lt : s.best.length < maximum
  ge : best.length ≤ s.best.length
  ok : a.BestOk s.best
  atMost : AtMost (a.groupBit i) lo s.currentBit (max s.best.length s.currentLength)
  largest : AtMost (a.groupBit i) lo s.currentBit (max s.groupLargestLength s.currentLength)
  largest_le : s.groupLargestLength ≤ s.best.length
  largest_ok : 0 ≤ s.groupLargestLength → ∃ start length : ℕ, s.groupLargestStart = start ∧
    s.groupLargestLength = length ∧ start + length ≤ a.geometry.numBits i ∧
      IsFree (a.groupBit i) start length

section

variable (h : Scanning a i maximum lo best s)
include h

lemma Scanning.isFree (hpos : 0 < s.currentLength) :
    IsFree (a.groupBit i) s.currentStart s.currentLength := by
  have hstart := h.started hpos
  have hfree := h.run.free
  rwa [show s.currentBit - s.currentLength = s.currentStart by omega] at hfree

lemma Scanning.improveBest (hi : i < a.geometry.numGroups) :
    Scanning a i maximum lo best (s.improveBest i) ∧
      (s.currentLength : ℤ) ≤ (s.improveBest i).best.length := by
  unfold Scan.improveBest
  split
  · next hlonger =>
    have hge := h.ge
    have hshort := h.short
    have hinGroup := h.inGroup
    have hlargest := h.largest_le
    refine ⟨{ h with lt := ?_, ge := ?_, ok := ?_, atMost := ?_, largest_le := ?_ }, le_rfl⟩
    · dsimp only
      omega
    · dsimp only
      omega
    · rcases Nat.eq_zero_or_pos s.currentLength with hzero | hpos
      · left
        dsimp only
        omega
      · have hstart := h.started hpos
        exact .inr ⟨i, s.currentStart, s.currentLength, rfl, hi, hpos, by omega, h.isFree hpos⟩
    · refine h.atMost.mono ?_
      dsimp only
      omega
    · dsimp only
      omega
  · next hlonger => exact ⟨h, by omega⟩

lemma Scanning.improveLargest (hbest : (s.currentLength : ℤ) ≤ s.best.length) :
    Scanning a i maximum lo best s.improveLargest ∧
      (s.currentLength : ℤ) ≤ s.improveLargest.groupLargestLength := by
  unfold Scan.improveLargest
  split
  · next hlonger =>
    have hinGroup := h.inGroup
    have hle := h.start_le
    refine ⟨{ h with largest := ?_, largest_le := hbest, largest_ok := fun _ => ?_ }, le_rfl⟩
    · refine h.largest.mono ?_
      dsimp only
      omega
    · refine ⟨s.currentStart, s.currentLength, rfl, rfl, ?_⟩
      rcases Nat.eq_zero_or_pos s.currentLength with hzero | hpos
      · rw [hzero]
        exact ⟨by omega, IsFree.zero _⟩
      · have hstart := h.started hpos
        exact ⟨by omega, h.isFree hpos⟩
  · next hlonger => exact ⟨h, by omega⟩

end

lemma improveLargest_best (s : Scan) : s.improveLargest.best = s.best := by
  unfold Scan.improveLargest
  split <;> rfl

lemma improveLargest_currentBit (s : Scan) : s.improveLargest.currentBit = s.currentBit := by
  unfold Scan.improveLargest
  split <;> rfl

lemma improveBest_currentBit (s : Scan) : (s.improveBest i).currentBit = s.currentBit := by
  unfold Scan.improveBest
  split <;> rfl

lemma improveBest_currentLength (s : Scan) :
    (s.improveBest i).currentLength = s.currentLength := by
  unfold Scan.improveBest
  split <;> rfl

lemma Scanning.endRange (h : Scanning a i maximum lo best s) (hi : i < a.geometry.numGroups) :
    (s.endRange i).currentBit = s.currentBit ∧ (s.endRange i).currentLength = 0 ∧
      (s.endRange i).currentStart ≤ s.currentBit ∧
      (s.endRange i).best.length < maximum ∧ best.length ≤ (s.endRange i).best.length ∧
      a.BestOk (s.endRange i).best ∧
      AtMost (a.groupBit i) lo s.currentBit (s.endRange i).best.length ∧
      AtMost (a.groupBit i) lo s.currentBit (s.endRange i).groupLargestLength ∧
      (s.endRange i).groupLargestLength ≤ (s.endRange i).best.length ∧
      (0 ≤ (s.endRange i).groupLargestLength → ∃ start length : ℕ,
        (s.endRange i).groupLargestStart = start ∧ (s.endRange i).groupLargestLength = length ∧
          start + length ≤ a.geometry.numBits i ∧ IsFree (a.groupBit i) start length) := by
  unfold Scan.endRange
  split
  · next hpos =>
    obtain ⟨hbest, hle⟩ := h.improveBest hi
    obtain ⟨hlargest, hle'⟩ := hbest.improveLargest
      (by rw [improveBest_currentLength]; exact hle)
    rw [improveBest_currentLength] at hle'
    have hbit : (s.improveBest i).improveLargest.currentBit = s.currentBit := by
      rw [improveLargest_currentBit, improveBest_currentBit]
    have hstart := hlargest.start_le
    have hatMost := hlargest.atMost
    have hatLargest := hlargest.largest
    have hlength : (s.improveBest i).improveLargest.currentLength = s.currentLength := by
      rw [← improveBest_currentLength (i := i) s]
      unfold Scan.improveLargest
      split <;> rfl
    rw [hbit] at hstart hatMost hatLargest
    rw [hlength] at hatMost hatLargest
    rw [improveLargest_best] at hatMost
    rw [max_eq_left hle] at hatMost
    rw [max_eq_left hle'] at hatLargest
    refine ⟨hbit, rfl, hstart, hlargest.lt, hlargest.ge, hlargest.ok, ?_, hatLargest,
      hlargest.largest_le, hlargest.largest_ok⟩
    dsimp only
    rw [improveLargest_best]
    exact hatMost
  · next hzero =>
    rw [not_not] at hzero
    refine ⟨rfl, hzero, h.start_le, h.lt, h.ge, h.ok, ?_, ?_, h.largest_le, h.largest_ok⟩
    · intro start length hlo hend hpos hfree
      have hle := h.atMost start length hlo hend hpos hfree
      omega
    · intro start length hlo hend hpos hfree
      have hle := h.largest start length hlo hend hpos hfree
      omega

def Found (a : BlockAllocator) (i maximum lo : ℕ) (s : Scan) : Prop :=
  ∃ start : ℕ, s.best = ⟨i, start, maximum⟩ ∧ lo ≤ start ∧
    start + maximum ≤ a.geometry.numBits i ∧ IsFree (a.groupBit i) start maximum ∧
    (s.currentLength : ℤ) ≤ maximum

/-- All ranges of the group that are of interest have been seen. -/
structure Seen (a : BlockAllocator) (i maximum lo : ℕ) (best : Best) (s : Scan) : Prop where
  lt : s.best.length < maximum
  ge : best.length ≤ s.best.length
  ok : a.BestOk s.best
  atMost : AtMost (a.groupBit i) lo (a.geometry.numBits i) s.best.length
  largest : AtMost (a.groupBit i) lo (a.geometry.numBits i) s.groupLargestLength
  largest_le : s.groupLargestLength ≤ s.best.length
  largest_ok : 0 ≤ s.groupLargestLength → ∃ start length : ℕ, s.groupLargestStart = start ∧
    s.groupLargestLength = length ∧ start + length ≤ a.geometry.numBits i ∧
      IsFree (a.groupBit i) start length

section

variable (h : Scanning a i maximum lo best s)
include h

lemma Scanning.free_step
    (hin : s.currentBit < a.geometry.numBits i) (hfree : a.groupBit i s.currentBit = false)
    (hshort : s.currentLength + 1 < maximum) :
    Scanning a i maximum lo best { s.addBit with currentBit := s.currentBit + 1 } := by
  refine ⟨h.run.free_step hfree, fun _ => ?_, ?_, hshort, hin, h.lt, h.ge, h.ok,
    h.atMost.free_step h.run hfree, h.largest.free_step h.run hfree, h.largest_le,
    h.largest_ok⟩
  · show (if s.currentLength = 0 then s.currentBit else s.currentStart) + (s.currentLength + 1) =
      s.currentBit + 1
    split
    · omega
    · have := h.started (by omega)
      omega
  · show (if s.currentLength = 0 then s.currentBit else s.currentStart) ≤ s.currentBit + 1
    have := h.start_le
    split <;> omega

lemma Scanning.found_step
    (hin : s.currentBit < a.geometry.numBits i) (hfree : a.groupBit i s.currentBit = false)
    (hlong : maximum ≤ s.currentLength + 1) : Found a i maximum lo
      { s.addBit with best := ⟨i, s.addBit.currentStart, s.addBit.currentLength⟩ } := by
  have hrun := h.run.free_step hfree
  have hshort := h.short
  have hmax : s.currentLength + 1 = maximum := by omega
  have hstart : s.addBit.currentStart = s.currentBit - s.currentLength := by
    show (if s.currentLength = 0 then s.currentBit else s.currentStart) = _
    split
    · omega
    · have := h.started (by omega)
      omega
  have hle := hrun.le
  have hrange := hrun.free
  rw [show s.currentBit + 1 - (s.currentLength + 1) = s.currentBit - s.currentLength by omega,
    hmax] at hrange
  refine ⟨s.currentBit - s.currentLength, ?_, by omega, by omega, hrange,
    by exact_mod_cast hmax.le⟩
  show (⟨i, s.addBit.currentStart, (s.currentLength + 1 : ℕ)⟩ : Best) = _
  rw [hstart, hmax]

lemma Scanning.used_step (hi : i < a.geometry.numGroups) (hmaximum : 0 < maximum)
    (hin : s.currentBit < a.geometry.numBits i) (hused : a.groupBit i s.currentBit = true) :
    Scanning a i maximum lo best
      { s.endRange i with currentBit := (s.endRange i).currentBit + 1 } := by
  obtain ⟨hbit, hzero, hstart, hlt, hge, hok, hatMost, hlargest, hle, hranges⟩ := h.endRange hi
  refine ⟨?_, fun hpos => ?_, ?_, ?_, ?_, hlt, hge, hok, ?_, ?_, hle, hranges⟩
  · show InRun (a.groupBit i) lo ((s.endRange i).currentBit + 1) (s.endRange i).currentLength
    rw [hbit, hzero]
    exact h.run.used_step hused
  · exact absurd hpos (by show ¬0 < (s.endRange i).currentLength; omega)
  · show (s.endRange i).currentStart ≤ (s.endRange i).currentBit + 1
    omega
  · show (s.endRange i).currentLength < maximum
    omega
  · show (s.endRange i).currentBit + 1 ≤ _
    omega
  · show AtMost _ lo ((s.endRange i).currentBit + 1) _
    rw [hbit]
    exact (hatMost.used_step hused).mono (le_max_left _ _)
  · show AtMost _ lo ((s.endRange i).currentBit + 1) _
    rw [hbit]
    exact (hlargest.used_step hused).mono (le_max_left _ _)

lemma Scanning.skip_step (hi : i < a.geometry.numGroups) (hused : a.groupBit i s.currentBit = true)
    (hleft : (a.geometry.numBits i : ℤ) - (s.endRange i).currentBit ≤
      (s.endRange i).groupLargestLength) : Seen a i maximum lo best (s.endRange i) := by
  obtain ⟨hbit, -, -, hlt, hge, hok, hatMost, hlargest, hle, hranges⟩ := h.endRange hi
  rw [hbit] at hleft
  exact ⟨hlt, hge, hok, hatMost.skip hused (hleft.trans hle), hlargest.skip hused hleft, hle,
    hranges⟩

end

lemma scanBits_spec (ha : a.Initialized) (hi : i < a.geometry.numGroups)
    (hmaximum : 0 < maximum) {block : ℕ} (hblock : block < (a.groups i).numBlocks)
    (rounds : ℕ) : ∀ (bit : ℕ) (s : Scan),
      bit ≤ (setTo a (a.groups i) block).numBits →
      (setTo a (a.groups i) block).numBits ≤ rounds + bit →
      s.currentBit = block * a.geometry.bitsPerBlock + bit →
      Scanning a i maximum lo best s →
      let r := scanBits (setTo a (a.groups i) block) (a.groups i).numBits i maximum rounds bit s
      (r.2 = .block ∧ Scanning a i maximum lo best r.1 ∧ r.1.currentBit =
        block * a.geometry.bitsPerBlock + (setTo a (a.groups i) block).numBits) ∨
      (r.2 = .found ∧ Found a i maximum lo r.1) ∨
      (r.2 = .skip ∧ Seen a i maximum lo best r.1 ∧ r.1.currentBit < a.geometry.numBits i) := by
  induction rounds with
  | zero =>
    intro bit s hle hrounds hbit h
    refine .inl ⟨rfl, h, ?_⟩
    show s.currentBit = _
    omega
  | succ rounds ih =>
    intro bit s hle hrounds hbit h
    dsimp only
    unfold scanBits
    by_cases hlt : bit < (setTo a (a.groups i) block).numBits
    · rw [if_pos hlt, isUsed_setTo ha hi hblock hlt, ← hbit]
      have hin := ((setTo_numBits ha hi hblock bit).1 hlt).2
      rw [← hbit] at hin
      cases hused : a.groupBit i s.currentBit with
      | false =>
        rw [Bool.not_false, if_pos rfl]
        dsimp only
        by_cases hlong : s.addBit.currentLength ≥ maximum
        · rw [if_pos hlong]
          exact .inr (.inl ⟨rfl, h.found_step hin hused hlong⟩)
        · rw [if_neg hlong]
          refine ih (bit + 1) _ hlt (by omega) ?_ (h.free_step hin hused (Nat.lt_of_not_le hlong))
          show s.currentBit + 1 = _
          omega
      | true =>
        rw [Bool.not_true, if_neg Bool.false_ne_true]
        dsimp only
        have hbits := (h.endRange hi).1
        by_cases hleft : ((a.groups i).numBits : ℤ) - (s.endRange i).currentBit ≤
            (s.endRange i).groupLargestLength
        · rw [if_pos hleft]
          rw [ha.numBits i hi] at hleft
          refine .inr (.inr ⟨rfl, h.skip_step hi hused hleft, ?_⟩)
          show (s.endRange i).currentBit < _
          rw [hbits]
          exact hin
        · rw [if_neg hleft]
          refine ih (bit + 1) _ hlt (by omega) ?_ (h.used_step hi hmaximum hin hused)
          show (s.endRange i).currentBit + 1 = _
          omega
    · rw [if_neg hlt]
      refine .inl ⟨rfl, h, ?_⟩
      show s.currentBit = _
      omega

lemma scanBlocks_spec (ha : a.Initialized) (hi : i < a.geometry.numGroups)
    (hmaximum : 0 < maximum) (canFind : Bool) (rounds : ℕ) : ∀ (block start : ℕ) (s : Scan),
      (a.groups i).numBlocks ≤ rounds + block →
      (block < (a.groups i).numBlocks →
        s.currentBit = block * a.geometry.bitsPerBlock + start % a.geometry.bitsPerBlock) →
      ((a.groups i).numBlocks ≤ block → s.currentBit = a.geometry.numBits i) →
      Scanning a i maximum lo best s →
      let r := scanBlocks a i maximum rounds block start canFind s
      (r.2 = false ∧ Found a i maximum lo r.1) ∨
      (r.2 = canFind ∧ Seen a i maximum lo best r.1 ∧ r.1.currentBit < a.geometry.numBits i) ∨
      (r.2 = canFind ∧ Scanning a i maximum lo best r.1 ∧
        r.1.currentBit = a.geometry.numBits i) := by
  induction rounds with
  | zero =>
    intro block start s hrounds _ hend h
    exact .inr (.inr ⟨rfl, h, hend (by omega)⟩)
  | succ rounds ih =>
    intro block start s hrounds hbit hend h
    dsimp only
    unfold scanBlocks
    by_cases hblock : block < (a.groups i).numBlocks
    · rw [if_pos hblock]
      dsimp only
      have hbits := setTo_numBits_eq ha hi hblock
      have hmod := Nat.mod_lt start a.geometry.bitsPerBlock_pos
      have hcurrent := hbit hblock
      have hinGroup := h.inGroup
      rcases scanBits_spec ha hi hmaximum hblock (setTo a (a.groups i) block).numBits
          (start % a.geometry.bitsPerBlock) s (by omega) (by omega) hcurrent h with ⟨hended, hs, hat⟩ | ⟨hended, hs⟩ | ⟨hended, hs, hin⟩
      · rw [if_neg (by have := hs.lt; omega), hended, if_neg (by decide)]
        rw [ha.numBlocks i hi] at hblock
        have hmore := a.geometry.lt_numBitmapBlocks_iff i (block + 1)
        have hthis := (a.geometry.lt_numBitmapBlocks_iff i block).1 hblock
        rw [Nat.succ_mul] at hmore
        refine ih (block + 1) 0 _ (by omega) (fun hlt => ?_) (fun hle => ?_) hs
        · rw [ha.numBlocks i hi, hmore] at hlt
          rw [hat, hbits, Nat.zero_mod, Nat.succ_mul]
          omega
        · rw [ha.numBlocks i hi] at hle
          rw [hat, hbits]
          omega
      · obtain ⟨first, hbest, hrest⟩ := hs
        rw [if_pos (by rw [hbest])]
        exact .inl ⟨rfl, first, hbest, hrest⟩
      · rw [if_neg (by have := hs.lt; omega), hended, if_pos rfl]
        exact .inr (.inl ⟨rfl, hs, hin⟩)
    · rw [if_neg hblock]
      exact .inr (.inr ⟨rfl, h, hend (by omega)⟩)

lemma Scanning.seen (h : Scanning a i maximum lo best s) (hi : i < a.geometry.numGroups)
    (hend : s.currentBit = a.geometry.numBits i) (canFind : Bool) :
    let s' := if canFind then (s.improveBest i).improveLargest else s.improveBest i
    s'.best.length < maximum ∧ best.length ≤ s'.best.length ∧ a.BestOk s'.best ∧
      AtMost (a.groupBit i) lo (a.geometry.numBits i) s'.best.length ∧
      (canFind = true → Seen a i maximum lo best s') := by
  dsimp only
  obtain ⟨hbest, hle⟩ := h.improveBest hi
  have hbit : (s.improveBest i).currentBit = a.geometry.numBits i := by
    rw [improveBest_currentBit, hend]
  have hatMost := hbest.atMost
  rw [hbit, improveBest_currentLength, max_eq_left hle] at hatMost
  cases canFind with
  | false =>
    rw [if_neg Bool.false_ne_true]
    exact ⟨hbest.lt, hbest.ge, hbest.ok, hatMost, nofun⟩
  | true =>
    rw [if_pos rfl]
    obtain ⟨hlargest, hle'⟩ := hbest.improveLargest (by rw [improveBest_currentLength]; exact hle)
    have hatLargest := hlargest.largest
    have hlength : (s.improveBest i).improveLargest.currentLength =
        (s.improveBest i).currentLength := by
      unfold Scan.improveLargest
      split <;> rfl
    rw [improveLargest_currentBit, hbit, hlength, max_eq_left hle'] at hatLargest
    rw [← improveLargest_best] at hatMost
    exact ⟨hlargest.lt, hlargest.ge, hlargest.ok, hatMost, fun _ => ⟨hlargest.lt, hlargest.ge,
      hlargest.ok, hatMost, hatLargest, hlargest.largest_le, hlargest.largest_ok⟩⟩

/-! ## What becomes known -/

/-- Apart from the largest ranges of the groups, nothing has changed, and these are known
better. -/
structure Refined (a a' : BlockAllocator) : Prop where
  geometry : a'.geometry = a.geometry
  bitmap : a'.bitmap = a.bitmap
  usedBlocks : a'.usedBlocks = a.usedBlocks
  groups : ∀ i, (a'.groups i).numBits = (a.groups i).numBits ∧
    (a'.groups i).numBlocks = (a.groups i).numBlocks ∧ (a'.groups i).start = (a.groups i).start ∧
    (a'.groups i).firstFree = (a.groups i).firstFree ∧
    (a'.groups i).freeBits = (a.groups i).freeBits
  consistent : ∀ i < a.geometry.numGroups, a.Consistent i → a'.Consistent i

lemma Refined.refl (a : BlockAllocator) : Refined a a :=
  ⟨rfl, rfl, rfl, fun _ => ⟨rfl, rfl, rfl, rfl, rfl⟩, fun _ _ h => h⟩

lemma Refined.groupBit (h : Refined a a') (i : ℕ) : a'.groupBit i = a.groupBit i := by
  funext bit
  unfold BlockAllocator.groupBit
  rw [h.geometry, h.bitmap]

lemma Refined.initialized (h : Refined a a') (ha : a.Initialized) : a'.Initialized := by
  refine ⟨fun i hi => ?_, fun i hi => ?_, fun i hi => ?_⟩
  · rw [h.geometry] at hi ⊢
    rw [(h.groups i).1, ha.numBits i hi]
  · rw [h.geometry] at hi ⊢
    rw [(h.groups i).2.1, ha.numBlocks i hi]
  · rw [h.geometry] at hi ⊢
    rw [(h.groups i).2.2.1, ha.start i hi]

lemma Refined.trans {a'' : BlockAllocator} (h : Refined a a') (h' : Refined a' a'') :
    Refined a a'' := by
  refine ⟨h'.geometry.trans h.geometry, h'.bitmap.trans h.bitmap,
    h'.usedBlocks.trans h.usedBlocks, fun i => ?_, fun i hi hc => ?_⟩
  · obtain ⟨h₁, h₂, h₃, h₄, h₅⟩ := h.groups i
    obtain ⟨h₁', h₂', h₃', h₄', h₅'⟩ := h'.groups i
    exact ⟨h₁'.trans h₁, h₂'.trans h₂, h₃'.trans h₃, h₄'.trans h₄, h₅'.trans h₅⟩
  · exact h'.consistent i (by rw [h.geometry]; exact hi) (h.consistent i hi hc)

variable {start length : ℕ}

lemma refined_setGroup (hin : start + length ≤ a.geometry.numBits i)
    (hfree : IsFree (a.groupBit i) start length)
    (hatMost : AtMost (a.groupBit i) 0 (a.geometry.numBits i) length) :
    Refined a (a.setGroup i
      { a.groups i with largestStart := start, largestLength := length, largestValid := true }) := by
  refine ⟨rfl, rfl, rfl, fun j => ?_, fun j hj hc => ?_⟩
  · by_cases hji : j = i
    · subst hji
      unfold BlockAllocator.setGroup
      dsimp only
      rw [update_self]
      exact ⟨rfl, rfl, rfl, rfl, rfl⟩
    · unfold BlockAllocator.setGroup
      dsimp only
      rw [update_of_ne hji]
      exact ⟨rfl, rfl, rfl, rfl, rfl⟩
  · have hgroup : (a.setGroup i { a.groups i with
        largestStart := start, largestLength := length, largestValid := true }).groups j =
        if j = i then { a.groups i with
          largestStart := start, largestLength := length, largestValid := true }
        else a.groups j := by
      unfold BlockAllocator.setGroup
      dsimp only
      split
      · next hji => rw [hji, update_self]
      · next hji => rw [update_of_ne hji]
    by_cases hji : j = i
    · subst hji
      refine ⟨?_, ?_, fun _ => ?_⟩
      · rw [hgroup, if_pos rfl]
        exact hc.freeBits
      · rw [hgroup, if_pos rfl]
        exact hc.firstFree
      · rw [hgroup, if_pos rfl]
        exact ⟨start, length, rfl, rfl, hin, hfree, hatMost⟩
    · refine ⟨?_, ?_, ?_⟩
      · rw [hgroup, if_neg hji]
        exact hc.freeBits
      · rw [hgroup, if_neg hji]
        exact hc.firstFree
      · rw [hgroup, if_neg hji]
        exact hc.largest

/-! ## What a group offers -/

/-- A visit of the group finds a range of at least the wanted length, and that is `length`: either
the largest range is known, or as many blocks as are wanted are found. -/
def Offers (a : BlockAllocator) (i start maximum length : ℕ) : Prop :=
  start < a.geometry.numBits i ∧ (a.groups i).freeBits ≠ 0 ∧
    if (a.groups i).largestValid = true ∧
        max (start : ℤ) (a.groups i).firstFree ≤ (a.groups i).largestStart then
      (maximum : ℤ) ≤ length ∧ (a.groups i).largestLength = length
    else
      length = maximum ∧ ∃ first, start ≤ first ∧ first + maximum ≤ a.geometry.numBits i ∧
        IsFree (a.groupBit i) first maximum

lemma Offers.le (h : Offers a i start maximum length) : maximum ≤ length := by
  obtain ⟨-, -, h⟩ := h
  split at h
  · exact_mod_cast h.1
  · exact h.1.ge

/-- The groups offer the same to a search from their first bit on. -/
def SameOffers (a a' : BlockAllocator) (maximum : ℕ) : Prop :=
  ∀ i length, Offers a' i 0 maximum length ↔ Offers a i 0 maximum length

lemma sameOffers_setGroup (hvalid : (a.groups i).largestValid = false)
    (hatMost : AtMost (a.groupBit i) 0 (a.geometry.numBits i) length) (hlt : length < maximum) :
    SameOffers a (a.setGroup i
      { a.groups i with largestStart := start, largestLength := length, largestValid := true })
      maximum := by
  have hnone : ∀ first, first + maximum ≤ a.geometry.numBits i →
      ¬IsFree (a.groupBit i) first maximum := by
    intro first hend hfree
    have hle := hatMost first maximum (Nat.zero_le _) hend (by omega) hfree
    omega
  intro j length'
  by_cases hji : j = i
  · subst hji
    have hgroup : (a.setGroup j { a.groups j with
        largestStart := start, largestLength := length, largestValid := true }).groups j =
        { a.groups j with
          largestStart := start, largestLength := length, largestValid := true } :=
      update_self _ _ _
    constructor
    · rintro ⟨-, -, hoffer⟩
      rw [hgroup] at hoffer
      dsimp only at hoffer
      split at hoffer
      · omega
      · obtain ⟨-, first, -, hend, hfree⟩ := hoffer
        exact absurd hfree (hnone first hend)
    · rintro ⟨-, -, hoffer⟩
      rw [if_neg (by rw [hvalid]; simp)] at hoffer
      obtain ⟨-, first, -, hend, hfree⟩ := hoffer
      exact absurd hfree (hnone first hend)
  · have hgroup : (a.setGroup i { a.groups i with
        largestStart := start, largestLength := length, largestValid := true }).groups j =
        a.groups j := update_of_ne hji _ _
    unfold Offers
    rw [hgroup]
    exact Iff.rfl

/-! ## A group -/

lemma scanGroup_spec (ha : a.Initialized) (hi : i < a.geometry.numGroups)
    (hmaximum : 0 < maximum) (hstart : start < a.geometry.numBits i) (hlt : best.length < maximum)
    (hok : a.BestOk best) : let r := scanGroup a i start maximum best
    (r.1 = a ∧ ∃ first : ℕ, r.2 = ⟨i, first, maximum⟩ ∧ start ≤ first ∧
      first + maximum ≤ a.geometry.numBits i ∧ IsFree (a.groupBit i) first maximum) ∨
    (Refined a r.1 ∧ SameOffers a r.1 maximum ∧ r.2.length < maximum ∧
      best.length ≤ r.2.length ∧ a.BestOk r.2 ∧
      AtMost (a.groupBit i) start (a.geometry.numBits i) r.2.length) := by
  have hbegin : Scanning a i maximum start best (.begin best start) :=
    ⟨InRun.begin _ _, fun h => absurd h (Nat.lt_irrefl 0), Nat.zero_le _, hmaximum, hstart.le, hlt,
      le_rfl, hok, AtMost.begin _ _ _, AtMost.begin _ _ _, hok.ge, fun h => absurd h (by show ¬(0 : ℤ) ≤ -1; decide)⟩
  have hdiv := Nat.div_add_mod start a.geometry.bitsPerBlock
  rw [Nat.mul_comm] at hdiv
  have hblock : start / a.geometry.bitsPerBlock < (a.groups i).numBlocks := by
    rw [ha.numBlocks i hi, a.geometry.lt_numBitmapBlocks_iff]
    omega
  dsimp only
  have hbits := ha.numBits i hi
  unfold scanGroup
  dsimp only
  set r := scanBlocks a i maximum (a.groups i).numBlocks (start / a.geometry.bitsPerBlock) start
    (decide (start = 0)) (.begin best start) with hr
  -- What the summary is set to, when the group has been read from its first bit on.
  have hset : ∀ (s' : Scan) (canFind : Bool), canFind = decide (start = 0) →
      s'.best.length < maximum → best.length ≤ s'.best.length → a.BestOk s'.best →
      AtMost (a.groupBit i) start (a.geometry.numBits i) s'.best.length →
      (canFind = true → Seen a i maximum start best s') →
      let r' := if canFind ∧ (!(a.groups i).largestValid) ∧ s'.groupLargestLength ≥ 0 then
          (a.setGroup i { a.groups i with
            largestStart := s'.groupLargestStart
            largestLength := s'.groupLargestLength
            largestValid := true }, s'.best)
        else (a, s'.best)
      Refined a r'.1 ∧ SameOffers a r'.1 maximum ∧ r'.2.length < maximum ∧
        best.length ≤ r'.2.length ∧ a.BestOk r'.2 ∧
        AtMost (a.groupBit i) start (a.geometry.numBits i) r'.2.length := by
    intro s' canFind hcan hlt' hge' hok' hatMost hseen
    dsimp only
    split
    · next hif =>
      have hs := hseen hif.1
      obtain ⟨first, length, hfirst, hlength, hin, hfree⟩ := hs.largest_ok hif.2.2
      have hzero : start = 0 := by
        rw [hif.1] at hcan
        exact of_decide_eq_true hcan.symm
      have hlargest := hs.largest
      rw [hlength, hzero] at hlargest
      dsimp only
      have hshort : length < maximum := by
        have hle := hs.largest_le
        omega
      rw [hfirst, hlength]
      exact ⟨refined_setGroup hin hfree hlargest, sameOffers_setGroup (by simpa using hif.2.1)
        hlargest hshort, hlt', hge', hok', hatMost⟩
    · exact ⟨Refined.refl a, fun _ _ => Iff.rfl, hlt', hge', hok', hatMost⟩
  rcases scanBlocks_spec ha hi hmaximum (decide (start = 0)) _ _ _ _ (Nat.le_add_right _ _)
      (fun _ => hdiv.symm) (fun h => absurd hblock (Nat.not_lt.2 h)) hbegin with
    ⟨hcan, first, hbest, hfirst, hin, hfree, hle⟩ | ⟨hcan, hs, hbit⟩ | ⟨hcan, hs, hbit⟩
  · left
    rw [← hr] at hcan hbest hle
    have hsame : r.1.improveBest i = r.1 := by
      unfold Scan.improveBest
      rw [if_neg (by rw [hbest]; dsimp only; omega)]
    rw [hcan, hsame, if_neg Bool.false_ne_true, ite_self, if_neg (by simp)]
    exact ⟨rfl, first, hbest, hfirst, hin, hfree⟩
  · right
    rw [← hr] at hcan hs hbit
    have hne : r.1.currentBit ≠ (a.groups i).numBits := hbits ▸ hbit.ne
    rw [if_neg hne]
    exact hset r.1 r.2 hcan hs.lt hs.ge hs.ok hs.atMost fun _ => hs
  · right
    rw [← hr] at hcan hs hbit
    obtain ⟨hlt', hge', hok', hatMost, hseen⟩ := hs.seen hi hbit r.2
    rw [if_pos (hbit.trans hbits.symm)]
    exact hset _ r.2 hcan hlt' hge' hok' hatMost hseen

inductive Outcome (a : BlockAllocator) (i start maximum : ℕ) (best best' : Best) : Prop where
  /-- a range of at least the wanted length -/
  | enough (length : ℕ) (offers : Offers a i start maximum length)
      (found : best'.length = length) (range : a.IsRange best')
  /-- the longest range there is, if it is longer than the ones before -/
  | less (offers : ∀ length, ¬Offers a i start maximum length) (lt : best'.length < maximum)
      (ge : best.length ≤ best'.length) (ok : a.BestOk best')
      (atMost : start = 0 → AtMost (a.groupBit i) 0 (a.geometry.numBits i) best'.length)

lemma BlockAllocator.Consistent.firstFree_le (h : a.Consistent i) {first : ℕ}
    (hin : first + length ≤ a.geometry.numBits i) (hpos : 0 < length)
    (hfree : IsFree (a.groupBit i) first length) : (a.groups i).firstFree ≤ first :=
  h.firstFree first (by omega) (hfree first le_rfl (by omega))

lemma BlockAllocator.Consistent.exists_free (h : a.Consistent i)
    (hfull : (a.groups i).freeBits ≠ 0) :
    ∃ bit < a.geometry.numBits i, a.groupBit i bit = false := by
  rw [h.freeBits, Int.natCast_ne_zero, ← Nat.pos_iff_ne_zero, List.countP_pos_iff] at hfull
  obtain ⟨bit, hbit, hfree⟩ := hfull
  rw [Bool.not_eq_true'] at hfree
  exact ⟨bit, List.mem_range.1 hbit, hfree⟩

lemma BlockAllocator.Consistent.atMost_of_full (h : a.Consistent i)
    (hfull : (a.groups i).freeBits = 0) (k : ℤ) :
    AtMost (a.groupBit i) 0 (a.geometry.numBits i) k := by
  intro first length _ hend hpos hfree
  rw [h.freeBits, Int.natCast_eq_zero, List.countP_eq_zero] at hfull
  have hused := hfull first (List.mem_range.2 (by omega))
  rw [hfree first le_rfl (by omega)] at hused
  exact absurd rfl hused

lemma searchGroup_spec (ha : a.Initialized) (hi : i < a.geometry.numGroups)
    (hc : a.Consistent i) (hmaximum : 0 < maximum) (start : ℕ) (hlt : best.length < maximum)
    (hok : a.BestOk best) :
    Refined a (searchGroup a i start maximum best).1 ∧
      SameOffers a (searchGroup a i start maximum best).1 maximum ∧
      Outcome a i start maximum best (searchGroup a i start maximum best).2 := by
  unfold searchGroup
  dsimp only
  rw [ha.numBits i hi]
  by_cases hnone : start ≥ a.geometry.numBits i ∨ (a.groups i).freeBits = 0
  · rw [if_pos hnone]
    refine ⟨Refined.refl a, fun _ _ => Iff.rfl, .less (fun length hoffer => ?_) hlt le_rfl hok fun hstart => ?_⟩
    · rcases hnone with hnone | hnone
      · exact absurd hoffer.1 (Nat.not_lt.2 hnone)
      · exact hoffer.2.1 hnone
    · rcases hnone with hnone | hnone
      · have := a.geometry.numBits_pos i
        omega
      · exact hc.atMost_of_full hnone _
  · rw [if_neg hnone]
    rw [not_or, Nat.not_le] at hnone
    obtain ⟨hin, hnotFull⟩ := hnone
    obtain ⟨bit, hbit, hfree⟩ := hc.exists_free hnotFull
    have hfirst := hc.firstFree bit hbit hfree
    have hbits := (a.geometry.numBits_le hi).trans a.geometry.bitsPerGroup_le
    -- The start is moved to the first free block.
    set first := if (start : ℤ) < (a.groups i).firstFree
      then ((a.groups i).firstFree % 2 ^ 16).toNat else start with hfirstDef
    have hmax : (first : ℤ) = max (start : ℤ) (a.groups i).firstFree := by
      rw [hfirstDef]
      split
      · omega
      · omega
    have hfirstIn : first < a.geometry.numBits i := by omega
    -- Before the start that was moved there is no free range.
    have hmoved : start = 0 → ∀ k, AtMost (a.groupBit i) first (a.geometry.numBits i) k →
        AtMost (a.groupBit i) 0 (a.geometry.numBits i) k := by
      intro hzero k h first' length _ hend hpos hfree'
      have hle := hc.firstFree_le hend hpos hfree'
      exact h first' length (by omega) hend hpos hfree'
    by_cases hskip : (a.groups i).largestValid = true ∧ (a.groups i).largestLength < best.length
    · rw [if_pos hskip]
      obtain ⟨largest, length, hlargest, hlength, -, -, hall⟩ := hc.largest hskip.1
      refine ⟨Refined.refl a, fun _ _ => Iff.rfl, .less (fun length' hoffer => ?_) hlt le_rfl hok fun _ => ?_⟩
      · obtain ⟨-, -, hoffer⟩ := hoffer
        split at hoffer
        · omega
        · obtain ⟨-, first', -, hend, hrange⟩ := hoffer
          have hle := hall first' maximum (Nat.zero_le _) hend hmaximum hrange
          omega
      · exact hall.mono (by dsimp only; omega)
    · rw [if_neg hskip]
      by_cases hknown : (a.groups i).largestValid = true ∧ (a.groups i).largestStart ≥ first
      · rw [if_pos hknown]
        obtain ⟨largest, length, hlargest, hlength, hend, hrange, hall⟩ := hc.largest hknown.1
        have hge : (a.groups i).largestLength ≥ best.length := by
          by_contra hcon
          exact hskip ⟨hknown.1, by omega⟩
        rw [if_pos hge, hlargest, hlength]
        have hpos : 0 < length := by
          have hone := hall bit 1 (Nat.zero_le _) hbit Nat.one_pos fun b hb hb' => by
            rw [show b = bit by omega]
            exact hfree
          omega
        have hisRange : a.IsRange ⟨i, largest, length⟩ :=
          ⟨i, largest, length, rfl, hi, hpos, hend, hrange⟩
        have hcached : (a.groups i).largestValid = true ∧
            max (start : ℤ) (a.groups i).firstFree ≤ (a.groups i).largestStart :=
          ⟨hknown.1, by omega⟩
        refine ⟨Refined.refl a, fun _ _ => Iff.rfl, ?_⟩
        by_cases henough : maximum ≤ length
        · refine .enough length ⟨hin, hnotFull, ?_⟩ rfl hisRange
          rw [if_pos hcached]
          exact ⟨by omega, hlength⟩
        · refine .less (fun length' hoffer => ?_) (by dsimp only; omega) (by dsimp only; omega)
            (.inr hisRange) fun _ => hall
          obtain ⟨-, -, hoffer⟩ := hoffer
          rw [if_pos hcached] at hoffer
          omega
      · rw [if_neg hknown]
        have hcached : ¬((a.groups i).largestValid = true ∧
            max (start : ℤ) (a.groups i).firstFree ≤ (a.groups i).largestStart) := by
          rw [← hmax]
          exact hknown
        rcases scanGroup_spec ha hi hmaximum hfirstIn hlt hok with
          ⟨hsame, first', hbest, hle, hend, hrange⟩ | ⟨hrefined, hoffers, hlt', hge', hok', hall⟩
        · rw [hsame]
          refine ⟨Refined.refl a, fun _ _ => Iff.rfl, .enough maximum ⟨hin, hnotFull, ?_⟩ (by rw [hbest]) ?_⟩
          · rw [if_neg hcached]
            exact ⟨rfl, first', by omega, hend, hrange⟩
          · rw [hbest]
            exact ⟨i, first', maximum, rfl, hi, hmaximum, hend, hrange⟩
        · refine ⟨hrefined, hoffers, .less (fun length' hoffer => ?_) hlt' hge' hok' fun hzero =>
            hmoved hzero _ hall⟩
          obtain ⟨-, -, hoffer⟩ := hoffer
          rw [if_neg hcached] at hoffer
          obtain ⟨-, first', hle, hend, hrange⟩ := hoffer
          have hfree' := hc.firstFree_le hend hmaximum hrange
          have hle' := hall first' maximum (by omega) hend hmaximum hrange
          omega

/-! ## The whole search -/

/-- The first visited group that offers enough offers a range of this length. -/
def FirstOffer (a : BlockAllocator) (maximum length : ℕ) :
    (rounds groupIndex start : ℕ) → Prop
  | 0, _, _ => False
  | rounds + 1, groupIndex, start =>
    Offers a (groupIndex % a.geometry.numGroups) start maximum length ∨
      (∀ length', ¬Offers a (groupIndex % a.geometry.numGroups) start maximum length') ∧
        FirstOffer a maximum length rounds (groupIndex % a.geometry.numGroups + 1) 0

inductive SearchOutcome (a : BlockAllocator) (maximum rounds groupIndex start : ℕ)
    (best best' : Best) : Prop where
  | enough (length : ℕ) (first : FirstOffer a maximum length rounds groupIndex start)
      (found : best'.length = length) (range : a.IsRange best')
  | less (first : ∀ length, ¬FirstOffer a maximum length rounds groupIndex start)
      (lt : best'.length < maximum) (ge : best.length ≤ best'.length) (ok : a.BestOk best')
      (atMost : ∀ k < rounds, (k = 0 → start = 0) →
        AtMost (a.groupBit ((groupIndex + k) % a.geometry.numGroups)) 0
          (a.geometry.numBits ((groupIndex + k) % a.geometry.numGroups)) best'.length)

lemma firstOffer_congr (hgeometry : a'.geometry = a.geometry) (h : SameOffers a a' maximum)
    (length : ℕ) (rounds : ℕ) : ∀ groupIndex,
      FirstOffer a' maximum length rounds groupIndex 0 ↔
        FirstOffer a maximum length rounds groupIndex 0 := by
  induction rounds with
  | zero => exact fun _ => Iff.rfl
  | succ rounds ih =>
    intro groupIndex
    show _ ∨ _ ↔ _ ∨ _
    rw [hgeometry, h, ih]
    exact or_congr_right (and_congr_left fun _ => forall_congr' fun length' => not_congr (h _ _))

lemma BlockAllocator.IsRange.congr (h : Refined a a') : a'.IsRange best ↔ a.IsRange best := by
  unfold BlockAllocator.IsRange
  rw [h.geometry]
  simp only [h.groupBit]

lemma search_spec (hmaximum : 0 < maximum) (rounds : ℕ) :
    ∀ (a : BlockAllocator) (groupIndex start : ℕ) (best : Best), a.Initialized →
      (∀ i < a.geometry.numGroups, a.Consistent i) → best.length < maximum → a.BestOk best →
      Refined a (search a maximum rounds groupIndex start best).1 ∧
        SearchOutcome a maximum rounds groupIndex start best
          (search a maximum rounds groupIndex start best).2 := by
  induction rounds with
  | zero =>
    intro a groupIndex start best _ _ hlt hok
    exact ⟨Refined.refl a, .less (fun _ => id) hlt le_rfl hok fun k hk => by omega⟩
  | succ rounds ih =>
    intro a groupIndex start best ha hc hlt hok
    have hi := Nat.mod_lt groupIndex a.geometry.numGroups_pos
    obtain ⟨hrefined, hoffers, houtcome⟩ :=
      searchGroup_spec ha hi (hc _ hi) hmaximum start hlt hok
    unfold search
    dsimp only
    generalize searchGroup a (groupIndex % a.geometry.numGroups) start maximum best = r at *
    cases houtcome with
    | enough length offers found range =>
      have hle := offers.le
      rw [if_pos (by omega)]
      exact ⟨hrefined, .enough length (.inl offers) found range⟩
    | less offers lt ge ok atMost =>
      rw [if_neg (by omega)]
      have hc' : ∀ i < r.1.geometry.numGroups, r.1.Consistent i := by
        rw [hrefined.geometry]
        exact fun i hi => hrefined.consistent i hi (hc i hi)
      have hok' : r.1.BestOk r.2 := by
        rcases ok with ok | ok
        · exact .inl ok
        · exact .inr ((BlockAllocator.IsRange.congr hrefined).2 ok)
      obtain ⟨hrefined', houtcome'⟩ := ih r.1 (groupIndex % a.geometry.numGroups + 1) 0 r.2
        (hrefined.initialized ha) hc' lt hok'
      refine ⟨hrefined.trans hrefined', ?_⟩
      have hfirst := fun length => firstOffer_congr hrefined.geometry hoffers length rounds
        (groupIndex % a.geometry.numGroups + 1)
      cases houtcome' with
      | enough length first found range =>
        exact .enough length (.inr ⟨offers, (hfirst length).1 first⟩) found
          ((BlockAllocator.IsRange.congr hrefined).1 range)
      | less first lt' ge' ok' atMost' =>
        refine .less (fun length h => ?_) lt' (ge.trans ge') ?_ fun k hk hstart => ?_
        · rcases h with h | h
          · exact offers length h
          · exact first length ((hfirst length).2 h.2)
        · rcases ok' with ok' | ok'
          · exact .inl ok'
          · exact .inr ((BlockAllocator.IsRange.congr hrefined).1 ok')
        · cases k with
          | zero => exact (atMost (hstart rfl)).mono ge'
          | succ k =>
            have h := atMost' k (by omega) fun _ => rfl
            rw [hrefined.geometry, hrefined.groupBit] at h
            have hmod : (groupIndex % a.geometry.numGroups + 1 + k) % a.geometry.numGroups =
                (groupIndex + (k + 1)) % a.geometry.numGroups := by
              rw [Nat.add_assoc, Nat.mod_add_mod, Nat.add_comm 1 k]
            rwa [hmod] at h

end Haiku.Bfs
