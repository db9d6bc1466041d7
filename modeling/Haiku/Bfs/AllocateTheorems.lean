import Haiku.Bfs.SearchTheorems

/-!
# What `AllocateBlocks()` returns

The range that the search has found is marked as used. When the result is right, given
consistent summaries of the groups.
-/

namespace Haiku.Bfs

open Function Lib

variable {a a' : BlockAllocator} {i maximum minimum : ℕ} {best : Best}

def Geometry.groupPosition (g : Geometry) (i bit : ℕ) : ℕ × ℕ :=
  (1 + i * g.blocksPerGroup + bit / g.bitsPerBlock, bit % g.bitsPerBlock)

/-- The bits of the range are set, and nothing else has changed in the bitmap. -/
structure Takes (a a' : BlockAllocator) (i start length : ℕ) : Prop where
  geometry : a'.geometry = a.geometry
  usedBlocks : a'.usedBlocks = a.usedBlocks
  bitmap : ∀ disk bit, a'.bitmap disk bit = true ↔ a.bitmap disk bit = true ∨
    ∃ k < length, (disk, bit) = a.geometry.groupPosition i (start + k)

lemma groupPosition_block (g : Geometry) {block bit : ℕ} (h : bit < g.bitsPerBlock) :
    g.groupPosition i (block * g.bitsPerBlock + bit) = (1 + i * g.blocksPerGroup + block, bit) := by
  unfold Geometry.groupPosition
  rw [Nat.mul_comm block, Nat.mul_add_div g.bitsPerBlock_pos, Nat.div_eq_of_lt h, Nat.mul_add_mod,
    Nat.mod_eq_of_lt h, Nat.add_zero]

variable {start n : ℕ}

lemma allocate_block (ha : a.Initialized) (hi : i < a.geometry.numGroups) {block : ℕ}
    (hblock : block < (a.groups i).numBlocks) (hpos : 0 < n)
    (hend : start + n ≤ (setTo a (a.groups i) block).numBits)
    (hfree : IsFree (a.groupBit i) (block * a.geometry.bitsPerBlock + start) n) :
    ∃ cached, (setTo a (a.groups i) block).allocate start n = some cached ∧
      Takes a { a with bitmap := update a.bitmap ((a.groups i).start + block) cached.bits }
        i (block * a.geometry.bitsPerBlock + start) n := by
  have hbits := setTo_numBits_eq ha hi hblock
  have hclear : (List.range n).all (fun k => !(setTo a (a.groups i) block).bits (start + k)) := by
    rw [List.all_eq_true]
    intro k hk
    rw [List.mem_range] at hk
    have hbit := hfree (block * a.geometry.bitsPerBlock + (start + k)) (by omega) (by omega)
    rw [← isUsed_setTo ha hi hblock (by omega)] at hbit
    unfold AllocationBlock.isUsed at hbit
    rw [if_neg (by omega)] at hbit
    rw [hbit]
    rfl
  refine ⟨_, if_pos ⟨by omega, hend, hclear⟩, rfl, rfl, fun disk bit => ?_⟩
  dsimp only
  rw [ha.start i hi]
  have hposition : (∃ k < n, (disk, bit) =
      a.geometry.groupPosition i (block * a.geometry.bitsPerBlock + start + k)) ↔
      disk = 1 + i * a.geometry.blocksPerGroup + block ∧ start ≤ bit ∧ bit < start + n := by
    constructor
    · rintro ⟨k, hk, heq⟩
      rw [Nat.add_assoc, groupPosition_block _ (by omega), Prod.mk.injEq] at heq
      obtain ⟨hdisk, hbit⟩ := heq
      exact ⟨hdisk, by omega, by omega⟩
    · rintro ⟨hdisk, hle, hlt⟩
      refine ⟨bit - start, by omega, ?_⟩
      rw [Nat.add_assoc, groupPosition_block _ (by omega), Prod.mk.injEq]
      exact ⟨hdisk, by omega⟩
  rw [hposition]
  by_cases hdisk : disk = 1 + i * a.geometry.blocksPerGroup + block
  · rw [hdisk, update_self, Bool.or_eq_true, decide_eq_true_eq]
    have hold : (setTo a (a.groups i) block).bits bit =
        a.bitmap (1 + i * a.geometry.blocksPerGroup + block) bit := by
      rw [← ha.start i hi]
      rfl
    rw [hold, or_comm]
    simp only [true_and]
  · rw [update_of_ne hdisk]
    simp only [hdisk, false_and, or_false]

lemma Takes.append {a'' : BlockAllocator} {m : ℕ} (h : Takes a a' i start m)
    (h' : Takes a' a'' i (start + m) n) : Takes a a'' i start (m + n) := by
  refine ⟨h'.geometry.trans h.geometry, h'.usedBlocks.trans h.usedBlocks, fun disk bit => ?_⟩
  rw [h'.bitmap, h.bitmap, h.geometry, or_assoc]
  apply or_congr_right
  constructor
  · rintro (⟨k, hk, heq⟩ | ⟨k, hk, heq⟩)
    · exact ⟨k, by omega, heq⟩
    · exact ⟨m + k, by omega, by rw [← Nat.add_assoc]; exact heq⟩
  · rintro ⟨k, hk, heq⟩
    by_cases hlt : k < m
    · exact .inl ⟨k, hlt, heq⟩
    · exact .inr ⟨k - m, by omega, by rw [Nat.add_assoc, Nat.add_sub_cancel' (by omega)]; exact heq⟩

lemma Takes.zero (a : BlockAllocator) (i start : ℕ) : Takes a a i start 0 := by
  refine ⟨rfl, rfl, fun disk bit => ⟨.inl, ?_⟩⟩
  rintro (h | ⟨k, hk, -⟩)
  · exact h
  · exact absurd hk (Nat.not_lt_zero k)

lemma allocateLoop_spec (rounds : ℕ) : ∀ (a : BlockAllocator) (block start length : ℕ),
    a.Initialized → i < a.geometry.numGroups → length < rounds →
    start < a.geometry.bitsPerBlock →
    block * a.geometry.bitsPerBlock + start + length ≤ a.geometry.numBits i →
    IsFree (a.groupBit i) (block * a.geometry.bitsPerBlock + start) length →
    ∃ a', allocateLoop a (a.groups i) rounds block start length = some a' ∧
      Takes a a' i (block * a.geometry.bitsPerBlock + start) length := by
  induction rounds with
  | zero =>
    intro a block start length _ _ hrounds
    omega
  | succ rounds ih =>
    intro a block start length ha hi hrounds hstart hend hfree
    unfold allocateLoop
    rcases Nat.eq_zero_or_pos length with hzero | hpos
    · subst hzero
      rw [if_neg (Nat.lt_irrefl 0)]
      exact ⟨a, rfl, Takes.zero a i _⟩
    · rw [if_pos hpos]
      dsimp only
      have hblock : block < (a.groups i).numBlocks := by
        rw [ha.numBlocks i hi, a.geometry.lt_numBitmapBlocks_iff]
        omega
      have hbits := setTo_numBits_eq ha hi hblock
      set n := if start + length > (setTo a (a.groups i) block).numBits
        then (setTo a (a.groups i) block).numBits - start else length with hn
      have hnpos : 0 < n := by
        rw [hn]
        split <;> omega
      have hnend : start + n ≤ (setTo a (a.groups i) block).numBits := by
        rw [hn]
        split <;> omega
      have hnle : n ≤ length := by
        rw [hn]
        split <;> omega
      obtain ⟨cached, hcached, htakes⟩ := allocate_block ha hi hblock hnpos hnend
        (hfree.sub le_rfl (by omega))
      rw [hcached]
      dsimp only
      set a₁ : BlockAllocator :=
        { a with bitmap := update a.bitmap ((a.groups i).start + block) cached.bits }
      by_cases hrest : length - n = 0
      · obtain ⟨rounds', rfl⟩ : ∃ rounds', rounds = rounds' + 1 := ⟨rounds - 1, by omega⟩
        refine ⟨a₁, ?_, ?_⟩
        · rw [hrest]
          unfold allocateLoop
          exact if_neg (Nat.lt_irrefl 0)
        · rwa [show length = n by omega]
      · -- The range goes on in the next bitmap block.
        have hfull : start + n = a.geometry.bitsPerBlock := by
          rw [hn] at hrest ⊢
          split at hrest
          · next hover =>
            rw [if_pos hover]
            omega
          · omega
        have hnext : (block + 1) * a.geometry.bitsPerBlock + 0 =
            block * a.geometry.bitsPerBlock + start + n := by
          rw [Nat.succ_mul]
          omega
        have hfree' : IsFree (a₁.groupBit i) ((block + 1) * a.geometry.bitsPerBlock + 0)
            (length - n) := by
          intro bit hle hlt
          have hdiv : block + 1 ≤ bit / a.geometry.bitsPerBlock :=
            (Nat.le_div_iff_mul_le a.geometry.bitsPerBlock_pos).2 (by omega)
          have hne : 1 + i * a.geometry.blocksPerGroup + bit / a.geometry.bitsPerBlock ≠
              (a.groups i).start + block := by
            rw [ha.start i hi]
            omega
          have hold := hfree bit (by omega) (by omega)
          unfold BlockAllocator.groupBit at hold ⊢
          show update a.bitmap _ cached.bits _ _ = false
          rwa [update_of_ne hne]
        obtain ⟨a', ha', htakes'⟩ := ih a₁ (block + 1) 0 (length - n)
          ⟨ha.numBits, ha.numBlocks, ha.start⟩ hi (by omega) a.geometry.bitsPerBlock_pos
          (by show (block + 1) * a.geometry.bitsPerBlock + 0 + _ ≤ a.geometry.numBits i; omega)
          hfree'
        refine ⟨a', ha', ?_⟩
        change Takes a₁ a' i ((block + 1) * a.geometry.bitsPerBlock + 0) (length - n) at htakes'
        rw [hnext] at htakes'
        have happend := htakes.append htakes'
        rwa [Nat.add_sub_cancel' hnle] at happend

lemma take_numBits (group : AllocationGroup) (start length : ℕ) :
    (group.take start length).numBits = group.numBits ∧
      (group.take start length).numBlocks = group.numBlocks ∧
      (group.take start length).start = group.start := by
  unfold AllocationGroup.take
  dsimp only
  split_ifs <;> exact ⟨rfl, rfl, rfl⟩

variable {length : ℕ}

lemma allocate_spec (ha : a.Initialized) (hi : i < a.geometry.numGroups)
    (hend : start + length ≤ a.geometry.numBits i) (hfree : IsFree (a.groupBit i) start length) :
    ∃ a', allocate a i start length = some a' ∧ Takes a a' i start length := by
  obtain ⟨hbits, hblocks, hstart⟩ := take_numBits (a.groups i) start length
  set a₁ := a.setGroup i ((a.groups i).take start length)
  have hgroup : a₁.groups i = (a.groups i).take start length := update_self _ _ _
  have hother : ∀ j, j ≠ i → a₁.groups j = a.groups j := fun j hj => update_of_ne hj _ _
  have hinit : a₁.Initialized := by
    refine ⟨fun j hj => ?_, fun j hj => ?_, fun j hj => ?_⟩ <;> by_cases hji : j = i
    · rw [hji, hgroup, hbits]
      exact ha.numBits i hi
    · rw [hother j hji]
      exact ha.numBits j hj
    · rw [hji, hgroup, hblocks]
      exact ha.numBlocks i hi
    · rw [hother j hji]
      exact ha.numBlocks j hj
    · rw [hji, hgroup, hstart]
      exact ha.start i hi
    · rw [hother j hji]
      exact ha.start j hj
  have hdiv := Nat.div_add_mod start a.geometry.bitsPerBlock
  rw [Nat.mul_comm] at hdiv
  obtain ⟨a', ha', htakes⟩ := allocateLoop_spec (i := i) (length + 1) a₁
    (start / a.geometry.bitsPerBlock) (start % a.geometry.bitsPerBlock) length hinit hi
    (Nat.lt_succ_self _) (Nat.mod_lt _ a.geometry.bitsPerBlock_pos)
    (by show start / a.geometry.bitsPerBlock * a.geometry.bitsPerBlock + _ + _ ≤ _; rw [hdiv]; exact hend)
    (by show IsFree (a.groupBit i) (start / a.geometry.bitsPerBlock * a.geometry.bitsPerBlock + _) _
        rw [hdiv]; exact hfree)
  refine ⟨a', ?_, ?_⟩
  · unfold allocate
    rw [if_pos (by rw [ha.numBits i hi]; exact hend)]
    rw [hgroup] at ha'
    exact ha'
  · change Takes a₁ a' i (start / a.geometry.bitsPerBlock * a.geometry.bitsPerBlock + _) _ at htakes
    rw [hdiv] at htakes
    exact ⟨htakes.geometry, htakes.usedBlocks, htakes.bitmap⟩

/-! ## The result -/

/-- A group has `length` consecutive free blocks. -/
def BlockAllocator.HasFree (a : BlockAllocator) (length : ℕ) : Prop :=
  ∃ i < a.geometry.numGroups, ∃ first, first + length ≤ a.geometry.numBits i ∧
    IsFree (a.groupBit i) first length

/-- The run lies in one group, its blocks were free and are the only ones whose bits have been
set, and its length is at most `maximum` and a multiple of `minimum`. -/
structure Allocated (a a' : BlockAllocator) (maximum minimum : ℕ) (run : BlockRun) : Prop where
  taken : ∃ i < a.geometry.numGroups, run.allocationGroup = i ∧
    run.start + run.length ≤ a.geometry.numBits i ∧
    IsFree (a.groupBit i) run.start run.length ∧
    ∀ disk bit, a'.bitmap disk bit = true ↔ a.bitmap disk bit = true ∨
      ∃ k < run.length, (disk, bit) = a.geometry.groupPosition i (run.start + k)
  pos : 0 < run.length
  le : run.length ≤ maximum
  dvd : minimum ∣ run.length
  usedBlocks : a'.usedBlocks = a.usedBlocks + run.length

/-- `AllocateBlocks()` either allocates a run, or the device is full and nothing changes. -/
def AllocatesRight (a : BlockAllocator) (groupIndex start maximum minimum : ℕ) : Prop :=
  ∃ a' status run, allocateBlocks a groupIndex start maximum minimum = some (a', status, run) ∧
    ((status = .ok ∧ ∃ r, run = some r ∧ Allocated a a' maximum minimum r) ∨
      (status = .deviceFull ∧ a'.bitmap = a.bitmap ∧ a'.usedBlocks = a.usedBlocks ∧
        ¬a.HasFree minimum))

/-- What the first group that offers enough offers is of use: it is too short only if no group
has `minimum` free blocks, and it is cut to a multiple of `minimum`. -/
def SearchFits (a : BlockAllocator) (groupIndex start maximum minimum : ℕ) : Prop :=
  ∀ length, FirstOffer a maximum length (a.geometry.numGroups + 1) groupIndex start →
    if length < minimum then ¬a.HasFree minimum else length = maximum ∨ minimum ∣ maximum

lemma Offers.unique {length' : ℕ} (h : Offers a i start maximum length)
    (h' : Offers a i start maximum length') : length = length' := by
  obtain ⟨-, -, h⟩ := h
  obtain ⟨-, -, h'⟩ := h'
  split at h
  · next hif =>
    rw [if_pos hif] at h'
    exact_mod_cast h.2.symm.trans h'.2
  · next hif =>
    rw [if_neg hif] at h'
    exact h.1.trans h'.1.symm

lemma firstOffer_unique {length' : ℕ} (rounds : ℕ) : ∀ {groupIndex start : ℕ},
    FirstOffer a maximum length rounds groupIndex start →
    FirstOffer a maximum length' rounds groupIndex start → length = length' := by
  induction rounds with
  | zero => exact fun h => h.elim
  | succ rounds ih =>
    rintro groupIndex start (h | ⟨hnone, h⟩) (h' | ⟨hnone', h'⟩)
    · exact h.unique h'
    · exact absurd h (hnone' _)
    · exact absurd h' (hnone _)
    · exact ih h h'

lemma firstOffer_le (rounds : ℕ) : ∀ {groupIndex start : ℕ},
    FirstOffer a maximum length rounds groupIndex start → maximum ≤ length := by
  induction rounds with
  | zero => exact fun h => h.elim
  | succ rounds ih =>
    rintro groupIndex start (h | ⟨-, h⟩)
    · exact h.le
    · exact ih h

lemma roundDown_two_pow (value k : ℕ) :
    roundDown value (2 ^ k) = value / 2 ^ k * 2 ^ k := by
  unfold roundDown
  rw [Nat.and_two_pow_sub_one_eq_mod]
  have hdiv := Nat.div_add_mod value (2 ^ k)
  rw [Nat.mul_comm] at hdiv
  omega

lemma exists_visit (groupIndex : ℕ) {j : ℕ} (hj : j < n) :
    ∃ k < n + 1, k ≠ 0 ∧ (groupIndex + k) % n = j := by
  have hpos : 0 < n := by omega
  have hmod := Nat.mod_lt groupIndex hpos
  by_cases hlt : groupIndex % n < j
  · refine ⟨j - groupIndex % n, by omega, by omega, ?_⟩
    rw [← Nat.mod_add_mod, Nat.add_sub_cancel' hlt.le, Nat.mod_eq_of_lt hj]
  · refine ⟨j + n - groupIndex % n, by omega, by omega, ?_⟩
    rw [← Nat.mod_add_mod, Nat.add_sub_cancel' (by omega), Nat.add_mod_right, Nat.mod_eq_of_lt hj]

variable {groupIndex : ℕ}

lemma allocateBlocks_ok (ha : a.Initialized) (hmaximum : 0 < maximum)
    (hsmall : maximum < 2 ^ 16) (hrefined : Refined a
      (search a maximum (a.geometry.numGroups + 1) groupIndex start ⟨-1, -1, -1⟩).1)
    (hbest : (search a maximum (a.geometry.numGroups + 1) groupIndex start ⟨-1, -1, -1⟩).2 = best)
    (hrange : a.IsRange best) (hminimum : (minimum : ℤ) ≤ best.length)
    (hn : n = if best.length > maximum then maximum
      else if minimum > 1 then roundDown best.length.toNat minimum else best.length.toNat)
    (hpos : 0 < n) (hle : n ≤ best.length.toNat) (hmax : n ≤ maximum) :
    ∃ a' run, allocateBlocks a groupIndex start maximum minimum = some (a', .ok, some run) ∧
      run.length = n ∧ (minimum ∣ n → Allocated a a' maximum minimum run) := by
  obtain ⟨i, first, length, rfl, hi, hlength, hend, hfree⟩ := hrange
  generalize hsearch :
    search a maximum (a.geometry.numGroups + 1) groupIndex start ⟨-1, -1, -1⟩ = r at *
  dsimp only at hminimum hn hle
  rw [Int.toNat_natCast] at hle
  have hbits := (a.geometry.numBits_le hi).trans a.geometry.bitsPerGroup_le
  obtain ⟨a₁, ha₁, htakes⟩ := allocate_spec (hrefined.initialized ha)
    (by rw [hrefined.geometry]; exact hi)
    (by rw [hrefined.geometry]; exact (Nat.add_le_add_left hle first).trans hend)
    (by rw [hrefined.groupBit]; exact hfree.sub le_rfl (Nat.add_le_add_left hle first))
  refine ⟨{ a₁ with usedBlocks := a₁.usedBlocks + n }, ⟨i, first % 2 ^ 16, n % 2 ^ 16⟩, ?_,
    Nat.mod_eq_of_lt (by omega), fun hdvd => ?_⟩
  · unfold allocateBlocks
    rw [if_neg hmaximum.ne', hsearch]
    dsimp only
    rw [hbest]
    dsimp only
    rw [if_neg (by omega), ← hn, Int.toNat_natCast, Int.toNat_natCast, ha₁]
    rfl
  · have hfirst : first % 2 ^ 16 = first := Nat.mod_eq_of_lt (by omega)
    have hmod : n % 2 ^ 16 = n := Nat.mod_eq_of_lt (by omega)
    rw [hfirst, hmod]
    refine ⟨⟨i, hi, rfl, (Nat.add_le_add_left hle first).trans hend,
      hfree.sub le_rfl (Nat.add_le_add_left hle first), fun disk bit => ?_⟩, hpos, hmax, hdvd, ?_⟩
    · rw [← hrefined.bitmap, ← hrefined.geometry]
      exact htakes.bitmap disk bit
    · show a₁.usedBlocks + n = a.usedBlocks + n
      rw [htakes.usedBlocks, hrefined.usedBlocks]

lemma allocateBlocks_full (hmaximum : 0 < maximum)
    (hbest : (search a maximum (a.geometry.numGroups + 1) groupIndex start ⟨-1, -1, -1⟩).2.length
      < minimum) :
    allocateBlocks a groupIndex start maximum minimum =
      some ((search a maximum (a.geometry.numGroups + 1) groupIndex start ⟨-1, -1, -1⟩).1,
        .deviceFull, none) := by
  unfold allocateBlocks
  rw [if_neg hmaximum.ne']
  dsimp only
  rw [if_pos hbest]

lemma allocatesRight_full (hmaximum : 0 < maximum) (hrefined : Refined a
      (search a maximum (a.geometry.numGroups + 1) groupIndex start ⟨-1, -1, -1⟩).1)
    (hbest : (search a maximum (a.geometry.numGroups + 1) groupIndex start ⟨-1, -1, -1⟩).2.length
      < minimum) : AllocatesRight a groupIndex start maximum minimum ↔ ¬a.HasFree minimum := by
  have hresult := allocateBlocks_full hmaximum hbest
  constructor
  · rintro ⟨a', status, run, hrun, hright⟩
    rw [hresult, Option.some.injEq, Prod.mk.injEq, Prod.mk.injEq] at hrun
    obtain ⟨-, hstatus, -⟩ := hrun
    subst hstatus
    rcases hright with ⟨hok, -⟩ | ⟨-, -, -, hnone⟩
    · cases hok
    · exact hnone
  · intro hnone
    exact ⟨_, _, _, hresult, .inr ⟨rfl, hrefined.bitmap, hrefined.usedBlocks, hnone⟩⟩

lemma allocatesRight_ok (h : ∃ a' run,
    allocateBlocks a groupIndex start maximum minimum = some (a', .ok, some run) ∧
      run.length = n ∧ (minimum ∣ n → Allocated a a' maximum minimum run)) :
    AllocatesRight a groupIndex start maximum minimum ↔ minimum ∣ n := by
  obtain ⟨a₁, run₁, hresult, hlength, hallocated⟩ := h
  constructor
  · rintro ⟨a', status, run, hrun, hright⟩
    rw [hresult, Option.some.injEq, Prod.mk.injEq, Prod.mk.injEq] at hrun
    obtain ⟨-, hstatus, hrun⟩ := hrun
    rcases hright with ⟨-, r, hr, hallocated'⟩ | ⟨hfull, -⟩
    · rw [← hrun, Option.some.injEq] at hr
      subst hr
      have hdvd := hallocated'.dvd
      rwa [hlength] at hdvd
    · rw [← hstatus] at hfull
      cases hfull
  · intro hdvd
    exact ⟨a₁, .ok, some run₁, hresult, .inl ⟨rfl, run₁, rfl, hallocated hdvd⟩⟩

lemma rounded_spec {k : ℕ} (hk : 2 ^ k ≤ length) :
    let n := if 2 ^ k > 1 then roundDown length (2 ^ k) else length
    0 < n ∧ n ≤ length ∧ 2 ^ k ∣ n := by
  have hpos := Nat.two_pow_pos k
  dsimp only
  split
  · rw [roundDown_two_pow]
    have hdiv : 0 < length / 2 ^ k := Nat.div_pos hk hpos
    exact ⟨Nat.mul_pos hdiv hpos, Nat.div_mul_le_self _ _, Nat.dvd_mul_left _ _⟩
  · next hone =>
    rw [show 2 ^ k = 1 by omega]
    exact ⟨by omega, le_rfl, Nat.one_dvd _⟩

lemma allocatesRight_rounded (ha : a.Initialized) {k : ℕ} (hmaximum : 0 < maximum)
    (hsmall : maximum < 2 ^ 16) (hrefined : Refined a
      (search a maximum (a.geometry.numGroups + 1) groupIndex start ⟨-1, -1, -1⟩).1)
    (hbest : (search a maximum (a.geometry.numGroups + 1) groupIndex start ⟨-1, -1, -1⟩).2 = best)
    (hrange : a.IsRange best) (hminimum : ((2 ^ k : ℕ) : ℤ) ≤ best.length)
    (hle : best.length ≤ maximum) : AllocatesRight a groupIndex start maximum (2 ^ k) := by
  have hpow : 2 ^ k ≤ best.length.toNat := by omega
  obtain ⟨hpos, hn, hdvd⟩ := rounded_spec hpow
  apply (allocatesRight_ok (allocateBlocks_ok ha hmaximum hsmall hrefined hbest hrange hminimum
    (if_neg (not_lt.2 hle)).symm hpos hn (by omega))).2
  exact hdvd

/-- When `AllocateBlocks()` is right; whenever `minimum` divides `maximum` it is. -/
theorem allocateBlocks_right (ha : a.Initialized)
    (hc : ∀ i < a.geometry.numGroups, a.Consistent i) (groupIndex start : ℕ)
    (hmaximum : 0 < maximum) (hsmall : maximum < 2 ^ 16) (hminimum : ∃ k, minimum = 2 ^ k) :
    (AllocatesRight a groupIndex start maximum minimum ↔
        SearchFits a groupIndex start maximum minimum) ∧
      (minimum ∣ maximum → SearchFits a groupIndex start maximum minimum) := by
  obtain ⟨k, rfl⟩ := hminimum
  have hpos := Nat.two_pow_pos k
  refine ⟨?_, fun hdvd length hfirst => ?_⟩
  · obtain ⟨hrefined, houtcome⟩ := search_spec hmaximum (a.geometry.numGroups + 1) a groupIndex
      start ⟨-1, -1, -1⟩ ha hc (by show (-1 : ℤ) < _; omega) (.inl ⟨le_rfl, by decide⟩)
    rcases houtcome with ⟨length, hfirst, hfound, hrange⟩ | ⟨hnone, hlt, -, hok, hatMost⟩
    · have hle := firstOffer_le _ hfirst
      have hfits : SearchFits a groupIndex start maximum (2 ^ k) ↔
          if length < 2 ^ k then ¬a.HasFree (2 ^ k) else length = maximum ∨ 2 ^ k ∣ maximum := by
        constructor
        · exact fun h => h length hfirst
        · intro h length' hfirst'
          rwa [firstOffer_unique _ hfirst' hfirst]
      rw [hfits]
      by_cases hshort : length < 2 ^ k
      · rw [if_pos hshort]
        exact allocatesRight_full hmaximum hrefined (by rw [hfound]; exact_mod_cast hshort)
      · rw [if_neg hshort]
        by_cases hexact : length = maximum
        · have hright := allocatesRight_rounded ha hmaximum hsmall hrefined rfl hrange
            (k := k) (by rw [hfound]; exact_mod_cast not_lt.1 hshort)
            (by rw [hfound, hexact])
          exact iff_of_true hright (.inl hexact)
        · -- The range is cut to `maximum`, whatever `minimum` is.
          rw [allocatesRight_ok (n := maximum) (allocateBlocks_ok ha hmaximum hsmall hrefined rfl
            hrange (by rw [hfound]; exact_mod_cast not_lt.1 hshort)
            (by rw [hfound, if_pos (by omega)]) hmaximum (by rw [hfound]; omega) le_rfl)]
          exact (or_iff_right hexact).symm
    · have hfits : SearchFits a groupIndex start maximum (2 ^ k) :=
        fun length hfirst => absurd hfirst (hnone length)
      refine iff_of_true ?_ hfits
      by_cases hshort : (search a maximum (a.geometry.numGroups + 1) groupIndex start
          ⟨-1, -1, -1⟩).2.length < (2 ^ k : ℕ)
      · apply (allocatesRight_full hmaximum hrefined hshort).2
        rintro ⟨j, hj, first, hend, hfree⟩
        obtain ⟨visit, hvisit, hne, hmod⟩ := exists_visit groupIndex hj
        have hall := hatMost visit hvisit fun hzero => absurd hzero hne
        rw [hmod] at hall
        have := hall first (2 ^ k) (Nat.zero_le _) hend hpos hfree
        omega
      · have hrange : a.IsRange (search a maximum (a.geometry.numGroups + 1) groupIndex start
            ⟨-1, -1, -1⟩).2 := by
          apply hok.resolve_left
          omega
        exact allocatesRight_rounded ha hmaximum hsmall hrefined rfl hrange (not_lt.1 hshort) hlt.le
  · have hle := firstOffer_le _ hfirst
    have hminimum := Nat.le_of_dvd hmaximum hdvd
    rw [if_neg (by omega)]
    exact .inr hdvd

/-- A volume of which nothing is used, and whose groups know it. -/
def allFree : BlockAllocator where
  geometry := twoGroups
  groups := fun i =>
    { numBits := twoGroups.numBits i
      numBlocks := twoGroups.numBitmapBlocks i
      start := 1 + i * twoGroups.blocksPerGroup
      firstFree := 0
      freeBits := twoGroups.numBits i
      largestStart := 0
      largestLength := twoGroups.numBits i
      largestValid := true }
  bitmap := fun _ _ => false
  usedBlocks := 0

lemma initialized_allFree : allFree.Initialized :=
  ⟨fun _ _ => rfl, fun _ _ => rfl, fun _ _ => rfl⟩

lemma consistent_allFree (i : ℕ) : allFree.Consistent i := by
  refine ⟨?_, fun bit _ _ => Int.natCast_nonneg bit, fun _ => ?_⟩
  · show ((twoGroups.numBits i : ℕ) : ℤ) = _
    have hall : (List.range (twoGroups.numBits i)).countP (fun bit => !allFree.groupBit i bit) =
        twoGroups.numBits i := by
      have hfree : ∀ bit ∈ List.range (twoGroups.numBits i), (!allFree.groupBit i bit) = true :=
        fun _ _ => rfl
      rw [List.countP_eq_length.2 hfree, List.length_range]
    rw [← hall]
    rfl
  · refine ⟨0, twoGroups.numBits i, rfl, rfl, (Nat.zero_add _).le, fun _ _ _ => rfl, ?_⟩
    intro start length _ hend _ _
    have hle : length ≤ twoGroups.numBits i := by
      change start + length ≤ twoGroups.numBits i at hend
      omega
    exact_mod_cast hle

theorem allocateBlocks_right_four :
    (AllocatesRight allFree 0 0 4 2 ↔ SearchFits allFree 0 0 4 2) ∧
      (2 ∣ 4 → SearchFits allFree 0 0 4 2) :=
  allocateBlocks_right initialized_allFree (fun i _ => consistent_allFree i) 0 0 (by decide)
    (by decide) ⟨1, rfl⟩

/-- Of a larger range, 3 blocks are allocated, which is no multiple of 2. -/
theorem not_allocateBlocks_right : ¬∀ a : BlockAllocator, a.Initialized →
    (∀ i < a.geometry.numGroups, a.Consistent i) → ∀ groupIndex start maximum k : ℕ,
      0 < maximum → maximum < 2 ^ 16 → AllocatesRight a groupIndex start maximum (2 ^ k) := by
  intro h
  obtain ⟨a', status, run, hresult, hright⟩ :=
    h allFree initialized_allFree (fun i _ => consistent_allFree i) 0 0 3 1 (by decide) (by decide)
  have hrun : (allocateBlocks allFree 0 0 3 (2 ^ 1)).map Prod.snd = some (.ok, some ⟨0, 0, 3⟩) := by
    decide
  rw [hresult, Option.map_some, Option.some.injEq, Prod.mk.injEq] at hrun
  obtain ⟨hstatus, hrun⟩ := hrun
  rcases hright with ⟨-, r, hr, hallocated⟩ | ⟨hfull, -⟩
  · rw [hrun, Option.some.injEq] at hr
    subst hr
    have hdvd := hallocated.dvd
    revert hdvd
    decide
  · have hstatus : status = Status.ok := hstatus
    rw [hstatus] at hfull
    cases hfull

end Haiku.Bfs
