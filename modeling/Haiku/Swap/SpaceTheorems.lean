import Haiku.Swap.System

/-!
# Conservation of swap space

The swap space that is available and the commitments of all caches together are the size of the
swap files (`Conserved`), in every run in which

* no swap file is deleted that is larger than the space available, and
* no fault commits memory while less than a page, but not nothing, is available.

`swapFileDelete` only looks at the slots of the file, not at what caches have reserved.
-/

namespace Haiku.Swap

open Lib

variable {P : Type} {s s' : State P} {c c' : AnonymousCache P} {id : ℕ}

def fileBytes (s : State P) : ℤ := (s.files.map fun f => (f.pages * pageSize : ℤ)).sum

/-- The commitments of all caches in the swap space. -/
def committedSwap (s : State P) : ℤ := Table.total (fun _ c => c.committedSwapSize) s.caches

/-- A cache has committed at least as much as it has committed in the swap space. -/
structure CacheOk (c : AnonymousCache P) : Prop where
  nonneg : 0 ≤ c.committedSwapSize
  le : c.committedSwapSize ≤ c.committedSize
  range : c.virtualBase ≤ c.virtualEnd

/-- Available and committed swap space make up the swap files. -/
structure Conserved (s : State P) : Prop where
  nonneg : 0 ≤ s.available
  total : s.available + committedSwap s = fileBytes s
  caches : ∀ id c, s.caches.lookup id = some c → CacheOk c

/-! ## Operations that do not move swap space -/

/-- The commitments of all caches are the same as before. -/
structure SameSpace (s s' : State P) : Prop where
  available : s'.available = s.available
  files : s'.files = s.files
  committed : committedSwap s' = committedSwap s
  caches : (∀ id c, s.caches.lookup id = some c → CacheOk c) →
    ∀ id c, s'.caches.lookup id = some c → CacheOk c
  base : ∀ id, (s'.caches.lookup id).map (·.virtualBase) = (s.caches.lookup id).map (·.virtualBase)

lemma SameSpace.refl (s : State P) : SameSpace s s :=
  ⟨rfl, rfl, rfl, fun h => h, fun _ => rfl⟩

variable {s₁ : State P}

lemma SameSpace.trans (h : SameSpace s s₁) (h' : SameSpace s₁ s') :
    SameSpace s s' where
  available := h'.available.trans h.available
  files := h'.files.trans h.files
  committed := h'.committed.trans h.committed
  caches hc := h'.caches (h.caches hc)
  base id := (h'.base id).trans (h.base id)

lemma SameSpace.of_caches (hc : s'.caches = s.caches) (ha : s'.available = s.available)
    (hf : s'.files = s.files) : SameSpace s s' := by
  refine ⟨ha, hf, by rw [committedSwap, hc, committedSwap], fun h => ?_, fun id => by rw [hc]⟩
  rwa [hc]

lemma SameSpace.conserved (h : SameSpace s s') (hs : Conserved s) : Conserved s' where
  nonneg := by
    rw [h.available]
    exact hs.nonneg
  total := by
    rw [h.available, h.committed, fileBytes, h.files]
    exact hs.total
  caches := h.caches hs.caches

structure SameCommitment (c c' : AnonymousCache P) : Prop where
  swap : c'.committedSwapSize = c.committedSwapSize
  size : c'.committedSize = c.committedSize
  base : c'.virtualBase = c.virtualBase
  ends : c'.virtualEnd = c.virtualEnd

lemma SameCommitment.ok (h : SameCommitment c c') (hc : CacheOk c) : CacheOk c' where
  nonneg := by
    rw [h.swap]
    exact hc.nonneg
  le := by
    rw [h.swap, h.size]
    exact hc.le
  range := by
    rw [h.base, h.ends]
    exact hc.range

lemma SameSpace.setCache (hl : s.caches.lookup id = some c) (h : SameCommitment c c') :
    SameSpace s (s.setCache id c') := by
  refine ⟨rfl, rfl, ?_, fun hs => ?_, fun id' => ?_⟩
  · rw [committedSwap, State.setCache, Table.total_insert, Table.part_of_lookup hl, h.swap,
      committedSwap]
    omega
  · exact Table.forall_lookup_insert hs (h.ok (hs id c hl))
  · rw [State.setCache]
    by_cases hid : id' = id
    · rw [hid, AList.lookup_insert, hl, Option.map_some, Option.map_some, h.base]
    · rw [Table.lookup_insert_of_ne hid]

/-- The caches, the files and the available space are the same as before. -/
structure Untouched (s s' : State P) : Prop where
  caches : s'.caches = s.caches
  available : s'.available = s.available
  files : s'.files = s.files

lemma Untouched.refl (s : State P) : Untouched s s := ⟨rfl, rfl, rfl⟩

lemma Untouched.trans (h : Untouched s s₁) (h' : Untouched s₁ s') :
    Untouched s s' where
  caches := h'.caches.trans h.caches
  available := h'.available.trans h.available
  files := h'.files.trans h.files

lemma Untouched.sameSpace (h : Untouched s s') : SameSpace s s' :=
  .of_caches h.caches h.available h.files

variable {count slot : ℕ}

lemma swapSlotAlloc_untouched (h : swapSlotAlloc s count slot = some s') : Untouched s s' := by
  obtain ⟨-, h⟩ := Option.ite_none_right_eq_some.1 h
  cases h
  exact ⟨rfl, rfl, rfl⟩

lemma swapSlotDealloc_untouched (h : swapSlotDealloc s slot count = some s') :
    Untouched s s' := by
  obtain ⟨-, h⟩ := Option.ite_none_right_eq_some.1 h
  cases h
  exact ⟨rfl, rfl, rfl⟩

lemma swapBlockBuild_untouched (s : State P) (id start slot count : ℕ) :
    Untouched s (swapBlockBuild s id start slot count) := by
  unfold swapBlockBuild
  induction blockRange start count generalizing s with
  | nil => exact .refl s
  | cons b bs ih =>
    rw [List.foldl_cons]
    have hb : Untouched s (buildBlock s id start slot count b) := ⟨rfl, rfl, rfl⟩
    exact hb.trans (ih _)

variable {start block : ℕ}

lemma freeBlock_untouched (h : freeBlock s id start count block = some s') : Untouched s s' := by
  unfold freeBlock at h
  split at h
  · cases h
  · simp only at h
    split at h <;> cases h <;> exact ⟨rfl, rfl, rfl⟩

lemma swapBlockFree_untouched (h : swapBlockFree s id start count = some s') :
    Untouched s s' := by
  unfold swapBlockFree at h
  generalize blockRange start count = blocks at h
  induction blocks generalizing s with
  | nil =>
    cases h
    exact .refl _
  | cons b bs ih =>
    rw [List.foldlM_cons] at h
    obtain ⟨s₁, hs₁, h⟩ := Option.bind_eq_some_iff.1 h
    exact (freeBlock_untouched hs₁).trans (ih h)

lemma swapSlotAlloc_sameSpace (h : swapSlotAlloc s count slot = some s') :
    SameSpace s s' := (swapSlotAlloc_untouched h).sameSpace

lemma swapSlotDealloc_sameSpace (h : swapSlotDealloc s slot count = some s') :
    SameSpace s s' := (swapSlotDealloc_untouched h).sameSpace

lemma swapBlockBuild_sameSpace (s : State P) (id start slot count : ℕ) :
    SameSpace s (swapBlockBuild s id start slot count) :=
  (swapBlockBuild_untouched s id start slot count).sameSpace

lemma swapBlockFree_sameSpace (h : swapBlockFree s id start count = some s') :
    SameSpace s s' := (swapBlockFree_untouched h).sameSpace

lemma addAllocated_sameSpace (s : State P) (id : ℕ) (amount : ℤ) :
    SameSpace s (addAllocated s id amount) := by
  unfold addAllocated
  split
  · next c hl => exact .setCache hl ⟨rfl, rfl, rfl, rfl⟩
  · exact .refl s

variable {vecs : List ℕ}

lemma releaseOld_sameSpace : ∀ {s s' : State P} {pageIndex : ℕ},
    releaseOld s id pageIndex vecs = some s' → SameSpace s s' := by
  induction vecs with
  | nil =>
    intro s s' pageIndex h
    cases h
    exact .refl _
  | cons pageCount vecs ih =>
    intro s s' pageIndex h
    rw [releaseOld] at h
    split at h
    · exact ih h
    · obtain ⟨s₁, hs₁, h⟩ := Option.bind_eq_some_iff.1 h
      obtain ⟨s₂, hs₂, h⟩ := Option.bind_eq_some_iff.1 h
      exact ((swapSlotDealloc_sameSpace hs₁).trans (swapBlockFree_sameSpace hs₂)).trans
        ((addAllocated_sameSpace _ _ _).trans (ih h))

variable {pageIndex : ℕ}

lemma writeVector_sameSpace {pageCount : ℕ} {answers : List WriteAnswer} :
    ∀ {s : State P} {j n : ℕ} {pagesLeft : ℤ} {r},
      writeVector id pageIndex pageCount s j n pagesLeft answers = some r → SameSpace s r.1 := by
  induction answers with
  | nil =>
    intro s j n pagesLeft r h
    rw [writeVector] at h
    split at h
    · cases h
    · cases h
      exact .refl _
  | cons a answers ih =>
    intro s j n pagesLeft r h
    rw [writeVector] at h
    split at h
    · obtain ⟨s₁, hs₁, h⟩ := Option.bind_eq_some_iff.1 h
      split at h
      · exact (swapSlotAlloc_sameSpace hs₁).trans ((swapBlockBuild_sameSpace _ _ _ _ _).trans (ih h))
      · obtain ⟨s₂, hs₂, h⟩ := Option.bind_eq_some_iff.1 h
        cases h
        exact (swapSlotAlloc_sameSpace hs₁).trans
          ((addAllocated_sameSpace _ _ _).trans (swapSlotDealloc_sameSpace hs₂))
    · cases h
      exact .refl _

lemma writeVectors_sameSpace : ∀ {s : State P} {pageIndex : ℕ} {pagesLeft : ℤ}
    {answers : List WriteAnswer} {r},
      writeVectors s id pageIndex pagesLeft answers vecs = some r → SameSpace s r.1 := by
  induction vecs with
  | nil =>
    intro s pageIndex pagesLeft answers r h
    obtain ⟨-, h⟩ := Option.ite_none_right_eq_some.1 h
    cases h
    exact .refl _
  | cons pageCount vecs ih =>
    intro s pageIndex pagesLeft answers r h
    rw [writeVectors] at h
    obtain ⟨⟨s₁, left, rest, completed⟩, hs₁, h⟩ := Option.bind_eq_some_iff.1 h
    simp only at h
    split at h
    · exact (writeVector_sameSpace hs₁).trans (ih h)
    · cases h
      exact writeVector_sameSpace hs₁

lemma write_sameSpace {answers : List WriteAnswer} {r}
    (h : write s id pageIndex vecs answers = some r) : SameSpace s r.1 := by
  obtain ⟨s₁, hs₁, h⟩ := Option.bind_eq_some_iff.1 h
  obtain ⟨c, -, h⟩ := Option.bind_eq_some_iff.1 h
  simp only at h
  split at h
  · cases h
    exact releaseOld_sameSpace hs₁
  · exact (releaseOld_sameSpace hs₁).trans
      ((addAllocated_sameSpace _ _ _).trans (writeVectors_sameSpace h))

variable {memory : Bool}

lemma writeAsync_sameSpace {r} (h : writeAsync s id pageIndex slot memory = some r) :
    SameSpace s r.1 := by
  obtain ⟨c, -, h⟩ := Option.bind_eq_some_iff.1 h
  split at h
  · split at h <;> cases h
    · exact .of_caches rfl rfl rfl
    · exact .refl s
  · split at h
    · cases h
      exact .refl s
    · obtain ⟨s₁, hs₁, h⟩ := Option.bind_eq_some_iff.1 h
      have h₁ := (addAllocated_sameSpace s id pageSize).trans (swapSlotAlloc_sameSpace hs₁)
      split at h
      · cases h
        exact h₁.trans (.of_caches rfl rfl rfl)
      · obtain ⟨s₂, hs₂, h⟩ := Option.bind_eq_some_iff.1 h
        cases h
        exact h₁.trans ((addAllocated_sameSpace _ _ _).trans (swapSlotDealloc_sameSpace hs₂))

lemma ioFinished_sameSpace {w : PendingWrite} {ok : Bool} (h : ioFinished s w ok = some s') :
    SameSpace s s' := by
  obtain ⟨-, h⟩ := Option.ite_none_right_eq_some.1 h
  have h₁ : SameSpace s { s with pending := s.pending.erase w } := .of_caches rfl rfl rfl
  simp only at h
  split at h
  · split at h
    · cases h
      exact h₁.trans (swapBlockBuild_sameSpace _ _ _ _ _)
    · exact h₁.trans ((addAllocated_sameSpace _ _ _).trans (swapSlotDealloc_sameSpace h))
  · cases h
    exact h₁

lemma swapFreePageSwapSpace_sameSpace (h : swapFreePageSwapSpace s id pageIndex = some s') :
    SameSpace s s' := by
  unfold swapFreePageSwapSpace at h
  split at h
  · cases h
    exact .refl s
  · obtain ⟨s₁, hs₁, h⟩ := Option.bind_eq_some_iff.1 h
    exact (swapSlotDealloc_sameSpace hs₁).trans
      ((addAllocated_sameSpace _ _ _).trans (swapBlockFree_sameSpace h))

lemma resizeLoop_sameSpace {oldPageCount : ℕ} (rounds : ℕ) : ∀ {s s' : State P} {pageIndex : ℕ}
    {hasBlock : Bool}, resizeLoop id oldPageCount rounds s pageIndex hasBlock = some s' →
      SameSpace s s' := by
  induction rounds with
  | zero =>
    intro s s' pageIndex hasBlock h
    cases h
    exact .refl _
  | succ rounds ih =>
    intro s s' pageIndex hasBlock h
    obtain ⟨c, -, h⟩ := Option.bind_eq_some_iff.1 h
    simp only at h
    split at h
    · split at h
      · exact ih h
      · split at h
        · split at h
          · exact ih h
          · obtain ⟨s₁, hs₁, h⟩ := Option.bind_eq_some_iff.1 h
            obtain ⟨s₂, hs₂, h⟩ := Option.bind_eq_some_iff.1 h
            exact (swapSlotDealloc_sameSpace hs₁).trans
              ((addAllocated_sameSpace _ _ _).trans ((swapBlockFree_sameSpace hs₂).trans (ih h)))
        · exact ih h
    · cases h
      exact .refl _

lemma dropSwapPages_sameSpace {newSize : ℕ} (h : dropSwapPages s id newSize c = some s') :
    SameSpace s s' := by
  unfold dropSwapPages at h
  split at h
  · exact resizeLoop_sameSpace _ h
  · cases h
    exact .refl _

/-! ## Operations that move swap space -/

structure Moved (s s' : State P) (c c' : AnonymousCache P) : Prop where
  caches : s'.caches = s.caches
  files : s'.files = s.files
  balance : s'.available + c'.committedSwapSize = s.available + c.committedSwapSize
  nonneg : 0 ≤ s'.available
  ok : CacheOk c'
  base : c'.virtualBase = c.virtualBase

lemma Moved.conserved (h : Moved s s' c c') (hl : s.caches.lookup id = some c)
    (hs : Conserved s) : Conserved (s'.setCache id c') where
  nonneg := h.nonneg
  total := by
    have htotal := hs.total
    have hbalance := h.balance
    rw [committedSwap, State.setCache, Table.total_insert, h.caches, Table.part_of_lookup hl]
    simp only [committedSwap, fileBytes, h.files] at htotal ⊢
    omega
  caches := by
    rw [State.setCache, h.caches]
    exact Table.forall_lookup_insert hs.caches h.ok

lemma swapSpaceReserve_spec (s : State P) (amount : ℤ) (hs : 0 ≤ s.available)
    (ha : 0 ≤ amount) : ∃ r, (swapSpaceReserve s amount).2 = r ∧ 0 ≤ r ∧ r ≤ amount ∧
      r ≤ s.available ∧ (swapSpaceReserve s amount).1 = { s with available := s.available - r } := by
  unfold swapSpaceReserve
  split
  · next h => exact ⟨amount, rfl, ha, by omega, h, rfl⟩
  · refine ⟨s.available, rfl, hs, by omega, by omega, ?_⟩
    simp

variable {c₁ : AnonymousCache P}

lemma Moved.trans (h : Moved s s₁ c c₁) (h' : Moved s₁ s' c₁ c') : Moved s s' c c' where
  caches := h'.caches.trans h.caches
  files := h'.files.trans h.files
  balance := h'.balance.trans h.balance
  nonneg := h'.nonneg
  ok := h'.ok
  base := h'.base.trans h.base

lemma Moved.refl (hs : 0 ≤ s.available) (hc : CacheOk c) : Moved s s c c :=
  ⟨rfl, rfl, rfl, hs, hc, rfl⟩

lemma reserveSwap_moved (hs : 0 ≤ s.available) (hc : CacheOk c) (size : ℤ) :
    Moved s (reserveSwap s c size).1 c (reserveSwap s c size).2 := by
  unfold reserveSwap
  split
  · next hgrow =>
    obtain ⟨r, hr, hpos, -, hle, hstate⟩ :=
      swapSpaceReserve_spec s (size - c.committedSwapSize) hs (by omega)
    have hn := hc.nonneg
    have hcs := hc.le
    simp only [hr, hstate]
    refine ⟨rfl, rfl, ?_, ?_, ⟨?_, ?_, hc.range⟩, rfl⟩ <;> simp only <;> omega
  · exact .refl hs hc

variable {size : ℤ}

lemma shrinkCommitment_moved (hs : 0 ≤ s.available) (hc : CacheOk c) (hsize : 0 ≤ size)
    (hshrink : size < c.committedSize) :
    Moved s (shrinkCommitment s c size).1 c (shrinkCommitment s c size).2 := by
  have hn := hc.nonneg
  have hle := hc.le
  unfold shrinkCommitment
  simp only
  generalize hu : (if c.committedSize - c.committedSwapSize > 0
    then min (c.committedSize - size) (c.committedSize - c.committedSwapSize) else 0) = u
  have hu' : u = min (c.committedSize - size) (c.committedSize - c.committedSwapSize) := by
    split at hu <;> omega
  split
  · refine ⟨rfl, rfl, ?_, ?_, ⟨?_, ?_, hc.range⟩, rfl⟩ <;> simp only [swapSpaceUnreserve] <;> omega
  · refine ⟨rfl, rfl, rfl, hs, ⟨hn, ?_, hc.range⟩, rfl⟩
    simp only
    omega

lemma commitSpace_moved (memory : Bool) (hs : 0 ≤ s.available) (hc : CacheOk c)
    (hsize : 0 ≤ size) :
    Moved s (commitSpace s c size memory).1 c (commitSpace s c size memory).2.1 := by
  have h₁ := reserveSwap_moved hs hc size
  unfold commitSpace
  simp only
  split
  · exact h₁
  · split
    · next hshrink => exact h₁.trans (shrinkCommitment_moved h₁.nonneg h₁.ok hsize hshrink)
    · split
      · refine h₁.trans ⟨rfl, rfl, rfl, h₁.nonneg, ⟨h₁.ok.nonneg, ?_, h₁.ok.range⟩, rfl⟩
        have hle := h₁.ok.le
        simp only
        omega
      · exact h₁

lemma commit_moved (memory : Bool) (hs : 0 ≤ s.available) (hc : CacheOk c) (hsize : 0 ≤ size) :
    Moved s (commit s c size memory).1 c (commit s c size memory).2.1 := by
  unfold commit
  split
  · split
    · exact .refl hs hc
    · have hc' : CacheOk { c with hasPrecommitted := true } := ⟨hc.nonneg, hc.le, hc.range⟩
      have hmin : 0 ≤ min size (c.precommittedPages * pageSize : ℤ) := by
        have hpre : (0 : ℤ) ≤ c.precommittedPages * pageSize :=
          Int.mul_nonneg (by omega) (by omega)
        omega
      have h := commitSpace_moved memory hs hc' hmin
      exact ⟨h.caches, h.files, h.balance, h.nonneg, h.ok, h.base⟩
  · exact commitSpace_moved memory hs hc hsize

/-- `Fault()` gets to the point where it reserves a page of swap space. -/
def faultReserves (c : AnonymousCache P) (offset : ℕ) (missing : Bool) : Prop :=
  c.canOvercommit ∧ missing ∧ ¬ (c.guardedSize > 0 ∧ offset < c.guardedSize) ∧
    c.precommittedPages = 0 ∧ ¬ c.committedSize / pageSize > c.pageCount

lemma fault_moved {offset : ℕ} {missing : Bool} (hs : 0 ≤ s.available) (hc : CacheOk c)
    (hpage : faultReserves c offset missing → s.available = 0 ∨ (pageSize : ℤ) ≤ s.available) :
    Moved s (fault s c offset missing memory).1 c (fault s c offset missing memory).2.1 := by
  unfold fault
  split
  · next hmissing =>
    split
    · exact .refl hs hc
    · next hguard =>
      split
      · next hpre =>
        split
        · exact .refl hs hc
        · next hneeded =>
          have hpage := hpage ⟨hmissing.1, hmissing.2, hguard, hpre, hneeded⟩
          have hn := hc.nonneg
          have hle := hc.le
          obtain ⟨r, hr, hpos, -, hra, hstate⟩ :=
            swapSpaceReserve_spec s pageSize hs (by omega)
          have hr' : r = pageSize ∨ s.available = 0 ∧ r = 0 := by
            rcases hpage with h0 | hlarge
            · right
              omega
            · left
              rw [← hr, swapSpaceReserve, if_pos hlarge]
          simp only [hr, hstate]
          split
          · refine ⟨rfl, rfl, ?_, ?_, ⟨?_, ?_, hc.range⟩, rfl⟩ <;> simp only <;> omega
          · have h0 : r = 0 := by omega
            split
            · refine ⟨rfl, rfl, ?_, ?_, ⟨hn, ?_, hc.range⟩, rfl⟩ <;> simp only <;> omega
            · refine ⟨rfl, rfl, ?_, ?_, hc, rfl⟩ <;> simp only <;> omega
      · exact ⟨rfl, rfl, rfl, hs, ⟨hc.nonneg, hc.le, hc.range⟩, rfl⟩
  · exact .refl hs hc

/-! ## What else these operations do -/

/-- Nothing but the commitments of one cache and the available space is changed. -/
structure OnlySpace (s s' : State P) (c c' : AnonymousCache P) : Prop where
  state : s' = { s with available := s'.available }
  cache : c' = { c with
    committedSize := c'.committedSize
    committedSwapSize := c'.committedSwapSize
    hasPrecommitted := c'.hasPrecommitted
    precommittedPages := c'.precommittedPages }

lemma OnlySpace.refl (s : State P) (c : AnonymousCache P) : OnlySpace s s c c := ⟨rfl, rfl⟩

lemma OnlySpace.trans (h : OnlySpace s s₁ c c₁) (h' : OnlySpace s₁ s' c₁ c') :
    OnlySpace s s' c c' where
  state := by rw [h'.state, h.state]
  cache := by rw [h'.cache, h.cache]

lemma swapSpaceReserve_state (s : State P) (amount : ℤ) : (swapSpaceReserve s amount).1 =
    { s with available := (swapSpaceReserve s amount).1.available } := by
  unfold swapSpaceReserve
  split <;> rfl

lemma reserveSwap_onlySpace (s : State P) (c : AnonymousCache P) (size : ℤ) :
    OnlySpace s (reserveSwap s c size).1 c (reserveSwap s c size).2 := by
  unfold reserveSwap
  split
  · exact ⟨swapSpaceReserve_state s _, rfl⟩
  · exact .refl s c

lemma shrinkCommitment_onlySpace (s : State P) (c : AnonymousCache P) (size : ℤ) :
    OnlySpace s (shrinkCommitment s c size).1 c (shrinkCommitment s c size).2 := by
  unfold shrinkCommitment
  simp only
  generalize (if c.committedSize - c.committedSwapSize > 0
    then min (c.committedSize - size) (c.committedSize - c.committedSwapSize) else 0) = u
  split <;> exact ⟨rfl, rfl⟩

lemma commitSpace_onlySpace (s : State P) (c : AnonymousCache P) (size : ℤ) (memory : Bool) :
    OnlySpace s (commitSpace s c size memory).1 c (commitSpace s c size memory).2.1 := by
  have h := reserveSwap_onlySpace s c size
  unfold commitSpace
  simp only
  split
  · exact h
  · split
    · exact h.trans (shrinkCommitment_onlySpace _ _ size)
    · split
      · exact h.trans ⟨rfl, rfl⟩
      · exact h

lemma commit_onlySpace (s : State P) (c : AnonymousCache P) (size : ℤ) (memory : Bool) :
    OnlySpace s (commit s c size memory).1 c (commit s c size memory).2.1 := by
  unfold commit
  split
  · split
    · exact .refl s c
    · have h := commitSpace_onlySpace s { c with hasPrecommitted := true }
        (min size (c.precommittedPages * pageSize)) memory
      exact ⟨h.state, h.cache⟩
  · exact commitSpace_onlySpace s c size memory

lemma fault_onlySpace (s : State P) (c : AnonymousCache P) (offset : ℕ) (missing memory : Bool) :
    OnlySpace s (fault s c offset missing memory).1 c (fault s c offset missing memory).2.1 := by
  unfold fault
  split
  · split
    · exact .refl s c
    · split
      · split
        · exact .refl s c
        · simp only
          split
          · exact ⟨swapSpaceReserve_state s _, rfl⟩
          · split
            · exact ⟨swapSpaceReserve_state s _, rfl⟩
            · exact ⟨swapSpaceReserve_state s _, rfl⟩
      · exact ⟨rfl, rfl⟩
  · exact .refl s c

lemma commitSpace_swap_ge (size : ℤ) (memory : Bool) (hs : 0 ≤ s.available) (hc : CacheOk c) :
    min c.committedSwapSize size ≤ (commitSpace s c size memory).2.1.committedSwapSize := by
  have hreserve : min c.committedSwapSize size ≤ (reserveSwap s c size).2.committedSwapSize := by
    unfold reserveSwap
    split
    · obtain ⟨r, hr, hpos, -⟩ := swapSpaceReserve_spec s (size - c.committedSwapSize) hs (by omega)
      simp only [hr]
      omega
    · exact Int.min_le_left _ _
  have hok := (reserveSwap_moved hs hc size).ok
  have hle := hok.le
  unfold commitSpace
  simp only
  generalize (reserveSwap s c size).2 = c₁ at hreserve hle
  split
  · exact hreserve
  · split
    · unfold shrinkCommitment
      simp only
      split <;> split <;> simp only <;> omega
    · split
      · exact hreserve
      · exact hreserve

lemma fault_swap_ge {offset : ℕ} {missing : Bool} :
    c.committedSwapSize ≤ (fault s c offset missing memory).2.1.committedSwapSize := by
  unfold fault
  split
  · split
    · exact Int.le_refl _
    · split
      · split
        · exact Int.le_refl _
        · simp only
          split
          · simp only
            omega
          · split <;> exact Int.le_refl _
      · exact Int.le_refl _
  · exact Int.le_refl _

lemma mergeCommitments_onlySpace (s : State P) (consumer source : AnonymousCache P) :
    OnlySpace s (mergeCommitments s consumer source).1 consumer
      (mergeCommitments s consumer source).2.1 := by
  unfold mergeCommitments
  simp only
  split
  · have h := commitSpace_onlySpace s { consumer with
      committedSwapSize := consumer.committedSwapSize + source.committedSwapSize
      committedSize := consumer.committedSize + source.committedSize }
      (consumer.virtualEnd - consumer.virtualBase) false
    exact ⟨h.state, h.cache⟩
  · exact ⟨rfl, rfl⟩

lemma mergeCommitments_source (s : State P) (consumer source : AnonymousCache P) :
    (mergeCommitments s consumer source).2.2 =
      { source with committedSwapSize := 0, committedSize := 0 } := by
  unfold mergeCommitments
  simp only
  split <;> rfl

/-! ## Swap files and deleted caches -/

lemma swapFileAdd_conserved {vnode size : ℕ} (hs : Conserved s) :
    Conserved (swapFileAdd s vnode size).1 := by
  unfold swapFileAdd
  split
  · exact hs
  · have hnonneg := hs.nonneg
    have htotal := hs.total
    have hsize : (0 : ℤ) ≤ ((size / pageSize : ℕ) : ℤ) * pageSize :=
      Int.mul_nonneg (Int.natCast_nonneg _) (Int.natCast_nonneg _)
    refine ⟨?_, ?_, hs.caches⟩
    · simp only
      omega
    · simp only [fileBytes, committedSwap, SwapFile.pages, List.map_append, List.map_cons,
        List.map_nil, List.sum_append, List.sum_cons, List.sum_nil, Nat.add_sub_cancel_left]
        at htotal ⊢
      omega

lemma swapFileDelete_conserved {vnode : ℕ} (hs : Conserved s)
    (hfree : ∀ f, s.files.find? (fun f => f.vnode = vnode) = some f → s.isUnused f →
      (f.pages * pageSize : ℤ) ≤ s.available) : Conserved (swapFileDelete s vnode).1 := by
  unfold swapFileDelete
  split
  · exact hs
  · next f hf =>
    split
    · exact hs
    · next hunused =>
      have hle := hfree f hf (by simpa using hunused)
      have htotal := hs.total
      have hsum := List.sum_map_erase (fun f : SwapFile => (f.pages * pageSize : ℤ))
        (List.mem_of_find?_eq_some hf)
      refine ⟨?_, ?_, hs.caches⟩
      · simp only
        omega
      · simp only [fileBytes, committedSwap] at htotal hsum ⊢
        omega

lemma releaseAll_untouched (pages : ℕ) : ∀ {s s' : State P} {pageIndex : ℕ} {toFree : ℤ},
    releaseAll id pages s pageIndex toFree = some s' → Untouched s s' := by
  induction pages with
  | zero =>
    intro s s' pageIndex toFree h
    cases h
    exact .refl _
  | succ pages ih =>
    intro s s' pageIndex toFree h
    rw [releaseAll] at h
    split at h
    · split at h
      · exact ih h
      · obtain ⟨s₁, hs₁, h⟩ := Option.bind_eq_some_iff.1 h
        obtain ⟨s₂, hs₂, h⟩ := Option.bind_eq_some_iff.1 h
        exact (swapSlotDealloc_untouched hs₁).trans ((swapBlockFree_untouched hs₂).trans (ih h))
    · cases h
      exact .refl _

lemma destroy_conserved (h : destroy s id = some s') (hs : Conserved s) : Conserved s' := by
  obtain ⟨c, hl, h⟩ := Option.bind_eq_some_iff.1 h
  obtain ⟨s₁, hs₁, h⟩ := Option.bind_eq_some_iff.1 h
  cases h
  have hu := releaseAll_untouched _ hs₁
  have hnonneg := hs.nonneg
  have hcommitted := (hs.caches id c hl).nonneg
  have htotal := hs.total
  refine ⟨?_, ?_, ?_⟩
  · simp only [swapSpaceUnreserve, hu.available]
    omega
  · rw [committedSwap] at htotal ⊢
    simp only [fileBytes, swapSpaceUnreserve, hu.available, hu.files, hu.caches, Table.total_erase,
      Table.part_of_lookup hl] at htotal ⊢
    omega
  · simp only [hu.caches]
    exact Table.forall_lookup_erase hs.caches

lemma resize_conserved {newSize : ℕ} {r} (h : resize s id newSize memory = some r)
    (hs : Conserved s) (hbase : ∀ c, s.caches.lookup id = some c → c.virtualBase ≤ newSize) :
    Conserved r.1 := by
  obtain ⟨c, hl, h⟩ := Option.bind_eq_some_iff.1 h
  obtain ⟨s₁, hs₁, h⟩ := Option.bind_eq_some_iff.1 h
  obtain ⟨c₁, hl₁, h⟩ := Option.bind_eq_some_iff.1 h
  have hsame := dropSwapPages_sameSpace hs₁
  have hc₁ : c₁.virtualBase = c.virtualBase := by
    have hb := hsame.base id
    rw [hl, hl₁] at hb
    exact Option.some.inj hb
  have hbase := hbase c hl
  have hcons := hsame.conserved hs
  have hmoved := commit_moved memory hcons.nonneg (hcons.caches id c₁ hl₁)
    (show 0 ≤ (newSize - c₁.virtualBase : ℤ) by omega)
  split at h
  · next s₂ c₂ hcommit =>
    rw [hcommit] at hmoved
    cases h
    have hpages : Moved s₂ s₂ c₂ (resizePages c₂ newSize) := by
      refine ⟨rfl, rfl, rfl, hmoved.nonneg, ⟨hmoved.ok.nonneg, hmoved.ok.le, ?_⟩, rfl⟩
      have hb : c₂.virtualBase = c₁.virtualBase := hmoved.base
      simp only [resizePages]
      omega
    exact (hmoved.trans hpages).conserved hl₁ hcons
  · next s₂ c₂ _ _ hcommit =>
    rw [hcommit] at hmoved
    cases h
    exact hmoved.conserved hl₁ hcons

/-! ## Merging -/

lemma SameCommitment.refl (c : AnonymousCache P) : SameCommitment c c := ⟨rfl, rfl, rfl, rfl⟩

lemma SameCommitment.trans (h : SameCommitment c c₁) (h' : SameCommitment c₁ c') :
    SameCommitment c c' where
  swap := h'.swap.trans h.swap
  size := h'.size.trans h.size
  base := h'.base.trans h.base
  ends := h'.ends.trans h.ends

/-- A part of `Merge()` that moves slots and pages, but no commitments. -/
structure MergeStep (x y : State P × AnonymousCache P × AnonymousCache P) : Prop where
  state : Untouched x.1 y.1
  consumer : SameCommitment x.2.1 y.2.1
  source : SameCommitment x.2.2 y.2.2

lemma MergeStep.refl (x : State P × AnonymousCache P × AnonymousCache P) : MergeStep x x :=
  ⟨.refl _, .refl _, .refl _⟩

variable {y : State P × AnonymousCache P × AnonymousCache P}

lemma MergeStep.trans {x z : State P × AnonymousCache P × AnonymousCache P} (h : MergeStep x y)
    (h' : MergeStep y z) : MergeStep x z where
  state := h.state.trans h'.state
  consumer := h.consumer.trans h'.consumer
  source := h.source.trans h'.source

lemma removeShadowed_sameCommitment {index : ℕ} (h : removeShadowed c index = some c') :
    SameCommitment c c' := by
  unfold removeShadowed at h
  split at h
  · cases h
    exact .refl c
  · obtain ⟨-, h⟩ := Option.ite_none_left_eq_some.1 h
    cases h
    exact ⟨rfl, rfl, rfl, rfl⟩

lemma foldlM_keeps {σ α : Type} {R : σ → σ → Prop} {f : σ → α → Option σ}
    (hrefl : ∀ x, R x x) (htrans : ∀ {x y z}, R x y → R y z → R x z)
    (hf : ∀ {x y a}, f x a = some y → R x y) :
    ∀ {l : List α} {x y : σ}, l.foldlM f x = some y → R x y
  | [], x, y, h => by
    cases h
    exact hrefl _
  | a :: l, x, y, h => by
    rw [List.foldlM_cons] at h
    obtain ⟨x₁, hx₁, h⟩ := Option.bind_eq_some_iff.1 h
    exact htrans (hf hx₁) (foldlM_keeps hrefl htrans hf h)

/-- The state and the source while a source block is looked at. -/
structure SlotStep (x y : State P × AnonymousCache P × SwapBlock) : Prop where
  state : Untouched x.1 y.1
  source : SameCommitment x.2.1 y.2.1

lemma SlotStep.trans {x y z : State P × AnonymousCache P × SwapBlock} (h : SlotStep x y)
    (h' : SlotStep y z) : SlotStep x z where
  state := h.state.trans h'.state
  source := h.source.trans h'.source

lemma mergeSlot_step {b : Option SwapBlock} {i : Fin blockPages}
    {x y : State P × AnonymousCache P × SwapBlock} (h : mergeSlot block c b x i = some y) :
    SlotStep x y := by
  obtain ⟨s, source, sb⟩ := x
  unfold mergeSlot at h
  simp only at h
  split at h
  · cases h
    exact ⟨.refl _, .refl _⟩
  · split at h
    · obtain ⟨s₁, hs₁, h⟩ := Option.bind_eq_some_iff.1 h
      cases h
      exact ⟨swapSlotDealloc_untouched hs₁, ⟨rfl, rfl, rfl, rfl⟩⟩
    · cases h
      exact ⟨.refl _, ⟨rfl, rfl, rfl, rfl⟩⟩

variable {consumerId sourceId : ℕ}

lemma mergeBlock_step {x : State P × AnonymousCache P × AnonymousCache P}
    (h : mergeBlock consumerId sourceId x block = some y) : MergeStep x y := by
  obtain ⟨s, consumer, source⟩ := x
  obtain ⟨source₁, hsource₁, h⟩ := Option.bind_eq_some_iff.1 h
  have hsource : SameCommitment source source₁ :=
    foldlM_keeps SameCommitment.refl SameCommitment.trans
      (fun h => removeShadowed_sameCommitment h) hsource₁
  split at h
  · cases h
    exact ⟨⟨rfl, rfl, rfl⟩, .refl _, hsource⟩
  · obtain ⟨⟨s₂, source₂, sb⟩, hslots, h⟩ := Option.bind_eq_some_iff.1 h
    have hstep := foldlM_keeps (fun x => (⟨.refl _, .refl _⟩ : SlotStep x x)) SlotStep.trans
      (fun h => mergeSlot_step h) hslots
    have hs₂ : Untouched s s₂ := ⟨hstep.state.caches, hstep.state.available, hstep.state.files⟩
    have hsource₂ : SameCommitment source source₂ := hsource.trans hstep.source
    simp only at h
    split at h
    · cases h
      exact ⟨hs₂, ⟨rfl, rfl, rfl, rfl⟩, hsource₂⟩
    · cases h
      exact ⟨⟨hs₂.caches, hs₂.available, hs₂.files⟩, ⟨rfl, rfl, rfl, rfl⟩, hsource₂⟩

lemma mergeSwapPages_step {consumer source : AnonymousCache P}
    (h : mergeSwapPages consumerId sourceId s consumer source = some y) :
    MergeStep (s, consumer, source) y := by
  unfold mergeSwapPages at h
  split at h
  · cases h
    exact .refl _
  · exact foldlM_keeps MergeStep.refl MergeStep.trans (fun h => mergeBlock_step h) h

structure SamePair (x y : AnonymousCache P × AnonymousCache P) : Prop where
  first : y.1 = { x.1 with pages := y.1.pages }
  second : y.2 = { x.2 with pages := y.2.pages }

lemma SamePair.trans {x y z : AnonymousCache P × AnonymousCache P} (h : SamePair x y)
    (h' : SamePair y z) : SamePair x z where
  first := by rw [h'.first, h.first]
  second := by rw [h'.second, h.second]

lemma SameCommitment.of_pages {pages : Table ℕ (Page P)} (h : c' = { c with pages := pages }) :
    SameCommitment c c' := by
  rw [h]
  exact ⟨rfl, rfl, rfl, rfl⟩

lemma foldl_samePair {α : Type}
    {f : AnonymousCache P × AnonymousCache P → α → AnonymousCache P × AnonymousCache P}
    (hf : ∀ x a, SamePair x (f x a)) (l : List α) :
    ∀ x, SamePair x (l.foldl f x) := by
  induction l with
  | nil => exact fun x => ⟨rfl, rfl⟩
  | cons a l ih => exact fun x => (hf x a).trans (ih (f x a))

lemma mergePages_samePair (smallerSource : Bool) (consumer source : AnonymousCache P) :
    SamePair (consumer, source) (mergePages smallerSource consumer source) := by
  unfold mergePages
  split
  · refine foldl_samePair (fun x e => ?_) _ _
    split
    · exact ⟨rfl, rfl⟩
    · exact ⟨rfl, rfl⟩
  · have h := foldl_samePair (fun (x : AnonymousCache P × AnonymousCache P)
        (e : Sigma fun _ : ℕ => Page P) =>
      (⟨rfl, rfl⟩ : SamePair x (x.1.removePage e.1, (x.2.removePage e.1).insertPage e.1 e.2)))
      consumer.pages.entries (consumer, source)
    have h' : SamePair _ (mergePagesSmallerConsumer consumer source) := ⟨rfl, rfl⟩
    exact h.trans h'

lemma mergeCommitments_moved {consumer source consumer' source' : AnonymousCache P}
    (h : mergeCommitments s consumer source = (s', consumer', source'))
    (hs : 0 ≤ s.available) (hc : CacheOk consumer) (hc' : CacheOk source) :
    Moved s s' { consumer with
      committedSwapSize := consumer.committedSwapSize + source.committedSwapSize } consumer' ∧
      source'.committedSwapSize = 0 ∧ CacheOk source' := by
  have hn := hc.nonneg
  have hle := hc.le
  have hn' := hc'.nonneg
  have hle' := hc'.le
  have hrange := hc.range
  -- the consumer with both commitments
  have htaken : CacheOk { consumer with
      committedSwapSize := consumer.committedSwapSize + source.committedSwapSize
      committedSize := consumer.committedSize + source.committedSize } := by
    refine ⟨?_, ?_, hrange⟩ <;> simp only <;> omega
  have hsource : CacheOk { source with committedSwapSize := 0, committedSize := 0 } :=
    ⟨Int.le_refl 0, Int.le_refl 0, hc'.range⟩
  unfold mergeCommitments at h
  simp only at h
  split at h
  · have hm := commitSpace_moved false hs htaken
      (show 0 ≤ (consumer.virtualEnd - consumer.virtualBase : ℤ) by omega)
    cases h
    exact ⟨⟨hm.caches, hm.files, hm.balance, hm.nonneg, hm.ok, hm.base⟩, rfl, hsource⟩
  · cases h
    exact ⟨⟨rfl, rfl, rfl, hs, htaken, rfl⟩, rfl, hsource⟩

lemma merge_conserved (hne : consumerId ≠ sourceId) (h : merge s consumerId sourceId = some s')
    (hs : Conserved s) : Conserved s' := by
  obtain ⟨consumer, hconsumer, h⟩ := Option.bind_eq_some_iff.1 h
  obtain ⟨source, hsource, h⟩ := Option.bind_eq_some_iff.1 h
  obtain ⟨⟨s₁, consumer₁, source₁⟩, hm⟩ :
    ∃ x, mergeCommitments s consumer source = x := ⟨_, rfl⟩
  rw [hm] at h
  simp only at h
  obtain ⟨⟨s₂, consumer₂, source₂⟩, hpages, h⟩ := Option.bind_eq_some_iff.1 h
  simp only at h
  cases h
  obtain ⟨hmoved, hzero, hok⟩ := mergeCommitments_moved hm hs.nonneg (hs.caches _ _ hconsumer)
    (hs.caches _ _ hsource)
  have hstep := mergeSwapPages_step hpages
  have hpair := mergePages_samePair (decide (source₂.pageCount < consumer₂.pageCount))
    consumer₂ source₂
  obtain ⟨⟨consumer₃, source₃⟩, hx⟩ : ∃ x, mergePages
    (decide (source₂.pageCount < consumer₂.pageCount)) consumer₂ source₂ = x := ⟨_, rfl⟩
  rw [hx] at hpair ⊢
  have hconsumer₃ :
    SameCommitment consumer₁ consumer₃ := hstep.consumer.trans (.of_pages hpair.first)
  have hsource₃ : SameCommitment source₁ source₃ := hstep.source.trans (.of_pages hpair.second)
  have hcaches : s₂.caches = s.caches := hstep.state.caches.trans hmoved.caches
  have hswap := hconsumer₃.swap
  have hswap' := hsource₃.swap
  have hbalance := hmoved.balance
  have havailable : s₂.available = s₁.available := hstep.state.available
  have hfiles : s₂.files = s.files := hstep.state.files.trans hmoved.files
  have htotal := hs.total
  refine ⟨?_, ?_, ?_⟩
  · simp only [State.setCache, havailable]
    exact hmoved.nonneg
  · simp only [committedSwap, fileBytes, State.setCache, hcaches, hfiles, Table.total_insert,
      Table.part_of_lookup hsource] at htotal ⊢
    rw [Table.part_of_lookup ((Table.lookup_insert_of_ne hne).trans hconsumer)]
    simp only at hbalance
    omega
  · simp only [State.setCache, hcaches]
    exact Table.forall_lookup_insert
      (Table.forall_lookup_insert hs.caches (hsource₃.ok hok)) (hconsumer₃.ok hmoved.ok)

/-! ## Runs -/

/-- What a call must not do for the space to be conserved: delete a swap file that is larger than
the space available, or reserve a page for a fault when a part of a page is left. A cache must not
be resized to less than its base. -/
def spaceOk (s : State P) : Call P → Prop
  | .fileDelete vnode => ∀ f, s.files.find? (fun f => f.vnode = vnode) = some f → s.isUnused f →
      (f.pages * pageSize : ℤ) ≤ s.available
  | .fault id offset _ => ∀ c, s.caches.lookup id = some c →
      faultReserves c offset ((c.lookupPage (offset / pageSize)).isNone ∧
        (getAddress s id (offset / pageSize)).isNone) →
      s.available = 0 ∨ (pageSize : ℤ) ≤ s.available
  | .resize id newSize _ => ∀ c, s.caches.lookup id = some c → c.virtualBase ≤ newSize
  | _ => True

lemma onCache_conserved {f : AnonymousCache P → State P × AnonymousCache P × Status}
    (h : onCache s id f = some s') (hs : Conserved s)
    (hf : ∀ c, s.caches.lookup id = some c → CacheOk c → Moved s (f c).1 c (f c).2.1) :
    Conserved s' := by
  obtain ⟨c, hl, h⟩ := Option.map_eq_some_iff.1 h
  cases h
  exact (hf c hl (hs.caches id c hl)).conserved hl hs

lemma step_conserved {call : Call P} (hs : Conserved s) (hok : spaceOk s call)
    (h : step s call = some s') : Conserved s' := by
  cases call with
  | fileAdd vnode size =>
    cases h
    exact swapFileAdd_conserved hs
  | fileDelete vnode =>
    cases h
    exact swapFileDelete_conserved hs hok
  | commit id size memory =>
    exact onCache_conserved h hs fun c _ hc => commit_moved memory hs.nonneg hc (by omega)
  | fault id offset memory =>
    exact onCache_conserved h hs fun c hl hc => fault_moved hs.nonneg hc (hok c hl)
  | merge consumer source =>
    obtain ⟨hne, h⟩ := Option.ite_none_left_eq_some.1 h
    exact merge_conserved hne h hs
  | resize id newSize memory =>
    obtain ⟨r, hr, rfl⟩ := Option.map_eq_some_iff.1 h
    exact resize_conserved hr hs hok
  | write id pageIndex vecs answers =>
    obtain ⟨r, hr, rfl⟩ := Option.map_eq_some_iff.1 h
    exact (write_sameSpace hr).conserved hs
  | writeAsync id pageIndex slot memory =>
    obtain ⟨r, hr, rfl⟩ := Option.map_eq_some_iff.1 h
    exact (writeAsync_sameSpace hr).conserved hs
  | ioFinished w ok => exact (ioFinished_sameSpace h).conserved hs
  | freePageSwapSpace id pageIndex => exact (swapFreePageSwapSpace_sameSpace h).conserved hs
  | destroy id => exact destroy_conserved h hs
  | create id canOvercommit precommittedPages guardPages base size =>
    obtain ⟨hnone, h⟩ := Option.ite_none_left_eq_some.1 h
    have hl : s.caches.lookup id = none := by simpa using hnone
    cases h
    have htotal := hs.total
    refine ⟨hs.nonneg, ?_, ?_⟩
    · simp only [committedSwap, fileBytes, State.setCache, Table.total_insert,
        Table.part_of_none hl, newCache] at htotal ⊢
      omega
    · exact Table.forall_lookup_insert hs.caches
        ⟨Int.le_refl 0, Int.le_refl 0, Nat.le_add_right base size⟩
  | insertPage id index page =>
    exact onCache_conserved h hs fun c _ hc =>
      ⟨rfl, rfl, rfl, hs.nonneg, ⟨hc.nonneg, hc.le, hc.range⟩, rfl⟩
  | removePage id index =>
    exact onCache_conserved h hs fun c _ hc =>
      ⟨rfl, rfl, rfl, hs.nonneg, ⟨hc.nonneg, hc.le, hc.range⟩, rfl⟩

lemma conserved_initial (P : Type) : Conserved (initial P) where
  nonneg := Int.le_refl 0
  total := rfl
  caches id c h := by cases h

/-- In a run without such calls, the available and the committed swap space make up the swap
files, and no cache has committed more swap space than space. -/
theorem space_conserved {h : History (State P) (Call P)}
    (hr : Run step spaceOk (initial P) h s) : Conserved s :=
  hr.invariant (conserved_initial P) step_conserved

def checkSpaceOk (s : State P) : Call P → Bool
  | .fileDelete vnode => (s.files.find? fun f => f.vnode = vnode).all fun f =>
      f.pages * pageSize ≤ s.available
  | .fault _ _ _ => s.available = 0 ∨ pageSize ≤ s.available
  | .resize id newSize _ => (s.caches.lookup id).all fun c => c.virtualBase ≤ newSize
  | _ => true

lemma spaceOk_of_check (s : State P) (call : Call P) (h : checkSpaceOk s call = true) :
    spaceOk s call := by
  cases call with
  | fileDelete vnode =>
    intro f hf _
    simpa [checkSpaceOk, hf] using h
  | fault id offset memory =>
    intro c _ _
    simpa [checkSpaceOk] using h
  | resize id newSize memory =>
    intro c hl
    simpa [checkSpaceOk, hl] using h
  | _ => trivial

/-- A swap file of ten pages, and a cache that commits three pages, of which it takes over two
from another cache. -/
def commitAndMerge : List (Call ℕ) :=
  [.fileAdd 1 (10 * 4096), .create 0 false 0 0 0 (3 * 4096), .create 1 true 0 0 0 (2 * 4096),
    .commit 0 4096 true, .fault 1 0 false, .fault 1 4096 false, .merge 0 1, .destroy 1]

/-- The committed pages are missing in the pool. -/
theorem space_conserved_merged :
    Conserved (outcome step (initial ℕ) commitAndMerge) ∧
      (outcome step (initial ℕ) commitAndMerge).available = 8 * 4096 := by
  obtain ⟨h, hr, -⟩ := run_outcome step spaceOk_of_check (initial ℕ) commitAndMerge
    (fun _ => true) (by decide)
  exact ⟨space_conserved hr, by decide⟩

/-- A swap file can be deleted while a cache has reserved all of it. -/
theorem reserved_file_deleted : ¬ ∀ (h : History (State ℕ) (Call ℕ)) (s : State ℕ),
    Run step (fun _ _ => True) (initial ℕ) h s → Conserved s := by
  intro hclaim
  obtain ⟨h, hr, -⟩ := @run_outcome _ _ (fun _ _ => True) step (fun _ _ => true)
    (fun _ _ _ => trivial) (initial ℕ) [.fileAdd 1 (10 * 4096),
      .create 0 false 0 0 0 (10 * 4096), .commit 0 (10 * 4096) true, .fileDelete 1]
    (fun _ => true) (by decide)
  have hneg : (outcome step (initial ℕ) [.fileAdd 1 (10 * 4096),
      .create 0 false 0 0 0 (10 * 4096), .commit 0 (10 * 4096) true, .fileDelete 1]).available
      = -40960 := by decide
  have hnonneg := (hclaim h _ hr).nonneg
  omega

end Haiku.Swap
