import Haiku.Swap.MergeTheorems

/-!
# Giving pages a slot and taking it away

`swapBlockBuild` and `swapBlockFree` change the slots of consecutive pages, block by block. Both
keep the count of the slots in `used` (`BlockOk`), provided that none of the pages has a slot
before, or all of them have one.
-/

namespace Haiku.Swap

open Lib

variable {P : Type} {s s' : State P} {id : ℕ}

/-- `used` is the number of slots, and the block is not empty. -/
structure BlockOk (b : SwapBlock) : Prop where
  used : b.used = .ofNat b.numSlots
  pos : 1 ≤ b.numSlots

def BlocksOk (s : State P) : Prop := ∀ key b, s.blocks.lookup key = some b → BlockOk b

/-! ## Counting slots -/

lemma countP_or_of_disjoint {α : Type} {p q : α → Bool} {l : List α}
    (h : ∀ a ∈ l, p a = true → q a = false) :
    l.countP (fun a => p a || q a) = l.countP p + l.countP q := by
  induction l with
  | nil => rfl
  | cons a l ih =>
    have ha := h a List.mem_cons_self
    rw [List.countP_cons, List.countP_cons, List.countP_cons,
      ih fun a ha => h a (List.mem_cons_of_mem _ ha)]
    cases hp : p a <;> cases hq : q a <;> simp_all <;> omega

lemma numSlots_le (b : SwapBlock) : b.numSlots ≤ 32 := by
  have h := List.countP_le_length (p := fun i => (b.slots i).isSome) (l := List.finRange blockPages)
  rw [List.length_finRange] at h
  exact h

lemma ofNat_eq_zero_iff {n : ℕ} (h : n ≤ 32) : UInt32.ofNat n = 0 ↔ n = 0 := by
  constructor
  · intro hn
    have hto := congrArg UInt32.toNat hn
    rw [UInt32.toNat_ofNat_of_lt' (by omega : n < 2 ^ 32)] at hto
    exact hto
  · rintro rfl
    rfl

def SwapBlock.fill (b : SwapBlock) (p : Fin blockPages → Bool) (slot : Fin blockPages → ℕ) :
    SwapBlock where
  used := b.used + .ofNat ((List.finRange blockPages).countP p)
  slots i := if p i then some (slot i) else b.slots i

variable {b : SwapBlock} {p : Fin blockPages → Bool}

lemma numSlots_fill {slot : Fin blockPages → ℕ} (h : ∀ i, p i = true → b.slots i = none) :
    (b.fill p slot).numSlots = (List.finRange blockPages).countP p + b.numSlots := by
  have hfill : (b.fill p slot).numSlots =
      (List.finRange blockPages).countP fun i => p i || (b.slots i).isSome := by
    unfold SwapBlock.numSlots
    congr 1
    funext i
    cases hp : p i <;> simp [SwapBlock.fill, hp]
  rw [hfill, countP_or_of_disjoint]
  · rfl
  · intro i _ hi
    rw [h i hi]
    rfl

def SwapBlock.clear (b : SwapBlock) (p : Fin blockPages → Bool) : SwapBlock where
  used := b.used - .ofNat ((List.finRange blockPages).countP p)
  slots i := if p i then none else b.slots i

lemma numSlots_clear (h : ∀ i, p i = true → (b.slots i).isSome = true) :
    (List.finRange blockPages).countP p + (b.clear p).numSlots = b.numSlots := by
  have hsum : b.numSlots =
      (List.finRange blockPages).countP fun i => p i || ((b.clear p).slots i).isSome := by
    unfold SwapBlock.numSlots
    congr 1
    funext i
    cases hp : p i with
    | true => simp [h i hp]
    | false => simp [SwapBlock.clear, hp]
  rw [hsum, countP_or_of_disjoint]
  · rfl
  · intro i _ hi
    simp [SwapBlock.clear, hi]

lemma used_clear (hb : b.used = .ofNat b.numSlots)
    (h : ∀ i, p i = true → (b.slots i).isSome = true) :
    (b.clear p).used = .ofNat (b.clear p).numSlots := by
  show b.used - .ofNat ((List.finRange blockPages).countP p) = _
  rw [hb, ← numSlots_clear h, UInt32.ofNat_add]
  grind

/-! ## Building blocks -/

lemma slotAt_insert (s : State P) (id block : ℕ) (b : SwapBlock) (id' block' : ℕ)
    (i : Fin blockPages) :
    slotAt { s with blocks := s.blocks.insert (id, block) b } id' block' i =
      if id' = id ∧ block' = block then b.slots i else slotAt s id' block' i := by
  unfold slotAt
  by_cases hkey : (id', block') = (id, block)
  · cases hkey
    rw [AList.lookup_insert, if_pos ⟨rfl, rfl⟩]
    rfl
  · rw [AList.lookup_insert_ne hkey, if_neg]
    rintro ⟨rfl, rfl⟩
    exact hkey rfl

lemma slotAt_erase (s : State P) (id block id' block' : ℕ) (i : Fin blockPages) :
    slotAt { s with blocks := s.blocks.erase (id, block) } id' block' i =
      if id' = id ∧ block' = block then none else slotAt s id' block' i := by
  unfold slotAt
  by_cases hkey : (id', block') = (id, block)
  · cases hkey
    rw [AList.lookup_erase, if_pos ⟨rfl, rfl⟩]
    rfl
  · rw [AList.lookup_erase_ne hkey, if_neg]
    rintro ⟨rfl, rfl⟩
    exact hkey rfl

/-- The slots of some pages of a cache have been changed, and the blocks are in order. -/
structure SlotsChanged (s s' : State P) (id : ℕ) (p : ℕ → Fin blockPages → Prop)
    (new : ℕ → Fin blockPages → Option ℕ) : Prop where
  state : s' = { s with blocks := s'.blocks }
  ok : BlocksOk s'
  changed : ∀ block i, p block i → slotAt s' id block i = new block i
  kept : ∀ block i, ¬ p block i → slotAt s' id block i = slotAt s id block i
  others : ∀ id' block i, id' ≠ id → slotAt s' id' block i = slotAt s id' block i

variable {start count block : ℕ}

lemma buildBlock_changed {slot : ℕ} (hok : BlocksOk s)
    (hfree : ∀ i, isCovered start count block i = true → slotAt s id block i = none)
    (hsome : ∃ i, isCovered start count block i = true) :
    SlotsChanged s (buildBlock s id start slot count block) id
      (fun block' i => block' = block ∧ isCovered start count block' i = true)
      (fun block' i => some (slot + (pageOf block' i - start))) := by
  obtain ⟨i₀, hi₀⟩ := hsome
  -- the block before, which may be new
  have hb : ∃ b : SwapBlock, b = (s.blocks.lookup (id, block)).getD emptyBlock ∧
      b.used = .ofNat b.numSlots ∧ ∀ i, b.slots i = slotAt s id block i := by
    refine ⟨_, rfl, ?_, fun i => ?_⟩
    · cases hl : s.blocks.lookup (id, block) with
      | none =>
        rw [Option.getD_none, numSlots_emptyBlock]
        rfl
      | some b => exact (hok _ b hl).used
    · rw [slotAt]
      cases s.blocks.lookup (id, block) <;> rfl
  obtain ⟨b, hb, hused, hslots⟩ := hb
  have hbuild : ∃ b', b' = b.fill (isCovered start count block)
        (fun i => slot + (pageOf block i - start)) ∧
      buildBlock s id start slot count block =
        { s with blocks := s.blocks.insert (id, block) b' } := by
    rw [hb]
    exact ⟨_, rfl, rfl⟩
  obtain ⟨b', hb', hbuild⟩ := hbuild
  have hnum : (b.fill (isCovered start count block)
      fun i => slot + (pageOf block i - start)).numSlots = _ :=
    numSlots_fill fun i hi => (hslots i).trans (hfree i hi)
  have hpos : 1 ≤ (List.finRange blockPages).countP (isCovered start count block) :=
    List.countP_pos_iff.2 ⟨i₀, List.mem_finRange _, hi₀⟩
  rw [← hb'] at hnum
  rw [hbuild]
  refine ⟨rfl, ?_, ?_, ?_, ?_⟩
  · refine Table.forall_lookup_insert hok ⟨?_, by omega⟩
    rw [hnum, UInt32.ofNat_add, hb']
    show b.used + _ = _
    rw [hused]
    grind
  · rintro block' i ⟨rfl, hi⟩
    rw [slotAt_insert, if_pos ⟨rfl, rfl⟩, hb']
    exact if_pos hi
  · intro block' i hi
    rw [slotAt_insert]
    split
    · next hkey =>
      have hi : ¬ isCovered start count block i = true := fun h => hi ⟨hkey.2, hkey.2 ▸ h⟩
      rw [hkey.2, ← hslots i, hb']
      exact if_neg hi
    · rfl
  · intro id' block' i hid
    rw [slotAt_insert, if_neg fun h => hid h.1]

lemma freeBlock_changed (hok : BlocksOk s)
    (hall : ∀ i, isCovered start count block i = true → (slotAt s id block i).isSome = true)
    (hexists : (s.blocks.lookup (id, block)).isSome = true) :
    ∃ s', freeBlock s id start count block = some s' ∧
      SlotsChanged s s' id (fun block' i => block' = block ∧ isCovered start count block' i = true)
        (fun _ _ => none) := by
  obtain ⟨b, hb⟩ := Option.isSome_iff_exists.1 hexists
  have hslots : ∀ i, slotAt s id block i = b.slots i := by
    intro i
    rw [slotAt, hb]
    rfl
  have hall : ∀ i, isCovered start count block i = true → (b.slots i).isSome = true := by
    intro i hi
    rw [← hslots]
    exact hall i hi
  have hused := used_clear (hok _ b hb).used hall
  have hfree : ∃ b', b' = b.clear (isCovered start count block) ∧
      freeBlock s id start count block =
        if b'.used = 0 then some { s with blocks := s.blocks.erase (id, block) }
        else some { s with blocks := s.blocks.insert (id, block) b' } := by
    rw [freeBlock, hb]
    exact ⟨_, rfl, rfl⟩
  obtain ⟨b', hb', hfree⟩ := hfree
  rw [← hb'] at hused
  rw [hfree]
  split
  · next hzero =>
    -- no slot is left
    rw [hused, ofNat_eq_zero_iff (numSlots_le _), SwapBlock.numSlots, List.countP_eq_zero] at hzero
    have hnone : ∀ i, ¬ isCovered start count block i = true → b.slots i = none := by
      intro i hi
      have h := hzero i (List.mem_finRange _)
      simpa [hb', SwapBlock.clear, hi] using h
    refine ⟨_, rfl, rfl, Table.forall_lookup_erase hok, ?_, ?_, ?_⟩
    · rintro block' i ⟨rfl, -⟩
      rw [slotAt_erase, if_pos ⟨rfl, rfl⟩]
    · intro block' i hi
      rw [slotAt_erase]
      split
      · next hkey =>
        rw [hkey.2, hslots, hnone i fun h => hi ⟨hkey.2, hkey.2 ▸ h⟩]
      · rfl
    · intro id' block' i hid
      rw [slotAt_erase, if_neg fun h => hid h.1]
  · next hzero =>
    have hpos : 1 ≤ b'.numSlots := by
      rw [hused, ofNat_eq_zero_iff (numSlots_le _)] at hzero
      omega
    refine ⟨_, rfl, rfl, Table.forall_lookup_insert hok ⟨hused, hpos⟩, ?_, ?_, ?_⟩
    · rintro block' i ⟨rfl, hi⟩
      rw [slotAt_insert, if_pos ⟨rfl, rfl⟩, hb']
      exact if_pos hi
    · intro block' i hi
      rw [slotAt_insert]
      split
      · next hkey =>
        rw [hkey.2, hslots, hb']
        exact if_neg fun h => hi ⟨hkey.2, hkey.2 ▸ h⟩
      · rfl
    · intro id' block' i hid
      rw [slotAt_insert, if_neg fun h => hid h.1]

/-! ## Several blocks -/

section Blocks

variable {cov : ℕ → Fin blockPages → Prop} {new : ℕ → Fin blockPages → Option ℕ}

lemma SlotsChanged.cons {s₁ : State P} {l : List ℕ} (hblock : block ∉ l)
    (h : SlotsChanged s s₁ id (fun b i => b = block ∧ cov b i) new)
    (h' : SlotsChanged s₁ s' id (fun b i => b ∈ l ∧ cov b i) new) :
    SlotsChanged s s' id (fun b i => b ∈ block :: l ∧ cov b i) new where
  state := by rw [h'.state, h.state]
  ok := h'.ok
  changed b i hb := by
    rcases List.mem_cons.1 hb.1 with heq | hl
    · rw [h'.kept b i fun hb' => hblock (heq ▸ hb'.1), h.changed b i ⟨heq, hb.2⟩]
    · exact h'.changed b i ⟨hl, hb.2⟩
  kept b i hb := by
    rw [h'.kept b i fun hb' => hb ⟨List.mem_cons_of_mem _ hb'.1, hb'.2⟩,
      h.kept b i fun hb' => hb ⟨hb'.1 ▸ List.mem_cons_self, hb'.2⟩]
  others id' b i hid := by rw [h'.others id' b i hid, h.others id' b i hid]

lemma foldlM_changed {f : State P → ℕ → Option (State P)}
    (pre : ℕ → (Fin blockPages → Option ℕ) → Prop)
    (hf : ∀ {s : State P} {block}, BlocksOk s → pre block (slotAt s id block) →
      ∃ s', f s block = some s' ∧ SlotsChanged s s' id (fun b i => b = block ∧ cov b i) new)
    {l : List ℕ} (hl : l.Nodup) : ∀ {s : State P}, BlocksOk s →
    (∀ block ∈ l, pre block (slotAt s id block)) →
    ∃ s', l.foldlM f s = some s' ∧ SlotsChanged s s' id (fun b i => b ∈ l ∧ cov b i) new := by
  induction l with
  | nil =>
    intro s hok _
    refine ⟨s, rfl, rfl, hok, ?_, fun _ _ _ => rfl, fun _ _ _ _ => rfl⟩
    rintro b i ⟨hb, -⟩
    cases hb
  | cons block l ih =>
    intro s hok hpre
    obtain ⟨hblock, hl⟩ := List.nodup_cons.1 hl
    obtain ⟨s₁, hs₁, h₁⟩ := hf hok (hpre block List.mem_cons_self)
    have hpre₁ : ∀ b ∈ l, pre b (slotAt s₁ id b) := by
      intro b hb
      have hslots : slotAt s₁ id b = slotAt s id b := by
        funext i
        exact h₁.kept b i fun h => hblock (h.1 ▸ hb)
      rw [hslots]
      exact hpre b (List.mem_cons_of_mem _ hb)
    obtain ⟨s', hs', h'⟩ := ih hl h₁.ok hpre₁
    refine ⟨s', ?_, h₁.cons hblock h'⟩
    rw [List.foldlM_cons, hs₁]
    exact hs'

end Blocks

lemma foldlM_some {σ α : Type} (g : σ → α → σ) (l : List α) :
    ∀ x, l.foldlM (fun x a => some (g x a)) x = some (l.foldl g x) := by
  induction l with
  | nil => exact fun x => rfl
  | cons a l ih => exact fun x => ih (g x a)

lemma nodup_blockRange (start count : ℕ) : (blockRange start count).Nodup :=
  List.nodup_range.map fun _ _ h => Nat.add_left_cancel h

lemma mem_blockRange : block ∈ blockRange start count ↔
    start / blockPages ≤ block ∧ block * blockPages < start + count := by
  simp only [blockRange, blockPages, List.mem_map, List.mem_range]
  constructor
  · rintro ⟨k, hk, rfl⟩
    omega
  · intro h
    exact ⟨block - start / 32, by omega, by omega⟩

lemma isCovered_iff {i : Fin blockPages} :
    isCovered start count block i = true ↔
      start ≤ pageOf block i ∧ pageOf block i < start + count := by
  rw [isCovered, decide_eq_true_eq]
  rfl

/-! ## Consecutive pages -/

/-- The slots of the pages from `start` on have been changed. -/
structure PagesChanged (s s' : State P) (id start count : ℕ) (new : ℕ → Option ℕ) : Prop where
  state : s' = { s with blocks := s'.blocks }
  ok : BlocksOk s'
  changed : ∀ p, start ≤ p → p < start + count → getAddress s' id p = new p
  kept : ∀ p, ¬ (start ≤ p ∧ p < start + count) → getAddress s' id p = getAddress s id p
  others : ∀ id' p, id' ≠ id → getAddress s' id' p = getAddress s id' p

lemma SlotsChanged.pages {new : ℕ → Option ℕ} (h : SlotsChanged s s' id
      (fun b i => b ∈ blockRange start count ∧ isCovered start count b i = true)
      (fun b i => new (pageOf b i))) :
    PagesChanged s s' id start count new where
  state := h.state
  ok := h.ok
  changed p hp hp' := by
    rw [getAddress_eq_slotAt, h.changed, pageOf_entryOf]
    refine ⟨mem_blockRange.2 ?_, isCovered_iff.2 ?_⟩
    · simp only [blockPages]
      omega
    · rw [pageOf_entryOf]
      exact ⟨hp, hp'⟩
  kept p hp := by
    rw [getAddress_eq_slotAt, h.kept]
    · rfl
    · rintro ⟨-, hcov⟩
      rw [isCovered_iff, pageOf_entryOf] at hcov
      exact hp hcov
  others id' p hid := h.others id' _ _ hid

lemma exists_page_of_mem (hcount : 0 < count) (h : block ∈ blockRange start count) :
    ∃ p, p / blockPages = block ∧ start ≤ p ∧ p < start + count := by
  obtain ⟨hstart, hend⟩ := mem_blockRange.1 h
  simp only [blockPages] at *
  by_cases hle : start ≤ block * 32
  · exact ⟨block * 32, by omega, hle, hend⟩
  · exact ⟨start, by omega, Nat.le_refl _, by omega⟩

lemma swapBlockBuild_changed (id start slot count : ℕ) (hok : BlocksOk s) (hcount : 0 < count)
    (hfree : ∀ p, start ≤ p → p < start + count → getAddress s id p = none) :
    PagesChanged s (swapBlockBuild s id start slot count) id start count
      (fun p => some (slot + (p - start))) := by
  have hpre : ∀ b ∈ blockRange start count,
      (∀ i, isCovered start count b i = true → slotAt s id b i = none) ∧
        ∃ i, isCovered start count b i = true := by
    intro b hb
    constructor
    · intro i hi
      rw [isCovered_iff] at hi
      rw [← getAddress_pageOf]
      exact hfree _ hi.1 hi.2
    · obtain ⟨p, rfl, hp, hp'⟩ := exists_page_of_mem hcount hb
      refine ⟨entryOf p, isCovered_iff.2 ?_⟩
      rw [pageOf_entryOf]
      exact ⟨hp, hp'⟩
  obtain ⟨s', hs', h⟩ := foldlM_changed (f := fun s b => some (buildBlock s id start slot count b))
    (fun b slots => (∀ i, isCovered start count b i = true → slots i = none) ∧
      ∃ i, isCovered start count b i = true)
    (fun hok hpre => ⟨_, rfl, buildBlock_changed hok hpre.1 hpre.2⟩)
    (nodup_blockRange start count) hok hpre
  rw [foldlM_some] at hs'
  cases hs'
  exact h.pages

lemma swapBlockFree_changed (id start count : ℕ) (hok : BlocksOk s)
    (hall : ∀ p, start ≤ p → p < start + count → (getAddress s id p).isSome = true)
    (hfirst : (getAddress s id start).isSome = true) :
    ∃ s', swapBlockFree s id start count = some s' ∧
      PagesChanged s s' id start count (fun _ => none) := by
  have hpre : ∀ b ∈ blockRange start count,
      (∀ i, isCovered start count b i = true → (slotAt s id b i).isSome = true) ∧
        ∃ i, (slotAt s id b i).isSome = true := by
    intro b hb
    constructor
    · intro i hi
      rw [isCovered_iff] at hi
      rw [← getAddress_pageOf]
      exact hall _ hi.1 hi.2
    · -- the first page has a slot, also if the range is empty
      by_cases hcount : 0 < count
      · obtain ⟨p, rfl, hp, hp'⟩ := exists_page_of_mem hcount hb
        exact ⟨entryOf p, hall p hp hp'⟩
      · obtain ⟨hstart, hend⟩ := mem_blockRange.1 hb
        have hb : b = start / blockPages := by
          simp only [blockPages] at *
          omega
        rw [hb]
        exact ⟨entryOf start, hfirst⟩
  obtain ⟨s', hs', h⟩ := foldlM_changed (f := fun s b => freeBlock s id start count b)
    (fun b slots => (∀ i, isCovered start count b i = true → (slots i).isSome = true) ∧
      ∃ i, (slots i).isSome = true)
    (fun {s b} hok hpre => freeBlock_changed hok hpre.1 (by
      obtain ⟨i, hi⟩ := hpre.2
      rw [slotAt] at hi
      cases hl : s.blocks.lookup (id, b) with
      | none => simp [hl, slotsOf] at hi
      | some b => rfl))
    (nodup_blockRange start count) hok hpre
  exact ⟨s', hs', h.pages⟩

end Haiku.Swap
