import Haiku.Swap.SpaceTheorems
import Mathlib.Tactic.Ring
import Mathlib.Order.Fin.Basic

/-!
# What `Merge()` does

`mergeSwapPages` works on one block after the other; `BlocksMerged` says what it leaves behind,
in terms of the blocks before. Since the consumer's pages do not change meanwhile, which source
slots are freed is known from the beginning.
-/

namespace Haiku.Swap

open Function Lib

variable {P : Type} {s s' : State P} {c c' : AnonymousCache P}

/-! ## The slots of a cache -/

def slotAt (s : State P) (id block : ℕ) (i : Fin blockPages) : Option ℕ :=
  slotsOf (s.blocks.lookup (id, block)) i

def entryOf (pageIndex : ℕ) : Fin blockPages := ⟨pageIndex % blockPages, mod_blockPages_lt pageIndex⟩

lemma getAddress_eq_slotAt (s : State P) (id pageIndex : ℕ) :
    getAddress s id pageIndex = slotAt s id (pageIndex / blockPages) (entryOf pageIndex) := rfl

@[simp] lemma pageOf_div (block : ℕ) (i : Fin blockPages) :
    pageOf block i / blockPages = block := by
  have hi := i.isLt
  unfold pageOf blockPages at *
  omega

@[simp] lemma entryOf_pageOf (block : ℕ) (i : Fin blockPages) : entryOf (pageOf block i) = i := by
  have hi := i.isLt
  ext
  show (block * blockPages + i) % blockPages = i
  rw [Nat.mul_comm, Nat.mul_add_mod, Nat.mod_eq_of_lt hi]

lemma pageOf_entryOf (pageIndex : ℕ) :
    pageOf (pageIndex / blockPages) (entryOf pageIndex) = pageIndex := by
  show pageIndex / blockPages * blockPages + pageIndex % blockPages = pageIndex
  rw [Nat.mul_comm]
  exact Nat.div_add_mod pageIndex blockPages

lemma getAddress_pageOf (s : State P) (id block : ℕ) (i : Fin blockPages) :
    getAddress s id (pageOf block i) = slotAt s id block i := by
  rw [getAddress_eq_slotAt, pageOf_div, entryOf_pageOf]

lemma swapSlotDealloc_one {slot : ℕ} (h : s.hasSlot slot = true) :
    swapSlotDealloc s slot 1 =
      some { s with allocated := fun x => !decide (x = slot) && s.allocated x } := by
  unfold swapSlotDealloc
  rw [if_pos h]
  congr 2
  funext x
  congr 2
  rw [decide_eq_decide]
  omega

/-! ## One block -/

/-- The consumer has a page or a swapped out page at an entry of a block. -/
def isShadowed (consumer : AnonymousCache P) (b : Option SwapBlock) (block : ℕ)
    (i : Fin blockPages) : Bool :=
  (slotsOf b i).isSome || (consumer.lookupPage (pageOf block i)).isSome

def SwapBlock.numSlots (b : SwapBlock) : ℕ :=
  (List.finRange blockPages).countP fun i => (b.slots i).isSome

/-- The number of slots of a block at the entries that meet a condition. -/
def SwapBlock.numSlotsIn (b : SwapBlock) (p : Fin blockPages → Bool) : ℕ :=
  (List.finRange blockPages).countP fun i => p i && (b.slots i).isSome

def SwapBlock.keep (b : SwapBlock) (shadowed : Fin blockPages → Bool) : SwapBlock where
  used := b.used - .ofNat (b.numSlotsIn shadowed)
  slots i := if shadowed i then none else b.slots i

lemma foldlM_mergeSlot (block : ℕ) (consumer : AnonymousCache P) (b : Option SwapBlock)
    {l : List (Fin blockPages)} (hl : l.Nodup) : ∀ (s : State P) (source : AnonymousCache P)
    (sb : SwapBlock), (∀ i slot, sb.slots i = some slot → s.hasSlot slot = true) →
    l.foldlM (mergeSlot block consumer b) (s, source, sb) = some
      ({ s with allocated := fun x =>
          !(l.any fun i => isShadowed consumer b block i && decide (sb.slots i = some x)) &&
            s.allocated x },
        { source with allocatedSwapSize :=
            source.allocatedSwapSize - pageSize * (l.countP fun i => (sb.slots i).isSome : ℕ) },
        { used := sb.used - .ofNat (l.countP fun i =>
            isShadowed consumer b block i && (sb.slots i).isSome)
          slots := fun i =>
            if i ∈ l ∧ isShadowed consumer b block i then none else sb.slots i }) := by
  induction l with
  | nil =>
    intro s source sb _
    simp
  | cons i l ih =>
    intro s source sb hfile
    have hi : i ∉ l := (List.nodup_cons.1 hl).1
    rw [List.foldlM_cons]
    cases hsb : sb.slots i with
    | none =>
      have hslot : mergeSlot block consumer b (s, source, sb) i = some (s, source, sb) := by
        simp [mergeSlot, hsb]
      rw [hslot, Option.bind_eq_bind, Option.bind_some, ih (List.nodup_cons.1 hl).2 s source sb hfile]
      refine congrArg some (Prod.ext ?_ (Prod.ext ?_ ?_))
      · simp [hsb]
      · simp [hsb]
      · simp only [List.countP_cons, hsb, Option.isSome_none, Bool.and_false, Bool.false_eq_true,
          if_false, Nat.add_zero, SwapBlock.mk.injEq, true_and]
        funext j
        by_cases hj : j = i
        · simp [hj, hsb]
        · simp [hj]
    | some slot =>
      -- the other entries of the block are not changed
      have hother : ∀ j ∈ l, (update sb.slots i none) j = sb.slots j := by
        intro j hj
        have hne : j ≠ i := by
          rintro rfl
          exact hi hj
        exact update_of_ne hne _ _
      by_cases hsh : isShadowed consumer b block i = true
      · have hslot : mergeSlot block consumer b (s, source, sb) i = some
            ({ s with allocated := fun x => !decide (x = slot) && s.allocated x },
              { source with allocatedSwapSize := source.allocatedSwapSize - pageSize },
              { used := sb.used - 1, slots := update sb.slots i none }) := by
          have hsh' : (slotsOf b i).isSome = true ∨
              (consumer.lookupPage (pageOf block i)).isSome = true := by
            simpa [isShadowed] using hsh
          simp only [mergeSlot, hsb, if_pos hsh', swapSlotDealloc_one (hfile i slot hsb)]
          rfl
        rw [hslot, Option.bind_eq_bind, Option.bind_some, ih (List.nodup_cons.1 hl).2]
        · have hany : ∀ x, (l.any fun j => isShadowed consumer b block j &&
              decide (update sb.slots i none j = some x)) =
              l.any fun j => isShadowed consumer b block j && decide (sb.slots j = some x) :=
            fun x => by
              rw [Bool.eq_iff_iff, List.any_eq_true, List.any_eq_true]
              grind
          have hcount : (l.countP fun j => (update sb.slots i none j).isSome) =
              l.countP fun j => (sb.slots j).isSome :=
            List.countP_congr fun j hj => by rw [hother j hj]
          have hcount' : (l.countP fun j => isShadowed consumer b block j &&
              (update sb.slots i none j).isSome) =
              l.countP fun j => isShadowed consumer b block j && (sb.slots j).isSome :=
            List.countP_congr fun j hj => by rw [hother j hj]
          refine congrArg some (Prod.ext ?_ (Prod.ext ?_ ?_))
          · simp only [hany, List.any_cons, hsh, hsb, Option.some.injEq, Bool.true_and,
              State.mk.injEq, true_and, and_true]
            funext x
            rw [decide_eq_decide.2 (eq_comm : slot = x ↔ x = slot)]
            cases decide (x = slot) <;> simp
          · simp only [hcount, List.countP_cons, hsb, Option.isSome_some, if_true,
              AnonymousCache.mk.injEq, true_and, and_true]
            push_cast
            ring
          · simp only [hcount', List.countP_cons, hsb, hsh, Option.isSome_some, Bool.and_true, if_true,
              SwapBlock.mk.injEq, UInt32.ofNat_add]
            refine ⟨by grind, ?_⟩
            funext j
            by_cases hj : j = i
            · simp [hj, hsh]
            · simp [hj]
        · intro j slot' hj
          change update sb.slots i none j = some slot' at hj
          by_cases hji : j = i
          · rw [hji, update_self] at hj
            cases hj
          · rw [update_of_ne hji] at hj
            exact hfile j slot' hj
      · have hslot : mergeSlot block consumer b (s, source, sb) i = some (s,
            { source with allocatedSwapSize := source.allocatedSwapSize - pageSize }, sb) := by
          have hsh' : ¬ ((slotsOf b i).isSome = true ∨
              (consumer.lookupPage (pageOf block i)).isSome = true) := by
            simpa [isShadowed] using hsh
          simp only [mergeSlot, hsb, if_neg hsh']
        rw [hslot, Option.bind_eq_bind, Option.bind_some,
          ih (List.nodup_cons.1 hl).2 s _ sb hfile]
        refine congrArg some (Prod.ext ?_ (Prod.ext ?_ ?_))
        · simp [hsh]
        · simp only [List.countP_cons, hsb, Option.isSome_some, if_true, AnonymousCache.mk.injEq,
            true_and, and_true]
          push_cast
          ring
        · simp only [List.countP_cons, hsh, Bool.false_and, Bool.false_eq_true,
            if_false, Nat.add_zero, SwapBlock.mk.injEq, true_and]
          funext j
          by_cases hj : j = i
          · simp [hj, hsh]
          · simp [hj]

lemma foldlM_removeShadowed (block : ℕ) (l : List (Fin blockPages)) :
    ∀ {source : AnonymousCache P}, (∀ p page, source.lookupPage p = some page → page.busy = false) →
    ∃ pages, l.foldlM (fun source i => removeShadowed source (pageOf block i)) source =
        some { source with pages := pages } ∧
      ∀ p, pages.lookup p =
        if p / blockPages = block ∧ entryOf p ∈ l then none else source.lookupPage p := by
  induction l with
  | nil =>
    intro source _
    exact ⟨source.pages, rfl, fun p => by simp [AnonymousCache.lookupPage]⟩
  | cons i l ih =>
    intro source hbusy
    have hremove : ∃ pages, removeShadowed source (pageOf block i) =
        some { source with pages := pages } ∧
        ∀ p, pages.lookup p = if p = pageOf block i then none else source.lookupPage p := by
      unfold removeShadowed
      cases hpage : source.lookupPage (pageOf block i) with
      | none =>
        refine ⟨source.pages, rfl, fun p => ?_⟩
        split
        · next hp => exact hp ▸ hpage
        · rfl
      | some page =>
        refine ⟨source.pages.erase (pageOf block i), ?_, fun p => ?_⟩
        · simp [hbusy _ page hpage, AnonymousCache.removePage]
        · split
          · next hp => rw [hp, AList.lookup_erase]
          · next hp => exact AList.lookup_erase_ne hp
    obtain ⟨pages₁, hs₁, hp₁⟩ := hremove
    have hbusy₁ : ∀ p page, ({ source with pages := pages₁ } : AnonymousCache P).lookupPage p =
        some page → page.busy = false := by
      intro p page hpage
      rw [AnonymousCache.lookupPage, hp₁] at hpage
      split at hpage
      · cases hpage
      · exact hbusy p page hpage
    obtain ⟨pages', hs', hp'⟩ := ih hbusy₁
    refine ⟨pages', by rw [List.foldlM_cons, hs₁]; exact hs', fun p => ?_⟩
    have hpage : p = pageOf block i ↔ p / blockPages = block ∧ entryOf p = i := by
      constructor
      · rintro rfl
        exact ⟨pageOf_div block i, entryOf_pageOf block i⟩
      · rintro ⟨hb, he⟩
        rw [← hb, ← he, pageOf_entryOf]
    rw [hp', AnonymousCache.lookupPage, hp₁]
    grind

/-- The block of the source, an empty one if there is none. -/
def sourceBlock (s : State P) (sourceId block : ℕ) : SwapBlock :=
  (s.blocks.lookup (sourceId, block)).getD emptyBlock

/-- A block with the slots of another one copied over it. -/
def SwapBlock.copySlots (b sb : SwapBlock) : SwapBlock :=
  { b with slots := fun i => if (sb.slots i).isSome then sb.slots i else b.slots i }

/-- The block the consumer has after it took over the rest of a source block. -/
def joinBlocks (b : Option SwapBlock) (sb : SwapBlock) : Option SwapBlock :=
  if sb.used = 0 then b else some (b.elim sb (·.copySlots sb))

lemma joinBlocks_of_unused {b : Option SwapBlock} {sb : SwapBlock} (h : sb.used = 0) :
    joinBlocks b sb = b := if_pos h

/-- The entries of a source block that are shadowed by the consumer. -/
def shadowedIn (consumerId : ℕ) (x : State P × AnonymousCache P × AnonymousCache P) (block : ℕ) :
    Fin blockPages → Bool :=
  isShadowed x.2.1 (x.1.blocks.lookup (consumerId, block)) block

/-- The part of a source block that is not shadowed. -/
def keptBlock (consumerId sourceId : ℕ) (x : State P × AnonymousCache P × AnonymousCache P)
    (block : ℕ) : SwapBlock :=
  (sourceBlock x.1 sourceId block).keep (shadowedIn consumerId x block)

def freesSlot (consumerId sourceId : ℕ) (x : State P × AnonymousCache P × AnonymousCache P)
    (slot block : ℕ) : Bool :=
  (List.finRange blockPages).any fun i =>
    shadowedIn consumerId x block i && decide ((sourceBlock x.1 sourceId block).slots i = some slot)

/-- The state `y` after the blocks of the list have been merged. -/
structure BlocksMerged (consumerId sourceId : ℕ) (l : List ℕ)
    (x y : State P × AnonymousCache P × AnonymousCache P) : Prop where
  consumerBlock : ∀ block, y.1.blocks.lookup (consumerId, block) =
    if block ∈ l then joinBlocks (x.1.blocks.lookup (consumerId, block))
      (keptBlock consumerId sourceId x block)
    else x.1.blocks.lookup (consumerId, block)
  sourceBlock : ∀ block, y.1.blocks.lookup (sourceId, block) =
    if block ∈ l then none else x.1.blocks.lookup (sourceId, block)
  others : ∀ id block, id ≠ consumerId → id ≠ sourceId →
    y.1.blocks.lookup (id, block) = x.1.blocks.lookup (id, block)
  allocated : ∀ slot, y.1.allocated slot =
    (!(l.any fun block => freesSlot consumerId sourceId x slot block) && x.1.allocated slot)
  state : y.1 = { x.1 with blocks := y.1.blocks, allocated := y.1.allocated }
  consumer : y.2.1 = { x.2.1 with allocatedSwapSize := x.2.1.allocatedSwapSize +
    (l.map fun block => (pageSize * (keptBlock consumerId sourceId x block).used.toNat : ℤ)).sum }
  source : y.2.2 = { x.2.2 with
    allocatedSwapSize := x.2.2.allocatedSwapSize -
      (l.map fun block => (pageSize * (Swap.sourceBlock x.1 sourceId block).numSlots : ℤ)).sum
    pages := y.2.2.pages }
  pages : ∀ p, y.2.2.lookupPage p =
    if p / blockPages ∈ l ∧ (getAddress x.1 consumerId p).isSome then none else x.2.2.lookupPage p

lemma numSlotsIn_emptyBlock (p : Fin blockPages → Bool) : emptyBlock.numSlotsIn p = 0 := by
  simp [SwapBlock.numSlotsIn, emptyBlock]

lemma numSlots_emptyBlock : emptyBlock.numSlots = 0 := by
  simp [SwapBlock.numSlots, emptyBlock]

lemma used_keep_emptyBlock (p : Fin blockPages → Bool) : (emptyBlock.keep p).used = 0 := by
  rw [SwapBlock.keep, numSlotsIn_emptyBlock]
  rfl

lemma mergeBlock_merged {consumerId sourceId block : ℕ}
    {x : State P × AnonymousCache P × AnonymousCache P} (hne : consumerId ≠ sourceId)
    (hbusy : ∀ p page, x.2.2.lookupPage p = some page → page.busy = false)
    (hfile : ∀ i slot, slotAt x.1 sourceId block i = some slot → x.1.hasSlot slot = true) :
    ∃ y, mergeBlock consumerId sourceId x block = some y ∧
      BlocksMerged consumerId sourceId [block] x y := by
  obtain ⟨s, consumer, source⟩ := x
  have hb : ∀ id block', id ≠ sourceId →
      (s.blocks.erase (sourceId, block)).lookup (id, block') = s.blocks.lookup (id, block') := by
    intro id block' hid
    apply AList.lookup_erase_ne
    intro h
    exact hid (Prod.ext_iff.1 h).1
  have hgone : ∀ block', (s.blocks.erase (sourceId, block)).lookup (sourceId, block') =
      if block' ∈ [block] then none else s.blocks.lookup (sourceId, block') := by
    intro block'
    by_cases hblock : block' = block
    · rw [hblock, AList.lookup_erase]
      simp
    · simp [hblock]
  obtain ⟨pages₁, hsource₁, hpages₁⟩ := foldlM_removeShadowed block
    ((List.finRange blockPages).filter fun i =>
      (slotsOf (s.blocks.lookup (consumerId, block)) i).isSome) hbusy
  have hpages : ∀ p, pages₁.lookup p =
      if p / blockPages ∈ [block] ∧ (getAddress s consumerId p).isSome then none
      else source.lookupPage p := by
    intro p
    rw [hpages₁ p]
    by_cases hp : p / blockPages = block
    · rw [getAddress_eq_slotAt, slotAt, hp]
      simp
    · simp [hp]
  cases hsb : s.blocks.lookup (sourceId, block) with
  | none =>
    have hempty : sourceBlock s sourceId block = emptyBlock := by
      rw [sourceBlock, hsb, Option.getD_none]
    have hused : (keptBlock consumerId sourceId (s, consumer, source) block).used = 0 := by
      rw [keptBlock, hempty, used_keep_emptyBlock]
    refine ⟨({ s with blocks := s.blocks.erase (sourceId, block) }, consumer,
      { source with pages := pages₁ }), ?_, ?_⟩
    · simp only [mergeBlock, hsb, hb consumerId block hne, hsource₁, Option.bind_eq_bind,
        Option.bind_some]
    · refine ⟨fun block' => ?_, hgone, fun id block' _ hid => hb id block' hid, fun slot => ?_, rfl,
        ?_, ?_, hpages⟩
      · simp only [hb consumerId block' hne, List.mem_singleton]
        split
        · next hblock => rw [hblock, joinBlocks_of_unused hused]
        · rfl
      · simp [freesSlot, hempty, emptyBlock]
      · simp [hused]
      · simp [hempty, numSlots_emptyBlock]
  | some sb =>
    have hsource : sourceBlock s sourceId block = sb := by
      rw [sourceBlock, hsb, Option.getD_some]
    have hslots : ∀ i slot, sb.slots i = some slot → s.hasSlot slot = true := by
      intro i slot hi
      apply hfile i slot
      rw [slotAt, hsb]
      exact hi
    have hfold := foldlM_mergeSlot block consumer (s.blocks.lookup (consumerId, block))
      (List.nodup_finRange blockPages)
      { s with blocks := s.blocks.erase (sourceId, block) } { source with pages := pages₁ } sb hslots
    have hkept : (⟨sb.used - .ofNat ((List.finRange blockPages).countP fun i =>
          isShadowed consumer (s.blocks.lookup (consumerId, block)) block i && (sb.slots i).isSome),
        fun i => if i ∈ List.finRange blockPages ∧
          isShadowed consumer (s.blocks.lookup (consumerId, block)) block i then none
          else sb.slots i⟩ : SwapBlock) =
        keptBlock consumerId sourceId (s, consumer, source) block := by
      simp [keptBlock, hsource, SwapBlock.keep, SwapBlock.numSlotsIn, shadowedIn]
    rw [hkept] at hfold
    generalize hk : keptBlock consumerId sourceId (s, consumer, source) block = kept at hfold
    -- the two ways only differ in the block of the consumer
    have hmerged : ∀ B : Table (ℕ × ℕ) SwapBlock,
        B.lookup (consumerId, block) = joinBlocks (s.blocks.lookup (consumerId, block)) kept →
        (∀ key, key ≠ (consumerId, block) →
          B.lookup key = (s.blocks.erase (sourceId, block)).lookup key) →
        BlocksMerged consumerId sourceId [block] (s, consumer, source)
          ({ s with
              blocks := B
              allocated := fun x => !((List.finRange blockPages).any fun i =>
                isShadowed consumer (s.blocks.lookup (consumerId, block)) block i &&
                  decide (sb.slots i = some x)) && s.allocated x },
            { consumer with
              allocatedSwapSize := consumer.allocatedSwapSize + pageSize * kept.used.toNat },
            { source with
              allocatedSwapSize := source.allocatedSwapSize - pageSize *
                ((List.finRange blockPages).countP fun i => (sb.slots i).isSome : ℕ)
              pages := pages₁ }) := by
      intro B hB hrest
      refine ⟨fun block' => ?_, fun block' => ?_, fun id block' hid hid' => ?_, fun slot => ?_, rfl,
        ?_, ?_, hpages⟩
      · simp only [List.mem_singleton]
        split
        · next hblock => rw [hblock, hB, hk]
        · next hblock =>
          rw [hrest _ fun h => hblock (Prod.ext_iff.1 h).2, hb consumerId block' hne]
      · rw [hrest _ fun h => hne (Prod.ext_iff.1 h).1.symm]
        exact hgone block'
      · rw [hrest _ fun h => hid (Prod.ext_iff.1 h).1]
        exact hb id block' hid'
      · simp [freesSlot, shadowedIn, hsource]
      · simp [hk]
      · simp only [hsource, List.map_cons, List.map_nil, List.sum_cons, List.sum_nil, add_zero]
        rfl
    simp only [mergeBlock, hsb, hb consumerId block hne, hsource₁, Option.bind_eq_bind,
      Option.bind_some, hfold]
    split
    · next hused =>
      refine ⟨_, rfl, hmerged _ ?_ fun _ _ => rfl⟩
      rw [joinBlocks_of_unused hused, hb consumerId block hne]
    · next hused =>
      refine ⟨_, rfl, hmerged _ ?_ fun key hkey => ?_⟩
      · rw [AList.lookup_insert, joinBlocks, if_neg hused]
        cases s.blocks.lookup (consumerId, block) <;> rfl
      · exact AList.lookup_insert_ne hkey

/-! ## All blocks -/

section Blocks

variable {consumerId sourceId : ℕ} {x x₁ y : State P × AnonymousCache P × AnonymousCache P}

lemma BlocksMerged.keptBlock_eq {block block' : ℕ} (h : BlocksMerged consumerId sourceId [block] x x₁)
    (hne : block' ≠ block) : x₁.1.blocks.lookup (consumerId, block') =
      x.1.blocks.lookup (consumerId, block') ∧
    Swap.sourceBlock x₁.1 sourceId block' = Swap.sourceBlock x.1 sourceId block' ∧
    shadowedIn consumerId x₁ block' = shadowedIn consumerId x block' := by
  have hc : x₁.1.blocks.lookup (consumerId, block') = x.1.blocks.lookup (consumerId, block') := by
    simpa [hne] using h.consumerBlock block'
  have hs : x₁.1.blocks.lookup (sourceId, block') = x.1.blocks.lookup (sourceId, block') := by
    simpa [hne] using h.sourceBlock block'
  refine ⟨hc, by rw [Swap.sourceBlock, hs, Swap.sourceBlock], ?_⟩
  funext i
  rw [shadowedIn, shadowedIn, hc, h.consumer]
  rfl

lemma BlocksMerged.cons {block : ℕ} {l : List ℕ} (hblock : block ∉ l)
    (h : BlocksMerged consumerId sourceId [block] x x₁) (h' : BlocksMerged consumerId sourceId l x₁ y) :
    BlocksMerged consumerId sourceId (block :: l) x y := by
  have hne : ∀ block' ∈ l, block' ≠ block := by
    rintro block' hl rfl
    exact hblock hl
  have hkept : ∀ block' ∈ l, keptBlock consumerId sourceId x₁ block' =
      keptBlock consumerId sourceId x block' := by
    intro block' hl
    obtain ⟨-, hs, hsh⟩ := h.keptBlock_eq (hne block' hl)
    rw [keptBlock, hs, hsh, keptBlock]
  refine ⟨fun block' => ?_, fun block' => ?_, fun id block' hid hid' => ?_, fun slot => ?_, ?_, ?_, ?_,
    fun p => ?_⟩
  · rw [h'.consumerBlock]
    by_cases hl : block' ∈ l
    · rw [if_pos hl, if_pos (List.mem_cons_of_mem _ hl), (h.keptBlock_eq (hne _ hl)).1,
        hkept block' hl]
    · rw [if_neg hl, h.consumerBlock]
      simp [hl]
  · rw [h'.sourceBlock, h.sourceBlock]
    by_cases hl : block' ∈ l <;> simp [hl]
  · rw [h'.others id block' hid hid', h.others id block' hid hid']
  · rw [h'.allocated, h.allocated]
    have hany : (l.any fun block => freesSlot consumerId sourceId x₁ slot block) =
        l.any fun block => freesSlot consumerId sourceId x slot block := by
      rw [Bool.eq_iff_iff, List.any_eq_true, List.any_eq_true]
      have hf : ∀ block' ∈ l, freesSlot consumerId sourceId x₁ slot block' =
          freesSlot consumerId sourceId x slot block' := by
        intro block' hl
        obtain ⟨-, hs, hsh⟩ := h.keptBlock_eq (hne block' hl)
        rw [freesSlot, hs, hsh, freesSlot]
      grind
    rw [hany]
    cases x.1.allocated slot <;> simp [Bool.and_comm]
  · rw [h'.state, h.state]
  · rw [h'.consumer, h.consumer]
    have hmap : (l.map fun block =>
        (pageSize * (keptBlock consumerId sourceId x₁ block).used.toNat : ℤ)) =
        l.map fun block => (pageSize * (keptBlock consumerId sourceId x block).used.toNat : ℤ) :=
      List.map_congr_left fun block' hl => by rw [hkept block' hl]
    rw [hmap]
    simp [add_assoc]
  · rw [h'.source, h.source]
    have hmap : (l.map fun block =>
        (pageSize * (Swap.sourceBlock x₁.1 sourceId block).numSlots : ℤ)) =
        l.map fun block => (pageSize * (Swap.sourceBlock x.1 sourceId block).numSlots : ℤ) :=
      List.map_congr_left fun block' hl => by rw [(h.keptBlock_eq (hne block' hl)).2.1]
    rw [hmap]
    simp [sub_sub]
  · rw [h'.pages, h.pages]
    have haddress :
        p / blockPages ∈ l → getAddress x₁.1 consumerId p = getAddress x.1 consumerId p := by
      intro hl
      rw [getAddress_eq_slotAt, slotAt, (h.keptBlock_eq (hne _ hl)).1]
      rfl
    grind

lemma foldlM_mergeBlock (hne : consumerId ≠ sourceId) {l : List ℕ} (hl : l.Nodup) :
    ∀ {x : State P × AnonymousCache P × AnonymousCache P},
    (∀ p page, x.2.2.lookupPage p = some page → page.busy = false) →
    (∀ block i slot, slotAt x.1 sourceId block i = some slot → x.1.hasSlot slot = true) →
    ∃ y, l.foldlM (mergeBlock consumerId sourceId) x = some y ∧
      BlocksMerged consumerId sourceId l x y := by
  induction l with
  | nil =>
    intro x _ _
    refine ⟨x, rfl, ?_⟩
    constructor <;> simp
  | cons block l ih =>
    intro x hbusy hfile
    obtain ⟨x₁, hx₁, hm₁⟩ := mergeBlock_merged hne hbusy (hfile block)
    have hbusy₁ : ∀ p page, x₁.2.2.lookupPage p = some page → page.busy = false := by
      intro p page hp
      rw [hm₁.pages] at hp
      split at hp
      · cases hp
      · exact hbusy p page hp
    have hfile₁ : ∀ block i slot, slotAt x₁.1 sourceId block i = some slot →
        x₁.1.hasSlot slot = true := by
      intro block' i slot hi
      rw [slotAt, hm₁.sourceBlock] at hi
      split at hi
      · cases hi
      · rw [hm₁.state]
        exact hfile block' i slot hi
    obtain ⟨y, hy, hm⟩ := ih (List.nodup_cons.1 hl).2 hbusy₁ hfile₁
    refine ⟨y, ?_, hm₁.cons (List.nodup_cons.1 hl).1 hm⟩
    rw [List.foldlM_cons, hx₁]
    exact hy

end Blocks

/-! ## The pages -/

lemma foldl_insertPage_lookup (l : List (Sigma fun _ : ℕ => Page P)) :
    ∀ (x : AnonymousCache P × AnonymousCache P) (p : ℕ), (l.foldl (fun x e =>
      match x.1.lookupPage e.1 with
      | none => (x.1.insertPage e.1 e.2, x.2.removePage e.1)
      | some _ => x) x).1.lookupPage p = (x.1.lookupPage p).or (l.dlookup p) := by
  induction l with
  | nil =>
    intro x p
    simp
  | cons e l ih =>
    intro x p
    obtain ⟨q, page⟩ := e
    rw [List.foldl_cons, ih]
    by_cases hp : q = p
    · subst hp
      cases hq : x.1.lookupPage q with
      | none => simp [AnonymousCache.lookupPage, AnonymousCache.insertPage]
      | some page' => simp [hq]
    · rw [List.dlookup_cons_ne l ⟨q, page⟩ (Ne.symm hp)]
      cases hq : x.1.lookupPage q with
      | none => simp [AnonymousCache.lookupPage, AnonymousCache.insertPage, Ne.symm hp]
      | some page' => rfl

lemma foldl_movePage_lookup {l : List (Sigma fun _ : ℕ => Page P)} (hl : l.NodupKeys) :
    ∀ (x : AnonymousCache P × AnonymousCache P) (p : ℕ), (l.foldl (fun x e =>
      (x.1.removePage e.1, (x.2.removePage e.1).insertPage e.1 e.2)) x).2.lookupPage p =
        (l.dlookup p).or (x.2.lookupPage p) := by
  induction l with
  | nil =>
    intro x p
    simp
  | cons e l ih =>
    intro x p
    obtain ⟨q, page⟩ := e
    obtain ⟨hq, hl⟩ := List.nodupKeys_cons.1 hl
    rw [List.foldl_cons, ih hl]
    by_cases hp : q = p
    · subst hp
      rw [List.dlookup_eq_none.2 hq]
      simp [AnonymousCache.lookupPage, AnonymousCache.insertPage]
    · rw [List.dlookup_cons_ne l ⟨q, page⟩ (Ne.symm hp)]
      simp [AnonymousCache.lookupPage, AnonymousCache.insertPage, AnonymousCache.removePage,
        Ne.symm hp]

lemma mergePagesSmallerSource_lookup (consumer source : AnonymousCache P) (p : ℕ) :
    (mergePagesSmallerSource consumer source).1.lookupPage p =
      (consumer.lookupPage p).or (source.lookupPage p) :=
  foldl_insertPage_lookup source.pages.entries (consumer, source) p

lemma mergePagesSmallerConsumer_lookup (consumer source : AnonymousCache P) (p : ℕ) :
    (mergePagesSmallerConsumer consumer source).1.lookupPage p =
      (consumer.lookupPage p).or (source.lookupPage p) :=
  foldl_movePage_lookup consumer.pages.nodupKeys (consumer, source) p

lemma mergePages_lookup (smallerSource : Bool) (consumer source : AnonymousCache P) (p : ℕ) :
    (mergePages smallerSource consumer source).1.lookupPage p =
      (consumer.lookupPage p).or (source.lookupPage p) := by
  unfold mergePages
  split
  · exact mergePagesSmallerSource_lookup consumer source p
  · exact mergePagesSmallerConsumer_lookup consumer source p

/-! ## What is visible in a cache -/

/-- What a cache has for a page: the page itself, or the slot it is stored in. -/
inductive Content (P : Type) where
  | page (data : P)
  | slot (number : ℕ)

/-- The content a cache has at an index: the page if it is resident, else its swap slot. -/
def contentAt (s : State P) (id : ℕ) (c : AnonymousCache P) (p : ℕ) : Option (Content P) :=
  ((c.lookupPage p).map fun page => .page page.data).or ((getAddress s id p).map .slot)

def AnonymousCache.hasIndex (c : AnonymousCache P) (p : ℕ) : Prop :=
  c.virtualBase / pageSize ≤ p ∧ p * pageSize < c.virtualEnd

lemma mem_blocksOf {p : ℕ} (h : c.hasIndex p) : p / blockPages ∈ blocksOf c := by
  obtain ⟨hbase, hend⟩ := h
  simp only [blocksOf, List.mem_map, List.mem_range]
  refine ⟨p / blockPages - c.virtualBase / (pageSize * blockPages), ?_, ?_⟩
  · simp only [pageSize, blockPages] at *
    omega
  · simp only [pageSize, blockPages] at *
    omega

lemma nodup_blocksOf (c : AnonymousCache P) : (blocksOf c).Nodup := by
  exact List.nodup_range.map fun a b h => Nat.add_left_cancel h

/-- The tables of two caches that may be merged: pages and slots of the source are in its range,
the counts of allocated swap space are not zero when there are slots, and every slot of the source
belongs to one page only. -/
structure Mergeable (s : State P) (consumerId sourceId : ℕ) (consumer source : AnonymousCache P) :
    Prop where
  notBusy : ∀ p page, source.lookupPage p = some page → page.busy = false
  pages : ∀ p page, source.lookupPage p = some page → source.hasIndex p
  slots : ∀ p slot, getAddress s sourceId p = some slot → source.hasIndex p
  stored : ∀ p slot, getAddress s sourceId p = some slot →
    s.hasSlot slot = true ∧ s.allocated slot = true
  once :
    ∀ p q slot, getAddress s sourceId p = some slot → getAddress s sourceId q = some slot → p = q
  apart : ∀ p q slot, getAddress s sourceId p = some slot → getAddress s consumerId q ≠ some slot
  allocated : source.allocatedSwapSize = 0 → ∀ p, getAddress s sourceId p = none
  consumerAllocated : consumer.allocatedSwapSize = 0 → ∀ p, getAddress s consumerId p = none

/-- No block of the source is discarded that still has slots: its `used` must not be the number
of its shadowed slots as long as there are others. -/
def UsedRight (s : State P) (consumerId sourceId : ℕ) (consumer : AnonymousCache P) : Prop :=
  ∀ block sb, s.blocks.lookup (sourceId, block) = some sb →
    (∃ i, (sb.slots i).isSome ∧
      isShadowed consumer (s.blocks.lookup (consumerId, block)) block i = false) →
    sb.used ≠
      .ofNat (sb.numSlotsIn (isShadowed consumer (s.blocks.lookup (consumerId, block)) block))

/-- The consumer shows what was visible through it before, and a slot of the source is either
taken over or free. -/
structure MergedRight (s s' : State P) (consumerId sourceId : ℕ)
    (consumer source consumer' : AnonymousCache P) : Prop where
  view : ∀ p, contentAt s' consumerId consumer' p =
    (contentAt s consumerId consumer p).or (contentAt s sourceId source p)
  slots : ∀ p slot, getAddress s sourceId p = some slot →
    (getAddress s' consumerId p = some slot ↔ s'.allocated slot = true)

lemma mergeSwapPages_merged {consumerId sourceId : ℕ} {consumer source : AnonymousCache P}
    (hne : consumerId ≠ sourceId)
    (hbusy : ∀ p page, source.lookupPage p = some page → page.busy = false)
    (hstored : ∀ p slot, getAddress s sourceId p = some slot → s.hasSlot slot = true)
    (hempty : source.allocatedSwapSize = 0 → ∀ p, getAddress s sourceId p = none)
    (hempty' : consumer.allocatedSwapSize = 0 → ∀ p, getAddress s consumerId p = none) :
    ∃ y l, mergeSwapPages consumerId sourceId s consumer source = some y ∧ l.Nodup ∧
      BlocksMerged consumerId sourceId l (s, consumer, source) y ∧
      (∀ p, source.hasIndex p → ((getAddress s consumerId p).isSome ∨
        (getAddress s sourceId p).isSome) → p / blockPages ∈ l) := by
  unfold mergeSwapPages
  split
  · next hzero =>
    refine ⟨_, [], rfl, List.nodup_nil, by constructor <;> simp, fun p _ hp => ?_⟩
    rw [hempty hzero.1 p, hempty' hzero.2 p] at hp
    simp at hp
  · obtain ⟨y, hy, hm⟩ := foldlM_mergeBlock (x := (s, consumer, source)) hne
      (nodup_blocksOf source) hbusy fun block i slot hi =>
        hstored (pageOf block i) slot (by rwa [getAddress_pageOf])
    exact ⟨y, _, hy, nodup_blocksOf source, hm, fun p hp _ => mem_blocksOf hp⟩

section View

variable {consumerId sourceId : ℕ} {consumer source : AnonymousCache P} {l : List ℕ}
  {y : State P × AnonymousCache P × AnonymousCache P}

def hidesAt (s : State P) (consumerId : ℕ) (consumer : AnonymousCache P) (p : ℕ) : Bool :=
  (getAddress s consumerId p).isSome || (consumer.lookupPage p).isSome

lemma shadowedIn_entryOf (s : State P) (consumer source : AnonymousCache P) (p : ℕ) :
    shadowedIn consumerId (s, consumer, source) (p / blockPages) (entryOf p) =
      hidesAt s consumerId consumer p := by
  rw [shadowedIn, isShadowed, pageOf_entryOf]
  rfl

lemma sourceBlock_slots (s : State P) (p : ℕ) :
    (sourceBlock s sourceId (p / blockPages)).slots (entryOf p) = getAddress s sourceId p := by
  rw [sourceBlock, getAddress_eq_slotAt, slotAt]
  cases s.blocks.lookup (sourceId, p / blockPages) <;> rfl

lemma keptBlock_slots (s : State P) (consumer source : AnonymousCache P) (p : ℕ) :
    (keptBlock consumerId sourceId (s, consumer, source) (p / blockPages)).slots (entryOf p) =
      if hidesAt s consumerId consumer p then none else getAddress s sourceId p := by
  show (if shadowedIn consumerId (s, consumer, source) (p / blockPages) (entryOf p) then none
    else (sourceBlock s sourceId (p / blockPages)).slots (entryOf p)) = _
  rw [shadowedIn_entryOf, sourceBlock_slots]

lemma slotsOf_joinBlocks (b : Option SwapBlock) (sb : SwapBlock) (i : Fin blockPages) :
    slotsOf (joinBlocks b sb) i =
      if sb.used = 0 then slotsOf b i
      else if (sb.slots i).isSome then sb.slots i else slotsOf b i := by
  unfold joinBlocks
  split
  · rfl
  · cases b with
    | none => cases hi : sb.slots i <;> simp [slotsOf, hi]
    | some b => rfl

section

variable (h : BlocksMerged consumerId sourceId l (s, consumer, source) y)
include h

lemma BlocksMerged.address_of_hides {p : ℕ} (hp : hidesAt s consumerId consumer p = true) :
    getAddress y.1 consumerId p = getAddress s consumerId p := by
  rw [getAddress_eq_slotAt, slotAt, h.consumerBlock]
  split
  · have hnone : (keptBlock consumerId sourceId (s, consumer, source) (p / blockPages)).slots
        (entryOf p) = none := by
      rw [keptBlock_slots, if_pos hp]
    rw [slotsOf_joinBlocks, hnone]
    simp [getAddress_eq_slotAt, slotAt]
  · rfl

lemma BlocksMerged.address_of_not_hides {p : ℕ}
    (hp : hidesAt s consumerId consumer p = false) (hl : p / blockPages ∈ l) :
    getAddress y.1 consumerId p =
      if (keptBlock consumerId sourceId (s, consumer, source) (p / blockPages)).used = 0 then none
      else getAddress s sourceId p := by
  have hnone : slotsOf (s.blocks.lookup (consumerId, p / blockPages)) (entryOf p) = none := by
    rw [hidesAt, Bool.or_eq_false_iff] at hp
    simpa [getAddress_eq_slotAt, slotAt] using hp.1
  have hslot : (keptBlock consumerId sourceId (s, consumer, source) (p / blockPages)).slots
      (entryOf p) = getAddress s sourceId p := by
    rw [keptBlock_slots, if_neg (by simp [hp])]
  rw [getAddress_eq_slotAt, slotAt, h.consumerBlock, if_pos hl, slotsOf_joinBlocks, hslot, hnone]
  split
  · rfl
  · cases getAddress s sourceId p <;> rfl

lemma BlocksMerged.allocated_iff (hm : Mergeable s consumerId sourceId consumer source) {p slot : ℕ}
    (hp : getAddress s sourceId p = some slot) (hl : p / blockPages ∈ l) :
    y.1.allocated slot = !hidesAt s consumerId consumer p := by
  have hfrees :
    (l.any fun block => freesSlot consumerId sourceId (s, consumer, source) slot block) =
      hidesAt s consumerId consumer p := by
    rw [Bool.eq_iff_iff, List.any_eq_true]
    constructor
    · rintro ⟨block, -, hf⟩
      simp only [freesSlot, List.any_eq_true, Bool.and_eq_true, decide_eq_true_eq] at hf
      obtain ⟨i, -, hsh, hslot⟩ := hf
      have hpage : pageOf block i = p := by
        apply hm.once _ _ slot _ hp
        rw [← sourceBlock_slots, pageOf_div, entryOf_pageOf]
        exact hslot
      rw [← hpage, ← shadowedIn_entryOf s consumer source, pageOf_div, entryOf_pageOf]
      exact hsh
    · intro hh
      refine ⟨p / blockPages, hl, ?_⟩
      simp only [freesSlot, List.any_eq_true, Bool.and_eq_true, decide_eq_true_eq]
      refine ⟨entryOf p, List.mem_finRange _, ?_, ?_⟩
      · rw [shadowedIn_entryOf]
        exact hh
      · rw [sourceBlock_slots]
        exact hp
  rw [h.allocated, hfrees, (hm.stored p slot hp).2, Bool.and_true]

end

lemma usedRight_iff (s : State P) (consumerId sourceId : ℕ) (consumer source : AnonymousCache P) :
    UsedRight s consumerId sourceId consumer ↔ ∀ p slot, getAddress s sourceId p = some slot →
      hidesAt s consumerId consumer p = false →
      (keptBlock consumerId sourceId (s, consumer, source) (p / blockPages)).used ≠ 0 := by
  have hused : ∀ block sb, s.blocks.lookup (sourceId, block) = some sb →
      ((keptBlock consumerId sourceId (s, consumer, source) block).used = 0 ↔ sb.used = .ofNat
        (sb.numSlotsIn (isShadowed consumer (s.blocks.lookup (consumerId, block)) block))) := by
    intro block sb hsb
    have hkept : (keptBlock consumerId sourceId (s, consumer, source) block).used = sb.used -
        .ofNat (sb.numSlotsIn (isShadowed consumer (s.blocks.lookup (consumerId, block)) block)) := by
      rw [keptBlock, sourceBlock, hsb]
      rfl
    rw [hkept]
    constructor <;> intro h <;> grind
  constructor
  · intro h p slot hp hh
    cases hsb : s.blocks.lookup (sourceId, p / blockPages) with
    | none =>
      rw [getAddress_eq_slotAt, slotAt, hsb] at hp
      cases hp
    | some sb =>
      rw [ne_eq, hused _ sb hsb]
      apply h _ sb hsb
      refine ⟨entryOf p, ?_, ?_⟩
      · rw [getAddress_eq_slotAt, slotAt, hsb] at hp
        exact Option.isSome_iff_exists.2 ⟨slot, hp⟩
      · rw [← hh, ← shadowedIn_entryOf s consumer source]
        rfl
  · rintro h block sb hsb ⟨i, hi, hsh⟩
    obtain ⟨slot, hslot⟩ := Option.isSome_iff_exists.1 hi
    rw [ne_eq, ← hused _ sb hsb]
    have hpage := h (pageOf block i) slot
    rw [getAddress_pageOf, slotAt, hsb, pageOf_div] at hpage
    apply hpage hslot
    rw [← shadowedIn_entryOf s consumer source, pageOf_div, entryOf_pageOf]
    exact hsh

lemma mergedRight_iff (hne : consumerId ≠ sourceId)
    (hm : Mergeable s consumerId sourceId consumer source) :
    ∃ y, mergeSwapPages consumerId sourceId s consumer source = some y ∧
      ∀ smallerSource, MergedRight s y.1 consumerId sourceId consumer source
        (mergePages smallerSource y.2.1 y.2.2).1 ↔ UsedRight s consumerId sourceId consumer := by
  obtain ⟨y, l, hy, -, hb, hl⟩ := mergeSwapPages_merged hne hm.notBusy
    (fun p slot hp => (hm.stored p slot hp).1) hm.allocated hm.consumerAllocated
  refine ⟨y, hy, fun smallerSource => ?_⟩
  have hmem : ∀ {p slot}, getAddress s sourceId p = some slot → p / blockPages ∈ l := by
    intro p slot hp
    exact hl p (hm.slots p slot hp) (Or.inr (by rw [hp]; rfl))
  have hpages : ∀ p, (mergePages smallerSource y.2.1 y.2.2).1.lookupPage p =
      (consumer.lookupPage p).or (if p / blockPages ∈ l ∧ (getAddress s consumerId p).isSome then none
        else source.lookupPage p) := by
    intro p
    rw [mergePages_lookup, hb.pages, hb.consumer]
    rfl
  rw [usedRight_iff s consumerId sourceId consumer source]
  constructor
  · intro h p slot hp hh hdiscard
    have hslot := h.slots p slot hp
    rw [hb.address_of_not_hides hh (hmem hp), if_pos hdiscard, hb.allocated_iff hm hp (hmem hp),
      hh] at hslot
    simp at hslot
  · intro h
    constructor
    · intro p
      simp only [contentAt, hpages]
      cases hc : consumer.lookupPage p with
      | some page => simp
      | none =>
        cases ha : getAddress s consumerId p with
        | some slot =>
          -- a source page at this index has been removed with the block
          have hhides : hidesAt s consumerId consumer p = true := by simp [hidesAt, ha]
          have hremoved : (if p / blockPages ∈ l ∧ (some slot).isSome then none
              else source.lookupPage p) = none := by
            split
            · rfl
            · next hnot =>
              cases hsrc : source.lookupPage p with
              | none => rfl
              | some page =>
                have := hl p (hm.pages p page hsrc) (Or.inl (by rw [ha]; rfl))
                simp [this] at hnot
          rw [hremoved, hb.address_of_hides hhides, ha]
          simp
        | none =>
          have hhides : hidesAt s consumerId consumer p = false := by simp [hidesAt, ha, hc]
          cases hsrc : source.lookupPage p with
          | some page => simp
          | none =>
            have haddress : getAddress y.1 consumerId p = getAddress s sourceId p := by
              by_cases hin : p / blockPages ∈ l
              · rw [hb.address_of_not_hides hhides hin]
                cases hp : getAddress s sourceId p with
                | none => simp
                | some slot => rw [if_neg (h p slot hp hhides)]
              · cases hp : getAddress s sourceId p with
                | none =>
                  rw [getAddress_eq_slotAt, slotAt, hb.consumerBlock, if_neg hin]
                  exact ha
                | some slot => exact absurd (hmem hp) hin
            simp [haddress]
    · intro p slot hp
      rw [hb.allocated_iff hm hp (hmem hp)]
      cases hh : hidesAt s consumerId consumer p with
      | true =>
        rw [hb.address_of_hides hh]
        simp [hm.apart p p slot hp]
      | false =>
        rw [hb.address_of_not_hides hh (hmem hp), if_neg (h p slot hp hh), hp]
        simp

/-- `Merge()` keeps what is visible through the consumer, and takes over or frees every slot of the
source, if and only if no block is discarded too early. The pages are the same either way. -/
theorem merge_keeps_view (hne : consumerId ≠ sourceId)
    (hconsumer : s.caches.lookup consumerId = some consumer)
    (hsource : s.caches.lookup sourceId = some source)
    (hm : Mergeable s consumerId sourceId consumer source) :
    ∃ s' consumer', merge s consumerId sourceId = some s' ∧
      s'.caches.lookup consumerId = some consumer' ∧
      (MergedRight s s' consumerId sourceId consumer source consumer' ↔
        UsedRight s consumerId sourceId consumer) ∧
      ∀ (c₁ c₂ : AnonymousCache P) p, (mergePagesSmallerSource c₁ c₂).1.lookupPage p =
        (mergePagesSmallerConsumer c₁ c₂).1.lookupPage p := by
  have hframe := mergeCommitments_onlySpace s consumer source
  have hzero := mergeCommitments_source s consumer source
  obtain ⟨⟨s₁, consumer₁, source₁⟩, hx⟩ : ∃ x, mergeCommitments s consumer source = x := ⟨_, rfl⟩
  rw [hx] at hframe hzero
  dsimp only at hframe hzero
  -- the tables are still the same
  have hm₁ : Mergeable s₁ consumerId sourceId consumer₁ source₁ := by
    rw [hframe.state, hframe.cache, hzero]
    exact ⟨hm.notBusy, hm.pages, hm.slots, hm.stored, hm.once, hm.apart, hm.allocated,
      hm.consumerAllocated⟩
  obtain ⟨⟨s₂, consumer₂, source₂⟩, hy, hright⟩ := mergedRight_iff hne hm₁
  have hright := hright (decide (source₂.pageCount < consumer₂.pageCount))
  obtain ⟨⟨consumer₃, source₃⟩, hpages⟩ : ∃ x, mergePages
    (decide (source₂.pageCount < consumer₂.pageCount)) consumer₂ source₂ = x := ⟨_, rfl⟩
  rw [hpages] at hright
  refine ⟨(s₂.setCache sourceId source₃).setCache consumerId consumer₃, consumer₃, ?_, ?_, ?_, ?_⟩
  · simp only [merge, hconsumer, hsource, Option.bind_eq_bind, Option.bind_some, hx, hy, hpages]
  · exact AList.lookup_insert _
  · rw [hframe.state, hframe.cache, hzero] at hright
    constructor
    · intro h
      exact hright.1 ⟨h.view, h.slots⟩
    · intro h
      have hr := hright.2 h
      exact ⟨hr.view, hr.slots⟩
  · intro c₁ c₂ p
    rw [mergePagesSmallerSource_lookup, mergePagesSmallerConsumer_lookup]

end View

/-- Two pages have been swapped out in cache 1, and cache 0 hides the first one. -/
def swappedOut : State ℕ :=
  { initial ℕ with
    caches := (((∅ : Table ℕ (AnonymousCache ℕ)).insert 1
      { newCache ℕ false 0 0 0 8192 with allocatedSwapSize := 8192 }).insert 0
      ((newCache ℕ false 0 0 0 8192).insertPage 0 ⟨7, false⟩))
    blocks := (∅ : Table (ℕ × ℕ) SwapBlock).insert (1, 0)
      ⟨2, fun i => if i.val < 2 then some i.val else none⟩
    files := [⟨1, 0, 10⟩]
    allocated := fun slot => slot < 2 }

lemma lookup_swappedOut {id block : ℕ} {sb : SwapBlock}
    (h : swappedOut.blocks.lookup (id, block) = some sb) :
    id = 1 ∧ block = 0 ∧ sb = ⟨2, fun i => if i.val < 2 then some i.val else none⟩ := by
  by_cases hkey : (id, block) = (1, 0)
  · cases hkey
    exact ⟨rfl, rfl, (Option.some.inj h).symm⟩
  · rw [show swappedOut.blocks.lookup (id, block) = none from
      (AList.lookup_insert_ne hkey).trans (AList.lookup_empty _)] at h
    cases h

lemma getAddress_swappedOut {id p slot : ℕ} (h : getAddress swappedOut id p = some slot) :
    id = 1 ∧ p = slot ∧ slot < 2 := by
  obtain ⟨sb, hsb, h⟩ := Option.bind_eq_some_iff.1 h
  obtain ⟨rfl, hblock, rfl⟩ := lookup_swappedOut hsb
  obtain ⟨hlt, h⟩ := Option.ite_none_right_eq_some.1 h
  have hp := Nat.div_add_mod p blockPages
  rw [hblock] at hp
  simp only at hlt h
  cases h
  omega

/-- The first slot is freed, and the consumer takes over the second one. -/
theorem merge_keeps_view_two : ∃ s' consumer', merge swappedOut 0 1 = some s' ∧
    s'.caches.lookup 0 = some consumer' ∧
    MergedRight swappedOut s' 0 1 ((newCache ℕ false 0 0 0 8192).insertPage 0 ⟨7, false⟩)
      { newCache ℕ false 0 0 0 8192 with allocatedSwapSize := 8192 } consumer' := by
  have hm : Mergeable swappedOut 0 1 ((newCache ℕ false 0 0 0 8192).insertPage 0 ⟨7, false⟩)
      { newCache ℕ false 0 0 0 8192 with allocatedSwapSize := 8192 } := by
    refine ⟨fun p page h => ?_, fun p page h => ?_, fun p slot h => ?_, fun p slot h => ?_,
      fun p q slot h h' => ?_, fun p q slot _ h' => ?_, fun h => ?_, fun _ p => ?_⟩
    · cases h
    · cases h
    · obtain ⟨-, rfl, hlt⟩ := getAddress_swappedOut h
      exact ⟨Nat.zero_le _, by simp only [newCache, pageSize]; omega⟩
    · obtain ⟨-, rfl, hlt⟩ := getAddress_swappedOut h
      exact ⟨by simp [State.hasSlot, swappedOut]; omega, by simpa [swappedOut] using hlt⟩
    · obtain ⟨-, rfl, -⟩ := getAddress_swappedOut h
      exact (getAddress_swappedOut h').2.1.symm
    · exact absurd (getAddress_swappedOut h').1 (by decide)
    · cases h
    · cases h : getAddress swappedOut 0 p with
      | none => rfl
      | some slot => exact absurd (getAddress_swappedOut h).1 (by decide)
  have hused : UsedRight swappedOut 0 1
      ((newCache ℕ false 0 0 0 8192).insertPage 0 ⟨7, false⟩) := by
    rintro block sb hsb -
    obtain ⟨-, rfl, rfl⟩ := lookup_swappedOut hsb
    decide
  obtain ⟨s', consumer', hs', hl, hiff, -⟩ := merge_keeps_view (by decide) rfl rfl hm
  exact ⟨s', consumer', hs', hl, hiff.2 hused⟩

lemma notBusy_of_all (h : (c.pages.entries.all fun e => !e.2.busy) = true) {p : ℕ} {page : Page P}
    (hp : c.lookupPage p = some page) : page.busy = false := by
  have hmem := AList.mem_lookup_iff.1 (Option.mem_def.2 hp)
  simpa using List.all_eq_true.1 h _ hmem

/-- A page is swapped out in each of two caches, they are merged, and another cache hides one of
the two pages. -/
def mergedTwice : List (Call ℕ) :=
  [.fileAdd 1 40960, .create 0 false 0 0 0 8192, .create 1 false 0 0 0 8192,
    .create 2 false 0 0 0 8192, .commit 0 8192 true, .commit 1 8192 true,
    .writeAsync 0 0 3 true, .ioFinished ⟨0, 0, 3, true⟩ true,
    .writeAsync 1 1 4 true, .ioFinished ⟨1, 1, 4, true⟩ true, .merge 0 1, .destroy 1,
    .insertPage 2 0 ⟨7, false⟩]

/-- After the first merge, the number of used slots is too small, and the second one loses a
page. -/
theorem merge_loses_page : ¬ ∀ (h : History (State ℕ) (Call ℕ)) (s : State ℕ),
    Run step (fun _ _ => True) (initial ℕ) h s →
    ∀ (consumerId sourceId : ℕ) (consumer source : AnonymousCache ℕ), consumerId ≠ sourceId →
    s.caches.lookup consumerId = some consumer → s.caches.lookup sourceId = some source →
    (∀ p page, consumer.lookupPage p = some page → page.busy = false) →
    (∀ p page, source.lookupPage p = some page → page.busy = false) →
    ∀ s' consumer', merge s consumerId sourceId = some s' →
      s'.caches.lookup consumerId = some consumer' →
      MergedRight s s' consumerId sourceId consumer source consumer' := by
  intro hclaim
  obtain ⟨h, hr, -⟩ := @run_outcome _ _ (fun _ _ => True) step (fun _ _ => true)
    (fun _ _ _ => trivial) (initial ℕ) mergedTwice (fun _ => true) (by decide)
  obtain ⟨consumer, hconsumer⟩ := Option.isSome_iff_exists.1 (show
    ((outcome step (initial ℕ) mergedTwice).caches.lookup 2).isSome = true by decide)
  obtain ⟨source, hsource⟩ := Option.isSome_iff_exists.1 (show
    ((outcome step (initial ℕ) mergedTwice).caches.lookup 0).isSome = true by decide)
  have hbusy : (((outcome step (initial ℕ) mergedTwice).caches.lookup 2).map fun c =>
      c.pages.entries.all fun e => !e.2.busy) = some true := by decide
  have hbusy' : (((outcome step (initial ℕ) mergedTwice).caches.lookup 0).map fun c =>
      c.pages.entries.all fun e => !e.2.busy) = some true := by decide
  rw [hconsumer, Option.map_some, Option.some.injEq] at hbusy
  rw [hsource, Option.map_some, Option.some.injEq] at hbusy'
  -- the second page is in slot 4, which stays allocated, but the consumer does not have it
  have hbefore : getAddress (outcome step (initial ℕ) mergedTwice) 0 1 = some 4 := by decide
  have hafter : ((merge (outcome step (initial ℕ) mergedTwice) 2 0).map fun s' =>
      ((s'.caches.lookup 2).isSome, getAddress s' 2 1, s'.allocated 4)) =
      some (true, none, true) := by decide
  obtain ⟨s', hs', he⟩ := Option.map_eq_some_iff.1 hafter
  simp only [Prod.mk.injEq] at he
  obtain ⟨consumer', hconsumer'⟩ := Option.isSome_iff_exists.1 he.1
  have hslots := (hclaim h _ hr 2 0 consumer source (by decide) hconsumer hsource
    (fun p page => notBusy_of_all hbusy) (fun p page => notBusy_of_all hbusy')
    s' consumer' hs' hconsumer').slots 1 4 hbefore
  rw [he.2.1, he.2.2] at hslots
  simp at hslots

end Haiku.Swap
