import Haiku.Swap.BookTheorems

/-!
# Merging keeps the books

The slots of the source that are not hidden by the consumer change hands. `used` of a block of
the consumer is not adjusted when slots are copied into it, so this must not happen
(`MergeOk.noCopy`).
-/

namespace Haiku.Swap

open Lib

variable {P : Type} {s s' : State P} {consumer source : AnonymousCache P}
  {consumerId sourceId : ℕ}

/-! ## Counting the slots of several blocks -/

lemma pageOf_injective (block : ℕ) : Function.Injective (pageOf block) := by
  intro i j h
  rw [← entryOf_pageOf block i, h, entryOf_pageOf]

lemma ncard_pages (b : SwapBlock) (block : ℕ) :
    {p | p / blockPages = block ∧ (b.slots (entryOf p)).isSome = true}.Finite ∧
      {p | p / blockPages = block ∧ (b.slots (entryOf p)).isSome = true}.ncard = b.numSlots := by
  have hset : {p | p / blockPages = block ∧ (b.slots (entryOf p)).isSome = true} =
      (((List.finRange blockPages).filter fun i => (b.slots i).isSome).toFinset.image
        (pageOf block) : Finset ℕ) := by
    ext p
    simp only [Set.mem_ofPred_eq, Finset.coe_image, Set.mem_image, Finset.mem_coe, List.mem_toFinset,
      List.mem_filter, List.mem_finRange, true_and]
    constructor
    · rintro ⟨rfl, hp⟩
      exact ⟨entryOf p, hp, pageOf_entryOf p⟩
    · rintro ⟨i, hi, rfl⟩
      rw [pageOf_div, entryOf_pageOf]
      exact ⟨rfl, hi⟩
  rw [hset]
  refine ⟨Finset.finite_toSet _, ?_⟩
  rw [Set.ncard_coe_finset, Finset.card_image_of_injective _ (pageOf_injective block),
    List.toFinset_card_of_nodup ((List.nodup_finRange _).filter _), ← List.countP_eq_length_filter]
  rfl

lemma sum_numSlots (b : ℕ → SwapBlock) {l : List ℕ} (hl : l.Nodup) :
    {p | p / blockPages ∈ l ∧ ((b (p / blockPages)).slots (entryOf p)).isSome = true}.Finite ∧
      (l.map fun block => (b block).numSlots).sum =
        {p | p / blockPages ∈ l ∧ ((b (p / blockPages)).slots (entryOf p)).isSome = true}.ncard := by
  induction l with
  | nil => simp
  | cons block l ih =>
    obtain ⟨hblock, hl⟩ := List.nodup_cons.1 hl
    obtain ⟨hfin, hsum⟩ := ih hl
    obtain ⟨hfin', hcard⟩ := ncard_pages (b block) block
    have hset : {p | p / blockPages ∈ block :: l ∧
        ((b (p / blockPages)).slots (entryOf p)).isSome = true} =
        {p | p / blockPages = block ∧ ((b block).slots (entryOf p)).isSome = true} ∪
        {p | p / blockPages ∈ l ∧ ((b (p / blockPages)).slots (entryOf p)).isSome = true} := by
      ext p
      simp only [Set.mem_ofPred_eq, Set.mem_union, List.mem_cons]
      constructor
      · rintro ⟨rfl | hp, hs⟩
        · exact Or.inl ⟨rfl, hs⟩
        · exact Or.inr ⟨hp, hs⟩
      · rintro (⟨rfl, hs⟩ | ⟨hp, hs⟩)
        · exact ⟨Or.inl rfl, hs⟩
        · exact ⟨Or.inr hp, hs⟩
    have hdisj : Disjoint
        {p | p / blockPages = block ∧ ((b block).slots (entryOf p)).isSome = true}
        {p | p / blockPages ∈ l ∧ ((b (p / blockPages)).slots (entryOf p)).isSome = true} := by
      rw [Set.disjoint_left]
      rintro p ⟨rfl, -⟩ ⟨hp, -⟩
      exact hblock hp
    rw [hset]
    refine ⟨hfin'.union hfin, ?_⟩
    rw [Set.ncard_union_eq hdisj hfin' hfin, hcard, ← hsum, List.map_cons, List.sum_cons]

lemma used_keep {b : SwapBlock} {p : Fin blockPages → Bool} (hb : b.used = .ofNat b.numSlots) :
    (b.keep p).used = .ofNat (b.keep p).numSlots := by
  have hsum : b.numSlots = b.numSlotsIn p + (b.keep p).numSlots := by
    have hor : b.numSlots = (List.finRange blockPages).countP fun i =>
        (p i && (b.slots i).isSome) || ((b.keep p).slots i).isSome := by
      unfold SwapBlock.numSlots
      congr 1
      funext i
      cases hp : p i <;> simp [SwapBlock.keep, hp]
    rw [hor, countP_or_of_disjoint]
    · rfl
    · intro i _ hi
      rw [Bool.and_eq_true] at hi
      simp [SwapBlock.keep, hi.1]
  show b.used - .ofNat (b.numSlotsIn p) = _
  rw [hb, hsum, UInt32.ofNat_add]
  grind

/-! ## The slots after merging -/

/-- When two caches can be merged: no page of the source is busy or being written, the slots that
change hands are in the range of the consumer, and no slots are copied into a block the consumer
has already. -/
structure MergeOk (s : State P) (consumerId sourceId : ℕ) (consumer source : AnonymousCache P) :
    Prop where
  notBusy : ∀ p page, source.lookupPage p = some page → page.busy = false
  notPending : ∀ w ∈ s.pending, w.cache ≠ sourceId
  inRange : ∀ p, (getAddress s sourceId p).isSome = true →
    hidesAt s consumerId consumer p = false → consumer.hasIndex p
  noCopy : ∀ p q, p / blockPages = q / blockPages → (getAddress s sourceId p).isSome = true →
    (getAddress s consumerId q).isSome = true → hidesAt s consumerId consumer p = true

section Merged

variable {l : List ℕ} {y : State P × AnonymousCache P × AnonymousCache P}

lemma used_keptBlock (hb : BlocksOk s) (block : ℕ) :
    (keptBlock consumerId sourceId (s, consumer, source) block).used =
      .ofNat (keptBlock consumerId sourceId (s, consumer, source) block).numSlots := by
  apply used_keep
  show (sourceBlock s sourceId block).used = _
  rw [sourceBlock]
  cases hl : s.blocks.lookup (sourceId, block) with
  | none =>
    show (0 : UInt32) = .ofNat emptyBlock.numSlots
    rw [numSlots_emptyBlock]
    rfl
  | some b => exact (hb _ b hl).used

lemma keptBlock_unused_iff (hb : BlocksOk s) (block : ℕ) :
    (keptBlock consumerId sourceId (s, consumer, source) block).used = 0 ↔
      ∀ i, (keptBlock consumerId sourceId (s, consumer, source) block).slots i = none := by
  rw [used_keptBlock hb, ofNat_eq_zero_iff (numSlots_le _), SwapBlock.numSlots, List.countP_eq_zero]
  simp

lemma BlocksMerged.blocksOk (h : BlocksMerged consumerId sourceId l (s, consumer, source) y)
    (hb : BlocksOk s) (hok : MergeOk s consumerId sourceId consumer source) : BlocksOk y.1 := by
  rintro ⟨id, block⟩ b hl
  by_cases hid : id = consumerId
  · subst hid
    rw [h.consumerBlock] at hl
    split at hl
    · by_cases hused : (keptBlock id sourceId (s, consumer, source) block).used = 0
      · rw [joinBlocks_of_unused hused] at hl
        exact hb _ b hl
      · -- the consumer has no block there
        have hnone : s.blocks.lookup (id, block) = none := by
          cases hl₀ : s.blocks.lookup (id, block) with
          | none => rfl
          | some b₀ =>
            exfalso
            apply hused
            rw [keptBlock_unused_iff hb]
            obtain ⟨i₀, -, hi₀⟩ := List.countP_pos_iff.1 (hb _ b₀ hl₀).pos
            intro i
            have hkept : (keptBlock id sourceId (s, consumer, source)
                (pageOf block i / blockPages)).slots (entryOf (pageOf block i)) = _ :=
              keptBlock_slots s consumer source (pageOf block i)
            rw [pageOf_div, entryOf_pageOf] at hkept
            rw [hkept]
            split
            · rfl
            · next hhides =>
              cases haddress : getAddress s sourceId (pageOf block i) with
              | none => rfl
              | some slot =>
                exfalso
                apply hhides
                apply hok.noCopy _ (pageOf block i₀) (by rw [pageOf_div, pageOf_div])
                · rw [haddress]
                  rfl
                · rw [getAddress_pageOf, slotAt, hl₀]
                  exact hi₀
        rw [hnone, joinBlocks, if_neg hused] at hl
        cases hl
        refine ⟨used_keptBlock hb block, ?_⟩
        by_contra hlt
        apply hused
        have hzero : (keptBlock id sourceId (s, consumer, source) block).numSlots = 0 := by
          rw [Option.elim_none] at hlt
          omega
        rw [used_keptBlock hb, hzero]
        rfl
    · exact hb _ b hl
  · by_cases hid' : id = sourceId
    · subst hid'
      rw [h.sourceBlock] at hl
      split at hl
      · cases hl
      · exact hb _ b hl
    · rw [h.others id block hid hid'] at hl
      exact hb _ b hl

/-- Where the slots are after merging. -/
structure Transferred (s s' : State P) (consumerId sourceId : ℕ) (consumer : AnonymousCache P) :
    Prop where
  consumer : ∀ p, getAddress s' consumerId p =
    if hidesAt s consumerId consumer p then getAddress s consumerId p else getAddress s sourceId p
  source : ∀ p, getAddress s' sourceId p = none
  others : ∀ id p, id ≠ consumerId → id ≠ sourceId → getAddress s' id p = getAddress s id p

lemma BlocksMerged.transferred (h : BlocksMerged consumerId sourceId l (s, consumer, source) y)
    (hb : BlocksOk s)
    (hl : ∀ p slot, getAddress s sourceId p = some slot → p / blockPages ∈ l) :
    Transferred s y.1 consumerId sourceId consumer where
  consumer p := by
    cases hhides : hidesAt s consumerId consumer p with
    | true => rw [if_pos rfl, h.address_of_hides hhides]
    | false =>
      rw [if_neg (by simp)]
      by_cases hp : p / blockPages ∈ l
      · rw [h.address_of_not_hides hhides hp]
        split
        · next hused =>
          rw [keptBlock_unused_iff hb] at hused
          have hslot := hused (entryOf p)
          rw [keptBlock_slots, hhides, if_neg (by simp)] at hslot
          exact hslot.symm
        · rfl
      · rw [getAddress_eq_slotAt, slotAt, h.consumerBlock, if_neg hp]
        have hnone : getAddress s consumerId p = none := by
          rw [hidesAt, Bool.or_eq_false_iff] at hhides
          simpa using hhides.1
        cases haddress : getAddress s sourceId p with
        | none => exact hnone
        | some slot => exact absurd (hl p slot haddress) hp
  source p := by
    rw [getAddress, h.sourceBlock]
    split
    · rfl
    · next hp =>
      cases haddress : getAddress s sourceId p with
      | none => exact haddress
      | some slot => exact absurd (hl p slot haddress) hp
  others id p hid hid' := by rw [getAddress, h.others id _ hid hid', getAddress]

/-! ## The ledger after merging -/

/-- The slots of the source go to the consumer where it has none. -/
def transfer (f : ℕ → ℕ → Option ℕ) (consumerId sourceId : ℕ) (hides : ℕ → Bool) (id p : ℕ) :
    Option ℕ :=
  if id = sourceId then none
  else if id = consumerId ∧ hides p = false then f sourceId p else f id p

section Transfer

variable {f : ℕ → ℕ → Option ℕ} {hides : ℕ → Bool} {x : ℕ → ℤ}

lemma transfer_eq_some {id p slot : ℕ} (h : transfer f consumerId sourceId hides id p = some slot) :
    id ≠ sourceId ∧ (id = consumerId ∧ hides p = false ∧ f sourceId p = some slot ∨
      f id p = some slot) := by
  unfold transfer at h
  split at h
  · cases h
  · next hid =>
    split at h
    · next hc => exact ⟨hid, Or.inl ⟨hc.1, hc.2, h⟩⟩
    · exact ⟨hid, Or.inr h⟩

lemma transfer_once (h : Ledger f s x) : ∀ id p id' p' slot,
    transfer f consumerId sourceId hides id p = some slot →
    transfer f consumerId sourceId hides id' p' = some slot → id = id' ∧ p = p' := by
  intro id p id' p' slot hp hp'
  obtain ⟨hid, hp⟩ := transfer_eq_some hp
  obtain ⟨hid', hp'⟩ := transfer_eq_some hp'
  rcases hp with ⟨hc, -, hp⟩ | hp
  · rcases hp' with ⟨hc', -, hp'⟩ | hp'
    · exact ⟨hc.trans hc'.symm, (h.once _ _ _ _ _ hp hp').2⟩
    · exact absurd (h.once _ _ _ _ _ hp hp').1.symm hid'
  · rcases hp' with ⟨hc', -, hp'⟩ | hp'
    · exact absurd (h.once _ _ _ _ _ hp hp').1 hid
    · exact h.once _ _ _ _ _ hp hp'

lemma heldPages_transfer (hne : consumerId ≠ sourceId)
    (hhides : ∀ p, (f consumerId p).isSome = true → hides p = true) :
    heldPages (transfer f consumerId sourceId hides) consumerId =
      heldPages f consumerId ∪ {p | hides p = false ∧ (f sourceId p).isSome = true} := by
  ext p
  simp only [heldPages, transfer, Set.mem_ofPred_eq, Set.mem_union, if_neg hne, true_and]
  cases hp : hides p with
  | true => simp
  | false =>
    have hnone : (f consumerId p).isSome = false := by
      rw [← Bool.not_eq_true]
      intro hsome
      rw [hhides p hsome] at hp
      cases hp
    simp [hnone]

lemma heldPages_transfer_source :
    heldPages (transfer f consumerId sourceId hides) sourceId = ∅ := by
  ext p
  simp [heldPages, transfer]

lemma heldPages_transfer_of_ne {id : ℕ} (hid : id ≠ consumerId) (hid' : id ≠ sourceId) :
    heldPages (transfer f consumerId sourceId hides) id = heldPages f id := by
  ext p
  simp [heldPages, transfer, hid, hid']

end Transfer

lemma MergeOk.held_source (hok : MergeOk s consumerId sourceId consumer source) (p : ℕ) :
    held s sourceId p = getAddress s sourceId p := by
  rw [held]
  cases hp : pendingSlot s sourceId p with
  | none => rw [Option.or_none]
  | some slot =>
    obtain ⟨w, hw, -, hcache, -⟩ := pendingSlot_eq_some hp
    exact absurd hcache (hok.notPending w hw)

lemma Books.hides_of_held (h : Books s 0) {c : AnonymousCache P}
    (hl : s.caches.lookup consumerId = some c) (hpages : consumer.pages = c.pages) {p : ℕ}
    (hp : (held s consumerId p).isSome = true) : hidesAt s consumerId consumer p = true := by
  rw [held, Option.isSome_or, Bool.or_eq_true] at hp
  rw [hidesAt, Bool.or_eq_true]
  refine hp.imp_right fun hpend => ?_
  obtain ⟨slot, hslot⟩ := Option.isSome_iff_exists.1 hpend
  obtain ⟨w, hw, -, hcache, hindex, -⟩ := pendingSlot_eq_some hslot
  obtain ⟨c', hl', hres⟩ := h.resident w hw
  rw [hcache, hl] at hl'
  cases hl'
  rw [AnonymousCache.lookupPage, hpages, ← hindex]
  exact hres

lemma Transferred.held (ht : Transferred s s' consumerId sourceId consumer) (h : Books s 0)
    (hok : MergeOk s consumerId sourceId consumer source) {c : AnonymousCache P}
    (hl : s.caches.lookup consumerId = some c) (hpages : consumer.pages = c.pages)
    (hpending : s'.pending = s.pending) :
    held s' = transfer (Swap.held s) consumerId sourceId (hidesAt s consumerId consumer) := by
  funext id p
  have hsame : ∀ id, pendingSlot s' id p = pendingSlot s id p := by
    intro id
    rw [pendingSlot, hpending, pendingSlot]
  rw [Swap.held, hsame, transfer]
  split
  · next hid =>
    rw [hid, ht.source p, Option.none_or]
    cases hp : pendingSlot s sourceId p with
    | none => rfl
    | some slot =>
      obtain ⟨w, hw, -, hcache, -⟩ := pendingSlot_eq_some hp
      exact absurd hcache (hok.notPending w hw)
  · next hid =>
    split
    · next hc =>
      have hnone : Swap.held s consumerId p = none := by
        cases hp : Swap.held s consumerId p with
        | none => rfl
        | some slot =>
          have hhides := h.hides_of_held hl hpages (p := p) (by rw [hp]; rfl)
          rw [hc.2] at hhides
          cases hhides
      rw [hc.1, ht.consumer p, hc.2, if_neg (by simp), (Option.or_eq_none_iff.1 hnone).2,
        Option.or_none, hok.held_source]
    · next hc =>
      by_cases hid' : id = consumerId
      · have hhides : hidesAt s consumerId consumer p = true := by
          cases hp : hidesAt s consumerId consumer p with
          | true => rfl
          | false => exact absurd ⟨hid', hp⟩ hc
        rw [hid', ht.consumer p, hhides, if_pos rfl]
        rfl
      · rw [ht.others id p hid' hid]
        rfl

lemma BlocksMerged.allocated_of_held
    (hm : BlocksMerged consumerId sourceId l (s, consumer, source) y) (h : Books s 0) {id p slot : ℕ}
    (hp : transfer (Swap.held s) consumerId sourceId (hidesAt s consumerId consumer) id p = some slot) :
    y.1.allocated slot = true ∧ y.1.hasSlot slot = true := by
  obtain ⟨hid, hcases⟩ := transfer_eq_some hp
  have hstored : s.allocated slot = true ∧ s.hasSlot slot = true := by
    rcases hcases with ⟨-, -, hp⟩ | hp
    · exact h.ledger.stored _ _ _ hp
    · exact h.ledger.stored _ _ _ hp
  refine ⟨?_, by rw [hm.state]; exact hstored.2⟩
  rw [hm.allocated, hstored.1, Bool.and_true, Bool.not_eq_true', ← Bool.not_eq_true,
    List.any_eq_true]
  -- only slots of hidden pages are freed
  rintro ⟨block, -, hf⟩
  simp only [freesSlot, List.any_eq_true, Bool.and_eq_true, decide_eq_true_eq] at hf
  obtain ⟨i, -, hsh, hslot⟩ := hf
  have haddress : getAddress s sourceId (pageOf block i) = some slot := by
    rw [← sourceBlock_slots, pageOf_div, entryOf_pageOf]
    exact hslot
  have hhides : hidesAt s consumerId consumer (pageOf block i) = true := by
    rw [← shadowedIn_entryOf s consumer source, pageOf_div, entryOf_pageOf]
    exact hsh
  rcases hcases with ⟨-, hnot, hp⟩ | hp
  · rw [(h.ledger.once _ _ _ _ _ hp (held_of_getAddress haddress)).2, hhides] at hnot
    cases hnot
  · exact hid (h.ledger.once _ _ _ _ _ hp (held_of_getAddress haddress)).1

lemma sum_mul_pageSize (g : ℕ → ℕ) (l : List ℕ) :
    (l.map fun block => (pageSize * g block : ℤ)).sum = pageSize * ((l.map g).sum : ℕ) := by
  induction l with
  | nil => rfl
  | cons b l ih =>
    rw [List.map_cons, List.sum_cons, ih, List.map_cons, List.sum_cons]
    push_cast
    ring

section

variable (hm : BlocksMerged consumerId sourceId l (s, consumer, source) y)
include hm

lemma BlocksMerged.consumer_count (hnodup : l.Nodup)
    (h : Books s 0) (hok : MergeOk s consumerId sourceId consumer source)
    (hl : ∀ p slot, getAddress s sourceId p = some slot → p / blockPages ∈ l) :
    y.2.1.allocatedSwapSize = consumer.allocatedSwapSize + pageSize *
      ({p | hidesAt s consumerId consumer p = false ∧ (held s sourceId p).isSome = true}.ncard : ℤ) := by
  have hused : ∀ block, (keptBlock consumerId sourceId (s, consumer, source) block).used.toNat =
      (keptBlock consumerId sourceId (s, consumer, source) block).numSlots := by
    intro block
    have hle := numSlots_le (keptBlock consumerId sourceId (s, consumer, source) block)
    rw [used_keptBlock h.blocks]
    exact UInt32.toNat_ofNat_of_lt' (Nat.lt_of_le_of_lt hle (by decide))
  have hset : {p | hidesAt s consumerId consumer p = false ∧ (held s sourceId p).isSome = true} =
      {p | p / blockPages ∈ l ∧ ((keptBlock consumerId sourceId (s, consumer, source)
        (p / blockPages)).slots (entryOf p)).isSome = true} := by
    ext p
    simp only [Set.mem_ofPred_eq, keptBlock_slots, hok.held_source]
    cases hhides : hidesAt s consumerId consumer p with
    | true => simp
    | false =>
      cases haddress : getAddress s sourceId p with
      | none => simp
      | some slot => simp [hl p slot haddress]
  rw [hset, ← (sum_numSlots (keptBlock consumerId sourceId (s, consumer, source)) hnodup).2,
    ← sum_mul_pageSize, hm.consumer]
  simp only [hused]

lemma BlocksMerged.source_count (hnodup : l.Nodup)
    (hok : MergeOk s consumerId sourceId consumer source)
    (hl : ∀ p slot, getAddress s sourceId p = some slot → p / blockPages ∈ l)
    (hcount : source.allocatedSwapSize = pageSize * ((heldPages (held s) sourceId).ncard : ℤ)) :
    y.2.2.allocatedSwapSize = 0 := by
  have hset : heldPages (held s) sourceId =
      {p | p / blockPages ∈ l ∧ ((Swap.sourceBlock s sourceId (p / blockPages)).slots
        (entryOf p)).isSome = true} := by
    ext p
    simp only [heldPages, Set.mem_ofPred_eq, sourceBlock_slots, hok.held_source]
    cases haddress : getAddress s sourceId p with
    | none => simp
    | some slot => simp [hl p slot haddress]
  rw [hm.source]
  show source.allocatedSwapSize - _ = 0
  rw [hcount, hset, ← (sum_numSlots (Swap.sourceBlock s sourceId) hnodup).2, ← sum_mul_pageSize]
  exact sub_self _

end

end Merged

def takenPages (s : State P) (consumerId sourceId : ℕ) (consumer : AnonymousCache P) : Set ℕ :=
  {p | hidesAt s consumerId consumer p = false ∧ (held s sourceId p).isSome = true}

lemma Books.transfer {s₂ : State P} {c d c' d' : AnonymousCache P} (h : Books s 0)
    (hne : consumerId ≠ sourceId) (hlc : s.caches.lookup consumerId = some c)
    (hls : s.caches.lookup sourceId = some d) (hok : MergeOk s consumerId sourceId consumer source)
    (hpages : consumer.pages = c.pages)
    (hindex : ∀ p, consumer.hasIndex p → c.hasIndex p)
    (hblocks : BlocksOk s₂) (ht : Transferred s s₂ consumerId sourceId consumer)
    (hcaches : s₂.caches = s.caches) (hpending : s₂.pending = s.pending)
    (hstored : ∀ id p slot, Swap.transfer (held s) consumerId sourceId
      (hidesAt s consumerId consumer) id p = some slot →
      s₂.allocated slot = true ∧ s₂.hasSlot slot = true)
    (hrange : c'.virtualBase = c.virtualBase ∧ c'.virtualEnd = c.virtualEnd)
    (hres : ∀ p, (consumer.lookupPage p).isSome = true → (c'.lookupPage p).isSome = true)
    (hcount : c'.allocatedSwapSize = c.allocatedSwapSize +
      pageSize * ((takenPages s consumerId sourceId consumer).ncard : ℤ))
    (hcount' : d'.allocatedSwapSize = 0)
    (hle : min (c.committedSwapSize + d.committedSwapSize) (c.virtualEnd - c.virtualBase) ≤
      c'.committedSwapSize)
    (hle' : 0 ≤ d'.committedSwapSize) (hbase : c.virtualBase ≤ c.virtualEnd)
    (haligned : pageSize ∣ d'.virtualBase ∧ pageSize ∣ d'.virtualEnd) :
    Books ((s₂.setCache sourceId d').setCache consumerId c') 0 := by
  have hheld := ht.held h hok hlc hpages hpending
  have hlookup : ∀ {id c''}, s.caches.lookup id = some c'' → id ≠ consumerId → id ≠ sourceId →
      ((s₂.setCache sourceId d').setCache consumerId c').caches.lookup id = some c'' := by
    intro id c'' hl hid hid'
    refine (AList.lookup_insert_ne hid).trans ((AList.lookup_insert_ne hid').trans ?_)
    rw [hcaches]
    exact hl
  have hcases : ∀ {id c''},
      ((s₂.setCache sourceId d').setCache consumerId c').caches.lookup id = some c'' →
      id = consumerId ∧ c'' = c' ∨ id ≠ consumerId ∧ id = sourceId ∧ c'' = d' ∨
        id ≠ consumerId ∧ id ≠ sourceId ∧ s.caches.lookup id = some c'' := by
    intro id c'' hl
    rcases Table.lookup_insert_cases hl with hc | ⟨hid, hl⟩
    · exact Or.inl hc
    · rcases Table.lookup_insert_cases hl with hd | ⟨hid', hl⟩
      · exact Or.inr (Or.inl ⟨hid, hd⟩)
      · rw [hcaches] at hl
        exact Or.inr (Or.inr ⟨hid, hid', hl⟩)
  have hheld' : held ((s₂.setCache sourceId d').setCache consumerId c') =
      Swap.transfer (held s) consumerId sourceId (hidesAt s consumerId consumer) := hheld
  -- what the consumer holds afterwards
  have hhides : ∀ p, (held s consumerId p).isSome = true → hidesAt s consumerId consumer p = true :=
    fun p hp => h.hides_of_held hlc hpages hp
  have hset := heldPages_transfer hne hhides
  have hmono : takenPages s consumerId sourceId consumer ⊆ heldPages (held s) sourceId :=
    fun p hp => hp.2
  have hfin := (h.ledger.finite sourceId).subset hmono
  have hdisj :
    Disjoint (heldPages (held s) consumerId) (takenPages s consumerId sourceId consumer) := by
    rw [Set.disjoint_left]
    intro p hp hp'
    have hnot := hp'.1
    rw [hhides p hp] at hnot
    cases hnot
  have hcard : (heldPages (Swap.transfer (held s) consumerId sourceId
      (hidesAt s consumerId consumer)) consumerId).ncard =
      (heldPages (held s) consumerId).ncard + (takenPages s consumerId sourceId consumer).ncard := by
    rw [hset]
    exact Set.ncard_union_eq hdisj (h.ledger.finite consumerId) hfin
  have hcountc := h.ledger.count consumerId c hlc
  have hcounts := h.ledger.count sourceId d hls
  simp only [Pi.zero_apply, add_zero] at hcountc hcounts
  have hinRange : ∀ p slot, Swap.transfer (held s) consumerId sourceId
      (hidesAt s consumerId consumer) consumerId p = some slot → c.hasIndex p := by
    intro p slot hp
    rcases (transfer_eq_some hp).2 with ⟨-, hnot, hp⟩ | hp
    · rw [hok.held_source] at hp
      exact hindex p (hok.inRange p (by rw [hp]; rfl) hnot)
    · obtain ⟨c'', hl, hi⟩ := h.ledger.inRange _ _ _ hp
      rw [hlc] at hl
      cases hl
      exact hi
  refine ⟨hblocks, ?_, ?_, ?_, ?_, ?_, ?_⟩
  · rw [hheld']
    refine ⟨transfer_once h.ledger, hstored, ?_, ?_⟩
    · intro id p slot hp
      by_cases hid : id = consumerId
      · subst hid
        have hi := hinRange p slot hp
        refine ⟨c', AList.lookup_insert _, ?_⟩
        rw [AnonymousCache.hasIndex, hrange.1, hrange.2]
        exact hi
      · obtain ⟨hid', hp⟩ := transfer_eq_some hp
        rcases hp with ⟨hc, -⟩ | hp
        · exact absurd hc hid
        · obtain ⟨c'', hl, hi⟩ := h.ledger.inRange _ _ _ hp
          exact ⟨c'', hlookup hl hid hid', hi⟩
    · intro id c'' hl
      rcases hcases hl with ⟨rfl, rfl⟩ | ⟨-, rfl, rfl⟩ | ⟨hid, hid', hl⟩
      · rw [hcount, hcard, hcountc, Pi.zero_apply]
        push_cast
        ring
      · rw [hcount', heldPages_transfer_source, Set.ncard_empty]
        rfl
      · rw [heldPages_transfer_of_ne hid hid']
        exact h.ledger.count id c'' hl
  · intro w hw hnew
    have hw : w ∈ s.pending := hpending ▸ hw
    show getAddress s₂ w.cache w.pageIndex = none
    by_cases hid : w.cache = consumerId
    · have hp : hidesAt s consumerId consumer w.pageIndex = true := by
        apply hhides
        rw [← hid, Swap.held, h.apart w hw hnew, h.pendingSlot_of_mem hw hnew]
        rfl
      rw [hid, ht.consumer, hp, if_pos rfl, ← hid]
      exact h.apart w hw hnew
    · rw [ht.others _ _ hid (hok.notPending w hw)]
      exact h.apart w hw hnew
  · show (s₂.pending.map _).Nodup
    rw [hpending]
    exact h.pendingOnce
  · intro w hw
    have hw : w ∈ s.pending := hpending ▸ hw
    obtain ⟨c'', hl, hr⟩ := h.resident w hw
    by_cases hid : w.cache = consumerId
    · rw [hid, hlc] at hl
      cases hl
      rw [hid]
      refine ⟨c', AList.lookup_insert _, hres _ ?_⟩
      rw [AnonymousCache.lookupPage, hpages]
      exact hr
    · exact ⟨c'', hlookup hl hid (hok.notPending w hw), hr⟩
  · intro id c'' hl
    rcases hcases hl with ⟨rfl, rfl⟩ | ⟨-, rfl, rfl⟩ | ⟨-, -, hl⟩
    · refine Int.le_trans (Int.le_min.2 ⟨?_, ?_⟩) hle
      · have hcard' := Set.ncard_le_ncard hmono (h.ledger.finite sourceId)
        have hlec := h.le _ c hlc
        have hles := h.le _ d hls
        simp only [pageSize] at *
        omega
      · -- everything the consumer holds is in its range
        have hsub : heldPages (Swap.transfer (held s) id sourceId (hidesAt s id consumer)) id ⊆
            Set.Ico (c.virtualBase / pageSize) (c.virtualEnd / pageSize) := by
          intro p hp
          obtain ⟨slot, hslot⟩ := Option.isSome_iff_exists.1 hp
          obtain ⟨hb, he⟩ := hinRange p slot hslot
          refine ⟨hb, ?_⟩
          obtain ⟨-, ⟨k, hk⟩⟩ := h.aligned _ c hlc
          simp only [pageSize] at *
          omega
        have hcard' := Set.ncard_le_ncard hsub (Set.finite_Ico _ _)
        rw [← Finset.coe_Ico, Set.ncard_coe_finset, Nat.card_Ico, hcard] at hcard'
        obtain ⟨⟨k, hk⟩, ⟨m, hm⟩⟩ := h.aligned _ c hlc
        simp only [pageSize] at *
        omega
    · rw [hcount']
      exact hle'
    · exact h.le _ _ hl
  · intro id c'' hl
    rcases hcases hl with ⟨rfl, rfl⟩ | ⟨-, rfl, rfl⟩ | ⟨-, -, hl⟩
    · rw [hrange.1, hrange.2]
      exact h.aligned _ c hlc
    · exact haligned
    · exact h.aligned _ _ hl

lemma mergeCommitments_swap_ge (hs : 0 ≤ s.available) (hc : CacheOk consumer) (hc' : CacheOk source) :
    min (consumer.committedSwapSize + source.committedSwapSize)
      (consumer.virtualEnd - consumer.virtualBase) ≤
        (mergeCommitments s consumer source).2.1.committedSwapSize := by
  have hn := hc.nonneg
  have hle := hc.le
  have hn' := hc'.nonneg
  have hle' := hc'.le
  unfold mergeCommitments
  simp only
  split
  · have htaken : CacheOk { consumer with
        committedSwapSize := consumer.committedSwapSize + source.committedSwapSize
        committedSize := consumer.committedSize + source.committedSize } := by
      refine ⟨?_, ?_, hc.range⟩ <;> simp only <;> omega
    exact commitSpace_swap_ge _ false hs htaken
  · exact Int.min_le_left _ _

lemma merge_books (h : Books s 0) (hspace : Conserved s) (hne : consumerId ≠ sourceId)
    (hconsumer : s.caches.lookup consumerId = some consumer)
    (hsource : s.caches.lookup sourceId = some source)
    (hok : MergeOk s consumerId sourceId consumer source)
    (hs' : merge s consumerId sourceId = some s') : Books s' 0 := by
  have hframe := mergeCommitments_onlySpace s consumer source
  have hzero := mergeCommitments_source s consumer source
  have hge := mergeCommitments_swap_ge hspace.nonneg (hspace.caches _ _ hconsumer)
    (hspace.caches _ _ hsource)
  obtain ⟨⟨s₁, consumer₁, source₁⟩, hx⟩ : ∃ x, mergeCommitments s consumer source = x := ⟨_, rfl⟩
  rw [hx] at hframe hzero hge
  dsimp only at hframe hzero hge
  -- the books are not touched by the commitments
  have h₁ : Books s₁ 0 := h.available hframe.state
  have hcaches₁ : s₁.caches = s.caches := by rw [hframe.state]
  have hok₁ : MergeOk s₁ consumerId sourceId consumer₁ source₁ := by
    rw [hframe.state, hframe.cache, hzero]
    exact ⟨hok.notBusy, hok.notPending, hok.inRange, hok.noCopy⟩
  have hlc : s₁.caches.lookup consumerId = some consumer := by rw [hcaches₁, hconsumer]
  have hls : s₁.caches.lookup sourceId = some source := by rw [hcaches₁, hsource]
  have hpages₁ : consumer₁.pages = consumer.pages := by rw [hframe.cache]
  have hcountc := h₁.ledger.count consumerId consumer hlc
  have hcounts := h₁.ledger.count sourceId source hls
  simp only [Pi.zero_apply, add_zero] at hcountc hcounts
  obtain ⟨y, l, hy, hnodup, hm, hmem⟩ := mergeSwapPages_merged hne hok₁.notBusy
    (fun p slot hp => (h₁.ledger.stored _ _ _ (held_of_getAddress hp)).2)
    (fun hz p => getAddress_of_held_none (h₁.none_of_le hls (by rw [hzero] at hz; exact hz.le) p))
    (fun hz p => getAddress_of_held_none (h₁.none_of_le hlc (by rw [hframe.cache] at hz; exact hz.le) p)
      : consumer₁.allocatedSwapSize = 0 → _)
  have hl : ∀ p slot, getAddress s₁ sourceId p = some slot → p / blockPages ∈ l := by
    intro p slot hp
    obtain ⟨c, hlc', hindex⟩ := h₁.ledger.inRange _ _ _ (held_of_getAddress hp)
    rw [hls] at hlc'
    cases hlc'
    exact hmem p (by rw [hzero]; exact hindex) (Or.inr (by rw [hp]; rfl))
  have hcount := hm.consumer_count hnodup h₁ hok₁ hl
  have hcount' := hm.source_count hnodup hok₁ hl (by rw [hzero]; exact hcounts)
  have hpair := mergePages_samePair (decide (y.2.2.pageCount < y.2.1.pageCount)) y.2.1 y.2.2
  have hlookup := mergePages_lookup (decide (y.2.2.pageCount < y.2.1.pageCount)) y.2.1 y.2.2
  simp only [merge, hconsumer, hsource, Option.bind_eq_bind, Option.bind_some, hx, hy] at hs'
  cases hs'
  refine h₁.transfer hne hlc hls hok₁ hpages₁ (fun p hp => ?_) (hm.blocksOk h₁.blocks hok₁)
    (hm.transferred h₁.blocks hl) (by rw [hm.state]) (by rw [hm.state])
    (fun id p slot hp => hm.allocated_of_held h₁ hp) ⟨?_, ?_⟩ (fun p hp => ?_) ?_ ?_ ?_ ?_
    (hspace.caches _ _ hconsumer).range ⟨?_, ?_⟩
  · rw [hframe.cache] at hp
    exact hp
  · rw [hpair.first, hm.consumer, hframe.cache]
  · rw [hpair.first, hm.consumer, hframe.cache]
  · rw [hlookup, Option.isSome_or, hm.consumer]
    simpa [AnonymousCache.lookupPage] using Or.inl hp
  · rw [hpair.first]
    show y.2.1.allocatedSwapSize = _
    rw [hcount, hframe.cache]
    rfl
  · rw [hpair.second]
    exact hcount'
  · rw [hpair.first, hm.consumer]
    exact hge
  · rw [hpair.second, hm.source, hzero]
  · rw [hpair.second, hm.source, hzero]
    exact (h.aligned _ source hsource).1
  · rw [hpair.second, hm.source, hzero]
    exact (h.aligned _ source hsource).2

end Haiku.Swap
