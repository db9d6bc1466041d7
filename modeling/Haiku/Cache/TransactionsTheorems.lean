import Haiku.Cache.WriterTheorems

/-!
# The transaction functions keep the invariant

Each of the transaction functions changes the blocks of one transaction and the entry of that
transaction. `Mapped` says what happens to the blocks; their roles change by one function on
`BlockRole` for each of the functions (`BlockRole.ended` and so on).
-/

namespace Haiku.Cache

open Function Lib

variable {D : Type} {s s' : BlockCache D} {id : TransactionId} {t : CacheTransaction}

/-! ## The blocks of one transaction -/

/-- The role of a block after its transaction `id` ended. -/
def BlockRole.ended (id : TransactionId) (_ : BlockRole D) : BlockRole D :=
  ⟨none, .null, none, some id⟩

/-- The role of a block after its transaction was aborted. -/
def BlockRole.aborted (r : BlockRole D) : BlockRole D := ⟨none, .null, none, r.previous⟩

/-- The role of a block after a sub-transaction was started. -/
def BlockRole.subStarted (r : BlockRole D) : BlockRole D := { r with parent := .current }

/-- The role of a block after the sub-transaction was aborted. -/
def BlockRole.subAborted (r : BlockRole D) : BlockRole D := { r with parent := .null }

/-- The role of a block after the sub-transaction of `id` was detached as `newId`. -/
def BlockRole.detached (id newId : TransactionId) (r : BlockRole D) : BlockRole D :=
  match r.parent with
  | .null => { r with original := none, owner := some newId }
  | .copy d => ⟨some d, .null, some newId, some id⟩
  | .current => ⟨none, .null, none, some id⟩

attribute [simp] BlockRole.ended BlockRole.aborted ParentData.isNull ParentData.isCurrent

/-- The blocks of transaction `id` changed by `f`, and their roles by `g`. -/
structure Mapped (s s' : BlockCache D) (id : TransactionId) (f : CachedBlock D → CachedBlock D)
    (g : BlockRole D → BlockRole D) : Prop where
  hash : ∀ m, s'.hash m = if (s.role m).owner = some id then (s.hash m).map f else s.hash m
  role : ∀ m, s'.role m = if (s.role m).owner = some id then g (s.role m) else s.role m
  keeps : ∀ b, (f b).unused = b.unused ∧ (f b).busyWriting = b.busyWriting ∧
    (b.discard = false → (f b).discard = false) ∧ (f b).isDirty = b.isDirty ∧
    (f b).isWriting = b.isWriting ∧ (f b).refCount = b.refCount
  device : s'.device = s.device
  written : s'.written = s.written
  writers : s'.writers = s.writers
  unusedBlocks : s'.unusedBlocks = s.unusedBlocks
  unusedBlockCount : s'.unusedBlockCount = s.unusedBlockCount
  busyWritingCount : s'.busyWritingCount = s.busyWritingCount

lemma exists_of_isOpen (h : s.isOpen id = true) :
    ∃ t, s.transactionHash id = some t ∧ t.isOpen = true := by
  unfold BlockCache.isOpen at h
  cases ht : s.transactionHash id with
  | none => simp [ht] at h
  | some t => exact ⟨t, rfl, by simpa [ht] using h⟩

lemma cached_of_owner {n : BlockNumber}
    (h : (s.role n).owner = some id) : ∃ b, s.hash n = some b ∧ b.transaction = some id := by
  unfold BlockCache.role at h
  cases hn : s.hash n with
  | none => rw [hn] at h; cases h
  | some b => exact ⟨b, rfl, by rw [hn] at h; exact h⟩

lemma mem_firstBlock (ho : Owners s) (ht : s.transactionHash id = some t) (hopen : t.isOpen = true)
    (n : BlockNumber) : n ∈ t.firstBlock ↔ (s.role n).owner = some id := by
  rw [← ho.open_iff n id]
  simp [BlockCache.openBlocks, ht, hopen]

variable {test : CachedBlock D → Bool}

lemma select_all (ho : Owners s) (ht : s.transactionHash id = some t) (hopen : t.isOpen = true)
    (h : ∀ n b, s.hash n = some b → test b = true) : s.select t.firstBlock test = t.firstBlock := by
  refine List.filter_eq_self.2 fun n hn => ?_
  obtain ⟨b, hb, -⟩ := cached_of_owner ((mem_firstBlock ho ht hopen n).1 hn)
  simp [hb, h n b hb]

lemma select_none {l : List BlockNumber}
    (h : ∀ n b, s.hash n = some b → test b = false) : s.select l test = [] := by
  refine List.filter_eq_nil_iff.2 fun n _ => ?_
  cases hn : s.hash n with
  | none => simp
  | some b => simp [h n b hn]

lemma select_discard (ho : Owners s) (l : List BlockNumber) : s.select l (·.discard) = [] := select_none fun n b hb => ho.no_discard n b hb

lemma select_kept (ho : Owners s) (ht : s.transactionHash id = some t) (hopen : t.isOpen = true) :
    s.select t.firstBlock (!·.discard) = t.firstBlock :=
  select_all ho ht hopen fun n b hb => by simp [ho.no_discard n b hb]

lemma mapped_mapBlocks (ho : Owners s)
    (ht : s.transactionHash id = some t) (hopen : t.isOpen = true)
    {body : CachedBlock D → Option (CachedBlock D)} {f : CachedBlock D → CachedBlock D}
    {g : BlockRole D → BlockRole D} (hbody : ∀ b, b.discard = false → body b = some (f b))
    (hrole : ∀ n b, s.hash n = some b → b.transaction = some id →
      roleOf (some (f b)) = g (roleOf (some b)))
    (hhash : s'.hash = (s.mapBlocks t.firstBlock body).hash)
    (hrest : s'.device = s.device ∧ s'.written = s.written ∧ s'.writers = s.writers ∧
      s'.unusedBlocks = s.unusedBlocks ∧ s'.unusedBlockCount = s.unusedBlockCount ∧
      s'.busyWritingCount = s.busyWritingCount)
    (hkeeps : ∀ b, (f b).unused = b.unused ∧ (f b).busyWriting = b.busyWriting ∧
      (b.discard = false → (f b).discard = false) ∧ (f b).isDirty = b.isDirty ∧
      (f b).isWriting = b.isWriting ∧ (f b).refCount = b.refCount) : Mapped s s' id f g := by
  obtain ⟨h₁, h₂, h₃, h₄, h₅, h₆⟩ := hrest
  have hh : ∀ m, s'.hash m =
      if (s.role m).owner = some id then (s.hash m).map f else s.hash m := by
    intro m
    rw [hhash]
    simp only [BlockCache.mapBlocks, mem_firstBlock ho ht hopen m]
    split
    · cases hm : s.hash m with
      | none => rfl
      | some b => rw [Option.bind_some, hbody b (ho.no_discard m b hm), Option.map_some]
    · rfl
  refine ⟨hh, fun m => ?_, hkeeps, h₁, h₂, h₃, h₄, h₅, h₆⟩
  rw [BlockCache.role, hh m]
  split
  · rename_i hown
    obtain ⟨b, hb, htr⟩ := cached_of_owner hown
    rw [hb, Option.map_some, hrole m b hb htr, role_of_cached hb]
  · rfl

variable {e : Bool}

section Mapped

variable {f : CachedBlock D → CachedBlock D} {g : BlockRole D → BlockRole D}

section

variable (h : Mapped s s' id f g)
include h

lemma Mapped.cached {m : BlockNumber} {c : CachedBlock D}
    (hm : s'.hash m = some c) : ∃ b, s.hash m = some b ∧
      (c = b ∧ b.transaction ≠ some id ∨ c = f b ∧ b.transaction = some id) := by
  rw [h.hash m] at hm
  split at hm
  · rename_i hown
    obtain ⟨b, hb, hc⟩ := Option.map_eq_some_iff.1 hm
    rw [role_of_cached hb] at hown
    exact ⟨b, hb, .inr ⟨hc.symm, hown⟩⟩
  · rename_i hown
    rw [role_of_cached hm] at hown
    exact ⟨c, hm, .inl ⟨rfl, hown⟩⟩

lemma Mapped.flag {p : CachedBlock D → Bool} (hp : ∀ b, p (f b) = p b) (m : BlockNumber) :
    (∃ b, s'.hash m = some b ∧ p b = true) ↔ ∃ b, s.hash m = some b ∧ p b = true := by
  rw [h.hash m]
  split
  · cases s.hash m with
    | none => simp
    | some b => simp [hp]
  · exact Iff.rfl

lemma Mapped.no_discard (ho : Owners s) (m : BlockNumber)
    (c : CachedBlock D) (hm : s'.hash m = some c) : c.discard = false := by
  obtain ⟨b, hb, ⟨rfl, -⟩ | ⟨rfl, -⟩⟩ := h.cached hm
  · exact ho.no_discard m c hb
  · exact (h.keeps b).2.2.1 (ho.no_discard m b hb)

lemma Mapped.unused (hu : Unused s) : Unused s' := by
  refine hu.congr h.unusedBlocks h.unusedBlockCount (h.flag fun b => (h.keeps b).1) ?_
  intro m c hm huc
  obtain ⟨b, hb, ⟨rfl, -⟩ | ⟨rfl, htr⟩⟩ := h.cached hm
  · exact hu.idle m c hb huc
  · -- the blocks of a transaction are not unused
    rw [(h.keeps b).1] at huc
    have := (hu.idle m b hb huc).2.1
    rw [htr] at this
    cases this

lemma Mapped.busy (hb : Busy s [])
    (hrole : ∀ n ∈ s.inFlight [], (s'.role n).owner ≠ none → (s'.role n).previous ≠ none)
    (hclosing : ∀ w ∈ s.writers, w.isClosing = false) : Busy s' [] := by
  have hnot : ∀ w ∈ s.writers, ∀ id', ¬ w.closes id' := by
    intro w hw id' hc
    have := BlockWriter.isClosing_of_closes hc
    rw [hclosing w hw] at this
    cases this
  exact hb.update h.writers h.busyWritingCount (h.flag fun b => (h.keeps b).2.1) hrole
    (fun w hw id' hc => absurd hc (hnot w hw id'))
    (fun w hw id' hd => absurd (.inr hd) (hnot w hw id'))

end

/-- What the new roles of the blocks of transaction `id` and the new entries of the transactions
that satisfy `changed` have to agree on. -/
structure Rehomed (s s' : BlockCache D) (id : TransactionId) (g : BlockRole D → BlockRole D)
    (changed : TransactionId → Prop) : Prop where
  same : ∀ id', ¬ changed id' → s'.transactionHash id' = s.transactionHash id'
  changed_id : changed id
  /-- None of the changed transactions had a block, apart from `id`. -/
  owned : ∀ n id', changed id' → (s.role n).owner = some id' → id' = id
  pending : ∀ n id', changed id' → (s.role n).previous ≠ some id'
  open_iff : ∀ n id', changed id' →
    (n ∈ s'.openBlocks id' ↔ (s.role n).owner = some id ∧ (g (s.role n)).owner = some id')
  open_nodup : ∀ id', changed id' → (s'.openBlocks id').Nodup
  closed_iff : ∀ n id', changed id' →
    (n ∈ s'.closedBlocks id' ↔ (s.role n).owner = some id ∧ (g (s.role n)).previous = some id')
  closed_nodup : ∀ id', changed id' → (s'.closedBlocks id').Nodup
  open_blocks : ∀ id' t, changed id' → s'.transactionHash id' = some t → t.isOpen = true →
    t.blocks = []
  owner : ∀ n id', (s.role n).owner = some id → (g (s.role n)).owner = some id' → changed id'
  previous : ∀ n id', (s.role n).owner = some id → ¬ changed id' →
    ((g (s.role n)).previous = some id' ↔ (s.role n).previous = some id')
  free : ∀ n, (s.role n).owner = some id → (g (s.role n)).owner = none →
    (g (s.role n)).original = none ∧ (g (s.role n)).parent = .null
  both : ∀ n, (s.role n).owner = some id → (g (s.role n)).owner ≠ none →
    (g (s.role n)).previous ≠ none → (g (s.role n)).original ≠ none
  parent_sub : ∀ n id', (s.role n).owner = some id → (g (s.role n)).owner = some id' →
    (g (s.role n)).parent ≠ .null → s'.hasSub id' = true
  ids : ∀ id', changed id' → s'.transactionHash id' ≠ none → id' < s'.nextTransactionId
  nextTransactionId : s.nextTransactionId ≤ s'.nextTransactionId

lemma Mapped.owners (h : Mapped s s' id f g) (ho : Owners s)
    {changed : TransactionId → Prop} (hr : Rehomed s s' id g changed) : Owners s' := by
  have hopenb : ∀ {id'}, ¬ changed id' → s'.openBlocks id' = s.openBlocks id' := by
    intro id' hc
    rw [BlockCache.openBlocks, hr.same id' hc]
    rfl
  have hclosedb : ∀ {id'}, ¬ changed id' → s'.closedBlocks id' = s.closedBlocks id' := by
    intro id' hc
    rw [BlockCache.closedBlocks, hr.same id' hc]
    rfl
  refine ⟨fun n id' => ?_, fun id' => ?_, fun n id' => ?_, fun id' => ?_, fun id' t ht hop => ?_,
    fun n hown => ?_, fun n hown hprev => ?_, fun n id' hown hpar => ?_, fun id' hne => ?_,
    h.no_discard ho⟩
  · rw [h.role]
    by_cases hc : changed id'
    · rw [hr.open_iff n id' hc]
      by_cases hn : (s.role n).owner = some id
      · simp [hn]
      · -- a block of another transaction
        simp only [hn, false_and, ↓reduceIte, false_iff]
        exact fun ho' => hn (hr.owned n id' hc ho' ▸ ho')
    · rw [hopenb hc, ho.open_iff]
      by_cases hn : (s.role n).owner = some id
      · simp only [hn, ↓reduceIte]
        constructor
        · intro he
          rw [Option.some.injEq] at he
          exact absurd (he ▸ hr.changed_id) hc
        · exact fun he => absurd (hr.owner n id' hn he) hc
      · simp [hn]
  · by_cases hc : changed id'
    · exact hr.open_nodup id' hc
    · rw [hopenb hc]
      exact ho.open_nodup id'
  · rw [h.role]
    by_cases hc : changed id'
    · rw [hr.closed_iff n id' hc]
      by_cases hn : (s.role n).owner = some id
      · simp [hn]
      · simp only [hn, false_and, ↓reduceIte, false_iff]
        exact hr.pending n id' hc
    · rw [hclosedb hc, ho.closed_iff]
      by_cases hn : (s.role n).owner = some id
      · rw [if_pos hn, hr.previous n id' hn hc]
      · rw [if_neg hn]
  · by_cases hc : changed id'
    · exact hr.closed_nodup id' hc
    · rw [hclosedb hc]
      exact ho.closed_nodup id'
  · by_cases hc : changed id'
    · exact hr.open_blocks id' t hc ht hop
    · rw [hr.same id' hc] at ht
      exact ho.open_blocks id' t ht hop
  · rw [h.role] at hown ⊢
    by_cases hn : (s.role n).owner = some id
    · rw [if_pos hn] at hown ⊢
      exact hr.free n hn hown
    · rw [if_neg hn] at hown ⊢
      exact ho.free n hown
  · rw [h.role] at hown hprev ⊢
    by_cases hn : (s.role n).owner = some id
    · rw [if_pos hn] at hown hprev ⊢
      exact hr.both n hn hown hprev
    · rw [if_neg hn] at hown hprev ⊢
      exact ho.both n hown hprev
  · rw [h.role] at hown hpar
    by_cases hn : (s.role n).owner = some id
    · rw [if_pos hn] at hown hpar
      exact hr.parent_sub n id' hn hown hpar
    · rw [if_neg hn] at hown hpar
      have hc : ¬ changed id' := fun hc => hn (hr.owned n id' hc hown ▸ hown)
      rw [BlockCache.hasSub, hr.same id' hc]
      exact ho.parent_sub n id' hown hpar
  · by_cases hc : changed id'
    · exact hr.ids id' hc hne
    · rw [hr.same id' hc] at hne
      exact Nat.lt_of_lt_of_le (ho.ids id' hne) hr.nextTransactionId

lemma Mapped.counts (h : Mapped s s' id f g) (ho : Owners s) (hc : Counts e s)
    {changed : TransactionId → Prop} (hr : Rehomed s s' id g changed)
    (hopened : ∀ id' t, changed id' → s'.transactionHash id' = some t → t.isOpen = true →
      Counted e t.firstBlock.length t.numBlocks)
    (hmain : ∀ id' t, changed id' → s'.transactionHash id' = some t → t.isOpen = true →
      t.hasSubTransaction = true →
      Counted e (t.firstBlock.countP fun n => !(s'.role n).parent.isNull) t.mainNumBlocks)
    (hsub : ∀ id' t, changed id' → s'.transactionHash id' = some t → t.isOpen = true →
      t.hasSubTransaction = true →
      Counted e (t.firstBlock.countP fun n => !(s'.role n).parent.isCurrent) t.subNumBlocks)
    (hclosed : ∀ id' t, changed id' → s'.transactionHash id' = some t → t.isOpen = false →
      Counted e t.blocks.length t.numBlocks) : Counts e s' := by
  -- the chain of a transaction that is not changed keeps its roles
  have hsame : ∀ {id' t}, ¬ changed id' → s.transactionHash id' = some t → t.isOpen = true →
      ∀ n ∈ t.firstBlock, s'.role n = s.role n := by
    intro id' t hch ht hop n hn
    have hown := (mem_firstBlock ho ht hop n).1 hn
    rw [h.role, if_neg]
    rw [hown, Option.some.injEq]
    exact fun he => hch (he ▸ hr.changed_id)
  refine ⟨fun id' t ht hop => ?_, fun id' t ht hop hs => ?_, fun id' t ht hop hs => ?_,
    fun id' t ht hop => ?_⟩
  · by_cases hch : changed id'
    · exact hopened id' t hch ht hop
    · rw [hr.same id' hch] at ht
      exact hc.opened id' t ht hop
  · by_cases hch : changed id'
    · exact hmain id' t hch ht hop hs
    · rw [hr.same id' hch] at ht
      rw [List.countP_congr fun n hn => by rw [hsame hch ht hop n hn]]
      exact hc.main id' t ht hop hs
  · by_cases hch : changed id'
    · exact hsub id' t hch ht hop hs
    · rw [hr.same id' hch] at ht
      rw [List.countP_congr fun n hn => by rw [hsame hch ht hop n hn]]
      exact hc.sub id' t ht hop hs
  · by_cases hch : changed id'
    · exact hclosed id' t hch ht hop
    · rw [hr.same id' hch] at ht
      exact hc.closed id' t ht hop

lemma Owners.previous_ne_of_isOpen (ho : Owners s) (hop : s.isOpen id = true)
    (n : BlockNumber) : (s.role n).previous ≠ some id := by
  intro hp
  obtain ⟨t, ht, hclosed, -⟩ := ho.isClosed hp
  simp [BlockCache.isOpen, ht, hclosed] at hop

end Mapped

/-! ## `cache_abort_transaction()` -/

lemma Owners.parent_null (ho : Owners s) (ht : s.transactionHash id = some t)
    (hsub : t.hasSubTransaction = false) {n : BlockNumber} {b : CachedBlock D}
    (hn : s.hash n = some b) (htr : b.transaction = some id) : b.parentData = .null := by
  by_contra hne
  have hrole := role_of_cached hn
  have := ho.parent_sub n id (by rw [hrole]; exact htr) (by rw [hrole]; exact hne)
  simp [BlockCache.hasSub, ht, hsub] at this

/-- The state after `cache_abort_transaction()`. -/
structure Aborted (s s' : BlockCache D) (id : TransactionId) (t : CacheTransaction) : Prop where
  transaction : s.transactionHash id = some t
  isOpen : t.isOpen = true
  idle : s.writers = []
  mapped : Mapped s s' id (fun b => (b.aborted t.hasSubTransaction).getD b) BlockRole.aborted
  transactionHash : s'.transactionHash = update s.transactionHash id none
  nextTransactionId : s'.nextTransactionId = s.nextTransactionId
  notified : s'.notified = s.notified ++ [(id, .aborted)]

lemma aborted_of_call (ho : Owners s) (hb : Busy s []) (hopen : s.isOpen id = true)
    (hs : s.cacheAbortTransaction id = some s') : ∃ t, Aborted s s' id t := by
  unfold BlockCache.cacheAbortTransaction at hs
  split at hs
  · cases hs
  · rename_i hbusy
    have hidle := hb.writers_nil (by simpa using hbusy)
    obtain ⟨t, ht, hop⟩ := exists_of_isOpen hopen
    simp only [ht, Option.some.injEq] at hs
    subst hs
    refine ⟨t, ht, hop, hidle, mapped_mapBlocks ho ht hop (fun b _ => rfl) ?_ rfl
      ⟨rfl, rfl, rfl, rfl, rfl, rfl⟩ fun b => ⟨rfl, rfl, fun _ => rfl, rfl, rfl, rfl⟩, rfl, rfl,
      rfl⟩
    intro n b hn htr
    simp only [CachedBlock.aborted, Option.getD_some, roleOf, BlockRole.aborted]
    cases hsub : t.hasSubTransaction with
    | true => rfl
    | false => simp [ho.parent_null ht hsub hn htr]

lemma Aborted.rehomed
    (h : Aborted s s' id t) (ho : Owners s) : Rehomed s s' id BlockRole.aborted (· = id) := by
  have hop : s.isOpen id = true := by simp [BlockCache.isOpen, h.transaction, h.isOpen]
  have hgone : s'.transactionHash id = none := by rw [h.transactionHash, update_self]
  have hopenb : s'.openBlocks id = [] := by rw [BlockCache.openBlocks, hgone]; rfl
  have hclosedb : s'.closedBlocks id = [] := by rw [BlockCache.closedBlocks, hgone]; rfl
  have hprev := ho.previous_ne_of_isOpen hop
  exact
    { same := fun id' hid => by rw [h.transactionHash, update_of_ne hid]
      changed_id := rfl
      owned := fun _ _ hid _ => hid
      pending := by rintro n _ rfl; exact hprev n
      open_iff := by rintro n _ rfl; simp [hopenb]
      open_nodup := by rintro _ rfl; simp [hopenb]
      closed_iff := by rintro n _ rfl; simp [hclosedb, hprev n]
      closed_nodup := by rintro _ rfl; simp [hclosedb]
      open_blocks := by rintro _ t' rfl ht'; rw [hgone] at ht'; cases ht'
      owner := fun n id' _ he => by cases he
      previous := fun _ _ _ _ => Iff.rfl
      free := fun _ _ _ => ⟨rfl, rfl⟩
      both := fun _ _ hne => absurd rfl hne
      parent_sub := fun n id' _ he => by cases he
      ids := by rintro _ rfl hne; exact absurd hgone hne
      nextTransactionId := Nat.le_of_eq h.nextTransactionId.symm }

lemma Aborted.finishing (h : Aborted s s' id t) (hf : Finishing e s []) : Finishing e s' [] := by
  have hr := h.rehomed hf.owners
  have hgone : s'.transactionHash id = none := by rw [h.transactionHash, update_self]
  have hno : ∀ {id' t'}, id' = id → s'.transactionHash id' = some t' → False := by
    rintro id' t' rfl ht'
    rw [hgone] at ht'
    cases ht'
  refine ⟨h.mapped.owners hf.owners hr, h.mapped.counts hf.owners hf.counts hr
      (fun _ _ he ht => (hno he ht).elim) (fun _ _ he ht => (hno he ht).elim)
      (fun _ _ he ht => (hno he ht).elim) (fun _ _ he ht => (hno he ht).elim),
    h.mapped.unused hf.unused, h.mapped.busy hf.busy ?_ ?_, by simp⟩
  · simp [BlockCache.inFlight, h.idle]
  · simp [h.idle]

/-! ## `cache_end_transaction()` -/

/-- The state after a transaction was closed by `cache_end_transaction()`. -/
structure Ended (s s' : BlockCache D) (id : TransactionId) (t : CacheTransaction) : Prop where
  transaction : s.transactionHash id = some t
  isOpen : t.isOpen = true
  mapped : Mapped s s' id (fun b => (b.ended id t.hasSubTransaction).getD b) (BlockRole.ended id)
  transactionHash : s'.transactionHash = update s.transactionHash id
    (some { t with blocks := t.firstBlock, isOpen := false })
  nextTransactionId : s'.nextTransactionId = s.nextTransactionId
  notified : s'.notified = s.notified ++ [(id, .ended)]

lemma ended_of_call (ho : Owners s)
    (hopen : s.isOpen id = true) (hs : s.finishEnd id = some s') : ∃ t, Ended s s' id t := by
  unfold BlockCache.finishEnd at hs
  obtain ⟨t, ht, hop⟩ := exists_of_isOpen hopen
  simp only [ht, Option.some.injEq, select_discard ho, select_kept ho ht hop,
    ho.open_blocks id t ht hop, List.nil_append, List.length_nil, Int.natCast_zero,
    Int.sub_zero] at hs
  subst hs
  refine ⟨t, ht, hop, mapped_mapBlocks ho ht hop
    (fun b hd => by simp [CachedBlock.ended, hd]) ?_ rfl
    ⟨rfl, rfl, rfl, rfl, rfl, rfl⟩ fun b => ?_, rfl, rfl, rfl⟩
  · intro n b hn htr
    simp only [CachedBlock.ended, ho.no_discard n b hn, Bool.false_eq_true, ↓reduceIte,
      Option.getD_some, roleOf, BlockRole.ended]
    cases hsub : t.hasSubTransaction with
    | true => rfl
    | false => simp [ho.parent_null ht hsub hn htr]
  · unfold CachedBlock.ended
    split <;> exact ⟨rfl, rfl, fun hd => hd, rfl, rfl, rfl⟩

lemma Ended.rehomed (h : Ended s s' id t) (ho : Owners s) (hc : Closable s id) :
    Rehomed s s' id (BlockRole.ended id) (· = id) := by
  have hwritten : ∀ {n}, (s.role n).owner = some id → (s.role n).previous = none :=
    fun hn => hc.written _ ((ho.open_iff _ id).2 hn)
  have hop : s.isOpen id = true := by simp [BlockCache.isOpen, h.transaction, h.isOpen]
  have hnow : s'.transactionHash id = some { t with blocks := t.firstBlock, isOpen := false } := by
    rw [h.transactionHash, update_self]
  have hopenb : s'.openBlocks id = [] := by simp [BlockCache.openBlocks, hnow]
  have hclosedb : s'.closedBlocks id = t.firstBlock := by simp [BlockCache.closedBlocks, hnow]
  have hmem := mem_firstBlock ho h.transaction h.isOpen
  have hnd : t.firstBlock.Nodup := by
    simpa [BlockCache.openBlocks, h.transaction, h.isOpen] using ho.open_nodup id
  exact
    { same := fun id' hid => by rw [h.transactionHash, update_of_ne hid]
      changed_id := rfl
      owned := fun _ _ hid _ => hid
      pending := by rintro n _ rfl; exact ho.previous_ne_of_isOpen hop n
      open_iff := by rintro n _ rfl; simp [hopenb]
      open_nodup := by rintro _ rfl; simp [hopenb]
      closed_iff := by rintro n _ rfl; simp [hclosedb, hmem]
      closed_nodup := by rintro _ rfl; rw [hclosedb]; exact hnd
      open_blocks := by rintro _ t' rfl ht' hop'; rw [hnow] at ht'; cases ht'; cases hop'
      owner := fun n id' _ he => by cases he
      previous := fun n id' hn hne => by
        simp only [BlockRole.ended, hwritten hn, Option.some.injEq, reduceCtorEq, iff_false]
        exact fun he => hne he.symm
      free := fun _ _ _ => ⟨rfl, rfl⟩
      both := fun _ _ hne => absurd rfl hne
      parent_sub := fun n id' _ he => by cases he
      ids := by
        rintro _ rfl -
        rw [h.nextTransactionId]
        exact ho.ids _ (by rw [h.transaction]; simp)
      nextTransactionId := Nat.le_of_eq h.nextTransactionId.symm }

lemma Ended.finishing
    (h : Ended s s' id t) (hf : Finishing e s []) (hc : Closable s id) : Finishing e s' [] := by
  have hr := h.rehomed hf.owners hc
  have hnow : ∀ {id' t'}, id' = id → s'.transactionHash id' = some t' →
      t' = { t with blocks := t.firstBlock, isOpen := false } := by
    rintro id' t' rfl ht'
    rw [h.transactionHash, update_self] at ht'
    exact (Option.some.inj ht').symm
  have hno : ∀ {id' t'}, id' = id → s'.transactionHash id' = some t' → t'.isOpen = true →
      False := by
    intro id' t' he ht' hop
    rw [hnow he ht'] at hop
    cases hop
  refine ⟨h.mapped.owners hf.owners hr, h.mapped.counts hf.owners hf.counts hr
      (fun _ _ he ht hop => (hno he ht hop).elim) (fun _ _ he ht hop => (hno he ht hop).elim)
      (fun _ _ he ht hop => (hno he ht hop).elim) (fun id' t' he ht' _ => ?_),
    h.mapped.unused hf.unused, h.mapped.busy hf.busy (fun n hn => ?_) hc.alone,
    by simp⟩
  · rw [hnow he ht']
    exact hf.counts.opened id t h.transaction h.isOpen
  · rw [h.mapped.role]
    split
    · exact fun hne => absurd rfl hne
    · exact hf.busy.role n hn

/-! ## Sub-transactions -/

/-- The state after `cache_start_sub_transaction()`. -/
structure SubStarted (s s' : BlockCache D) (id : TransactionId) (t : CacheTransaction) :
    Prop where
  transaction : s.transactionHash id = some t
  isOpen : t.isOpen = true
  idle : s.writers = []
  mapped : Mapped s s' id (fun b => b.subStarted.getD b) BlockRole.subStarted
  transactionHash : s'.transactionHash = update s.transactionHash id
    (some { t with hasSubTransaction := true, mainNumBlocks := t.numBlocks, subNumBlocks := 0 })
  nextTransactionId : s'.nextTransactionId = s.nextTransactionId
  notified : s'.notified = s.notified ++ [(id, .ended)]

lemma subStarted_of_call (ho : Owners s) (hb : Busy s []) (hopen : s.isOpen id = true)
    (hs : s.cacheStartSubTransaction id = some s') : ∃ t, SubStarted s s' id t := by
  unfold BlockCache.cacheStartSubTransaction at hs
  split at hs
  · cases hs
  · rename_i hbusy
    have hidle := hb.writers_nil (by simpa using hbusy)
    obtain ⟨t, ht, hop⟩ := exists_of_isOpen hopen
    simp only [ht, Option.some.injEq, select_discard ho, select_kept ho ht hop,
      List.length_nil, Int.natCast_zero, Int.sub_zero] at hs
    subst hs
    refine ⟨t, ht, hop, hidle, mapped_mapBlocks ho ht hop
      (fun b hd => by simp [CachedBlock.subStarted, hd]) ?_ rfl
      ⟨rfl, rfl, rfl, rfl, rfl, rfl⟩ fun b => ?_, rfl, rfl, rfl⟩
    · intro n b hn htr
      simp [CachedBlock.subStarted, ho.no_discard n b hn, roleOf, BlockRole.subStarted]
    · unfold CachedBlock.subStarted
      split <;> exact ⟨rfl, rfl, fun hd => hd, rfl, rfl, rfl⟩

/-- The state after `cache_abort_sub_transaction()`. -/
structure SubAborted (s s' : BlockCache D) (id : TransactionId) (t : CacheTransaction) :
    Prop where
  transaction : s.transactionHash id = some t
  isOpen : t.isOpen = true
  hasSub : t.hasSubTransaction = true
  idle : s.writers = []
  mapped : Mapped s s' id (fun b => b.subAborted.getD b) BlockRole.subAborted
  transactionHash : s'.transactionHash = update s.transactionHash id
    (some { t with hasSubTransaction := false, subNumBlocks := 0 })
  nextTransactionId : s'.nextTransactionId = s.nextTransactionId
  notified : s'.notified = s.notified ++ [(id, .aborted)]

lemma subAborted_of_call (ho : Owners s) (hb : Busy s []) (hopen : s.isOpen id = true)
    (hs : s.cacheAbortSubTransaction id = some s') :
    s' = s ∧ s.hasSub id = false ∨ ∃ t, SubAborted s s' id t := by
  unfold BlockCache.cacheAbortSubTransaction at hs
  split at hs
  · cases hs
  · rename_i hbusy
    have hidle := hb.writers_nil (by simpa using hbusy)
    obtain ⟨t, ht, hop⟩ := exists_of_isOpen hopen
    cases hsub : t.hasSubTransaction with
    | false =>
      simp only [ht, hsub, Bool.not_false, ↓reduceIte, Option.some.injEq] at hs
      exact .inl ⟨hs.symm, by simp [BlockCache.hasSub, ht, hsub]⟩
    | true =>
      simp only [ht, hsub, Bool.not_true, Bool.false_eq_true, ↓reduceIte,
        Option.some.injEq] at hs
      subst hs
      refine .inr ⟨t, ht, hop, hsub, hidle, mapped_mapBlocks ho ht hop (fun b _ => rfl)
        (fun n b _ _ => rfl) rfl ⟨rfl, rfl, rfl, rfl, rfl, rfl⟩
        fun b => ⟨rfl, rfl, fun _ => rfl, rfl, rfl, rfl⟩, rfl, rfl, rfl⟩

lemma rehomed_sub (ho : Owners s) (ht : s.transactionHash id = some t) (hop : t.isOpen = true)
    {t' : CacheTransaction} {g : BlockRole D → BlockRole D}
    (hth : s'.transactionHash = update s.transactionHash id (some t'))
    (hid : s'.nextTransactionId = s.nextTransactionId)
    (hfirst : t'.firstBlock = t.firstBlock) (hblocks : t'.blocks = t.blocks)
    (hopen : t'.isOpen = true) (hg : ∀ r, (g r).owner = r.owner ∧ (g r).previous = r.previous ∧
      (g r).original = r.original)
    (hpar : ∀ r, (g r).parent ≠ .null → t'.hasSubTransaction = true) :
    Rehomed s s' id g (· = id) := by
  have hisopen : s.isOpen id = true := by simp [BlockCache.isOpen, ht, hop]
  have hnow : s'.transactionHash id = some t' := by rw [hth, update_self]
  have hopenb : s'.openBlocks id = t.firstBlock := by
    simp [BlockCache.openBlocks, hnow, hopen, hfirst]
  have hclosedb : s'.closedBlocks id = [] := by simp [BlockCache.closedBlocks, hnow, hopen]
  have hmem := mem_firstBlock ho ht hop
  have hnd : t.firstBlock.Nodup := by
    simpa [BlockCache.openBlocks, ht, hop] using ho.open_nodup id
  have hprev := ho.previous_ne_of_isOpen hisopen
  exact
    { same := fun id' hid => by rw [hth, update_of_ne hid]
      changed_id := rfl
      owned := fun _ _ hid _ => hid
      pending := by rintro n _ rfl; exact hprev n
      open_iff := by rintro n _ rfl; rw [hopenb, hmem, (hg _).1, and_self]
      open_nodup := by rintro _ rfl; rw [hopenb]; exact hnd
      closed_iff := by rintro n _ rfl; simp [hclosedb, (hg _).2.1, hprev n]
      closed_nodup := by rintro _ rfl; simp [hclosedb]
      open_blocks := by
        rintro _ t'' rfl ht'' -
        rw [hnow] at ht''
        cases ht''
        rw [hblocks]
        exact ho.open_blocks _ t ht hop
      owner := fun n id' hown he => by
        rw [(hg _).1, hown, Option.some.injEq] at he
        exact he.symm
      previous := fun n id' _ _ => by rw [(hg _).2.1]
      free := fun n hown he => by rw [(hg _).1, hown] at he; cases he
      both := fun n hown _ hp => by
        rw [(hg _).2.1] at hp
        rw [(hg _).2.2]
        exact ho.both n (by rw [hown]; simp) hp
      parent_sub := fun n id' hown he hne => by
        rw [(hg _).1, hown, Option.some.injEq] at he
        subst he
        simp [BlockCache.hasSub, hnow, hpar _ hne]
      ids := by
        rintro _ rfl -
        rw [hid]
        exact ho.ids _ (by rw [ht]; simp)
      nextTransactionId := Nat.le_of_eq hid.symm }

lemma SubStarted.finishing
    (h : SubStarted s s' id t) (hf : Finishing e s []) : Finishing e s' [] := by
  have hr := rehomed_sub hf.owners h.transaction h.isOpen (g := BlockRole.subStarted)
    h.transactionHash h.nextTransactionId rfl rfl h.isOpen (fun _ => ⟨rfl, rfl, rfl⟩)
    (fun _ _ => rfl)
  have hnow : ∀ {id' t'}, id' = id → s'.transactionHash id' = some t' →
      t' = { t with hasSubTransaction := true, mainNumBlocks := t.numBlocks,
                    subNumBlocks := 0 } := by
    rintro id' t' rfl ht'
    rw [h.transactionHash, update_self] at ht'
    exact (Option.some.inj ht').symm
  -- all blocks of the transaction now belong to the parent part
  have hparent : ∀ n ∈ t.firstBlock, (s'.role n).parent = .current := by
    intro n hn
    rw [h.mapped.role, if_pos ((mem_firstBlock hf.owners h.transaction h.isOpen n).1 hn)]
    rfl
  have hcount := hf.counts.opened id t h.transaction h.isOpen
  refine ⟨h.mapped.owners hf.owners hr, h.mapped.counts hf.owners hf.counts hr
      (fun id' t' he ht' _ => ?_) (fun id' t' he ht' _ _ => ?_) (fun id' t' he ht' _ _ => ?_)
      (fun id' t' he ht' hcl => ?_),
    h.mapped.unused hf.unused, h.mapped.busy hf.busy ?_ ?_, by simp⟩
  · rw [hnow he ht']
    exact hcount
  · rw [hnow he ht']
    show Counted e (t.firstBlock.countP _) t.numBlocks
    rw [List.countP_eq_length.2 fun n hn => by rw [hparent n hn]; rfl]
    exact hcount
  · rw [hnow he ht']
    show Counted e (t.firstBlock.countP _) 0
    rw [List.countP_eq_zero.2 fun n hn => by rw [hparent n hn]; simp]
    exact ⟨Int.le_refl 0, fun _ => rfl⟩
  · rw [hnow he ht'] at hcl
    rw [h.isOpen] at hcl
    cases hcl
  · simp [BlockCache.inFlight, h.idle]
  · simp [h.idle]

lemma SubAborted.finishing
    (h : SubAborted s s' id t) (hf : Finishing e s []) : Finishing e s' [] := by
  have hr := rehomed_sub hf.owners h.transaction h.isOpen (g := BlockRole.subAborted)
    h.transactionHash h.nextTransactionId rfl rfl h.isOpen (fun _ => ⟨rfl, rfl, rfl⟩)
    (fun _ hne => absurd rfl hne)
  have hnow : ∀ {id' t'}, id' = id → s'.transactionHash id' = some t' →
      t' = { t with hasSubTransaction := false, subNumBlocks := 0 } := by
    rintro id' t' rfl ht'
    rw [h.transactionHash, update_self] at ht'
    exact (Option.some.inj ht').symm
  refine ⟨h.mapped.owners hf.owners hr, h.mapped.counts hf.owners hf.counts hr
      (fun id' t' he ht' _ => ?_) (fun id' t' he ht' _ hs => ?_) (fun id' t' he ht' _ hs => ?_)
      (fun id' t' he ht' hcl => ?_),
    h.mapped.unused hf.unused, h.mapped.busy hf.busy ?_ ?_, by simp⟩
  · rw [hnow he ht']
    exact hf.counts.opened id t h.transaction h.isOpen
  · rw [hnow he ht'] at hs
    cases hs
  · rw [hnow he ht'] at hs
    cases hs
  · rw [hnow he ht'] at hcl
    rw [h.isOpen] at hcl
    cases hcl
  · simp [BlockCache.inFlight, h.idle]
  · simp [h.idle]

/-! ## `cache_detach_sub_transaction()` -/

lemma select_parent (ho : Owners s) (ht : s.transactionHash id = some t) (hopen : t.isOpen = true)
    {p : ParentData D → Bool}
    (h : ∀ b : CachedBlock D, b.discard = false → test b = p b.parentData) :
    s.select t.firstBlock test = t.firstBlock.filter fun n => p (s.role n).parent := by
  refine List.filter_congr fun n hn => ?_
  obtain ⟨b, hb, -⟩ := cached_of_owner ((mem_firstBlock ho ht hopen n).1 hn)
  rw [hb, Option.any_some, h b (ho.no_discard n b hb), role_of_cached hb]
  rfl

/-- The closed transaction that `cache_detach_sub_transaction()` leaves behind. -/
def CacheTransaction.detached (t : CacheTransaction) (blocks : List BlockNumber) :
    CacheTransaction :=
  { t with
    blocks := blocks
    isOpen := false
    hasSubTransaction := false
    numBlocks := t.mainNumBlocks
    subNumBlocks := 0 }

attribute [simp] CacheTransaction.new CacheTransaction.detached

/-- The state after `cache_detach_sub_transaction()`. The new transaction's id is the old
`nextTransactionId`. -/
structure Detached (s s' : BlockCache D) (id : TransactionId) (t : CacheTransaction) : Prop where
  transaction : s.transactionHash id = some t
  isOpen : t.isOpen = true
  mapped : Mapped s s' id (fun b => (b.detached id s.nextTransactionId).getD b)
    (BlockRole.detached id s.nextTransactionId)
  transactionHash : s'.transactionHash = update
    (update s.transactionHash id
      (some (t.detached (t.firstBlock.filter fun n => !(s.role n).parent.isNull))))
    s.nextTransactionId
    (some { CacheTransaction.new with
      firstBlock := t.firstBlock.filter fun n => !(s.role n).parent.isCurrent
      numBlocks := t.subNumBlocks })
  nextTransactionId : s'.nextTransactionId = s.nextTransactionId + 1
  notified : s'.notified = s.notified ++ [(id, .ended)]

lemma detached_of_call (ho : Owners s)
    (hopen : s.isOpen id = true) (hs : s.finishDetach id = some s') : ∃ t, Detached s s' id t := by
  unfold BlockCache.finishDetach at hs
  obtain ⟨t, ht, hop⟩ := exists_of_isOpen hopen
  have hparent : s.select t.firstBlock CachedBlock.changedByParent
      = t.firstBlock.filter fun n => !(s.role n).parent.isNull :=
    select_parent ho ht hop (p := fun p => !p.isNull) fun b hd => by
      unfold CachedBlock.changedByParent
      cases b.parentData <;> simp [hd]
  have hmoves : s.select t.firstBlock CachedBlock.movesOver
      = t.firstBlock.filter fun n => !(s.role n).parent.isCurrent :=
    select_parent ho ht hop (p := fun p => !p.isCurrent) fun b hd => by
      unfold CachedBlock.movesOver
      cases b.parentData <;> simp [hd]
  simp only [ht, Option.some.injEq, select_discard ho, hparent, hmoves,
    ho.open_blocks id t ht hop, List.nil_append, List.length_nil, Int.natCast_zero,
    Int.sub_zero] at hs
  subst hs
  refine ⟨t, ht, hop, mapped_mapBlocks ho ht hop
    (fun b hd => ?_) (fun n b hn _ => ?_) rfl ⟨rfl, rfl, rfl, rfl, rfl, rfl⟩
    (fun b => ?_), rfl, rfl, rfl⟩
  · cases hp : b.parentData <;> simp [CachedBlock.detached, hd, hp]
  · cases hp : b.parentData <;>
      simp [CachedBlock.detached, ho.no_discard n b hn, hp, roleOf, BlockRole.detached]
  · unfold CachedBlock.detached
    split
    · exact ⟨rfl, rfl, fun hd => hd, rfl, rfl, rfl⟩
    · split <;> exact ⟨rfl, rfl, fun hd => hd, rfl, rfl, rfl⟩

lemma Detached.newId_ne (h : Detached s s' id t) (ho : Owners s) :
    s.nextTransactionId ≠ id := by
  exact Nat.ne_of_gt (ho.ids id (by rw [h.transaction]; simp))

lemma Detached.closed (h : Detached s s' id t) (ho : Owners s) :
    s'.transactionHash id
      = some (t.detached (t.firstBlock.filter fun n => !(s.role n).parent.isNull)) := by
  rw [h.transactionHash, update_of_ne (h.newId_ne ho).symm, update_self]

lemma Detached.opened (h : Detached s s' id t) :
    s'.transactionHash s.nextTransactionId = some { CacheTransaction.new with
      firstBlock := t.firstBlock.filter fun n => !(s.role n).parent.isCurrent
      numBlocks := t.subNumBlocks } := by
  rw [h.transactionHash, update_self]

lemma Owners.fresh_id (ho : Owners s) : s.transactionHash s.nextTransactionId = none := by
  by_contra hne
  exact absurd (ho.ids _ hne) (Nat.lt_irrefl _)

lemma Owners.owner_ne_next (ho : Owners s) (n : BlockNumber) :
    (s.role n).owner ≠ some s.nextTransactionId := by
  intro hown
  obtain ⟨t, ht, -⟩ := ho.isOpen hown
  rw [ho.fresh_id] at ht
  cases ht

lemma Owners.previous_ne_next (ho : Owners s) (n : BlockNumber) :
    (s.role n).previous ≠ some s.nextTransactionId := by
  intro hp
  obtain ⟨t, ht, -⟩ := ho.isClosed hp
  rw [ho.fresh_id] at ht
  cases ht

lemma Detached.rehomed (h : Detached s s' id t) (ho : Owners s) (hc : Closable s id) :
    Rehomed s s' id (BlockRole.detached id s.nextTransactionId)
      (fun id' => id' = id ∨ id' = s.nextTransactionId) := by
  have hne := h.newId_ne ho
  have hwritten : ∀ {n}, (s.role n).owner = some id → (s.role n).previous = none :=
    fun hn => hc.written _ ((ho.open_iff _ id).2 hn)
  have hopenId : s'.openBlocks id = [] := by
    simp [BlockCache.openBlocks, h.closed ho]
  have hclosedId : s'.closedBlocks id
      = t.firstBlock.filter fun n => !(s.role n).parent.isNull := by
    simp [BlockCache.closedBlocks, h.closed ho]
  have hopenNew : s'.openBlocks s.nextTransactionId
      = t.firstBlock.filter fun n => !(s.role n).parent.isCurrent := by
    simp [BlockCache.openBlocks, h.opened]
  have hclosedNew : s'.closedBlocks s.nextTransactionId = [] := by
    simp [BlockCache.closedBlocks, h.opened]
  have hmem := mem_firstBlock ho h.transaction h.isOpen
  have hnd : t.firstBlock.Nodup := by
    simpa [BlockCache.openBlocks, h.transaction, h.isOpen] using ho.open_nodup id
  refine
    { same := fun id' hid => ?_
      changed_id := .inl rfl
      owned := fun n id' hid hown => ?_
      pending := fun n id' hid => ?_
      open_iff := fun n id' hid => ?_
      open_nodup := fun id' hid => ?_
      closed_iff := fun n id' hid => ?_
      closed_nodup := fun id' hid => ?_
      open_blocks := fun id' t' hid ht' hop => ?_
      owner := fun n id' hown he => ?_
      previous := fun n id' hown hid => ?_
      free := fun n hown he => ?_
      both := fun n hown howner hp => ?_
      parent_sub := fun n id' hown he hp => ?_
      ids := fun id' hid _ => ?_
      nextTransactionId := by rw [h.nextTransactionId]; exact Nat.le_succ _ }
  · rw [not_or] at hid
    rw [h.transactionHash, update_of_ne hid.2, update_of_ne hid.1]
  · rcases hid with rfl | rfl
    · rfl
    · exact absurd hown (ho.owner_ne_next n)
  · rcases hid with rfl | rfl
    · exact ho.previous_ne_of_isOpen hc.isOpen n
    · exact ho.previous_ne_next n
  · rcases hid with rfl | rfl
    · rw [hopenId]
      unfold BlockRole.detached
      cases hp : (s.role n).parent <;> simp [hne]
    · rw [hopenNew, List.mem_filter, hmem]
      unfold BlockRole.detached
      cases hp : (s.role n).parent <;> simp
  · rcases hid with rfl | rfl
    · simp [hopenId]
    · rw [hopenNew]
      exact hnd.filter _
  · rcases hid with rfl | rfl
    · rw [hclosedId, List.mem_filter, hmem]
      have hprev := ho.previous_ne_of_isOpen hc.isOpen n
      unfold BlockRole.detached
      cases hp : (s.role n).parent <;> simp [hprev]
    · rw [hclosedNew]
      have hprev := ho.previous_ne_next n
      unfold BlockRole.detached
      cases hp : (s.role n).parent <;> simp [hprev, hne.symm]
  · rcases hid with rfl | rfl
    · rw [hclosedId]
      exact hnd.filter _
    · simp [hclosedNew]
  · rcases hid with rfl | rfl
    · rw [h.closed ho] at ht'
      cases ht'
      cases hop
    · rw [h.opened] at ht'
      cases ht'
      rfl
  · unfold BlockRole.detached at he
    split at he
    · exact .inr (Option.some.inj he).symm
    · exact .inr (Option.some.inj he).symm
    · cases he
  · rw [not_or] at hid
    unfold BlockRole.detached
    split
    · exact Iff.rfl
    · simp [hwritten hown, Ne.symm hid.1]
    · simp [hwritten hown, Ne.symm hid.1]
  · unfold BlockRole.detached at he ⊢
    split at he
    · cases he
    · cases he
    · exact ⟨rfl, rfl⟩
  · unfold BlockRole.detached at howner hp ⊢
    cases hpar : (s.role n).parent with
    | null =>
      rw [hpar] at hp
      exact absurd (hwritten hown) hp
    | copy d => simp
    | current =>
      rw [hpar] at howner
      exact absurd rfl howner
  · unfold BlockRole.detached at hp
    split at hp
    · exact absurd ‹_› hp
    · exact absurd rfl hp
    · exact absurd rfl hp
  · rw [h.nextTransactionId]
    rcases hid with rfl | rfl
    · exact Nat.lt_succ_of_lt (ho.ids _ (by rw [h.transaction]; simp))
    · exact Nat.lt_succ_self _

lemma Detached.finishing (h : Detached s s' id t) (hf : Finishing e s []) (hc : Closable s id)
    (hsub : s.hasSub id = true) : Finishing e s' [] := by
  have hr := h.rehomed hf.owners hc
  have hs : t.hasSubTransaction = true := by
    simpa [BlockCache.hasSub, h.transaction] using hsub
  have hno : ∀ {t'}, s'.transactionHash id = some t' → t'.isOpen = true → False := by
    intro t' ht' hop
    rw [h.closed hf.owners] at ht'
    cases ht'
    cases hop
  refine ⟨h.mapped.owners hf.owners hr, h.mapped.counts hf.owners hf.counts hr
      (fun id' t' he ht' hop => ?_) (fun id' t' he ht' hop hs' => ?_)
      (fun id' t' he ht' hop hs' => ?_) (fun id' t' he ht' hcl => ?_),
    h.mapped.unused hf.unused, h.mapped.busy hf.busy (fun n hn => ?_) hc.alone,
    by simp⟩
  · rcases he with rfl | rfl
    · exact (hno ht' hop).elim
    · rw [h.opened] at ht'
      cases ht'
      show Counted e (t.firstBlock.filter _).length t.subNumBlocks
      rw [← List.countP_eq_length_filter]
      exact hf.counts.sub id t h.transaction h.isOpen hs
  · rcases he with rfl | rfl
    · exact (hno ht' hop).elim
    · rw [h.opened] at ht'
      cases ht'
      cases hs'
  · rcases he with rfl | rfl
    · exact (hno ht' hop).elim
    · rw [h.opened] at ht'
      cases ht'
      cases hs'
  · rcases he with rfl | rfl
    · rw [h.closed hf.owners] at ht'
      cases ht'
      show Counted e (t.firstBlock.filter _).length t.mainNumBlocks
      rw [← List.countP_eq_length_filter]
      exact hf.counts.main id' t h.transaction h.isOpen hs
    · rw [h.opened] at ht'
      cases ht'
      cases hcl
  · rw [h.mapped.role]
    split
    · -- a block of the transaction that is being written was closed before
      rename_i hown
      exact absurd (hc.written n ((hf.owners.open_iff n id).2 hown))
        (hf.busy.role n hn (by rw [hown]; simp))
    · exact hf.busy.role n hn

/-! ## `cache_start_transaction()` -/

lemma startTransaction_finishing (hf : Finishing e s [])
    (hs : s.cacheStartTransaction = some s') : Finishing e s' [] := by
  unfold BlockCache.cacheStartTransaction at hs
  split at hs
  · cases hs
  split at hs
  · cases hs
  rename_i hbusy _
  have hidle := hf.busy.writers_nil (by simpa using hbusy)
  cases hs
  have ho := hf.owners
  set s' : BlockCache D :=
    { s.setTransaction s.nextTransactionId .new with
      nextTransactionId := s.nextTransactionId + 1
      lastTransaction := some s.nextTransactionId
      transactionBusy := update s.transactionBusy s.nextTransactionId 0 } with hs'
  have hnew : s'.transactionHash s.nextTransactionId = some .new := by simp [hs']
  have hsame : ∀ {id}, id ≠ s.nextTransactionId →
      s'.transactionHash id = s.transactionHash id := fun hid => by simp [hs', hid]
  have hopenb : ∀ id, s'.openBlocks id = s.openBlocks id := by
    intro id
    by_cases hid : id = s.nextTransactionId
    · simp [BlockCache.openBlocks, hid, hnew, ho.fresh_id]
    · rw [BlockCache.openBlocks, hsame hid]
      rfl
  have hclosedb : ∀ id, s'.closedBlocks id = s.closedBlocks id := by
    intro id
    by_cases hid : id = s.nextTransactionId
    · simp [BlockCache.closedBlocks, hid, hnew, ho.fresh_id]
    · rw [BlockCache.closedBlocks, hsame hid]
      rfl
  have hcases : ∀ {id t}, s'.transactionHash id = some t →
      t = .new ∨ s.transactionHash id = some t := by
    intro id t ht
    by_cases hid : id = s.nextTransactionId
    · rw [hid, hnew] at ht
      exact .inl (Option.some.inj ht).symm
    · rw [hsame hid] at ht
      exact .inr ht
  have hzero : Counted e 0 0 := ⟨Int.le_refl 0, fun _ => rfl⟩
  refine ⟨⟨fun n id => ?_, fun id => ?_, fun n id => ?_, fun id => ?_, fun id t ht hop => ?_,
      ho.free, ho.both, fun n id hown hpar => ?_, fun id hne => ?_, ho.no_discard⟩,
    ⟨fun id t ht hop => ?_, fun id t ht hop hsub => ?_, fun id t ht hop hsub => ?_,
      fun id t ht hcl => ?_⟩,
    hf.unused.congr rfl rfl (fun _ => Iff.rfl) hf.unused.idle,
    hf.busy.update rfl rfl (fun _ => Iff.rfl) hf.busy.role ?_ ?_, by simp⟩
  · rw [hopenb]
    exact ho.open_iff n id
  · rw [hopenb]
    exact ho.open_nodup id
  · rw [hclosedb]
    exact ho.closed_iff n id
  · rw [hclosedb]
    exact ho.closed_nodup id
  · rcases hcases ht with rfl | ht
    · rfl
    · exact ho.open_blocks id t ht hop
  · have hid : id ≠ s.nextTransactionId := by
      rintro rfl
      exact ho.owner_ne_next n hown
    rw [BlockCache.hasSub, hsame hid]
    exact ho.parent_sub n id hown hpar
  · by_cases hid : id = s.nextTransactionId
    · rw [hid]
      exact Nat.lt_succ_self _
    · rw [hsame hid] at hne
      exact Nat.lt_succ_of_lt (ho.ids id hne)
  · rcases hcases ht with rfl | ht
    · exact hzero
    · exact hf.counts.opened id t ht hop
  · rcases hcases ht with rfl | ht
    · cases hsub
    · exact hf.counts.main id t ht hop hsub
  · rcases hcases ht with rfl | ht
    · cases hsub
    · exact hf.counts.sub id t ht hop hsub
  · rcases hcases ht with rfl | ht
    · cases hcl
    · exact hf.counts.closed id t ht hcl
  · simp [hidle]
  · simp [hidle]

end Haiku.Cache
