import Haiku.Cache.BlocksTheorems

/-!
# Fetching a block for writing

What `get_writable_cached_block()` does, with and without a transaction. `Touched` is the
complete description of the call under a transaction in terms of roles and contents:
which buffers it allocates, what it copies into them, and how the transaction's list
and counters change.
-/

namespace Haiku.Cache

open Function Lib

variable {D : Type}

/-! ## The role of a block that joins a transaction -/

/-- The role of a block after it was fetched for writing in transaction `id`, if it had
contents `data`; `skip` is set if the block was not cached and is to be cleared. -/
def BlockRole.touched (r : BlockRole D) (id : TransactionId) (data : D) (skip : Bool) :
    BlockRole D where
  original := if !skip && r.original.isNone then some data else r.original
  parent :=
    match r.parent with
    | .current => .copy data
    | p => p
  owner := some id
  previous := r.previous

attribute [simp] BlockRole.touched

/-- How much `sub_num_blocks` grows, from the role of the block. -/
def BlockRole.subGrowth (r : BlockRole D) (hasSubTransaction : Bool) : ℤ :=
  match r.parent with
  | .current => 1
  | .null => if hasSubTransaction && (r.original.isNone || r.previous.isSome) then 1 else 0
  | .copy _ => 0

/-- The transaction after block `n` was fetched for writing in it. -/
def CacheTransaction.touched (t : CacheTransaction) (n : BlockNumber) (r : BlockRole D) :
    CacheTransaction :=
  { t with
    firstBlock := if r.owner.isNone then n :: t.firstBlock else t.firstBlock
    numBlocks := if r.owner.isNone then t.numBlocks + 1 else t.numBlocks
    subNumBlocks := t.subNumBlocks + r.subGrowth t.hasSubTransaction }

/-- Block `n` was fetched for writing in transaction `id`, and cleared if `cleared`. -/
structure Touched (s s' : BlockCache D) (n : BlockNumber) (id : TransactionId)
    (skip : Bool) (t : CacheTransaction) : Prop where
  transaction : s.transactionHash id = some t
  isOpen : t.isOpen = true
  owner : (s.role n).owner = none ∨ (s.role n).owner = some id
  role : ∀ m, s'.role m = if m = n then (s.role n).touched id (s.readBack n) skip else s.role m
  transactionHash : s'.transactionHash =
    update s.transactionHash id (some (t.touched n (s.role n)))
  device : s'.device = s.device
  written : s'.written = s.written
  notified : s'.notified = s.notified
  writers : s'.writers = s.writers
  nextTransactionId : s'.nextTransactionId = s.nextTransactionId
  notBusy : ∀ b, s.hash n = some b → b.busyWriting = false
  others : ∀ m, m ≠ n → s'.hash m = s.hash m ∨ s'.hash m = none ∧
    ∃ c, s.hash m = some c ∧ c.unused = true ∧ c.isDirty = false

/-! ## The invariant -/

section Touched

variable {s s' : BlockCache D} {n : BlockNumber} {id : TransactionId} {skip : Bool}
  {t : CacheTransaction}

section

variable (h : Touched s s' n id skip t)
include h

lemma Touched.openBlocks (ho : Owners s) (m : BlockNumber) (id' : TransactionId) :
    m ∈ s'.openBlocks id' ↔ m ∈ s.openBlocks id' ∨ (id' = id ∧ m = n) := by
  unfold BlockCache.openBlocks
  rw [h.transactionHash, update_apply]
  by_cases hid : id' = id
  · subst hid
    simp only [↓reduceIte, Option.elim_some, h.transaction, CacheTransaction.touched, h.isOpen]
    rcases h.owner with hown | hown
    · simp [hown, or_comm]
    · have hmem : n ∈ s.openBlocks id' := (ho.open_iff n id').2 hown
      simp only [BlockCache.openBlocks, h.transaction, Option.elim_some, h.isOpen,
        ↓reduceIte] at hmem
      simp only [hown, Option.isNone_some, Bool.false_eq_true, ↓reduceIte, true_and]
      constructor
      · exact .inl
      · rintro (hm | rfl)
        · exact hm
        · exact hmem
  · simp [hid]

lemma Touched.closedBlocks (id' : TransactionId) : s'.closedBlocks id' = s.closedBlocks id' := by
  unfold BlockCache.closedBlocks
  rw [h.transactionHash, update_apply]
  by_cases hid : id' = id
  · subst hid
    simp [h.transaction, CacheTransaction.touched, h.isOpen]
  · simp [hid]

lemma Touched.hasSub (id' : TransactionId) : s'.hasSub id' = s.hasSub id' := by
  unfold BlockCache.hasSub
  rw [h.transactionHash, update_apply]
  by_cases hid : id' = id
  · subst hid
    simp [h.transaction, CacheTransaction.touched]
  · simp [hid]

lemma Touched.isOpen_eq (id' : TransactionId) : s'.isOpen id' = s.isOpen id' := by
  unfold BlockCache.isOpen
  rw [h.transactionHash, update_apply]
  by_cases hid : id' = id
  · subst hid
    simp [h.transaction, CacheTransaction.touched]
  · simp [hid]

lemma Touched.owners (ho : Owners s) (hskip : skip = true → (s.role n).previous = none)
    (hdis : ∀ m b, s'.hash m = some b → b.discard = false) : Owners s' where
  open_iff m id' := by
    rw [h.openBlocks ho, ho.open_iff, h.role m]
    by_cases hm : m = n
    · subst hm
      simp only [and_true, ↓reduceIte, BlockRole.touched, Option.some.injEq]
      rcases h.owner with hown | hown
      · simp [hown, eq_comm]
      · simp only [hown, Option.some.injEq]
        constructor
        · rintro (h' | h')
          · exact h'
          · exact h'.symm
        · exact .inl
    · simp [hm]
  open_nodup id' := by
    have hnd := ho.open_nodup id'
    unfold BlockCache.openBlocks at hnd ⊢
    rw [h.transactionHash, update_apply]
    by_cases hid : id' = id
    · subst hid
      simp only [h.transaction, Option.elim_some, h.isOpen, ↓reduceIte] at hnd
      simp only [↓reduceIte, Option.elim_some, CacheTransaction.touched, h.isOpen]
      split
      · rename_i hown
        refine List.nodup_cons.2 ⟨fun hm => ?_, hnd⟩
        have := (ho.open_iff n id').1 (by
          simpa [BlockCache.openBlocks, h.transaction, h.isOpen] using hm)
        rw [this] at hown
        cases hown
      · exact hnd
    · simpa [hid] using hnd
  closed_iff m id' := by
    rw [h.closedBlocks, ho.closed_iff, h.role m]
    by_cases hm : m = n
    · subst hm
      simp
    · simp [hm]
  closed_nodup id' := by rw [h.closedBlocks]; exact ho.closed_nodup id'
  open_blocks id' t' ht' hopen := by
    rw [h.transactionHash, update_apply] at ht'
    split at ht'
    · cases ht'
      exact ho.open_blocks id t h.transaction h.isOpen
    · exact ho.open_blocks id' t' ht' hopen
  free m hown := by
    rw [h.role m] at hown ⊢
    by_cases hm : m = n
    · simp [hm] at hown
    · simp only [hm, ↓reduceIte] at hown ⊢
      exact ho.free m hown
  both m hown hprev := by
    rw [h.role m] at hown hprev ⊢
    by_cases hm : m = n
    · subst hm
      simp only [↓reduceIte, BlockRole.touched, ne_eq] at hprev ⊢
      cases skip with
      | true => exact absurd (hskip rfl) hprev
      | false => cases (s.role m).original <;> simp
    · simp only [hm, ↓reduceIte] at hown hprev ⊢
      exact ho.both m hown hprev
  parent_sub m id' hown hpar := by
    rw [h.hasSub]
    rw [h.role m] at hown hpar
    by_cases hm : m = n
    · subst hm
      simp only [↓reduceIte, BlockRole.touched, Option.some.injEq] at hown hpar
      subst hown
      rcases h.owner with hown | hown
      · simp [(ho.free m hown).2] at hpar
      · refine ho.parent_sub m id hown fun hnull => ?_
        simp [hnull] at hpar
    · simp only [hm, ↓reduceIte] at hown hpar
      exact ho.parent_sub m id' hown hpar
  ids id' hne := by
    rw [h.nextTransactionId]
    rw [h.transactionHash, update_apply] at hne
    by_cases hid : id' = id
    · exact ho.ids id' (by rw [hid, h.transaction]; simp)
    · rw [if_neg hid] at hne
      exact ho.ids id' hne
  no_discard := hdis

end

variable {l : List BlockNumber}

lemma countP_role_of_notMem (hrole : ∀ m, m ≠ n → s'.role m = s.role m) (hn : n ∉ l)
    (p : BlockRole D → Bool) :
    l.countP (fun m => p (s'.role m)) = l.countP (fun m => p (s.role m)) := by
  refine List.countP_congr fun m hm => ?_
  rw [hrole m (fun he : m = n => hn (he ▸ hm))]

lemma countP_role_of_mem (hrole : ∀ m, m ≠ n → s'.role m = s.role m) (hnd : l.Nodup)
    (hn : n ∈ l) (p : BlockRole D → Bool) :
    l.countP (fun m => p (s'.role m)) + (if p (s.role n) then 1 else 0)
      = l.countP (fun m => p (s.role m)) + (if p (s'.role n) then 1 else 0) := by
  induction l with
  | nil => cases hn
  | cons a l ih =>
    rw [List.nodup_cons] at hnd
    rw [List.countP_cons, List.countP_cons]
    rcases List.mem_cons.1 hn with rfl | hn'
    · rw [countP_role_of_notMem hrole hnd.1 p]
      omega
    · have hne : a ≠ n := fun he => hnd.1 (he ▸ hn')
      have := ih hnd.2 hn'
      rw [hrole a hne]
      omega

lemma Counted.add {e : Bool} {a a' : ℕ} {b b' : ℤ} (h : Counted e a b)
    (hle : (a' : ℤ) - a ≤ b' - b) (heq : e = true → (a' : ℤ) - a = b' - b) :
    Counted e a' b' := by
  refine ⟨?_, fun he => ?_⟩
  · have := h.1
    omega
  · have := h.2 he
    have := heq he
    omega

lemma Touched.transaction_cases (h : Touched s s' n id skip t) (ho : Owners s)
    {id' : TransactionId} {t' : CacheTransaction} (ht' : s'.transactionHash id' = some t') :
    id' = id ∧ t' = t.touched n (s.role n) ∨
      s.transactionHash id' = some t' ∧ (t'.isOpen = true → n ∉ t'.firstBlock) := by
  rw [h.transactionHash, update_apply] at ht'
  split at ht'
  · rename_i hid
    cases ht'
    exact .inl ⟨hid, rfl⟩
  · rename_i hid
    refine .inr ⟨ht', fun hopen hm => hid ?_⟩
    have hown := (ho.open_iff n id').1 (by simpa [BlockCache.openBlocks, ht', hopen] using hm)
    rcases h.owner with hn | hn
    · rw [hown] at hn; cases hn
    · rw [hown] at hn
      exact Option.some.inj hn

lemma Touched.countP (h : Touched s s' n id skip t) (ho : Owners s)
    (p : BlockRole D → Bool) :
    (t.touched n (s.role n)).firstBlock.countP (fun m => p (s'.role m))
        + (if (s.role n).owner = some id ∧ p (s.role n) = true then 1 else 0)
      = t.firstBlock.countP (fun m => p (s.role m)) + (if p (s'.role n) = true then 1 else 0) := by
  have hrole : ∀ m, m ≠ n → s'.role m = s.role m := fun m hm => by rw [h.role m, if_neg hm]
  have hmem : n ∈ t.firstBlock ↔ (s.role n).owner = some id := by
    rw [← ho.open_iff n id]
    simp [BlockCache.openBlocks, h.transaction, h.isOpen]
  rcases h.owner with hown | hown
  · have hnm : n ∉ t.firstBlock := fun hm => by rw [hmem.1 hm] at hown; cases hown
    simp only [CacheTransaction.touched, hown, Option.isNone_none, ↓reduceIte, List.countP_cons,
      reduceCtorEq, false_and, Nat.add_zero]
    rw [countP_role_of_notMem hrole hnm p]
  · have hnd : t.firstBlock.Nodup := by
      simpa [BlockCache.openBlocks, h.transaction, h.isOpen] using ho.open_nodup id
    simp only [CacheTransaction.touched, hown, Option.isNone_some, Bool.false_eq_true, ↓reduceIte,
      true_and]
    exact countP_role_of_mem hrole hnd (hmem.2 hown) p

lemma subGrowth_ge (r : BlockRole D) (hfree : r.owner = none → r.original = none ∧
    r.parent = .null) :
    (1 : ℤ) - (if r.owner.isSome && !r.parent.isCurrent then 1 else 0) ≤ r.subGrowth true := by
  unfold BlockRole.subGrowth
  cases hown : r.owner with
  | none => simp [(hfree hown).1, (hfree hown).2]
  | some id => cases hpar : r.parent <;> simp [ParentData.isCurrent]; split <;> omega

lemma subGrowth_eq (r : BlockRole D) (hfree : r.owner = none → r.original = none ∧
    r.parent = .null)
    (hsub : r.owner ≠ none → r.parent = .null → r.original ≠ none ∧ r.previous = none) :
    r.subGrowth true = 1 - (if r.owner.isSome && !r.parent.isCurrent then 1 else 0) := by
  unfold BlockRole.subGrowth
  cases hown : r.owner with
  | none => simp [(hfree hown).1, (hfree hown).2]
  | some id =>
    cases hpar : r.parent with
    | null =>
      obtain ⟨horig, hprev⟩ := hsub (by simp [hown]) hpar
      simp [ParentData.isCurrent, hprev, Option.isNone_iff_eq_none, horig]
    | current => simp [ParentData.isCurrent]
    | copy d => simp [ParentData.isCurrent]

lemma Touched.counts (h : Touched s s' n id skip t) (ho : Owners s) {e : Bool}
    (hc : Counts e s)
    (hsub : e = true → t.hasSubTransaction = true → (s.role n).owner ≠ none →
      (s.role n).parent = .null → (s.role n).original ≠ none ∧ (s.role n).previous = none) :
    Counts e s' := by
  have hrole : ∀ m, m ≠ n → s'.role m = s.role m := fun m hm => by rw [h.role m, if_neg hm]
  have hself : s'.role n = (s.role n).touched id (s.readBack n) skip := by
    rw [h.role n, if_pos rfl]
  have hsome : (s.role n).owner = some id ↔ (s.role n).owner.isSome = true := by
    rcases h.owner with hn | hn <;> simp [hn]
  refine ⟨fun id' t' ht' hopen => ?_, fun id' t' ht' hopen hs => ?_,
    fun id' t' ht' hopen hs => ?_, fun id' t' ht' hopen => ?_⟩
  · rcases h.transaction_cases ho ht' with ⟨rfl, rfl⟩ | ⟨ht, -⟩
    · refine (hc.opened id' t h.transaction h.isOpen).add ?_ fun _ => ?_ <;>
      · simp only [CacheTransaction.touched]
        cases (s.role n).owner <;> simp <;> omega
    · exact hc.opened id' t' ht hopen
  · rcases h.transaction_cases ho ht' with ⟨rfl, rfl⟩ | ⟨ht, hnm⟩
    · have hcount := h.countP ho fun r => !r.parent.isNull
      -- fetching a block does not change whether the parent changed it
      have hsame : (s'.role n).parent.isNull = (s.role n).parent.isNull := by
        rw [hself, BlockRole.touched]
        cases (s.role n).parent <;> rfl
      have hfree := ho.free n
      rw [hsame] at hcount
      have heq : (t.touched n (s.role n)).firstBlock.countP (fun m => !(s'.role m).parent.isNull)
          = t.firstBlock.countP (fun m => !(s.role m).parent.isNull) := by
        rcases h.owner with hn | hn
        · simp [hn, (hfree hn).2, ParentData.isNull] at hcount
          exact hcount
        · simpa [hn] using hcount
      exact heq ▸ hc.main id' t h.transaction h.isOpen hs
    · rw [countP_role_of_notMem hrole (hnm hopen) fun r => !r.parent.isNull]
      exact hc.main id' t' ht hopen hs
  · rcases h.transaction_cases ho ht' with ⟨rfl, rfl⟩ | ⟨ht, hnm⟩
    · have hs' : t.hasSubTransaction = true := hs
      have hcount := h.countP ho fun r => !r.parent.isCurrent
      have hnew : (s'.role n).parent.isCurrent = false := by
        rw [hself, BlockRole.touched]
        cases (s.role n).parent <;> rfl
      have hge := subGrowth_ge (s.role n) (ho.free n)
      simp only [hsome, hnew, Bool.not_false, ↓reduceIte, ← Bool.and_eq_true] at hcount
      refine (hc.sub id' t h.transaction h.isOpen hs).add ?_ fun he => ?_
      · show _ ≤ t.subNumBlocks + (s.role n).subGrowth t.hasSubTransaction - t.subNumBlocks
        rw [hs']
        split at hge <;> simp_all <;> omega
      · have heq := subGrowth_eq (s.role n) (ho.free n) (hsub he hs')
        show _ = t.subNumBlocks + (s.role n).subGrowth t.hasSubTransaction - t.subNumBlocks
        rw [hs', heq]
        split <;> simp_all <;> omega
    · rw [countP_role_of_notMem hrole (hnm hopen) fun r => !r.parent.isCurrent]
      exact hc.sub id' t' ht hopen hs
  · rcases h.transaction_cases ho ht' with ⟨rfl, rfl⟩ | ⟨ht, -⟩
    · rw [CacheTransaction.touched] at hopen
      rw [h.isOpen] at hopen
      cases hopen
    · exact hc.closed id' t' ht hopen

lemma Touched.busy (h : Touched s s' n id skip t) (ho : Owners s) (hb : Busy s l)
    (hcl : s.isClosing id = false) (hc : s'.busyWritingCount = s.busyWritingCount)
    (hflag : ∀ m, (∃ b, s'.hash m = some b ∧ b.busyWriting = true)
      ↔ ∃ b, s.hash m = some b ∧ b.busyWriting = true) : Busy s' l := by
  have hnot : ∀ w ∈ s.writers, ¬ w.closes id := by
    intro w hw hcw
    simp only [BlockCache.isClosing, List.any_eq_false, Bool.or_eq_true, decide_eq_true_eq] at hcl
    exact hcl w hw hcw
  refine hb.update h.writers hc hflag (fun m hm => ?_) (fun w hw id' hcw => ?_)
    (fun w hw id' hd => ?_)
  · have hmn : m ≠ n := by
      rintro rfl
      obtain ⟨b, hb', hbw⟩ := (hb.busy_iff m).1 hm
      rw [h.notBusy b hb'] at hbw
      cases hbw
    rw [h.role m, if_neg hmn]
    exact hb.role m hm
  · have hid : id' ≠ id := by
      rintro rfl
      exact hnot w hw hcw
    refine ⟨by rw [h.isOpen_eq]; exact (hb.closing w hw id' hcw).1, fun m hm hp => ?_⟩
    rw [h.openBlocks ho] at hm
    rcases hm with hm | ⟨rfl, -⟩
    · have hmn : m ≠ n := by
        rintro rfl
        have := (ho.open_iff m id').1 hm
        rcases h.owner with hown | hown
        · rw [this] at hown; cases hown
        · rw [this] at hown
          cases hown
          exact hid rfl
      rw [h.role m, if_neg hmn] at hp
      exact (hb.closing w hw id' hcw).2 m hm hp
    · exact absurd rfl hid
  · rw [h.hasSub]
    exact hb.detaching w hw id' hd

end Touched

/-! ## `get_writable_cached_block()` -/

variable {m : Memory}

lemma allocate_if {s : BlockCache D} (h : Inv s) (hc : m.shrink = true → s.Evictable) (p : Prop)
    [Decidable p] : Evicts s (if p then s.allocate m else s) := by
  split
  · exact allocate_evicts h.unused hc
  · exact .refl s

lemma Evicts.trans {s s' s'' : BlockCache D} (h : Evicts s s') (h' : Evicts s' s'') :
    Evicts s s'' := by
  induction h with
  | refl s => exact h'
  | head cached unused clean idle _ ih => exact .head cached unused clean idle (ih h')

lemma attach_eq {s : BlockCache D} (ho : Owners s) {n : BlockNumber} {b : CachedBlock D}
    {id : TransactionId} {t' : CacheTransaction} (hb : s.hash n = some b)
    (ht : s.attach n b id = some t') :
    ∃ t, s.transactionHash id = some t ∧ t.isOpen = true ∧
      ((s.role n).owner = none ∨ (s.role n).owner = some id) ∧
      { t' with subNumBlocks := t'.subNumBlocks + t'.subGrowth b } = t.touched n (s.role n) := by
  have hrole := role_of_cached hb
  unfold BlockCache.attach at ht
  cases htr : b.transaction with
  | some id' =>
    simp only [htr] at ht
    split at ht
    · rename_i hid
      subst hid
      have hown : s.Owns id' n := by rw [BlockCache.Owns, hrole]; exact htr
      obtain ⟨t, ht₁, hopen, -⟩ := ho.isOpen hown
      rw [ht₁] at ht
      cases ht
      refine ⟨t', ht₁, hopen, .inr hown, ?_⟩
      simp only [CacheTransaction.touched, hrole, roleOf, htr, Option.isNone_some,
        Bool.false_eq_true, ↓reduceIte]
      rfl
    · cases ht
  | none =>
    simp only [htr] at ht
    cases ht₁ : s.transactionHash id with
    | none => simp [ht₁] at ht
    | some t =>
      simp only [ht₁] at ht
      split at ht
      · rename_i hopen
        cases ht
        refine ⟨t, rfl, hopen, .inl (by rw [hrole]; exact htr), ?_⟩
        simp only [CacheTransaction.touched, hrole, roleOf, htr, Option.isNone_none, ↓reduceIte]
        rfl
      · cases ht

variable [Zero D]

lemma writable_role (b : CachedBlock D) (id : TransactionId) (allocated cleared : Bool) :
    roleOf (some (b.writable id allocated cleared))
      = (roleOf (some b)).touched id b.currentData (allocated && cleared) := by
  simp only [roleOf, CachedBlock.writable, CachedBlock.needsOriginal, BlockRole.touched]
  cases b.parentData <;> rfl

/-- The state of the cache after a block was fetched for writing in a transaction. -/
structure WritableIn (s s' : BlockCache D) (n : BlockNumber) (id : TransactionId)
    (cleared : Bool) (t : CacheTransaction) (b : CachedBlock D) : Prop where
  touched : Touched s s' n id ((s.hash n).isNone && cleared) t
  cached : s'.hash n = some b
  contents : b.currentData = if cleared then 0 else s.readBack n
  isDirty : b.isDirty = true
  refCount : 0 < b.refCount
  isWriting : b.isWriting = true → ∃ c, s.hash n = some c ∧ c.isWriting = true
  busyWriting : b.busyWriting = false
  unused : Unused s'
  inv : s.isClosing id = false → Inv s'

lemma getWritable_in {s s' : BlockCache D} (h : Inv s)
    (hc : (m.reuse || m.shrink) = true → s.Evictable) {n : BlockNumber} {id : TransactionId}
    {cleared : Bool} (hs : s.getWritableCachedBlock m n (some id) cleared = some s') :
    ∃ t b, WritableIn s s' n id cleared t b := by
  unfold BlockCache.getWritableCachedBlock at hs
  obtain ⟨⟨s₁, allocated⟩, hget, hs⟩ := Option.bind_eq_some_iff.1 hs
  obtain ⟨b, hF, hread⟩ := fetched_getCachedBlock h hc hget
  simp only [hF.cached, Option.bind_eq_bind, Option.bind_some] at hs
  split at hs
  · cases hs
  rename_i hbusy
  obtain ⟨t', ht', hs⟩ := Option.bind_eq_some_iff.1 hs
  obtain ⟨t, ht, hopen, hown, htouched⟩ := attach_eq hF.inv.owners hF.cached ht'
  -- the evictions for the two buffers
  have hclean : m.shrink = true → s₁.Evictable :=
    fun hm => hF.evictable (hc (by simp [hm]))
  obtain ⟨s₂, hs₂, he⟩ : ∃ s₂, Evicts s₁ s₂ ∧
      s' = (s₂.setBlock n (b.writable id allocated cleared)).setTransaction id
        (t.touched n (s₁.role n)) := by
    rw [← htouched]
    have he₁ := allocate_if hF.inv hclean (b.needsOriginal allocated cleared = true)
    set sa := if b.needsOriginal allocated cleared = true then s₁.allocate m else s₁
    simp only [Option.some.injEq] at hs
    cases hpar : b.parentData with
    | current =>
      simp only [hpar] at hs
      exact ⟨_, he₁.trans (allocate_evicts (hF.inv.evicts he₁).unused
        fun hm => he₁.evictable (hclean hm)), hs.symm⟩
    | null =>
      simp only [hpar] at hs
      exact ⟨_, he₁, hs.symm⟩
    | copy d =>
      simp only [hpar] at hs
      exact ⟨_, he₁, hs.symm⟩
  subst he
  have hq₂ := hF.inv.evicts hs₂
  have hrest := hs₂.sameRest hF.inv
  have hcached₂ : s₂.hash n = some b := hrest.kept hF.cached hF.notUnused
  have hrole₁ : s₁.role n = roleOf (some b) := role_of_cached hF.cached
  have hrole : s.role n = roleOf (some b) := by rw [← hF.role n, hrole₁]
  have hbw : b.busyWriting = false := by simpa using hbusy
  have hskip : (allocated && cleared) = ((s.hash n).isNone && cleared) := by
    cases allocated with
    | true => rw [hF.allocated_iff.1 rfl]; rfl
    | false =>
      have : s.hash n ≠ none := fun hn => by cases hF.allocated_iff.2 hn
      cases hn : s.hash n with
      | none => exact absurd hn this
      | some c => rfl
  have hdata : (s.hash n).isNone = false ∨ cleared = false → b.currentData = s.readBack n := by
    intro hor
    cases hn : s.hash n with
    | some c => rw [(hF.same c hn).1, readBack_of_cached hn]
    | none =>
      have hcl : cleared = false := by simpa [hn] using hor
      rw [hread hn, readBack_of_not_cached hn, hcl]
      rfl
  have htd : (roleOf (some b)).touched id b.currentData (allocated && cleared)
      = (s.role n).touched id (s.readBack n) ((s.hash n).isNone && cleared) := by
    rw [hrole, hskip]
    by_cases hor : (s.hash n).isNone = false ∨ cleared = false
    · rw [hdata hor]
    · -- a new block that is cleared keeps neither copy
      rw [not_or, Bool.not_eq_false, Bool.not_eq_false] at hor
      have hnone : s.hash n = none := Option.isNone_iff_eq_none.1 hor.1
      have hidle : roleOf (some b) = roleOf none := by
        rw [← hrole, role_of_not_cached hnone]
      rw [hor.1, hor.2, hidle]
      rfl
  have hT : Touched s ((s₂.setBlock n (b.writable id allocated cleared)).setTransaction id
      (t.touched n (s₁.role n))) n id ((s.hash n).isNone && cleared) t := by
    refine ⟨by rw [← hF.transactionHash]; exact ht, hopen, by rw [← hF.role n]; exact hown,
      fun k => ?_, ?_, hrest.device.trans hF.device, hrest.written.trans hF.written,
      hrest.notified.trans hF.notified, hrest.writers.trans hF.writers,
      hrest.nextTransactionId.trans hF.nextTransactionId, fun c hcn => ?_, fun k hk => ?_⟩
    · show (s₂.setBlock n (b.writable id allocated cleared)).role k = _
      rw [setBlock_role]
      by_cases hk : k = n
      · rw [if_pos hk, if_pos hk, writable_role, htd]
      · rw [if_neg hk, if_neg hk, hrest.role, hF.role]
    · rw [setTransaction_transactionHash, setBlock_transactionHash, hrest.transactionHash,
        hF.transactionHash, hF.role]
    · rw [← (hF.same c hcn).2.2.2]
      exact hbw
    · simp only [setTransaction_hash, setBlock_hash, update_of_ne hk]
      rcases hrest.hash k with h₁ | ⟨h₁, c, hc₁, hu, hd⟩
      · rw [h₁]
        exact hF.others k hk
      · rcases hF.others k hk with h₂ | ⟨h₂, -⟩
        · exact .inr ⟨h₁, c, h₂ ▸ hc₁, hu, hd⟩
        · rw [h₂] at hc₁
          cases hc₁
  have hnu : n ∉ s₂.unusedBlocks := hq₂.unused.notMem hcached₂ hF.notUnused
  have hunused : Unused ((s₂.setBlock n (b.writable id allocated cleared)).setTransaction id
      (t.touched n (s₁.role n))) :=
    hq₂.unused.set rfl rfl rfl hnu hF.notUnused
  refine ⟨t, b.writable id allocated cleared, hT, ?_, ?_, rfl, hF.refCount, ?_, hbw, hunused,
    fun hcl => ?_⟩
  · rw [setTransaction_hash, setBlock_hash, update_self]
  · show (if cleared then 0 else b.currentData) = _
    cases cleared with
    | true => rfl
    | false => exact hdata (.inr rfl)
  · intro hw
    cases hn : s.hash n with
    | none =>
      have : b.isWriting = false := (hF.fresh hn).2.1
      exact absurd hw (by simp [CachedBlock.writable, this])
    | some c => exact ⟨c, rfl, by rw [← (hF.same c hn).2.2.1]; exact hw⟩
  · -- relate the invariant to the state after the evictions
    have ho₂ : Owners s₂ := hq₂.owners
    have hrole₂ : s₂.role n = roleOf (some b) := role_of_cached hcached₂
    have hT₂ : Touched s₂ ((s₂.setBlock n (b.writable id allocated cleared)).setTransaction id
        (t.touched n (s₁.role n))) n id (allocated && cleared) t := by
      refine ⟨by rw [hrest.transactionHash]; exact ht, hopen, by rw [hrest.role]; exact hown,
        fun k => ?_, ?_, rfl, rfl, rfl, rfl, rfl, fun c hcn => ?_, fun k hk => .inl ?_⟩
      · show (s₂.setBlock n (b.writable id allocated cleared)).role k = _
        rw [setBlock_role]
        by_cases hk : k = n
        · rw [if_pos hk, if_pos hk, writable_role, hrole₂, readBack_of_cached hcached₂]
        · rw [if_neg hk, if_neg hk]
      · rw [setTransaction_transactionHash, setBlock_transactionHash, hrest.role]
      · rw [hcached₂] at hcn
        cases hcn
        exact hbw
      · simp [hk]
    refine ⟨hT₂.owners ho₂ (fun hsk => ?_) (fun k c hk => ?_),
      hT₂.counts ho₂ hq₂.counts (by simp), hunused,
      hT₂.busy ho₂ hq₂.busy ?_ rfl fun k => ?_⟩
    · rw [hskip, Bool.and_eq_true, Option.isNone_iff_eq_none] at hsk
      rw [hrest.role, hF.role, role_of_not_cached hsk.1]
      rfl
    · rcases hash_set (s := s₂) rfl hk with ⟨-, rfl⟩ | ⟨-, hk'⟩
      · rfl
      · exact ho₂.no_discard k c hk'
    · rw [BlockCache.isClosing, hrest.writers, hF.writers]
      exact hcl
    · simp only [setTransaction_hash, setBlock_hash]
      by_cases hk : k = n
      · subst hk
        simp [hcached₂, hbw, CachedBlock.writable]
      · simp [hk]

/-- The state of the cache after a block was fetched for writing without a transaction. -/
structure WritableWithout (s s' : BlockCache D) (n : BlockNumber) (cleared : Bool)
    (b : CachedBlock D) : Prop where
  inv : Inv s'
  role : ∀ m, s'.role m = s.role m
  transactionHash : s'.transactionHash = s.transactionHash
  device : s'.device = s.device
  written : s'.written = s.written
  notified : s'.notified = s.notified
  writers : s'.writers = s.writers
  nextTransactionId : s'.nextTransactionId = s.nextTransactionId
  cached : s'.hash n = some b
  contents : b.currentData = if cleared then 0 else s.readBack n
  isDirty : b.isDirty = true
  isWriting : b.isWriting = true
  refCount : 0 < b.refCount
  notBusy : ∀ c, s.hash n = some c → c.busyWriting = false
  busyWriting : b.busyWriting = false
  others : ∀ m, m ≠ n → s'.hash m = s.hash m ∨ s'.hash m = none ∧
    ∃ c, s.hash m = some c ∧ c.unused = true ∧ c.isDirty = false

lemma getWritable_without {s s' : BlockCache D} (h : Inv s)
    (hc : (m.reuse || m.shrink) = true → s.Evictable) {n : BlockNumber} {cleared : Bool}
    (hs : s.getWritableCachedBlock m n none cleared = some s') :
    ∃ b, WritableWithout s s' n cleared b := by
  unfold BlockCache.getWritableCachedBlock at hs
  obtain ⟨⟨s₁, allocated⟩, hget, hs⟩ := Option.bind_eq_some_iff.1 hs
  obtain ⟨b, hF, hread⟩ := fetched_getCachedBlock h hc hget
  simp only [hF.cached, Option.bind_eq_bind, Option.bind_some] at hs
  split at hs
  · cases hs
  rename_i hbusy
  have hbw : b.busyWriting = false := by simpa using hbusy
  cases hs
  have hrole : s₁.role n = roleOf (some b) := role_of_cached hF.cached
  have hnu : n ∉ s₁.unusedBlocks := hF.inv.unused.notMem hF.cached hF.notUnused
  set b' : CachedBlock D :=
    { b with
      currentData := if cleared then 0 else b.currentData
      discard := false
      isWriting := true
      isDirty := true } with hb'
  have hset : (s₁.makeDirty n b cleared).hash = update s₁.hash n (some b') := rfl
  have hrole' : s₁.role n = roleOf (some b') := hrole
  refine ⟨b', ⟨hF.inv.owners.set hset rfl rfl hrole' rfl,
      hF.inv.counts.congr (role_set hset hrole') rfl,
      hF.inv.unused.set hset rfl rfl hnu hF.notUnused,
      hF.inv.busy.set hset rfl rfl rfl hrole' (by simp [hF.cached, hb'])⟩,
    fun k => (role_set hset hrole' k).trans (hF.role k), hF.transactionHash, hF.device,
    hF.written, hF.notified, hF.writers, hF.nextTransactionId,
    by rw [hset, update_self], ?_, rfl, rfl, hF.refCount, fun c hcn => ?_, hbw,
    fun k hk => ?_⟩
  · cases cleared with
    | true => rfl
    | false =>
      show b.currentData = s.readBack n
      cases hn : s.hash n with
      | some c => rw [(hF.same c hn).1, readBack_of_cached hn]
      | none =>
        rw [hread hn, readBack_of_not_cached hn]
        rfl
  · rw [← (hF.same c hcn).2.2.2]
    exact hbw
  · simpa [BlockCache.makeDirty, hk] using hF.others k hk

end Haiku.Cache
