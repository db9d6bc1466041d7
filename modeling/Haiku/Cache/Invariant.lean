import Haiku.Cache.System
import Mathlib.Data.List.Nodup
import Mathlib.Data.List.Perm.Basic

/-!
# The invariants of the block cache

Four groups of facts, each a structure of its own:

* `Owners`: the lists of the transactions and the `transaction` and `previous_transaction`
  pointers of the blocks say the same, and which of a block's buffers exist follows from them;
* `Counts`: the counters of the transactions are never too small;
* `Unused`: the list of unused blocks and the `unused` flags say the same;
* `Busy`: the blocks marked busy are those of the writers that have dropped the lock.

`Owners` and `Counts` only speak about the role a block plays in transactions (`BlockRole`); a block that
is not cached has the same role as an idle one, so that fetching, putting and evicting
blocks leaves the roles alone.
-/

namespace Haiku.Cache

open Function Lib

variable {D : Type} {s s' : BlockCache D} {n : BlockNumber}

/-! ## Roles -/

/-- The part of a cached block that concerns transactions. -/
structure BlockRole (D : Type) where
  original : Option D
  parent : ParentData D
  owner : Option TransactionId
  previous : Option TransactionId

/-- The role of a block in transactions; that of an idle block if it is not cached. -/
def roleOf : Option (CachedBlock D) → BlockRole D
  | none => ⟨none, .null, none, none⟩
  | some b => ⟨b.originalData, b.parentData, b.transaction, b.previousTransaction⟩

def BlockCache.role (s : BlockCache D) (n : BlockNumber) : BlockRole D := roleOf (s.hash n)

/-- The contents `block_cache_get()` delivers for block `n`. -/
def BlockCache.readBack (s : BlockCache D) (n : BlockNumber) : D :=
  (s.hash n).elim (s.device n) (·.currentData)

def BlockCache.openBlocks (s : BlockCache D) (id : TransactionId) : List BlockNumber :=
  (s.transactionHash id).elim [] fun t => if t.isOpen then t.firstBlock else []

def BlockCache.closedBlocks (s : BlockCache D) (id : TransactionId) : List BlockNumber :=
  (s.transactionHash id).elim [] fun t => if t.isOpen then [] else t.blocks

def BlockCache.hasSub (s : BlockCache D) (id : TransactionId) : Bool :=
  (s.transactionHash id).any (·.hasSubTransaction)

def BlockCache.Owns (s : BlockCache D) (id : TransactionId) (n : BlockNumber) : Prop :=
  (s.role n).owner = some id

/-! ## The groups of facts -/

/-- Transactions and blocks agree on who belongs to whom. -/
structure Owners (s : BlockCache D) : Prop where
  open_iff : ∀ n id, n ∈ s.openBlocks id ↔ (s.role n).owner = some id
  open_nodup : ∀ id, (s.openBlocks id).Nodup
  closed_iff : ∀ n id, n ∈ s.closedBlocks id ↔ (s.role n).previous = some id
  closed_nodup : ∀ id, (s.closedBlocks id).Nodup
  /-- An open transaction has nothing to write back yet. -/
  open_blocks : ∀ id t, s.transactionHash id = some t → t.isOpen = true → t.blocks = []
  /-- A block outside of transactions needs one buffer only. -/
  free : ∀ n, (s.role n).owner = none →
    (s.role n).original = none ∧ (s.role n).parent = .null
  /-- The version of an earlier transaction that is still to be written is preserved. -/
  both : ∀ n, (s.role n).owner ≠ none → (s.role n).previous ≠ none →
    (s.role n).original ≠ none
  parent_sub : ∀ n id, (s.role n).owner = some id → (s.role n).parent ≠ .null →
    s.hasSub id = true
  ids : ∀ id, s.transactionHash id ≠ none → id < s.nextTransactionId
  /-- `block_cache_discard()` never marks a block. -/
  no_discard : ∀ n b, s.hash n = some b → b.discard = false

structure Unused (s : BlockCache D) : Prop where
  mem_iff : ∀ n, n ∈ s.unusedBlocks ↔ ∃ b, s.hash n = some b ∧ b.unused = true
  nodup : s.unusedBlocks.Nodup
  count : s.unusedBlockCount = s.unusedBlocks.length
  idle : ∀ n b, s.hash n = some b → b.unused = true →
    b.refCount = 0 ∧ b.transaction = none ∧ b.previousTransaction = none

/-- The blocks that are being written: those of the writers, and those of `l`, which a writer
is just finishing. -/
def BlockCache.inFlight (s : BlockCache D) (l : List BlockNumber) : List BlockNumber :=
  l ++ s.writers.flatMap BlockWriter.blocks

def BlockWriter.closes (w : BlockWriter) (id : TransactionId) : Prop :=
  w.next = .endTransaction id ∨ w.next = .detachSubTransaction id

def BlockWriter.isClosing (w : BlockWriter) : Bool :=
  match w.next with
  | .endTransaction _ => true
  | .detachSubTransaction _ => true
  | _ => false

structure Busy (s : BlockCache D) (l : List BlockNumber) : Prop where
  busy_iff : ∀ n, n ∈ s.inFlight l ↔ ∃ b, s.hash n = some b ∧ b.busyWriting = true
  nodup : (s.inFlight l).Nodup
  count : s.busyWritingCount = (s.inFlight l).length
  nonempty : ∀ w ∈ s.writers, w.blocks ≠ []
  /-- A block of an open transaction is only written for an earlier one. -/
  role : ∀ n ∈ s.inFlight l, (s.role n).owner ≠ none → (s.role n).previous ≠ none
  /-- Whoever closes a transaction has added all that is to be written before. -/
  closing : ∀ w ∈ s.writers, ∀ id, w.closes id → s.isOpen id = true ∧
    ∀ n ∈ s.openBlocks id, (s.role n).previous ≠ none → n ∈ w.blocks
  detaching : ∀ w ∈ s.writers, ∀ id, w.next = .detachSubTransaction id → s.hasSub id = true
  discarding : ∀ w ∈ s.writers, ∀ n k, w.next = .discard n k → k = 0
  /-- At most one of them closes a transaction. -/
  unique : s.writers.countP BlockWriter.isClosing ≤ 1

def ParentData.isNull : ParentData D → Bool
  | .null => true
  | _ => false

/-- Whether the pointer aliases `current_data`. -/
def ParentData.isCurrent : ParentData D → Bool
  | .current => true
  | _ => false

/-- A count `a` against the counter `b` that is kept for it: never too small, and the same if
`exact`. -/
def Counted (exact : Bool) (a : ℕ) (b : ℤ) : Prop := (a : ℤ) ≤ b ∧ (exact = true → (a : ℤ) = b)

structure Counts (exact : Bool) (s : BlockCache D) : Prop where
  opened : ∀ id t, s.transactionHash id = some t → t.isOpen = true →
    Counted exact t.firstBlock.length t.numBlocks
  main : ∀ id t, s.transactionHash id = some t → t.isOpen = true →
    t.hasSubTransaction = true →
    Counted exact (t.firstBlock.countP fun n => !(s.role n).parent.isNull) t.mainNumBlocks
  sub : ∀ id t, s.transactionHash id = some t → t.isOpen = true →
    t.hasSubTransaction = true →
    Counted exact (t.firstBlock.countP fun n => !(s.role n).parent.isCurrent) t.subNumBlocks
  closed : ∀ id t, s.transactionHash id = some t → t.isOpen = false →
    Counted exact t.blocks.length t.numBlocks

structure Inv (s : BlockCache D) : Prop where
  owners : Owners s
  counts : Counts false s
  unused : Unused s
  busy : Busy s []

/-! ## The condition on runs -/

/-- Whether a call may take blocks off the unused list to free memory. -/
def Call.evicts : Call D → Bool
  | .get m _ => m.reuse || m.shrink
  | .getWritable m _ _ _ => m.reuse || m.shrink
  | .makeWritable m _ _ => m.reuse || m.shrink
  | .removeUnusedBlocks _ _ _ => true
  | _ => false

/-- Write-back and the unused list keep apart: no block is finished by its writer while it
is on the unused list, and only clean blocks that are not being written are evicted. -/
structure Apart (s : BlockCache D) (c : Call D) : Prop where
  finish : ∀ i w, c = .writeDone i → s.writers[i]? = some w →
    ∀ n ∈ w.done, ∀ b, s.hash n = some b → b.unused = false
  evict : c.evicts = true → ∀ n b, s.hash n = some b → b.unused = true →
    b.isDirty = false ∧ b.busyWriting = false

/-! ## Computing with the projections -/

section Projections

variable (s : BlockCache D) (n m : BlockNumber) (b : CachedBlock D) (id id' : TransactionId)
  (t : CacheTransaction) (e : TransactionEvent)

@[simp] lemma setBlock_hash : (s.setBlock n b).hash = update s.hash n (some b) := rfl
@[simp] lemma setBlock_transactionHash :
    (s.setBlock n b).transactionHash = s.transactionHash := rfl
@[simp] lemma setTransaction_hash : (s.setTransaction id t).hash = s.hash := rfl
@[simp] lemma setTransaction_transactionHash :
    (s.setTransaction id t).transactionHash
      = update s.transactionHash id (some t) := rfl
@[simp] lemma removeBlock_hash :
    (s.removeBlock n).hash = update s.hash n none := rfl
@[simp] lemma dropUnused_hash : (s.dropUnused n).hash = s.hash := rfl
@[simp] lemma removeBlock_writers : (s.removeBlock n).writers = s.writers := rfl
@[simp] lemma dropUnused_writers : (s.dropUnused n).writers = s.writers := rfl

@[simp] lemma setBlock_role :
    (s.setBlock n b).role m = if m = n then roleOf (some b) else s.role m := by
  simp only [BlockCache.role, setBlock_hash, update_apply]
  split <;> rfl

@[simp] lemma removeBlock_role :
    (s.removeBlock n).role m = if m = n then roleOf none else s.role m := by
  simp only [BlockCache.role, removeBlock_hash, update_apply]
  split <;> rfl

end Projections

lemma role_of_not_cached (h : s.hash n = none) : s.role n = roleOf none := by
  rw [BlockCache.role, h]

lemma role_of_cached {b : CachedBlock D} (h : s.hash n = some b) : s.role n = roleOf (some b) := by
  rw [BlockCache.role, h]

lemma readBack_of_cached {b : CachedBlock D}
    (h : s.hash n = some b) : s.readBack n = b.currentData := by
  simp [BlockCache.readBack, h]

lemma readBack_of_not_cached (h : s.hash n = none) : s.readBack n = s.device n := by
  simp [BlockCache.readBack, h]

lemma Owners.isOpen (h : Owners s) {id : TransactionId} (hn : s.Owns id n) :
    ∃ t, s.transactionHash id = some t ∧ t.isOpen = true ∧ n ∈ t.firstBlock := by
  have hmem := (h.open_iff n id).2 hn
  unfold BlockCache.openBlocks at hmem
  cases ht : s.transactionHash id with
  | none => simp [ht] at hmem
  | some t =>
    by_cases ho : t.isOpen = true
    · exact ⟨t, rfl, ho, by simpa [ht, ho] using hmem⟩
    · simp [ht, ho] at hmem

lemma Owners.congr (h : Owners s)
    (hrole : ∀ n, s'.role n = s.role n) (hth : s'.transactionHash = s.transactionHash)
    (hid : s'.nextTransactionId = s.nextTransactionId)
    (hdis : ∀ n b, s'.hash n = some b → b.discard = false) : Owners s' where
  open_iff n id := by rw [hrole, BlockCache.openBlocks, hth]; exact h.open_iff n id
  open_nodup id := by rw [BlockCache.openBlocks, hth]; exact h.open_nodup id
  closed_iff n id := by rw [hrole, BlockCache.closedBlocks, hth]; exact h.closed_iff n id
  closed_nodup id := by rw [BlockCache.closedBlocks, hth]; exact h.closed_nodup id
  open_blocks id t := by rw [hth]; exact h.open_blocks id t
  free n := by rw [hrole]; exact h.free n
  both n := by rw [hrole]; exact h.both n
  parent_sub n id := by rw [hrole, BlockCache.hasSub, hth]; exact h.parent_sub n id
  ids id := by rw [hth, hid]; exact h.ids id
  no_discard := hdis

lemma Unused.congr (h : Unused s)
    (hl : s'.unusedBlocks = s.unusedBlocks) (hc : s'.unusedBlockCount = s.unusedBlockCount)
    (hb : ∀ n, (∃ b, s'.hash n = some b ∧ b.unused = true)
      ↔ ∃ b, s.hash n = some b ∧ b.unused = true)
    (hidle : ∀ n b, s'.hash n = some b → b.unused = true →
      b.refCount = 0 ∧ b.transaction = none ∧ b.previousTransaction = none) : Unused s' where
  mem_iff n := by rw [hl, hb]; exact h.mem_iff n
  nodup := by rw [hl]; exact h.nodup
  count := by rw [hl, hc]; exact h.count
  idle := hidle

lemma Busy.update {l : List BlockNumber} (h : Busy s l)
    (hw : s'.writers = s.writers) (hc : s'.busyWritingCount = s.busyWritingCount)
    (hb : ∀ n, (∃ b, s'.hash n = some b ∧ b.busyWriting = true)
      ↔ ∃ b, s.hash n = some b ∧ b.busyWriting = true)
    (hrole : ∀ n ∈ s.inFlight l, (s'.role n).owner ≠ none → (s'.role n).previous ≠ none)
    (hclosing : ∀ w ∈ s.writers, ∀ id, w.closes id → s'.isOpen id = true ∧
      ∀ n ∈ s'.openBlocks id, (s'.role n).previous ≠ none → n ∈ w.blocks)
    (hdetaching : ∀ w ∈ s.writers, ∀ id, w.next = .detachSubTransaction id →
      s'.hasSub id = true) : Busy s' l := by
  have hf : s'.inFlight l = s.inFlight l := by rw [BlockCache.inFlight, hw]; rfl
  exact
    { busy_iff := fun n => by rw [hf, hb]; exact h.busy_iff n
      nodup := by rw [hf]; exact h.nodup
      count := by rw [hf, hc]; exact h.count
      nonempty := by rw [hw]; exact h.nonempty
      role := by rw [hf]; exact hrole
      closing := by rw [hw]; exact hclosing
      detaching := by rw [hw]; exact hdetaching
      discarding := by rw [hw]; exact h.discarding
      unique := by rw [hw]; exact h.unique }

lemma Busy.congr {l : List BlockNumber} (h : Busy s l)
    (hw : s'.writers = s.writers) (hc : s'.busyWritingCount = s.busyWritingCount)
    (hb : ∀ n, (∃ b, s'.hash n = some b ∧ b.busyWriting = true)
      ↔ ∃ b, s.hash n = some b ∧ b.busyWriting = true)
    (hrole : ∀ n, s'.role n = s.role n) (hth : s'.transactionHash = s.transactionHash) :
    Busy s' l := by
  refine h.update hw hc hb (fun n hn => ?_) (fun w hm id hcl => ?_) (fun w hm id hd => ?_)
  · rw [hrole]
    exact h.role n hn
  · simp only [BlockCache.isOpen, BlockCache.openBlocks, hth, hrole]
    exact h.closing w hm id hcl
  · rw [BlockCache.hasSub, hth]
    exact h.detaching w hm id hd

lemma Counts.congr {e : Bool} (h : Counts e s)
    (hrole : ∀ n, s'.role n = s.role n) (hth : s'.transactionHash = s.transactionHash) :
    Counts e s' where
  opened := by rw [hth]; exact h.opened
  main id t := by
    simp only [hth, hrole]
    exact h.main id t
  sub id t := by
    simp only [hth, hrole]
    exact h.sub id t
  closed := by rw [hth]; exact h.closed

lemma Busy.writers_nil (h : Busy s []) (h0 : s.busyWritingCount = 0) : s.writers = [] := by
  have hlen : (s.inFlight []).length = 0 := by
    have := h.count
    omega
  cases hw : s.writers with
  | nil => rfl
  | cons w ws =>
    have hne := h.nonempty w (by rw [hw]; exact List.mem_cons_self)
    exfalso
    apply hne
    have : s.inFlight [] = [] := List.length_eq_zero_iff.1 hlen
    rw [BlockCache.inFlight, hw, List.nil_append, List.flatMap_cons,
      List.append_eq_nil_iff] at this
    exact this.1

attribute [simp] BlockCache.create

lemma inv_create (device : BlockNumber → D) (maxBlocks : ℕ) (readOnly : Bool) :
    Inv (BlockCache.create device maxBlocks readOnly) where
  owners :=
    { open_iff := by simp [BlockCache.openBlocks, BlockCache.role, roleOf]
      open_nodup := by simp [BlockCache.openBlocks]
      closed_iff := by simp [BlockCache.closedBlocks, BlockCache.role, roleOf]
      closed_nodup := by simp [BlockCache.closedBlocks]
      open_blocks := by simp
      free := by simp [BlockCache.role, roleOf]
      both := by simp [BlockCache.role, roleOf]
      parent_sub := by simp [BlockCache.role, roleOf]
      ids := by simp
      no_discard := by simp }
  counts :=
    { opened := by simp
      main := by simp
      sub := by simp
      closed := by simp }
  unused :=
    { mem_iff := by simp
      nodup := by simp
      count := by simp
      idle := by simp }
  busy :=
    { busy_iff := by simp [BlockCache.inFlight]
      nodup := by simp [BlockCache.inFlight]
      count := by simp [BlockCache.inFlight]
      nonempty := by simp
      role := by simp [BlockCache.inFlight]
      closing := by simp
      detaching := by simp
      discarding := by simp
      unique := by simp }

end Haiku.Cache
