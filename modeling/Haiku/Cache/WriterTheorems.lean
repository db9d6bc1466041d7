import Haiku.Cache.WritableTheorems

/-!
# Writing blocks back keeps the invariant

The phases of a `BlockWriter`: marking the blocks (`inv_write`), writing one of them
(`inv_writeNext`) and finishing them. Finishing a block is described by `Done`: the block
leaves the closed transaction it belonged to, and with its last block the transaction is
reported and removed.
-/

namespace Haiku.Cache

open Function Lib

variable {D : Type} {s s' : BlockCache D} {n : BlockNumber} {b : CachedBlock D}

/-! ## Marking blocks -/

section

variable (ns : List BlockNumber)
include ns

lemma addAll_hash : ∀ s : BlockCache D, ∀ m, (s.addAll ns).hash m =
      if m ∈ ns then (s.hash m).map (fun b => { b with busyWriting := true })
      else s.hash m := by
  induction ns with
  | nil => intro s m; simp [BlockCache.addAll]
  | cons n ns ih =>
    intro s m
    have hfold : s.addAll (n :: ns) = (s.addBusy n).addAll ns := rfl
    rw [hfold, ih]
    have hbusy : (s.addBusy n).hash m =
        if m = n then (s.hash m).map (fun b => { b with busyWriting := true })
        else s.hash m := by
      unfold BlockCache.addBusy
      cases hn : s.hash n with
      | none =>
        by_cases hm : m = n
        · simp [hm, hn]
        · simp [hm]
      | some b =>
        by_cases hm : m = n
        · simp [hm, hn]
        · simp [hm]
    rw [hbusy]
    by_cases hm : m = n
    · subst hm
      by_cases hmem : m ∈ ns
      · simp only [hmem, ↓reduceIte, List.mem_cons, or_true, Option.map_map]
        rfl
      · simp [hmem]
    · simp [hm]

lemma addAll_rest : ∀ s : BlockCache D,
    (s.addAll ns).transactionHash = s.transactionHash ∧ (s.addAll ns).device = s.device ∧
    (s.addAll ns).written = s.written ∧ (s.addAll ns).notified = s.notified ∧
    (s.addAll ns).writers = s.writers ∧ (s.addAll ns).nextTransactionId = s.nextTransactionId ∧
    (s.addAll ns).unusedBlocks = s.unusedBlocks ∧
    (s.addAll ns).unusedBlockCount = s.unusedBlockCount := by
  induction ns with
  | nil => intro s; exact ⟨rfl, rfl, rfl, rfl, rfl, rfl, rfl, rfl⟩
  | cons n ns ih =>
    intro s
    have hfold : s.addAll (n :: ns) = (s.addBusy n).addAll ns := rfl
    rw [hfold]
    obtain ⟨h₁, h₂, h₃, h₄, h₅, h₆, h₇, h₈⟩ := ih (s.addBusy n)
    rw [h₁, h₂, h₃, h₄, h₅, h₆, h₇, h₈]
    unfold BlockCache.addBusy
    cases s.hash n <;> exact ⟨rfl, rfl, rfl, rfl, rfl, rfl, rfl, rfl⟩

lemma addAll_count : ∀ s : BlockCache D, (∀ n ∈ ns, s.hash n ≠ none) →
    (s.addAll ns).busyWritingCount = s.busyWritingCount + ns.length := by
  induction ns with
  | nil => intro s _; simp [BlockCache.addAll]
  | cons n ns ih =>
    intro s hc
    have hfold : s.addAll (n :: ns) = (s.addBusy n).addAll ns := rfl
    obtain ⟨b, hb⟩ := Option.ne_none_iff_exists'.1 (hc n List.mem_cons_self)
    have hne : ∀ m ∈ ns, (s.addBusy n).hash m ≠ none := by
      intro m hm
      have hadd : (s.addBusy n) = s.addAll [n] := rfl
      rw [hadd, addAll_hash]
      have := hc m (List.mem_cons_of_mem _ hm)
      split
      · simpa using this
      · exact this
    rw [hfold, ih _ hne]
    simp only [BlockCache.addBusy, hb, List.length_cons]
    omega

lemma addAll_role (s : BlockCache D) (m : BlockNumber) : (s.addAll ns).role m = s.role m := by
  rw [BlockCache.role, addAll_hash]
  split
  · rw [BlockCache.role]
    cases s.hash m <;> rfl
  · rfl

end

lemma addAll_cached {ns : List BlockNumber} {m : BlockNumber} (h : (s.addAll ns).hash m = some b) :
    ∃ c, s.hash m = some c ∧ b = { c with busyWriting := m ∈ ns || c.busyWriting } := by
  rw [addAll_hash] at h
  split at h
  · rename_i hm
    obtain ⟨c, hc, rfl⟩ := Option.map_eq_some_iff.1 h
    exact ⟨c, hc, by simp [hm]⟩
  · rename_i hm
    exact ⟨b, h, by simp [hm]⟩

/-- What the blocks handed to a writer have to satisfy: they are cached, not yet being written,
and belong to a closed transaction, or are dirty and to no transaction. -/
structure Addable (s : BlockCache D) (ns : List BlockNumber) : Prop where
  nodup : ns.Nodup
  cached : ∀ n ∈ ns, ∃ b, s.hash n = some b ∧ b.busyWriting = false ∧
    (b.previousTransaction = none → b.transaction = none ∧ b.isDirty = true)

lemma inv_write (h : Inv s) {ns : List BlockNumber} (hns : Addable s ns)
    (hne : ns ≠ []) {next : AfterWrite}
    (hcl : ∀ id, next = .endTransaction id ∨ next = .detachSubTransaction id →
      s.writers = [] ∧ s.isOpen id = true ∧
      ∀ n ∈ s.openBlocks id, (s.role n).previous ≠ none → n ∈ ns)
    (hdet : ∀ id, next = .detachSubTransaction id → s.hasSub id = true)
    (hdis : ∀ n k, next = .discard n k → k = 0) : Inv { s.addAll ns with writers := (s.addAll ns).writers ++ [⟨ns.mergeSort, [], next⟩] } := by
  obtain ⟨hth, -, -, -, hws, hid, hun, huc⟩ := addAll_rest ns s
  set w : BlockWriter := ⟨ns.mergeSort, [], next⟩ with hw
  have hwb : w.blocks = ns.mergeSort := by simp [hw, BlockWriter.blocks]
  set s' : BlockCache D := { s.addAll ns with writers := (s.addAll ns).writers ++ [w] } with hs'
  have hrole : ∀ m, s'.role m = s.role m := fun m => addAll_role ns s m
  have hcached : ∀ {m b}, s'.hash m = some b → ∃ c, s.hash m = some c ∧
      b = { c with busyWriting := m ∈ ns || c.busyWriting } := fun hm => addAll_cached hm
  have hperm : ns.mergeSort.Perm ns := List.mergeSort_perm _ _
  -- the blocks that were being written are not among the new ones
  have hdisj : ∀ n ∈ s.inFlight [], n ∉ ns := by
    intro n hn hmem
    obtain ⟨b, hb, hbw⟩ := (h.busy.busy_iff n).1 hn
    obtain ⟨c, hc, hcw, -⟩ := hns.cached n hmem
    rw [hb] at hc
    cases hc
    rw [hbw] at hcw
    cases hcw
  have hfl : s'.inFlight [] = s.inFlight [] ++ ns.mergeSort := by
    simp only [BlockCache.inFlight, hs', hws, List.flatMap_append, List.flatMap_cons, hwb,
      List.flatMap_nil, List.append_nil, List.nil_append]
  have hmemw : ∀ {w'}, w' ∈ s'.writers → w' ∈ s.writers ∨ w' = w := by
    intro w' hm
    have : w' ∈ s.writers ++ [w] := by rw [← hws]; exact hm
    simpa using this
  have hbusyrole : ∀ n ∈ ns, (s.role n).owner ≠ none → (s.role n).previous ≠ none := by
    intro n hn
    obtain ⟨b, hb, -, hp⟩ := hns.cached n hn
    rw [role_of_cached hb]
    exact fun hne hprev => hne (hp hprev).1
  refine ⟨h.owners.congr hrole hth hid ?_, h.counts.congr hrole hth,
    h.unused.congr hun huc (fun m => ?_) ?_, ⟨fun n => ?_, ?_, ?_, ?_, ?_, ?_, ?_, ?_, ?_⟩⟩
  · intro m b hm
    obtain ⟨c, hc, rfl⟩ := hcached hm
    exact h.owners.no_discard m c hc
  · constructor
    · rintro ⟨b, hm, hu⟩
      obtain ⟨c, hc, rfl⟩ := hcached hm
      exact ⟨c, hc, hu⟩
    · rintro ⟨c, hc, hu⟩
      show ∃ b, (s.addAll ns).hash m = some b ∧ b.unused = true
      rw [addAll_hash, hc]
      split
      · exact ⟨_, rfl, hu⟩
      · exact ⟨c, rfl, hu⟩
  · intro m b hm hu
    obtain ⟨c, hc, rfl⟩ := hcached hm
    exact h.unused.idle m c hc hu
  · rw [hfl, List.mem_append, h.busy.busy_iff n, hperm.mem_iff]
    show _ ↔ ∃ b, (s.addAll ns).hash n = some b ∧ b.busyWriting = true
    rw [addAll_hash]
    by_cases hm : n ∈ ns
    · obtain ⟨b, hb, -⟩ := hns.cached n hm
      simp [hm, hb]
    · simp [hm]
  · rw [hfl]
    refine List.nodup_append.2 ⟨h.busy.nodup, hperm.nodup_iff.2 hns.nodup, ?_⟩
    intro a ha b hb hab
    exact hdisj a ha (hab ▸ hperm.mem_iff.1 hb)
  · rw [hfl, List.length_append, hperm.length_eq]
    have hcount := addAll_count ns s fun n hn => by
      obtain ⟨b, hb, -⟩ := hns.cached n hn
      simp [hb]
    show (s.addAll ns).busyWritingCount = _
    rw [hcount, h.busy.count]
    simp
  · intro w' hm
    rcases hmemw hm with hm | rfl
    · exact h.busy.nonempty w' hm
    · rw [hwb]
      intro hnil
      exact hne (List.Perm.eq_nil (hnil ▸ hperm.symm))
  · intro n hn
    rw [hfl, List.mem_append] at hn
    rw [hrole]
    rcases hn with hn | hn
    · exact h.busy.role n hn
    · exact hbusyrole n (hperm.mem_iff.1 hn)
  · intro w' hm id hc
    have hth' : s'.transactionHash = s.transactionHash := hth
    simp only [BlockCache.isOpen, BlockCache.openBlocks, hrole, hth']
    rcases hmemw hm with hm | rfl
    · exact h.busy.closing w' hm id hc
    · obtain ⟨-, hopen, hall⟩ := hcl id hc
      refine ⟨hopen, fun n hn hp => ?_⟩
      rw [hwb, hperm.mem_iff]
      exact hall n hn hp
  · intro w' hm id hd
    rw [BlockCache.hasSub, hs', hth]
    rcases hmemw hm with hm | rfl
    · exact h.busy.detaching w' hm id hd
    · exact hdet id hd
  · intro w' hm n k hd
    rcases hmemw hm with hm | rfl
    · exact h.busy.discarding w' hm n k hd
    · exact hdis n k hd
  · show ((s.addAll ns).writers ++ [w]).countP BlockWriter.isClosing ≤ 1
    rw [hws, List.countP_append]
    cases hc : w.isClosing with
    | false => simpa [hc] using h.busy.unique
    | true =>
      have hex : ∃ id, next = .endTransaction id ∨ next = .detachSubTransaction id := by
        cases next with
        | nothing => simp [hw, BlockWriter.isClosing] at hc
        | endTransaction id => exact ⟨id, .inl rfl⟩
        | detachSubTransaction id => exact ⟨id, .inr rfl⟩
        | discard n k => simp [hw, BlockWriter.isClosing] at hc
      obtain ⟨id, hnext⟩ := hex
      rw [(hcl id hnext).1]
      simp [hc]

/-! ## Writing one block -/

variable {i : ℕ}

lemma inv_writeNext (h : Inv s) (hs : s.writeNext i = some s') : Inv s' := by
  unfold BlockCache.writeNext at hs
  split at hs
  · rename_i n pending done next hw
    split at hs
    · cases hs
    rename_i b hb
    cases hs
    set w : BlockWriter := ⟨n :: pending, done, next⟩ with hwdef
    set w' : BlockWriter := ⟨pending, done ++ [n], next⟩ with hw'def
    obtain ⟨hi, hget⟩ := List.getElem?_eq_some_iff.1 hw
    have hblocks : w'.blocks.Perm w.blocks := by
      simp only [BlockWriter.blocks, hwdef, hw'def, List.cons_append]
      rw [← List.append_assoc]
      exact List.perm_append_singleton n (pending ++ done)
    have hold : s.writers.Perm (w :: s.writers.eraseIdx i) := by
      rw [← hget]
      exact (List.getElem_cons_eraseIdx_perm hi).symm
    have hnew : (s.writers.set i w').Perm (w' :: s.writers.eraseIdx i) :=
      List.set_perm_cons_eraseIdx hi w'
    have hflight : ((s.writers.set i w').flatMap BlockWriter.blocks).Perm
        (s.writers.flatMap BlockWriter.blocks) := by
      refine (hnew.flatMap_right _).trans (.trans ?_ (hold.flatMap_right _).symm)
      rw [List.flatMap_cons, List.flatMap_cons]
      exact hblocks.append_right _
    have hmem : ∀ {v}, v ∈ s.writers.set i w' → v ∈ s.writers ∨ v = w' := by
      intro v hv
      rcases List.mem_or_eq_of_mem_set hv with hv | hv
      · exact .inl hv
      · exact .inr hv
    have hwmem : w ∈ s.writers := by
      rw [← hget]
      exact List.getElem_mem hi
    refine ⟨h.owners.congr (fun _ => rfl) rfl rfl h.owners.no_discard,
      h.counts.congr (fun _ => rfl) rfl,
      h.unused.congr rfl rfl (fun _ => Iff.rfl) h.unused.idle,
      ⟨fun m => ?_, ?_, ?_, ?_, ?_, ?_, ?_, ?_, ?_⟩⟩
    · exact (hflight.mem_iff).trans (h.busy.busy_iff m)
    · exact hflight.nodup_iff.2 h.busy.nodup
    · show s.busyWritingCount = (((s.writers.set i w').flatMap BlockWriter.blocks).length : ℤ)
      rw [hflight.length_eq]
      exact h.busy.count
    · intro v hv
      rcases hmem hv with hv | rfl
      · exact h.busy.nonempty v hv
      · simp [BlockWriter.blocks, hw'def]
    · intro m hm
      exact h.busy.role m (hflight.mem_iff.1 hm)
    · intro v hv id hc
      rcases hmem hv with hv | rfl
      · exact h.busy.closing v hv id hc
      · obtain ⟨hopen, hall⟩ := h.busy.closing w hwmem id hc
        exact ⟨hopen, fun m hm hp => hblocks.mem_iff.2 (hall m hm hp)⟩
    · intro v hv id hd
      rcases hmem hv with hv | rfl
      · exact h.busy.detaching v hv id hd
      · exact h.busy.detaching w hwmem id hd
    · intro v hv m k hd
      rcases hmem hv with hv | rfl
      · exact h.busy.discarding v hv m k hd
      · exact h.busy.discarding w hwmem m k hd
    · show (s.writers.set i w').countP BlockWriter.isClosing ≤ 1
      have hu := h.busy.unique
      rw [hold.countP_eq] at hu
      rw [hnew.countP_eq]
      exact hu
  · cases hs

/-! ## Finishing one block -/

/-- A closed transaction after one of its blocks was written; none is left after the last. -/
def CacheTransaction.written (t : CacheTransaction) (n : BlockNumber) :
    Option CacheTransaction :=
  if t.numBlocks - 1 = 0 then none
  else some { t with blocks := t.blocks.erase n, numBlocks := t.numBlocks - 1 }

/-- The events of writing a block of a transaction. -/
def CacheTransaction.writtenEvents (t : CacheTransaction) (id : TransactionId) :
    List (TransactionId × TransactionEvent) :=
  if t.numBlocks - 1 = 0 then [(id, .written)] else []

/-- The block that `_BlockDone()` leaves behind. -/
def CachedBlock.done (b : CachedBlock D) : CachedBlock D :=
  { b with
    isDirty := if b.dataIsCurrent then false else b.isDirty
    busyWriting := false
    previousTransaction := none
    originalData :=
      if b.previousTransaction.isSome && b.transaction.isNone then none
      else b.originalData
    unused := b.unused || b.transaction.isNone && b.refCount == 0 }

attribute [simp] CachedBlock.done

/-- Block `n` has been written back, and `_BlockDone()` was called for it. -/
structure Done (s s' : BlockCache D) (n : BlockNumber) (b : CachedBlock D) : Prop where
  cached : s.hash n = some b
  hash : s'.hash = update s.hash n (some b.done)
  role : ∀ m, s'.role m = if m = n then { s.role n with previous := none } else s.role m
  transactionHash : s'.transactionHash =
    b.previousTransaction.elim s.transactionHash fun id =>
      update s.transactionHash id ((s.transactionHash id).bind (·.written n))
  notified : s'.notified = s.notified ++ b.previousTransaction.elim [] fun id =>
    (s.transactionHash id).elim [] (·.writtenEvents id)
  device : s'.device = s.device
  log : s'.written = s.written
  writers : s'.writers = s.writers
  nextTransactionId : s'.nextTransactionId = s.nextTransactionId
  busyWritingCount : s'.busyWritingCount = s.busyWritingCount - 1
  unusedBlocks : s'.unusedBlocks = s.unusedBlocks ++
    if b.transaction.isNone && b.refCount == 0 then [n] else []
  unusedBlockCount : s'.unusedBlockCount = s.unusedBlockCount +
    if b.transaction.isNone && b.refCount == 0 then 1 else 0

lemma previousDone_eq (s : BlockCache D) (n : BlockNumber) (id : TransactionId) :
    s.previousDone n id =
      { s with
        transactionHash :=
          update s.transactionHash id ((s.transactionHash id).bind (·.written n))
        lastTransaction := (s.previousDone n id).lastTransaction
        notified := s.notified ++ (s.transactionHash id).elim [] (·.writtenEvents id) } := by
  unfold BlockCache.previousDone
  cases ht : s.transactionHash id with
  | none =>
    have : update s.transactionHash id none = s.transactionHash := by
      rw [← ht, update_eq_self]
    simp [this]
  | some t =>
    simp only [Option.bind_some, CacheTransaction.written, CacheTransaction.writtenEvents,
      Option.elim_some]
    split
    · rfl
    · simp [BlockCache.setTransaction]

lemma blockDone_eq (hb : s.hash n = some b) : s.blockDone n =
      { s with
        hash := update s.hash n (some b.done)
        transactionHash := b.previousTransaction.elim s.transactionHash fun id =>
          update s.transactionHash id ((s.transactionHash id).bind (·.written n))
        transactionBusy := (s.blockDone n).transactionBusy
        lastTransaction := (s.blockDone n).lastTransaction
        numDirtyBlocks := s.numDirtyBlocks - 1
        busyWritingCount := s.busyWritingCount - 1
        notified := s.notified ++ b.previousTransaction.elim [] fun id =>
          (s.transactionHash id).elim [] (·.writtenEvents id)
        unusedBlocks := s.unusedBlocks ++
          if b.transaction.isNone && b.refCount == 0 then [n] else []
        unusedBlockCount := s.unusedBlockCount +
          if b.transaction.isNone && b.refCount == 0 then 1 else 0 } := by
  unfold BlockCache.blockDone
  simp only [hb]
  cases hp : b.previousTransaction with
  | none =>
    by_cases hu : (b.transaction.isNone && b.refCount == 0) = true
    · simp [hu, hp, BlockCache.addUnused, BlockCache.setBlock, BlockCache.unmarkWriting]
    · simp [hu, hp, BlockCache.setBlock, BlockCache.unmarkWriting]
  | some id =>
    simp only
    rw [previousDone_eq]
    by_cases hu : (b.transaction.isNone && b.refCount == 0) = true
    · simp [hu, hp, BlockCache.addUnused, BlockCache.setBlock, BlockCache.unmarkWriting]
    · simp [hu, hp, BlockCache.setBlock, BlockCache.unmarkWriting]

lemma done_blockDone (h : Owners s) (hb : s.hash n = some b) : Done s (s.blockDone n) n b := by
  have hrole := role_of_cached hb
  -- a block outside of transactions has no original data to drop
  have horig : b.done.originalData = b.originalData := by
    unfold CachedBlock.done
    split
    · rename_i hc
      rw [Bool.and_eq_true, Option.isNone_iff_eq_none] at hc
      have := (h.free n (by rw [hrole]; exact hc.2)).1
      rw [hrole] at this
      exact this.symm
    · rfl
  have hhash : (s.blockDone n).hash = update s.hash n (some b.done) := by
    rw [blockDone_eq hb]
  refine ⟨hb, hhash, fun m => ?_, by rw [blockDone_eq hb], by rw [blockDone_eq hb],
    by rw [blockDone_eq hb], by rw [blockDone_eq hb], by rw [blockDone_eq hb],
    by rw [blockDone_eq hb], by rw [blockDone_eq hb], by rw [blockDone_eq hb],
    by rw [blockDone_eq hb]⟩
  · rw [BlockCache.role, hhash, update_apply]
    split
    · rename_i hm
      rw [hrole, roleOf, horig]
      rfl
    · rfl

variable {id : TransactionId}

lemma Owners.isClosed (h : Owners s) (hn : (s.role n).previous = some id) :
    ∃ t, s.transactionHash id = some t ∧ t.isOpen = false ∧ n ∈ t.blocks := by
  have hmem := (h.closed_iff n id).2 hn
  unfold BlockCache.closedBlocks at hmem
  cases ht : s.transactionHash id with
  | none => simp [ht] at hmem
  | some t =>
    by_cases ho : t.isOpen = true
    · simp [ht, ho] at hmem
    · exact ⟨t, rfl, by simpa using ho, by simpa [ht, ho] using hmem⟩

variable {e : Bool} {l : List BlockNumber}

section

variable (h : Done s s' n b)
include h

lemma Done.previous : b.previousTransaction = (s.role n).previous := by
  rw [role_of_cached h.cached]
  rfl

lemma Done.transaction_of_ne (hid : (s.role n).previous ≠ some id) :
    s'.transactionHash id = s.transactionHash id := by
  rw [h.transactionHash, h.previous]
  cases hp : (s.role n).previous with
  | none => rfl
  | some id' =>
    have hne : id ≠ id' := fun he => hid (he ▸ hp)
    simp [hne]

lemma Done.transaction_of_eq (hid : (s.role n).previous = some id) :
    s'.transactionHash id = (s.transactionHash id).bind (·.written n) := by
  rw [h.transactionHash, h.previous, hid]
  simp

section

variable (ho : Owners s)
include ho

lemma Done.transaction_of_open (hopen : s.isOpen id = true) :
    s'.transactionHash id = s.transactionHash id := by
  apply h.transaction_of_ne
  intro hid
  obtain ⟨t, ht, hclosed, -⟩ := ho.isClosed hid
  simp [BlockCache.isOpen, ht, hclosed] at hopen

lemma Done.transaction_cases {t' : CacheTransaction} (ht' : s'.transactionHash id = some t') :
    s.transactionHash id = some t' ∨ ∃ t, s.transactionHash id = some t ∧ t.isOpen = false ∧
      n ∈ t.blocks ∧
      t' = { t with blocks := t.blocks.erase n, numBlocks := t.numBlocks - 1 } := by
  by_cases hid : (s.role n).previous = some id
  · obtain ⟨t, ht, hclosed, hmem⟩ := ho.isClosed hid
    rw [h.transaction_of_eq hid, ht, Option.bind_some, CacheTransaction.written] at ht'
    split at ht'
    · cases ht'
    · cases ht'
      exact .inr ⟨t, ht, hclosed, hmem, rfl⟩
  · rw [h.transaction_of_ne hid] at ht'
    exact .inl ht'

lemma Done.isOpen (id : TransactionId) : s'.isOpen id = s.isOpen id := by
  cases hop : s.isOpen id with
  | true => rw [BlockCache.isOpen, h.transaction_of_open ho hop]; exact hop
  | false =>
    unfold BlockCache.isOpen
    cases ht' : s'.transactionHash id with
    | none => rfl
    | some t' =>
      rcases h.transaction_cases ho ht' with ht | ⟨t, -, hclosed, -, rfl⟩
      · simpa [BlockCache.isOpen, ht] using hop
      · simpa using hclosed

lemma Done.openBlocks (id : TransactionId) : s'.openBlocks id = s.openBlocks id := by
  have hnil : ∀ c : BlockCache D, c.isOpen id = false → c.openBlocks id = [] := by
    intro c hc
    unfold BlockCache.openBlocks
    cases ht : c.transactionHash id with
    | none => rfl
    | some t =>
      have : t.isOpen = false := by simpa [BlockCache.isOpen, ht] using hc
      simp [this]
  cases hop : s.isOpen id with
  | true => rw [BlockCache.openBlocks, h.transaction_of_open ho hop]; rfl
  | false => rw [hnil s hop, hnil s' (by rw [h.isOpen ho, hop])]

lemma Done.closedBlocks (hc : Counts e s)
    (id : TransactionId) : s'.closedBlocks id = (s.closedBlocks id).filter (· ≠ n) := by
  by_cases hid : (s.role n).previous = some id
  · obtain ⟨t, ht, hclosed, hmem⟩ := ho.isClosed hid
    have hnd : t.blocks.Nodup := by
      simpa [BlockCache.closedBlocks, ht, hclosed] using ho.closed_nodup id
    have hfilter : t.blocks.filter (· ≠ n) = t.blocks.erase n := by
      rw [hnd.erase_eq_filter]
      exact List.filter_congr fun m _ => by by_cases hm : m = n <;> simp [hm]
    have hs : s.closedBlocks id = t.blocks := by simp [BlockCache.closedBlocks, ht, hclosed]
    rw [hs, hfilter, BlockCache.closedBlocks, h.transaction_of_eq hid, ht, Option.bind_some,
      CacheTransaction.written]
    split
    · -- the last block: the count bounds the list
      rename_i hlast
      have hle := (hc.closed id t ht hclosed).1
      have hlen : (t.blocks.erase n).length = 0 := by
        rw [List.length_erase_of_mem hmem]
        omega
      rw [List.length_eq_zero_iff.1 hlen]
      rfl
    · simp [hclosed]
  · have hnm : n ∉ s.closedBlocks id := fun hm => hid ((ho.closed_iff n id).1 hm)
    rw [BlockCache.closedBlocks, h.transaction_of_ne hid]
    refine (List.filter_eq_self.2 fun m hm => ?_).symm
    have : m ≠ n := fun he => hnm (he ▸ hm)
    simpa using this

lemma Done.owners (hc : Counts e s) : Owners s' where
  open_iff m id := by
    rw [h.openBlocks ho, ho.open_iff, h.role m]
    split
    · rename_i hm
      rw [hm]
    · exact Iff.rfl
  open_nodup id := by rw [h.openBlocks ho]; exact ho.open_nodup id
  closed_iff m id := by
    rw [h.closedBlocks ho hc, List.mem_filter, ho.closed_iff, h.role m]
    by_cases hm : m = n <;> simp [hm]
  closed_nodup id := by
    rw [h.closedBlocks ho hc]
    exact (ho.closed_nodup id).filter _
  open_blocks id t' ht' hopen := by
    rcases h.transaction_cases ho ht' with ht | ⟨t, -, hclosed, -, rfl⟩
    · exact ho.open_blocks id t' ht hopen
    · rw [hclosed] at hopen
      cases hopen
  free m hown := by
    have := ho.free m
    rw [h.role m] at hown ⊢
    split at hown
    · rename_i hm
      subst hm
      simpa using this hown
    · rename_i hm
      simpa [hm] using this hown
  both m hown hprev := by
    rw [h.role m] at hown hprev ⊢
    by_cases hm : m = n
    · simp [hm] at hprev
    · simp only [hm, ↓reduceIte] at hown hprev ⊢
      exact ho.both m hown hprev
  parent_sub m id hown hpar := by
    have howns : s.Owns id m ∧ (s.role m).parent ≠ .null := by
      rw [h.role m] at hown hpar
      by_cases hm : m = n
      · subst hm
        simp only [↓reduceIte] at hown hpar
        exact ⟨hown, hpar⟩
      · simp only [hm, ↓reduceIte] at hown hpar
        exact ⟨hown, hpar⟩
    obtain ⟨t, ht, hopen, -⟩ := ho.isOpen howns.1
    rw [BlockCache.hasSub, h.transaction_of_open ho (by simp [BlockCache.isOpen, ht, hopen])]
    exact ho.parent_sub m id howns.1 howns.2
  ids id hne := by
    rw [h.nextTransactionId]
    apply ho.ids id
    obtain ⟨t', ht'⟩ := Option.ne_none_iff_exists'.1 hne
    rcases h.transaction_cases ho ht' with ht | ⟨t, ht, -⟩ <;> rw [ht] <;> simp
  no_discard m c hm := by
    rcases hash_set h.hash hm with ⟨-, rfl⟩ | ⟨-, hc⟩
    · exact ho.no_discard n b h.cached
    · exact ho.no_discard m c hc

lemma Done.counts (hc : Counts e s) : Counts e s' := by
  have hparent : ∀ m, (s'.role m).parent = (s.role m).parent := by
    intro m
    rw [h.role m]
    split
    · rename_i hm
      rw [hm]
    · rfl
  have hold : ∀ {id t'}, s'.transactionHash id = some t' → t'.isOpen = true →
      s.transactionHash id = some t' := by
    intro id t' ht' hopen
    rcases h.transaction_cases ho ht' with ht | ⟨t, -, hclosed, -, rfl⟩
    · exact ht
    · rw [hclosed] at hopen
      cases hopen
  refine ⟨fun id t' ht' hopen => ?_, fun id t' ht' hopen => ?_, fun id t' ht' hopen => ?_,
    fun id t' ht' hclosed => ?_⟩
  · exact hc.opened id t' (hold ht' hopen) hopen
  · simp only [hparent]
    exact hc.main id t' (hold ht' hopen) hopen
  · simp only [hparent]
    exact hc.sub id t' (hold ht' hopen) hopen
  · rcases h.transaction_cases ho ht' with ht | ⟨t, ht, hcl, hmem, rfl⟩
    · exact hc.closed id t' ht hclosed
    · have hlen := List.length_erase_of_mem hmem
      have hpos := List.length_pos_of_mem hmem
      refine (hc.closed id t ht hcl).add ?_ fun _ => ?_ <;> simp only [hlen] <;> omega

end

lemma Done.unusedInv (hu : Unused s) (hb : b.unused = false) : Unused s' := by
  have hnm := hu.notMem h.cached hb
  by_cases hidle : (b.transaction.isNone && b.refCount == 0) = true
  · have hid := hidle
    rw [Bool.and_eq_true, Option.isNone_iff_eq_none, beq_iff_eq] at hid
    refine hu.add h.hash (by rw [h.unusedBlocks, if_pos hidle])
      (by rw [h.unusedBlockCount, if_pos hidle]) hnm ?_ ⟨hid.2, hid.1, rfl⟩
    rw [CachedBlock.done, hidle, Bool.or_true]
  · refine hu.set h.hash (by rw [h.unusedBlocks, if_neg hidle, List.append_nil])
      (by rw [h.unusedBlockCount, if_neg hidle, Int.add_zero]) hnm ?_
    rw [CachedBlock.done, hb, Bool.false_or]
    simpa using hidle

lemma Done.busy (ho : Owners s) (hb : Busy s (n :: l)) : Busy s' l := by
  have hf : s.inFlight (n :: l) = n :: s.inFlight l := rfl
  have hf' : s'.inFlight l = s.inFlight l := by rw [BlockCache.inFlight, h.writers]; rfl
  have hnd := hb.nodup
  rw [hf, List.nodup_cons] at hnd
  have hprev : ∀ {m}, (s'.role m).previous ≠ none → (s.role m).previous ≠ none := by
    intro m
    rw [h.role m]
    split
    · exact fun hne => absurd rfl hne
    · exact id
  refine ⟨fun m => ?_, by rw [hf']; exact hnd.2, ?_, by rw [h.writers]; exact hb.nonempty,
    fun m hm => ?_, fun w hw id hc => ?_, fun w hw id hd => ?_,
    by rw [h.writers]; exact hb.discarding, by rw [h.writers]; exact hb.unique⟩
  · have hiff := hb.busy_iff m
    rw [hf, List.mem_cons] at hiff
    rw [hf', h.hash]
    by_cases hm : m = n
    · subst hm
      simp [hnd.1]
    · simpa [hm] using hiff
  · rw [hf', h.busyWritingCount, hb.count, hf, List.length_cons]
    omega
  · rw [hf'] at hm
    have hmn : m ≠ n := fun he => hnd.1 (he ▸ hm)
    rw [h.role m, if_neg hmn]
    exact hb.role m (by rw [hf]; exact List.mem_cons_of_mem _ hm)
  · rw [h.writers] at hw
    obtain ⟨hopen, hall⟩ := hb.closing w hw id hc
    refine ⟨by rw [h.isOpen ho]; exact hopen, fun m hm hp => ?_⟩
    rw [h.openBlocks ho] at hm
    exact hall m hm (hprev hp)
  · rw [h.writers] at hw
    have hopen := (hb.closing w hw id (.inr hd)).1
    rw [BlockCache.hasSub, h.transaction_of_open ho hopen]
    exact hb.detaching w hw id hd

end

/-! ## `TRANSACTION_WRITTEN` -/

def BlockCache.Pending (s : BlockCache D) (id : TransactionId) : Prop :=
  ∃ n, (s.role n).previous = some id

/-- How often `TRANSACTION_WRITTEN` was sent for transaction `id`. -/
def BlockCache.writtenEvents (s : BlockCache D) (id : TransactionId) : ℕ :=
  s.notified.count (id, .written)

/-- While blocks are finished, transaction `id` is removed and reported with its last block. -/
structure Reports (s s' : BlockCache D) (id : TransactionId) : Prop where
  less : s'.Pending id → s.Pending id
  written : s.Pending id → ¬ s'.Pending id →
    s'.transactionHash id = none ∧ s'.writtenEvents id = s.writtenEvents id + 1
  quiet : (s.Pending id → s'.Pending id) → s'.writtenEvents id = s.writtenEvents id
  gone : s.transactionHash id = none → s'.transactionHash id = none

lemma Reports.of_same (hrole : ∀ n, s'.role n = s.role n)
    (hth : s'.transactionHash = s.transactionHash) (hno : s'.notified = s.notified)
    (id : TransactionId) : Reports s s' id := by
  have hp : s'.Pending id ↔ s.Pending id := by simp only [BlockCache.Pending, hrole]
  exact ⟨hp.1, fun h hne => absurd (hp.2 h) hne, fun _ => by rw [BlockCache.writtenEvents, hno]; rfl,
    fun h => by rw [hth]; exact h⟩

lemma Reports.trans {s₁ s₂ s₃ : BlockCache D} (h : Reports s₁ s₂ id) (h' : Reports s₂ s₃ id) :
    Reports s₁ s₃ id where
  less hp := h.less (h'.less hp)
  written hp hne := by
    by_cases hp₂ : s₂.Pending id
    · rw [← h.quiet fun _ => hp₂]
      exact h'.written hp₂ hne
    · obtain ⟨hth, hev⟩ := h.written hp hp₂
      refine ⟨h'.gone hth, ?_⟩
      rw [h'.quiet fun hp' => absurd hp' hp₂, hev]
  quiet hp := by
    rw [h'.quiet fun hp₂ => hp (h.less hp₂), h.quiet fun hp₁ => h'.less (hp hp₁)]
  gone hth := h'.gone (h.gone hth)

lemma Done.writtenEvents_of_ne (h : Done s s' n b) (hid : (s.role n).previous ≠ some id) :
    s'.writtenEvents id = s.writtenEvents id := by
  rw [BlockCache.writtenEvents, h.notified, h.previous, List.count_append]
  cases hp : (s.role n).previous with
  | none => rfl
  | some id' =>
    have hne : id' ≠ id := fun he => hid (he ▸ hp)
    rw [Option.elim_some]
    cases s.transactionHash id' with
    | none => rfl
    | some t =>
      rw [Option.elim_some, CacheTransaction.writtenEvents]
      split
      · have hzero : [(id', TransactionEvent.written)].count (id, .written) = 0 :=
          List.count_eq_zero.2 (by simpa using hne.symm)
        rw [hzero]
        rfl
      · rfl

lemma Done.writtenEvents_of_eq (h : Done s s' n b) {t : CacheTransaction}
    (hid : (s.role n).previous = some id) (ht : s.transactionHash id = some t) :
    s'.writtenEvents id = s.writtenEvents id + if t.numBlocks - 1 = 0 then 1 else 0 := by
  rw [BlockCache.writtenEvents, h.notified, h.previous, hid, List.count_append, Option.elim_some,
    ht, Option.elim_some, CacheTransaction.writtenEvents]
  split
  · simp [BlockCache.writtenEvents]
  · rfl

lemma Done.reports (h : Done s s' n b) (ho : Owners s) (hc : Counts true s)
    (id : TransactionId) : Reports s s' id := by
  have hprev : ∀ {m}, (s'.role m).previous = some id → m ≠ n ∧ (s.role m).previous = some id := by
    intro m hm
    rw [h.role m] at hm
    split at hm
    · simp at hm
    · rename_i hmn
      exact ⟨hmn, hm⟩
  have hless : s'.Pending id → s.Pending id := Exists.imp fun m hm => (hprev hm).2
  by_cases hid : (s.role n).previous = some id
  · obtain ⟨t, ht, hclosed, hmem⟩ := ho.isClosed hid
    have hblocks : s.closedBlocks id = t.blocks := by
      simp [BlockCache.closedBlocks, ht, hclosed]
    have hlen : (t.blocks.length : ℤ) = t.numBlocks := (hc.closed id t ht hclosed).2 rfl
    have hnd : t.blocks.Nodup := hblocks ▸ ho.closed_nodup id
    have hevents := h.writtenEvents_of_eq hid ht
    -- another block is left if and only if the counter does not reach 0
    have hpending : s'.Pending id ↔ t.numBlocks - 1 ≠ 0 := by
      have herase := List.length_erase_of_mem hmem
      have hpos := List.length_pos_of_mem hmem
      constructor
      · rintro ⟨m, hm⟩ h0
        obtain ⟨hmn, hm'⟩ := hprev hm
        have hm₁ : m ∈ t.blocks.erase n :=
          (List.mem_erase_of_ne hmn).2 (hblocks ▸ (ho.closed_iff m id).2 hm')
        have := List.length_pos_of_mem hm₁
        omega
      · intro hne
        have hpos' : 0 < (t.blocks.erase n).length := by omega
        obtain ⟨m, hm⟩ := List.exists_mem_of_length_pos hpos'
        obtain ⟨hmn, hm'⟩ := hnd.mem_erase_iff.1 hm
        refine ⟨m, ?_⟩
        rw [h.role m, if_neg hmn]
        exact (ho.closed_iff m id).1 (hblocks ▸ hm')
    refine ⟨hless, fun _ hne => ?_, fun hp => ?_, fun hth => ?_⟩
    · have h0 : t.numBlocks - 1 = 0 := by
        by_contra h0
        exact hne (hpending.2 h0)
      refine ⟨?_, by rw [hevents, if_pos h0]⟩
      rw [h.transaction_of_eq hid, ht, Option.bind_some, CacheTransaction.written, if_pos h0]
    · rw [hevents, if_neg (hpending.1 (hp ⟨n, hid⟩))]
      rfl
    · rw [ht] at hth
      simp at hth
  · have hsame : s.Pending id → s'.Pending id := by
      rintro ⟨m, hm⟩
      have hmn : m ≠ n := by
        rintro rfl
        exact hid hm
      exact ⟨m, by rw [h.role m, if_neg hmn]; exact hm⟩
    refine ⟨hless, fun hp hne => absurd (hsame hp) hne, fun _ => h.writtenEvents_of_ne hid,
      fun hth => ?_⟩
    rw [h.transaction_of_ne hid]
    exact hth

/-! ## Finishing all blocks of a writer -/

/-- The invariant while a writer finishes its blocks: those of `l` are left. -/
structure Finishing (e : Bool) (s : BlockCache D) (l : List BlockNumber) : Prop where
  owners : Owners s
  counts : Counts e s
  unused : Unused s
  busy : Busy s l
  apart : ∀ n ∈ l, ∀ b, s.hash n = some b → b.unused = false

lemma Finishing.cached (h : Finishing e s (n :: l)) :
    ∃ b, s.hash n = some b ∧ b.busyWriting = true ∧ b.unused = false := by
  obtain ⟨b, hb, hbw⟩ := (h.busy.busy_iff n).1 (by simp [BlockCache.inFlight])
  exact ⟨b, hb, hbw, h.apart n List.mem_cons_self b hb⟩

lemma Finishing.blockDone (h : Finishing e s (n :: l)) : Finishing e (s.blockDone n) l := by
  obtain ⟨b, hb, -, hu⟩ := h.cached
  have hd := done_blockDone h.owners hb
  refine ⟨hd.owners h.owners h.counts, hd.counts h.owners h.counts, hd.unusedInv h.unused hu,
    hd.busy h.owners h.busy, fun m hm c hc => ?_⟩
  have hnd := h.busy.nodup
  have hmn : m ≠ n := by
    rintro rfl
    exact (List.nodup_cons.1 hnd).1 (List.mem_append_left _ hm)
  rw [hd.hash, update_of_ne hmn] at hc
  exact h.apart m (List.mem_cons_of_mem _ hm) c hc

lemma Finishing.foldl {P : List BlockNumber → BlockCache D → Prop} :
    ∀ {s : BlockCache D}, Finishing e s l → P l s →
      (∀ {s s' n l b}, Finishing e s (n :: l) → Done s s' n b → P (n :: l) s → P l s') →
      Finishing e (l.foldl BlockCache.blockDone s) [] ∧
        P [] (l.foldl BlockCache.blockDone s) := by
  induction l with
  | nil => exact fun h hp _ => ⟨h, hp⟩
  | cons n l ih =>
    intro s h hp hstep
    obtain ⟨b, hb, -⟩ := h.cached
    exact ih h.blockDone (hstep h (done_blockDone h.owners hb) hp) hstep

variable {w : BlockWriter}

lemma finishing_start (ho : Owners s) (hc : Counts e s) (hu : Unused s)
    (hb : Busy s []) (hw : s.writers[i]? = some w) (hp : w.pending = [])
    (ha : ∀ n ∈ w.done, ∀ b, s.hash n = some b → b.unused = false) :
    Finishing e { s with writers := s.writers.eraseIdx i } w.done := by
  obtain ⟨hi, hget⟩ := List.getElem?_eq_some_iff.1 hw
  have hold : s.writers.Perm (w :: s.writers.eraseIdx i) := by
    rw [← hget]
    exact (List.getElem_cons_eraseIdx_perm hi).symm
  have hflight : (w.done ++ (s.writers.eraseIdx i).flatMap BlockWriter.blocks).Perm
      (s.writers.flatMap BlockWriter.blocks) := by
    refine .trans ?_ (hold.flatMap_right _).symm
    rw [List.flatMap_cons, BlockWriter.blocks, hp, List.nil_append]
  have hmem : ∀ {v}, v ∈ s.writers.eraseIdx i → v ∈ s.writers :=
    fun hv => List.mem_of_mem_eraseIdx hv
  refine ⟨ho.congr (fun _ => rfl) rfl rfl ho.no_discard, hc.congr (fun _ => rfl) rfl,
    hu.congr rfl rfl (fun _ => Iff.rfl) hu.idle,
    ⟨fun m => (hflight.mem_iff).trans (hb.busy_iff m), hflight.nodup_iff.2 hb.nodup, ?_,
      fun v hv => hb.nonempty v (hmem hv), fun m hm => hb.role m (hflight.mem_iff.1 hm),
      fun v hv => hb.closing v (hmem hv), fun v hv => hb.detaching v (hmem hv),
      fun v hv => hb.discarding v (hmem hv), ?_⟩, ha⟩
  · show s.busyWritingCount
      = ((w.done ++ (s.writers.eraseIdx i).flatMap BlockWriter.blocks).length : ℤ)
    rw [hflight.length_eq]
    exact hb.count
  · have hu := hb.unique
    rw [hold.countP_eq, List.countP_cons] at hu
    show (s.writers.eraseIdx i).countP BlockWriter.isClosing ≤ 1
    omega

/-- Whoever waits for its writer to close transaction `id` finds it open, with nothing of
earlier transactions left to be written. -/
structure Closable (s : BlockCache D) (id : TransactionId) : Prop where
  isOpen : s.isOpen id = true
  written : ∀ n ∈ s.openBlocks id, (s.role n).previous = none
  alone : ∀ w ∈ s.writers, w.isClosing = false

lemma BlockWriter.isClosing_of_closes (h : w.closes id) : w.isClosing = true := by
  unfold BlockWriter.isClosing
  rcases h with h | h <;> rw [h]

lemma finish_writer (ho : Owners s) (hc : Counts e s) (hu : Unused s)
    (hb : Busy s []) (hw : s.writers[i]? = some w) (hp : w.pending = [])
    (ha : ∀ n ∈ w.done, ∀ b, s.hash n = some b → b.unused = false) :
    Finishing e (w.done.foldl BlockCache.blockDone { s with writers := s.writers.eraseIdx i }) [] ∧
      (∀ id, w.closes id → Closable
        (w.done.foldl BlockCache.blockDone { s with writers := s.writers.eraseIdx i }) id) ∧
      ∀ id, w.next = .detachSubTransaction id → BlockCache.hasSub
        (w.done.foldl BlockCache.blockDone { s with writers := s.writers.eraseIdx i }) id = true := by
  have hstart := finishing_start ho hc hu hb hw hp ha
  obtain ⟨hi, hget⟩ := List.getElem?_eq_some_iff.1 hw
  have hwmem : w ∈ s.writers := by
    rw [← hget]
    exact List.getElem_mem hi
  have hblocks : w.blocks = w.done := by rw [BlockWriter.blocks, hp, List.nil_append]
  -- the transaction is open, and what it waits for is among the blocks that are left
  obtain ⟨hfin, hclose⟩ := hstart.foldl
    (P := fun l c => (∀ id, w.closes id → c.isOpen id = true ∧
        ∀ n ∈ c.openBlocks id, (c.role n).previous ≠ none → n ∈ l) ∧
      (∀ id, w.next = .detachSubTransaction id → c.hasSub id = true) ∧
      c.writers = s.writers.eraseIdx i)
    ⟨fun id hcl => by rw [← hblocks]; exact hb.closing w hwmem id hcl,
      hb.detaching w hwmem, rfl⟩
    (by
      rintro c c' n l b hf hd ⟨hcl, hdet, hwr⟩
      refine ⟨fun id hid => ?_, fun id hid => ?_, by rw [hd.writers, hwr]⟩
      · obtain ⟨hopen, hall⟩ := hcl id hid
        refine ⟨by rw [hd.isOpen hf.owners]; exact hopen, fun m hm hprev => ?_⟩
        rw [hd.openBlocks hf.owners] at hm
        rw [hd.role m] at hprev
        split at hprev
        · exact absurd rfl hprev
        · rename_i hmn
          exact (List.mem_cons.1 (hall m hm hprev)).resolve_left hmn
      · rw [BlockCache.hasSub, hd.transaction_of_open hf.owners (hcl id (.inr hid)).1]
        exact hdet id hid)
  refine ⟨hfin, fun id hcl => ⟨(hclose.1 id hcl).1, fun n hn => ?_, fun v hv => ?_⟩, hclose.2.1⟩
  · by_contra hne
    exact absurd ((hclose.1 id hcl).2 n hn hne) (by simp)
  · rw [hclose.2.2] at hv
    have hunique := hb.unique
    rw [(List.getElem_cons_eraseIdx_perm hi).symm.countP_eq, hget, List.countP_cons,
      if_pos (BlockWriter.isClosing_of_closes hcl)] at hunique
    have hzero : (s.writers.eraseIdx i).countP BlockWriter.isClosing = 0 := by omega
    simpa using List.countP_eq_zero.1 hzero v hv

/-- The cache after writer `i` has finished its blocks `l`. -/
structure Finished (s s' : BlockCache D) (i : ℕ) (l : List BlockNumber) : Prop where
  hash : ∀ m, s'.hash m = if m ∈ l then (s.hash m).map CachedBlock.done else s.hash m
  role : ∀ m, s'.role m = if m ∈ l then { s.role m with previous := none } else s.role m
  device : s'.device = s.device
  log : s'.written = s.written
  writers : s'.writers = s.writers.eraseIdx i
  nextTransactionId : s'.nextTransactionId = s.nextTransactionId
  isOpen : ∀ id, s'.isOpen id = s.isOpen id
  openTransaction : ∀ id, s.isOpen id = true → s'.transactionHash id = s.transactionHash id
  counts : ∀ e, Counts e s → Counts e s'
  reports : Counts true s → ∀ id, Reports s s' id

lemma finished_of_writer (ho : Owners s) (hc : Counts e s) (hu : Unused s)
    (hb : Busy s []) (hw : s.writers[i]? = some w) (hp : w.pending = [])
    (ha : ∀ n ∈ w.done, ∀ b, s.hash n = some b → b.unused = false) :
    Finished s (w.done.foldl BlockCache.blockDone { s with writers := s.writers.eraseIdx i }) i
      w.done := by
  have hstart := finishing_start ho hc hu hb hw hp ha
  have hnd : w.done.Nodup := (List.nodup_append.1 hstart.busy.nodup).1
  -- the blocks that are still to come are unchanged
  obtain ⟨-, hrel⟩ := hstart.foldl
    (P := fun l c => (∀ m, c.hash m =
        if m ∈ w.done ∧ m ∉ l then (s.hash m).map CachedBlock.done else s.hash m) ∧
      (∀ m, c.role m =
        if m ∈ w.done ∧ m ∉ l then { s.role m with previous := none } else s.role m) ∧
      c.device = s.device ∧ c.written = s.written ∧ c.writers = s.writers.eraseIdx i ∧
      c.nextTransactionId = s.nextTransactionId ∧ (∀ id, c.isOpen id = s.isOpen id) ∧
      (∀ id, s.isOpen id = true → c.transactionHash id = s.transactionHash id) ∧
      l.Nodup ∧ ∀ m ∈ l, m ∈ w.done)
    ⟨fun m => by simp, fun m => by simp; rfl, rfl, rfl, rfl, rfl, fun _ => rfl, fun _ _ => rfl,
      hnd, fun m hm => hm⟩
    (by
      rintro c c' n l b hf hd ⟨hh, hr, hdev, hlog, hwr, hid, hop, hot, hndl, hsub⟩
      rw [List.nodup_cons] at hndl
      have hn : n ∈ w.done := hsub n List.mem_cons_self
      have hcn : c.hash n = s.hash n := by rw [hh n]; simp
      refine ⟨fun m => ?_, fun m => ?_, by rw [hd.device, hdev], by rw [hd.log, hlog],
        by rw [hd.writers, hwr], by rw [hd.nextTransactionId, hid],
        fun id => by rw [hd.isOpen hf.owners, hop], fun id ho' => ?_, hndl.2,
        fun m hm => hsub m (List.mem_cons_of_mem _ hm)⟩
      · by_cases hm : m = n
        · subst hm
          rw [hd.hash, update_self, if_pos ⟨hn, hndl.1⟩, ← hcn, hd.cached]
          rfl
        · rw [hd.hash, update_of_ne hm, hh m]
          simp [hm]
      · rw [hd.role m, hr n]
        by_cases hm : m = n
        · subst hm
          simp [hn, hndl.1]
        · rw [if_neg hm, hr m]
          simp [hm]
      · rw [hd.transaction_of_open hf.owners (by rw [hop]; exact ho'), hot id ho'])
  obtain ⟨hh, hr, hdev, hlog, hwr, hid, hop, hot, -, -⟩ := hrel
  refine ⟨fun m => by rw [hh m]; simp, fun m => by rw [hr m]; simp, hdev, hlog, hwr, hid, hop, hot,
    fun e' hc' => (finish_writer ho hc' hu hb hw hp ha).1.counts, fun hc' id => ?_⟩
  have hfirst : Reports s { s with writers := s.writers.eraseIdx i } id :=
    Reports.of_same (s := s) (fun _ => by rfl) (by rfl) (by rfl) id
  exact ((finishing_start ho hc' hu hb hw hp ha).foldl (P := fun _ c => Reports s c id) hfirst
    fun hf hd hR => hR.trans (hd.reports hf.owners hf.counts id)).2

lemma Finished.readBack (h : Finished s s' i l) (m : BlockNumber) :
    s'.readBack m = s.readBack m := by
  unfold BlockCache.readBack
  rw [h.hash m, h.device]
  split
  · cases s.hash m <;> rfl
  · rfl

end Haiku.Cache
