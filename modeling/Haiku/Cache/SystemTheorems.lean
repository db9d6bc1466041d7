import Haiku.Cache.TransactionsTheorems
import Mathlib.Data.List.Dedup

/-!
# One call of the block cache

`Change` lists what a call can do to the cache, and `step_changes` says that every call
does one of these things or, if it drops a reference or closes a transaction at its end, two
of them. All invariants are proved for `Change`; `inv_step` and `inv_run` are the first.
-/

namespace Haiku.Cache

open Lib

variable {D : Type}

/-! ## What a call can do -/

section Changes

variable [Zero D]

def Call.Fetches (c : Call D) (n : BlockNumber) (id : Option TransactionId) (cleared : Bool) :
    Prop :=
  (∃ m, c = .getWritable m n id cleared) ∨ ∃ m, c = .makeWritable m n id ∧ cleared = false

inductive Change (s : BlockCache D) : Call D → BlockCache D → Prop
  | same {c : Call D} : Change s c s
  | evict {c : Call D} {s' : BlockCache D} (h : Evicts s s') : Change s c s'
  | fetch {m : Memory} {n : BlockNumber} {s' : BlockCache D} {allocated : Bool}
      {b : CachedBlock D} (h : Fetched s s' n allocated b)
      (data : s.hash n = none → b.currentData = s.device n) : Change s (.get m n) s'
  | put {c : Call D} {n : BlockNumber} {s' : BlockCache D}
      (h : s.putCachedBlock n = some s') : Change s c s'
  | touch {c : Call D} {n : BlockNumber} {id : TransactionId} {cleared : Bool}
      {s' : BlockCache D} {t : CacheTransaction} {b : CachedBlock D}
      (call : c.Fetches n (some id) cleared) (open_ : s.isClosing id = false)
      (h : WritableIn s s' n id cleared t b) : Change s c s'
  | dirty {c : Call D} {n : BlockNumber} {cleared : Bool} {s' : BlockCache D}
      {b : CachedBlock D} (call : c.Fetches n none cleared)
      (h : WritableWithout s s' n cleared b) : Change s c s'
  | edit {id : Option TransactionId} {n : BlockNumber} {d : D} {b : CachedBlock D}
      (cached : s.hash n = some b) (editable : s.isEditable id n = true)
      (open_ : ∀ t, id = some t → s.isClosing t = false) :
      Change s (.edit id n d) (s.setBlock n { b with currentData := d })
  | start {s' : BlockCache D} (h : s.cacheStartTransaction = some s') :
      Change s .startTransaction s'
  | abort {id : TransactionId} {s' : BlockCache D} {t : CacheTransaction}
      (h : Aborted s s' id t) : Change s (.abortTransaction id) s'
  | subStart {id : TransactionId} {s' : BlockCache D} {t : CacheTransaction}
      (h : SubStarted s s' id t) : Change s (.startSubTransaction id) s'
  | subAbort {id : TransactionId} {s' : BlockCache D} {t : CacheTransaction}
      (h : SubAborted s s' id t) : Change s (.abortSubTransaction id) s'
  | ended {c : Call D} {id : TransactionId} {s' : BlockCache D} {t : CacheTransaction}
      (h : Ended s s' id t) (closable : Closable s id) : Change s c s'
  | detached {c : Call D} {id : TransactionId} {s' : BlockCache D} {t : CacheTransaction}
      (h : Detached s s' id t) (closable : Closable s id) (sub : s.hasSub id = true) :
      Change s c s'
  | mark {c : Call D} {ns : List BlockNumber} {next : AfterWrite} (addable : Addable s ns)
      (nonempty : ns ≠ [])
      (closes : ∀ id, next = .endTransaction id ∨ next = .detachSubTransaction id →
        s.writers = [] ∧ s.isOpen id = true ∧
        ∀ n ∈ s.openBlocks id, (s.role n).previous ≠ none → n ∈ ns)
      (detaches : ∀ id, next = .detachSubTransaction id → s.hasSub id = true)
      (discards : ∀ n k, next = .discard n k → k = 0) :
      Change s c
        { s.addAll ns with writers := (s.addAll ns).writers ++ [⟨ns.mergeSort, [], next⟩] }
  | write {i : ℕ} {s' : BlockCache D} (h : s.writeNext i = some s') :
      Change s (.writeBlock i) s'
  | finish {i : ℕ} {w : BlockWriter} (writer : s.writers[i]? = some w) (written : w.pending = [])
      (apart : ∀ n ∈ w.done, ∀ b, s.hash n = some b → b.unused = false) :
      Change s (.writeDone i)
        (w.done.foldl BlockCache.blockDone { s with writers := s.writers.eraseIdx i })

end Changes

/-! ## Which blocks a writer gets -/

variable {s : BlockCache D} {ns : List BlockNumber} {n : BlockNumber}

lemma mem_select {test : CachedBlock D → Bool} :
    n ∈ s.select ns test ↔ n ∈ ns ∧ ∃ b, s.hash n = some b ∧ test b = true := by
  unfold BlockCache.select
  rw [List.mem_filter]
  cases s.hash n <;> simp

lemma addable_of_canBeWritten (hnd : ns.Nodup)
    (h : ∀ n ∈ ns, ∃ b, s.hash n = some b ∧ b.canBeWritten = true) : Addable s ns := by
  refine ⟨hnd, fun n hn => ?_⟩
  obtain ⟨b, hb, hcan⟩ := h n hn
  simp only [CachedBlock.canBeWritten, Bool.and_eq_true, Bool.not_eq_true', Bool.or_eq_true,
    Option.isNone_iff_eq_none] at hcan
  refine ⟨b, hb, hcan.1.1, fun hp => ?_⟩
  rw [hp] at hcan
  exact (hcan.2.resolve_left (by simp)).1

lemma addable_writable (s : BlockCache D) (ns : List BlockNumber) :
    Addable s (s.writable ns) := by
  refine addable_of_canBeWritten (List.nodup_dedup _) fun n hn => ?_
  unfold BlockCache.writable at hn
  rw [List.mem_dedup, mem_select] at hn
  exact hn.2

lemma addable_writable_take (s : BlockCache D) (ns : List BlockNumber) (k : ℕ) :
    Addable s ((s.writable ns).take k) := by
  have h := addable_writable s ns
  exact ⟨h.nodup.sublist (List.take_sublist _ _), fun n hn => h.cached n (List.mem_of_mem_take hn)⟩

lemma addable_pending (hb : Busy s []) (hidle : s.writers = []) (hnd : ns.Nodup) :
    Addable s (s.pendingBlocks ns) := by
  refine ⟨hnd.filter _, fun n hn => ?_⟩
  obtain ⟨-, b, hb', hp⟩ := mem_select.1 hn
  refine ⟨b, hb', ?_, fun hprev => by rw [hprev] at hp; cases hp⟩
  cases hbw : b.busyWriting with
  | false => rfl
  | true =>
    have := (hb.busy_iff n).2 ⟨b, hb', hbw⟩
    simp [BlockCache.inFlight, hidle] at this

/-! ## A call is one or two changes -/

lemma pending_closes (h : Inv s) (hbusy : s.busyWritingCount = 0) {id : TransactionId}
    {t : CacheTransaction} (ht : s.transactionHash id = some t) (hopen : s.isOpen id = true) :
    Addable s (s.pendingBlocks t.firstBlock) ∧
      (s.writers = [] ∧ s.isOpen id = true ∧ ∀ n ∈ s.openBlocks id,
        (s.role n).previous ≠ none → n ∈ s.pendingBlocks t.firstBlock) := by
  have hop : t.isOpen = true := by simpa [BlockCache.isOpen, ht] using hopen
  have hidle := h.busy.writers_nil hbusy
  have hblocks : s.openBlocks id = t.firstBlock := by simp [BlockCache.openBlocks, ht, hop]
  refine ⟨addable_pending h.busy hidle (hblocks ▸ h.owners.open_nodup id), hidle, hopen,
    fun n hn hp => mem_select.2 ⟨hblocks ▸ hn, ?_⟩⟩
  obtain ⟨b, hb, -⟩ := cached_of_owner ((h.owners.open_iff n id).1 hn)
  rw [role_of_cached hb] at hp
  exact ⟨b, hb, by simpa [roleOf, Option.isSome_iff_ne_none] using hp⟩

lemma Inv.finishing (h : Inv s) : Finishing false s [] :=
  ⟨h.owners, h.counts, h.unused, h.busy, by simp⟩

lemma Finishing.inv (h : Finishing false s []) : Inv s :=
  ⟨h.owners, h.counts, h.unused, h.busy⟩

lemma edit_inv (h : Inv s) {b : CachedBlock D} (hb : s.hash n = some b) (d : D) :
    Inv (s.setBlock n { b with currentData := d }) := by
  have hrole := role_of_cached hb
  refine ⟨h.owners.set rfl rfl rfl hrole (h.owners.no_discard n b hb),
    h.counts.congr (role_set rfl hrole) rfl, h.unused.congr rfl rfl (fun m => ?_) ?_,
    h.busy.set rfl rfl rfl rfl hrole (by simp [hb])⟩
  · by_cases hm : m = n
    · subst hm
      simp [hb]
    · simp [hm]
  · intro m c hm hu
    rcases hash_set (s := s) rfl hm with ⟨rfl, rfl⟩ | ⟨-, hc⟩
    · exact h.unused.idle m b hb hu
    · exact h.unused.idle m c hc hu

variable {c : Call D} {m : Memory}

lemma Apart.evictable (h : Apart s c) (hc : c.evicts = (m.reuse || m.shrink)) :
    (m.reuse || m.shrink) = true → s.Evictable :=
  fun hm => h.evict (by rw [hc, hm])

variable [Zero D]

variable {s' : BlockCache D}

lemma afterWrite_change (ho : Owners s) {next : AfterWrite}
    (hcl : ∀ id, next = .endTransaction id ∨ next = .detachSubTransaction id → Closable s id)
    (hdet : ∀ id, next = .detachSubTransaction id → s.hasSub id = true)
    (hdis : ∀ n k, next = .discard n k → k = 0) (hs : s.afterWrite next = some s') :
    Change s c s' := by
  cases next with
  | nothing =>
    cases hs
    exact .same
  | endTransaction id =>
    have hc := hcl id (.inl rfl)
    obtain ⟨t, ht⟩ := ended_of_call ho hc.isOpen hs
    exact .ended ht hc
  | detachSubTransaction id =>
    have hc := hcl id (.inr rfl)
    obtain ⟨t, ht⟩ := detached_of_call ho hc.isOpen hs
    exact .detached ht hc (hdet id rfl)
  | discard n k =>
    -- the loop over the blocks to discard has nothing left to do
    rw [hdis n k rfl] at hs
    cases hs
    exact .same

lemma write_change (h : Inv s) {next : AfterWrite} (hns : Addable s ns)
    (hcl : ∀ id, next = .endTransaction id ∨ next = .detachSubTransaction id →
      s.writers = [] ∧ s.isOpen id = true ∧
      ∀ n ∈ s.openBlocks id, (s.role n).previous ≠ none → n ∈ ns)
    (hdet : ∀ id, next = .detachSubTransaction id → s.hasSub id = true)
    (hdis : ∀ n k, next = .discard n k → k = 0) (hs : s.write ns next = some s') :
    Change s c s' := by
  unfold BlockCache.write at hs
  split at hs
  · rename_i hnil
    refine afterWrite_change h.owners (fun id hid => ?_) hdet hdis hs
    obtain ⟨hidle, hopen, hall⟩ := hcl id hid
    refine ⟨hopen, fun n hn => ?_, by simp [hidle]⟩
    by_contra hne
    have := hall n hn hne
    simp [hnil] at this
  · rename_i hne
    cases hs
    exact .mark hns hne hcl hdet hdis

variable {cleared : Bool}

lemma writable_change (h : Inv s) (hc : (m.reuse || m.shrink) = true → s.Evictable)
    {id : Option TransactionId} (hcall : c.Fetches n id cleared)
    (hcl : ∀ t, id = some t → s.isClosing t = false)
    (hs : s.getWritableCachedBlock m n id cleared = some s') : Change s c s' ∧ Inv s' := by
  cases id with
  | none =>
    obtain ⟨b, hb⟩ := getWritable_without h hc hs
    exact ⟨.dirty hcall hb, hb.inv⟩
  | some id =>
    obtain ⟨t, b, hb⟩ := getWritable_in h hc hs
    have hopen := hcl id rfl
    exact ⟨.touch hcall hopen hb, hb.inv hopen⟩

def Call.Compound (c : Call D) : Prop :=
  (∃ m n id, c = .makeWritable m n id) ∨ ∃ i, c = .writeDone i

/-- The state `s₁` between the two changes of a call: the first one opens and closes no
transaction, and only one of the two changes whom the blocks belong to. -/
structure Between (s s₁ s' : BlockCache D) : Prop where
  inv : Inv s₁
  isOpen : ∀ id, s₁.isOpen id = s.isOpen id
  nextTransactionId : s₁.nextTransactionId = s.nextTransactionId
  owners : (∀ n, (s₁.role n).owner = (s.role n).owner) ∨ ∀ n, s'.role n = s₁.role n

omit [Zero D] in
lemma put_role (ho : Owners s) (hs : s.putCachedBlock n = some s') (m : BlockNumber) :
    s'.role m = s.role m := by
  rcases put_cases ho hs with ⟨rfl, -⟩ | ⟨b, hb, -, ⟨-, -, -, he⟩ | ⟨-, he⟩⟩
  · rfl
  all_goals
    have hrole := role_of_cached hb
    exact role_set (congrArg BlockCache.hash he) hrole m

lemma writable_transactions (h : Inv s) (hc : (m.reuse || m.shrink) = true → s.Evictable)
    {id : Option TransactionId} (hs : s.getWritableCachedBlock m n id cleared = some s') :
    (∀ id', s'.isOpen id' = s.isOpen id') ∧ s'.nextTransactionId = s.nextTransactionId := by
  cases id with
  | none =>
    obtain ⟨b, hb⟩ := getWritable_without h hc hs
    refine ⟨fun id' => ?_, hb.nextTransactionId⟩
    rw [BlockCache.isOpen, hb.transactionHash]
    rfl
  | some id =>
    obtain ⟨t, b, hb⟩ := getWritable_in h hc hs
    exact ⟨hb.touched.isOpen_eq, hb.touched.nextTransactionId⟩

lemma step_changes (h : Inv s) (hap : Apart s c) (hok : callerOk s c) (hs : step s c = some s') :
    Change s c s' ∨ c.Compound ∧ ∃ s₁, Change s c s₁ ∧ Between s s₁ s' ∧ Change s₁ c s' := by
  cases c with
  | get m n =>
    obtain ⟨⟨s₁, allocated⟩, hget, hs⟩ := Option.map_eq_some_iff.1 hs
    cases hs
    obtain ⟨b, hF, hdata⟩ := fetched_getCachedBlock h (hap.evictable rfl) hget
    exact .inl (.fetch hF hdata)
  | put n =>
    simp only [step] at hs
    split at hs
    · cases hs
    · exact .inl (.put hs)
  | getWritable m n id cleared =>
    simp only [step] at hs
    split at hs
    · cases hs
    · refine .inl (writable_change h (hap.evictable rfl) (.inl ⟨m, rfl⟩) ?_ hs).1
      rintro t rfl
      exact hok
  | makeWritable m n id =>
    simp only [step] at hs
    split at hs
    · cases hs
    · obtain ⟨s₁, hs₁, hs⟩ := Option.bind_eq_some_iff.1 hs
      have := writable_change (c := .makeWritable m n id) h (hap.evictable rfl)
        (.inr ⟨m, rfl, rfl⟩) (by rintro t rfl; exact hok) hs₁
      obtain ⟨hopen, hnext⟩ := writable_transactions h (hap.evictable rfl) hs₁
      exact .inr ⟨.inl ⟨m, n, id, rfl⟩, s₁, this.1,
        ⟨this.2, hopen, hnext, .inr (put_role this.2.owners hs)⟩, .put hs⟩
  | edit id n d =>
    obtain ⟨b, hb, hs⟩ := Option.map_eq_some_iff.1 hs
    cases hs
    exact .inl (.edit hb hok.1 hok.2)
  | startTransaction => exact .inl (.start hs)
  | endTransaction id =>
    simp only [step, BlockCache.cacheEndTransaction] at hs
    split at hs
    · cases hs
    rename_i hbusy
    split at hs
    · cases hs
    rename_i t ht
    obtain ⟨hadd, hcl⟩ := pending_closes h (by simpa using hbusy) ht hok
    refine .inl (write_change h hadd (fun id' hid => ?_) (by simp) (by simp) hs)
    have : id = id' := by simpa using hid
    subst this
    exact hcl
  | abortTransaction id =>
    obtain ⟨t, ht⟩ := aborted_of_call h.owners h.busy hok hs
    exact .inl (.abort ht)
  | startSubTransaction id =>
    obtain ⟨t, ht⟩ := subStarted_of_call h.owners h.busy hok hs
    exact .inl (.subStart ht)
  | abortSubTransaction id =>
    rcases subAborted_of_call h.owners h.busy hok hs with ⟨rfl, -⟩ | ⟨t, ht⟩
    · exact .inl .same
    · exact .inl (.subAbort ht)
  | detachSubTransaction id =>
    simp only [step, BlockCache.cacheDetachSubTransaction] at hs
    split at hs
    · cases hs
    rename_i hbusy
    split at hs
    · cases hs
    rename_i t ht
    split at hs
    · cases hs
      exact .inl .same
    rename_i hsub
    obtain ⟨hadd, hcl⟩ := pending_closes h (by simpa using hbusy) ht hok
    refine .inl (write_change h hadd (fun id' hid => ?_) (fun id' hid => ?_) (by simp) hs)
    · have : id = id' := by simpa using hid
      subst this
      exact hcl
    · have : id = id' := by simpa using hid
      subst this
      simpa [BlockCache.hasSub, ht] using hsub
  | sync blocks =>
    exact .inl (write_change h (addable_writable s blocks) (by simp) (by simp) (by simp) hs)
  | syncEtc n numBlocks =>
    simp only [step] at hs
    split at hs
    · cases hs
    · exact .inl (write_change h (addable_writable s _) (by simp) (by simp) (by simp) hs)
  | syncTransaction id ids =>
    simp only [step, BlockCache.cacheSyncTransaction] at hs
    split at hs
    · cases hs
    · exact .inl (write_change h (addable_writable s _) (by simp) (by simp) (by simp) hs)
  | backgroundWriter blocks ids =>
    exact .inl (write_change h (addable_writable_take s _ 64) (by simp) (by simp) (by simp) hs)
  | discard n numBlocks =>
    simp only [step, BlockCache.blockCacheDiscard] at hs
    split at hs
    · cases hs
    · rename_i hbusy
      have hadd := addable_pending h.busy (h.busy.writers_nil (by simpa using hbusy))
        (List.nodup_range' (s := n) (n := numBlocks))
      refine .inl (write_change h hadd (by simp) (by simp) ?_ hs)
      intro n' k hk
      cases hk
      rfl
  | removeUnusedBlocks count minSecondsOld now =>
    cases hs
    exact .inl (.evict (removeUnusedBlocks_evicts h.unused (hap.evict rfl) _ _ _))
  | writeBlock i => exact .inl (.write hs)
  | writeDone i =>
    simp only [step, BlockCache.writeDone] at hs
    split at hs
    · rename_i done next hw
      obtain ⟨hfin, hcl, hdet⟩ := finish_writer h.owners h.counts h.unused h.busy hw rfl
        (hap.finish i _ rfl hw)
      have hwmem : ⟨[], done, next⟩ ∈ s.writers := List.mem_of_getElem? hw
      have hF := finished_of_writer h.owners h.counts h.unused h.busy hw rfl (hap.finish i _ rfl hw)
      refine .inr ⟨.inr ⟨i, rfl⟩, _, .finish hw rfl (hap.finish i _ rfl hw),
        ⟨hfin.inv, hF.isOpen, hF.nextTransactionId, .inl fun n => ?_⟩,
        afterWrite_change hfin.owners hcl hdet (h.busy.discarding _ hwmem) hs⟩
      rw [hF.role n]
      split <;> rfl
    · cases hs

/-! ## The invariant along runs -/

lemma Change.inv (hc : Change s c s') (h : Inv s) : Inv s' := by
  have hf := h.finishing
  cases hc with
  | same => exact h
  | evict he => exact h.evicts he
  | fetch hF => exact hF.inv
  | put hp => exact inv_put h hp
  | touch _ hopen hw => exact hw.inv hopen
  | dirty _ hw => exact hw.inv
  | edit hb _ _ => exact edit_inv h hb _
  | start hs => exact (startTransaction_finishing hf hs).inv
  | abort ha => exact (ha.finishing hf).inv
  | subStart hs => exact (hs.finishing hf).inv
  | subAbort hs => exact (hs.finishing hf).inv
  | ended he hcl => exact (he.finishing hf hcl).inv
  | detached hd hcl hsub => exact (hd.finishing hf hcl hsub).inv
  | mark hns hne hcl hdet hdis => exact inv_write h hns hne hcl hdet hdis
  | write hw => exact inv_writeNext h hw
  | finish hw hp ha => exact (finish_writer hf.owners hf.counts hf.unused hf.busy hw hp ha).1.inv

/-! ## What happens to the roles -/

/-- The transactions and the roles of all blocks are as before. -/
structure Still (s s' : BlockCache D) : Prop where
  role : ∀ n, s'.role n = s.role n
  transactionHash : s'.transactionHash = s.transactionHash
  nextTransactionId : s'.nextTransactionId = s.nextTransactionId
  notified : s'.notified = s.notified

omit [Zero D] in
lemma put_still (ho : Owners s) (hs : s.putCachedBlock n = some s') : Still s s' := by
  have hrole := put_role ho hs
  rcases put_cases ho hs with ⟨rfl, -⟩ | ⟨b, hb, -, ⟨-, -, -, rfl⟩ | ⟨-, rfl⟩⟩
  all_goals exact ⟨hrole, rfl, rfl, rfl⟩

/-- The changes of the cache, as far as the roles of the blocks and the transactions are
concerned. -/
inductive RoleChange (s : BlockCache D) : Call D → BlockCache D → Prop
  | still {c : Call D} {s' : BlockCache D} (h : Still s s') : RoleChange s c s'
  | touch {c : Call D} {n : BlockNumber} {id : TransactionId} {cleared : Bool}
      {s' : BlockCache D} {t : CacheTransaction} (call : c.Fetches n (some id) cleared)
      (h : Touched s s' n id ((s.hash n).isNone && cleared) t) : RoleChange s c s'
  | start {s' : BlockCache D} (h : s.cacheStartTransaction = some s') :
      RoleChange s .startTransaction s'
  | abort {id : TransactionId} {s' : BlockCache D} {t : CacheTransaction}
      (h : Aborted s s' id t) : RoleChange s (.abortTransaction id) s'
  | subStart {id : TransactionId} {s' : BlockCache D} {t : CacheTransaction}
      (h : SubStarted s s' id t) : RoleChange s (.startSubTransaction id) s'
  | subAbort {id : TransactionId} {s' : BlockCache D} {t : CacheTransaction}
      (h : SubAborted s s' id t) : RoleChange s (.abortSubTransaction id) s'
  | ended {c : Call D} {id : TransactionId} {s' : BlockCache D} {t : CacheTransaction}
      (h : Ended s s' id t) (closable : Closable s id) : RoleChange s c s'
  | detached {c : Call D} {id : TransactionId} {s' : BlockCache D} {t : CacheTransaction}
      (h : Detached s s' id t) (closable : Closable s id) (sub : s.hasSub id = true) :
      RoleChange s c s'
  | finish {c : Call D} {s' : BlockCache D} {i : ℕ} {l : List BlockNumber}
      (h : Finished s s' i l) : RoleChange s c s'

lemma Change.roleChange (hc : Change s c s') (h : Inv s) : RoleChange s c s' := by
  cases hc with
  | same => exact .still ⟨fun _ => rfl, rfl, rfl, rfl⟩
  | evict he =>
    have hr := he.sameRest h
    exact .still ⟨hr.role, hr.transactionHash, hr.nextTransactionId, hr.notified⟩
  | fetch hF => exact .still ⟨hF.role, hF.transactionHash, hF.nextTransactionId, hF.notified⟩
  | put hp => exact .still (put_still h.owners hp)
  | touch hcall _ hw => exact .touch hcall hw.touched
  | dirty _ hw => exact .still ⟨hw.role, hw.transactionHash, hw.nextTransactionId, hw.notified⟩
  | edit hb _ _ =>
    have hrole := role_of_cached hb
    exact .still ⟨role_set rfl hrole, rfl, rfl, rfl⟩
  | start hs => exact .start hs
  | abort ha => exact .abort ha
  | subStart hs => exact .subStart hs
  | subAbort hs => exact .subAbort hs
  | ended he hcl => exact .ended he hcl
  | detached hd hcl hsub => exact .detached hd hcl hsub
  | @mark _ ns _ _ _ _ _ _ =>
    obtain ⟨hth, -, -, hno, -, hid, -, -⟩ := addAll_rest ns s
    exact .still ⟨addAll_role ns s, hth, hid, hno⟩
  | write hw =>
    unfold BlockCache.writeNext at hw
    split at hw
    · split at hw
      · cases hw
      · cases hw
        exact .still ⟨fun _ => rfl, rfl, rfl, rfl⟩
    · cases hw
  | finish hw hp ha => exact .finish (finished_of_writer h.owners h.counts h.unused h.busy hw hp ha)

/-- The conditions under which the calls of a run are made. -/
structure Ok (s : BlockCache D) (c : Call D) : Prop where
  caller : callerOk s c
  apart : Apart s c

/-- A check of `Ok` that can be evaluated. It does not know about the calls that iterate over
a hash table, nor about evictions. -/
def checkOk (s : BlockCache D) (c : Call D) : Bool :=
  !c.evicts && match c with
    | .getWritable _ _ (some id) _ => !s.isClosing id
    | .makeWritable _ _ (some id) => !s.isClosing id
    | .edit none n _ => s.isEditable none n
    | .edit (some id) n _ => s.isEditable (some id) n && !s.isClosing id
    | .endTransaction id => s.isOpen id
    | .abortTransaction id => s.isOpen id
    | .startSubTransaction id => s.isOpen id
    | .abortSubTransaction id => s.isOpen id
    | .detachSubTransaction id => s.isOpen id
    | .sync _ => false
    | .syncTransaction _ _ => false
    | .backgroundWriter _ _ => false
    | .writeDone i => s.writers[i]?.all fun w => w.done.all fun n =>
      (s.hash n).all fun b => !b.unused
    | _ => true

omit [Zero D] in
lemma ok_of_check (s : BlockCache D) (c : Call D) (h : checkOk s c = true) : Ok s c := by
  unfold checkOk at h
  rw [Bool.and_eq_true, Bool.not_eq_true'] at h
  obtain ⟨he, hc⟩ := h
  have hevict : c.evicts = true → ∀ n b, s.hash n = some b → b.unused = true →
      b.isDirty = false ∧ b.busyWriting = false := fun he' => by rw [he] at he'; cases he'
  by_cases hw : ∃ i, c = .writeDone i
  · obtain ⟨i, rfl⟩ := hw
    refine ⟨trivial, fun i' w hi hw n hn b hb => ?_, hevict⟩
    cases hi
    simp only [hw, Option.all_some, List.all_eq_true] at hc
    simpa [hb] using hc n hn
  · refine ⟨?_, fun i _ hi => absurd ⟨i, hi⟩ hw, hevict⟩
    cases c with
    | getWritable m n id cleared =>
      cases id with
      | none => trivial
      | some id => simpa [callerOk] using hc
    | makeWritable m n id =>
      cases id with
      | none => trivial
      | some id => simpa [callerOk] using hc
    | edit id n d =>
      cases id with
      | none => exact ⟨hc, by simp⟩
      | some id =>
        rw [Bool.and_eq_true, Bool.not_eq_true'] at hc
        exact ⟨hc.1, fun t ht => by cases ht; exact hc.2⟩
    | endTransaction id => exact hc
    | abortTransaction id => exact hc
    | startSubTransaction id => exact hc
    | abortSubTransaction id => exact hc
    | detachSubTransaction id => exact hc
    | sync _ => cases hc
    | syncTransaction _ _ => cases hc
    | backgroundWriter _ _ => cases hc
    | _ => trivial

lemma step_keeps {P : BlockCache D → Prop} (h : Inv s) (hok : Ok s c) (hs : step s c = some s')
    (hP : P s) (hchange : ∀ {s₁ s₂}, s₁ = s ∨ c.Compound → Inv s₁ → P s₁ → Change s₁ c s₂ → P s₂) :
    P s' := by
  rcases step_changes h hok.apart hok.caller hs with hc | ⟨hcomp, s₁, hc, hb, hc'⟩
  · exact hchange (.inl rfl) h hP hc
  · exact hchange (.inr hcomp) hb.inv (hchange (.inl rfl) h hP hc) hc'

lemma fetch_step (h : Inv s) (hok : Ok s c) {id : TransactionId}
    (hf : c.Fetches n (some id) cleared) (hs : step s c = some s') :
    ∃ s₁ t b, WritableIn s s₁ n id cleared t b ∧ Inv s₁ ∧
      (s' = s₁ ∨ s₁.putCachedBlock n = some s') := by
  rcases hf with ⟨m, rfl⟩ | ⟨m, rfl, rfl⟩
  · simp only [step] at hs
    split at hs
    · simp at hs
    · obtain ⟨t, b, hw⟩ := getWritable_in h (hok.apart.evictable rfl) hs
      exact ⟨s', t, b, hw, hw.inv hok.caller, .inl rfl⟩
  · simp only [step] at hs
    split at hs
    · simp at hs
    · obtain ⟨s₁, hs₁, hp⟩ := Option.bind_eq_some_iff.1 hs
      obtain ⟨t, b, hw⟩ := getWritable_in h (hok.apart.evictable rfl) hs₁
      exact ⟨s₁, t, b, hw, hw.inv hok.caller, .inr hp⟩

lemma inv_step (h : Inv s) (hok : Ok s c) (hs : step s c = some s') : Inv s' :=
  step_keeps h hok hs h fun _ h₁ _ hc => hc.inv h₁

lemma run_keeps {P : BlockCache D → Prop} {ok : BlockCache D → Call D → Prop}
    {h : History (BlockCache D) (Call D)} (hr : Run step ok s h s') (hI : Inv s)
    (hok : ∀ s c, ok s c → Ok s c) (hP : P s)
    (hchange : ∀ {s c s₁ s₂}, ok s c → s₁ = s ∨ c.Compound → Inv s₁ → P s₁ →
      Change s₁ c s₂ → P s₂) : Inv s' ∧ P s' :=
  hr.invariant (I := fun s => Inv s ∧ P s) ⟨hI, hP⟩ fun hI hc hs =>
    ⟨inv_step hI.1 (hok _ _ hc) hs, step_keeps hI.1 (hok _ _ hc) hs hI.2 (hchange hc)⟩

lemma inv_run {ok : BlockCache D → Call D → Prop} (hok : ∀ s c, ok s c → Ok s c)
    {device : BlockNumber → D} {maxBlocks : ℕ} {readOnly : Bool}
    {h : History (BlockCache D) (Call D)}
    (hr : Run step ok (BlockCache.create device maxBlocks readOnly) h s) : Inv s :=
  hr.invariant (inv_create device maxBlocks readOnly) fun hI hc hs => inv_step hI (hok _ _ hc) hs

end Haiku.Cache
