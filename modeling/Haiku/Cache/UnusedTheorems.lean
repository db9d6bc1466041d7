import Haiku.Cache.CountTheorems

/-!
# The list of unused blocks

A block is on the list of unused blocks if and only if nobody holds a reference to it and it
belongs to no transaction. Two things break this. `cache_abort_transaction()` takes blocks that
nobody references out of their transaction and does not put them on the list; and
`_BlockDone()` puts a block on the list that is already there. The second is what `Apart`
excludes; the condition here is about the first.
-/

namespace Haiku.Cache

open Lib

variable {D : Type}

/-- Nobody holds a reference to the block, and it belongs to no transaction. -/
structure CachedBlock.Idle (b : CachedBlock D) : Prop where
  refCount : b.refCount = 0
  transaction : b.transaction = none
  previousTransaction : b.previousTransaction = none

def Listed (s : BlockCache D) : Prop := ∀ n b, s.hash n = some b → b.Idle → b.unused = true

/-- When a transaction is aborted, its blocks are referenced, or an earlier transaction still waits
for them to be written. -/
def AbortsReferenced (s : BlockCache D) (c : Call D) : Prop :=
  ∀ id n b, c = .abortTransaction id → s.hash n = some b → b.transaction = some id →
    0 < b.refCount ∨ b.previousTransaction ≠ none

variable {s s' : BlockCache D} {n : BlockNumber}

lemma Listed.others (h : Listed s) {b : CachedBlock D} (hn : s'.hash n = some b)
    (hb : b.Idle → b.unused = true)
    (hothers : ∀ m, m ≠ n → s'.hash m = s.hash m ∨ s'.hash m = none ∧
      ∃ c, s.hash m = some c ∧ c.unused = true ∧ c.isDirty = false) : Listed s' := by
  intro m c hm hidle
  by_cases hmn : m = n
  · subst hmn
    rw [hn] at hm
    cases hm
    exact hb hidle
  · rcases hothers m hmn with he | ⟨he, -⟩
    · rw [he] at hm
      exact h m c hm hidle
    · rw [he] at hm
      simp at hm

lemma Listed.set (h : Listed s) {b : CachedBlock D}
    (hh : s'.hash = Function.update s.hash n (some b)) (hb : b.Idle → b.unused = true) :
    Listed s' := by
  refine h.others (n := n) (by rw [hh, Function.update_self]) hb fun m hm => .inl ?_
  rw [hh, Function.update_of_ne hm]

lemma Mapped.listed {id : TransactionId} {f : CachedBlock D → CachedBlock D}
    {g : BlockRole D → BlockRole D} (hm : Mapped s s' id f g) (h : Listed s)
    (hf : ∀ n b, s.hash n = some b → b.transaction = some id → ¬ (f b).Idle) : Listed s' := by
  intro n c hn hidle
  obtain ⟨b, hb, ⟨rfl, -⟩ | ⟨rfl, htr⟩⟩ := hm.cached hn
  · exact h n c hb hidle
  · exact absurd hidle (hf n b hb htr)

lemma put_listed (ho : Owners s) (hs : s.putCachedBlock n = some s') (h : Listed s) :
    Listed s' := by
  rcases put_cases ho hs with ⟨rfl, -⟩ | ⟨b, hb, hpos, ⟨-, -, -, rfl⟩ | ⟨hne, rfl⟩⟩
  · exact h
  · exact h.set (n := n) (b := { b with refCount := 0, isWriting := false, unused := true }) rfl
      fun _ => rfl
  · refine h.set (n := n) (b := { b with refCount := b.refCount - 1 }) rfl fun hidle => ?_
    have href : b.refCount - 1 = 0 := hidle.refCount
    exact absurd ⟨by omega, hidle.transaction, hidle.previousTransaction⟩ hne

variable [Zero D]

lemma Change.listed {c : Call D} (hc : Change s c s') (hI : Inv s)
    (habort : AbortsReferenced s c) (h : Listed s) : Listed s' := by
  -- a block that is referenced is not idle
  have hheld : ∀ {b : CachedBlock D}, 0 < b.refCount → b.Idle → b.unused = true := by
    intro b hpos hidle
    rw [hidle.refCount] at hpos
    omega
  cases hc with
  | same => exact h
  | evict hev =>
    intro n b hn hidle
    rcases (hev.sameRest hI).hash n with he | ⟨he, -⟩
    · exact h n b (he ▸ hn) hidle
    · rw [he] at hn
      simp at hn
  | fetch hF _ => exact h.others hF.cached (hheld hF.refCount) hF.others
  | put hp => exact put_listed hI.owners hp h
  | touch _ _ hw => exact h.others hw.cached (hheld hw.refCount) hw.touched.others
  | dirty _ hw => exact h.others hw.cached (hheld hw.refCount) hw.others
  | @edit _ n d b hb _ _ =>
    exact h.set (n := n) (b := { b with currentData := d }) rfl fun hidle =>
      h n b hb ⟨hidle.refCount, hidle.transaction, hidle.previousTransaction⟩
  | start hs =>
    unfold Listed
    rw [(start_fields hs).1]
    exact h
  | @abort id _ t ha =>
    refine ha.mapped.listed h fun n b hb htr hidle => ?_
    rcases habort id n b rfl hb htr with hpos | hprev
    · have href : b.refCount = 0 := hidle.refCount
      omega
    · exact hprev hidle.previousTransaction
  | subStart hs =>
    refine hs.mapped.listed h fun n b hb htr hidle => ?_
    have hnone := hidle.transaction
    rw [CachedBlock.subStarted, hI.owners.no_discard n b hb] at hnone
    simp [htr] at hnone
  | subAbort hs =>
    refine hs.mapped.listed h fun n b _ htr hidle => ?_
    have hnone : b.transaction = none := hidle.transaction
    simp [htr] at hnone
  | ended he _ =>
    refine he.mapped.listed h fun n b hb _ hidle => ?_
    have hnone := hidle.previousTransaction
    rw [CachedBlock.ended, hI.owners.no_discard n b hb] at hnone
    simp at hnone
  | detached hd _ _ =>
    refine hd.mapped.listed h fun n b hb _ hidle => ?_
    have htr := hidle.transaction
    have hprev := hidle.previousTransaction
    rw [CachedBlock.detached, hI.owners.no_discard n b hb] at htr hprev
    cases hp : b.parentData <;> simp [hp] at htr hprev
  | @mark _ ns _ _ _ _ _ _ =>
    intro n b hn hidle
    have hn' : (s.addAll ns).hash n = some b := hn
    rw [addAll_hash] at hn'
    split at hn'
    · obtain ⟨b', hb', rfl⟩ := Option.map_eq_some_iff.1 hn'
      exact h n b' hb' ⟨hidle.refCount, hidle.transaction, hidle.previousTransaction⟩
    · exact h n b hn' hidle
  | write hw =>
    obtain ⟨-, -, -, -, hh, -⟩ := writeNext_cases hw
    unfold Listed
    rw [hh]
    exact h
  | finish hw hp ha =>
    have hfin := finished_of_writer hI.owners hI.counts hI.unused hI.busy hw hp ha
    intro n b hn hidle
    rw [hfin.hash n] at hn
    split at hn
    · obtain ⟨b', -, rfl⟩ := Option.map_eq_some_iff.1 hn
      have htr : b'.transaction = none := hidle.transaction
      have href : b'.refCount = 0 := hidle.refCount
      simp [htr, href]
    · exact h n b hn hidle

/-- In every run that aborts transactions only while their blocks are referenced or still to be
written, the list of unused blocks has exactly the idle blocks, each once; the flags of the
blocks and the length of the list are right. -/
theorem unused_iff_idle {device : BlockNumber → D} {maxBlocks : ℕ} {readOnly : Bool}
    {h : History (BlockCache D) (Call D)} {s : BlockCache D}
    (hr : Run step (fun s c => Ok s c ∧ AbortsReferenced s c)
      (BlockCache.create device maxBlocks readOnly) h s) :
    (∀ n b, s.hash n = some b → (n ∈ s.unusedBlocks ↔ b.refCount = 0 ∧ b.transaction = none ∧
      b.previousTransaction = none)) ∧
    s.unusedBlocks.Nodup ∧ (∀ n ∈ s.unusedBlocks, s.hash n ≠ none) ∧
    (∀ n b, s.hash n = some b → (b.unused = true ↔ n ∈ s.unusedBlocks)) ∧
    s.unusedBlockCount = s.unusedBlocks.length := by
  obtain ⟨hI, hL⟩ := run_keeps (P := Listed) hr (inv_create device maxBlocks readOnly)
    (fun _ _ hc => hc.1) (by simp [Listed])
    fun hok hcomp hI hL hc => hc.listed hI (by
      rcases hcomp with rfl | ⟨m, k, id, rfl⟩ | ⟨i, rfl⟩
      · exact hok.2
      · intro id' n b he
        simp at he
      · intro id' n b he
        simp at he) hL
  have hflag : ∀ n b, s.hash n = some b → (n ∈ s.unusedBlocks ↔ b.unused = true) := by
    intro n b hb
    rw [hI.unused.mem_iff n, hb]
    simp
  refine ⟨fun n b hb => ?_, hI.unused.nodup, fun n hn => ?_, fun n b hb => (hflag n b hb).symm,
    hI.unused.count⟩
  · rw [hflag n b hb]
    exact ⟨hI.unused.idle n b hb, fun ⟨href, htr, hprev⟩ => hL n b hb ⟨href, htr, hprev⟩⟩
  · obtain ⟨b, hb, -⟩ := (hI.unused.mem_iff n).1 hn
    rw [hb]
    simp

/-- A block that is put after the transaction was ended and the block was written. -/
theorem unused_iff_idle_written :
    (outcome step sevens (storeAndWrite false (.endTransaction 1) ++ [.writeDone 0])).unusedBlocks
      = [0] ∧ ∃ b, (outcome step sevens
        (storeAndWrite false (.endTransaction 1) ++ [.writeDone 0])).hash 0 = some b ∧
        b.refCount = 0 ∧ b.transaction = none ∧ b.previousTransaction = none := by
  have hcheck : ∀ (s : BlockCache ℕ) c, (checkOk s c && match c with
      | .abortTransaction _ => false
      | _ => true) = true → Ok s c ∧ AbortsReferenced s c := by
    intro s c hc
    rw [Bool.and_eq_true] at hc
    refine ⟨ok_of_check s c hc.1, fun id n b he => ?_⟩
    rw [he] at hc
    simp at hc
  obtain ⟨h, hr, -⟩ := run_outcome step hcheck sevens
    (storeAndWrite false (.endTransaction 1) ++ [.writeDone 0]) (fun _ => true) (by decide +kernel)
  have hlist : (outcome step sevens
      (storeAndWrite false (.endTransaction 1) ++ [.writeDone 0])).unusedBlocks = [0] := by
    decide +kernel
  have hcached : ((outcome step sevens
      (storeAndWrite false (.endTransaction 1) ++ [.writeDone 0])).hash 0).isSome = true := by
    decide +kernel
  obtain ⟨b, hb⟩ := Option.isSome_iff_exists.1 hcached
  exact ⟨hlist, b, hb, ((unused_iff_idle hr).1 0 b hb).1 (by rw [hlist]; simp)⟩

/-- A block that nobody references is not put on the list when its transaction is aborted. -/
theorem aborted_not_unused : ¬ ∀ (device : BlockNumber → ℕ) (maxBlocks : ℕ) (readOnly : Bool)
    (h : History (BlockCache ℕ) (Call ℕ)) (s : BlockCache ℕ),
    Run step callerOk (BlockCache.create device maxBlocks readOnly) h s →
      ∀ n b, s.hash n = some b → (n ∈ s.unusedBlocks ↔ b.refCount = 0 ∧ b.transaction = none ∧
        b.previousTransaction = none) := by
  intro hclaim
  obtain ⟨h, hr, -⟩ := run_outcome step ok_of_check sevens
    (storeFive false ++ [.put 0, .abortTransaction 1]) (fun _ => true) (by decide)
  have hlist : (outcome step sevens
      (storeFive false ++ [.put 0, .abortTransaction 1])).unusedBlocks = [] := by decide
  have hidle : ((outcome step sevens (storeFive false ++ [.put 0, .abortTransaction 1])).hash 0).any
      (fun b => b.refCount == 0 && b.transaction.isNone && b.previousTransaction.isNone) = true := by
    decide
  obtain ⟨b, hb, hb'⟩ := (Option.any_eq_true _ _).1 hidle
  simp only [Bool.and_eq_true, beq_iff_eq, Option.isNone_iff_eq_none] at hb'
  have := (hclaim _ _ _ h _ (hr.mono fun _ _ hc => hc.caller) 0 b hb).2
    ⟨hb'.1.1, hb'.1.2, hb'.2⟩
  simp [hlist] at this

/-- A block that was changed without a transaction, put, and written back is put on the list
again. -/
example : (outcome step sevens [.getWritable .plenty 0 none false, .put 0, .syncEtc 0 1,
    .writeBlock 0, .writeDone 0]).unusedBlocks = [0, 0] := by
  decide +kernel

end Haiku.Cache
