import Haiku.Cache.WriteBackTheorems

/-!
# The counters of the transactions

The counters agree with the lists of blocks, and a closed transaction is removed and reported
with `TRANSACTION_WRITTEN` when the last of its blocks has been written, as long as no block is
counted twice for a sub-transaction. `get_writable_cached_block()` counts a block that has no
parent data whenever it has no original data or belongs to an earlier transaction, also if the
sub-transaction has fetched it before.
-/

namespace Haiku.Cache

open Function Lib

variable {D : Type}

/-! ## The parts of a transaction -/

/-- Whether a call starts a sub-transaction of `id`. -/
def Call.startsSub (c : Call D) (id : TransactionId) : Bool :=
  match c with
  | .startSubTransaction id' => id' = id
  | _ => false

/-- Whether a call fetches block `n` for writing in transaction `id`. -/
def Call.fetches (c : Call D) (n : BlockNumber) (id : TransactionId) : Bool :=
  match c with
  | .getWritable _ k (some id') _ => k = n && id' = id
  | .makeWritable _ k (some id') => k = n && id' = id
  | _ => false

/-- The blocks that transaction `id` had changed when its last sub-transaction was started. -/
def parentBlocks (id : TransactionId) :
    History (BlockCache D) (Call D) → BlockCache D → BlockNumber → Bool
  | [], _, _ => false
  | (s, c) :: h, s', n =>
    if c.startsSub id then (s'.role n).owner = some id else parentBlocks id h s n

/-- The blocks that were fetched for writing in transaction `id` since its last sub-transaction was
started. -/
def changedInSub (id : TransactionId) : History (BlockCache D) (Call D) → BlockNumber → Bool
  | [], _ => false
  | (_, c) :: h, n => !c.startsSub id && (c.fetches n id || changedInSub id h n)

variable {c : Call D} {id : TransactionId}

lemma fetches_iff {n : BlockNumber} :
    c.fetches n id = true ↔ ∃ cleared, c.Fetches n (some id) cleared := by
  constructor
  · intro h
    unfold Call.fetches at h
    split at h
    · rw [Bool.and_eq_true, decide_eq_true_eq, decide_eq_true_eq] at h
      obtain ⟨rfl, rfl⟩ := h
      exact ⟨_, .inl ⟨_, rfl⟩⟩
    · rw [Bool.and_eq_true, decide_eq_true_eq, decide_eq_true_eq] at h
      obtain ⟨rfl, rfl⟩ := h
      exact ⟨_, .inr ⟨_, rfl, rfl⟩⟩
    · simp at h
  · rintro ⟨cleared, ⟨m, rfl⟩ | ⟨m, rfl, -⟩⟩
    · simp [Call.fetches]
    · simp [Call.fetches]

/-- What the parent data says about the two parts of transaction `id`, while it has a
sub-transaction. -/
def Parts (parent sub : BlockNumber → Bool) (s : BlockCache D) (id : TransactionId) : Prop :=
  s.isOpen id = true → s.hasSub id = true → ∀ n,
    (parent n = true ↔ s.Owns id n ∧ (s.role n).parent ≠ .null) ∧
    (s.Owns id n → (sub n = true ↔ (s.role n).parent ≠ .current))

variable {parent sub : BlockNumber → Bool} {s s' : BlockCache D}

lemma Parts.congr (h : Parts parent sub s id)
    (hsub : s'.isOpen id = true → s'.hasSub id = true → s.isOpen id = true ∧ s.hasSub id = true)
    (hrole : ∀ n, ((s'.role n).owner = some id ↔ (s.role n).owner = some id) ∧
      ((s.role n).owner = some id → (s'.role n).parent = (s.role n).parent)) :
    Parts parent sub s' id := by
  intro hopen hs n
  obtain ⟨hopen', hs'⟩ := hsub hopen hs
  obtain ⟨hp, hc⟩ := h hopen' hs' n
  obtain ⟨howner, hparent⟩ := hrole n
  refine ⟨hp.trans ⟨fun ⟨ho, hne⟩ => ⟨howner.2 ho, ?_⟩, fun ⟨ho, hne⟩ => ⟨howner.1 ho, ?_⟩⟩,
    fun ho => ?_⟩
  · rw [hparent ho]
    exact hne
  · rw [← hparent (howner.1 ho)]
    exact hne
  · rw [hparent (howner.1 ho)]
    exact hc (howner.1 ho)

variable {id' : TransactionId}

lemma Mapped.parts {f : CachedBlock D → CachedBlock D} {g : BlockRole D → BlockRole D}
    (hm : Mapped s s' id' f g) (hne : id ≠ id')
    (hg : ∀ r : BlockRole D, r.owner = some id' → (g r).owner ≠ some id) (n : BlockNumber) :
    ((s'.role n).owner = some id ↔ (s.role n).owner = some id) ∧
      ((s.role n).owner = some id → (s'.role n).parent = (s.role n).parent) := by
  rw [hm.role n]
  split
  · rename_i ho
    refine ⟨⟨fun h => absurd h (hg _ ho), fun h => ?_⟩, fun h => ?_⟩
    all_goals
      rw [ho] at h
      exact absurd (Option.some.inj h).symm hne
  · exact ⟨Iff.rfl, fun _ => rfl⟩

lemma Still.parts (hs : Still s s') (h : Parts parent sub s id) : Parts parent sub s' id := by
  refine h.congr (fun ho hsub => ?_) fun n => by rw [hs.role n]; exact ⟨Iff.rfl, fun _ => rfl⟩
  rw [BlockCache.isOpen, hs.transactionHash] at ho
  rw [BlockCache.hasSub, hs.transactionHash] at hsub
  exact ⟨ho, hsub⟩

lemma RoleChange.parts (hc : RoleChange s c s') (hI : Inv s) (hstart : c.startsSub id = false)
    (hfetch : ∀ n id cleared, ¬ c.Fetches n (some id) cleared) (h : Parts parent sub s id) :
    Parts parent sub s' id := by
  have hother : ∀ {id' o}, id ≠ id' →
      s'.transactionHash = update s.transactionHash id' o → s'.isOpen id = true →
      s'.hasSub id = true → s.isOpen id = true ∧ s.hasSub id = true := by
    intro id' o hne hth hopen hs
    rw [BlockCache.isOpen, hth, update_of_ne hne] at hopen
    rw [BlockCache.hasSub, hth, update_of_ne hne] at hs
    exact ⟨hopen, hs⟩
  cases hc with
  | still hs => exact hs.parts h
  | touch hcall _ => exact absurd hcall (hfetch _ _ _)
  | start hs =>
    obtain ⟨hh, -, -, -, -, -, hth⟩ := start_fields hs
    by_cases hid : id = s.nextTransactionId
    · intro _ hsub
      simp [hth, hid] at hsub
    · refine h.congr (hother hid hth) fun n => ?_
      rw [BlockCache.role, hh]
      exact ⟨Iff.rfl, fun _ => rfl⟩
  | @abort id' _ t ha =>
    by_cases hid : id = id'
    · intro hopen
      simp [ha.transactionHash, hid] at hopen
    · exact h.congr (hother hid ha.transactionHash)
        (ha.mapped.parts hid fun r _ => by simp)
  | @subStart id' _ t hs =>
    have hid : id ≠ id' := by
      rintro rfl
      simp [Call.startsSub] at hstart
    refine h.congr (hother hid hs.transactionHash) (hs.mapped.parts hid fun r ho => ?_)
    rw [BlockRole.subStarted, ho]
    simpa using fun he => hid he.symm
  | @subAbort id' _ t hs =>
    by_cases hid : id = id'
    · intro _ hsub
      simp [hs.transactionHash, hid] at hsub
    · refine h.congr (hother hid hs.transactionHash) (hs.mapped.parts hid fun r ho => ?_)
      rw [BlockRole.subAborted, ho]
      simpa using fun he => hid he.symm
  | @ended _ id' _ t he _ =>
    by_cases hid : id = id'
    · intro hopen
      simp [he.transactionHash, hid] at hopen
    · exact h.congr (hother hid he.transactionHash)
        (he.mapped.parts hid fun r _ => by simp)
  | @detached _ id' _ t hd _ _ =>
    by_cases hnew : id = s.nextTransactionId
    · intro _ hsub
      simp [hnew, hd.opened] at hsub
    · by_cases hid : id = id'
      · intro hopen
        simp [hid, hd.closed hI.owners] at hopen
      · refine h.congr (fun hopen hsub => ?_) (hd.mapped.parts hid fun r _ => ?_)
        · rw [BlockCache.isOpen, hd.transactionHash, update_of_ne hnew,
            update_of_ne hid] at hopen
          rw [BlockCache.hasSub, hd.transactionHash, update_of_ne hnew,
            update_of_ne hid] at hsub
          exact ⟨hopen, hsub⟩
        · rw [BlockRole.detached]
          cases r.parent <;> simp [Ne.symm hnew]
  | finish hf =>
    refine h.congr (fun hopen hsub => ?_) fun n => ?_
    · rw [hf.isOpen] at hopen
      rw [BlockCache.hasSub, hf.openTransaction id hopen] at hsub
      exact ⟨hopen, hsub⟩
    · rw [(hf.same n).1, (hf.same n).2]
      exact ⟨Iff.rfl, fun _ => rfl⟩

variable {t : CacheTransaction}

lemma Touched.parts {k : BlockNumber} {skip : Bool} (hT : Touched s s' k id' skip t)
    (hO : Owners s) (h : Parts parent sub s id) :
    Parts parent (fun n => (k = n && id' = id) || sub n) s' id := by
  intro hopen hsub n
  rw [hT.isOpen_eq] at hopen
  rw [hT.hasSub] at hsub
  obtain ⟨hp, hc⟩ := h hopen hsub n
  rw [BlockCache.Owns, hT.role n]
  by_cases hn : n = k
  · subst hn
    rw [if_pos rfl]
    have hnull : ((s.role n).touched id' (s.readBack n) skip).parent ≠ .null ↔
        (s.role n).parent ≠ .null := by
      rw [BlockRole.touched]
      cases (s.role n).parent <;> simp
    have hcurrent : ((s.role n).touched id' (s.readBack n) skip).parent ≠ .current := by
      rw [BlockRole.touched]
      cases (s.role n).parent <;> simp
    have howner : ((s.role n).touched id' (s.readBack n) skip).owner = some id' := rfl
    refine ⟨hp.trans ?_, fun ho => ?_⟩
    · rw [hnull, howner]
      constructor <;> rintro ⟨ho, hne⟩ <;> refine ⟨?_, hne⟩
      · have ho' : (s.role n).owner = some id := ho
        rcases hT.owner with hfree | howned
        · rw [hfree] at ho'
          simp at ho'
        · rw [← howned]
          exact ho'
      · -- a block that was not part of a transaction has no parent data
        rcases hT.owner with hfree | howned
        · exact absurd (hO.free n hfree).2 hne
        · rw [BlockCache.Owns, howned]
          exact ho
    · have hid : id' = id := by simpa [howner] using ho
      subst hid
      simpa using hcurrent
  · rw [if_neg hn]
    refine ⟨hp, fun ho => ?_⟩
    have hkn : ¬ k = n := fun he => hn he.symm
    simpa [hkn] using hc ho

lemma SubStarted.parts (hs : SubStarted s s' id t) :
    Parts (fun n => (s'.role n).owner = some id) (fun _ => false) s' id := by
  intro _ _ n
  have hparent : (s'.role n).owner = some id → (s'.role n).parent = .current := by
    rw [hs.mapped.role n]
    split
    · exact fun _ => rfl
    · rename_i hne
      exact fun ho => absurd ho hne
  refine ⟨?_, fun ho => ?_⟩
  · rw [decide_eq_true_eq]
    exact ⟨fun ho => ⟨ho, by rw [hparent ho]; simp⟩, fun ho => ho.1⟩
  · simp [hparent ho]

/-! ## Exact counters -/

variable [Zero D]

/-- In a sub-transaction, a block that it has fetched before, and that its parent part did not
change, is only fetched again if the original contents are preserved and nothing is to be
written for an earlier transaction. -/
def SubCounted (s : BlockCache D) (c : Call D) : Prop :=
  ∀ n id cleared, c.Fetches n (some id) cleared → s.hasSub id = true → s.Owns id n →
    (s.role n).parent = .null → (s.role n).original ≠ none ∧ (s.role n).previous = none

lemma step_fetches (h : Inv s) (hok : Ok s c) (hs : step s c = some s') :
    (∃ n id cleared s₁ t, c.Fetches n (some id) cleared ∧
      Touched s s₁ n id ((s.hash n).isNone && cleared) t ∧ Still s₁ s') ∨
    ∀ n id cleared, ¬ c.Fetches n (some id) cleared := by
  by_cases hf : ∃ n id cleared, c.Fetches n (some id) cleared
  · obtain ⟨n, id, cleared, hf⟩ := hf
    obtain ⟨s₁, t, b, hw, hI₁, hput⟩ := fetch_step h hok hf hs
    refine .inl ⟨n, id, cleared, s₁, t, hf, hw.touched, ?_⟩
    rcases hput with rfl | hp
    · exact ⟨fun _ => rfl, rfl, rfl, rfl⟩
    · exact put_still hI₁.owners hp
  · exact .inr fun n id cleared hf' => hf ⟨n, id, cleared, hf'⟩

lemma step_parts (hI : Inv s) (hok : Ok s c) (hs : step s c = some s')
    {h : History (BlockCache D) (Call D)}
    (hP : Parts (parentBlocks id h s) (changedInSub id h) s id) :
    Parts (parentBlocks id ((s, c) :: h) s') (changedInSub id ((s, c) :: h)) s' id := by
  show Parts (fun n => if c.startsSub id then decide ((s'.role n).owner = some id) else
    parentBlocks id h s n) (fun n => !c.startsSub id && (c.fetches n id || changedInSub id h n)) s' id
  by_cases hstart : c.startsSub id = true
  · obtain rfl : c = .startSubTransaction id := by
      unfold Call.startsSub at hstart
      split at hstart
      · rw [decide_eq_true_eq] at hstart
        rw [hstart]
      · simp at hstart
    obtain ⟨t, ht⟩ := subStarted_of_call hI.owners hI.busy hok.caller hs
    simpa [hstart] using ht.parts
  · rw [Bool.not_eq_true] at hstart
    simp only [hstart, Bool.not_false, Bool.true_and, Bool.false_eq_true, if_false]
    rcases step_fetches hI hok hs with ⟨k, id', cleared, s₁, t, hf, hT, hstill⟩ | hf
    · have hk : ∀ n, c.fetches n id = (decide (k = n) && decide (id' = id)) := by
        intro n
        rcases hf with ⟨m, rfl⟩ | ⟨m, rfl, -⟩
        · rfl
        · rfl
      simp only [hk]
      exact hstill.parts (hT.parts hI.owners hP)
    · have hno : ∀ n, c.fetches n id = false := by
        intro n
        by_contra hne
        obtain ⟨cleared, hf'⟩ := fetches_iff.1 (by simpa using hne)
        exact hf n id cleared hf'
      simp only [hno, Bool.false_or]
      exact step_keeps (P := fun s => Parts (parentBlocks id h _) (changedInSub id h) s id) hI hok hs
        hP fun _ hI₁ hP₁ hc => (hc.roleChange hI₁).parts hI₁ hstart hf hP₁

omit [Zero D] in
lemma RoleChange.counts (hc : RoleChange s c s') (hI : Inv s) (he : Counts true s)
    (hfetch : ∀ n id cleared, ¬ c.Fetches n (some id) cleared) : Counts true s' := by
  have hf : Finishing true s [] := ⟨hI.owners, he, hI.unused, hI.busy, by simp⟩
  cases hc with
  | still hs => exact he.congr hs.role hs.transactionHash
  | touch hcall _ => exact absurd hcall (hfetch _ _ _)
  | start hs => exact (startTransaction_finishing hf hs).counts
  | abort ha => exact (ha.finishing hf).counts
  | subStart hs => exact (hs.finishing hf).counts
  | subAbort hs => exact (hs.finishing hf).counts
  | ended he' hcl => exact (he'.finishing hf hcl).counts
  | detached hd hcl hsub => exact (hd.finishing hf hcl hsub).counts
  | finish hF => exact hF.counts true he

lemma step_counts (hI : Inv s) (hok : Ok s c) (hsub : SubCounted s c) (hs : step s c = some s')
    (he : Counts true s) : Counts true s' := by
  rcases step_fetches hI hok hs with ⟨n, id, cleared, s₁, t, hf, hT, hstill⟩ | hf
  · refine (hT.counts hI.owners he fun _ hsub' hown hnull => ?_).congr hstill.role
      hstill.transactionHash
    have hown' : s.Owns id n := hT.owner.resolve_left hown
    exact hsub n id cleared hf (by simpa [hT.transaction] using hsub') hown' hnull
  · exact step_keeps (P := Counts true) hI hok hs he fun _ hI₁ he₁ hc =>
      (hc.roleChange hI₁).counts hI₁ he₁ hf

/-! ## The moment of `TRANSACTION_WRITTEN` -/

/-- Transaction `id` is removed and reported if its last block has been written. -/
structure Moment (s s' : BlockCache D) (id : TransactionId) : Prop where
  written : s.Pending id → ¬ s'.Pending id →
    s'.transactionHash id = none ∧ s'.writtenEvents id = s.writtenEvents id + 1
  quiet : ¬ s.Pending id ∨ s'.Pending id → s'.writtenEvents id = s.writtenEvents id
  gone : s.transactionHash id = none → id < s.nextTransactionId → s'.transactionHash id = none
  started : s.nextTransactionId ≤ s'.nextTransactionId

omit [Zero D] in
lemma Moment.of_more (hmore : s.Pending id → s'.Pending id)
    (hevents : s'.writtenEvents id = s.writtenEvents id)
    (hgone : s.transactionHash id = none → id < s.nextTransactionId → s'.transactionHash id = none)
    (hstarted : s.nextTransactionId ≤ s'.nextTransactionId) : Moment s s' id :=
  ⟨fun hp hne => absurd (hmore hp) hne, fun _ => hevents, hgone, hstarted⟩

omit [Zero D] in
lemma Owners.pending (ho : Owners s) (hp : s.Pending id) :
    s.transactionHash id ≠ none ∧ id < s.nextTransactionId := by
  obtain ⟨n, hn⟩ := hp
  obtain ⟨t, ht, -⟩ := ho.isClosed hn
  have hne : s.transactionHash id ≠ none := by rw [ht]; simp
  exact ⟨hne, ho.ids id hne⟩

omit [Zero D] in
lemma Moment.trans {s₁ s₂ s₃ : BlockCache D} (h₁ : Owners s₁) (h₃ : Owners s₃)
    (hback : s₂.Pending id → s₁.Pending id) (h : Moment s₁ s₂ id) (h' : Moment s₂ s₃ id) :
    Moment s₁ s₃ id where
  written hp hne := by
    by_cases hp₂ : s₂.Pending id
    · rw [← h.quiet (.inr hp₂)]
      exact h'.written hp₂ hne
    · obtain ⟨hth, hev⟩ := h.written hp hp₂
      refine ⟨h'.gone hth (Nat.lt_of_lt_of_le (h₁.pending hp).2 h.started), ?_⟩
      rw [h'.quiet (.inl hp₂), hev]
  quiet hq := by
    by_cases hp₁ : s₁.Pending id
    · have hp₃ := hq.resolve_left (not_not_intro hp₁)
      by_cases hp₂ : s₂.Pending id
      · rw [h'.quiet (.inr hp₃), h.quiet (.inr hp₂)]
      · -- a transaction that is gone does not come back
        obtain ⟨hth, -⟩ := h.written hp₁ hp₂
        have hgone := h'.gone hth (Nat.lt_of_lt_of_le (h₁.pending hp₁).2 h.started)
        exact absurd hgone (h₃.pending hp₃).1
    · rw [h'.quiet (.inl fun hp₂ => hp₁ (hback hp₂)), h.quiet (.inl hp₁)]
  gone hth hlt := h'.gone (h.gone hth hlt) (Nat.lt_of_lt_of_le hlt h.started)
  started := Nat.le_trans h.started h'.started

omit [Zero D] in
lemma writtenEvents_of_notify {e : TransactionEvent}
    (hno : s'.notified = s.notified ++ [(id', e)]) (he : e ≠ .written) (id : TransactionId) :
    s'.writtenEvents id = s.writtenEvents id := by
  have hzero : [(id', e)].count (id, .written) = 0 :=
    List.count_eq_zero.2 (by simpa using fun _ => he.symm)
  rw [BlockCache.writtenEvents, hno, List.count_append, hzero]
  rfl

omit [Zero D] in
lemma update_gone {o : Option CacheTransaction} (ht : s.transactionHash id' = some t)
    (hth : s'.transactionHash = update s.transactionHash id' o)
    (hgone : s.transactionHash id = none) : s'.transactionHash id = none := by
  have hne : id ≠ id' := by
    rintro rfl
    rw [hgone] at ht
    simp at ht
  rw [hth, update_of_ne hne]
  exact hgone

omit [Zero D] in
lemma Mapped.pending {f : CachedBlock D → CachedBlock D} {g : BlockRole D → BlockRole D}
    (hm : Mapped s s' id' f g)
    (hg : ∀ n, (s.role n).owner = some id' → (s.role n).previous = some id →
      (g (s.role n)).previous = some id) (hp : s.Pending id) : s'.Pending id := by
  obtain ⟨n, hn⟩ := hp
  refine ⟨n, ?_⟩
  rw [hm.role n]
  split
  · rename_i ho
    exact hg n ho hn
  · exact hn

omit [Zero D] in
lemma Still.moment (hs : Still s s') (id : TransactionId) : Moment s s' id := by
  refine .of_more (fun ⟨n, hn⟩ => ⟨n, by rw [hs.role n]; exact hn⟩) ?_ (fun hg _ => ?_)
    (Nat.le_of_eq hs.nextTransactionId.symm)
  · rw [BlockCache.writtenEvents, hs.notified]
    rfl
  · rw [hs.transactionHash]
    exact hg

omit [Zero D] in
lemma RoleChange.moment (hc : RoleChange s c s') (hI : Inv s) (he : Counts true s)
    (id : TransactionId) : Moment s s' id := by
  have hclosable : ∀ {id'}, Closable s id' → ∀ n, (s.role n).owner = some id' →
      (s.role n).previous ≠ some id := by
    intro id' hcl n ho
    rw [hcl.written n ((hI.owners.open_iff n id').2 ho)]
    simp
  cases hc with
  | still hs => exact hs.moment id
  | @touch _ k id' _ _ t _ hT =>
    refine .of_more (fun ⟨n, hn⟩ => ⟨n, ?_⟩) ?_ (fun hg _ => update_gone hT.transaction
      hT.transactionHash hg) (Nat.le_of_eq hT.nextTransactionId.symm)
    · rw [hT.role n]
      split
      · rename_i hnk
        rw [← hnk]
        exact hn
      · exact hn
    · rw [BlockCache.writtenEvents, hT.notified]
      rfl
  | start hs =>
    obtain ⟨hh, -, -, -, hno, hnext, hth⟩ := start_fields hs
    refine .of_more (fun ⟨n, hn⟩ => ⟨n, by rw [BlockCache.role, hh]; exact hn⟩) ?_
      (fun hg hlt => ?_) (by rw [hnext]; exact Nat.le_succ _)
    · rw [BlockCache.writtenEvents, hno]
      rfl
    · rw [hth, update_of_ne (Nat.ne_of_lt hlt)]
      exact hg
  | abort ha =>
    exact .of_more (ha.mapped.pending fun n _ hp => hp)
      (writtenEvents_of_notify ha.notified (by simp) id)
      (fun hg _ => update_gone ha.transaction ha.transactionHash hg)
      (Nat.le_of_eq ha.nextTransactionId.symm)
  | subStart hs =>
    exact .of_more (hs.mapped.pending fun n _ hp => hp)
      (writtenEvents_of_notify hs.notified (by simp) id)
      (fun hg _ => update_gone hs.transaction hs.transactionHash hg)
      (Nat.le_of_eq hs.nextTransactionId.symm)
  | subAbort hs =>
    exact .of_more (hs.mapped.pending fun n _ hp => hp)
      (writtenEvents_of_notify hs.notified (by simp) id)
      (fun hg _ => update_gone hs.transaction hs.transactionHash hg)
      (Nat.le_of_eq hs.nextTransactionId.symm)
  | ended he' hcl =>
    exact .of_more (he'.mapped.pending fun n ho hp => absurd hp (hclosable hcl n ho))
      (writtenEvents_of_notify he'.notified (by simp) id)
      (fun hg _ => update_gone he'.transaction he'.transactionHash hg)
      (Nat.le_of_eq he'.nextTransactionId.symm)
  | @detached _ id' _ t hd hcl _ =>
    refine .of_more (hd.mapped.pending fun n ho hp => absurd hp (hclosable hcl n ho))
      (writtenEvents_of_notify hd.notified (by simp) id) (fun hg hlt => ?_)
      (by rw [hd.nextTransactionId]; exact Nat.le_succ _)
    rw [hd.transactionHash, update_of_ne (Nat.ne_of_lt hlt)]
    have hne : id ≠ id' := by
      rintro rfl
      rw [hd.transaction] at hg
      simp at hg
    rw [update_of_ne hne]
    exact hg
  | finish hF =>
    have hR := hF.reports he id
    refine ⟨hR.written, fun hq => hR.quiet fun hp => ?_, fun hg _ => hR.gone hg,
      Nat.le_of_eq hF.nextTransactionId.symm⟩
    exact hq.resolve_left (not_not_intro hp)

lemma step_moment (hI : Inv s) (hok : Ok s c) (hs : step s c = some s') (he : Counts true s)
    (id : TransactionId) : Moment s s' id := by
  have hI' := inv_step hI hok hs
  rcases step_fetches hI hok hs with ⟨n, id', cleared, s₁, t, hf, hT, hstill⟩ | hf
  · refine .trans hI.owners hI'.owners (fun ⟨m, hm⟩ => ⟨m, ?_⟩)
      ((RoleChange.touch hf hT).moment hI he id) (hstill.moment id)
    rw [hT.role m] at hm
    split at hm
    · rename_i hmn
      rw [hmn]
      exact hm
    · exact hm
  rcases step_changes hI hok.apart hok.caller hs with hc | ⟨hcomp, s₁, hc, hb, hc'⟩
  · exact (hc.roleChange hI).moment hI he id
  · have hrc := hc.roleChange hI
    -- the first change closes no transaction
    have hback : s₁.Pending id → s.Pending id := by
      rintro ⟨n, hn⟩
      obtain ⟨t, ht, hclosed, -⟩ := hb.inv.owners.isClosed hn
      have hover : Over s id := by
        refine ⟨?_, by rw [← hb.nextTransactionId]; exact (hb.inv.owners.pending ⟨n, hn⟩).2⟩
        rw [← hb.isOpen, BlockCache.isOpen, ht, Option.any_some]
        exact hclosed
      exact ⟨n, hrc.previous hover hn⟩
    exact .trans hI.owners hI'.owners hback (hrc.moment hI he id)
      ((hc'.roleChange hb.inv).moment hb.inv (hrc.counts hI he hf) id)

/-! ## Runs -/

omit [Zero D] in
/-- A transaction that was reported is gone for good. -/
def Reported (s : BlockCache D) : Prop :=
  ∀ id, 0 < s.writtenEvents id → s.transactionHash id = none ∧ id < s.nextTransactionId

omit [Zero D] in
lemma Moment.reported (hm : ∀ id, Moment s s' id) (ho : Owners s) (h : Reported s) :
    Reported s' := by
  intro id hpos
  by_cases hp : s.Pending id ∧ ¬ s'.Pending id
  · exact ⟨((hm id).written hp.1 hp.2).1,
      Nat.lt_of_lt_of_le (ho.pending hp.1).2 (hm id).started⟩
  · have hquiet : ¬ s.Pending id ∨ s'.Pending id := by
      by_contra hne
      exact hp ⟨by_contra fun h => hne (.inl h), fun h => hne (.inr h)⟩
    rw [(hm id).quiet hquiet] at hpos
    obtain ⟨hth, hlt⟩ := h id hpos
    exact ⟨(hm id).gone hth hlt, Nat.lt_of_lt_of_le hlt (hm id).started⟩

omit [Zero D] in
lemma Reported.pending (h : Reported s) (ho : Owners s) (hp : s.Pending id) :
    s.writtenEvents id = 0 := by
  by_contra hne
  exact (ho.pending hp).1 (h id (Nat.pos_of_ne_zero hne)).1

/-- What the counters of a transaction are to be, in a state `s` with the history `h`. -/
structure CountsRight (h : History (BlockCache D) (Call D)) (s : BlockCache D)
    (id : TransactionId) (t : CacheTransaction) : Prop where
  opened : t.isOpen = true → t.firstBlock.Nodup ∧ (∀ n, n ∈ t.firstBlock ↔ s.Owns id n) ∧
    t.numBlocks = t.firstBlock.length
  main : t.isOpen = true → t.hasSubTransaction = true →
    t.mainNumBlocks = t.firstBlock.countP (parentBlocks id h s)
  sub : t.isOpen = true → t.hasSubTransaction = true →
    t.subNumBlocks = t.firstBlock.countP (changedInSub id h)
  closed : t.isOpen = false → t.blocks.Nodup ∧
    (∀ n, n ∈ t.blocks ↔ (s.role n).previous = some id) ∧ t.numBlocks = t.blocks.length

omit [Zero D] in
lemma countsRight {h : History (BlockCache D) (Call D)} (hI : Inv s) (he : Counts true s)
    (hP : Parts (parentBlocks id h s) (changedInSub id h) s id)
    (ht : s.transactionHash id = some t) : CountsRight h s id t := by
  have hmem : t.isOpen = true → ∀ n, n ∈ t.firstBlock ↔ s.Owns id n := fun hopen n =>
    mem_firstBlock hI.owners ht hopen n
  have hparts : t.isOpen = true → t.hasSubTransaction = true → ∀ n,
      (parentBlocks id h s n = true ↔ s.Owns id n ∧ (s.role n).parent ≠ .null) ∧
      (s.Owns id n → (changedInSub id h n = true ↔ (s.role n).parent ≠ .current)) :=
    fun hopen hsub => hP (by simp [ht, hopen])
      (by simp [ht, hsub])
  refine ⟨fun hopen => ⟨?_, hmem hopen, ?_⟩, fun hopen hsub => ?_, fun hopen hsub => ?_,
    fun hclosed => ⟨?_, fun n => ?_, ?_⟩⟩
  · have hnd := hI.owners.open_nodup id
    simpa [BlockCache.openBlocks, ht, hopen] using hnd
  · exact ((he.opened id t ht hopen).2 rfl).symm
  · rw [← (he.main id t ht hopen hsub).2 rfl]
    congr 1
    refine List.countP_congr fun n hn => ?_
    rw [(hparts hopen hsub n).1]
    have hown := (hmem hopen n).1 hn
    cases hp : (s.role n).parent <;> simp [hown]
  · rw [← (he.sub id t ht hopen hsub).2 rfl]
    congr 1
    refine List.countP_congr fun n hn => ?_
    rw [(hparts hopen hsub n).2 ((hmem hopen n).1 hn)]
    cases hp : (s.role n).parent <;> simp
  · have hnd := hI.owners.closed_nodup id
    simpa [BlockCache.closedBlocks, ht, hclosed] using hnd
  · have hiff := hI.owners.closed_iff n id
    simpa [BlockCache.closedBlocks, ht, hclosed] using hiff
  · exact ((he.closed id t ht hclosed).2 rfl).symm

/-- In every run that counts the blocks of sub-transactions once, the counters are right in every
state. A transaction for which something is still to be written has not been reported; it is
removed and reported, once, by the call that finishes its last block, and nothing is
reported otherwise. -/
theorem counts_right {device : BlockNumber → D} {maxBlocks : ℕ} {readOnly : Bool}
    {h : History (BlockCache D) (Call D)} {s : BlockCache D}
    (hr : Run step (fun s c => Ok s c ∧ SubCounted s c)
      (BlockCache.create device maxBlocks readOnly) h s) :
    (∀ id t, s.transactionHash id = some t → CountsRight h s id t) ∧
    (∀ id, s.Pending id → s.writtenEvents id = 0) ∧
    ∀ c s', Ok s c → step s c = some s' → ∀ id,
      (s.Pending id ∧ ¬ s'.Pending id →
        s'.transactionHash id = none ∧ s'.writtenEvents id = 1) ∧
      (¬ (s.Pending id ∧ ¬ s'.Pending id) → s'.writtenEvents id = s.writtenEvents id) := by
  obtain ⟨hI, he, hrep, hP⟩ : Inv s ∧ Counts true s ∧ Reported s ∧
      ∀ id, Parts (parentBlocks id h s) (changedInSub id h) s id := by
    refine hr.history (P := fun h s => Inv s ∧ Counts true s ∧ Reported s ∧
      ∀ id, Parts (parentBlocks id h s) (changedInSub id h) s id) ?_ ?_
    · refine ⟨inv_create device maxBlocks readOnly, ?_, ?_, fun id hopen => ?_⟩
      · exact ⟨by simp, by simp,
          by simp, by simp⟩
      · intro id hpos
        simp [BlockCache.writtenEvents] at hpos
      · simp at hopen
    · rintro h s c s' _ ⟨hI, he, hrep, hP⟩ ⟨hok, hsub⟩ hs
      exact ⟨inv_step hI hok hs, step_counts hI hok hsub hs he,
        Moment.reported (step_moment hI hok hs he) hI.owners hrep,
        fun id => step_parts hI hok hs (hP id)⟩
  refine ⟨fun id t ht => countsRight hI he (hP id) ht, fun id hp => hrep.pending hI.owners hp,
    fun c s' hok hs id => ⟨fun hp => ?_, fun hnot => ?_⟩⟩
  · have hm := (step_moment hI hok hs he id).written hp.1 hp.2
    rw [hrep.pending hI.owners hp.1] at hm
    exact hm
  · refine (step_moment hI hok hs he id).quiet ?_
    by_contra hne
    exact hnot ⟨by_contra fun h => hne (.inl h), fun h => hne (.inr h)⟩

/-- A check of `SubCounted` that can be evaluated: no block is fetched in a sub-transaction. -/
def checkSubCounted (s : BlockCache D) : Call D → Bool
  | .getWritable _ _ (some id) _ => !s.hasSub id
  | .makeWritable _ _ (some id) => !s.hasSub id
  | _ => true

omit [Zero D] in
lemma subCounted_of_check (s : BlockCache D) (c : Call D) (h : checkSubCounted s c = true) :
    SubCounted s c := by
  rintro n id cleared (⟨m, rfl⟩ | ⟨m, rfl, -⟩) hsub
  · rw [checkSubCounted, hsub] at h
    cases h
  · rw [checkSubCounted, hsub] at h
    cases h

/-- Transaction 1 has changed one block, which has been written; the call that finishes the block
removes and reports the transaction. -/
theorem counts_right_written :
    (outcome step (outcome step sevens (storeAndWrite false (.endTransaction 1)))
      [.writeDone 0]).transactionHash 1 = none ∧
    (outcome step (outcome step sevens (storeAndWrite false (.endTransaction 1)))
      [.writeDone 0]).writtenEvents 1 = 1 := by
  have hcheck : ∀ (s : BlockCache ℕ) c, (checkOk s c && checkSubCounted s c) = true →
      Ok s c ∧ SubCounted s c := by
    intro s c hc
    rw [Bool.and_eq_true] at hc
    exact ⟨ok_of_check s c hc.1, subCounted_of_check s c hc.2⟩
  obtain ⟨h, hr, -⟩ := run_outcome step hcheck sevens (storeAndWrite false (.endTransaction 1))
    (fun _ => true) (by decide +kernel)
  have hok : Ok (outcome step sevens (storeAndWrite false (.endTransaction 1))) (.writeDone 0) :=
    ok_of_check _ _ (by decide +kernel)
  have hs : step (outcome step sevens (storeAndWrite false (.endTransaction 1))) (.writeDone 0)
      = some (outcome step (outcome step sevens (storeAndWrite false (.endTransaction 1)))
        [.writeDone 0]) := step_outcome (by decide +kernel)
  have hnot : ¬ (outcome step (outcome step sevens (storeAndWrite false (.endTransaction 1)))
      [.writeDone 0]).Pending 1 := by
    intro hp
    have hI := inv_step (inv_run (fun _ _ hc => hc.1) hr) hok hs
    exact (hI.owners.pending hp).1 (by decide +kernel)
  exact ((counts_right hr).2.2 _ _ hok hs 1).1 ⟨⟨0, by decide +kernel⟩, hnot⟩

/-- Fetching a block twice in a sub-transaction counts it twice, if its original contents are not
preserved the first time. -/
theorem counted_twice : ¬ ∀ (device : BlockNumber → ℕ) (maxBlocks : ℕ) (readOnly : Bool)
    (h : History (BlockCache ℕ) (Call ℕ)) (s : BlockCache ℕ),
    Run step callerOk (BlockCache.create device maxBlocks readOnly) h s →
      ∀ id t, s.transactionHash id = some t → CountsRight h s id t := by
  intro hclaim
  obtain ⟨h, hr, -⟩ := run_outcome step ok_of_check sevens
    [.startTransaction, .startSubTransaction 1, .getWritable .plenty 0 (some 1) true,
      .getWritable .plenty 0 (some 1) true] (fun _ => true) (by decide)
  have hth : (outcome step sevens [.startTransaction, .startSubTransaction 1,
      .getWritable .plenty 0 (some 1) true, .getWritable .plenty 0 (some 1) true]).transactionHash 1
      = some ⟨1, 0, 2, [0], [], true, true⟩ := by decide
  have hsub : (2 : ℤ) = [0].countP (changedInSub 1 h) :=
    (hclaim _ _ _ h _ (hr.mono fun _ _ hc => hc.caller) 1 _ hth).sub rfl rfl
  have hle := List.countP_le_length (p := changedInSub 1 h) (l := [0])
  simp only [List.length_singleton] at hle
  omega

end Haiku.Cache
