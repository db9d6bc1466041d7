import Haiku.Cache.ContentsTheorems

/-!
# Aborting transactions and sub-transactions

`cache_abort_transaction()` restores what a block held before the transaction fetched it for
the first time, and `cache_abort_sub_transaction()` what all blocks held when the
sub-transaction was started. Both fail for a block that is first fetched by
`block_cache_get_empty()` while it is not cached: its contents on the device are not
preserved.
-/

namespace Haiku.Cache

open Function Lib

variable {D : Type}

/-! ## A transaction that is closed stays closed -/

/-- Transaction `id` was started at some time, and is not open anymore. -/
structure Over (s : BlockCache D) (id : TransactionId) : Prop where
  notOpen : s.isOpen id = false
  started : id < s.nextTransactionId

attribute [simp] BlockCache.isOpen BlockCache.hasSub

variable {s s' : BlockCache D} {id : TransactionId} {t : CacheTransaction}

lemma Over.update {id' : TransactionId} {o : Option CacheTransaction} (ho : Over s id')
    (ht : s.transactionHash id = some t) (hop : t.isOpen = true)
    (hth : s'.transactionHash = update s.transactionHash id o)
    (hid : s'.nextTransactionId = s.nextTransactionId) : Over s' id' := by
  have hne : id' ≠ id := by
    rintro rfl
    have := ho.notOpen
    simp [ht, hop] at this
  refine ⟨?_, by rw [hid]; exact ho.started⟩
  rw [BlockCache.isOpen, hth, update_of_ne hne]
  exact ho.notOpen

variable {c : Call D}

lemma RoleChange.over (hc : RoleChange s c s') (ho : Over s id) : Over s' id := by
  cases hc with
  | still h =>
    exact ⟨by rw [BlockCache.isOpen, h.transactionHash]; exact ho.notOpen,
      by rw [h.nextTransactionId]; exact ho.started⟩
  | touch _ h =>
    exact ⟨by rw [h.isOpen_eq]; exact ho.notOpen, by rw [h.nextTransactionId]; exact ho.started⟩
  | start h =>
    obtain ⟨-, -, -, -, -, hid, hth⟩ := start_fields h
    have hne : id ≠ s.nextTransactionId := Nat.ne_of_lt ho.started
    refine ⟨?_, by rw [hid]; exact Nat.lt_succ_of_lt ho.started⟩
    rw [BlockCache.isOpen, hth, update_of_ne hne]
    exact ho.notOpen
  | abort h => exact ho.update h.transaction h.isOpen h.transactionHash h.nextTransactionId
  | subStart h => exact ho.update h.transaction h.isOpen h.transactionHash h.nextTransactionId
  | subAbort h => exact ho.update h.transaction h.isOpen h.transactionHash h.nextTransactionId
  | ended h _ => exact ho.update h.transaction h.isOpen h.transactionHash h.nextTransactionId
  | @detached _ id' _ t h _ _ =>
    have hne : id ≠ id' := by
      rintro rfl
      have := ho.notOpen
      simp [h.transaction, h.isOpen] at this
    have hnew : id ≠ s.nextTransactionId := Nat.ne_of_lt ho.started
    refine ⟨?_, by rw [h.nextTransactionId]; exact Nat.lt_succ_of_lt ho.started⟩
    rw [BlockCache.isOpen, h.transactionHash, update_of_ne hnew,
      update_of_ne hne]
    exact ho.notOpen
  | finish h =>
    exact ⟨by rw [h.isOpen]; exact ho.notOpen, by rw [h.nextTransactionId]; exact ho.started⟩

/-! ## The original contents of a block -/

/-- As long as transaction `id` is open, it owns block `n`, with the original contents `d`. -/
def Saved (s : BlockCache D) (id : TransactionId) (n : BlockNumber) (d : D) : Prop :=
  Over s id ∨ (s.Owns id n ∧ (s.role n).original = some d)

lemma over_of_closed (ho : Owners s) (hne : s.transactionHash id ≠ none)
    (hcl : s'.isOpen id = false) (hid : s.nextTransactionId ≤ s'.nextTransactionId) : Over s' id :=
  ⟨hcl, Nat.lt_of_lt_of_le (ho.ids id hne) hid⟩

variable {n : BlockNumber}

lemma RoleChange.owns (hc : RoleChange s c s') (hI : Owners s) (hown : s.Owns id n) :
    Over s' id ∨ (s'.Owns id n ∧
      ∀ d, (s.role n).original = some d → (s'.role n).original = some d) := by
  have hown' : (s.role n).owner = some id := hown
  cases hc with
  | still h => exact .inr ⟨by rw [BlockCache.Owns, h.role]; exact hown, by rw [h.role]; exact fun _ hd => hd⟩
  | @touch _ n' id' cleared _ t _ h =>
    refine .inr ?_
    by_cases hn : n = n'
    · subst hn
      have hid : id = id' := by
        rcases h.owner with hno | hno
        · rw [hown'] at hno; cases hno
        · rw [hown'] at hno; exact Option.some.inj hno
      rw [BlockCache.Owns, h.role n, if_pos rfl]
      refine ⟨by rw [BlockRole.touched, hid], fun d hd => ?_⟩
      simp [hd]
    · rw [BlockCache.Owns, h.role n, if_neg hn]
      exact ⟨hown, fun _ hd => hd⟩
  | start h =>
    rw [BlockCache.Owns, BlockCache.role, (start_fields h).1]
    exact .inr ⟨hown, fun _ hd => hd⟩
  | @abort id' _ t h =>
    by_cases hid : id = id'
    · subst hid
      refine .inl (over_of_closed hI (by rw [h.transaction]; simp) ?_
        (Nat.le_of_eq h.nextTransactionId.symm))
      simp [h.transactionHash]
    · have hne : (s.role n).owner ≠ some id' := by rw [hown']; simpa using hid
      rw [BlockCache.Owns, h.mapped.role n, if_neg hne]
      exact .inr ⟨hown, fun _ hd => hd⟩
  | subStart h =>
    refine .inr ?_
    rw [BlockCache.Owns, h.mapped.role n]
    split
    · exact ⟨hown, fun _ hd => hd⟩
    · exact ⟨hown, fun _ hd => hd⟩
  | subAbort h =>
    refine .inr ?_
    rw [BlockCache.Owns, h.mapped.role n]
    split
    · exact ⟨hown, fun _ hd => hd⟩
    · exact ⟨hown, fun _ hd => hd⟩
  | @ended _ id' _ t h _ =>
    by_cases hid : id = id'
    · subst hid
      refine .inl (over_of_closed hI (by rw [h.transaction]; simp) ?_
        (Nat.le_of_eq h.nextTransactionId.symm))
      simp [h.transactionHash]
    · have hne : (s.role n).owner ≠ some id' := by rw [hown']; simpa using hid
      rw [BlockCache.Owns, h.mapped.role n, if_neg hne]
      exact .inr ⟨hown, fun _ hd => hd⟩
  | @detached _ id' _ t h _ _ =>
    by_cases hid : id = id'
    · subst hid
      refine .inl (over_of_closed hI (by rw [h.transaction]; simp) ?_
        (by rw [h.nextTransactionId]; exact Nat.le_succ _))
      simp [h.closed hI]
    · have hne : (s.role n).owner ≠ some id' := by rw [hown']; simpa using hid
      rw [BlockCache.Owns, h.mapped.role n, if_neg hne]
      exact .inr ⟨hown, fun _ hd => hd⟩
  | finish h =>
    refine .inr ?_
    rw [BlockCache.Owns, h.role n]
    split
    · exact ⟨hown, fun _ hd => hd⟩
    · exact ⟨hown, fun _ hd => hd⟩

variable {d : D}

lemma RoleChange.saved (hc : RoleChange s c s') (hI : Owners s) (hS : Saved s id n d) :
    Saved s' id n d := by
  rcases hS with ho | ⟨hown, horig⟩
  · exact .inl (hc.over ho)
  · rcases hc.owns hI hown with ho | ⟨hown', hkeep⟩
    · exact .inl ho
    · exact .inr ⟨hown', hkeep d horig⟩

variable [Zero D]

variable {cleared : Bool}

lemma saved_of_fetch (h : Inv s) (hok : Ok s c) (hf : c.Fetches n (some id) cleared)
    (hfirst : ¬ s.Owns id n) (hkept : s.hash n = none → cleared = false) (hs : step s c = some s') :
    Saved s' id n (s.readBack n) := by
  obtain ⟨s₁, t, b, hw, hI₁, hput⟩ := fetch_step h hok hf hs
  have hT := hw.touched
  have hfree : (s.role n).owner = none := hT.owner.resolve_right hfirst
  have hskip : ((s.hash n).isNone && cleared) = false := by
    cases hn : s.hash n with
    | none => rw [hkept hn]; rfl
    | some _ => rfl
  have hS : Saved s₁ id n (s.readBack n) := by
    refine .inr ?_
    rw [BlockCache.Owns, hT.role n, if_pos rfl]
    refine ⟨rfl, ?_⟩
    simp [(h.owners.free n hfree).1, hskip]
  rcases hput with rfl | hp
  · exact hS
  · exact ((Change.put (c := c) hp).roleChange hI₁).saved hI₁.owners hS

variable {hist : History (BlockCache D) (Call D)}

lemma saved_run (h : Inv s) (hr : Run step Ok s hist s') (hS : Saved s id n d) :
    Saved s' id n d := by
  refine (run_keeps (P := fun c => Saved c id n d) hr h (fun _ _ hc => hc) hS ?_).2
  intro _ _ s₁ s₂ _ _ h₁ hS' hc
  exact (hc.roleChange h₁).saved h₁.owners hS'

/-! ## `cache_abort_transaction()` -/

omit [Zero D] in
lemma Aborted.readBack (h : Aborted s s' id t) (n : BlockNumber) :
    s'.readBack n = if (s.role n).owner = some id then
      (s.role n).original.getD (s.readBack n) else s.readBack n := by
  unfold BlockCache.readBack
  rw [h.mapped.hash n, h.mapped.device]
  split
  · rename_i hown
    obtain ⟨b, hb, -⟩ := cached_of_owner hown
    rw [role_of_cached hb, hb]
    rfl
  · rfl

lemma Aborted.restores {device : BlockNumber → D} {maxBlocks : ℕ} {readOnly : Bool}
    {h : History (BlockCache D) (Call D)} (ha : Aborted s s' id t)
    (hr : Run step Ok (BlockCache.create device maxBlocks readOnly) h s) {s₀ : BlockCache D}
    {c₀ : Call D} (hmem : (s₀, c₀) ∈ h) (hf : c₀.Fetches n (some id) cleared)
    (hfirst : ¬ s₀.Owns id n) (hkept : s₀.hash n = none → cleared = false) :
    s'.readBack n = s₀.readBack n := by
  obtain ⟨h₀, h₁, s₁, -, hr₀, hok₀, hs₀, hr₁⟩ := hr.split hmem
  have hI₀ := inv_run (fun _ _ hc => hc) hr₀
  have hS := saved_run (inv_step hI₀ hok₀ hs₀) hr₁ (saved_of_fetch hI₀ hok₀ hf hfirst hkept hs₀)
  -- the transaction is still open, so it still has the contents
  rcases hS with hover | ⟨hown, horig⟩
  · have hclosed := hover.notOpen
    simp [ha.transaction, ha.isOpen] at hclosed
  · rw [ha.readBack n, horig]
    exact if_pos hown

/-- After an abort, the transaction owns no block, the blocks it did not own are as before, and
each block that it had fetched reads back as immediately before it was fetched for the first
time, if its contents were preserved then. -/
theorem abort_restores {device : BlockNumber → D} {maxBlocks : ℕ} {readOnly : Bool}
    {h : History (BlockCache D) (Call D)} {s s' : BlockCache D} {id : TransactionId}
    (hr : Run step Ok (BlockCache.create device maxBlocks readOnly) h s)
    (hok : Ok s (.abortTransaction id)) (hs : step s (.abortTransaction id) = some s') :
    (∀ n, ¬ s'.Owns id n) ∧ (∀ n, ¬ s.Owns id n → s'.readBack n = s.readBack n) ∧
      ∀ s₀ c₀ n cleared, (s₀, c₀) ∈ h → c₀.Fetches n (some id) cleared → ¬ s₀.Owns id n →
        (s₀.hash n = none → cleared = false) → s'.readBack n = s₀.readBack n := by
  have hI := inv_run (fun _ _ hc => hc) hr
  obtain ⟨t, ha⟩ := aborted_of_call hI.owners hI.busy hok.caller hs
  refine ⟨fun n hown => ?_, fun n hown => ?_, fun s₀ c₀ n cleared hmem hf hfirst hkept =>
    ha.restores hr hmem hf hfirst hkept⟩
  · rw [BlockCache.Owns, ha.mapped.role n] at hown
    split at hown
    · simp at hown
    · exact absurd hown ‹_›
  · rw [ha.readBack n]
    exact if_neg hown

def Memory.plenty : Memory := ⟨false, false, 0⟩

/-- A cache on a device whose blocks all hold a 7. -/
def sevens : BlockCache ℕ := .create (fun _ => 7) 8 false

omit [Zero D] in
lemma not_owns_of_not_cached (h : s.hash n = none) (id : TransactionId) : ¬ s.Owns id n := by
  rw [BlockCache.Owns, role_of_not_cached h]
  simp [roleOf]

/-- Transaction 1 fetches block 0 and stores a 5 into it. -/
def storeFive (cleared : Bool) : List (Call ℕ) :=
  [.startTransaction, .getWritable .plenty 0 (some 1) cleared, .edit (some 1) 0 5]

lemma run_storeFive (cleared : Bool) : ∃ h,
    Run step Ok sevens h (outcome step sevens (storeFive cleared)) ∧
      (∀ e ∈ h, e.2 ≠ .startSubTransaction 1) ∧
      ∃ s₀, (s₀, .getWritable .plenty 0 (some 1) cleared) ∈ h ∧ s₀.hash 0 = none ∧
        s₀.readBack 0 = 7 := by
  obtain ⟨h, hr, hp⟩ := run_outcome step ok_of_check sevens (storeFive cleared)
    (fun h => h.all (fun e => decide (e.2 ≠ .startSubTransaction 1)) &&
      h.any fun e => decide (e.2 = .getWritable .plenty 0 (some 1) cleared) &&
        (e.1.hash 0).isNone && decide (e.1.readBack 0 = 7))
    (by cases cleared <;> decide)
  simp only [Bool.and_eq_true, List.any_eq_true, List.all_eq_true, decide_eq_true_eq,
    Option.isNone_iff_eq_none] at hp
  obtain ⟨hsub, ⟨s₀, c₀⟩, hmem, ⟨hc₀, hnone⟩, hread⟩ := hp
  exact ⟨h, hr, hsub, s₀, hc₀ ▸ hmem, hnone, hread⟩

/-- A block that is not fetched empty is restored from the device. -/
theorem abort_restores_seven :
    (outcome step sevens (storeFive false ++ [.abortTransaction 1])).readBack 0 = 7 := by
  obtain ⟨h, hr, -, s₀, hmem, hnone, hread⟩ := run_storeFive false
  have hok : Ok (outcome step sevens (storeFive false)) (.abortTransaction 1) :=
    ok_of_check _ _ (by decide)
  have hs : step (outcome step sevens (storeFive false)) (.abortTransaction 1)
      = some (outcome step (outcome step sevens (storeFive false)) [.abortTransaction 1]) :=
    step_outcome (by decide)
  have := (abort_restores hr hok hs).2.2 s₀ _ 0 false hmem (.inl ⟨_, rfl⟩)
    (not_owns_of_not_cached hnone 1) fun _ => rfl
  rw [hread] at this
  exact this

/-- A block that is not cached and fetched empty keeps what the aborted transaction stored into
it: block 0 holds a 7 on the device and reads back as 5. -/
theorem abort_loses_contents : ¬ ∀ (device : BlockNumber → ℕ) (maxBlocks : ℕ) (readOnly : Bool)
    (h : History (BlockCache ℕ) (Call ℕ)) (s s' : BlockCache ℕ) (id : TransactionId),
    Run step callerOk (BlockCache.create device maxBlocks readOnly) h s →
      s.isOpen id = true → (∀ e ∈ h, e.2 ≠ .startSubTransaction id) →
      step s (.abortTransaction id) = some s' →
      ∀ s₀ c₀ n cleared, (s₀, c₀) ∈ h → c₀.Fetches n (some id) cleared → ¬ s₀.Owns id n →
        s'.readBack n = s₀.readBack n := by
  intro hclaim
  obtain ⟨h, hr, hsub, s₀, hmem, hnone, hread⟩ := run_storeFive true
  have hs : step (outcome step sevens (storeFive true)) (.abortTransaction 1)
      = some (outcome step (outcome step sevens (storeFive true)) [.abortTransaction 1]) :=
    step_outcome (by decide)
  have hfive : (outcome step (outcome step sevens (storeFive true))
      [.abortTransaction 1]).readBack 0 = 5 := by decide
  have := hclaim _ _ _ h _ _ 1 (hr.mono fun _ _ hc => hc.caller) (by decide) hsub hs s₀ _
    0 true hmem (.inl ⟨_, rfl⟩) (not_owns_of_not_cached hnone 1)
  rw [hread, hfive] at this
  simp at this

/-! ## The version of the parent transaction -/

/-- The calls between the start of a sub-transaction of `id` and its abort: blocks are only
changed in transaction `id`, and it has one sub-transaction only. -/
structure OnlyIn (id : TransactionId) (c : Call D) : Prop where
  cleared : ∀ n id', c.Fetches n id' true → id' = some id
  edited : ∀ id' n d, c = .edit id' n d → id' = some id
  notAborted : ∀ id', c ≠ .abortTransaction id' ∧ c ≠ .abortSubTransaction id'
  notStarted : c ≠ .startSubTransaction id

/-- `block_cache_get_empty()` is called for cached blocks. -/
def EmptyCached (s : BlockCache D) (c : Call D) : Prop :=
  ∀ n id, c.Fetches n id true → s.hash n ≠ none

omit [Zero D] in
/-- The version `d` of block `n` is the one an abort of the sub-transaction goes back to. -/
def Kept (s : BlockCache D) (id : TransactionId) (n : BlockNumber) (d : D) : Prop :=
  if (s.role n).owner = some id then
    match (s.role n).parent with
    | .current => s.readBack n = d
    | .copy e => e = d
    | .null => (s.role n).original = some d
  else s.readBack n = d

omit [Zero D] in
lemma Kept.same (h : Kept s id n d) (hrole : s'.role n = s.role n)
    (hread : s'.readBack n = s.readBack n) : Kept s' id n d := by
  unfold Kept
  rw [hrole, hread]
  exact h

omit [Zero D] in
lemma Kept.not_owned (h : Kept s id n d) (hown : (s.role n).owner ≠ some id)
    (hown' : (s'.role n).owner ≠ some id) (hread : s'.readBack n = s.readBack n) :
    Kept s' id n d := by
  unfold Kept at h ⊢
  rw [if_neg hown] at h
  rw [if_neg hown', hread]
  exact h

lemma Kept.touched {id' : TransactionId} {m : BlockNumber} {b : CachedBlock D}
    (h : Kept s id n d) (hI : Inv s) (hC : Clean s) (hw : WritableIn s s' m id' cleared t b)
    (hcl : cleared = true → id' = id ∧ s.hash m ≠ none) : Kept s' id n d := by
  have hT := hw.touched
  have hread := hw.readBack hC n
  by_cases hn : n = m
  · subst hn
    have hrole := hT.role n
    rw [if_pos rfl] at hrole
    by_cases hid : id' = id
    · subst hid
      have hskip : ((s.hash n).isNone && cleared) = false := by
        cases hc : cleared with
        | false => simp
        | true => simpa [Option.isSome_iff_ne_none] using (hcl hc).2
      unfold Kept at h ⊢
      rw [hrole, hskip]
      refine (if_pos rfl).mpr ?_
      rcases hT.owner with hown | hown
      · have hfree := hI.owners.free n hown
        rw [hown, if_neg (by simp)] at h
        simp only [BlockRole.touched, hfree.1, hfree.2]
        simp [h]
      · rw [if_pos hown] at h
        simp only [BlockRole.touched]
        cases hp : (s.role n).parent with
        | null =>
          rw [hp] at h
          simp only at h
          simp [h]
        | current =>
          rw [hp] at h
          exact h
        | copy e =>
          rw [hp] at h
          exact h
    · have hc : cleared = false := by
        by_contra hne
        exact hid (hcl (by simpa using hne)).1
      have hown : (s.role n).owner ≠ some id := by
        rcases hT.owner with ho | ho <;> rw [ho]
        · simp
        · simpa using hid
      refine h.not_owned hown ?_ (by rw [hread, hc]; simp)
      rw [hrole, BlockRole.touched]
      simpa using hid
  · exact h.same (by rw [hT.role n, if_neg hn]) (by rw [hread]; simp [hn])

/-- The transaction is over, or it still has its sub-transaction and the version of its
parent part. -/
def SubKept (s : BlockCache D) (id : TransactionId) (n : BlockNumber) (d : D) : Prop :=
  Over s id ∨ (s.isOpen id = true ∧ s.hasSub id = true ∧ Kept s id n d)

omit [Zero D] in
lemma RoleChange.isOpen (hc : RoleChange s c s') (hO : Owners s) (hopen : s.isOpen id = true)
    (hstart : c ≠ .startSubTransaction id) (habort : c ≠ .abortSubTransaction id) :
    Over s' id ∨ (s'.isOpen id = true ∧ s'.hasSub id = s.hasSub id) := by
  have hthis : s'.transactionHash id = s.transactionHash id →
      s'.isOpen id = true ∧ s'.hasSub id = s.hasSub id := by
    intro hth
    rw [BlockCache.isOpen, BlockCache.hasSub, hth]
    exact ⟨hopen, rfl⟩
  have hsome : s.transactionHash id ≠ none := by
    intro hnone
    simp [hnone] at hopen
  have hnext : id ≠ s.nextTransactionId := Nat.ne_of_lt (hO.ids id hsome)
  cases hc with
  | still h => exact .inr (hthis (by rw [h.transactionHash]))
  | touch _ h => exact .inr ⟨by rw [h.isOpen_eq]; exact hopen, h.hasSub id⟩
  | start h =>
    obtain ⟨-, -, -, -, -, -, hth⟩ := start_fields h
    exact .inr (hthis (by rw [hth, update_of_ne hnext]))
  | @abort id' _ t h =>
    by_cases hid : id = id'
    · subst hid
      refine .inl (over_of_closed hO hsome ?_ (Nat.le_of_eq h.nextTransactionId.symm))
      simp [h.transactionHash]
    · exact .inr (hthis (by rw [h.transactionHash, update_of_ne hid]))
  | @subStart id' _ t h =>
    have hid : id ≠ id' := fun he => hstart (by rw [he])
    exact .inr (hthis (by rw [h.transactionHash, update_of_ne hid]))
  | @subAbort id' _ t h =>
    have hid : id ≠ id' := fun he => habort (by rw [he])
    exact .inr (hthis (by rw [h.transactionHash, update_of_ne hid]))
  | @ended _ id' _ t h _ =>
    by_cases hid : id = id'
    · subst hid
      refine .inl (over_of_closed hO hsome ?_ (Nat.le_of_eq h.nextTransactionId.symm))
      simp [h.transactionHash]
    · exact .inr (hthis (by rw [h.transactionHash, update_of_ne hid]))
  | @detached _ id' _ t h _ _ =>
    by_cases hid : id = id'
    · subst hid
      refine .inl (over_of_closed hO hsome ?_ (by rw [h.nextTransactionId]; exact Nat.le_succ _))
      simp [h.closed hO]
    · exact .inr (hthis (by
        rw [h.transactionHash, update_of_ne hnext, update_of_ne hid]))
  | finish h => exact .inr (hthis (h.openTransaction id hopen))

lemma Change.kept (hc : Change s c s') (hI : Inv s) (hC : Clean s) (hin : OnlyIn id c)
    (hempty : EmptyCached s c) (hopen : s.isOpen id = true) (hnot : ¬ Over s' id)
    (h : Kept s id n d) : Kept s' id n d := by
  have hnext : some s.nextTransactionId ≠ some id := by
    have hsome : s.transactionHash id ≠ none := by
      intro hnone
      simp [hnone] at hopen
    simpa using Nat.ne_of_gt (hI.owners.ids id hsome)
  -- the other transactions that are closed meanwhile are different ones
  have hother : ∀ {id'}, (∃ t, s.transactionHash id' = some t) → s'.isOpen id' = false →
      s.nextTransactionId ≤ s'.nextTransactionId → id' ≠ id := by
    rintro id' ⟨t, ht⟩ hcl hid rfl
    exact hnot (over_of_closed hI.owners (by rw [ht]; simp) hcl hid)
  cases hc with
  | same => exact h
  | evict hev =>
    have hr := hev.sameRest hI
    exact h.same (hr.role n) (hC.readBack hr.device (hr.hash n))
  | fetch hF hdata => exact h.same (hF.role n) (hF.readBack hC hdata n)
  | put hp =>
    have hrole : s'.role n = s.role n := by
      rcases put_cases hI.owners hp with ⟨rfl, -⟩ | ⟨b, hb, -, ⟨-, -, -, he⟩ | ⟨-, he⟩⟩
      · rfl
      all_goals
        have hr := role_of_cached hb
        exact role_set (congrArg BlockCache.hash he) hr n
    exact h.same hrole (put_readBack hI.owners hp n)
  | touch hcall _ hw =>
    refine h.touched hI hC hw fun hcl => ?_
    subst hcl
    exact ⟨Option.some.inj (hin.cleared _ _ hcall), hempty _ _ hcall⟩
  | @dirty _ m cleared _ b hcall hw =>
    have hcl : cleared = false := by
      by_contra hne
      have : cleared = true := by simpa using hne
      subst this
      simpa using hin.cleared _ _ hcall
    exact h.same (hw.role n) (by rw [hw.readBack hC n, hcl]; simp)
  | @edit id' m e b hb hed _ =>
    have hid := hin.edited _ _ _ rfl
    subst hid
    have hrole : (s.setBlock m { b with currentData := e }).role n = s.role n := by
      have hr := role_of_cached hb
      exact role_set (b := { b with currentData := e }) rfl hr n
    by_cases hn : n = m
    · -- the block was fetched in the sub-transaction, so the version is kept elsewhere
      subst hn
      simp only [BlockCache.isEditable, hb, Option.any_some, Bool.and_eq_true,
        decide_eq_true_eq] at hed
      unfold Kept at h ⊢
      rw [hrole]
      have hown : (s.role n).owner = some id := by rw [role_of_cached hb]; exact hed.2.1
      have hpar : (s.role n).parent = b.parentData := by rw [role_of_cached hb]; rfl
      rw [if_pos hown] at h ⊢
      rw [hpar] at h ⊢
      cases hp : b.parentData with
      | null => rw [hp] at h; exact h
      | copy e' => rw [hp] at h; exact h
      | current => simp [hp] at hed
    · refine h.same hrole ?_
      rw [BlockCache.readBack, BlockCache.readBack, setBlock_hash, update_of_ne hn]
      rfl
  | start hs =>
    obtain ⟨hh, hdev, -⟩ := start_fields hs
    refine h.same (by rw [BlockCache.role, hh]; rfl) ?_
    rw [BlockCache.readBack, hh, hdev]
    rfl
  | abort ha => exact absurd rfl (hin.notAborted _).1
  | @subStart id' _ t hs =>
    by_cases hown : (s.role n).owner = some id'
    · have hne : id' ≠ id := fun he => hin.notStarted (by rw [he])
      have hown' : (s'.role n).owner = some id' := by
        rw [hs.mapped.role n, if_pos hown]
        exact hown
      exact h.not_owned (by rw [hown]; simpa using hne) (by rw [hown']; simpa using hne)
        (hs.readBack n)
    · exact h.same (by rw [hs.mapped.role n, if_neg hown]) (hs.readBack n)
  | subAbort hs => exact absurd rfl (hin.notAborted _).2
  | @ended _ id' _ t he _ =>
    by_cases hown : (s.role n).owner = some id'
    · have hne : id' ≠ id := hother ⟨t, he.transaction⟩
        (by simp [he.transactionHash]) (Nat.le_of_eq he.nextTransactionId.symm)
      refine h.not_owned (by rw [hown]; simpa using hne) ?_ (he.readBack n)
      rw [he.mapped.role n, if_pos hown, BlockRole.ended]
      simp
    · exact h.same (by rw [he.mapped.role n, if_neg hown]) (he.readBack n)
  | @detached _ id' _ t hd _ _ =>
    by_cases hown : (s.role n).owner = some id'
    · have hne : id' ≠ id := hother ⟨t, hd.transaction⟩
        (by simp [hd.closed hI.owners])
        (by rw [hd.nextTransactionId]; exact Nat.le_succ _)
      refine h.not_owned (by rw [hown]; simpa using hne) ?_ (hd.readBack n)
      rw [hd.mapped.role n, if_pos hown, BlockRole.detached]
      split
      · exact hnext
      · exact hnext
      · simp
    · exact h.same (by rw [hd.mapped.role n, if_neg hown]) (hd.readBack n)
  | @mark _ ns _ _ _ _ _ _ => exact h.same (addAll_role ns s n) (addAll_readBack s ns n)
  | write hw =>
    refine h.same ?_ (writeNext_readBack hw n)
    unfold BlockCache.writeNext at hw
    split at hw
    · split at hw
      · simp at hw
      · cases hw
        rfl
    · simp at hw
  | finish hw hp ha =>
    have hfin := finished_of_writer hI.owners hI.counts hI.unused hI.busy hw hp ha
    have hread := hfin.readBack n
    unfold Kept at h ⊢
    rw [hread, hfin.role n]
    split
    · exact h
    · exact h

omit [Zero D] in
lemma EmptyCached.change {s₁ : BlockCache D} (h : EmptyCached s c) (hs : s₁ = s ∨ c.Compound) :
    EmptyCached s₁ c := by
  rcases hs with rfl | ⟨m, k, id, rfl⟩ | ⟨i, rfl⟩
  · exact h
  · intro n id' hf
    simp [Call.Fetches] at hf
  · intro n id' hf
    simp [Call.Fetches] at hf

lemma subKept_run (hI : Inv s) (hC : Clean s)
    (hr : Run step (fun s c => OkClean s c ∧ OnlyIn id c ∧ EmptyCached s c) s hist s')
    (hS : SubKept s id n d) : SubKept s' id n d := by
  refine (run_keeps (P := fun c => Clean c ∧ SubKept c id n d) hr hI (fun _ _ hc => hc.1.ok)
    ⟨hC, hS⟩ ?_).2.2
  rintro s c s₁ s₂ ⟨hok, hin, hempty⟩ hcomp h₁ ⟨hC₁, hS₁⟩ hc
  refine ⟨hc.clean h₁ (hok.edits.change hcomp) hC₁, ?_⟩
  have hrc := hc.roleChange h₁
  rcases hS₁ with hover | ⟨hopen, hsub, hkept⟩
  · exact .inl (hrc.over hover)
  · by_cases hnot : Over s₂ id
    · exact .inl hnot
    · obtain ⟨hopen', hsub'⟩ :=
        (hrc.isOpen h₁.owners hopen hin.notStarted (hin.notAborted id).2).resolve_left hnot
      exact .inr ⟨hopen', by rw [hsub']; exact hsub,
        hc.kept h₁ hC₁ hin (hempty.change hcomp) hopen hnot hkept⟩

omit [Zero D] in
lemma SubAborted.readBack (h : SubAborted s s' id t) (hk : Kept s id n d) :
    s'.readBack n = d := by
  unfold Kept at hk
  have hread : s'.readBack n = (if (s.role n).owner = some id then (s.hash n).map
      (fun b => b.subAborted.getD b) else s.hash n).elim (s.device n) (·.currentData) := by
    rw [BlockCache.readBack, h.mapped.hash n, h.mapped.device]
  rw [hread]
  split at hk
  · rename_i hown
    obtain ⟨b, hb, -⟩ := cached_of_owner hown
    rw [if_pos hown, hb]
    rw [role_of_cached hb] at hk
    simp only [roleOf] at hk
    simp only [Option.map_some, Option.elim_some, CachedBlock.subAborted, Option.getD_some]
    cases hp : b.parentData with
    | null =>
      rw [hp] at hk
      simp only at hk
      simp [hk]
    | copy e => rw [hp] at hk; exact hk
    | current =>
      rw [hp] at hk
      rw [← readBack_of_cached hb]
      exact hk
  · rename_i hown
    rw [if_neg hown]
    exact hk

omit [Zero D] in
lemma SubStarted.kept (h : SubStarted s s' id t) (n : BlockNumber) :
    SubKept s' id n (s'.readBack n) := by
  have hnow : s'.transactionHash id = some { t with
      hasSubTransaction := true, mainNumBlocks := t.numBlocks, subNumBlocks := 0 } := by
    rw [h.transactionHash, update_self]
  refine .inr ⟨by simp [hnow, h.isOpen], by simp [hnow], ?_⟩
  unfold Kept
  split
  · rename_i hown
    rw [h.mapped.role n] at hown ⊢
    by_cases hown' : (s.role n).owner = some id
    · rw [if_pos hown']
      rfl
    · rw [if_neg hown'] at hown
      exact absurd hown hown'
  · rfl

lemma owns_run (hI : Inv s) (hr : Run step Ok s hist s') (h : Over s id ∨ s.Owns id n) :
    Over s' id ∨ s'.Owns id n := by
  refine (run_keeps (P := fun c => Over c id ∨ c.Owns id n) hr hI (fun _ _ hc => hc) h ?_).2
  intro _ _ s₁ s₂ _ _ h₁ h hc
  rcases h with hover | hown
  · exact .inl ((hc.roleChange h₁).over hover)
  · exact ((hc.roleChange h₁).owns h₁.owners hown).imp_right And.left

/-- In a sub-transaction of `id`, after any calls that change blocks only in it, an abort of the
sub-transaction makes all blocks read back as when it was started and leaves the transaction
open with its blocks; an abort of the transaction, then or later, restores its blocks as before
they were first fetched in it. -/
theorem abortSub_restores {device : BlockNumber → D} {maxBlocks : ℕ} {readOnly : Bool}
    {h₀ h₁ : History (BlockCache D) (Call D)} {s₀ s₁ s₂ : BlockCache D} {id : TransactionId}
    (hr₀ : Run step OkClean (BlockCache.create device maxBlocks readOnly) h₀ s₀)
    (hok₀ : OkClean s₀ (.startSubTransaction id))
    (hs₀ : step s₀ (.startSubTransaction id) = some s₁)
    (hr₁ : Run step (fun s c => OkClean s c ∧ OnlyIn id c ∧ EmptyCached s c) s₁ h₁ s₂) :
    (∀ s₃, Ok s₂ (.abortSubTransaction id) → step s₂ (.abortSubTransaction id) = some s₃ →
      (∀ n, s₃.readBack n = s₁.readBack n) ∧ s₃.isOpen id = true ∧
        ∀ n, s₁.Owns id n → s₃.Owns id n) ∧
    ∀ h₂ s₃ s₄, Run step OkClean s₂ h₂ s₃ → Ok s₃ (.abortTransaction id) →
      step s₃ (.abortTransaction id) = some s₄ →
      ∀ s c n cleared, (s, c) ∈ h₂ ++ (h₁ ++ (s₀, .startSubTransaction id) :: h₀) →
        c.Fetches n (some id) cleared → ¬ s.Owns id n → (s.hash n = none → cleared = false) →
        s₄.readBack n = s.readBack n := by
  obtain ⟨hI₀, hC₀⟩ := clean_run hr₀
  have hI₁ := inv_step hI₀ hok₀.ok hs₀
  have hC₁ := clean_step hI₀ hC₀ hok₀ hs₀
  have hr₁' := hr₁.mono fun _ _ hc => hc.1
  have hr₂ := (hr₀.snoc hok₀ hs₀).append hr₁'
  obtain ⟨hI₂, -⟩ := clean_run hr₂
  obtain ⟨t₀, hstart⟩ := subStarted_of_call hI₀.owners hI₀.busy hok₀.ok.caller hs₀
  refine ⟨fun s₃ hok hs₃ => ?_, fun h₂ s₃ s₄ hr₃ hok hs₄ s c n cleared hmem hf hfirst hkept => ?_⟩
  · have hopen : s₂.isOpen id = true := hok.caller
    have hnot : ¬ Over s₂ id := fun hover =>
      Bool.false_ne_true (hover.notOpen.symm.trans hopen)
    have hkept := fun n => (subKept_run hI₁ hC₁ hr₁ (hstart.kept n)).resolve_left hnot
    rcases subAborted_of_call hI₂.owners hI₂.busy hok.caller hs₃ with ⟨-, hsub⟩ | ⟨t, ha⟩
    · exact absurd (hsub.symm.trans (hkept 0).2.1) Bool.false_ne_true
    refine ⟨fun n => ha.readBack (hkept n).2.2, ?_, fun n hown => ?_⟩
    · simp [ha.transactionHash, ha.isOpen]
    · have hown₂ := (owns_run hI₁ (hr₁'.mono fun _ _ hc => hc.ok) (.inr hown)).resolve_left hnot
      rw [BlockCache.Owns, ha.mapped.role n]
      split
      · exact hown₂
      · exact hown₂
  · have hr := (hr₂.append hr₃).mono fun _ _ hc => hc.ok
    have hI₃ := inv_run (fun _ _ hc => hc) hr
    obtain ⟨t, ha⟩ := aborted_of_call hI₃.owners hI₃.busy hok.caller hs₄
    exact ha.restores hr hmem hf hfirst hkept

/-- A check of `OnlyIn` that can be evaluated: only blocks are fetched and changed. -/
def checkOnlyIn (id : TransactionId) : Call D → Bool
  | .getWritable _ _ id' _ => id' = some id
  | .edit id' _ _ => id' = some id
  | _ => false

omit [Zero D] in
lemma onlyIn_of_check (c : Call D) (h : checkOnlyIn id c = true) : OnlyIn id c := by
  cases c with
  | getWritable m n id' cleared =>
    have hid : id' = some id := by simpa [checkOnlyIn] using h
    subst hid
    refine ⟨?_, by simp, by simp, by simp⟩
    rintro k id' (⟨m', he⟩ | ⟨m', he, -⟩)
    · simp only [Call.getWritable.injEq] at he
      exact he.2.2.1.symm
    · simp at he
  | edit id' n d =>
    have hid : id' = some id := by simpa [checkOnlyIn] using h
    subst hid
    refine ⟨by simp [Call.Fetches], ?_, by simp, by simp⟩
    intro id' n' d' he
    simp only [Call.edit.injEq] at he
    exact he.1.symm
  | _ => simp [checkOnlyIn] at h

/-- The cache after transaction 1 has started a sub-transaction. -/
def inSub : BlockCache ℕ := outcome step (outcome step sevens [.startTransaction])
  [.startSubTransaction 1]

/-- The sub-transaction fetches block 0 and stores a 5 into it. -/
def storeFiveInSub (cleared : Bool) : List (Call ℕ) :=
  [.getWritable .plenty 0 (some 1) cleared, .edit (some 1) 0 5]

lemma run_inSub : ∃ h, Run step OkClean sevens h (outcome step sevens [.startTransaction]) ∧
    OkClean (outcome step sevens [.startTransaction]) (.startSubTransaction 1) ∧
    step (outcome step sevens [.startTransaction]) (.startSubTransaction 1) = some inSub := by
  obtain ⟨h, hr, -⟩ := run_outcome step okClean_of_check sevens [.startTransaction]
    (fun _ => true) (by decide)
  exact ⟨h, hr, okClean_of_check _ _ (by decide), step_outcome (by decide)⟩

/-- If the block is not fetched empty, the abort of the sub-transaction restores it. -/
theorem abortSub_restores_seven : (outcome step (outcome step inSub (storeFiveInSub false))
    [.abortSubTransaction 1]).readBack 0 = 7 := by
  obtain ⟨h₀, hr₀, hok₀, hs₀⟩ := run_inSub
  have hcheck : ∀ (s : BlockCache ℕ) c, (checkClean s c && checkOnlyIn 1 c &&
      match c with
      | .getWritable _ _ _ true => false
      | _ => true) = true → OkClean s c ∧ OnlyIn 1 c ∧ EmptyCached s c := by
    intro s c hc
    rw [Bool.and_eq_true, Bool.and_eq_true] at hc
    refine ⟨okClean_of_check s c hc.1.1, onlyIn_of_check c hc.1.2, ?_⟩
    rintro n id (⟨m, rfl⟩ | ⟨m, -, he⟩)
    · simp at hc
    · simp at he
  obtain ⟨h₁, hr₁, -⟩ := run_outcome step hcheck inSub (storeFiveInSub false) (fun _ => true)
    (by decide)
  have := ((abortSub_restores hr₀ hok₀ hs₀ hr₁).1 _ (ok_of_check _ _ (by decide))
    (step_outcome (by decide))).1 0
  rw [this]
  decide

/-- If it is fetched empty while it is not cached, its contents are lost: it reads back as 5
afterwards, and read back as 7 when the sub-transaction was started. -/
theorem abortSub_loses_contents : ¬ ∀ (device : BlockNumber → ℕ) (maxBlocks : ℕ) (readOnly : Bool)
    (h₀ h₁ : History (BlockCache ℕ) (Call ℕ)) (s₀ s₁ s₂ s₃ : BlockCache ℕ) (id : TransactionId),
    Run step callerOk (BlockCache.create device maxBlocks readOnly) h₀ s₀ →
      s₀.isOpen id = true → step s₀ (.startSubTransaction id) = some s₁ →
      Run step (fun s c => callerOk s c ∧ OnlyIn id c) s₁ h₁ s₂ →
      step s₂ (.abortSubTransaction id) = some s₃ → ∀ n, s₃.readBack n = s₁.readBack n := by
  intro hclaim
  obtain ⟨h₀, hr₀, hok₀, hs₀⟩ := run_inSub
  have hcheck : ∀ (s : BlockCache ℕ) c, (checkOk s c && checkOnlyIn 1 c) = true →
      callerOk s c ∧ OnlyIn 1 c := by
    intro s c hc
    rw [Bool.and_eq_true] at hc
    exact ⟨(ok_of_check s c hc.1).caller, onlyIn_of_check c hc.2⟩
  obtain ⟨h₁, hr₁, -⟩ := run_outcome step hcheck inSub (storeFiveInSub true) (fun _ => true)
    (by decide)
  have := hclaim _ _ _ h₀ h₁ _ _ _ _ 1 (hr₀.mono fun _ _ hc => hc.ok.caller) hok₀.ok.caller hs₀
    hr₁ (step_outcome (by decide)) 0
  revert this
  decide

end Haiku.Cache
