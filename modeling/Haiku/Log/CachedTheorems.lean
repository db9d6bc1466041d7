import Mathlib.Data.List.TakeWhile
import Haiku.Log.Invariant
import Haiku.Cache.DetachTheorems

/-!
# The log and the block cache

`_WriteTransactionToLog()` logs the blocks that `cache_next_block_in_transaction()` enumerates, with
the contents that `block_cache_get()` returns. When the transaction is ended, this is what the cache
writes back for it. When its sub-transaction is detached, the cache writes back the version of the
main transaction, while `block_cache_get()` has returned the one of the sub-transaction.
-/

namespace Haiku.Cache

open Lib

variable {D : Type}

/-! ## The blocks of a transaction -/

lemma filter_of_dropWhile {p : BlockNumber → Bool} {n : BlockNumber} {rest : List BlockNumber} :
    ∀ {l : List BlockNumber}, l.dropWhile p = n :: rest →
      l.filter (fun m => !p m) = n :: rest.filter (fun m => !p m) ∧ rest.length < l.length
  | [], h => by cases h
  | m :: l, h => by
    by_cases hm : p m = true
    · rw [List.dropWhile_cons_of_pos hm] at h
      obtain ⟨hfilter, hlen⟩ := filter_of_dropWhile h
      rw [List.filter_cons_of_neg (by simp [hm]), List.length_cons]
      exact ⟨hfilter, Nat.lt_succ_of_lt hlen⟩
    · rw [List.dropWhile_cons_of_neg hm] at h
      obtain ⟨rfl, rfl⟩ := List.cons.inj h
      rw [List.filter_cons_of_pos (by simp [hm]), List.length_cons]
      exact ⟨rfl, Nat.lt_succ_self _⟩

lemma filter_of_dropWhile_nil {p : BlockNumber → Bool} {l : List BlockNumber}
    (h : l.dropWhile p = []) : l.filter (fun m => !p m) = [] := by
  rw [List.filter_eq_nil_iff]
  intro m hm
  simpa using List.dropWhile_eq_nil_iff.1 h m hm

variable {s : BlockCache D} {id : TransactionId}

lemma nextBlocks_eq {t : CacheTransaction} (ht : s.transactionHash id = some t)
    (hopen : t.isOpen = true) (mainOnly : Bool) :
    ∀ (rounds : ℕ) (cookie : Option (List BlockNumber)),
      (cookie.getD t.firstBlock).length ≤ rounds → s.nextBlocks id mainOnly rounds cookie =
        (cookie.getD t.firstBlock).filter fun n =>
          !(s.hash n).any (·.skipped t.hasSubTransaction mainOnly)
  | 0, cookie, hlen => by
    have hnil : cookie.getD t.firstBlock = [] := List.length_eq_zero_iff.1 (Nat.le_zero.1 hlen)
    rw [BlockCache.nextBlocks, hnil]
    rfl
  | rounds + 1, cookie, hlen => by
    have hopen' : (!t.isOpen) = false := by rw [hopen]; rfl
    rw [BlockCache.nextBlocks, BlockCache.cacheNextBlockInTransaction, ht]
    simp only [hopen', Bool.false_eq_true, if_false]
    cases hdrop : (cookie.getD t.firstBlock).dropWhile fun n =>
        (s.hash n).any (·.skipped t.hasSubTransaction mainOnly) with
    | nil => exact (filter_of_dropWhile_nil hdrop).symm
    | cons n rest =>
      obtain ⟨hfilter, hlt⟩ := filter_of_dropWhile hdrop
      have hrest := nextBlocks_eq ht hopen mainOnly rounds (some rest)
        (by simp only [Option.getD_some]; omega)
      rw [hfilter]
      simp only [hrest, Option.getD_some]

def BlockCache.InMain (s : BlockCache D) (n : BlockNumber) : Prop := (s.role n).parent ≠ .null

/-! ## Closing a transaction -/

variable [Zero D]

/-- The step in which `cache_end_transaction()` returns: the call itself, if nothing is to be
written first, or else the step in which its writer is done. -/
def EndReturns (s : BlockCache D) (c : Call D) (s' : BlockCache D) (id : TransactionId) : Prop :=
  (c = .endTransaction id ∧ s'.isOpen id = false) ∨
    ∃ i w, c = .writeDone i ∧ s.writers[i]? = some w ∧ w.next = .endTransaction id

variable {s' : BlockCache D} {c : Call D}

lemma ended_of_returns (hI : Inv s) (hok : Ok s c) (hs : step s c = some s')
    (he : EndReturns s c s' id) :
    ∃ s₁ t, (s₁ = s ∨ ∃ i l, Finished s s₁ i l) ∧ Inv s₁ ∧ Closable s₁ id ∧
      Ended s₁ s' id t := by
  rcases he with ⟨rfl, hclosed⟩ | ⟨i, w, rfl, hw, hnext⟩
  · have hopen : s.isOpen id = true := hok.caller
    simp only [step, BlockCache.cacheEndTransaction] at hs
    split at hs
    next => cases hs
    next hbusy =>
      split at hs
      next => cases hs
      next t ht =>
        unfold BlockCache.write at hs
        split at hs
        next hnil =>
          obtain ⟨-, hidle, -, hall⟩ := pending_closes hI (by simpa using hbusy) ht hopen
          have hcl : Closable s id := by
            refine ⟨hopen, fun n hn => ?_, by simp [hidle]⟩
            by_contra hne
            have := hall n hn hne
            simp [hnil] at this
          obtain ⟨t', he⟩ := ended_of_call hI.owners hopen hs
          exact ⟨s, t', .inl rfl, hI, hcl, he⟩
        next =>
          -- the call waits for its writer, and the transaction is still open
          cases hs
          have hth := (addAll_rest (s.pendingBlocks t.firstBlock) s).1
          rw [BlockCache.isOpen, hth] at hclosed
          exact absurd hopen (by rw [BlockCache.isOpen, hclosed]; simp)
  · simp only [step, BlockCache.writeDone] at hs
    split at hs
    next done next hw' =>
      rw [hw] at hw'
      cases hw'
      have ha := hok.apart.finish i _ rfl hw
      obtain ⟨hfin, hcl, -⟩ := finish_writer hI.owners hI.counts hI.unused hI.busy hw rfl ha
      have hcl' := hcl id (.inl hnext)
      have hnext' : next = .endTransaction id := hnext
      rw [hnext'] at hs
      obtain ⟨t', he⟩ := ended_of_call hfin.owners hcl'.isOpen hs
      exact ⟨_, t', .inr ⟨i, _, finished_of_writer hI.owners hI.counts hI.unused hI.busy hw rfl ha⟩,
        hfin.inv, hcl', he⟩
    next => cases hs

lemma hasSub_of_returns (hI : Inv s) (hok : Ok s c) (hs : step s c = some s')
    (hd : DetachReturns s c s' id) : s.hasSub id = true := by
  rcases hd with ⟨rfl, hclosed⟩ | ⟨i, w, rfl, hw, hnext⟩
  · have hopen : s.isOpen id = true := hok.caller
    simp only [step, BlockCache.cacheDetachSubTransaction] at hs
    split at hs
    next => cases hs
    next =>
      split at hs
      next => cases hs
      next t ht =>
        split at hs
        next =>
          cases hs
          rw [hopen] at hclosed
          cases hclosed
        next hsub => simpa [ht] using hsub
  · exact hI.busy.detaching w (List.mem_of_getElem? hw) id hnext

/-! ## While the log is written -/

/-- The calls of other threads while `_WriteTransactionToLog()` runs, and the calls by which it
closes the transaction: no block is changed in the transaction. -/
structure Quiet (id : TransactionId) (c : Call D) : Prop where
  notFetched : ∀ n cleared, ¬ c.Fetches n (some id) cleared
  notEdited : ∀ n d, c ≠ .edit (some id) n d
  notStarted : c ≠ .startSubTransaction id
  notAborted : c ≠ .abortSubTransaction id

/-- As long as transaction `id` is open, it has the blocks it had in `s₀`, with the same
contents. -/
def Frozen (s₀ : BlockCache D) (id : TransactionId) (s : BlockCache D) : Prop :=
  Over s id ∨ (s.isOpen id = true ∧ s.hasSub id = s₀.hasSub id) ∧
    ∀ n, (s.Owns id n ↔ s₀.Owns id n) ∧
      (s.Owns id n → (s.role n).parent = (s₀.role n).parent ∧ s.readBack n = s₀.readBack n)

lemma Change.frozen {s₀ : BlockCache D} (hc : Change s c s') (hI : Inv s) (hsep : Separate s c)
    (hquiet : Quiet id c) (h : Frozen s₀ id s) : Frozen s₀ id s' := by
  have hrc := hc.roleChange hI
  rcases h with hover | ⟨⟨hopen, hsub⟩, hblocks⟩
  · exact .inl (hrc.over hover)
  rcases hrc.isOpen hI.owners hopen hquiet.notStarted hquiet.notAborted with hover | ⟨hopen', hsub'⟩
  · exact .inl hover
  have howns : ∀ n, s'.Owns id n ↔ s.Owns id n := by
    intro n
    constructor
    · intro hown'
      by_contra hown
      obtain ⟨⟨cleared, hf⟩, -⟩ := hrc.joins hI.owners hopen hown hown'
      exact hquiet.notFetched n cleared hf
    · intro hown
      refine (hrc.owns hI.owners hown).elim (fun hover => ?_) And.left
      rw [hover.notOpen] at hopen'
      cases hopen'
  refine .inr ⟨⟨hopen', hsub'.trans hsub⟩, fun n => ⟨(howns n).trans (hblocks n).1, fun hown' => ?_⟩⟩
  have hown := (howns n).1 hown'
  obtain ⟨hparent, hread⟩ := (hblocks n).2 hown
  rw [← hparent, ← hread]
  -- neither the parent data nor the contents change
  have hother : ∀ {id'}, id ≠ id' → (s.role n).owner ≠ some id' := by
    intro id' hne
    rw [show (s.role n).owner = some id from hown]
    simpa using hne
  cases hc.blockChange hI (.inl (by rw [show (s.role n).owner = some id from hown]; simp)) with
  | still hrole hread => exact ⟨by rw [hrole], hread⟩
  | @touch _ _ id' cleared hcall howner _ _ =>
    have hid : id = id' := by
      rw [show (s.role n).owner = some id from hown] at howner
      simpa using howner
    exact absurd (hid ▸ hcall) (hquiet.notFetched n cleared)
  | clear hcall =>
    have hnone := (hsep.cleared n hcall).1
    rw [show (s.role n).owner = some id from hown] at hnone
    cases hnone
  | @edit _ id' d hed _ _ =>
    cases id' with
    | none =>
      have hnone := (hsep.edited n d rfl).1
      rw [show (s.role n).owner = some id from hown] at hnone
      cases hnone
    | some id' =>
      have hid := (isEditable_some hed).1
      rw [show (s.role n).owner = some id from hown] at hid
      obtain rfl := Option.some.inj hid
      exact absurd rfl (hquiet.notEdited n d)
  | @abort _ id' _ ha =>
    have hid : id ≠ id' := by
      rintro rfl
      rw [BlockCache.isOpen, ha.transactionHash, Function.update_self] at hopen'
      cases hopen'
    exact ⟨by rw [(ha.mapped.other (hother hid)).1], (ha.mapped.other (hother hid)).2⟩
  | subStart hs =>
    have hid := hs.mapped.other (hother fun he => hquiet.notStarted (by rw [he]))
    exact ⟨by rw [hid.1], hid.2⟩
  | subAbort hs =>
    have hid := hs.mapped.other (hother fun he => hquiet.notAborted (by rw [he]))
    exact ⟨by rw [hid.1], hid.2⟩
  | @ended _ _ id' _ he _ =>
    have hid : id ≠ id' := by
      rintro rfl
      simp [he.transactionHash] at hopen'
    exact ⟨by rw [(he.mapped.other (hother hid)).1], (he.mapped.other (hother hid)).2⟩
  | @detached _ _ id' _ hd _ =>
    have hid : id ≠ id' := by
      rintro rfl
      simp [hd.closed hI.owners] at hopen'
    exact ⟨by rw [(hd.mapped.other (hother hid)).1], (hd.mapped.other (hother hid)).2⟩
  | done hrole hread => exact ⟨by rw [hrole], hread⟩

/-! ## What is logged -/

open Log (Volume RunArray Commit cachedTransaction detaches loggedArrays loggedArrays_spec)

omit [Zero D] in
lemma mem_cachedTransaction (ho : Owners s) (hopen : s.isOpen id = true)
    (hasSubtransaction mainOnly : Bool) (n : ℕ) :
    n ∈ (cachedTransaction s id hasSubtransaction).blocks mainOnly ↔
      s.Owns id n ∧ (s.hasSub id = true → mainOnly = true → s.InMain n) := by
  cases ht : s.transactionHash id with
  | none => simp [ht] at hopen
  | some t =>
    have hop : t.isOpen = true := by simpa [ht] using hopen
    have hmem : n ∈ t.firstBlock ↔ s.Owns id n := by
      have := ho.open_iff n id
      rwa [BlockCache.openBlocks, ht, Option.elim_some, if_pos hop] at this
    have hsub : s.hasSub id = t.hasSubTransaction := by simp [ht]
    have hblocks := nextBlocks_eq ht hop mainOnly t.firstBlock.length none le_rfl
    show n ∈ s.nextBlocks id mainOnly _ none ↔ _
    rw [ht, Option.elim_some, hblocks, Option.getD_none, List.mem_filter, hmem, hsub]
    refine and_congr_right fun hown => ?_
    obtain ⟨b, hb, -⟩ := cached_of_owner hown
    have hparent : (s.role n).parent = b.parentData := by rw [role_of_cached hb]; rfl
    have hdiscard := ho.no_discard n b hb
    rw [hb, Option.any_some, BlockCache.InMain, hparent, CachedBlock.skipped]
    cases t.hasSubTransaction <;> cases mainOnly <;> cases b.parentData <;> simp [hdiscard]

/-- The version of a block that belongs to the main transaction, if it has changed the block. -/
def mainVersion (s : BlockCache D) (n : ℕ) : Option D :=
  match (s.role n).parent with
  | .null => none
  | .current => some (s.readBack n)
  | .copy d => some d

/-- The entry that was logged in state `s` agrees with what the cache has to write for transaction
`id`, which was closed in `s'`: it has the same blocks, with the contents that are written back in
every later state. No change of the sub-transaction is in the entry if that one was detached. -/
structure LogsCommitted (v : Volume) (arrays : List RunArray) (s s' : BlockCache D)
    (id : TransactionId) (detached : Bool) : Prop where
  blocks : ∀ n, (∃ d, (n, d) ∈ (Commit.mk arrays s.readBack).logged v) ↔
    (s'.role n).previous = some id
  contents : ∀ h s'', Run step (fun s c => Ok s c ∧ Separate s c) s' h s'' →
    ∀ n b, s''.hash n = some b → b.previousTransaction = some id →
      (n, b.data) ∈ (Commit.mk arrays s.readBack).logged v
  main : detached = true → ∀ x ∈ (Commit.mk arrays s.readBack).logged v,
    mainVersion s x.1 = some x.2

/-- `_WriteTransactionToLog()` returns from the cache function that closes the transaction. -/
def CloseReturns (detached : Bool) (s : BlockCache D) (c : Call D) (s' : BlockCache D)
    (id : TransactionId) : Prop :=
  if detached then DetachReturns s c s' id else EndReturns s c s' id

omit [Zero D] in
lemma data_eq {n : ℕ} {b : CachedBlock D} (hb : s.hash n = some b)
    (hp : b.previousTransaction = some id) :
    (s.role n).previous = some id ∧ b.data = (s.role n).original.getD (s.readBack n) := by
  rw [role_of_cached hb, readBack_of_cached hb, CachedBlock.data, hp]
  exact ⟨hp, rfl⟩

lemma pending_of_run {h : History (BlockCache D) (Call D)} (hI : Inv s)
    (hr : Run step (fun s c => Ok s c ∧ Separate s c) s h s') (hover : Over s id) {n : ℕ}
    {b : CachedBlock D} (hb : s'.hash n = some b) (hp : b.previousTransaction = some id) :
    (s.role n).previous = some id ∧
      b.data = (s.role n).original.getD (s.readBack n) := by
  obtain ⟨hprev, hdata⟩ := data_eq hb hp
  have hfirst : PendingData s id n ((s.role n).original.getD (s.readBack n)) :=
    ⟨hover, fun _ => rfl⟩
  have hpending := (run_keeps
    (P := fun c => PendingData c id n ((s.role n).original.getD (s.readBack n))) hr hI
    (fun _ _ hc => hc.1) hfirst fun hok hcomp hI hk hc => hc.pendingData hI (hok.2.change hcomp) hk).2
  have hprevious := (run_keeps (P := fun c => Over c id ∧ ((c.role n).previous = some id →
      (s.role n).previous = some id)) hr hI (fun _ _ hc => hc.1) ⟨hover, fun h => h⟩
    fun _ _ hI hk hc => ⟨(hc.roleChange hI).over hk.1,
      fun hp => hk.2 ((hc.roleChange hI).previous hk.1 hp)⟩).2
  exact ⟨hprevious.2 hprev, by rw [hdata, hpending.2 hprev]⟩

omit [Zero D] in
lemma mem_logged (ho : Owners s) (hopen : s.isOpen id = true) {v : Volume}
    {hasSubtransaction detached : Bool} {arrays : List RunArray}
    (hdet : detaches v (cachedTransaction s id hasSubtransaction) = some detached)
    (hlog : loggedArrays v (cachedTransaction s id hasSubtransaction) = some arrays) (x : ℕ × D) :
    x ∈ (Commit.mk arrays s.readBack).logged v ↔
      (s.Owns id x.1 ∧ (s.hasSub id = true → detached = true → s.InMain x.1)) ∧
        x.2 = s.readBack x.1 := by
  obtain ⟨detached', hdet', -, -, hfor, -⟩ := loggedArrays_spec hlog
  obtain rfl : detached = detached' := Option.some.inj (hdet.symm.trans hdet')
  rw [hfor.mem_logged, mem_cachedTransaction ho hopen]

/-- The transaction was closed in `s'`: which blocks the cache has to write for it, and the contents
it writes, in terms of the state `s` in which the transaction was logged. -/
structure ClosedFrom (s s' : BlockCache D) (id : TransactionId) (detached : Bool) : Prop where
  ended : Over s' id
  sub : detached = true → s.hasSub id = true
  previous : ∀ n, (s'.role n).previous = some id ↔
    s.Owns id n ∧ (detached = true → s.InMain n)
  contents : ∀ n, s.Owns id n → (detached = false → s'.role n = ⟨none, .null, none, some id⟩ ∧
    s'.readBack n = s.readBack n) ∧ (detached = true → s.InMain n →
      mainVersion s n = some ((s'.role n).original.getD (s'.readBack n)))

omit [Zero D] in
lemma Mapped.role_of_owns {f : CachedBlock D → CachedBlock D} {g : BlockRole D → BlockRole D}
    (h : Mapped s s' id f g) {n : BlockNumber} (hown : s.Owns id n) : s'.role n = g (s.role n) := by
  rw [h.role n]
  exact if_pos hown

variable {s₂ : BlockCache D}

omit [Zero D] in
lemma frozen_of_finished (h : Frozen s id s₂) (hs' : s' = s₂ ∨ ∃ i l, Finished s₂ s' i l)
    (hopen : s'.isOpen id = true) (n : BlockNumber) :
    (s'.Owns id n ↔ s.Owns id n) ∧
      (s'.Owns id n → (s'.role n).parent = (s.role n).parent ∧ s'.readBack n = s.readBack n) := by
  have hagree : (∀ m, (s'.role m).owner = (s₂.role m).owner ∧
      (s'.role m).parent = (s₂.role m).parent) ∧ (∀ m, s'.readBack m = s₂.readBack m) ∧
      s'.isOpen id = s₂.isOpen id := by
    rcases hs' with rfl | ⟨i, l, hf⟩
    · exact ⟨fun _ => ⟨rfl, rfl⟩, fun _ => rfl, rfl⟩
    · exact ⟨hf.same, hf.readBack, hf.isOpen id⟩
  obtain ⟨hrole, hread, hopen'⟩ := hagree
  rw [hopen'] at hopen
  rcases h with hover | ⟨-, hblocks⟩
  · rw [hover.notOpen] at hopen
    cases hopen
  · have howner : s'.Owns id n ↔ s₂.Owns id n := by
      rw [BlockCache.Owns, BlockCache.Owns, (hrole n).1]
    rw [howner, (hrole n).2, hread n]
    exact hblocks n

lemma closedFrom_of_ended {s₃ : BlockCache D} (hfrozen : Frozen s id s₂) (hI₂ : Inv s₂)
    (hok : Ok s₂ c) (hs : step s₂ c = some s₃) (hret : EndReturns s₂ c s₃ id) :
    ClosedFrom s s₃ id false := by
  obtain ⟨s', t, hs', hI', hcl, he⟩ := ended_of_returns hI₂ hok hs hret
  have hagree := frozen_of_finished hfrozen hs' hcl.isOpen
  constructor
  case ended =>
    refine over_of_closed hI'.owners (by rw [he.transaction]; simp) ?_
      (by rw [he.nextTransactionId])
    simp [he.transactionHash]
  case sub => exact fun h => by cases h
  case previous =>
    intro n
    simp only [Bool.false_eq_true, false_implies, and_true]
    rw [← (hagree n).1]
    constructor
    · intro hp
      by_contra hown
      rw [(he.mapped.other hown).1] at hp
      exact hI'.owners.previous_ne_of_isOpen hcl.isOpen n hp
    · intro hown
      rw [he.mapped.role_of_owns hown]
      rfl
  case contents =>
    intro n hown
    have hown' := (hagree n).1.2 hown
    refine ⟨fun _ => ⟨?_, ?_⟩, fun h => (by cases h)⟩
    · rw [he.mapped.role_of_owns hown']
      rfl
    · rw [he.readBack n, ((hagree n).2 hown').2]

lemma closedFrom_of_detached {s₃ : BlockCache D} (hfrozen : Frozen s id s₂) (hI₂ : Inv s₂)
    (hok : Ok s₂ c) (hs : step s₂ c = some s₃) (hret : DetachReturns s₂ c s₃ id) :
    ClosedFrom s s₃ id true := by
  obtain ⟨s', t, hs', hI', hcl, hd⟩ := detached_of_returns hI₂ hok hs hret
  have hagree := frozen_of_finished hfrozen hs' hcl.isOpen
  have hwritten : ∀ {n}, s'.Owns id n → (s'.role n).previous = none :=
    fun hn => hcl.written _ ((hI'.owners.open_iff _ id).2 hn)
  constructor
  case ended =>
    refine over_of_closed hI'.owners (by rw [hd.transaction]; simp) ?_
      (by rw [hd.nextTransactionId]; exact Nat.le_succ _)
    simp [hd.closed hI'.owners]
  case sub =>
    intro _
    have hsub := hasSub_of_returns hI₂ hok hs hret
    rcases hfrozen with hover | ⟨⟨-, heq⟩, -⟩
    · have hopen : s₂.isOpen id = true := by
        rcases hs' with rfl | ⟨i, l, hf⟩
        · exact hcl.isOpen
        · rw [← hf.isOpen id]
          exact hcl.isOpen
      rw [hover.notOpen] at hopen
      cases hopen
    · rw [← heq, hsub]
  case previous =>
    intro n
    simp only [true_implies]
    rw [← (hagree n).1]
    by_cases hown : s'.Owns id n
    · have hpar := ((hagree n).2 hown).1
      have hnone := hwritten hown
      rw [hd.mapped.role_of_owns hown, BlockCache.InMain, ← hpar, BlockRole.detached]
      cases hp : (s'.role n).parent <;> simp [hown, hnone]
    · rw [(hd.mapped.other hown).1]
      exact ⟨fun hp => absurd hp (hI'.owners.previous_ne_of_isOpen hcl.isOpen n),
        fun h => absurd h.1 hown⟩
  case contents =>
    intro n hown
    have hown' := (hagree n).1.2 hown
    obtain ⟨hpar, hread⟩ := (hagree n).2 hown'
    refine ⟨fun h => (by cases h), fun _ hmain => ?_⟩
    rw [hd.mapped.role_of_owns hown', hd.readBack n, mainVersion, ← hpar, ← hread,
      BlockRole.detached]
    rw [BlockCache.InMain, ← hpar] at hmain
    cases hp : (s'.role n).parent with
    | null => exact absurd hp hmain
    | current => rfl
    | copy d => rfl

/-- When a transaction is logged and then closed, the log entry agrees with what the cache writes
back, unless the sub-transaction is detached and has changed a block of the main transaction. -/
theorem logs_committed_iff {device : BlockNumber → D} {maxBlocks : ℕ} {readOnly : Bool} {v : Volume}
    {h₀ h₁ : History (BlockCache D) (Call D)} {s s₂ s₃ : BlockCache D} {id : TransactionId}
    {hasSubtransaction detached : Bool} {arrays : List RunArray} {c : Call D}
    (hr₀ : Run step Ok (BlockCache.create device maxBlocks readOnly) h₀ s)
    (hopen : s.isOpen id = true)
    (hdet : detaches v (cachedTransaction s id hasSubtransaction) = some detached)
    (hlog : loggedArrays v (cachedTransaction s id hasSubtransaction) = some arrays)
    (hr₁ : Run step (fun s c => Ok s c ∧ Separate s c ∧ Quiet id c) s h₁ s₂)
    (hok : Ok s₂ c) (hs : step s₂ c = some s₃) (hret : CloseReturns detached s₂ c s₃ id) :
    LogsCommitted v arrays s s₃ id detached ↔
      (detached = true → ∀ n d, s.Owns id n → (s.role n).parent = .copy d → s.readBack n = d) := by
  have hI := inv_run (fun _ _ hc => hc) hr₀
  have hlogged := mem_logged hI.owners hopen hdet hlog
  have hfirst : Frozen s id s := .inr ⟨⟨hopen, rfl⟩, fun n => ⟨Iff.rfl, fun _ => ⟨rfl, rfl⟩⟩⟩
  obtain ⟨hI₂, hfrozen⟩ := run_keeps (P := Frozen s id) hr₁ hI (fun _ _ hc => hc.1) hfirst
    fun hok hcomp hI hk hc => hc.frozen hI (hok.2.1.change hcomp) hok.2.2 hk
  have hI₃ := inv_step hI₂ hok hs
  have hclosed : ClosedFrom s s₃ id detached := by
    cases detached with
    | false => exact closedFrom_of_ended hfrozen hI₂ hok hs hret
    | true => exact closedFrom_of_detached hfrozen hI₂ hok hs hret
  have hblocks : ∀ n, (s₃.role n).previous = some id ↔
      (n, s.readBack n) ∈ (Commit.mk arrays s.readBack).logged v := by
    intro n
    rw [hclosed.previous n, hlogged]
    constructor
    · exact fun h => ⟨⟨h.1, fun _ hd => h.2 hd⟩, rfl⟩
    · exact fun h => ⟨h.1.1, fun hd => h.1.2 (hclosed.sub hd) hd⟩
  constructor
  · -- a block with a copy of the main version was logged with its current contents
    intro hcommitted hd n d hown hparent
    have hmain : s.InMain n := by simp [BlockCache.InMain, hparent]
    have hmem := (hlogged (n, s.readBack n)).2 ⟨⟨hown, fun _ _ => hmain⟩, rfl⟩
    have hversion := hcommitted.main hd _ hmem
    simp only [mainVersion, hparent, Option.some.injEq] at hversion
    exact hversion.symm
  · intro hsame
    have hversion : detached = true → ∀ n, s.Owns id n → s.InMain n →
        mainVersion s n = some (s.readBack n) := by
      intro hd n hown hmain
      unfold mainVersion
      cases hp : (s.role n).parent with
      | null => exact absurd hp hmain
      | current => rfl
      | copy d => rw [hsame hd n d hown hp]
    constructor
    case blocks =>
      intro n
      rw [hblocks n]
      constructor
      · rintro ⟨d, hd⟩
        exact (hlogged _).2 ⟨((hlogged _).1 hd).1, rfl⟩
      · exact fun h => ⟨_, h⟩
    case contents =>
      intro h s'' hr n b hb hp
      obtain ⟨hprev, hdata⟩ := pending_of_run hI₃ hr hclosed.ended hb hp
      have hmem := (hblocks n).1 hprev
      obtain ⟨hown, hmain⟩ := (hclosed.previous n).1 hprev
      have hread : b.data = s.readBack n := by
        rw [hdata]
        cases hd : detached with
        | false =>
          obtain ⟨hrole, hread⟩ := (hclosed.contents n hown).1 hd
          rw [hrole, hread]
          rfl
        | true =>
          have hmain := hmain hd
          have heq := (hclosed.contents n hown).2 hd hmain
          rw [hversion hd n hown hmain, Option.some.injEq] at heq
          exact heq.symm
      rw [hread]
      exact hmem
    case main =>
      intro hd x hx
      obtain ⟨⟨hown, hmain⟩, heq⟩ := (hlogged x).1 hx
      rw [heq]
      exact hversion hd x.1 hown (hmain (hclosed.sub hd) hd)

/-! ## A sub-transaction that does not fit -/

def tinyLog : Volume where
  blockSize := 1024
  allocationGroupShift := 13
  numBlocks := 8192
  logSize := 3
  blockSize_ge := Log.example_blockSize_ge
  shift_pos := Log.example_shift_pos
  shift_le := Log.example_shift_le
  logSize_pos := by decide

/-- Block 0 is changed to 5 by the main transaction, blocks 1 and 2 by the sub-transaction, and
block 0 once more, to 9, if `again`. -/
def subTooLarge (again : Bool) : List (Call ℕ) :=
  storeFive false ++ [.startSubTransaction 1, .getWritable .plenty 1 (some 1) false,
    .edit (some 1) 1 6, .getWritable .plenty 2 (some 1) false, .edit (some 1) 2 6] ++
    if again then storeNineInSub else []

def tooLarge (again : Bool) : BlockCache ℕ := outcome step sevens (subTooLarge again)

/-- The cache after the sub-transaction was detached. -/
def tooLargeDetached (again : Bool) : BlockCache ℕ :=
  outcome step (tooLarge again) [.detachSubTransaction 1]

def tooLargeArrays (again : Bool) : List RunArray :=
  (loggedArrays tinyLog (cachedTransaction (tooLarge again) 1 true)).getD []

theorem logs_committed_detached :
    LogsCommitted tinyLog (tooLargeArrays false) (tooLarge false) (tooLargeDetached false) 1 true := by
  obtain ⟨h, hr, -⟩ := run_outcome step ok_of_check sevens (subTooLarge false) (fun _ => true)
    (by decide)
  have hok : Ok (tooLarge false) (.detachSubTransaction 1) := ok_of_check _ _ (by decide)
  have hs : step (tooLarge false) (.detachSubTransaction 1) = some (tooLargeDetached false) :=
    step_outcome (by decide)
  have hret : CloseReturns true (tooLarge false) (.detachSubTransaction 1) (tooLargeDetached false)
      1 := .inl ⟨rfl, by decide⟩
  have hdet : detaches tinyLog (cachedTransaction (tooLarge false) 1 true) = some true := by
    decide
  have hlog : loggedArrays tinyLog (cachedTransaction (tooLarge false) 1 true) =
      some (tooLargeArrays false) := by decide
  refine (logs_committed_iff hr (by decide) hdet hlog .nil hok hs hret).2 ?_
  intro _ n d hown hparent
  have hmem := ((inv_run (fun _ _ hc => hc) hr).owners.open_iff n 1).2 hown
  have hblocks : (tooLarge false).openBlocks 1 = [2, 1, 0] := by decide
  have hnone : ∀ m ∈ [2, 1, 0], ((tooLarge false).role m).parent = .null ∨
      ((tooLarge false).role m).parent = .current := by decide
  rcases hnone n (hblocks ▸ hmem) with hp | hp
  · cases hp.symm.trans hparent
  · cases hp.symm.trans hparent

/-- The log entry has the 9 that the sub-transaction stored into the block of the main
transaction. -/
theorem detached_change_logged : ¬ ∀ (device : BlockNumber → ℕ) (maxBlocks : ℕ) (readOnly : Bool)
    (v : Volume) (h₀ : History (BlockCache ℕ) (Call ℕ)) (s s₃ : BlockCache ℕ) (id : TransactionId)
    (hasSubtransaction detached : Bool) (arrays : List RunArray),
    Run step callerOk (BlockCache.create device maxBlocks readOnly) h₀ s → s.isOpen id = true →
      detaches v (cachedTransaction s id hasSubtransaction) = some detached →
      loggedArrays v (cachedTransaction s id hasSubtransaction) = some arrays →
      step s (if detached then .detachSubTransaction id else .endTransaction id) = some s₃ →
      s₃.isOpen id = false → LogsCommitted v arrays s s₃ id detached := by
  intro hclaim
  obtain ⟨h, hr, -⟩ := run_outcome step ok_of_check sevens (subTooLarge true) (fun _ => true)
    (by decide)
  have hcommitted := hclaim _ _ _ tinyLog h (tooLarge true) (tooLargeDetached true) 1 true true
    (tooLargeArrays true) (hr.mono fun _ _ hc => hc.caller) (by decide) (by decide)
    (by decide) (step_outcome (by decide)) (by decide)
  have hmem :
    (0, 9) ∈ (Commit.mk (tooLargeArrays true) (tooLarge true).readBack).logged tinyLog := by
    decide
  exact absurd (hcommitted.main rfl _ hmem) (by decide)

end Haiku.Cache
