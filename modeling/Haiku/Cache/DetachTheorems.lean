import Haiku.Cache.RollbackTheorems

/-!
# Detaching a sub-transaction

`cache_detach_sub_transaction()` closes the parent part of a transaction and turns the
sub-transaction into a transaction of its own. What is written back for the parent part is
what its blocks held when the sub-transaction was started, and the blocks changed in the
sub-transaction move over. An abort of the new transaction goes back to that version for the
blocks that the parent part had changed, too; for the others the loop replaces the original
data by the null pointer of the missing parent data.
-/

namespace Haiku.Cache

open Lib

variable {D : Type}

/-- Blocks of transactions, open or to be written, are not changed without a transaction. -/
structure Separate (s : BlockCache D) (c : Call D) : Prop where
  edited : ∀ n d, c = .edit none n d → (s.role n).owner = none ∧ (s.role n).previous = none
  cleared : ∀ n, c.Fetches n none true → (s.role n).owner = none ∧ (s.role n).previous = none

variable {s : BlockCache D} {c : Call D}

lemma Separate.change {s₁ : BlockCache D} (h : Separate s c) (hs : s₁ = s ∨ c.Compound) :
    Separate s₁ c := by
  rcases hs with rfl | ⟨m, k, id, rfl⟩ | ⟨i, rfl⟩
  · exact h
  · exact ⟨by simp, by simp [Call.Fetches]⟩
  · exact ⟨by simp, by simp [Call.Fetches]⟩

/-! ## Contents of the blocks of transactions -/

variable {s' : BlockCache D} {n : BlockNumber}

lemma Unused.kept (hU : Unused s) (hr : (s.role n).owner ≠ none ∨ (s.role n).previous ≠ none)
    (hn : s'.hash n = s.hash n ∨ s'.hash n = none ∧
      ∃ c, s.hash n = some c ∧ c.unused = true ∧ c.isDirty = false) : s'.hash n = s.hash n := by
  rcases hn with he | ⟨-, c, hc, hu, -⟩
  · exact he
  · obtain ⟨-, htr, hprev⟩ := hU.idle n c hc hu
    rw [role_of_cached hc] at hr
    simp [roleOf, htr, hprev] at hr

variable {id : TransactionId}

lemma Mapped.other {f : CachedBlock D → CachedBlock D} {g : BlockRole D → BlockRole D}
    (hm : Mapped s s' id f g) (hn : (s.role n).owner ≠ some id) :
    s'.role n = s.role n ∧ s'.readBack n = s.readBack n := by
  refine ⟨by rw [hm.role n, if_neg hn], ?_⟩
  rw [BlockCache.readBack, hm.hash n, if_neg hn, hm.device]
  rfl

variable [Zero D]

/-- What can happen to a block `n` of a transaction, apart from what is done to its transaction
as a whole: nothing, it is fetched for writing in its own transaction, or somebody stores
into it. -/
inductive BlockChange (s : BlockCache D) (n : BlockNumber) : Call D → BlockCache D → Prop
  | still {c : Call D} {s' : BlockCache D} (role : s'.role n = s.role n)
      (read : s'.readBack n = s.readBack n) : BlockChange s n c s'
  | touch {c : Call D} {s' : BlockCache D} {id : TransactionId} {cleared : Bool}
      (call : c.Fetches n (some id) cleared)
      (owner : (s.role n).owner = none ∨ (s.role n).owner = some id)
      (role : s'.role n = (s.role n).touched id (s.readBack n) false)
      (read : s'.readBack n = if cleared then 0 else s.readBack n) : BlockChange s n c s'
  | clear {c : Call D} {s' : BlockCache D} (call : c.Fetches n none true) : BlockChange s n c s'
  | edit {s' : BlockCache D} {id : Option TransactionId} {d : D}
      (editable : s.isEditable id n = true) (role : s'.role n = s.role n)
      (read : s'.readBack n = d) : BlockChange s n (.edit id n d) s'
  | abort {s' : BlockCache D} {id : TransactionId} {t : CacheTransaction}
      (h : Aborted s s' id t) : BlockChange s n (.abortTransaction id) s'
  | subStart {s' : BlockCache D} {id : TransactionId} {t : CacheTransaction}
      (h : SubStarted s s' id t) : BlockChange s n (.startSubTransaction id) s'
  | subAbort {s' : BlockCache D} {id : TransactionId} {t : CacheTransaction}
      (h : SubAborted s s' id t) : BlockChange s n (.abortSubTransaction id) s'
  | ended {c : Call D} {s' : BlockCache D} {id : TransactionId} {t : CacheTransaction}
      (h : Ended s s' id t) (closable : Closable s id) : BlockChange s n c s'
  | detached {c : Call D} {s' : BlockCache D} {id : TransactionId} {t : CacheTransaction}
      (h : Detached s s' id t) (closable : Closable s id) : BlockChange s n c s'
  | done {c : Call D} {s' : BlockCache D} (role : s'.role n = { s.role n with previous := none })
      (read : s'.readBack n = s.readBack n) : BlockChange s n c s'

lemma Change.blockChange (hc : Change s c s') (hI : Inv s)
    (hr : (s.role n).owner ≠ none ∨ (s.role n).previous ≠ none) : BlockChange s n c s' := by
  -- the block is cached, and stays so
  have hread : ∀ {s'' : BlockCache D}, s''.device = s.device →
      (s''.hash n = s.hash n ∨ s''.hash n = none ∧
        ∃ c, s.hash n = some c ∧ c.unused = true ∧ c.isDirty = false) →
      s''.readBack n = s.readBack n := by
    intro s'' hdev hn
    rw [BlockCache.readBack, hI.unused.kept hr hn, hdev]
    rfl
  have hcached : s.hash n ≠ none := by
    intro hn
    rw [role_of_not_cached hn] at hr
    simp [roleOf] at hr
  cases hc with
  | same => exact .still rfl rfl
  | evict hev =>
    have hrest := hev.sameRest hI
    exact .still (hrest.role n) (hread hrest.device (hrest.hash n))
  | @fetch m k _ allocated b hF hdata =>
    refine .still (hF.role n) ?_
    by_cases hn : n = k
    · subst hn
      obtain ⟨b', hb'⟩ := Option.ne_none_iff_exists'.1 hcached
      rw [readBack_of_cached hF.cached, readBack_of_cached hb', (hF.same b' hb').1]
    · exact hread hF.device (hF.others n hn)
  | put hp => exact .still (put_role hI.owners hp n) (put_readBack hI.owners hp n)
  | @touch _ k id cleared _ t b hcall _ hw =>
    have hT := hw.touched
    by_cases hn : n = k
    · subst hn
      have hskip : ((s.hash n).isNone && cleared) = false := by
        simp [hcached]
      refine .touch hcall hT.owner (by rw [hT.role n, if_pos rfl, hskip]) ?_
      rw [readBack_of_cached hw.cached, hw.contents]
    · exact .still (by rw [hT.role n, if_neg hn]) (hread hT.device (hT.others n hn))
  | @dirty _ k cleared _ b hcall hw =>
    by_cases hn : n = k
    · subst hn
      cases cleared with
      | true => exact .clear hcall
      | false =>
        refine .still (hw.role n) ?_
        rw [readBack_of_cached hw.cached, hw.contents]
        rfl
    · exact .still (hw.role n) (hread hw.device (hw.others n hn))
  | @edit id k d b hb hed _ =>
    have hrole : (s.setBlock k { b with currentData := d }).role n = s.role n := by
      have hr' := role_of_cached hb
      exact role_set (b := { b with currentData := d }) rfl hr' n
    by_cases hn : n = k
    · subst hn
      exact .edit hed hrole (by simp [BlockCache.readBack])
    · exact .still hrole (hread rfl (.inl (by simp [hn])))
  | start hs =>
    obtain ⟨hh, hdev, -⟩ := start_fields hs
    exact .still (by rw [BlockCache.role, hh]; rfl) (hread hdev (.inl (by rw [hh])))
  | abort ha => exact .abort ha
  | subStart hs => exact .subStart hs
  | subAbort hs => exact .subAbort hs
  | ended he hcl => exact .ended he hcl
  | detached hd hcl _ => exact .detached hd hcl
  | @mark _ ns _ _ _ _ _ _ => exact .still (addAll_role ns s n) (addAll_readBack s ns n)
  | write hw =>
    refine .still ?_ (writeNext_readBack hw n)
    unfold BlockCache.writeNext at hw
    split at hw
    · split at hw
      · simp at hw
      · cases hw
        rfl
    · simp at hw
  | finish hw hp ha =>
    have hfin := finished_of_writer hI.owners hI.counts hI.unused hI.busy hw hp ha
    have hrole := hfin.role n
    split at hrole
    · exact .done hrole (hfin.readBack n)
    · exact .still hrole (hfin.readBack n)

/-! ## Before the sub-transaction is detached -/

omit [Zero D] in
lemma isEditable_some (h : s.isEditable (some id) n = true) :
    (s.role n).owner = some id ∧ (s.role n).parent ≠ .current := by
  unfold BlockCache.isEditable at h
  cases hn : s.hash n with
  | none => simp [hn] at h
  | some b =>
    simp only [hn, Option.any_some, Bool.and_eq_true, decide_eq_true_eq] at h
    rw [role_of_cached hn]
    refine ⟨h.2.1, fun hp => ?_⟩
    have hp' : b.parentData = .current := hp
    simp [hp'] at h

/-- Block `n` was changed by the parent part of transaction `id`, whose version is `d`. -/
def ParentKept (s : BlockCache D) (id : TransactionId) (n : BlockNumber) (d : D) : Prop :=
  Over s id ∨ (s.Owns id n ∧
    ((s.role n).parent = .current ∧ s.readBack n = d ∨ (s.role n).parent = .copy d))

variable {d : D}

lemma Change.parentKept (hc : Change s c s') (hI : Inv s) (hsep : Separate s c)
    (hstart : c ≠ .startSubTransaction id) (habort : c ≠ .abortSubTransaction id)
    (h : ParentKept s id n d) : ParentKept s' id n d := by
  have hrc := hc.roleChange hI
  rcases h with hover | ⟨hown, hpar⟩
  · exact .inl (hrc.over hover)
  rcases hrc.owns hI.owners hown with hover | ⟨hown', -⟩
  · exact .inl hover
  have howner : (s.role n).owner = some id := hown
  -- in most cases neither the role nor the contents change
  have hsame : s'.role n = s.role n ∧ s'.readBack n = s.readBack n → ParentKept s' id n d := by
    rintro ⟨hrole, hread⟩
    rw [ParentKept, hrole, hread]
    exact .inr ⟨hown', hpar⟩
  have hother : ∀ {id'}, id ≠ id' → (s.role n).owner ≠ some id' := by
    intro id' hne
    rw [howner]
    simpa using hne
  cases hc.blockChange hI (.inl (by rw [howner]; simp)) with
  | still hrole hread => exact hsame ⟨hrole, hread⟩
  | touch _ _ hrole hread =>
    refine .inr ⟨hown', .inr ?_⟩
    rw [hrole]
    rcases hpar with ⟨hp, hd⟩ | hp
    · simp [hp, hd]
    · simp [hp]
  | clear hcall => simp [(hsep.cleared n hcall).1] at howner
  | @edit _ id' d' hed hrole _ =>
    cases id' with
    | none => simp [(hsep.edited n d' rfl).1] at howner
    | some id' =>
      -- the block was fetched in the sub-transaction
      have hcopy := hpar.resolve_left fun hp => (isEditable_some hed).2 hp.1
      rw [ParentKept, hrole]
      exact .inr ⟨hown', .inr hcopy⟩
  | @abort _ id' _ ha =>
    by_cases hid : id = id'
    · subst hid
      rw [BlockCache.Owns, ha.mapped.role n, if_pos howner] at hown'
      simp at hown'
    · exact hsame (ha.mapped.other (hother hid))
  | subStart hs => exact hsame (hs.mapped.other (hother fun he => hstart (by rw [he])))
  | subAbort hs => exact hsame (hs.mapped.other (hother fun he => habort (by rw [he])))
  | @ended _ _ id' _ he _ =>
    by_cases hid : id = id'
    · subst hid
      rw [BlockCache.Owns, he.mapped.role n, if_pos howner] at hown'
      simp at hown'
    · exact hsame (he.mapped.other (hother hid))
  | @detached _ _ id' _ hd _ =>
    by_cases hid : id = id'
    · subst hid
      rw [BlockCache.Owns, hd.mapped.role n, if_pos howner] at hown'
      have hne := hd.newId_ne hI.owners
      rcases hpar with ⟨hp, -⟩ | hp <;> simp [BlockRole.detached, hp, hne] at hown'
    · exact hsame (hd.mapped.other (hother hid))
  | done hrole hread =>
    rw [ParentKept, hrole, hread]
    exact .inr ⟨hown', hpar⟩

omit [Zero D] in
lemma RoleChange.parent (hc : RoleChange s c s') (hstart : c ≠ .startSubTransaction id)
    (hown : s.Owns id n) (hown' : s'.Owns id n) :
    ((s.role n).parent = .null → (s'.role n).parent = .null) ∧
      ((s.role n).parent ≠ .current → (s'.role n).parent ≠ .current) := by
  have hsame : s'.role n = s.role n → _ := fun hrole =>
    show ((s.role n).parent = .null → (s'.role n).parent = .null) ∧
      ((s.role n).parent ≠ .current → (s'.role n).parent ≠ .current) from
    ⟨fun hp => by rw [hrole]; exact hp, fun hp => by rw [hrole]; exact hp⟩
  cases hc with
  | still h => exact hsame (h.role n)
  | @touch _ k id' cleared _ t _ h =>
    by_cases hn : n = k
    · subst hn
      rw [h.role n, if_pos rfl, BlockRole.touched]
      cases hp : (s.role n).parent <;> simp
    · exact hsame (by rw [h.role n, if_neg hn])
  | start h => exact hsame (by rw [BlockCache.role, (start_fields h).1]; rfl)
  | @abort id' _ t h =>
    by_cases hn : (s.role n).owner = some id'
    · rw [BlockCache.Owns, h.mapped.role n, if_pos hn] at hown'
      simp at hown'
    · exact hsame (h.mapped.other hn).1
  | @subStart id' _ t h =>
    refine hsame (h.mapped.other ?_).1
    rw [show (s.role n).owner = some id from hown]
    simpa using fun he => hstart (by rw [he])
  | @subAbort id' _ t h =>
    by_cases hn : (s.role n).owner = some id'
    · rw [h.mapped.role n, if_pos hn]
      simp [BlockRole.subAborted]
    · exact hsame (h.mapped.other hn).1
  | @ended _ id' _ t h _ =>
    by_cases hn : (s.role n).owner = some id'
    · rw [BlockCache.Owns, h.mapped.role n, if_pos hn] at hown'
      simp at hown'
    · exact hsame (h.mapped.other hn).1
  | @detached _ id' _ t h _ _ =>
    by_cases hn : (s.role n).owner = some id'
    · rw [h.mapped.role n, if_pos hn, BlockRole.detached]
      cases hp : (s.role n).parent <;> simp
    · exact hsame (h.mapped.other hn).1
  | finish h =>
    rw [h.role n]
    split
    · exact ⟨fun hp => hp, fun hp => hp⟩
    · exact ⟨fun hp => hp, fun hp => hp⟩

omit [Zero D] in
lemma RoleChange.joins (hc : RoleChange s c s') (hO : Owners s) (hopen : s.isOpen id = true)
    (hown : ¬ s.Owns id n) (hown' : s'.Owns id n) :
    (∃ cleared, c.Fetches n (some id) cleared) ∧ (s'.role n).parent = .null := by
  have hsame : ∀ {r}, s'.role n = r → r = s.role n → False := by
    intro r hr he
    rw [BlockCache.Owns, hr, he] at hown'
    exact hown hown'
  have howner : (s'.role n).owner = some id := hown'
  cases hc with
  | still h => exact (hsame (h.role n) rfl).elim
  | @touch _ k id' cleared _ t hcall h =>
    by_cases hn : n = k
    · subst hn
      have hid : id' = id := by
        rw [h.role n, if_pos rfl] at howner
        simpa using howner
      subst hid
      have hfree := hO.free n (h.owner.resolve_right hown)
      refine ⟨⟨cleared, hcall⟩, ?_⟩
      rw [h.role n, if_pos rfl]
      simp [hfree.2]
    · exact (hsame (by rw [h.role n, if_neg hn]) rfl).elim
  | start h => exact (hsame (by rw [BlockCache.role, (start_fields h).1]; rfl) rfl).elim
  | abort h =>
    rw [h.mapped.role n] at howner
    split at howner
    · simp at howner
    · exact absurd howner hown
  | subStart h =>
    rw [h.mapped.role n] at howner
    split at howner
    · exact absurd howner hown
    · exact absurd howner hown
  | subAbort h =>
    rw [h.mapped.role n] at howner
    split at howner
    · exact absurd howner hown
    · exact absurd howner hown
  | ended h _ =>
    rw [h.mapped.role n] at howner
    split at howner
    · simp at howner
    · exact absurd howner hown
  | detached h _ _ =>
    -- the new transaction has a new id
    rw [h.mapped.role n] at howner
    split at howner
    · have hne : s.nextTransactionId ≠ id := by
        have hsome : s.transactionHash id ≠ none := by
          intro hnone
          simp [hnone] at hopen
        exact Nat.ne_of_gt (hO.ids id hsome)
      unfold BlockRole.detached at howner
      split at howner <;> simp [hne] at howner
    · exact absurd howner hown
  | finish h =>
    rw [h.role n] at howner
    split at howner
    · exact absurd howner hown
    · exact absurd howner hown

/-! ## The changes of the sub-transaction -/

/-- Block `n` was fetched in the sub-transaction of `id`. -/
def InSub (s : BlockCache D) (id : TransactionId) (n : BlockNumber) : Prop :=
  Over s id ∨ (s.Owns id n ∧ (s.role n).parent ≠ .current)

/-- The parent part of transaction `id` did not change block `n`. -/
def NotParent (s : BlockCache D) (id : TransactionId) (n : BlockNumber) : Prop :=
  Over s id ∨ (s.isOpen id = true ∧ (s.Owns id n → (s.role n).parent = .null))

omit [Zero D] in
lemma RoleChange.inSub (hc : RoleChange s c s') (hO : Owners s)
    (hstart : c ≠ .startSubTransaction id) (h : InSub s id n) : InSub s' id n := by
  rcases h with hover | ⟨hown, hp⟩
  · exact .inl (hc.over hover)
  · rcases hc.owns hO hown with hover | ⟨hown', -⟩
    · exact .inl hover
    · exact .inr ⟨hown', (hc.parent hstart hown hown').2 hp⟩

omit [Zero D] in
lemma RoleChange.notParent (hc : RoleChange s c s') (hO : Owners s)
    (hstart : c ≠ .startSubTransaction id) (habort : c ≠ .abortSubTransaction id)
    (h : NotParent s id n) : NotParent s' id n := by
  rcases h with hover | ⟨hopen, hp⟩
  · exact .inl (hc.over hover)
  · rcases hc.isOpen hO hopen hstart habort with hover | ⟨hopen', -⟩
    · exact .inl hover
    · refine .inr ⟨hopen', fun hown' => ?_⟩
      by_cases hown : s.Owns id n
      · exact (hc.parent hstart hown hown').1 (hp hown)
      · exact (hc.joins hO hopen hown hown').2

lemma inSub_of_fetch (hI : Inv s) (hok : Ok s c) {cleared : Bool}
    (hf : c.Fetches n (some id) cleared) (hs : step s c = some s') : InSub s' id n := by
  obtain ⟨s₁, t, b, hw, hI₁, hput⟩ := fetch_step hI hok hf hs
  have hS : InSub s₁ id n := by
    refine .inr ?_
    rw [BlockCache.Owns, hw.touched.role n, if_pos rfl]
    refine ⟨rfl, ?_⟩
    unfold BlockRole.touched
    cases (s.role n).parent <;> simp
  have hstart : c ≠ .startSubTransaction id := by
    rcases hf with ⟨m, rfl⟩ | ⟨m, rfl, -⟩ <;> simp
  rcases hput with rfl | hp
  · exact hS
  · exact ((Change.put (c := c) hp).roleChange hI₁).inSub hI₁.owners hstart hS

/-! ## The version that is to be written -/

/-- Transaction `id` is closed; if block `n` is still to be written for it, its contents are
`d`. -/
def PendingData (s : BlockCache D) (id : TransactionId) (n : BlockNumber) (d : D) : Prop :=
  Over s id ∧ ((s.role n).previous = some id →
    (s.role n).original.getD (s.readBack n) = d)

omit [Zero D] in
lemma RoleChange.previous (hc : RoleChange s c s') (hover : Over s id)
    (hp : (s'.role n).previous = some id) : (s.role n).previous = some id := by
  have hne : ∀ {id' t}, s.transactionHash id' = some t → t.isOpen = true → id' ≠ id := by
    rintro id' t ht hop rfl
    have := hover.notOpen
    simp [ht, hop] at this
  cases hc with
  | still h => rw [h.role n] at hp; exact hp
  | touch _ h =>
    rw [h.role n] at hp
    split at hp
    · rename_i hn
      rw [hn]
      exact hp
    · exact hp
  | start h => rw [BlockCache.role, (start_fields h).1] at hp; exact hp
  | abort h =>
    rw [h.mapped.role n] at hp
    split at hp <;> exact hp
  | subStart h =>
    rw [h.mapped.role n] at hp
    split at hp <;> exact hp
  | subAbort h =>
    rw [h.mapped.role n] at hp
    split at hp <;> exact hp
  | ended h _ =>
    rw [h.mapped.role n] at hp
    split at hp
    · simp [hne h.transaction h.isOpen] at hp
    · exact hp
  | detached h _ _ =>
    rw [h.mapped.role n] at hp
    split at hp
    · unfold BlockRole.detached at hp
      split at hp
      · exact hp
      · simp [hne h.transaction h.isOpen] at hp
      · simp [hne h.transaction h.isOpen] at hp
    · exact hp
  | finish h =>
    rw [h.role n] at hp
    split at hp
    · simp at hp
    · exact hp

omit [Zero D] in
lemma SubAborted.role_original {t : CacheTransaction} (h : SubAborted s s' id t)
    (n : BlockNumber) : (s'.role n).original = (s.role n).original := by
  rw [h.mapped.role n]
  split <;> rfl

lemma Change.pendingData (hc : Change s c s') (hI : Inv s) (hsep : Separate s c)
    (h : PendingData s id n d) : PendingData s' id n d := by
  have hrc := hc.roleChange hI
  refine ⟨hrc.over h.1, fun hp' => ?_⟩
  have hp := hrc.previous h.1 hp'
  have hd := h.2 hp
  have hprev : (s.role n).previous ≠ none := by rw [hp]; simp
  -- a block that is also part of an open transaction has its original contents
  have horig : (s.role n).owner ≠ none → (s.role n).original = some d := by
    intro hown
    obtain ⟨o, ho⟩ := Option.ne_none_iff_exists'.1 (hI.owners.both n hown hprev)
    rw [ho] at hd ⊢
    simpa using hd
  have hsame : s'.role n = s.role n → s'.readBack n = s.readBack n →
      (s'.role n).original.getD (s'.readBack n) = d := by
    intro hrole hread
    rw [hrole, hread]
    exact hd
  cases hc.blockChange hI (.inr hprev) with
  | still hrole hread => exact hsame hrole hread
  | touch _ _ hrole hread =>
    rw [hrole]
    cases ho : (s.role n).original with
    | none =>
      rw [ho] at hd
      simpa [ho] using hd
    | some o =>
      rw [ho] at hd
      simpa [ho] using hd
  | clear hcall => exact absurd (hsep.cleared n hcall).2 hprev
  | @edit _ id' d' hed hrole _ =>
    cases id' with
    | none => exact absurd (hsep.edited n d' rfl).2 hprev
    | some id' =>
      rw [hrole, horig (by rw [(isEditable_some hed).1]; simp)]
      rfl
  | @abort _ id' _ ha =>
    by_cases hn : (s.role n).owner = some id'
    · rw [ha.readBack n, if_pos hn, ha.mapped.role n, if_pos hn,
        horig (by rw [hn]; simp)]
      rfl
    · exact hsame (ha.mapped.other hn).1 (ha.mapped.other hn).2
  | subStart hs =>
    have hrole : (s'.role n).original = (s.role n).original := by
      rw [hs.mapped.role n]
      split <;> rfl
    rw [hrole, hs.readBack n]
    exact hd
  | @subAbort _ id' _ hs =>
    by_cases hn : (s.role n).owner = some id'
    · rw [hs.role_original n, horig (by rw [hn]; simp)]
      rfl
    · exact hsame (hs.mapped.other hn).1 (hs.mapped.other hn).2
  | @ended _ _ id' _ he hcl =>
    have hn : (s.role n).owner ≠ some id' := fun hn =>
      hprev (hcl.written n ((hI.owners.open_iff n id').2 hn))
    exact hsame (he.mapped.other hn).1 (he.mapped.other hn).2
  | @detached _ _ id' _ hd' hcl =>
    have hn : (s.role n).owner ≠ some id' := fun hn =>
      hprev (hcl.written n ((hI.owners.open_iff n id').2 hn))
    exact hsame (hd'.mapped.other hn).1 (hd'.mapped.other hn).2
  | done hrole _ =>
    rw [hrole] at hp'
    simp at hp'

/-! ## `cache_detach_sub_transaction()` -/

/-- The step in which `cache_detach_sub_transaction()` returns successfully: the call itself, if
nothing is to be written first, or else the step in which its writer is done. -/
def DetachReturns (s : BlockCache D) (c : Call D) (s' : BlockCache D) (id : TransactionId) :
    Prop :=
  (c = .detachSubTransaction id ∧ s'.isOpen id = false) ∨
    ∃ i w, c = .writeDone i ∧ s.writers[i]? = some w ∧ w.next = .detachSubTransaction id

lemma detached_of_returns (hI : Inv s) (hok : Ok s c) (hs : step s c = some s')
    (hd : DetachReturns s c s' id) :
    ∃ s₁ t, (s₁ = s ∨ ∃ i l, Finished s s₁ i l) ∧ Inv s₁ ∧ Closable s₁ id ∧
      Detached s₁ s' id t := by
  rcases hd with ⟨rfl, hclosed⟩ | ⟨i, w, rfl, hw, hnext⟩
  · have hopen : s.isOpen id = true := hok.caller
    simp only [step, BlockCache.cacheDetachSubTransaction] at hs
    split at hs
    · simp at hs
    rename_i hbusy
    split at hs
    · simp at hs
    rename_i t ht
    split at hs
    · cases hs
      exact absurd (hclosed.symm.trans hopen) Bool.false_ne_true
    unfold BlockCache.write at hs
    split at hs
    · rename_i hnil
      obtain ⟨-, hidle, -, hall⟩ := pending_closes hI (by simpa using hbusy) ht hopen
      have hcl : Closable s id := by
        refine ⟨hopen, fun n hn => ?_, by simp [hidle]⟩
        by_contra hne
        have := hall n hn hne
        simp [hnil] at this
      obtain ⟨t', hd⟩ := detached_of_call hI.owners hopen hs
      exact ⟨s, t', .inl rfl, hI, hcl, hd⟩
    · cases hs
      have hth := (addAll_rest (s.pendingBlocks t.firstBlock) s).1
      rw [BlockCache.isOpen, hth] at hclosed
      exact absurd hopen (by rw [BlockCache.isOpen, hclosed]; simp)
  · simp only [step, BlockCache.writeDone] at hs
    split at hs
    · rename_i done next hw'
      rw [hw] at hw'
      cases hw'
      have ha := hok.apart.finish i _ rfl hw
      obtain ⟨hfin, hcl, -⟩ := finish_writer hI.owners hI.counts hI.unused hI.busy hw rfl ha
      have hcl' := hcl id (.inr hnext)
      have hnext' : next = .detachSubTransaction id := hnext
      rw [hnext'] at hs
      obtain ⟨t', hd⟩ := detached_of_call hfin.owners hcl'.isOpen hs
      exact ⟨_, t', .inr ⟨i, _, finished_of_writer hI.owners hI.counts hI.unused hI.busy hw rfl ha⟩,
        hfin.inv, hcl', hd⟩
    · simp at hs

omit [Zero D] in
lemma writeNext_data {i : ℕ} (hs : s.writeNext i = some s')
    (hlog : s'.written = s.written ++ [(n, d)]) (hp : (s.role n).previous ≠ none) :
    d = (s.role n).original.getD (s.readBack n) := by
  unfold BlockCache.writeNext at hs
  split at hs
  · split at hs
    · simp at hs
    · rename_i b hb
      cases hs
      simp only [BlockCache.writeData, List.append_cancel_left_eq, List.cons.injEq,
        Prod.mk.injEq, and_true] at hlog
      obtain ⟨rfl, rfl⟩ := hlog
      rw [role_of_cached hb] at hp ⊢
      rw [readBack_of_cached hb]
      simp only [roleOf] at hp ⊢
      rw [CachedBlock.data, if_pos (by simpa [Option.isSome_iff_ne_none] using hp)]
  · simp at hs

/-- The calls of the sub-transaction: it is not aborted, and no other one is started. -/
structure SubPart (id : TransactionId) (c : Call D) : Prop where
  notStarted : c ≠ .startSubTransaction id
  notAborted : c ≠ .abortSubTransaction id

omit [Zero D] in
lemma Finished.same {i : ℕ} {l : List BlockNumber} (h : Finished s s' i l) (n : BlockNumber) :
    (s'.role n).owner = (s.role n).owner ∧ (s'.role n).parent = (s.role n).parent := by
  rw [h.role n]
  split <;> exact ⟨rfl, rfl⟩

/-- A sub-transaction of `id` was started in `s₀`, and is detached in the step from `s₂` to
`s₃`. The blocks that the parent part had changed are to be written with the contents they had
when the sub-transaction was started, and are written with these contents in every later state
`s₄`; the blocks changed in the sub-transaction belong to the new transaction with
their present contents; and an abort of that one makes those that the parent part had changed
read back as when the sub-transaction was started. -/
theorem detach_splits {device : BlockNumber → D} {maxBlocks : ℕ} {readOnly : Bool}
    {h₀ h₁ h₂ : History (BlockCache D) (Call D)} {s₀ s₁ s₂ s₃ s₄ : BlockCache D}
    {id : TransactionId} {c : Call D}
    (hr₀ : Run step Ok (BlockCache.create device maxBlocks readOnly) h₀ s₀)
    (hok₀ : Ok s₀ (.startSubTransaction id))
    (hs₀ : step s₀ (.startSubTransaction id) = some s₁)
    (hr₁ : Run step (fun s c => Ok s c ∧ Separate s c ∧ SubPart id c) s₁ h₁ s₂)
    (hok₂ : Ok s₂ c) (hs₂ : step s₂ c = some s₃) (hd : DetachReturns s₂ c s₃ id)
    (hr₂ : Run step (fun s c => Ok s c ∧ Separate s c) s₃ h₂ s₄) :
    ((∀ n, s₁.Owns id n → (s₃.role n).previous = some id) ∧
      ∀ i s₅ n d, step s₄ (.writeBlock i) = some s₅ → s₅.written = s₄.written ++ [(n, d)] →
        (s₄.role n).previous = some id → s₁.Owns id n ∧ d = s₁.readBack n) ∧
    (∀ s c n cleared, (s, c) ∈ h₁ → c.Fetches n (some id) cleared →
      s₃.Owns s₂.nextTransactionId n ∧ s₃.readBack n = s₂.readBack n) ∧
    ∀ s₅, Ok s₄ (.abortTransaction s₂.nextTransactionId) →
      step s₄ (.abortTransaction s₂.nextTransactionId) = some s₅ →
      ∀ s c n cleared, (s, c) ∈ h₁ → c.Fetches n (some id) cleared → s₁.Owns id n →
        s₅.readBack n = s₁.readBack n := by
  have hI₀ := inv_run (fun _ _ hc => hc) hr₀
  have hI₁ := inv_step hI₀ hok₀ hs₀
  obtain ⟨t₀, hstart⟩ := subStarted_of_call hI₀.owners hI₀.busy hok₀.caller hs₀
  obtain ⟨hI₂, -⟩ := run_keeps (P := fun _ => True) hr₁ hI₁ (fun _ _ hc => hc.1) trivial
    fun _ _ _ _ _ => trivial
  obtain ⟨s', t, hs', hI', hcl, hdet⟩ := detached_of_returns hI₂ hok₂ hs₂ hd
  have hI₃ := inv_step hI₂ hok₂ hs₂
  -- the loop runs in a state that agrees with `s₂`
  have hagree : (∀ n, (s'.role n).owner = (s₂.role n).owner ∧
      (s'.role n).parent = (s₂.role n).parent) ∧ (∀ n, s'.readBack n = s₂.readBack n) ∧
      s'.nextTransactionId = s₂.nextTransactionId ∧ s'.isOpen id = s₂.isOpen id := by
    rcases hs' with rfl | ⟨i, l, hf⟩
    · exact ⟨fun _ => ⟨rfl, rfl⟩, fun _ => rfl, rfl, rfl⟩
    · exact ⟨hf.same, hf.readBack, hf.nextTransactionId, hf.isOpen id⟩
  obtain ⟨hrole', hread', hnext', hopen'⟩ := hagree
  have hnot : ¬ Over s₂ id := by
    intro hover
    have := hcl.isOpen
    rw [hopen', hover.notOpen] at this
    simp at this
  have hwritten : ∀ {n}, (s'.role n).owner = some id → (s'.role n).previous = none :=
    fun hn => hcl.written _ ((hI'.owners.open_iff _ id).2 hn)
  -- the blocks of the parent part
  have hparent : ∀ {n}, s₁.Owns id n → (s'.role n).owner = some id ∧
      ((s'.role n).parent = .current ∧ s'.readBack n = s₁.readBack n ∨
        (s'.role n).parent = .copy (s₁.readBack n)) := by
    intro n hown
    have hfirst : ParentKept s₁ id n (s₁.readBack n) := by
      refine .inr ⟨hown, .inl ⟨?_, rfl⟩⟩
      rw [BlockCache.Owns, hstart.mapped.role n] at hown
      rw [hstart.mapped.role n]
      split at hown
      · rename_i ho
        rw [if_pos ho]
        rfl
      · exact absurd hown ‹_›
    have hk := (run_keeps (P := fun c => ParentKept c id n (s₁.readBack n)) hr₁ hI₁
      (fun _ _ hc => hc.1) hfirst fun hok hcomp hI hk hc => hc.parentKept hI
        (hok.2.1.change hcomp) hok.2.2.notStarted hok.2.2.notAborted hk).2
    rw [(hrole' n).1, (hrole' n).2, hread' n]
    exact hk.resolve_left hnot
  -- the other blocks of the transaction
  have hothers : ∀ {n}, ¬ s₁.Owns id n → (s'.role n).owner = some id →
      (s'.role n).parent = .null := by
    intro n hown hown'
    have hopen₁ : s₁.isOpen id = true := by
      simp [hstart.transactionHash, hstart.isOpen]
    have hk := (run_keeps (P := fun c => NotParent c id n) hr₁ hI₁ (fun _ _ hc => hc.1)
      (.inr ⟨hopen₁, fun ho => absurd ho hown⟩) fun hok _ hI hk hc =>
        (hc.roleChange hI).notParent hI.owners hok.2.2.notStarted hok.2.2.notAborted hk).2
    have howns : s₂.Owns id n := by
      rw [BlockCache.Owns, ← (hrole' n).1]
      exact hown'
    rw [(hrole' n).2]
    exact (hk.resolve_left hnot).2 howns
  -- the blocks that were fetched in the sub-transaction
  have hinSub : ∀ {s c n cleared}, (s, c) ∈ h₁ → c.Fetches n (some id) cleared →
      (s'.role n).owner = some id ∧ (s'.role n).parent ≠ .current := by
    intro s c n cleared hmem hf
    obtain ⟨hpre, hpost, sb, -, hra, hoka, hsa, hrb⟩ := hr₁.split hmem
    obtain ⟨hIa, -⟩ := run_keeps (P := fun _ => True) hra hI₁ (fun _ _ hc => hc.1) trivial
      fun _ _ _ _ _ => trivial
    have hk := (run_keeps (P := fun c => InSub c id n) hrb (inv_step hIa hoka.1 hsa)
      (fun _ _ hc => hc.1) (inSub_of_fetch hIa hoka.1 hf hsa) fun hok _ hI hk hc =>
        (hc.roleChange hI).inSub hI.owners hok.2.2.notStarted hk).2
    rw [(hrole' n).1, (hrole' n).2]
    exact hk.resolve_left hnot
  have hover₃ : Over s₃ id := by
    refine over_of_closed hI'.owners (by rw [hdet.transaction]; simp) ?_
      (by rw [hdet.nextTransactionId]; exact Nat.le_succ _)
    simp [hdet.closed hI'.owners]
  refine ⟨⟨fun n hown => ?_, fun i s₅ n d hs₅ hlog hp => ?_⟩,
    fun s c n cleared hmem hf => ⟨?_, ?_⟩, fun s₅ hok₅ hs₅ s c n cleared hmem hf hown => ?_⟩
  · obtain ⟨hown', hpar⟩ := hparent hown
    rw [hdet.mapped.role n, if_pos hown']
    rcases hpar with ⟨hp, -⟩ | hp <;> simp [BlockRole.detached, hp]
  · -- a block that is to be written for the transaction was changed by its parent part
    have hp₃ : (s₃.role n).previous = some id :=
      ((run_keeps (P := fun c => Over c id ∧ ((c.role n).previous = some id →
          (s₃.role n).previous = some id)) hr₂ hI₃ (fun _ _ hc => hc.1) ⟨hover₃, fun h => h⟩
        fun _ _ hI hk hc => ⟨(hc.roleChange hI).over hk.1,
          fun hp => hk.2 ((hc.roleChange hI).previous hk.1 hp)⟩).2).2 hp
    have hown' : (s'.role n).owner = some id := by
      by_contra hne
      rw [(hdet.mapped.other hne).1] at hp₃
      exact hI'.owners.previous_ne_of_isOpen hcl.isOpen n hp₃
    have hown : s₁.Owns id n := by
      by_contra hne
      rw [hdet.mapped.role n, if_pos hown', BlockRole.detached, hothers hne hown'] at hp₃
      simp [hwritten hown'] at hp₃
    refine ⟨hown, ?_⟩
    have hfirst : PendingData s₃ id n (s₁.readBack n) := by
      refine ⟨hover₃, fun _ => ?_⟩
      rw [hdet.mapped.role n, if_pos hown', hdet.readBack n]
      rcases (hparent hown).2 with ⟨hpar, hd⟩ | hpar
      · simp [BlockRole.detached, hpar, hd]
      · simp [BlockRole.detached, hpar]
    have hk := (run_keeps (P := fun c => PendingData c id n (s₁.readBack n)) hr₂ hI₃
      (fun _ _ hc => hc.1) hfirst fun hok hcomp hI hk hc =>
        hc.pendingData hI (hok.2.change hcomp) hk).2
    rw [writeNext_data hs₅ hlog (by rw [hp]; simp)]
    exact hk.2 hp
  · obtain ⟨hown', hpar⟩ := hinSub hmem hf
    rw [BlockCache.Owns, hdet.mapped.role n, if_pos hown', ← hnext']
    cases hp : (s'.role n).parent with
    | null => simp [BlockRole.detached, hp]
    | copy e => simp [BlockRole.detached, hp]
    | current => exact absurd hp hpar
  · rw [hdet.readBack n, hread' n]
  · obtain ⟨hown', hpar⟩ := hinSub hmem hf
    have hcopy := (hparent hown).2.resolve_left fun hp => hpar hp.1
    have hsaved : Saved s₃ s₂.nextTransactionId n (s₁.readBack n) := by
      refine .inr ?_
      rw [BlockCache.Owns, hdet.mapped.role n, if_pos hown', ← hnext']
      simp [BlockRole.detached, hcopy]
    have hI₄ := (run_keeps (P := fun _ => True) hr₂ hI₃ (fun _ _ hc => hc.1) trivial
      fun _ _ _ _ _ => trivial).1
    have hsaved₄ := saved_run hI₃ (hr₂.mono fun _ _ hc => hc.1) hsaved
    obtain ⟨t', ha⟩ := aborted_of_call hI₄.owners hI₄.busy hok₅.caller hs₅
    have hopen₄ : s₄.isOpen s₂.nextTransactionId = true := hok₅.caller
    obtain ⟨hown₄, horig⟩ := hsaved₄.resolve_left fun hover =>
      Bool.false_ne_true (hover.notOpen.symm.trans hopen₄)
    rw [ha.readBack n, horig]
    exact if_pos hown₄

omit [Zero D] in
lemma OnlyIn.subPart (h : OnlyIn id c) : Separate s c ∧ SubPart id c := by
  refine ⟨⟨fun n d hc => ?_, fun n hc => ?_⟩, h.notStarted, (h.notAborted id).2⟩
  · have := h.edited none n d hc
    simp at this
  · have := h.cleared n none hc
    simp at this

/-- The cache before transaction 1 starts a sub-transaction; its parent part has stored a 5 into
block 0, or has not fetched the block. -/
def beforeSub (parent : Bool) : BlockCache ℕ :=
  outcome step sevens (if parent then storeFive false else [.startTransaction])

/-- The sub-transaction fetches block 0 and stores a 9 into it. -/
def storeNineInSub : List (Call ℕ) := [.getWritable .plenty 0 (some 1) false, .edit (some 1) 0 9]

def nineInSub (parent : Bool) : BlockCache ℕ :=
  outcome step (outcome step (beforeSub parent) [.startSubTransaction 1]) storeNineInSub

/-- The cache after the sub-transaction was detached. -/
def nineDetached (parent : Bool) : BlockCache ℕ :=
  outcome step (nineInSub parent) [.detachSubTransaction 1]

lemma run_storeNineInSub (parent : Bool) : ∃ h₀ h₁ s, Run step Ok sevens h₀ (beforeSub parent) ∧
    Run step (fun s c => Ok s c ∧ OnlyIn 1 c)
      (outcome step (beforeSub parent) [.startSubTransaction 1]) h₁ (nineInSub parent) ∧
    (s, .getWritable .plenty 0 (some 1) false) ∈ h₁ := by
  obtain ⟨h₀, hr₀, -⟩ := run_outcome step ok_of_check sevens
    (if parent then storeFive false else [.startTransaction]) (fun _ => true)
    (by cases parent <;> decide)
  have hcheck : ∀ (s : BlockCache ℕ) c, (checkOk s c && checkOnlyIn 1 c) = true →
      Ok s c ∧ OnlyIn 1 c := by
    intro s c hc
    rw [Bool.and_eq_true] at hc
    exact ⟨ok_of_check s c hc.1, onlyIn_of_check c hc.2⟩
  obtain ⟨h₁, hr₁, hp⟩ := run_outcome step hcheck
    (outcome step (beforeSub parent) [.startSubTransaction 1]) storeNineInSub
    (fun h => h.any fun e => decide (e.2 = .getWritable .plenty 0 (some 1) false))
    (by cases parent <;> decide)
  obtain ⟨⟨s, c⟩, hmem, hc⟩ := List.any_eq_true.1 hp
  rw [decide_eq_true_eq] at hc
  exact ⟨h₀, h₁, s, hr₀, hr₁, hc ▸ hmem⟩

/-- With the parent part's 5, the block is to be written with the 5 for transaction 1, belongs to
transaction 2 with the 9, and an abort of transaction 2 makes it read back as 5. -/
theorem detach_splits_five : ((nineDetached true).role 0).previous = some 1 ∧
    (nineDetached true).Owns 2 0 ∧ (nineDetached true).readBack 0 = 9 ∧
      (outcome step (nineDetached true) [.abortTransaction 2]).readBack 0 = 5 := by
  obtain ⟨h₀, h₁, s, hr₀, hr₁, hmem⟩ := run_storeNineInSub true
  have hok₀ : Ok (beforeSub true) (.startSubTransaction 1) := ok_of_check _ _ (by decide)
  have hok₂ : Ok (nineInSub true) (.detachSubTransaction 1) := ok_of_check _ _ (by decide)
  have hs₀ : step (beforeSub true) (.startSubTransaction 1)
      = some (outcome step (beforeSub true) [.startSubTransaction 1]) :=
    step_outcome (by decide)
  have hs₂ : step (nineInSub true) (.detachSubTransaction 1) = some (nineDetached true) :=
    step_outcome (by decide)
  have hown : (outcome step (beforeSub true) [.startSubTransaction 1]).Owns 1 0 := by
    unfold BlockCache.Owns
    decide
  obtain ⟨⟨hprev, -⟩, hmoved, habort⟩ := detach_splits hr₀ hok₀ hs₀
    (hr₁.mono fun _ _ hc => ⟨hc.1, hc.2.subPart⟩) hok₂ hs₂ (.inl ⟨rfl, by decide⟩) .nil
  obtain ⟨hown₂, hread₂⟩ := hmoved s _ 0 false hmem (.inl ⟨_, rfl⟩)
  have hnext : (nineInSub true).nextTransactionId = 2 := by decide
  rw [hnext] at hown₂ habort
  have hnine : (nineInSub true).readBack 0 = 9 := by decide
  have hfive : (outcome step (beforeSub true) [.startSubTransaction 1]).readBack 0 = 5 := by
    decide
  refine ⟨hprev 0 hown, hown₂, hread₂.trans hnine, ?_⟩
  rw [← hfive]
  exact habort _ (ok_of_check _ _ (by decide)) (step_outcome (by decide)) s _ 0 false
    hmem (.inl ⟨_, rfl⟩) hown

/-- A block that only the sub-transaction has changed keeps its contents when the new transaction
is aborted: it reads back as 9 afterwards, and read back as 7 when the sub-transaction was
started. -/
theorem detach_loses_original : ¬ ∀ (device : BlockNumber → ℕ) (maxBlocks : ℕ) (readOnly : Bool)
    (h₀ h₁ : History (BlockCache ℕ) (Call ℕ)) (s₀ s₁ s₂ s₃ s₄ : BlockCache ℕ)
    (id : TransactionId),
    Run step callerOk (BlockCache.create device maxBlocks readOnly) h₀ s₀ →
      s₀.isOpen id = true → step s₀ (.startSubTransaction id) = some s₁ →
      Run step (fun s c => callerOk s c ∧ OnlyIn id c) s₁ h₁ s₂ → s₂.isOpen id = true →
      step s₂ (.detachSubTransaction id) = some s₃ → s₃.isOpen id = false →
      step s₃ (.abortTransaction s₂.nextTransactionId) = some s₄ →
      ∀ s c n cleared, (s, c) ∈ h₁ → c.Fetches n (some id) cleared →
        s₄.readBack n = s₁.readBack n := by
  intro hclaim
  obtain ⟨h₀, h₁, s, hr₀, hr₁, hmem⟩ := run_storeNineInSub false
  have := hclaim _ _ _ h₀ h₁ _ _ _ (nineDetached false)
    (outcome step (nineDetached false) [.abortTransaction 2]) 1 (hr₀.mono fun _ _ hc => hc.caller)
    (by decide) (step_outcome (by decide))
    (hr₁.mono fun _ _ hc => ⟨hc.1.caller, hc.2⟩) (by decide)
    (step_outcome (by decide)) (by decide) ?_ s _ 0 false hmem (.inl ⟨_, rfl⟩)
  · revert this
    decide
  · have hnext : (nineInSub false).nextTransactionId = 2 := by decide
    rw [hnext]
    exact step_outcome (by decide)

end Haiku.Cache
