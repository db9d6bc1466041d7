import Haiku.Cache.SystemTheorems

/-!
# Contents in the cache and on the device

A block that is not dirty holds what is stored on the device (`Clean`), so that evicting it
loses nothing. The invariant rests on a condition on the callers: a block that was checked
out for writing without a transaction is not changed after it has been written back
(`EditsDirty`). With it, only storing into a block, clearing it and aborting a
transaction change what the blocks read back as.
-/

namespace Haiku.Cache

open Function Lib

variable {D : Type}

/-- A block that is edited without a transaction is dirty, and is not being written back. -/
def EditsDirty (s : BlockCache D) (c : Call D) : Prop :=
  ∀ n d b, c = .edit none n d → s.hash n = some b → b.isDirty = true ∧ b.busyWriting = false

structure Clean (s : BlockCache D) : Prop where
  clean : ∀ n b, s.hash n = some b → b.isDirty = false → b.currentData = s.device n
  /-- The blocks of transactions and those that are being written are dirty. -/
  dirty : ∀ n b, s.hash n = some b →
    b.transaction ≠ none ∨ b.previousTransaction ≠ none ∨ b.busyWriting = true → b.isDirty = true
  /-- A block that has been written, but is not finished yet. -/
  done : ∀ w ∈ s.writers, ∀ n ∈ w.done, ∀ b, s.hash n = some b → b.dataIsCurrent = true →
    b.currentData = s.device n

lemma clean_create (device : BlockNumber → D) (maxBlocks : ℕ) (readOnly : Bool) :
    Clean (BlockCache.create device maxBlocks readOnly) where
  clean := by simp
  dirty := by simp
  done := by simp

variable {s : BlockCache D} {n : BlockNumber}

lemma Busy.of_done (h : Busy s []) {w : BlockWriter} (hw : w ∈ s.writers) (hn : n ∈ w.done) :
    ∃ b, s.hash n = some b ∧ b.busyWriting = true := by
  refine (h.busy_iff n).1 (List.mem_append_right _ (List.mem_flatMap.2 ⟨w, hw, ?_⟩))
  exact List.mem_append_right _ hn

variable {b : CachedBlock D}

lemma Inv.original_of_busy (h : Inv s) (hb : s.hash n = some b) (hbusy : b.busyWriting = true)
    (hown : b.transaction ≠ none) : b.dataIsCurrent = false := by
  have hrole := role_of_cached hb
  have hprev := h.busy.role n ((h.busy.busy_iff n).2 ⟨b, hb, hbusy⟩) (by rw [hrole]; exact hown)
  have horig := h.owners.both n (by rw [hrole]; exact hown) hprev
  rw [hrole] at hprev horig
  simp only [roleOf] at hprev horig
  rw [CachedBlock.dataIsCurrent, Bool.or_eq_false_iff]
  exact ⟨by simpa [Option.isSome_iff_ne_none] using hprev,
    by simpa [Option.isSome_iff_ne_none] using horig⟩

variable {b' : CachedBlock D}

lemma dataIsCurrent_of_role (h : roleOf (some b) = roleOf (some b')) :
    b.dataIsCurrent = b'.dataIsCurrent := by
  simp only [roleOf, BlockRole.mk.injEq] at h
  rw [CachedBlock.dataIsCurrent, CachedBlock.dataIsCurrent, h.1, h.2.2.2]

/-! ## Changes of a single block -/

variable {s' : BlockCache D}

lemma Clean.others (h : Clean s) (hb : Busy s []) (hdev : s'.device = s.device)
    (hw : s'.writers = s.writers) (hn : s'.hash n = some b)
    (hothers : ∀ m, m ≠ n → s'.hash m = s.hash m ∨ s'.hash m = none ∧
      ∃ c, s.hash m = some c ∧ c.unused = true ∧ c.isDirty = false)
    (hclean : b.isDirty = false → b.currentData = s.device n)
    (hdirty : b.transaction ≠ none ∨ b.previousTransaction ≠ none ∨ b.busyWriting = true →
      b.isDirty = true)
    (hdone : (∃ c, s.hash n = some c ∧ c.busyWriting = true) → b.dataIsCurrent = true →
      ∃ c, s.hash n = some c ∧ c.dataIsCurrent = true ∧ c.currentData = b.currentData) :
    Clean s' where
  clean m c hm hd := by
    by_cases hmn : m = n
    · subst hmn
      rw [hn] at hm
      cases hm
      rw [hdev]
      exact hclean hd
    · rcases hothers m hmn with he | ⟨he, -⟩
      · rw [hdev]
        exact h.clean m c (he ▸ hm) hd
      · rw [he] at hm
        cases hm
  dirty m c hm hor := by
    by_cases hmn : m = n
    · subst hmn
      rw [hn] at hm
      cases hm
      exact hdirty hor
    · rcases hothers m hmn with he | ⟨he, -⟩
      · exact h.dirty m c (he ▸ hm) hor
      · rw [he] at hm
        cases hm
  done w hwm m hmw c hm hcur := by
    rw [hw] at hwm
    rw [hdev]
    by_cases hmn : m = n
    · subst hmn
      rw [hn] at hm
      cases hm
      obtain ⟨c', hc', hcur', he⟩ := hdone (hb.of_done hwm hmw) hcur
      rw [← he]
      exact h.done w hwm m hmw c' hc' hcur'
    · rcases hothers m hmn with he | ⟨he, -⟩
      · exact h.done w hwm m hmw c (he ▸ hm) hcur
      · rw [he] at hm
        cases hm

variable {id : TransactionId}

lemma Mapped.clean {f : CachedBlock D → CachedBlock D} {g : BlockRole D → BlockRole D}
    (hm : Mapped s s' id f g) (h : Clean s)
    (hidle : ∀ w ∈ s.writers, ∀ n ∈ w.done, (s.role n).owner ≠ some id) : Clean s' where
  clean n c hn hd := by
    rw [hm.device]
    obtain ⟨b, hb, ⟨rfl, -⟩ | ⟨rfl, htr⟩⟩ := hm.cached hn
    · exact h.clean n c hb hd
    · -- the blocks of the transaction are dirty
      rw [(hm.keeps b).2.2.2.1, h.dirty n b hb (.inl (by rw [htr]; simp))] at hd
      cases hd
  dirty n c hn hor := by
    obtain ⟨b, hb, ⟨rfl, -⟩ | ⟨rfl, htr⟩⟩ := hm.cached hn
    · exact h.dirty n c hb hor
    · rw [(hm.keeps b).2.2.2.1]
      exact h.dirty n b hb (.inl (by rw [htr]; simp))
  done w hw n hnw c hn hcur := by
    rw [hm.writers] at hw
    rw [hm.device]
    obtain ⟨b, hb, ⟨rfl, -⟩ | ⟨-, htr⟩⟩ := hm.cached hn
    · exact h.done w hw n hnw c hb hcur
    · refine absurd ?_ (hidle w hw n hnw)
      rw [role_of_cached hb]
      exact htr

lemma Clean.set (h : Clean s) (hb : Busy s [])
    (hh : s'.hash = update s.hash n (some b')) (hdev : s'.device = s.device)
    (hw : s'.writers = s.writers) (hn : s.hash n = some b) (hcur : b'.currentData = b.currentData)
    (hdirty : b'.isDirty = b.isDirty) (hbusy : b'.busyWriting = b.busyWriting)
    (hrole : roleOf (some b') = roleOf (some b)) : Clean s' := by
  have hr := hrole
  simp only [roleOf, BlockRole.mk.injEq] at hr
  refine h.others hb hdev hw (n := n) (b := b') (by rw [hh, update_self])
    (fun m hm => .inl (by rw [hh, update_of_ne hm])) (fun hd => ?_) (fun hor => ?_)
    (fun _ hc => ⟨b, hn, ?_, hcur.symm⟩)
  · rw [hcur]
    exact h.clean n b hn (hdirty ▸ hd)
  · rw [hdirty]
    rw [hr.2.2.1, hr.2.2.2, hbusy] at hor
    exact h.dirty n b hn hor
  · rw [← dataIsCurrent_of_role hrole]
    exact hc

lemma Fetched.clean {allocated : Bool} (hF : Fetched s s' n allocated b) (h : Clean s)
    (hI : Inv s) (hdata : s.hash n = none → b.currentData = s.device n) : Clean s' := by
  have hrole : roleOf (some b) = s.role n := by rw [← role_of_cached hF.cached, hF.role]
  refine h.others hI.busy hF.device hF.writers hF.cached hF.others (fun hd => ?_) (fun hor => ?_)
    (fun hbusy hcur => ?_)
  · cases hn : s.hash n with
    | none => exact hdata hn
    | some c =>
      obtain ⟨hcur, hdirty, -, -⟩ := hF.same c hn
      rw [hcur]
      exact h.clean n c hn (hdirty ▸ hd)
  · cases hn : s.hash n with
    | none =>
      -- a block that was not cached belongs to no transaction
      rw [role_of_not_cached hn] at hrole
      simp only [roleOf, BlockRole.mk.injEq] at hrole
      simp [hrole.2.2.1, hrole.2.2.2, (hF.fresh hn).2.2] at hor
    | some c =>
      obtain ⟨-, hdirty, -, hbw⟩ := hF.same c hn
      rw [role_of_cached hn] at hrole
      simp only [roleOf, BlockRole.mk.injEq] at hrole
      rw [hrole.2.2.1, hrole.2.2.2, hbw] at hor
      rw [hdirty]
      exact h.dirty n c hn hor
  · obtain ⟨c, hc, -⟩ := hbusy
    refine ⟨c, hc, ?_, (hF.same c hc).1.symm⟩
    rw [← dataIsCurrent_of_role (hrole.trans (role_of_cached hc))]
    exact hcur

/-! ## What blocks read back as -/

lemma Clean.readBack (h : Clean s) (hdev : s'.device = s.device)
    (hn : s'.hash n = s.hash n ∨ s'.hash n = none ∧
      ∃ c, s.hash n = some c ∧ c.unused = true ∧ c.isDirty = false) :
    s'.readBack n = s.readBack n := by
  rcases hn with he | ⟨he, c, hc, -, hd⟩
  · rw [BlockCache.readBack, he, hdev]
    rfl
  · rw [readBack_of_not_cached he, readBack_of_cached hc, hdev, h.clean n c hc hd]

lemma readBack_set (hh : s'.hash = update s.hash n (some b'))
    (hdev : s'.device = s.device) (hn : s.hash n = some b) (hcur : b'.currentData = b.currentData)
    (m : BlockNumber) : s'.readBack m = s.readBack m := by
  unfold BlockCache.readBack
  rw [hh, hdev]
  by_cases hm : m = n
  · subst hm
    simp [hn, hcur]
  · simp [hm]

lemma put_readBack (ho : Owners s) (hs : s.putCachedBlock n = some s') (m : BlockNumber) :
    s'.readBack m = s.readBack m := by
  rcases put_cases ho hs with ⟨rfl, -⟩ | ⟨b, hb, -, ⟨-, -, -, he⟩ | ⟨-, he⟩⟩
  · rfl
  all_goals
    have hdev : s'.device = s.device := by rw [he]; rfl
    exact readBack_set (congrArg BlockCache.hash he) hdev hb rfl m

lemma Fetched.readBack {allocated : Bool} (hF : Fetched s s' n allocated b) (h : Clean s)
    (hdata : s.hash n = none → b.currentData = s.device n) (m : BlockNumber) :
    s'.readBack m = s.readBack m := by
  by_cases hm : m = n
  · subst hm
    rw [readBack_of_cached hF.cached]
    cases hn : s.hash m with
    | none => rw [hdata hn, readBack_of_not_cached hn]
    | some c => rw [(hF.same c hn).1, readBack_of_cached hn]
  · exact h.readBack hF.device (hF.others m hm)

lemma addAll_readBack (s : BlockCache D) (ns : List BlockNumber) (m : BlockNumber) :
    (s.addAll ns).readBack m = s.readBack m := by
  unfold BlockCache.readBack
  rw [addAll_hash, (addAll_rest ns s).2.1]
  split
  · cases s.hash m <;> rfl
  · rfl

lemma writeNext_readBack {i : ℕ} (hs : s.writeNext i = some s') (m : BlockNumber) :
    s'.readBack m = s.readBack m := by
  unfold BlockCache.writeNext at hs
  split at hs
  · split at hs
    · simp at hs
    · rename_i b hb
      cases hs
      unfold BlockCache.readBack BlockCache.writeData
      rename_i n _ _ _ _ _
      by_cases hm : m = n
      · subst hm
        simp [hb]
      · simp [hm]
  · simp at hs

lemma Mapped.readBack {f : CachedBlock D → CachedBlock D} {g : BlockRole D → BlockRole D}
    (hm : Mapped s s' id f g) (hf : ∀ b, (f b).currentData = b.currentData) (n : BlockNumber) :
    s'.readBack n = s.readBack n := by
  unfold BlockCache.readBack
  rw [hm.hash n, hm.device]
  split
  · cases s.hash n with
    | none => rfl
    | some b => exact hf b
  · rfl

variable {t : CacheTransaction}

lemma Ended.readBack (h : Ended s s' id t) (n : BlockNumber) : s'.readBack n = s.readBack n :=
  h.mapped.readBack (fun b => by unfold CachedBlock.ended; split <;> rfl) n

lemma Detached.readBack (h : Detached s s' id t) (n : BlockNumber) :
    s'.readBack n = s.readBack n :=
  h.mapped.readBack (fun b => by
    unfold CachedBlock.detached
    split
    · rfl
    · split <;> rfl) n

lemma SubStarted.readBack (h : SubStarted s s' id t) (n : BlockNumber) :
    s'.readBack n = s.readBack n :=
  h.mapped.readBack (fun b => by unfold CachedBlock.subStarted; split <;> rfl) n

lemma start_fields (hs : s.cacheStartTransaction = some s') :
    s'.hash = s.hash ∧ s'.device = s.device ∧ s'.writers = s.writers ∧ s'.written = s.written ∧
      s'.notified = s.notified ∧ s'.nextTransactionId = s.nextTransactionId + 1 ∧
      s'.transactionHash = update s.transactionHash s.nextTransactionId (some .new) := by
  unfold BlockCache.cacheStartTransaction at hs
  split at hs
  · simp at hs
  split at hs
  · simp at hs
  cases hs
  exact ⟨rfl, rfl, rfl, rfl, rfl, rfl, rfl⟩

variable [Zero D]

lemma WritableIn.readBack {cleared : Bool} (hw : WritableIn s s' n id cleared t b) (h : Clean s)
    (m : BlockNumber) : s'.readBack m = if m = n ∧ cleared = true then 0 else s.readBack m := by
  by_cases hm : m = n
  · subst hm
    rw [readBack_of_cached hw.cached, hw.contents]
    simp
  · rw [h.readBack hw.touched.device (hw.touched.others m hm)]
    simp [hm]

lemma WritableWithout.readBack {cleared : Bool} (hw : WritableWithout s s' n cleared b)
    (h : Clean s) (m : BlockNumber) :
    s'.readBack m = if m = n ∧ cleared = true then 0 else s.readBack m := by
  by_cases hm : m = n
  · subst hm
    rw [readBack_of_cached hw.cached, hw.contents]
    simp
  · rw [h.readBack hw.device (hw.others m hm)]
    simp [hm]

/-! ## All changes keep the dirty flags right -/

variable {c : Call D}

lemma Change.clean (hc : Change s c s') (hI : Inv s) (he : EditsDirty s c) (h : Clean s) :
    Clean s' := by
  -- the blocks of a transaction are not being written when it is closed
  have hidle : ∀ {id}, Closable s id → ∀ w ∈ s.writers, ∀ n ∈ w.done,
      (s.role n).owner ≠ some id := by
    intro id hcl w hw n hn hown
    obtain ⟨b, hb, hbusy⟩ := hI.busy.of_done hw hn
    exact hI.busy.role n ((hI.busy.busy_iff n).2 ⟨b, hb, hbusy⟩) (by rw [hown]; simp)
      (hcl.written n ((hI.owners.open_iff n id).2 hown))
  cases hc with
  | same => exact h
  | evict hev =>
    have hr := hev.sameRest hI
    have hold : ∀ {n b}, s'.hash n = some b → s.hash n = some b := by
      intro n b hn
      rcases hr.hash n with h' | ⟨h', -⟩
      · exact h' ▸ hn
      · simp [h'] at hn
    refine ⟨fun n b hn => ?_, fun n b hn => h.dirty n b (hold hn), fun w hw n hnw b hn => ?_⟩
    · rw [hr.device]
      exact h.clean n b (hold hn)
    · rw [hr.device]
      exact h.done w (hr.writers ▸ hw) n hnw b (hold hn)
  | fetch hF hdata => exact hF.clean h hI hdata
  | put hp =>
    rcases put_cases hI.owners hp with ⟨rfl, -⟩ | ⟨b, hb, -, ⟨-, -, -, rfl⟩ | ⟨-, rfl⟩⟩
    · exact h
    · exact h.set hI.busy rfl rfl rfl hb rfl rfl rfl rfl
    · exact h.set hI.busy rfl rfl rfl hb rfl rfl rfl rfl
  | touch _ _ hw =>
    have hT := hw.touched
    refine h.others hI.busy hT.device hT.writers hw.cached hT.others (fun hd => ?_)
      (fun _ => hw.isDirty) (fun hbusy _ => ?_)
    · rw [hw.isDirty] at hd
      simp at hd
    · obtain ⟨c', hc', hbw⟩ := hbusy
      rw [hT.notBusy c' hc'] at hbw
      simp at hbw
  | dirty _ hw =>
    refine h.others hI.busy hw.device hw.writers hw.cached hw.others (fun hd => ?_)
      (fun _ => hw.isDirty) (fun hbusy _ => ?_)
    · rw [hw.isDirty] at hd
      simp at hd
    · obtain ⟨c', hc', hbw⟩ := hbusy
      rw [hw.notBusy c' hc'] at hbw
      simp at hbw
  | @edit id n d b hb hed _ =>
    -- the block is dirty, and what is written of it is not what is edited
    have hdirty : b.isDirty = true := by
      cases id with
      | none => exact (he n d b rfl hb).1
      | some id =>
        refine h.dirty n b hb (.inl ?_)
        simp only [BlockCache.isEditable, hb, Option.any_some, Bool.and_eq_true,
          decide_eq_true_eq] at hed
        simp [hed.2.1]
    refine h.others hI.busy rfl rfl (n := n) (b := { b with currentData := d }) (by simp)
      (fun m hm => .inl (by simp [hm])) (fun hd => ?_) (fun _ => hdirty) (fun hbusy hcur => ?_)
    · rw [hdirty] at hd
      simp at hd
    · obtain ⟨c', hc', hbw⟩ := hbusy
      rw [hb] at hc'
      cases hc'
      cases id with
      | none =>
        rw [(he n d b rfl hb).2] at hbw
        simp at hbw
      | some id =>
        simp only [BlockCache.isEditable, hb, Option.any_some, Bool.and_eq_true,
          decide_eq_true_eq] at hed
        have := hI.original_of_busy hb hbw (by rw [hed.2.1]; simp)
        rw [show ({ b with currentData := d } : CachedBlock D).dataIsCurrent = b.dataIsCurrent
          from rfl, this] at hcur
        simp at hcur
  | start hs =>
    obtain ⟨hh, hdev, hws, -⟩ := start_fields hs
    refine ⟨?_, ?_, ?_⟩
    · rw [hh, hdev]
      exact h.clean
    · rw [hh]
      exact h.dirty
    · rw [hh, hdev, hws]
      exact h.done
  | abort ha => exact ha.mapped.clean h (by simp [ha.idle])
  | subStart hs => exact hs.mapped.clean h (by simp [hs.idle])
  | subAbort hs => exact hs.mapped.clean h (by simp [hs.idle])
  | ended hend hcl => exact hend.mapped.clean h (hidle hcl)
  | detached hd hcl _ => exact hd.mapped.clean h (hidle hcl)
  | @mark _ ns next hns _ _ _ _ =>
    obtain ⟨-, hdev, -, -, hws, -, -, -⟩ := addAll_rest ns s
    refine ⟨fun n b hn hd => ?_, fun n b hn hor => ?_, fun w hw n hnw b hn hcur => ?_⟩
    · obtain ⟨c', hc', rfl⟩ := addAll_cached hn
      show c'.currentData = (s.addAll ns).device n
      rw [hdev]
      exact h.clean n c' hc' hd
    · obtain ⟨c', hc', rfl⟩ := addAll_cached hn
      show c'.isDirty = true
      by_cases hmem : n ∈ ns
      · obtain ⟨b', hb', -, hp⟩ := hns.cached n hmem
        rw [hc'] at hb'
        cases hb'
        by_cases hprev : c'.previousTransaction = none
        · exact (hp hprev).2
        · exact h.dirty n c' hc' (.inr (.inl hprev))
      · exact h.dirty n c' hc' (by simpa [hmem] using hor)
    · obtain ⟨c', hc', rfl⟩ := addAll_cached hn
      have hw' : w ∈ s.writers := by
        rw [hws] at hw
        rcases List.mem_append.1 hw with hw | hw
        · exact hw
        · rw [List.mem_singleton] at hw
          subst hw
          simp at hnw
      show c'.currentData = (s.addAll ns).device n
      rw [hdev]
      exact h.done w hw' n hnw c' hc' hcur
  | write hw =>
    unfold BlockCache.writeNext at hw
    split at hw
    · rename_i n pending done next hwr
      split at hw
      · simp at hw
      rename_i b hb
      cases hw
      have hbusy : b.busyWriting = true := by
        obtain ⟨b', hb', hbw⟩ := (hI.busy.busy_iff n).1 (by
          refine List.mem_append_right _ (List.mem_flatMap.2 ⟨_, List.mem_of_getElem? hwr, ?_⟩)
          simp [BlockWriter.blocks])
        rw [hb] at hb'
        cases hb'
        exact hbw
      have hcurrent : ∀ c', s.hash n = some c' → c'.dataIsCurrent = true →
          c'.currentData = b.data := by
        intro c' hc' hcur
        rw [hb] at hc'
        cases hc'
        simp only [CachedBlock.dataIsCurrent, Bool.or_eq_true, Option.isNone_iff_eq_none] at hcur
        unfold CachedBlock.data
        rcases hcur with hcur | hcur <;> simp [hcur]
      refine ⟨fun m c' hm hd => ?_, h.dirty, fun w hw m hmw c' hm hcur => ?_⟩
      · have hmn : m ≠ n := by
          rintro rfl
          rw [h.dirty m c' hm (.inr (.inr (by
            rw [show s.hash m = some c' from hm] at hb; cases hb; exact hbusy)))] at hd
          simp at hd
        show c'.currentData = update s.device n b.data m
        rw [update_of_ne hmn]
        exact h.clean m c' hm hd
      · show c'.currentData = update s.device n b.data m
        by_cases hmn : m = n
        · subst hmn
          rw [update_self]
          exact hcurrent c' hm hcur
        · rw [update_of_ne hmn]
          rcases List.mem_or_eq_of_mem_set hw with hw | rfl
          · exact h.done w hw m hmw c' hm hcur
          · have hmd : m ∈ done := by simpa [hmn] using hmw
            exact h.done _ (List.mem_of_getElem? hwr) m hmd c' hm hcur
    · simp at hw
  | @finish i w hwr hp ha =>
    have hfin := finished_of_writer hI.owners hI.counts hI.unused hI.busy hwr hp ha
    have hwm : w ∈ s.writers := List.mem_of_getElem? hwr
    have hI' := Change.inv (.finish hwr hp ha) hI
    refine ⟨fun n c' hn hd => ?_, fun n c' hn hor => ?_, fun w' hw' n hnw c' hn hcur => ?_⟩
    · rw [hfin.device]
      rw [hfin.hash n] at hn
      split at hn
      · rename_i hmem
        obtain ⟨b, hb, rfl⟩ := Option.map_eq_some_iff.1 hn
        cases hcur : b.dataIsCurrent with
        | true => exact h.done w hwm n hmem b hb hcur
        | false =>
          refine h.clean n b hb ?_
          simpa [hcur] using hd
      · exact h.clean n c' hn hd
    · rw [hfin.hash n] at hn
      split at hn
      · rename_i hmem
        obtain ⟨b, hb, rfl⟩ := Option.map_eq_some_iff.1 hn
        obtain ⟨b', hb', hbusy⟩ := hI.busy.of_done hwm hmem
        rw [hb] at hb'
        cases hb'
        have hown : b.transaction ≠ none := by simpa using hor
        have hcur := hI.original_of_busy hb hbusy hown
        simp [hcur, h.dirty n b hb (.inl hown)]
      · exact h.dirty n c' hn hor
    · rw [hfin.device]
      have hw'' : w' ∈ s.writers := by
        rw [hfin.writers] at hw'
        exact List.mem_of_mem_eraseIdx hw'
      -- a block is being written by one writer only
      obtain ⟨b', hb', hbusy⟩ := hI'.busy.of_done hw' hnw
      rw [hn] at hb'
      cases hb'
      rw [hfin.hash n] at hn
      split at hn
      · obtain ⟨b, hb, rfl⟩ := Option.map_eq_some_iff.1 hn
        simp at hbusy
      · exact h.done w' hw'' n hnw c' hn hcur

/-- The conditions on a run in which evictions lose nothing. -/
structure OkClean (s : BlockCache D) (c : Call D) : Prop where
  ok : Ok s c
  edits : EditsDirty s c

/-- A check of `OkClean` that can be evaluated. -/
def checkClean (s : BlockCache D) (c : Call D) : Bool :=
  checkOk s c && match c with
    | .edit none _ _ => false
    | _ => true

omit [Zero D] in
lemma okClean_of_check (s : BlockCache D) (c : Call D) (h : checkClean s c = true) :
    OkClean s c := by
  unfold checkClean at h
  rw [Bool.and_eq_true] at h
  refine ⟨ok_of_check s c h.1, fun n d b hc => ?_⟩
  rw [hc] at h
  simp at h

omit [Zero D] in
lemma EditsDirty.change {s₁ : BlockCache D} (h : EditsDirty s c) (hs : s₁ = s ∨ c.Compound) :
    EditsDirty s₁ c := by
  rcases hs with rfl | ⟨m, n, id, rfl⟩ | ⟨i, rfl⟩
  · exact h
  · intro n d b hc
    simp at hc
  · intro n d b hc
    simp at hc

lemma clean_step (hI : Inv s) (hC : Clean s) (hok : OkClean s c) (hs : step s c = some s') :
    Clean s' :=
  step_keeps hI hok.ok hs hC fun hcomp h₁ hC₁ hc => hc.clean h₁ (hok.edits.change hcomp) hC₁

lemma clean_run {device : BlockNumber → D} {maxBlocks : ℕ} {readOnly : Bool}
    {h : History (BlockCache D) (Call D)}
    (hr : Run step OkClean (BlockCache.create device maxBlocks readOnly) h s) : Inv s ∧ Clean s :=
  hr.invariant (I := fun s => Inv s ∧ Clean s)
    ⟨inv_create device maxBlocks readOnly, clean_create device maxBlocks readOnly⟩
    fun hI hok hs => ⟨inv_step hI.1 hok.ok hs, clean_step hI.1 hI.2 hok hs⟩

end Haiku.Cache
