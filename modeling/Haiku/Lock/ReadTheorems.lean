import Haiku.Lock.ReadWriteInvariant

/-!
# Readers of a read-write lock

The steps of a reader keep the invariant, and so does `rw_lock_unblock()`.
-/

set_option linter.unusedSectionVars false

namespace Haiku.Lock

open Function Lib

variable {T : Type} [DecidableEq T] [Fintype T]
variable {lock lock' : RWLock T} {threads : T → Thread} {l : List T} {t u : T} {th : Thread}
  {held : List Mode}

attribute [simp] Thread.readers Thread.writers Thread.announced Thread.inside Thread.owned

/-! ## Taking a read lock -/

section

variable (hk : Kept lock threads l)
include hk

lemma Kept.readLock_fast (hx : threads t = ⟨held, .running⟩)
    (hfew : tally Thread.readers threads < 0xffff) (hnone : tally Thread.writers threads = 0) :
    Kept { lock with count := int32 (lock.count + 1) }
      (update threads t ⟨.read :: held, .running⟩) l := by
  have hnoholder := hk.holder_eq_none hnone
  have hw : .write ∉ held := by
    have := hk.no_write (t := t) (by simp [hnoholder])
    rwa [hx] at this
  have hfree := hk.free hnoholder hnone
  have hcount := hk.counted.count_eq
  obtain ⟨hr, hwr, ha, hi⟩ := tally_all threads t ⟨.read :: held, .running⟩
  simp [hx, hw] at hr hwr ha hi
  have hint : int32 (lock.count + 1) = lock.count + 1 := by
    apply int32_eq <;> omega
  refine hk.change rfl rfl rfl (hk.queue.notMem (by simp [hx]) (by simp [hx])) (by simp) (by simp)
    ?_ ?_ ?_ ?_ ?_ ?_
  · exact ⟨by simp [hw], by simp, by simp [List.count_eq_zero_of_not_mem hw]⟩
  · simp [hx, Thread.Owner]
  · exact ⟨by show int32 (lock.count + 1) = _; omega, by omega, by omega, by omega⟩
  · intro u hu
    cases hnoholder.symm.trans hu
  · intro _ _
    have hpending : lock.pendingReaders = _ := hfree.pending
    exact ⟨hfree.empty, hfree.active, by rw [ha]; exact hpending, hfree.pending_le,
      settled_update hfree.settled (by simp)⟩
  · intro _ hpos
    omega

lemma Kept.readLock_slow (hx : threads t = ⟨held, .running⟩)
    (hfew : tally Thread.readers threads < 0x7fff) (hsome : 0 < tally Thread.writers threads) :
    Kept { lock with count := int32 (lock.count + 1) }
      (update threads t ⟨held, .readAnnounced⟩) l := by
  have hcount := hk.counted.count_eq
  have hwriters := hk.counted.writers_le
  have hnot : t ∉ l := hk.queue.notMem (by simp [hx]) (by simp [hx])
  have hshape := hk.shaped t
  rw [hx] at hshape
  obtain ⟨hr, hwr, ha, hi⟩ := tally_all threads t ⟨held, .readAnnounced⟩
  simp [hx] at hr hwr ha hi
  have hint : int32 (lock.count + 1) = lock.count + 1 := by
    apply int32_eq <;> omega
  refine hk.change rfl rfl rfl hnot (by simp) (by simp) ?_ ?_ ?_ ?_ ?_ ?_
  · exact ⟨hshape.bottom, by simp, hshape.nested⟩
  · simp [hx, Thread.Owner]
  · exact ⟨by show int32 (lock.count + 1) = _; omega, by omega, by omega, by omega⟩
  · intro u hu
    have htaken := hk.taken u hu
    by_cases hut : t = u
    · subst hut
      have howner := htaken.owner (by simp [hx])
      rw [hx] at howner
      exact htaken.update_self rfl rfl fun _ => howner
    · have halone := htaken.alone t hut
      rw [hx] at halone
      exact htaken.update hut ⟨halone.1, by simp⟩ rfl rfl rfl
  · intro _ hzero
    omega
  · intro hnone _
    have haw := hk.awaited hnone hsome
    have hactive : lock.activeReaders = _ := haw.active
    have hpending : lock.pendingReaders ≤ _ := haw.pending_le
    exact ⟨first_update _ haw.first hnot, by rw [hi]; exact hactive, haw.pending, by
      rw [ha]; push_cast; omega, haw.total_le, haw.expected⟩

lemma Kept.readLock_owner (hx : threads t = ⟨held, .readAnnounced⟩)
    (hholder : lock.holder = some t) : Kept { lock with ownerCount := int32 (lock.ownerCount + 1) }
      (update threads t ⟨.read :: held, .running⟩) l := by
  obtain ⟨hcount, hreaders, hawaited, hwriters⟩ := hk.counted
  have hpos := hk.writers_pos hholder
  have hshape := hk.shaped t
  have htaken := hk.taken t hholder
  have hw : .write ∈ held := by simpa [hx, Thread.Owner] using (hk.holder t).1 hholder
  have hle := le_tally Thread.readers threads t
  have howner := htaken.owner (by simp [hx])
  rw [hx] at hshape howner hle
  have hnested := hshape.nested
  obtain ⟨hr, hwr, ha, hi⟩ := tally_all threads t ⟨.read :: held, .running⟩
  simp [hx] at hr hwr ha hi hle howner hnested
  have hint : int32 (lock.ownerCount + 1) = lock.ownerCount + 1 := by
    apply int32_eq <;> omega
  refine hk.change rfl rfl rfl (hk.queue.notMem (by simp [hx]) (by simp [hx])) (by simp) (by simp)
    ?_ ?_ ?_ ?_ ?_ ?_
  · have hbottom := hshape.bottom hw
    exact ⟨fun _ => by simp [List.getLast?_cons, hbottom], by simp, by simpa using hshape.nested⟩
  · simp [hx, Thread.Owner]
  · exact ⟨by show lock.count = _; omega, by omega, by omega, by omega⟩
  · intro u hu
    cases hholder.symm.trans hu
    refine htaken.update_self rfl rfl fun _ => ?_
    show int32 (lock.ownerCount + 1) = _
    simp
    omega
  · intro hnone
    cases hholder.symm.trans hnone
  · intro hnone
    cases hholder.symm.trans hnone

lemma Kept.readLock_pending (hx : threads t = ⟨held, .readAnnounced⟩)
    (hholder : lock.holder ≠ some t) (hpos : lock.pendingReaders > 0) : Kept { lock with
      pendingReaders := int16 (lock.pendingReaders - 1)
      activeReaders  := if lock.count ≥ writerCountBase then int16 (lock.activeReaders + 1)
        else lock.activeReaders }
      (update threads t ⟨.read :: held, .running⟩) l := by
  obtain ⟨hcount, hreaders, hawaited, hwriters⟩ := hk.counted
  -- while a thread holds the lock no reader is pending
  have hnone : lock.holder = none := by
    cases hh : lock.holder with
    | none => rfl
    | some u =>
      have := (hk.taken u hh).pending
      omega
  have hw : .write ∉ held := by
    have := hk.no_write hholder
    rwa [hx] at this
  have hnot : t ∉ l := hk.queue.notMem (by simp [hx]) (by simp [hx])
  obtain ⟨hr, hwr, ha, hi⟩ := tally_all threads t ⟨.read :: held, .running⟩
  simp [hx, hw] at hr hwr ha hi
  refine hk.change rfl rfl rfl hnot (by simp) (by simp) ?_ ?_ ?_ ?_ ?_ ?_
  · exact ⟨by simp [hw], by simp, by simp [List.count_eq_zero_of_not_mem hw]⟩
  · simp [hx, Thread.Owner]
  · exact ⟨by show lock.count = _; omega, by omega, by omega, by omega⟩
  · intro u hu
    cases hnone.symm.trans hu
  · intro _ hzero
    have hfree := hk.free hnone (by omega)
    have hpending := hfree.pending
    have hlow : ¬ lock.count ≥ writerCountBase := by
      rw [hk.count_ge_iff]
      omega
    have hple := hfree.pending_le
    have hint : int16 (lock.pendingReaders - 1) = lock.pendingReaders - 1 := by
      apply int16_eq <;> omega
    refine ⟨hfree.empty, by simp only [hlow, if_false]; exact hfree.active, ?_, ?_,
      settled_update hfree.settled (by simp)⟩
    · show int16 (lock.pendingReaders - 1) = _
      omega
    · show int16 (lock.pendingReaders - 1) ≤ _
      omega
  · intro _ hsome
    have hsome' : 0 < tally Thread.writers threads := by omega
    have haw := hk.awaited hnone hsome'
    have hactive := haw.active
    have hple := haw.pending_le
    have hhigh : lock.count ≥ writerCountBase := hk.count_ge_iff.2 hsome'
    have htotal := haw.total_le
    have hint : int16 (lock.activeReaders + 1) = lock.activeReaders + 1 := by
      apply int16_eq <;> omega
    have hint' : int16 (lock.pendingReaders - 1) = lock.pendingReaders - 1 := by
      apply int16_eq <;> omega
    refine ⟨first_update _ haw.first hnot, ?_, ?_, ?_, ?_, .inl ?_⟩
    · simp only [hhigh, if_true, hint]
      omega
    · show 0 ≤ int16 (lock.pendingReaders - 1)
      omega
    · show int16 (lock.pendingReaders - 1) ≤ _
      omega
    · simp only [hhigh, if_true, hint, hint']
      omega
    · simp only [hhigh, if_true, hint]
      omega

lemma Kept.readLock_wait (hx : threads t = ⟨held, .readAnnounced⟩)
    (hholder : lock.holder ≠ some t) (hnopending : ¬ lock.pendingReaders > 0) :
    0 < tally Thread.writers threads ∧
      Kept (lock.wait t false) (update threads t ⟨held, .readQueued⟩) (l ++ [t]) := by
  obtain ⟨hcount, hreaders, hawaited, hwriters⟩ := hk.counted
  have hnot : t ∉ l := hk.queue.notMem (by simp [hx]) (by simp [hx])
  have hshape := hk.shaped t
  rw [hx] at hshape
  have hann : 1 ≤ tally Thread.announced threads := by
    have := le_tally Thread.announced threads t
    simpa [hx] using this
  -- without a writer the announced readers would be pending
  have hsome : 0 < tally Thread.writers threads := by
    by_contra hzero
    have hzero' : tally Thread.writers threads = 0 := by omega
    have := (hk.free (hk.holder_eq_none hzero') hzero').pending
    omega
  obtain ⟨hr, hwr, ha, hi⟩ := tally_all threads t ⟨held, .readQueued⟩
  simp [hx] at hr hwr ha hi
  refine ⟨hsome, ?_, ?_, ?_, ?_, ?_, ?_, ?_⟩
  · exact hk.queue.wait hnot rfl rfl rfl
  · exact forall_shaped hk.shaped ⟨hshape.bottom, by simp, hshape.nested⟩
  · exact holder_update hk.holder rfl (by simp [hx, Thread.Owner])
  · exact ⟨by show lock.count = _; omega, by omega, by omega, by omega⟩
  · intro u hu
    have htaken := hk.taken u hu
    have hut : t ≠ u := fun he => hholder (he ▸ hu)
    have halone := htaken.alone t hut
    rw [hx] at halone
    exact htaken.update hut ⟨halone.1, by simp⟩ rfl rfl rfl
  · intro _ hzero
    omega
  · intro hnone _
    have haw := hk.awaited hnone hsome
    have hactive : lock.activeReaders = _ := haw.active
    have hpend := haw.pending
    obtain ⟨h, hhead, hplace⟩ := first_update ⟨held, .readQueued⟩ haw.first hnot
    refine ⟨⟨h, ?_, hplace⟩, by rw [hi]; exact hactive, hpend, ?_, haw.total_le, haw.expected⟩
    · rw [List.head?_append, hhead]
      rfl
    · show lock.pendingReaders ≤ _
      omega

/-! ## Giving up a read lock -/

lemma Kept.readUnlock_fast (hx : threads t = ⟨.read :: held, .running⟩)
    (hnone : tally Thread.writers threads = 0) : Kept { lock with count := int32 (lock.count - 1) }
      (update threads t ⟨held, .running⟩) l := by
  obtain ⟨hcount, hreaders, hawaited, hwriters⟩ := hk.counted
  have hnoholder := hk.holder_eq_none hnone
  have hw : .write ∉ held := by
    have := hk.no_write (t := t) (by simp [hnoholder])
    rw [hx] at this
    exact fun hmem => this (List.mem_cons_of_mem _ hmem)
  have hfree := hk.free hnoholder hnone
  obtain ⟨hr, hwr, ha, hi⟩ := tally_all threads t ⟨held, .running⟩
  simp [hx, hw] at hr hwr ha hi
  have hint : int32 (lock.count - 1) = lock.count - 1 := by
    apply int32_eq <;> omega
  refine hk.change rfl rfl rfl (hk.queue.notMem (by simp [hx]) (by simp [hx])) (by simp) (by simp)
    ?_ ?_ ?_ ?_ ?_ ?_
  · exact ⟨by simp [hw], by simp, by simp [List.count_eq_zero_of_not_mem hw]⟩
  · simp [hx, Thread.Owner]
  · exact ⟨by show int32 (lock.count - 1) = _; omega, by omega, by omega, by omega⟩
  · intro u hu
    cases hnoholder.symm.trans hu
  · intro _ _
    have hpending : lock.pendingReaders = _ := hfree.pending
    exact ⟨hfree.empty, hfree.active, by rw [ha]; exact hpending, hfree.pending_le,
      settled_update hfree.settled (by simp)⟩
  · intro _ hpos
    omega

lemma Kept.readUnlock_slow (hx : threads t = ⟨.read :: held, .running⟩)
    (hsome : 0 < tally Thread.writers threads) : Kept { lock with count := int32 (lock.count - 1) }
      (update threads t ⟨held, .readLeaving⟩) l := by
  obtain ⟨hcount, hreaders, hawaited, hwriters⟩ := hk.counted
  have hnot : t ∉ l := hk.queue.notMem (by simp [hx]) (by simp [hx])
  have hshape := hk.shaped t
  rw [hx] at hshape
  have hbottom := hshape.bottom
  obtain ⟨hr, hwr, ha, hi⟩ := tally_all threads t ⟨held, .readLeaving⟩
  simp [hx] at hr hwr ha hi
  have hint : int32 (lock.count - 1) = lock.count - 1 := by
    apply int32_eq <;> omega
  refine hk.change rfl rfl rfl hnot (by simp) (by simp) ?_ ?_ ?_ ?_ ?_ ?_
  · refine ⟨fun hmem => ?_, by simp, by simpa using hshape.nested⟩
    cases held with
    | nil => cases hmem
    | cons m held => simpa [List.getLast?_cons_cons] using hbottom (List.mem_cons_of_mem _ hmem)
  · simp [hx, Thread.Owner]
  · exact ⟨by show int32 (lock.count - 1) = _; omega, by omega, by omega, by omega⟩
  · intro u hu
    have htaken := hk.taken u hu
    have hut : t = u := by
      -- only the holder itself can be in a read section
      by_contra hne
      have halone := (htaken.alone t hne).1
      rw [hx] at halone
      cases halone
    subst hut
    have howner := htaken.owner (by simp [hx])
    rw [hx] at howner
    refine htaken.update_self rfl rfl fun _ => ?_
    show lock.ownerCount = _
    rw [howner]
    simp
  · intro _ hzero
    omega
  · intro hnone _
    have haw := hk.awaited hnone hsome
    have hactive : lock.activeReaders = _ := haw.active
    have hpending : lock.pendingReaders ≤ _ := haw.pending_le
    exact ⟨first_update _ haw.first hnot, by show lock.activeReaders = _; omega, haw.pending,
      by rw [ha]; exact hpending, haw.total_le, haw.expected⟩

lemma Kept.readUnlock_owner (hx : threads t = ⟨held, .readLeaving⟩)
    (hholder : lock.holder = some t) : 0 < lock.ownerCount.tmod writerCountBase ∧
      Kept { lock with ownerCount := int32 (lock.ownerCount - 1) }
        (update threads t ⟨held, .running⟩) l := by
  obtain ⟨hcount, hreaders, hawaited, hwriters⟩ := hk.counted
  have hpos := hk.writers_pos hholder
  have hshape := hk.shaped t
  have htaken := hk.taken t hholder
  have hle := le_tally Thread.readers threads t
  have howner := htaken.owner (by simp [hx])
  rw [hx] at hshape howner hle
  have hnested := hshape.nested
  obtain ⟨hr, hwr, ha, hi⟩ := tally_all threads t ⟨held, .running⟩
  simp [hx] at hr hwr ha hi hle howner hnested
  have hint : int32 (lock.ownerCount - 1) = lock.ownerCount - 1 := by
    apply int32_eq <;> omega
  constructor
  · rw [Int.tmod_eq_emod_of_nonneg (by omega), writerCountBase_eq]
    omega
  refine hk.change rfl rfl rfl (hk.queue.notMem (by simp [hx]) (by simp [hx])) (by simp) (by simp)
    ?_ ?_ ?_ ?_ ?_ ?_
  · exact ⟨hshape.bottom, by simp, hshape.nested⟩
  · simp [hx, Thread.Owner]
  · exact ⟨by show lock.count = _; omega, by omega, by omega, by omega⟩
  · intro u hu
    cases hholder.symm.trans hu
    refine htaken.update_self rfl rfl fun _ => ?_
    show int32 (lock.ownerCount - 1) = _
    simp
    omega
  · intro hnone
    cases hholder.symm.trans hnone
  · intro hnone
    cases hholder.symm.trans hnone

end

/-! ## Unblocking waiters -/

/-- The situation in which `rw_lock_unblock()` is called: no one holds the lock, and the last
reader a writer had to wait for is gone. -/
structure Open (lock : RWLock T) (threads : T → Thread) (l : List T) : Prop where
  queue : Queue lock threads l
  shaped : ∀ t, (threads t).Shaped
  holder : lock.holder = none
  no_owner : ∀ t, ¬ (threads t).Owner
  counted : Counted lock threads
  inside : tally Thread.inside threads = 0
  active : lock.activeReaders = 0
  pending : lock.pendingReaders = 0

lemma dequeueReaders_spec {fuel : ℕ} (lock : RWLock T) (hq : lock.waiters.Holds l) (hf : l.length ≤ fuel) :
    ∃ w l', (lock.dequeueReaders fuel).1 = { lock with waiters := w } ∧ w.Holds l' ∧
      l = (lock.dequeueReaders fuel).2 ++ l' ∧
      (∀ t ∈ (lock.dequeueReaders fuel).2, lock.writer t = false) ∧
      ∀ h ∈ l'.head?, lock.writer h = true := by
  induction fuel generalizing lock l with
  | zero =>
    have hl : l = [] := List.length_eq_zero_iff.1 (Nat.le_zero.1 hf)
    subst hl
    exact ⟨lock.waiters, [], rfl, hq, rfl, by simp [RWLock.dequeueReaders], by simp⟩
  | succ fuel ih =>
    have hhead := hq.head_eq
    cases l with
    | nil =>
      simp only [List.head?_nil] at hhead
      simp only [RWLock.dequeueReaders, hhead]
      exact ⟨lock.waiters, [], rfl, hq, rfl, by simp, by simp⟩
    | cons h l =>
      simp only [List.head?_cons] at hhead
      simp only [RWLock.dequeueReaders, hhead]
      by_cases hw : lock.writer h = true
      · simp only [hw, if_true]
        exact ⟨lock.waiters, h :: l, rfl, hq, rfl, by simp, by simp [hw]⟩
      · simp only [hw]
        obtain ⟨w, l', h₁, h₂, h₃, h₄, h₅⟩ :=
          ih { lock with waiters := lock.waiters.dequeue h } hq.dequeue
            (Nat.le_of_succ_le_succ hf)
        refine ⟨w, l', h₁, h₂, ?_, ?_, h₅⟩
        · simp only [Bool.false_eq_true, if_false, List.cons_append]
          rw [← h₃]
        · simp only [Bool.false_eq_true, if_false, List.mem_cons]
          rintro u (rfl | hu)
          · simpa using hw
          · exact h₄ u hu

lemma unblock_reader {h : T} (hq : lock.waiters.Holds (h :: l)) (hholder : lock.holder = none)
    (hw : ¬ lock.writer h = true) :
    ∃ w ts l', lock.unblock = ({ lock with
        waiters       := w
        activeReaders := if lock.count ≥ writerCountBase then
          int16 (lock.activeReaders + ts.length) else lock.activeReaders }, ts, ts.length) ∧
      w.Holds l' ∧ h :: l = ts ++ l' ∧ (∀ t ∈ ts, lock.writer t = false) ∧
      ∀ f ∈ l'.head?, lock.writer f = true := by
  have hhead : lock.waiters.head = some h := hq.head_eq
  obtain ⟨w, l', heq, hrest⟩ := dequeueReaders_spec lock hq hq.nodup.length_le_card
  refine ⟨w, _, l', ?_, hrest⟩
  simp only [RWLock.unblock, hhead, hholder, hw, Bool.false_eq_true, if_false, heq]
  split <;> rfl

lemma Open.idle (ho : Open lock threads l) (t : T) :
    (threads t).held = [] ∧ (threads t).place ≠ .readLeaving := by
  have hzero := tally_eq_zero.1 ho.inside t
  have hread : .read ∉ (threads t).held := by
    rw [← List.count_eq_zero]
    rw [Thread.inside] at hzero
    omega
  have hwrite : .write ∉ (threads t).held := fun hmem => ho.no_owner t (.inl hmem)
  constructor
  · apply List.eq_nil_iff_forall_not_mem.2
    intro m hm
    cases m with
    | read => exact hread hm
    | write => exact hwrite hm
  · intro hplace
    simp [hplace] at hzero

lemma Open.wakeWriter {h : T} (ho : Open lock threads (h :: l)) (hw : lock.writer h = true) :
    Kept { lock with waiters := lock.waiters.dequeue h, holder := some h }
      (update threads h ⟨[], .writeWoken⟩) l := by
  obtain ⟨hcount, hreaders, hawaited, hwriters⟩ := ho.counted
  have hplace := (ho.queue.writer h List.mem_cons_self).1 hw
  have hnodup := List.nodup_cons.1 ho.queue.holds.nodup
  obtain ⟨hheld, -⟩ := ho.idle h
  obtain ⟨hr, hwr, -, -⟩ := tally_all threads h ⟨[], .writeWoken⟩
  simp [hplace, hheld] at hr hwr
  have hpos : 0 < tally Thread.writers threads := by
    have := le_tally Thread.writers threads h
    simp [hplace] at this
    omega
  refine ⟨⟨ho.queue.holds.dequeue, ?_, fun u hu => ?_⟩, ?_, ?_, ?_, ?_, ?_, ?_⟩
  · rw [Function.forall_update_iff threads
      fun u (th : Thread) => u ∈ l ↔ th.place = .readQueued ∨ th.place = .writeQueued]
    refine ⟨by simp [hnodup.1], fun u hu => ?_⟩
    rw [← ho.queue.queued u]
    simp [hu]
  · have hne : u ≠ h := fun he => hnodup.1 (he ▸ hu)
    rw [update_of_ne hne]
    exact ho.queue.writer u (List.mem_cons_of_mem _ hu)
  · exact forall_shaped ho.shaped ⟨by simp, by simp, by simp⟩
  · intro u
    by_cases hu : u = h
    · subst hu
      simp [Thread.Owner]
    · have hne : h ≠ u := fun he => hu he.symm
      simp [update_of_ne hu, ho.no_owner u, hne]
  · exact ⟨by show lock.count = _; omega, by omega, by omega, by omega⟩
  · intro u hu
    cases hu
    refine ⟨?_, ho.active, ho.pending, by simp⟩
    intro u hu
    rw [update_of_ne hu]
    exact ho.idle u
  · intro hnone
    cases hnone
  · intro hnone
    cases hnone

lemma Thread.unblocked_reader (hplace : th.place = .readQueued) :
    th.unblocked = ⟨.read :: th.held, .running⟩ := by
  simp [Thread.unblocked, hplace]

/-- What is left when the readers in front of the queue are unblocked. -/
structure Admitted (lock' : RWLock T) (threads threads' : T → Thread) (ts l : List T) : Prop where
  queue : Queue lock' threads' l
  shaped : ∀ t, (threads' t).Shaped
  no_owner : ∀ t, ¬ (threads' t).Owner
  counted : Counted lock' threads'
  inside : tally Thread.inside threads' = ts.length
  announced : tally Thread.announced threads' = tally Thread.announced threads
  writers : tally Thread.writers threads' = tally Thread.writers threads
  settled : ∀ t, (threads' t).place ≠ .readLeaving

lemma Open.admit {ts : List T} {w : Waiters T} (ho : Open lock threads (ts ++ l))
    (lock' : RWLock T) (hw : w.Holds l) (hts : ∀ t ∈ ts, lock.writer t = false) (hwait : lock'.waiters = w)
    (hwriter : lock'.writer = lock.writer) (hcount : lock'.count = lock.count) :
    Admitted lock' threads (changeAll Thread.unblocked ts threads) ts l := by
  obtain ⟨hcount_eq, hreaders, hawaited, hwriters⟩ := ho.counted
  have hnodup := ho.queue.holds.nodup
  rw [List.nodup_append] at hnodup
  obtain ⟨hnodup, -, hdisjoint⟩ := hnodup
  have hplace : ∀ t ∈ ts, (threads t).place = .readQueued := by
    intro t ht
    have hmem : t ∈ ts ++ l := List.mem_append_left _ ht
    rcases (ho.queue.queued t).1 hmem with hq | hq
    · exact hq
    · have := (ho.queue.writer t hmem).2 hq
      simp [hts t ht] at this
  have hin : ∀ t ∈ ts, changeAll Thread.unblocked ts threads t = ⟨[.read], .running⟩ := by
    intro t ht
    rw [changeAll_of_mem _ _ hnodup ht, Thread.unblocked_reader (hplace t ht), (ho.idle t).1]
  have hout : ∀ t, t ∉ ts → changeAll Thread.unblocked ts threads t = threads t :=
    fun t ht => changeAll_of_notMem _ _ ht
  -- each unblocked reader turns from a queued one into one that reads
  have hr := tally_changeAll Thread.readers Thread.unblocked threads hnodup (a := 0) (b := 0)
    fun t ht => by
      simp [Thread.unblocked_reader (hplace t ht), hplace t ht]
  have hwr := tally_changeAll Thread.writers Thread.unblocked threads hnodup (a := 0) (b := 0)
    fun t ht => by
      simp [Thread.unblocked_reader (hplace t ht), hplace t ht]
  have ha := tally_changeAll Thread.announced Thread.unblocked threads hnodup (a := 0) (b := 0)
    fun t ht => by
      simp [Thread.unblocked_reader (hplace t ht), hplace t ht]
  have hi := tally_changeAll Thread.inside Thread.unblocked threads hnodup (a := 0) (b := 1)
    fun t ht => by
      simp [Thread.unblocked_reader (hplace t ht), hplace t ht]
  have hinside := ho.inside
  simp only [Nat.zero_mul, Nat.one_mul, Nat.add_zero] at hr hwr ha hi
  refine ⟨⟨hwait ▸ hw, fun t => ?_, fun t ht => ?_⟩, fun t => ?_, fun t => ?_, ?_, by omega, ha, hwr,
    fun t => ?_⟩
  · by_cases ht : t ∈ ts
    · have hnot : t ∉ l := fun hl => hdisjoint t ht t hl rfl
      rw [hin t ht]
      simp [hnot]
    · rw [hout t ht, ← ho.queue.queued t]
      simp [ht]
  · have hnot : t ∉ ts := fun hl => hdisjoint t hl t ht rfl
    rw [hout t hnot, hwriter]
    exact ho.queue.writer t (List.mem_append_right _ ht)
  · by_cases ht : t ∈ ts
    · rw [hin t ht]
      exact ⟨by simp, by simp, by simp⟩
    · rw [hout t ht]
      exact ho.shaped t
  · by_cases ht : t ∈ ts
    · rw [hin t ht]
      simp [Thread.Owner]
    · rw [hout t ht]
      exact ho.no_owner t
  · exact ⟨by rw [hcount, hr, hwr]; exact hcount_eq, by omega, by omega, by omega⟩
  · by_cases ht : t ∈ ts
    · rw [hin t ht]
      simp
    · rw [hout t ht]
      exact (ho.idle t).2

variable {threads' : T → Thread} {ts : List T}

lemma Admitted.length_le (ha : Admitted lock' threads threads' ts l) :
    ts.length ≤ tally Thread.readers threads' := by
  rw [← ha.inside]
  apply tally_mono
  intro t
  simp [ha.settled t]

lemma Open.exists_writer (ho : Open lock threads l) (hpos : 0 < tally Thread.writers threads) :
    ∃ t ∈ l, lock.writer t = true := by
  have hne : ¬ ∀ t, (threads t).writers = 0 := fun hall => by
    have := tally_eq_zero.2 hall
    omega
  obtain ⟨t, ht⟩ := not_forall.1 hne
  have hplace : (threads t).place = .writeQueued := by
    have hno := ho.no_owner t
    by_contra hplace
    apply ht
    rw [Thread.writers, if_neg]
    rintro (hw | hw | hw)
    · exact hno (.inl hw)
    · exact hplace hw
    · exact hno (.inr hw)
  have hmem := (ho.queue.queued t).2 (.inr hplace)
  exact ⟨t, hmem, (ho.queue.writer t hmem).2 hplace⟩

lemma Open.wakeReaders {h : T} (ho : Open lock threads (h :: l)) (hw : ¬ lock.writer h = true)
    (hpos : 0 < tally Thread.writers threads) :
    ∃ l', Kept lock.unblock.1 (changeAll Thread.unblocked lock.unblock.2.1 threads) l' := by
  have hcount := ho.counted.count_eq
  obtain ⟨w, ts, l', heq, hwaits, hsplit, hts, hfirst⟩ :=
    unblock_reader ho.queue.holds ho.holder hw
  have hhigh : lock.count ≥ writerCountBase := by
    rw [writerCountBase_eq]
    omega
  rw [heq]
  simp only [hhigh, if_true]
  rw [hsplit] at ho
  have had := ho.admit { lock with
    waiters := w, activeReaders := int16 (lock.activeReaders + ts.length) } hwaits hts rfl rfl rfl
  have hlen := had.length_le
  have hle := had.counted.awaited_le (by rw [had.writers]; exact hpos)
  have hactive := ho.active
  have hint : int16 (lock.activeReaders + ts.length) = ts.length := by
    rw [int16_eq (by omega) (by omega), hactive, Int.zero_add]
  -- the writer that waits is not among the unblocked threads
  obtain ⟨v, hv, hvw⟩ := ho.exists_writer hpos
  have hvl : v ∈ l' := by
    rcases List.mem_append.1 hv with hv | hv
    · rw [hts v hv] at hvw
      cases hvw
    · exact hv
  obtain ⟨f, l'', rfl⟩ : ∃ f l'', l' = f :: l'' := by
    cases l' with
    | nil => cases hvl
    | cons f l'' => exact ⟨f, l'', rfl⟩
  have hf : lock.writer f = true := hfirst f rfl
  have hsome : 0 < ts.length := by
    cases ts with
    | nil =>
      cases hsplit
      exact absurd hf hw
    | cons t ts => simp
  refine ⟨f :: l'', had.queue, had.shaped, fun u => ?_, had.counted, fun u hu => ?_, fun _ hzero => ?_,
    fun _ _ => ⟨⟨f, rfl, ?_⟩, ?_, ?_, ?_, ?_, .inl ?_⟩⟩
  · simp [ho.holder, had.no_owner u]
  · cases ho.holder.symm.trans hu
  · have := had.writers
    omega
  · exact (had.queue.writer f List.mem_cons_self).1 hf
  · show int16 (lock.activeReaders + ts.length) = _
    rw [hint, had.inside]
  · exact ho.pending.ge
  · show lock.pendingReaders ≤ _
    have := ho.pending
    omega
  · show int16 (lock.activeReaders + ts.length) + lock.pendingReaders ≤ _
    have := ho.pending
    omega
  · show 0 < int16 (lock.activeReaders + ts.length)
    omega

lemma Open.unblock (ho : Open lock threads l) (hpos : 0 < tally Thread.writers threads) :
    ∃ l', Kept lock.unblock.1 (changeAll Thread.unblocked lock.unblock.2.1 threads) l' := by
  cases l with
  | nil =>
    obtain ⟨t, ht, -⟩ := ho.exists_writer hpos
    cases ht
  | cons h l =>
    by_cases hw : lock.writer h = true
    · have hhead : lock.waiters.head = some h := ho.queue.holds.head_eq
      have hplace := (ho.queue.writer h List.mem_cons_self).1 hw
      have hthread : (threads h).unblocked = ⟨[], .writeWoken⟩ := by
        simp [Thread.unblocked, hplace, (ho.idle h).1]
      have hkept := ho.wakeWriter hw
      refine ⟨l, ?_⟩
      simpa [RWLock.unblock, hhead, ho.holder, hw, ho.active, ho.pending, changeAll, hthread]
        using hkept
    · exact ho.wakeReaders hw hpos

lemma Open.unblock_readers (ho : Open lock threads l) (hzero : tally Thread.writers threads = 0)
    (hfew : tally Thread.readers threads ≤ 0x7fff) :
    ∃ l', Kept { lock.unblock.1 with
        pendingReaders := int16 (lock.count - 0 - lock.unblock.2.2) }
      (changeAll Thread.unblocked lock.unblock.2.1 threads) l' := by
  obtain ⟨hcount, hreaders, hawaited, hwriters⟩ := ho.counted
  have hnowriter : ∀ t ∈ l, lock.writer t = false := by
    intro t ht
    by_contra hw
    have hplace := (ho.queue.writer t ht).1 (by simpa using hw)
    have := tally_eq_zero.1 hzero t
    simp [hplace] at this
  -- the readers are the announced and the queued ones
  have hqueued : tally (indicator Thread.queuedReader) threads = l.length := by
    apply tally_indicator ho.queue.holds.nodup
    intro t
    rw [ho.queue.queued t, Thread.queuedReader, decide_eq_true_eq]
    constructor
    · rintro (hq | hq)
      · exact hq
      · have hmem := (ho.queue.queued t).2 (.inr hq)
        have := (ho.queue.writer t hmem).2 hq
        simp [hnowriter t hmem] at this
    · exact .inl
  have hsum : tally Thread.readers threads =
      tally Thread.announced threads + tally (indicator Thread.queuedReader) threads := by
    apply tally_add
    intro t
    rw [Thread.readers, Thread.announced, indicator, Thread.queuedReader, (ho.idle t).1]
    cases (threads t).place <;> simp
  have hlow : ¬ lock.count ≥ writerCountBase := by
    rw [writerCountBase_eq]
    omega
  cases l with
  | nil =>
    have hhead : lock.waiters.head = none := ho.queue.holds.head_eq
    simp only [RWLock.unblock, hhead, changeAll]
    have hint : int16 (lock.count - 0 - 0) = tally Thread.announced threads := by
      rw [List.length_nil] at hqueued
      rw [int16_eq] <;> omega
    refine ⟨[], ⟨ho.queue.holds, ho.queue.queued, ho.queue.writer⟩, ho.shaped, fun u => ?_,
      ⟨hcount, hreaders, hawaited, hwriters⟩, fun u hu => ?_, fun _ _ => ?_, fun _ hpos => ?_⟩
    · simp [ho.holder, ho.no_owner u]
    · cases ho.holder.symm.trans hu
    · refine ⟨rfl, ho.active, hint, ?_, fun t => (ho.idle t).2⟩
      show int16 (lock.count - 0 - 0) ≤ _
      omega
    · omega
  | cons h l =>
    have hw : ¬ lock.writer h = true := by simp [hnowriter h List.mem_cons_self]
    obtain ⟨w, ts, l', heq, hwaits, hsplit, hts, hfirst⟩ :=
      unblock_reader ho.queue.holds ho.holder hw
    have hl' : l' = [] := by
      cases l' with
      | nil => rfl
      | cons f l' =>
        have hmem : f ∈ h :: l := by simp [hsplit]
        have := hfirst f rfl
        simp [hnowriter f hmem] at this
    subst hl'
    rw [heq]
    simp only [hlow, if_false]
    rw [hsplit] at ho hqueued
    rw [List.append_nil] at hqueued
    have had := ho.admit { lock with
      waiters := w, pendingReaders := int16 (lock.count - 0 - ts.length) } hwaits hts rfl rfl rfl
    have hint : int16 (lock.count - 0 - ts.length) = tally Thread.announced threads := by
      rw [int16_eq] <;> omega
    refine ⟨[], had.queue, had.shaped, fun u => ?_, had.counted, fun u hu => ?_, fun _ _ => ?_,
      fun _ hpos => ?_⟩
    · simp [ho.holder, had.no_owner u]
    · cases ho.holder.symm.trans hu
    · refine ⟨rfl, ho.active, ?_, ?_, had.settled⟩
      · rw [had.announced]
        exact hint
      · show int16 (lock.count - 0 - ts.length) ≤ _
        omega
    · have := had.writers
      omega

lemma Open.quiet (ho : Open lock threads l) (hw : tally Thread.writers threads = 0)
    (hr : tally Thread.readers threads = 0) : Kept lock threads l := by
  have hempty : l = [] := by
    apply List.eq_nil_iff_forall_not_mem.2
    intro t ht
    have hrt := tally_eq_zero.1 hr t
    have hwt := tally_eq_zero.1 hw t
    rcases (ho.queue.queued t).1 ht with hq | hq
    · simp [hq] at hrt
    · simp [hq] at hwt
  have hann : tally Thread.announced threads = 0 := by
    apply tally_eq_zero.2
    intro t
    have hrt := tally_eq_zero.1 hr t
    simp only [Thread.readers] at hrt
    simp only [Thread.announced]
    split <;> simp_all
  refine ⟨ho.queue, ho.shaped, fun u => ?_, ho.counted, fun u hu => ?_, fun _ _ => ?_,
    fun _ hpos => ?_⟩
  · simp [ho.holder, ho.no_owner u]
  · cases ho.holder.symm.trans hu
  · have hpending := ho.pending
    exact ⟨hempty, ho.active, by omega, by omega, fun t => (ho.idle t).2⟩
  · omega

/-! ## The last reader leaves -/

lemma Kept.leaving (hk : Kept lock threads l) (hx : threads t = ⟨held, .readLeaving⟩)
    (hholder : lock.holder ≠ some t) :
    lock.holder = none ∧ 0 < tally Thread.writers threads ∧ 1 ≤ tally Thread.inside threads := by
  have hnone : lock.holder = none := by
    cases hh : lock.holder with
    | none => rfl
    | some u =>
      have hut : t ≠ u := fun he => hholder (he ▸ hh)
      have hnot := ((hk.taken u hh).alone t hut).2
      rw [hx] at hnot
      exact absurd rfl hnot
  refine ⟨hnone, ?_, ?_⟩
  · by_contra hzero
    have hfree := hk.free hnone (by omega)
    exact hfree.settled t (by rw [hx])
  · have := le_tally Thread.inside threads t
    simp only [hx, Thread.inside, if_true] at this
    omega

lemma Kept.readUnlock_more (hk : Kept lock threads l) (hx : threads t = ⟨held, .readLeaving⟩)
    (hholder : lock.holder ≠ some t)
    (hmore : 0 < lock.activeReaders - 1 ∨ 0 < lock.pendingReaders) :
    Kept { lock with activeReaders := int16 (lock.activeReaders - 1) }
      (update threads t ⟨held, .running⟩) l := by
  obtain ⟨hnone, hsome, hone⟩ := hk.leaving hx hholder
  obtain ⟨hcount, hreaders, hawaited, hwriters⟩ := hk.counted
  have hnot : t ∉ l := hk.queue.notMem (by simp [hx]) (by simp [hx])
  have hshape := hk.shaped t
  rw [hx] at hshape
  have haw := hk.awaited hnone hsome
  have hactive := haw.active
  have htotal := haw.total_le
  have hpending := haw.pending
  obtain ⟨hr, hwr, ha, hi⟩ := tally_all threads t ⟨held, .running⟩
  simp [hx] at hr hwr ha hi
  have hint : int16 (lock.activeReaders - 1) = lock.activeReaders - 1 := by
    apply int16_eq <;> omega
  refine hk.change rfl rfl rfl hnot (by simp) (by simp) ?_ ?_ ?_ ?_ ?_ ?_
  · exact ⟨hshape.bottom, by simp, hshape.nested⟩
  · simp [hx, Thread.Owner]
  · exact ⟨by show lock.count = _; omega, by omega, by omega, by omega⟩
  · intro u hu
    cases hnone.symm.trans hu
  · intro _ hzero
    omega
  · intro _ _
    refine ⟨first_update _ haw.first hnot, ?_, hpending, by rw [ha]; exact haw.pending_le, ?_, ?_⟩
    · show int16 (lock.activeReaders - 1) = _
      omega
    · show int16 (lock.activeReaders - 1) + lock.pendingReaders ≤ _
      omega
    · show 0 < int16 (lock.activeReaders - 1) ∨ 0 < lock.pendingReaders
      omega

lemma Kept.readUnlock_last (hk : Kept lock threads l) (hx : threads t = ⟨held, .readLeaving⟩)
    (hholder : lock.holder ≠ some t) (hactive : lock.activeReaders - 1 = 0)
    (hpending : lock.pendingReaders = 0) :
    0 < tally Thread.writers (update threads t ⟨held, .running⟩) ∧
      Open { lock with activeReaders := 0 } (update threads t ⟨held, .running⟩) l := by
  obtain ⟨hnone, hsome, hone⟩ := hk.leaving hx hholder
  obtain ⟨hcount, hreaders, hawaited, hwriters⟩ := hk.counted
  have hnot : t ∉ l := hk.queue.notMem (by simp [hx]) (by simp [hx])
  have hshape := hk.shaped t
  rw [hx] at hshape
  have hinside := (hk.awaited hnone hsome).active
  obtain ⟨hr, hwr, ha, hi⟩ := tally_all threads t ⟨held, .running⟩
  simp [hx] at hr hwr ha hi
  refine ⟨by omega, hk.queue.update rfl rfl hnot (by simp) (by simp),
    forall_shaped hk.shaped ⟨hshape.bottom, by simp, hshape.nested⟩, hnone, fun u => ?_,
    ⟨by show lock.count = _; omega, by omega, by omega, by omega⟩, by omega, rfl, hpending⟩
  have howner : lock.holder = some u ↔ (update threads t ⟨held, .running⟩ u).Owner :=
    holder_update hk.holder rfl (by simp [hx, Thread.Owner]) u
  rw [← howner, hnone]
  simp

end Haiku.Lock
