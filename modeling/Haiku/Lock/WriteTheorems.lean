import Haiku.Lock.ReadTheorems

/-!
# A read-write lock excludes

The steps of a writer keep the invariant too, and so every run does in which the counters are wide
enough.
-/

set_option linter.unusedSectionVars false

namespace Haiku.Lock

open Function Lib

variable {T : Type} [DecidableEq T] [Fintype T]
variable {lock lock' : RWLock T} {threads : T → Thread} {l : List T} {t u : T} {th : Thread}
  {held : List Mode}

/-! ## Taking the write lock -/

section

variable (hk : Kept lock threads l)
include hk

lemma Kept.writeLock_owner (hx : threads t = ⟨held, .running⟩)
    (hholder : lock.holder = some t) (hfew : held.count .write < 0x7fff) :
    Kept { lock with ownerCount := int32 (lock.ownerCount + writerCountBase) }
      (update threads t ⟨.write :: held, .running⟩) l := by
  obtain ⟨hcount, hreaders, hawaited, hwriters⟩ := hk.counted
  have hpos := hk.writers_pos hholder
  have hshape := hk.shaped t
  have htaken := hk.taken t hholder
  have hw : .write ∈ held := by simpa [hx, Thread.Owner] using (hk.holder t).1 hholder
  have hle := le_tally Thread.readers threads t
  have howner := htaken.owner (by simp [hx])
  rw [hx] at hshape howner hle
  obtain ⟨hr, hwr, ha, hi⟩ := tally_all threads t ⟨.write :: held, .running⟩
  simp [hx, hw] at hr hwr ha hi hle howner
  have hint : int32 (lock.ownerCount + 65536) = lock.ownerCount + 65536 := by
    apply int32_eq <;> omega
  refine hk.change rfl rfl rfl (hk.queue.notMem (by simp [hx]) (by simp [hx])) (by simp) (by simp)
    ?_ ?_ ?_ ?_ ?_ ?_
  · have hbottom := hshape.bottom hw
    exact ⟨fun _ => by simp [List.getLast?_cons, hbottom], by simp, by simp; omega⟩
  · simp [hx, Thread.Owner, hw]
  · exact ⟨by show lock.count = _; omega, by omega, by omega, by omega⟩
  · intro u hu
    cases hholder.symm.trans hu
    refine htaken.update_self rfl rfl fun _ => ?_
    show int32 (lock.ownerCount + 65536) = _
    simp
    omega
  · intro hnone
    cases hholder.symm.trans hnone
  · intro hnone
    cases hholder.symm.trans hnone

lemma Kept.writeLock_first (hx : threads t = ⟨[], .running⟩) (hzero : lock.count = 0) :
    Kept { lock with
      count := int32 (lock.count + writerCountBase)
      holder     := some t
      ownerCount := writerCountBase } (update threads t ⟨[.write], .running⟩) l := by
  obtain ⟨hcount, hreaders, hawaited, hwriters⟩ := hk.counted
  have hnone : lock.holder = none := hk.holder_eq_none (by omega)
  have hfree := hk.free hnone (by omega)
  have hnot : t ∉ l := hk.queue.notMem (by simp [hx]) (by simp [hx])
  have hidle : ∀ u, (threads u).held = [] := by
    intro u
    have hr := tally_eq_zero.1 (show tally Thread.readers threads = 0 by omega) u
    have hw : .write ∉ (threads u).held := hk.no_write (by simp [hnone])
    apply List.eq_nil_iff_forall_not_mem.2
    intro m hm
    cases m with
    | read =>
      have := List.count_pos_iff.2 hm
      rw [Thread.readers] at hr
      omega
    | write => exact hw hm
  have hann : tally Thread.announced threads ≤ tally Thread.readers threads := by
    apply tally_mono
    intro u
    simp only [Thread.announced, Thread.readers]
    split <;> simp_all
  obtain ⟨hr, hwr, -, -⟩ := tally_all threads t ⟨[.write], .running⟩
  simp [hx] at hr hwr
  have hint : int32 (lock.count + 65536) = 65536 := by
    rw [hzero]
    rfl
  refine ⟨hk.queue.update rfl rfl hnot (by simp) (by simp),
    forall_shaped hk.shaped ⟨by simp, by simp, by simp⟩, fun u => ?_,
    ⟨by show int32 (lock.count + 65536) = _; omega, by omega, by omega, by omega⟩, fun u hu => ?_,
    fun hn => (by cases hn), fun hn => (by cases hn)⟩
  · by_cases hu : u = t
    · subst hu
      simp [Thread.Owner]
    · have hno : ¬ (threads u).Owner := fun ho => by
        have := (hk.holder u).2 ho
        cases hnone.symm.trans this
      have hne : t ≠ u := fun he => hu he.symm
      simp [update_of_ne hu, hno, hne]
  · cases hu
    refine ⟨fun u hu => ?_, hfree.active, ?_, fun _ => ?_⟩
    · rw [update_of_ne hu]
      exact ⟨hidle u, hfree.settled u⟩
    · show lock.pendingReaders = 0
      have := hfree.pending
      omega
    · simp

lemma Kept.writeLock_wait (hx : threads t = ⟨[], .running⟩)
    (hne : lock.count ≠ 0) (hfew : tally Thread.readers threads ≤ 0x7fff)
    (hfew' : tally Thread.writers threads < 0x7fff)
    {active : ℤ} (hact : active = if lock.count < writerCountBase then
      int16 (lock.count - lock.pendingReaders) else lock.activeReaders) : Kept ({ lock with
        count := int32 (lock.count + writerCountBase), activeReaders := active }.wait t true)
      (update threads t ⟨[], .writeQueued⟩) (l ++ [t]) := by
  obtain ⟨hcount, hreaders, hawaited, hwriters⟩ := hk.counted
  have hnot : t ∉ l := hk.queue.notMem (by simp [hx]) (by simp [hx])
  obtain ⟨hr, hwr, ha, hi⟩ := tally_all threads t ⟨[], .writeQueued⟩
  simp [hx] at hr hwr ha hi
  have hint : int32 (lock.count + 65536) = lock.count + 65536 := by
    apply int32_eq <;> omega
  refine ⟨hk.queue.wait hnot rfl rfl rfl, forall_shaped hk.shaped ⟨by simp, by simp, by simp⟩,
    holder_update hk.holder rfl (by simp [hx, Thread.Owner]),
    ⟨by show int32 (lock.count + 65536) = _; omega, by omega, by omega, by omega⟩, ?_, ?_, ?_⟩
  · intro u hu
    have htaken := hk.taken u hu
    have hpos := hk.writers_pos hu
    have hut : t ≠ u := fun he => by
      have := (hk.holder u).1 hu
      rw [← he, hx] at this
      simp [Thread.Owner] at this
    have hhigh : ¬ lock.count < writerCountBase := by
      rw [writerCountBase_eq]
      omega
    rw [if_neg hhigh] at hact
    exact htaken.update hut ⟨rfl, by simp⟩ hact rfl rfl
  · intro _ hzero
    omega
  · intro hnone _
    by_cases hsome : 0 < tally Thread.writers threads
    · have haw := hk.awaited hnone hsome
      have hhigh : ¬ lock.count < writerCountBase := by
        rw [writerCountBase_eq]
        omega
      rw [if_neg hhigh] at hact
      obtain ⟨h, hhead, hplace⟩ := first_update ⟨[], .writeQueued⟩ haw.first hnot
      refine ⟨⟨h, by rw [List.head?_append, hhead]; rfl, hplace⟩, ?_, haw.pending,
        by rw [ha]; exact haw.pending_le, ?_, ?_⟩
      · rw [hi]
        exact hact.trans haw.active
      · show active + lock.pendingReaders ≤ _
        rw [hact]
        exact haw.total_le
      · show 0 < active ∨ 0 < lock.pendingReaders
        rw [hact]
        exact haw.expected
    · -- the first writer
      have hfree := hk.free hnone (by omega)
      have hlow : lock.count < writerCountBase := by
        rw [writerCountBase_eq]
        omega
      rw [if_pos hlow] at hact
      have hpending := hfree.pending
      have hempty := hfree.empty
      have hsum : tally Thread.readers threads =
          tally Thread.inside threads + tally Thread.announced threads := by
        apply tally_add
        intro u
        have hnotq : (threads u).place ≠ .readQueued := fun hq => by
          have := (hk.queue.queued u).2 (.inl hq)
          rw [hempty] at this
          cases this
        simp [hfree.settled u, hnotq]
      have hint' : int16 (lock.count - lock.pendingReaders) = lock.count - lock.pendingReaders := by
        apply int16_eq <;> omega
      refine ⟨⟨t, by simp [hempty], by simp⟩, ?_, ?_, ?_, ?_, ?_⟩
      · show active = _
        omega
      · show 0 ≤ lock.pendingReaders
        omega
      · show lock.pendingReaders ≤ _
        omega
      · show active + lock.pendingReaders ≤ _
        omega
      · show 0 < active ∨ 0 < lock.pendingReaders
        omega

lemma Kept.writeLock_woken (hx : (threads t).place = .writeWoken) :
    Kept { lock with holder := some t, ownerCount := writerCountBase }
      (update threads t ⟨.write :: (threads t).held, .running⟩) l := by
  obtain ⟨hcount, hreaders, hawaited, hwriters⟩ := hk.counted
  have hnot : t ∉ l := hk.queue.notMem (by simp [hx]) (by simp [hx])
  have hholder : lock.holder = some t := (hk.holder t).2 (.inr hx)
  have htaken := hk.taken t hholder
  have hheld : (threads t).held = [] := (hk.shaped t).waits (.inr hx)
  rw [hheld]
  obtain ⟨hr, hwr, -, -⟩ := tally_all threads t ⟨[.write], .running⟩
  simp [hx, hheld] at hr hwr
  refine hk.change rfl rfl hholder.symm hnot (by simp) (by simp) ?_ ?_ ?_ ?_ ?_ ?_
  · exact ⟨by simp, by simp, by simp⟩
  · simp [hx, Thread.Owner]
  · exact ⟨by show lock.count = _; omega, by omega, by omega, by omega⟩
  · intro u hu
    cases hholder.symm.trans hu
    refine htaken.update_self rfl rfl fun _ => ?_
    simp
  · intro hnone
    cases hholder.symm.trans hnone
  · intro hnone
    cases hholder.symm.trans hnone

/-! ## Giving up the write lock -/

lemma Kept.writeUnlock_nested (hx : threads t = ⟨.write :: held, .running⟩) (hw : .write ∈ held) :
    lock.holder = some t ∧ lock.ownerCount ≥ writerCountBase ∧
      int32 (lock.ownerCount - writerCountBase) ≥ writerCountBase ∧
      Kept { lock with ownerCount := int32 (lock.ownerCount - writerCountBase) }
        (update threads t ⟨held, .running⟩) l := by
  obtain ⟨hcount, hreaders, hawaited, hwriters⟩ := hk.counted
  have hholder : lock.holder = some t := (hk.holder t).2 (.inl (by simp [hx]))
  have hpos := hk.writers_pos hholder
  have hshape := hk.shaped t
  have htaken := hk.taken t hholder
  have hle := le_tally Thread.readers threads t
  have howner := htaken.owner (by simp [hx])
  rw [hx] at hshape howner hle
  have hnested := hshape.nested
  have hwcount := List.count_pos_iff.2 hw
  obtain ⟨hr, hwr, ha, hi⟩ := tally_all threads t ⟨held, .running⟩
  simp [hx, hw] at hr hwr ha hi hle howner hnested
  have hint : int32 (lock.ownerCount - 65536) = lock.ownerCount - 65536 := by
    apply int32_eq <;> omega
  refine ⟨hholder, by rw [writerCountBase_eq]; omega, by rw [writerCountBase_eq]; omega, ?_⟩
  refine hk.change rfl rfl rfl (hk.queue.notMem (by simp [hx]) (by simp [hx])) (by simp) (by simp)
    ?_ ?_ ?_ ?_ ?_ ?_
  · refine ⟨fun _ => ?_, by simp, by show held.count .write ≤ _; omega⟩
    have hbottom := hshape.bottom (by simp)
    cases held with
    | nil => cases hw
    | cons m held => simpa [List.getLast?_cons_cons] using hbottom
  · simp [hx, Thread.Owner, hw]
  · exact ⟨by show lock.count = _; omega, by omega, by omega, by omega⟩
  · intro u hu
    cases hholder.symm.trans hu
    refine htaken.update_self rfl rfl fun _ => ?_
    show int32 (lock.ownerCount - 65536) = _
    simp
    omega
  · intro hnone
    cases hholder.symm.trans hnone
  · intro hnone
    cases hholder.symm.trans hnone

lemma Kept.writeUnlock_last (hx : threads t = ⟨.write :: held, .running⟩) (hw : .write ∉ held) :
    lock.holder = some t ∧ lock.ownerCount = writerCountBase ∧
      tally Thread.readers (update threads t ⟨held, .running⟩) ≤ 0x7fff ∧
      Open { lock with
          holder := none
          ownerCount := 0
          count      := int32 (lock.count - writerCountBase) }
        (update threads t ⟨held, .running⟩) l := by
  obtain ⟨hcount, hreaders, hawaited, hwriters⟩ := hk.counted
  have hholder : lock.holder = some t := (hk.holder t).2 (.inl (by simp [hx]))
  have hpos := hk.writers_pos hholder
  have hshape := hk.shaped t
  have htaken := hk.taken t hholder
  have howner := htaken.owner (by simp [hx])
  have hnot : t ∉ l := hk.queue.notMem (by simp [hx]) (by simp [hx])
  rw [hx] at hshape howner
  -- the lock given up is the first one the thread took
  have hheld : held = [] := by
    have hbottom := hshape.bottom (by simp)
    cases held with
    | nil => rfl
    | cons m held =>
      rw [List.getLast?_cons_cons] at hbottom
      exact absurd (List.mem_of_getLast? hbottom) hw
  subst hheld
  obtain ⟨hr, hwr, ha, hi⟩ := tally_all threads t ⟨[], .running⟩
  simp [hx] at hr hwr ha hi howner
  have hint : int32 (lock.count - 65536) = lock.count - 65536 := by
    apply int32_eq <;> omega
  have hinside : tally Thread.inside threads = 0 := by
    apply tally_eq_zero.2
    intro u
    by_cases hu : u = t
    · rw [hu, hx]
      simp
    · have halone := htaken.alone u hu
      simp [halone.1, halone.2]
  refine ⟨hholder, howner, by omega, hk.queue.update rfl rfl hnot (by simp) (by simp),
    forall_shaped hk.shaped ⟨by simp, by simp, by simp⟩, rfl, fun u => ?_,
    ⟨by show int32 (lock.count - 65536) = _; omega, by omega, by omega, by omega⟩, by omega,
    htaken.active, htaken.pending⟩
  by_cases hu : u = t
  · rw [hu, update_self]
    simp [Thread.Owner]
  · rw [update_of_ne hu]
    intro ho
    have := (hk.holder u).2 ho
    exact hu (Option.some.inj (this.symm.trans hholder))

end

/-! ## Steps and runs -/

variable {s s' : State T} {a : Action T}

lemma State.require_of {p : Prop} [Decidable p] (hp : p) (s : State T) (fault : Fault) :
    s.require (decide p) fault = s := by
  simp [State.require, hp]

attribute [simp] State.init RWLock.init

lemma inv_init : (State.init : State T).Inv := by
  have hzero : ∀ f : Thread → ℕ, f ⟨[], .running⟩ = 0 →
      tally f (State.init : State T).threads = 0 := fun f hf => tally_eq_zero.2 fun _ => hf
  have hr := hzero Thread.readers rfl
  have hw := hzero Thread.writers rfl
  have ha := hzero Thread.announced rfl
  refine ⟨rfl, [], ⟨Waiters.holds_empty, ?_, ?_⟩, fun t => ⟨?_, ?_, ?_⟩, ?_, ?_, ?_, ?_, ?_⟩
  · simp
  · simp
  · simp
  · simp
  · simp
  · simp [Thread.Owner]
  · refine ⟨?_, by omega, by omega, by omega⟩
    rw [hr, hw]
    rfl
  · simp
  · intro _ _
    refine ⟨rfl, rfl, ?_, by simp, by simp⟩
    rw [ha]
    rfl
  · intro _ hpos
    omega

section

variable (hi : s.Inv)
include hi

lemma inv_readLock (hplace : (s.threads t).place = .running)
    (hok : Countable s (.readLock t)) : (rwLockReadLock s t).Inv := by
  obtain ⟨hfaults, l, hk⟩ := hi
  have hx : s.threads t = ⟨(s.threads t).held, .running⟩ := by rw [← hplace]
  have hok : s.readers < if s.writers = 0 then 0xffff else 0x7fff := hok
  rw [rwLockReadLock]
  by_cases hhigh : s.lock.count ≥ writerCountBase
  · have hsome : 0 < s.writers := hk.count_ge_iff.1 hhigh
    rw [if_neg (by omega)] at hok
    simp only [hhigh, if_true]
    exact ⟨hfaults, l, hk.readLock_slow hx hok hsome⟩
  · have hnone : s.writers = 0 := by
      rw [hk.count_ge_iff] at hhigh
      exact Nat.eq_zero_of_not_pos hhigh
    rw [if_pos hnone] at hok
    simp only [hhigh, if_false]
    exact ⟨hfaults, l, hk.readLock_fast hx hok hnone⟩

lemma inv_readLockSlow (hplace : (s.threads t).place = .readAnnounced) :
    (rwLockReadLockSlow s t).Inv := by
  obtain ⟨hfaults, l, hk⟩ := hi
  have hx : s.threads t = ⟨(s.threads t).held, .readAnnounced⟩ := by rw [← hplace]
  rw [rwLockReadLockSlow]
  by_cases hholder : s.lock.holder = some t
  · simp only [hholder, if_true]
    exact ⟨hfaults, l, hholder ▸ hk.readLock_owner hx hholder⟩
  · simp only [hholder, if_false]
    by_cases hpending : s.lock.pendingReaders > 0
    · simp only [hpending, if_true]
      exact ⟨hfaults, l, hk.readLock_pending hx hholder hpending⟩
    · simp only [hpending, if_false]
      obtain ⟨hsome, hk'⟩ := hk.readLock_wait hx hholder hpending
      have hhigh := hk.count_ge_iff.2 hsome
      rw [State.require_of hhigh]
      exact ⟨hfaults, l ++ [t], hk'⟩

lemma inv_readUnlock (hx : s.threads t = ⟨.read :: held, .running⟩) :
    (rwLockReadUnlock s t held).Inv := by
  obtain ⟨hfaults, l, hk⟩ := hi
  rw [rwLockReadUnlock]
  by_cases hhigh : s.lock.count ≥ writerCountBase
  · simp only [hhigh, if_true]
    exact ⟨hfaults, l, hk.readUnlock_slow hx (hk.count_ge_iff.1 hhigh)⟩
  · have hnone : tally Thread.writers s.threads = 0 := by
      rw [hk.count_ge_iff] at hhigh
      omega
    simp only [hhigh, if_false]
    exact ⟨hfaults, l, hk.readUnlock_fast hx hnone⟩

lemma inv_readUnlockSlow (hplace : (s.threads t).place = .readLeaving) :
    (rwLockReadUnlockSlow s t).Inv := by
  obtain ⟨hfaults, l, hk⟩ := hi
  have hx : s.threads t = ⟨(s.threads t).held, .readLeaving⟩ := by rw [← hplace]
  rw [rwLockReadUnlockSlow]
  by_cases hholder : s.lock.holder = some t
  · obtain ⟨hassert, hk'⟩ := hk.readUnlock_owner hx hholder
    rw [if_pos hholder, State.require_of hassert]
    exact ⟨hfaults, l, hk'⟩
  · obtain ⟨hnone, hsome, hone⟩ := hk.leaving hx hholder
    have haw := hk.awaited hnone hsome
    have hactive := haw.active
    have htotal := haw.total_le
    have hpending := haw.pending
    have hint : int16 (s.lock.activeReaders - 1) = s.lock.activeReaders - 1 := by
      apply int16_eq <;> omega
    simp only [hholder, if_false]
    by_cases hmore : s.lock.activeReaders - 1 > 0
    · rw [if_pos (by rw [hint]; exact hmore)]
      exact ⟨hfaults, l, hk.readUnlock_more hx hholder (.inl hmore)⟩
    · rw [if_neg (by rw [hint]; exact hmore), if_neg (by omega)]
      by_cases hpos : 0 < s.lock.pendingReaders
      · -- a pending reader keeps the writer waiting
        have hk' := hk.readUnlock_more hx hholder (.inr hpos)
        obtain ⟨h, hhead, hqueued⟩ := haw.first
        have hw : s.lock.writer h = true :=
          (hk.queue.writer h (List.mem_of_head? hhead)).2 hqueued
        have hhead' : s.lock.waiters.head = some h := by rw [hk.queue.holds.head_eq, hhead]
        have hstay : { s.lock with activeReaders := int16 (s.lock.activeReaders - 1) }.unblock =
            ({ s.lock with activeReaders := int16 (s.lock.activeReaders - 1) }, [], 0) := by
          simp [RWLock.unblock, hhead', hnone, hw, hpos]
        refine ⟨hfaults, l, ?_⟩
        simp only [State.unblock, State.setThread]
        rw [hstay]
        exact hk'
      · have hzero : s.lock.activeReaders - 1 = 0 := by omega
        obtain ⟨hsome', hopen⟩ := hk.readUnlock_last hx hholder hzero (by omega)
        obtain ⟨l', hk'⟩ := hopen.unblock hsome'
        rw [hint, hzero]
        exact ⟨hfaults, l', hk'⟩

lemma inv_writeLock (hplace : (s.threads t).place = .running)
    (hnest : .read ∈ (s.threads t).held → .write ∈ (s.threads t).held)
    (hok : Countable s (.writeLock t)) : (rwLockWriteLock s t).Inv := by
  obtain ⟨hfaults, l, hk⟩ := hi
  have hx : s.threads t = ⟨(s.threads t).held, .running⟩ := by rw [← hplace]
  have hok : if .write ∈ (s.threads t).held then (s.threads t).held.count .write < 0x7fff
    else s.readers ≤ 0x7fff ∧ s.writers < 0x7fff := hok
  rw [rwLockWriteLock]
  by_cases hholder : s.lock.holder = some t
  · have hw : .write ∈ (s.threads t).held := by
      simpa [hplace, Thread.Owner] using (hk.holder t).1 hholder
    rw [if_pos hw] at hok
    simp only [hholder, if_true]
    exact ⟨hfaults, l, hholder ▸ hk.writeLock_owner hx hholder hok⟩
  · have hw := hk.no_write hholder
    rw [if_neg hw] at hok
    have hheld : (s.threads t).held = [] := by
      apply List.eq_nil_iff_forall_not_mem.2
      intro m hm
      cases m with
      | read => exact hw (hnest hm)
      | write => exact hw hm
    rw [hheld] at hx
    simp only [hholder, if_false, hheld]
    by_cases hzero : s.lock.count = 0
    · rw [if_pos hzero]
      exact ⟨hfaults, l, hk.writeLock_first hx hzero⟩
    · rw [if_neg hzero]
      have hk' := hk.writeLock_wait hx hzero hok.1 hok.2 rfl
      refine ⟨hfaults, l ++ [t], ?_⟩
      by_cases hlow : s.lock.count < writerCountBase
      · simpa only [hlow, if_true, State.setThread] using hk'
      · simpa only [hlow, if_false, State.setThread] using hk'

lemma inv_writeLockWoken (hplace : (s.threads t).place = .writeWoken) :
    (rwLockWriteLockWoken s t).Inv := by
  obtain ⟨hfaults, l, hk⟩ := hi
  exact ⟨hfaults, l, hk.writeLock_woken hplace⟩

lemma inv_writeUnlock (hx : s.threads t = ⟨.write :: held, .running⟩) :
    (rwLockWriteUnlock s t held).Inv := by
  obtain ⟨hfaults, l, hk⟩ := hi
  rw [rwLockWriteUnlock]
  by_cases hw : .write ∈ held
  · obtain ⟨hholder, hassert, hmore, hk'⟩ := hk.writeUnlock_nested hx hw
    rw [if_neg (by simp [hholder]), State.require_of hassert, if_pos hmore]
    exact ⟨hfaults, l, hk'⟩
  · obtain ⟨hholder, howner, hfew, hopen⟩ := hk.writeUnlock_last hx hw
    have hlast : int32 (s.lock.ownerCount - writerCountBase) = 0 := by
      rw [howner]
      rfl
    have hassert : s.lock.ownerCount ≥ writerCountBase := howner.ge
    obtain ⟨hcount, hreaders, -, -⟩ := hopen.counted
    rw [if_neg (by simp [hholder]), State.require_of hassert, hlast]
    simp only [writerCountBase_eq, ge_iff_le, Int.reduceLE, if_false]
    rw [writerCountBase_eq] at hopen
    have hcount' : int32 (s.lock.count - 65536) =
        tally Thread.readers (update s.threads t ⟨held, .running⟩) +
          65536 * tally Thread.writers (update s.threads t ⟨held, .running⟩) := hcount
    by_cases hsome : 0 < tally Thread.writers (update s.threads t ⟨held, .running⟩)
    · rw [if_neg (by omega), if_pos (by omega)]
      obtain ⟨l', hk'⟩ := hopen.unblock hsome
      have hactive : s.lock.activeReaders = int16 0 := hopen.active
      refine ⟨hfaults, l', ?_⟩
      simp only [State.unblock, State.setThread]
      rw [← hactive]
      exact hk'
    · have hnone : tally Thread.writers (update s.threads t ⟨held, .running⟩) = 0 := by
        omega
      obtain ⟨l', hk'⟩ := hopen.unblock_readers hnone hfew
      by_cases hzero : int32 (s.lock.count - 65536) = 0
      · have hquiet : tally Thread.readers (update s.threads t ⟨held, .running⟩) = 0 := by
          omega
        rw [if_pos hzero]
        exact ⟨hfaults, l, hopen.quiet hnone hquiet⟩
      · rw [if_neg hzero, if_neg (by omega)]
        exact ⟨hfaults, l', hk'⟩

lemma inv_step (hok : Countable s a) (hs : step s a = some s') : s'.Inv := by
  cases a with
  | readLock t =>
    simp only [step, Option.ite_none_right_eq_some, Option.some.injEq] at hs
    exact hs.2 ▸ inv_readLock hi hs.1 hok
  | readLockSlow t =>
    simp only [step, Option.ite_none_right_eq_some, Option.some.injEq] at hs
    exact hs.2 ▸ inv_readLockSlow hi hs.1
  | readUnlock t =>
    simp only [step] at hs
    split at hs
    · rename_i held hx
      cases hs
      exact inv_readUnlock hi hx
    · cases hs
  | readUnlockSlow t =>
    simp only [step, Option.ite_none_right_eq_some, Option.some.injEq] at hs
    exact hs.2 ▸ inv_readUnlockSlow hi hs.1
  | writeLock t =>
    simp only [step, Option.ite_none_right_eq_some, Option.some.injEq] at hs
    exact hs.2 ▸ inv_writeLock hi hs.1.1 hs.1.2 hok
  | writeLockWoken t =>
    simp only [step, Option.ite_none_right_eq_some, Option.some.injEq] at hs
    exact hs.2 ▸ inv_writeLockWoken hi hs.1
  | writeUnlock t =>
    simp only [step] at hs
    split at hs
    · rename_i held hx
      cases hs
      exact inv_writeUnlock hi hx
    · cases hs

lemma State.Inv.exclusive : s.Exclusive := by
  obtain ⟨hfaults, l, hk⟩ := hi
  have hholder : ∀ t, .write ∈ (s.threads t).held → s.lock.holder = some t :=
    fun t hw => (hk.holder t).2 (.inl hw)
  have hcounters : 0 ≤ s.lock.activeReaders ∧ 0 ≤ s.lock.pendingReaders := by
    cases hh : s.lock.holder with
    | some t =>
      have htaken := hk.taken t hh
      exact ⟨htaken.active.ge, htaken.pending.ge⟩
    | none =>
      by_cases hw : tally Thread.writers s.threads = 0
      · have hfree := hk.free hh hw
        have hpending := hfree.pending
        exact ⟨hfree.active.ge, by omega⟩
      · have haw := hk.awaited hh (Nat.pos_of_ne_zero hw)
        have hactive := haw.active
        exact ⟨by omega, haw.pending⟩
  refine ⟨?_, ?_, hcounters.1, hcounters.2, hfaults, hk.counted.count_eq⟩
  · intro t u ht hu
    exact Option.some.inj ((hholder u hu).symm.trans (hholder t ht))
  · intro t u ht hne hread
    have halone := ((hk.taken t (hholder t ht)).alone u hne).1
    rw [halone] at hread
    cases hread

end

/-- In every run in which the counters are wide enough, the lock excludes. -/
theorem rwLock_exclusive {hist : History (State T) (Action T)}
    (hr : Run step Countable .init hist s) : s.Exclusive :=
  (hr.invariant (I := State.Inv) inv_init inv_step).exclusive

/-- Two readers, a writer that overtakes one of them on its way, and the wake-ups that follow. -/
theorem rwLock_exclusive_overtaken :
    let s := outcome step (State.init : State (Fin 3))
      [.readLock 0, .writeLock 1, .readLock 2, .readUnlock 0, .readLockSlow 2, .readUnlockSlow 0,
        .writeLockWoken 1, .readLock 1, .readLockSlow 1]
    .write ∈ (s.threads 1).held ∧ s.Exclusive := by
  refine ⟨by decide, ?_⟩
  obtain ⟨hist, hr, -⟩ := run_outcome step
    (fun s a (h : decide (Countable s a) = true) => of_decide_eq_true h) (State.init : State (Fin 3))
    [.readLock 0, .writeLock 1, .readLock 2, .readUnlock 0, .readLockSlow 2, .readUnlockSlow 0,
      .writeLockWoken 1, .readLock 1, .readLockSlow 1] (fun _ => true) (by decide)
  exact rwLock_exclusive hr

/-! ## More readers than 15 bits can count -/

/-- The state after the first of two threads took `n` read locks. -/
def nestedReads (n : ℕ) : State Bool where
  lock := { RWLock.init with count := n }
  threads := update (fun _ => ⟨[], .running⟩) true ⟨List.replicate n .read, .running⟩
  faults := []

lemma step_nestedReads {n : ℕ} (hn : n < 0x10000) :
    step (nestedReads n) (.readLock true) = some (nestedReads (n + 1)) := by
  have hint : int32 (n + 1) = (n + 1 : ℕ) := by
    rw [int32_eq] <;> omega
  have hlow : ¬ (65536 : ℤ) ≤ n := by omega
  simp [step, nestedReads, rwLockReadLock, State.setThread, hint, hlow, List.replicate_succ]

lemma run_nestedReads {n : ℕ} (hn : n ≤ 0x10000) :
    ∃ hist, Run step (fun _ _ => True) State.init hist (nestedReads n) := by
  induction n with
  | zero =>
    have hinit : nestedReads 0 = State.init := by
      simp [nestedReads]
    rw [hinit]
    exact ⟨[], .nil⟩
  | succ n ih =>
    obtain ⟨hist, hr⟩ := ih (by omega)
    exact ⟨_, .snoc hr trivial (step_nestedReads (by omega))⟩

lemma step_nestedReads_write {n : ℕ} (hpos : n ≠ 0) (hn : n < 0x10000) :
    ∃ s, step (nestedReads n) (.writeLock false) = some s ∧ s.lock.activeReaders = int16 n := by
  have hlow : (n : ℤ) < 65536 := by omega
  refine ⟨rwLockWriteLock (nestedReads n) false, by simp [step, nestedReads], ?_⟩
  simp [rwLockWriteLock, nestedReads, RWLock.wait, hpos, hlow]

/-- A writer that comes while a thread has 32768 read locks: `active_readers` becomes negative. -/
theorem rwLock_active_negative : ¬ ∀ (hist : History (State Bool) (Action Bool)) (s : State Bool),
    Run step (fun _ _ => True) .init hist s → s.Exclusive := by
  intro hall
  obtain ⟨n, hn⟩ : ∃ n : ℕ, n = 0x8000 := ⟨_, rfl⟩
  obtain ⟨hist, hr⟩ := run_nestedReads (n := n) (by omega)
  obtain ⟨s, hs, hactive⟩ := step_nestedReads_write (n := n) (by omega) (by omega)
  have hnonneg := (hall _ _ (.snoc hr trivial hs)).active_nonneg
  have hnegative : int16 n = -0x8000 := by
    rw [hn]
    rfl
  omega

end Haiku.Lock
