import Haiku.Lock.ReadWrite

/-!
# The invariant of a read-write lock

In every run in which the counters are wide enough, a thread with the write lock is alone, and the
counters of the lock are what their comments say. The invariant separates three situations:

* a thread holds the write lock: then no one else reads, and `active_readers` and
  `pending_readers` are zero;
* no one holds it and no writer is announced: then no one waits, and `pending_readers` counts
  exactly the readers that announced themselves and did not enter yet;
* no one holds it, but a writer is announced: then the first waiter is a writer,
  `active_readers` counts the readers it waits for, and `pending_readers` at most the readers that
  have yet to enter.
-/

set_option linter.unusedSectionVars false

namespace Haiku.Lock

open Function Lib

variable {T : Type} [DecidableEq T] [Fintype T]

/-! ## Arithmetic of the counters -/

lemma int16_eq {x : ℤ} (hlo : 0 ≤ x) (hhi : x ≤ 0x7fff) : int16 x = x := by
  have hbmod : x.bmod 65536 = x := by
    apply Int.bmod_eq_of_le <;> omega
  exact hbmod

lemma int32_eq {x : ℤ} (hlo : -0x80000000 ≤ x) (hhi : x ≤ 0x7fffffff) : int32 x = x := by
  have hbmod : x.bmod 4294967296 = x := by
    apply Int.bmod_eq_of_le <;> omega
  exact hbmod

@[simp] lemma writerCountBase_eq : writerCountBase = 65536 := rfl

/-! ## The invariant -/

/-- The thread announced a read lock and is on its way to `_rw_lock_read_lock()`. -/
def Thread.announced (th : Thread) : ℕ := if th.place = .readAnnounced then 1 else 0

/-- The read locks a thread has, with the one it is giving up. -/
def Thread.inside (th : Thread) : ℕ :=
  th.held.count .read + if th.place = .readLeaving then 1 else 0

def Thread.queuedReader (th : Thread) : Bool := th.place = .readQueued

/-- What holds of every thread by itself. -/
structure Thread.Shaped (th : Thread) : Prop where
  /-- the first lock a writer took is a write lock -/
  bottom : .write ∈ th.held → th.held.getLast? = some .write
  waits : th.place = .writeQueued ∨ th.place = .writeWoken → th.held = []
  nested : th.held.count .write ≤ 0x7fff

/-- What `owner_count` is while the thread holds the lock. -/
def Thread.owned (th : Thread) : ℤ :=
  65536 * th.held.count .write + th.inside

structure Queue (lock : RWLock T) (threads : T → Thread) (l : List T) : Prop where
  holds : lock.waiters.Holds l
  queued : ∀ t, t ∈ l ↔ (threads t).place = .readQueued ∨ (threads t).place = .writeQueued
  writer : ∀ t ∈ l, lock.writer t = true ↔ (threads t).place = .writeQueued

def Alone (threads : T → Thread) (t : T) : Prop :=
  ∀ u, u ≠ t → (threads u).held = [] ∧ (threads u).place ≠ .readLeaving

structure Taken (lock : RWLock T) (threads : T → Thread) (t : T) : Prop where
  alone : Alone threads t
  active : lock.activeReaders = 0
  pending : lock.pendingReaders = 0
  owner : (threads t).place ≠ .writeWoken → lock.ownerCount = (threads t).owned

/-- No thread holds the lock or waits for it as a writer. -/
structure Free (lock : RWLock T) (threads : T → Thread) (l : List T) : Prop where
  empty : l = []
  active : lock.activeReaders = 0
  pending : lock.pendingReaders = tally Thread.announced threads
  pending_le : lock.pendingReaders ≤ 0x7fff
  settled : ∀ t, (threads t).place ≠ .readLeaving

/-- No thread holds the lock, but a writer waits for it. -/
structure Awaited (lock : RWLock T) (threads : T → Thread) (l : List T) : Prop where
  first : ∃ h, l.head? = some h ∧ (threads h).place = .writeQueued
  active : lock.activeReaders = tally Thread.inside threads
  pending : 0 ≤ lock.pendingReaders
  pending_le : lock.pendingReaders ≤ tally Thread.announced threads
  total_le : lock.activeReaders + lock.pendingReaders ≤ 0x7fff
  /-- there is a reader that will wake it up -/
  expected : 0 < lock.activeReaders ∨ 0 < lock.pendingReaders

structure Counted (lock : RWLock T) (threads : T → Thread) : Prop where
  count_eq : lock.count = tally Thread.readers threads + 65536 * tally Thread.writers threads
  readers_le : tally Thread.readers threads ≤ 0xffff
  awaited_le : 0 < tally Thread.writers threads → tally Thread.readers threads ≤ 0x7fff
  writers_le : tally Thread.writers threads ≤ 0x7fff

/-- The thread holds the write lock, or was chosen to hold it next. -/
def Thread.Owner (th : Thread) : Prop := .write ∈ th.held ∨ th.place = .writeWoken

/-- The invariant of the lock, with the list of its waiters. -/
structure Kept (lock : RWLock T) (threads : T → Thread) (l : List T) : Prop where
  queue : Queue lock threads l
  shaped : ∀ t, (threads t).Shaped
  holder : ∀ t, lock.holder = some t ↔ (threads t).Owner
  counted : Counted lock threads
  taken : ∀ t, lock.holder = some t → Taken lock threads t
  free : lock.holder = none → tally Thread.writers threads = 0 → Free lock threads l
  awaited : lock.holder = none → 0 < tally Thread.writers threads → Awaited lock threads l

def State.Inv (s : State T) : Prop := s.faults = [] ∧ ∃ l, Kept s.lock s.threads l

variable {lock lock' : RWLock T} {threads : T → Thread} {l : List T} {t u : T} {th : Thread}

/-! ## What a change of one thread does -/

lemma tally_all (threads : T → Thread) (t : T) (th : Thread) :
    tally Thread.readers (update threads t th) + (threads t).readers =
        tally Thread.readers threads + th.readers ∧
      tally Thread.writers (update threads t th) + (threads t).writers =
        tally Thread.writers threads + th.writers ∧
      tally Thread.announced (update threads t th) + (threads t).announced =
        tally Thread.announced threads + th.announced ∧
      tally Thread.inside (update threads t th) + (threads t).inside =
        tally Thread.inside threads + th.inside :=
  ⟨tally_update _ _ _ _, tally_update _ _ _ _, tally_update _ _ _ _, tally_update _ _ _ _⟩

lemma Queue.update (hq : Queue lock threads l) (hw : lock'.waiters = lock.waiters)
    (hf : lock'.writer = lock.writer) (hnot : t ∉ l) (hr : th.place ≠ .readQueued)
    (hwr : th.place ≠ .writeQueued) : Queue lock' (update threads t th) l := by
  refine ⟨hw ▸ hq.holds, ?_, fun u hu => ?_⟩
  · rw [Function.forall_update_iff threads
      fun u (th : Thread) => u ∈ l ↔ th.place = .readQueued ∨ th.place = .writeQueued]
    exact ⟨by simp [hnot, hr, hwr], fun u _ => hq.queued u⟩
  · have hne : u ≠ t := fun he => hnot (he ▸ hu)
    rw [update_of_ne hne, hf]
    exact hq.writer u hu

lemma Queue.wait (hq : Queue lock threads l) {w : Bool} (hnot : t ∉ l)
    (hw : lock'.waiters = (lock.wait t w).waiters) (hf : lock'.writer = (lock.wait t w).writer)
    (hth : th.place = if w then .writeQueued else .readQueued) :
    Queue lock' (Function.update threads t th) (l ++ [t]) := by
  refine ⟨hw ▸ hq.holds.enqueue hnot, ?_, fun u hu => ?_⟩
  · rw [Function.forall_update_iff threads
      fun u (th : Thread) => u ∈ l ++ [t] ↔ th.place = .readQueued ∨ th.place = .writeQueued]
    refine ⟨?_, fun u hu => ?_⟩
    · cases w <;> simp [hth]
    · rw [← hq.queued u]
      simp [hu]
  · rw [hf]
    by_cases hut : u = t
    · subst hut
      cases w <;> simp [RWLock.wait, hth]
    · have hul : u ∈ l := by simpa [hut] using hu
      rw [Function.update_of_ne hut]
      simp only [RWLock.wait, Function.update_of_ne hut]
      exact hq.writer u hul

lemma Queue.notMem (hq : Queue lock threads l) (hr : (threads t).place ≠ .readQueued)
    (hw : (threads t).place ≠ .writeQueued) : t ∉ l := by
  rw [hq.queued t]
  simp [hr, hw]

lemma forall_shaped (h : ∀ t, (threads t).Shaped) (hth : th.Shaped) (u : T) :
    (update threads t th u).Shaped :=
  (Function.forall_update_iff threads fun _ (th : Thread) => th.Shaped).2 ⟨hth, fun u _ => h u⟩ u

lemma holder_update (h : ∀ u, lock.holder = some u ↔ (threads u).Owner)
    (hsame : lock'.holder = lock.holder) (hth : th.Owner ↔ (threads t).Owner) (u : T) :
    lock'.holder = some u ↔ (update threads t th u).Owner := by
  rw [hsame, h u]
  by_cases hu : u = t
  · subst hu
    rw [update_self, hth]
  · rw [update_of_ne hu]

lemma Alone.update (h : Alone threads u)
    (hth : t ≠ u → th.held = [] ∧ th.place ≠ .readLeaving) :
    Alone (update threads t th) u := by
  intro v hv
  by_cases hvt : v = t
  · subst hvt
    rw [update_self]
    exact hth hv
  · rw [update_of_ne hvt]
    exact h v hv

lemma Taken.update (h : Taken lock threads u) (ht : t ≠ u)
    (hth : th.held = [] ∧ th.place ≠ .readLeaving) (ha : lock'.activeReaders = lock.activeReaders)
    (hp : lock'.pendingReaders = lock.pendingReaders) (ho : lock'.ownerCount = lock.ownerCount) :
    Taken lock' (update threads t th) u := by
  refine ⟨h.alone.update fun _ => hth, ha.trans h.active, hp.trans h.pending, ?_⟩
  rw [update_of_ne ht.symm, ho]
  exact h.owner

lemma Taken.update_self (h : Taken lock threads t) (ha : lock'.activeReaders = lock.activeReaders)
    (hp : lock'.pendingReaders = lock.pendingReaders)
    (ho : th.place ≠ .writeWoken → lock'.ownerCount = th.owned) :
    Taken lock' (Function.update threads t th) t := by
  refine ⟨h.alone.update fun hne => absurd rfl hne, ha.trans h.active, hp.trans h.pending, ?_⟩
  rw [Function.update_self]
  exact ho

lemma first_update (th : Thread)
    (h : ∃ h, l.head? = some h ∧ (threads h).place = .writeQueued) (hnot : t ∉ l) :
    ∃ h, l.head? = some h ∧ (update threads t th h).place = .writeQueued := by
  obtain ⟨h, hhead, hplace⟩ := h
  have hne : h ≠ t := fun he => hnot (he ▸ List.mem_of_head? hhead)
  refine ⟨h, hhead, ?_⟩
  rw [update_of_ne hne]
  exact hplace

lemma settled_update (h : ∀ t, (threads t).place ≠ .readLeaving) (hth : th.place ≠ .readLeaving)
    (u : T) : (update threads t th u).place ≠ .readLeaving :=
  (Function.forall_update_iff threads fun _ (th : Thread) => th.place ≠ .readLeaving).2
    ⟨hth, fun u _ => h u⟩ u

/-! ## What the invariant says about the counters -/

section

variable (hk : Kept lock threads l)
include hk

lemma Kept.writers_pos (ht : lock.holder = some t) : 0 < tally Thread.writers threads := by
  have hone : (threads t).writers = 1 := by
    rw [Thread.writers, if_pos]
    rcases (hk.holder t).1 ht with hw | hw
    · exact .inl hw
    · exact .inr (.inr hw)
  have hle := le_tally Thread.writers threads t
  omega

lemma Kept.holder_eq_none (hnone : tally Thread.writers threads = 0) : lock.holder = none := by
  cases hh : lock.holder with
  | none => rfl
  | some u => exact absurd (hk.writers_pos hh) (by omega)

lemma Kept.no_write (ht : lock.holder ≠ some t) : .write ∉ (threads t).held :=
  fun hmem => ht ((hk.holder t).2 (.inl hmem))

lemma Kept.count_ge_iff : lock.count ≥ writerCountBase ↔ 0 < tally Thread.writers threads := by
  have hcount := hk.counted.count_eq
  have hreaders := hk.counted.readers_le
  rw [writerCountBase_eq]
  omega

lemma Kept.change (hw : lock'.waiters = lock.waiters)
    (hf : lock'.writer = lock.writer) (hh : lock'.holder = lock.holder) (hnot : t ∉ l)
    (hr : th.place ≠ .readQueued) (hwr : th.place ≠ .writeQueued) (hshape : th.Shaped)
    (howner : th.Owner ↔ (threads t).Owner) (hcounted : Counted lock' (update threads t th))
    (htaken : ∀ u, lock.holder = some u → Taken lock' (update threads t th) u)
    (hfree : lock.holder = none → tally Thread.writers (update threads t th) = 0 →
      Free lock' (update threads t th) l)
    (hawaited : lock.holder = none → 0 < tally Thread.writers (update threads t th) →
      Awaited lock' (update threads t th) l) : Kept lock' (update threads t th) l where
  queue := hk.queue.update hw hf hnot hr hwr
  shaped := forall_shaped hk.shaped hshape
  holder := holder_update hk.holder hh howner
  counted := hcounted
  taken := fun u hu => htaken u (hh ▸ hu)
  free := fun hnone => hfree (hh ▸ hnone)
  awaited := fun hnone => hawaited (hh ▸ hnone)

end

end Haiku.Lock
