import Haiku.Lib.Run
import Haiku.Lib.Tally
import Haiku.Lib.Waiters

/-!
# Read-write locks

The `rw_lock` of `src/system/kernel/locks/lock.cpp` and `headers/private/kernel/lock.h`, without
`KDEBUG_RW_LOCK_DEBUG`. A step is one `atomic_add()` outside the thread spinlock, or one section
that runs under it; a thread between two steps of a call is at one of the `Place`s below.

The fields are integers of the widths the structure gives them: `count` and `owner_count` have 32
bits, `active_readers` and `pending_readers` have 16.
-/

namespace Haiku.Lock

open Lib

def int16 (x : ℤ) : ℤ := x.bmod (2 ^ 16)

def int32 (x : ℤ) : ℤ := x.bmod (2 ^ 32)

/-- `RW_LOCK_WRITER_COUNT_BASE` -/
def writerCountBase : ℤ := 0x10000

/-- `rw_lock`; a `rw_lock_waiter` is named by its thread. -/
structure RWLock (T : Type) where
  waiters : Waiters T
  /-- `rw_lock_waiter::writer` -/
  writer : T → Bool
  /-- no thread for `-1` -/
  holder : Option T
  count : ℤ
  ownerCount : ℤ
  activeReaders : ℤ
  pendingReaders : ℤ

inductive Mode
  | read
  | write
  deriving DecidableEq

/-- Where a thread is in the lock's code. -/
inductive Place
  /-- not in it -/
  | running
  /-- between the `atomic_add()` of `rw_lock_read_lock()` and `_rw_lock_read_lock()` -/
  | readAnnounced
  /-- blocked in `_rw_lock_read_lock()` -/
  | readQueued
  /-- between the `atomic_add()` of `rw_lock_read_unlock()` and `_rw_lock_read_unlock()` -/
  | readLeaving
  /-- blocked in `rw_lock_write_lock()` -/
  | writeQueued
  /-- unblocked in `rw_lock_write_lock()`, but without the thread spinlock yet -/
  | writeWoken
  deriving DecidableEq

/-- A thread with the locks it has, the one taken last first. -/
structure Thread where
  held : List Mode
  place : Place

/-- What the code reports with `panic()` or an `ASSERT()`. -/
inductive Fault
  /-- `ASSERT(lock->count >= RW_LOCK_WRITER_COUNT_BASE)` -/
  | noWriterAnnounced
  /-- `ASSERT(lock->owner_count % RW_LOCK_WRITER_COUNT_BASE > 0)` -/
  | ownerNotReading
  /-- "rw_lock_read_unlock(): lock not read-locked" -/
  | notReadLocked
  /-- "rw_lock_write_unlock(): lock not write-locked by this thread" -/
  | notWriteLocked
  /-- `ASSERT(lock->owner_count >= RW_LOCK_WRITER_COUNT_BASE)` -/
  | ownerNotWriting

structure State (T : Type) where
  lock : RWLock T
  threads : T → Thread
  /-- the faults reported so far -/
  faults : List Fault

variable {T : Type} [DecidableEq T] [Fintype T]

def RWLock.init : RWLock T where
  waiters := .empty
  writer := fun _ => false
  holder := none
  count := 0
  ownerCount := 0
  activeReaders := 0
  pendingReaders := 0

def State.init : State T where
  lock := .init
  threads := fun _ => ⟨[], .running⟩
  faults := []

def State.setThread (s : State T) (t : T) (thread : Thread) : State T :=
  { s with threads := Function.update s.threads t thread }

def State.require (s : State T) (condition : Bool) (fault : Fault) : State T :=
  if condition then s else { s with faults := fault :: s.faults }

/-! ## The functions of the lock -/

/-- `rw_lock_wait()` up to where the thread blocks -/
def RWLock.wait (lock : RWLock T) (t : T) (writer : Bool) : RWLock T :=
  { lock with
    waiters := lock.waiters.enqueue t
    writer  := Function.update lock.writer t writer }

/-- The loop of `rw_lock_unblock()` that dequeues readers. -/
def RWLock.dequeueReaders : ℕ → RWLock T → RWLock T × List T
  | 0, lock => (lock, [])
  | fuel + 1, lock =>
    match lock.waiters.head with
    | none => (lock, [])
    | some h =>
      if lock.writer h then (lock, [])
      else
        let r := dequeueReaders fuel { lock with waiters := lock.waiters.dequeue h }
        (r.1, h :: r.2)

/-- `rw_lock_unblock()`: the lock, the threads it unblocks, and what it returns. -/
def RWLock.unblock (lock : RWLock T) : RWLock T × List T × ℤ :=
  match lock.waiters.head, lock.holder with
  | some h, none =>
    if lock.writer h then
      if lock.activeReaders > 0 ∨ lock.pendingReaders > 0 then (lock, [], 0)
      else
        ({ lock with waiters := lock.waiters.dequeue h, holder := some h }, [h], writerCountBase)
    else
      let r := lock.dequeueReaders (Fintype.card T)
      let lock :=
        if r.1.count ≥ writerCountBase then
          { r.1 with activeReaders := int16 (r.1.activeReaders + r.2.length) }
        else r.1
      (lock, r.2, r.2.length)
  | _, _ => (lock, [], 0)

/-- `thread_unblock_locked()` on a thread that waits for the lock. A reader has nothing left to do
in `_rw_lock_read_lock()`; a writer has. -/
def Thread.unblocked (th : Thread) : Thread :=
  match th.place with
  | .readQueued => ⟨.read :: th.held, .running⟩
  | .writeQueued => ⟨th.held, .writeWoken⟩
  | _ => th

/-- `rw_lock_unblock()` with its effect on the threads. -/
def State.unblock (s : State T) : State T × ℤ :=
  let r := s.lock.unblock
  ({ s with lock := r.1, threads := changeAll Thread.unblocked r.2.1 s.threads }, r.2.2)

/-- `rw_lock_read_lock()` up to `_rw_lock_read_lock()` -/
def rwLockReadLock (s : State T) (t : T) : State T :=
  let oldCount := s.lock.count
  let th := s.threads t
  let s := { s with lock := { s.lock with count := int32 (oldCount + 1) } }
  if oldCount ≥ writerCountBase then s.setThread t ⟨th.held, .readAnnounced⟩
  else s.setThread t ⟨.read :: th.held, .running⟩

/-- `_rw_lock_read_lock()` -/
def rwLockReadLockSlow (s : State T) (t : T) : State T :=
  let th := s.threads t
  let lock := s.lock
  if lock.holder = some t then
    -- we might be the writer ourselves
    { s.setThread t ⟨.read :: th.held, .running⟩ with
      lock := { lock with ownerCount := int32 (lock.ownerCount + 1) } }
  else if lock.pendingReaders > 0 then
    let activeReaders :=
      if lock.count ≥ writerCountBase then int16 (lock.activeReaders + 1) else lock.activeReaders
    { s.setThread t ⟨.read :: th.held, .running⟩ with
      lock := { lock with
        pendingReaders := int16 (lock.pendingReaders - 1)
        activeReaders  := activeReaders } }
  else
    let s := s.require (lock.count ≥ writerCountBase) .noWriterAnnounced
    { s.setThread t ⟨th.held, .readQueued⟩ with lock := lock.wait t false }

/-- `rw_lock_read_unlock()` up to `_rw_lock_read_unlock()` -/
def rwLockReadUnlock (s : State T) (t : T) (held : List Mode) : State T :=
  let oldCount := s.lock.count
  let s := { s with lock := { s.lock with count := int32 (oldCount - 1) } }
  s.setThread t ⟨held, if oldCount ≥ writerCountBase then .readLeaving else .running⟩

/-- `_rw_lock_read_unlock()` -/
def rwLockReadUnlockSlow (s : State T) (t : T) : State T :=
  let lock := s.lock
  let s := s.setThread t ⟨(s.threads t).held, .running⟩
  if lock.holder = some t then
    let s := s.require (lock.ownerCount.tmod writerCountBase > 0) .ownerNotReading
    { s with lock := { lock with ownerCount := int32 (lock.ownerCount - 1) } }
  else
    let activeReaders := int16 (lock.activeReaders - 1)
    if activeReaders > 0 then { s with lock := { lock with activeReaders := activeReaders } }
    else if activeReaders < 0 then
      { s.require false .notReadLocked with lock := { lock with activeReaders := 0 } }
    else
      { s with lock := { lock with activeReaders := activeReaders } }.unblock.1

/-- `rw_lock_write_lock()` up to where it blocks -/
def rwLockWriteLock (s : State T) (t : T) : State T :=
  let th := s.threads t
  let lock := s.lock
  if lock.holder = some t then
    { s.setThread t ⟨.write :: th.held, .running⟩ with
      lock := { lock with ownerCount := int32 (lock.ownerCount + writerCountBase) } }
  else
    -- announce our claim
    let oldCount := lock.count
    let lock := { lock with count := int32 (oldCount + writerCountBase) }
    if oldCount = 0 then
      { s.setThread t ⟨.write :: th.held, .running⟩ with
        lock := { lock with holder := some t, ownerCount := writerCountBase } }
    else
      -- the first writer notes the current reader count
      let lock :=
        if oldCount < writerCountBase then
          { lock with activeReaders := int16 (oldCount - lock.pendingReaders) }
        else lock
      { s.setThread t ⟨th.held, .writeQueued⟩ with lock := lock.wait t true }

/-- The end of `rw_lock_write_lock()`, after `rw_lock_wait()` returned. -/
def rwLockWriteLockWoken (s : State T) (t : T) : State T :=
  { s.setThread t ⟨.write :: (s.threads t).held, .running⟩ with
    lock := { s.lock with holder := some t, ownerCount := writerCountBase } }

def rwLockWriteUnlock (s : State T) (t : T) (held : List Mode) : State T :=
  let lock := s.lock
  let s := s.setThread t ⟨held, .running⟩
  if lock.holder ≠ some t then s.require false .notWriteLocked
  else
    let s := s.require (lock.ownerCount ≥ writerCountBase) .ownerNotWriting
    let ownerCount := int32 (lock.ownerCount - writerCountBase)
    if ownerCount ≥ writerCountBase then
      { s with lock := { lock with ownerCount := ownerCount } }
    else
      -- we gave up our last write lock
      let readerCount := ownerCount
      let oldCount := int32 (lock.count - writerCountBase)
      let lock := { lock with holder := none, ownerCount := 0, count := oldCount }
      if oldCount = 0 then { s with lock := lock }
      else if oldCount ≥ writerCountBase then
        { s with lock := { lock with activeReaders := int16 readerCount } }.unblock.1
      else
        let r := { s with lock := lock }.unblock
        { r.1 with
          lock := { r.1.lock with pendingReaders := int16 (oldCount - readerCount - r.2) } }

/-! ## The lock as a transition system -/

inductive Action (T : Type)
  | readLock (t : T)
  | readLockSlow (t : T)
  | readUnlock (t : T)
  | readUnlockSlow (t : T)
  | writeLock (t : T)
  | writeLockWoken (t : T)
  | writeUnlock (t : T)

/-- Threads nest their calls: a lock is given up in the reverse order, and a thread that only has
read locks does not ask for the write lock. -/
def step (s : State T) : Action T → Option (State T)
  | .readLock t => if (s.threads t).place = .running then some (rwLockReadLock s t) else none
  | .readLockSlow t =>
    if (s.threads t).place = .readAnnounced then some (rwLockReadLockSlow s t) else none
  | .readUnlock t =>
    match s.threads t with
    | ⟨.read :: held, .running⟩ => some (rwLockReadUnlock s t held)
    | _ => none
  | .readUnlockSlow t =>
    if (s.threads t).place = .readLeaving then some (rwLockReadUnlockSlow s t) else none
  | .writeLock t =>
    let th := s.threads t
    if th.place = .running ∧ (.read ∈ th.held → .write ∈ th.held) then some (rwLockWriteLock s t)
    else none
  | .writeLockWoken t =>
    if (s.threads t).place = .writeWoken then some (rwLockWriteLockWoken s t) else none
  | .writeUnlock t =>
    match s.threads t with
    | ⟨.write :: held, .running⟩ => some (rwLockWriteUnlock s t held)
    | _ => none

/-! ## What the lock is for -/

/-- The read locks a thread has announced: those it has and the one it waits for. -/
def Thread.readers (th : Thread) : ℕ :=
  th.held.count .read + if th.place = .readAnnounced ∨ th.place = .readQueued then 1 else 0

def Thread.writers (th : Thread) : ℕ :=
  if .write ∈ th.held ∨ th.place = .writeQueued ∨ th.place = .writeWoken then 1 else 0

def State.readers (s : State T) : ℕ := tally Thread.readers s.threads

def State.writers (s : State T) : ℕ := tally Thread.writers s.threads

/-- A writer is alone, and the lock's own books are right. -/
structure State.Exclusive (s : State T) : Prop where
  one_writer : ∀ t u, .write ∈ (s.threads t).held → .write ∈ (s.threads u).held → u = t
  no_reader : ∀ t u, .write ∈ (s.threads t).held → u ≠ t → .read ∉ (s.threads u).held
  active_nonneg : 0 ≤ s.lock.activeReaders
  pending_nonneg : 0 ≤ s.lock.pendingReaders
  no_faults : s.faults = []
  count_eq : s.lock.count = s.readers + writerCountBase * s.writers

/-- The counters are wide enough for the step: readers do not reach the writers' part of the count,
a writer finds no more readers than 15 bits can count, nor do more come while it is announced, and
there are at most as many writers, and write locks of one thread, as the upper part of the
count can take. -/
def Countable (s : State T) : Action T → Prop
  | .readLock _ => s.readers < if s.writers = 0 then 0xffff else 0x7fff
  | .writeLock t =>
    if .write ∈ (s.threads t).held then (s.threads t).held.count .write < 0x7fff
    else s.readers ≤ 0x7fff ∧ s.writers < 0x7fff
  | _ => True

instance (s : State T) : ∀ a, Decidable (Countable s a)
  | .readLock _ => inferInstanceAs (Decidable (_ < _))
  | .writeLock t => inferInstanceAs (Decidable (if Mode.write ∈ (s.threads t).held then _ else _))
  | .readLockSlow _ | .readUnlock _ | .readUnlockSlow _ | .writeLockWoken _ | .writeUnlock _ =>
    .isTrue trivial

end Haiku.Lock
