import Haiku.Lock.ReadWrite

/-!
# Mutexes with timeouts

The `mutex` of `src/system/kernel/locks/lock.cpp` and `headers/private/kernel/lock.h` in a build
without `KDEBUG`. A step is one atomic operation on `count`, or one section under the thread
spinlock. The timer that ends a wait runs in a section of its own: `thread_block_timeout()` only
sets the wait status of the thread, which takes its waiter out of the queue when it runs again.

`mutex_switch_lock()` does the two steps of an unlock, or of a lock, in one section; what it can
reach is reached by the two steps one after the other.
-/

namespace Haiku.MutexLock

open Lib Lock

/-- `mutex`; a `mutex_waiter` is named by its thread. -/
structure Mutex (T : Type) where
  waiters : Waiters T
  count : ℤ
  ignoreUnlockCount : ℕ
  /-- `MUTEX_FLAG_RELEASED` -/
  released : Bool

/-- Where a thread is. -/
inductive Place
  /-- without the mutex, and not in its code -/
  | idle
  | owner
  /-- between the `atomic_add()` of a lock and its slow path; `timed` for
  `mutex_lock_with_timeout()` -/
  | announced (timed : Bool)
  /-- blocked, with the wait status 1 -/
  | blocked (timed : Bool)
  /-- the timer has set the wait status to `B_TIMED_OUT`, and the thread did not run since -/
  | timedOut
  /-- between the `atomic_add()` of `mutex_unlock()` and `_mutex_unlock()` -/
  | unlocking
  deriving DecidableEq

structure State (T : Type) where
  lock : Mutex T
  threads : T → Place
  /-- the number of threads that queued up so far -/
  clock : ℕ
  /-- which of them a waiter was -/
  arrived : T → ℕ

variable {T : Type} [DecidableEq T] [Fintype T]

/-- `mutex_init()` -/
def State.init : State T where
  lock :=
    { waiters := .empty
      count := 0
      ignoreUnlockCount := 0
      released := false }
  threads := fun _ => .idle
  clock := 0
  arrived := fun _ => 0

def State.setThread (s : State T) (t : T) (place : Place) : State T :=
  { s with threads := Function.update s.threads t place }

/-- `mutex_lock()` and `mutex_lock_with_timeout()` up to their slow path -/
def mutexLock (s : State T) (t : T) (timed : Bool) : State T :=
  let oldCount := s.lock.count
  let s := { s with lock := { s.lock with count := int32 (oldCount - 1) } }
  if oldCount < 0 then s.setThread t (.announced timed) else s.setThread t .owner

def mutexTrylock (s : State T) (t : T) : State T :=
  if s.lock.count = 0 then { s.setThread t .owner with lock := { s.lock with count := -1 } } else s

/-- `_mutex_lock()`, and `_mutex_lock_with_timeout()` up to where it blocks -/
def mutexLockSlow (s : State T) (t : T) (timed : Bool) : State T :=
  if s.lock.released then
    -- released after we decremented the count, but before we acquired the spinlock
    { s.setThread t .owner with lock := { s.lock with released := false } }
  else
    { s.setThread t (.blocked timed) with
      lock    := { s.lock with waiters := s.lock.waiters.enqueue t }
      clock   := s.clock + 1
      arrived := Function.update s.arrived t s.clock }

/-- The end of `_mutex_lock_with_timeout()` after a timeout. -/
def mutexLockTimedOut (s : State T) (t : T) : State T :=
  let r := s.lock.waiters.remove t
  let s := s.setThread t .idle
  if r.2 then
    -- we need to fix the lock count
    let oldCount := s.lock.count
    let ignoreUnlockCount :=
      if oldCount = -1 then (s.lock.ignoreUnlockCount + 1) % 2 ^ 16 else s.lock.ignoreUnlockCount
    { s with lock := { s.lock with
        waiters           := r.1
        count             := int32 (oldCount + 1)
        ignoreUnlockCount := ignoreUnlockCount } }
  else s

/-- `mutex_unlock()` up to `_mutex_unlock()` -/
def mutexUnlock (s : State T) (t : T) : State T :=
  let oldCount := s.lock.count
  let s := { s with lock := { s.lock with count := int32 (oldCount + 1) } }
  s.setThread t (if oldCount < -1 then .unlocking else .idle)

/-- `thread_unblock_locked()` with the status `B_OK`: it does nothing to a thread whose wait status
has been set already. A thread that waited for the mutex owns it now. -/
def Place.unblocked : Place → Place
  | .blocked _ => .owner
  | place => place

/-- `_mutex_unlock()` -/
def mutexUnlockSlow (s : State T) (t : T) : State T :=
  let lock := s.lock
  let s := s.setThread t .idle
  if lock.ignoreUnlockCount > 0 then
    { s with lock := { lock with ignoreUnlockCount := lock.ignoreUnlockCount - 1 } }
  else
    match lock.waiters.head with
    | some h =>
      { s.setThread h (s.threads h).unblocked with
        lock := { lock with waiters := lock.waiters.dequeue h } }
    | none => { s with lock := { lock with released := true } }

inductive Action (T : Type)
  | lock (t : T) (timed : Bool)
  | trylock (t : T)
  | lockSlow (t : T)
  | timeout (t : T)
  | lockTimedOut (t : T)
  | unlock (t : T)
  | unlockSlow (t : T)

def step (s : State T) : Action T → Option (State T)
  | .lock t timed => if s.threads t = .idle then some (mutexLock s t timed) else none
  | .trylock t => if s.threads t = .idle then some (mutexTrylock s t) else none
  | .lockSlow t =>
    match s.threads t with
    | .announced timed => some (mutexLockSlow s t timed)
    | _ => none
  | .timeout t => if s.threads t = .blocked true then some (s.setThread t .timedOut) else none
  | .lockTimedOut t => if s.threads t = .timedOut then some (mutexLockTimedOut s t) else none
  | .unlock t => if s.threads t = .owner then some (mutexUnlock s t) else none
  | .unlockSlow t => if s.threads t = .unlocking then some (mutexUnlockSlow s t) else none

/-! ## What the mutex is for -/

/-- The thread waits for the mutex: it blocks, or its timeout occurred and it did not return. -/
def Place.waits : Place → Bool
  | .blocked _ | .timedOut => true
  | _ => false

/-- At most one thread owns the mutex, its queue is right, and no wake-up is lost. -/
structure State.Sound (s : State T) : Prop where
  one_owner : ∀ t u, s.threads t = .owner → s.threads u = .owner → u = t
  /-- the queue holds the waiting threads in the order they came, with the right last pointer -/
  queue : ∃ l, s.lock.waiters.Holds l ∧ (∀ t, t ∈ l ↔ (s.threads t).waits = true) ∧
    l.Pairwise fun t u => s.arrived t < s.arrived u
  no_lost_wakeup : (∀ t, s.threads t ≠ .owner) → (∀ t, s.threads t ≠ .unlocking) →
    s.lock.waiters.head = none

/-- An unlock that hands the mutex over finds a first waiter whose timeout did not occur yet, and
the counters are wide enough for the number of threads. -/
def Undisturbed (s : State T) : Action T → Prop
  | .lock _ _ => -0x80000000 < s.lock.count
  | .lockTimedOut _ => s.lock.ignoreUnlockCount < 0xffff
  | .unlockSlow _ => s.lock.ignoreUnlockCount = 0 →
    ∀ h, s.lock.waiters.head = some h → s.threads h ≠ .timedOut
  | _ => True

/-- `Undisturbed` by evaluation. -/
def undisturbed (s : State T) : Action T → Bool
  | .lock _ _ => -0x80000000 < s.lock.count
  | .lockTimedOut _ => s.lock.ignoreUnlockCount < 0xffff
  | .unlockSlow _ =>
    s.lock.ignoreUnlockCount ≠ 0 || s.lock.waiters.head.all fun h => s.threads h ≠ .timedOut
  | _ => true

end Haiku.MutexLock
