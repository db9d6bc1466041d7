import Haiku.Lock.ReadWrite
import Mathlib.Algebra.Order.Ring.Int

/-!
# Semaphores

The semaphores of `src/system/kernel/sem.cpp`, with the blocking of threads by
`headers/private/kernel/thread.h` and `src/system/kernel/thread.cpp`. A step is one section that
runs under the spinlock of the semaphore, or one section under the thread spinlock outside of it:
the call of `thread_block_locked()`, the timer of a blocked thread, an interruption by a signal.
The semaphore is not deleted, and no other one is released along with an acquisition.
-/

namespace Haiku.Semaphore

open Lib Lock

/-! ## Flags -/

abbrev Flags := BitVec 32

/-- `B_CAN_INTERRUPT` -/
def canInterrupt : Flags := 0x01

/-- `B_CHECK_PERMISSION` -/
def checkPermission : Flags := 0x04

/-- `B_KILL_CAN_INTERRUPT` -/
def killCanInterrupt : Flags := 0x20

/-- `B_RELATIVE_TIMEOUT` -/
def relativeTimeout : Flags := 0x08

/-- `B_ABSOLUTE_TIMEOUT` -/
def absoluteTimeout : Flags := 0x10

/-- `B_RELEASE_ALL` -/
def releaseAll : Flags := 0x08

/-- `B_RELEASE_IF_WAITING_ONLY` -/
def releaseIfWaitingOnly : Flags := 0x10

/-- `B_INFINITE_TIMEOUT` -/
def infiniteTimeout : ℤ := 9223372036854775807

def Flags.has (flags flag : Flags) : Bool := flags &&& flag != 0

/-- What `thread_is_interrupted()` sees of a thread: whether a signal that is not blocked is
pending, and whether one of `KILL_SIGNALS` is. -/
structure Signals where
  pending : Bool
  kill : Bool

def threadIsInterrupted (signals : Signals) (flags : Flags) : Bool :=
  flags.has canInterrupt && signals.pending || flags.has killCanInterrupt && signals.kill

/-! ## State -/

inductive Status
  | ok
  | badValue
  | notAllowed
  | wouldBlock
  | timedOut
  | interrupted
  deriving DecidableEq

/-- A call of `switch_sem_etc()` that has to wait: its `queued_thread`, and the `thread::wait` of
its thread. -/
structure Wait where
  count : ℤ
  queued : Bool
  flags : Flags
  timeout : ℤ
  /-- `thread::wait.status`, with `none` for 1 -/
  status : Option Status
  /-- `thread_block_locked()`, or `thread_block_with_timeout_locked()`, has been called -/
  entered : Bool

/-- `thread_unblock_locked()` -/
def Wait.unblock (w : Wait) (status : Status) : Wait :=
  if w.status = none then { w with status := some status } else w

/-- Whether `thread_block_with_timeout_locked()` installs a timer. -/
def Wait.useTimer (w : Wait) : Bool :=
  (w.flags.has relativeTimeout || w.flags.has absoluteTimeout) && w.timeout ≠ infiniteTimeout

/-- `sem_entry` with the threads that use it. An entry of the queue is named by its thread. -/
structure State (T : Type) where
  count : ℤ
  netCount : ℤ
  queue : List T
  /-- the owner is the kernel team -/
  kernelOwned : Bool
  /-- the calls that wait -/
  waits : T → Option Wait
  /-- the sum of the counts of the calls that acquired the semaphore so far -/
  acquired : ℤ
  /-- how much was released so far -/
  released : ℤ
  /-- the number of threads that queued up so far -/
  clock : ℕ
  /-- which of them a thread was -/
  arrived : T → ℕ

variable {T : Type} [DecidableEq T]

/-- `create_sem_etc()` -/
def State.init (count : ℤ) (kernelOwned : Bool) : State T where
  count := count
  netCount := count
  queue := []
  kernelOwned := kernelOwned
  waits := fun _ => none
  acquired := 0
  released := 0
  clock := 0
  arrived := fun _ => 0

/-- `thread_is_blocked()` -/
def State.isBlocked (s : State T) (t : T) : Bool := (s.waits t).any fun w => w.status = none

def State.requested (s : State T) (t : T) : ℤ := ((s.waits t).map Wait.count).getD 0

def State.setWait (s : State T) (t : T) (w : Wait) : State T :=
  { s with waits := Function.update s.waits t (some w) }

/-- `thread_unblock_locked()` -/
def State.unblock (s : State T) (t : T) (status : Status) : State T :=
  { s with waits := Function.update s.waits t ((s.waits t).map (Wait.unblock · status)) }

def State.dequeue (s : State T) (t : T) : State T :=
  { s with
    queue := s.queue.erase t
    waits := Function.update s.waits t ((s.waits t).map fun w => { w with queued := false }) }

/-! ## Acquiring -/

/-- The loop of `remove_thread_from_sem()`, over the queue. -/
def wakeThreads : List T → State T → State T
  | [], s => s
  | t :: queue, s =>
    if s.isBlocked t then
      -- If its count is satisfied, unblock it. Otherwise we can't unblock any other thread.
      if s.requested t > s.netCount then s
      else wakeThreads queue { (s.unblock t .ok).dequeue t with
        netCount := int32 (s.netCount - s.requested t) }
    else
      -- still queued, but no longer waiting
      wakeThreads queue { s.dequeue t with count := int32 (s.count + s.requested t) }

/-- `remove_thread_from_sem()` for an entry that is queued -/
def removeThreadFromSem (s : State T) (t : T) : State T :=
  let s := { s.dequeue t with count := int32 (s.count + s.requested t) }
  wakeThreads s.queue s

/-- The checks of `switch_sem_etc()` that do not depend on the count. -/
def acquireRefused (s : State T) (count : ℤ) (flags : Flags) : Option Status :=
  if count ≤ 0 || flags.has relativeTimeout && flags.has absoluteTimeout then some .badValue
  else if flags.has checkPermission && s.kernelOwned then some .notAllowed
  else none

/-- `switch_sem_etc()` up to where it releases the spinlock, with the status if it returns there;
`signals` are those of the calling thread. -/
def switchSem (s : State T) (t : T) (count : ℤ) (flags : Flags) (timeout : ℤ)
    (signals : Signals) : State T × Option Status :=
  match acquireRefused s count flags with
  | some status => (s, some status)
  | none =>
    if int32 (s.count - count) < 0 ∧ flags.has relativeTimeout ∧ timeout ≤ 0 then
      (s, some .wouldBlock)
    else if int32 (s.count - count) < 0 ∧ flags.has absoluteTimeout ∧ timeout < 0 then
      (s, some .timedOut)
    else
      let s : State T := { s with count := int32 (s.count - count) }
      if s.count < 0 then
        -- we need to block
        if threadIsInterrupted signals flags then
          ({ s with count := int32 (s.count + count) }, some .interrupted)
        else
          let timeout :=
            if flags.has relativeTimeout || flags.has absoluteTimeout then timeout
            else infiniteTimeout
          let w : Wait :=
            { count, queued := true, flags, timeout, status := none, entered := false }
          ({ s.setWait t w with
              queue   := s.queue ++ [t]
              clock   := s.clock + 1
              arrived := Function.update s.arrived t s.clock }, none)
      else ({ s with netCount := int32 (s.netCount - count) }, some .ok)

/-- `thread_block_locked()`, where it does not find that the thread was unblocked already -/
def threadBlock (s : State T) (t : T) (w : Wait) (signals : Signals) : State T :=
  if w.status = none ∧ threadIsInterrupted signals w.flags then
    s.setWait t { w with entered := true, status := some .interrupted }
  else s.setWait t { w with entered := true }

/-- Whether `thread_interrupt()` unblocks a thread. -/
def Wait.interruptible (w : Wait) (kill : Bool) : Bool :=
  w.flags.has canInterrupt || kill && w.flags.has killCanInterrupt

/-- The end of `switch_sem_etc()` after `thread_block_locked()`. -/
def switchSemEnd (s : State T) (t : T) (w : Wait) : State T :=
  -- If we're still queued, this means the acquiration failed
  let s := if w.queued then removeThreadFromSem s t else s
  { s with waits := Function.update s.waits t none }

/-! ## Releasing -/

/-- The loop of `release_sem_etc()`, over the queue, with the count that is left. -/
def releaseThreads (ifWaitingOnly : Bool) : List T → State T → ℤ → State T
  | [], s, count =>
    if count > 0 ∧ ifWaitingOnly = false then
      { s with
        count    := int32 (s.count + count)
        netCount := int32 (s.netCount + count)
        released := s.released + count }
    else s
  | t :: queue, s, count =>
    if count > 0 then
      if s.isBlocked t then
        -- If its count is satisfied, unblock it. Otherwise we can't unblock any other thread.
        if s.requested t > int32 (s.netCount + count) then
          { s with
            count    := int32 (s.count + count)
            netCount := int32 (s.netCount + count)
            released := s.released + count }
        else
          let delta := min count (s.requested t)
          releaseThreads ifWaitingOnly queue { (s.unblock t .ok).dequeue t with
            count    := int32 (s.count + delta)
            netCount := int32 (s.netCount + (delta - s.requested t))
            released := s.released + delta } (count - delta)
      else
        -- still queued, but no longer waiting
        releaseThreads ifWaitingOnly queue
          { s.dequeue t with count := int32 (s.count + s.requested t) } count
    else s

/-- The checks of `release_sem_etc()`. -/
def releaseRefused (s : State T) (count : ℤ) (flags : Flags) : Option Status :=
  if count ≤ 0 ∧ flags.has releaseAll = false then some .badValue
  else if flags.has checkPermission && s.kernelOwned then some .notAllowed
  else none

/-- The count that a release starts with: with `B_RELEASE_ALL` that of all entries. -/
def releaseCount (s : State T) (count : ℤ) (flags : Flags) : ℤ :=
  if flags.has releaseAll then int32 (s.netCount - s.count) else count

/-- `release_sem_etc()` -/
def releaseSem (s : State T) (count : ℤ) (flags : Flags) : State T × Status :=
  match releaseRefused s count flags with
  | some status => (s, status)
  | none =>
    if flags.has releaseAll ∧ releaseCount s count flags = 0 then (s, .ok)
    else
      (releaseThreads (flags.has releaseAll || flags.has releaseIfWaitingOnly) s.queue s
        (releaseCount s count flags), .ok)

/-! ## Steps -/

inductive Action (T : Type)
  | acquire (t : T) (count : ℤ) (flags : Flags) (timeout : ℤ) (signals : Signals)
  | block (t : T) (signals : Signals)
  | timeout (t : T)
  | interrupt (t : T) (kill : Bool)
  | finish (t : T)
  | release (count : ℤ) (flags : Flags)

def step (s : State T) : Action T → Option (State T)
  | .acquire t count flags timeout signals =>
    if s.waits t = none then
      let r := switchSem s t count flags timeout signals
      some (if r.2 = some .ok then { r.1 with acquired := r.1.acquired + count } else r.1)
    else none
  | .block t signals =>
    match s.waits t with
    | some w => if w.entered then none else some (threadBlock s t w signals)
    | none => none
  | .timeout t =>
    match s.waits t with
    | some w =>
      if w.entered ∧ w.useTimer ∧ w.status = none then some (s.unblock t .timedOut) else none
    | none => none
  | .interrupt t kill =>
    match s.waits t with
    | some w => if w.interruptible kill then some (s.unblock t .interrupted) else none
    | none => none
  | .finish t =>
    match s.waits t with
    | some w =>
      if w.entered ∧ w.status ≠ none then
        let s := switchSemEnd s t w
        some (if w.status = some .ok then { s with acquired := s.acquired + w.count } else s)
      else none
    | none => none
  | .release count flags => some (releaseSem s count flags).1

/-! ## What the semaphore is for -/

/-- The thread got what it asked for, and did not run since. -/
def State.served (s : State T) (t : T) : Bool := (s.waits t).any fun w => w.status = some .ok

def State.total (s : State T) (l : List T) : ℤ := (l.map s.requested).sum

/-- The counts are right, nobody gets what was not there, no wake-up is lost, and the threads are
served in the order they queued up. -/
structure State.Sound (initial : ℤ) (s : State T) : Prop where
  count_eq : s.count = s.netCount - s.total s.queue
  netCount_nonneg : 0 ≤ s.netCount
  acquired_le : s.acquired ≤ initial + s.released
  blocked_queued : ∀ t, s.isBlocked t = true → t ∈ s.queue
  no_lost_wakeup : ∀ t, s.queue.head? = some t → s.isBlocked t = true →
    s.netCount < s.requested t
  ordered : s.queue.Pairwise fun t u => s.arrived t < s.arrived u
  served_first : ∀ t u, s.served t = true → u ∈ s.queue → s.arrived t < s.arrived u

/-- The sum of the counts of the entries whose threads still wait. -/
def State.waiting (s : State T) (l : List T) : ℤ := s.total (l.filter s.isBlocked)

/-- What is released to the entries `l` is not used up at a thread behind which one waits that asks
for no more than what is left then. -/
def State.ReachesAll (s : State T) (l : List T) (amount : ℤ) : Prop :=
  ∀ l₁ t u l₂, l = l₁ ++ t :: u :: l₂ → s.isBlocked t = true → s.isBlocked u = true →
    s.waiting l₁ < amount → amount ≤ s.waiting l₁ + s.requested t →
    s.netCount + amount < s.waiting l₁ + s.requested t + s.requested u

/-- What is released to the entries `l` fits into an `int32`, where it is added. -/
def State.Fits (s : State T) (ifWaitingOnly : Bool) (l : List T) (amount : ℤ) : Prop :=
  ifWaitingOnly = false ∨ (∃ t ∈ l, s.isBlocked t = true) → s.netCount + amount < 0x80000000

/-- The counts fit into an `int32`, and no release is used up while one waits for what is left. -/
def Undisturbed (s : State T) : Action T → Prop
  | .acquire _ count flags _ _ =>
    acquireRefused s count flags = none → -0x80000000 ≤ s.count - count
  | .release count flags =>
    releaseRefused s count flags = none →
      s.Fits (flags.has releaseAll || flags.has releaseIfWaitingOnly) s.queue
        (releaseCount s count flags) ∧
      s.ReachesAll s.queue (releaseCount s count flags)
  | _ => True

end Haiku.Semaphore
