import Mathlib.Algebra.Order.Ring.Int
import Mathlib.Data.List.Basic

/-!
# Advisory locks

The record locks of a vnode in `src/system/kernel/fs/vfs.cpp`: `normalize_flock()`,
`acquire_advisory_lock()` and `release_advisory_lock()`, as `fcntl()` and the closing of a file call
them. What is done while the semaphore of the locking structure is held is one step.
-/

namespace Haiku.RecordLock

inductive Error
  | badValue
  | fileError
  | interrupted
  | notSupported
  | permissionDenied
  /-- what the file system returned -/
  | other (status : ℤ)
  deriving DecidableEq

/-- `l_type` -/
inductive LockType
  | readLock
  | unlock
  | writeLock
  | other
  deriving DecidableEq

/-- `l_whence` -/
inductive Whence
  | set
  | cur
  | fromEnd
  | other
  deriving DecidableEq

/-- `flock`; offsets are signed numbers of 64 bits. -/
structure Flock where
  type : LockType
  whence : Whence
  start : Int64
  len : Int64
  deriving DecidableEq

/-- `advisory_lock`, with the first and the last byte that are locked -/
structure AdvisoryLock where
  team : ℕ
  session : ℤ
  start : Int64
  last : Int64
  shared : Bool
  deriving DecidableEq

/-- The access mode in `open_mode` -/
inductive AccessMode
  | readOnly
  | writeOnly
  | readWrite
  deriving DecidableEq

structure FileDescriptor where
  pos : Int64
  openMode : AccessMode
  /-- the size of the file, or why it is not known -/
  readStat : Except Error Int64

def offMax : Int64 := Int64.maxValue

/-! ## `normalize_flock()` -/

/-- The start of the region as an absolute offset -/
def absoluteStart (descriptor : FileDescriptor) (flock : Flock) : Except Error Int64 :=
  match flock.whence with
  | .set => .ok flock.start
  | .cur => .ok (flock.start + descriptor.pos)
  | .fromEnd => descriptor.readStat.map fun size => flock.start + size
  | .other => .error .badValue

def clip (flock : Flock) (start : Int64) : Flock :=
  let start := if start < 0 then 0 else start
  let len := if flock.len = 0 then offMax else flock.len
  -- don't let the offset and length overflow
  let len := if start > 0 ∧ offMax - start < len then offMax - start else len
  -- a negative length reverses the region
  if len < 0 then { flock with start := start + len, len := -len }
  else { flock with start := start, len := len }

def normalizeFlock (descriptor : FileDescriptor) (flock : Flock) : Except Error Flock :=
  (absoluteStart descriptor flock).map (clip flock)

/-! ## The list of locks -/

namespace Flock

/-- `flock->l_start - 1 + flock->l_len` -/
def last (flock : Flock) : Int64 := flock.start - 1 + flock.len

/-- `flock->l_start + flock->l_len` -/
def next (flock : Flock) : Int64 := flock.start + flock.len

end Flock

namespace AdvisoryLock

/-- `advisory_lock_intersects()`, with no region for everything -/
def intersects (lock : AdvisoryLock) : Option Flock → Bool
  | none => true
  | some flock => lock.start ≤ flock.last && lock.last ≥ flock.start

/-- An iteration of `release_advisory_lock()`: what is left of the lock, and the lock that is added at
the end of the list -/
def release (team session : ℕ) (flock : Option Flock) (lock : AdvisoryLock) :
    Option AdvisoryLock × Option AdvisoryLock :=
  if lock.session = session then (none, none)
  else if lock.team = team ∧ lock.intersects flock = true then
    match flock with
    | none => (none, none)
    | some flock =>
      let startsBefore := lock.start < flock.start
      let endsBeyond := lock.last > flock.last
      if ¬ startsBefore ∧ ¬ endsBeyond then (none, none)
      else if startsBefore ∧ ¬ endsBeyond then (some { lock with last := flock.start - 1 }, none)
      else if ¬ startsBefore ∧ endsBeyond then (some { lock with start := flock.next }, none)
      else
        -- the second lock gets the end that the lock has by then
        let lock := { lock with last := flock.start - 1 }
        (some lock, some { lock with start := flock.next })
  else (some lock, none)

end AdvisoryLock

/-- The loop of `release_advisory_lock()`. Locks that are added lie behind the region: the loop leaves
them as they are if it gets to them. -/
def releaseLocks (team session : ℕ) (flock : Option Flock) (locks : List AdvisoryLock) :
    List AdvisoryLock :=
  locks.filterMap (fun lock => (lock.release team session flock).1) ++
    locks.filterMap (fun lock => (lock.release team session flock).2)

/-- `session` of POSIX locks -/
def posixSession : ℤ := -1

/-- Whether the loop over the locks of `acquire_advisory_lock()` finds one to wait for -/
def collides (team : ℕ) (flock : Flock) (locks : List AdvisoryLock) : Bool :=
  locks.any fun lock => lock.team != team && lock.intersects (some flock) &&
    (flock.type != .readLock || !lock.shared)

/-- The lock that `acquire_advisory_lock()` adds -/
def newLock (team : ℕ) (flock : Flock) : AdvisoryLock where
  team := team
  session := posixSession
  start := flock.start
  last := flock.start - 1 + flock.len
  shared := flock.type = .readLock

/-! ## The vnode and its callers -/

/-- Where a thread is between two of the sections that hold the semaphore -/
inductive Phase
  | outside
  /-- it waits in `acquire_advisory_lock()`, and was notified or not -/
  | waits (team : ℕ) (flock : Flock) (notified : Bool)
  /-- it is about to remove the locking structure, which was empty -/
  | removes
  deriving DecidableEq

/-- Everyone who waits for the semaphore `wait_sem` goes on. -/
def Phase.notify : Phase → Phase
  | .waits team flock _ => .waits team flock true
  | phase => phase

structure State where
  /-- `vnode->advisory_locking` -/
  advisoryLocking : Option (List AdvisoryLock)
  phases : ℕ → Phase

def State.initial : State := ⟨none, fun _ => .outside⟩

inductive Result
  | ok
  | error (error : Error)
  | waits
  deriving DecidableEq

namespace State

/-- The list, which is empty as long as there is no locking structure -/
def locks (s : State) : List AdvisoryLock := s.advisoryLocking.getD []

def setPhase (s : State) (thread : ℕ) (phase : Phase) : State :=
  { s with phases := Function.update s.phases thread phase }

/-- Everyone who waits for `wait_sem` is woken. -/
def notifyAll (s : State) : State := { s with phases := fun t => (s.phases t).notify }

/-- `acquire_advisory_lock()` for a POSIX lock, up to where it blocks, or from there on -/
def acquire (s : State) (thread team : ℕ) (flock : Flock) (wait : Bool) : Result × State :=
  -- after `create_advisory_locking()`
  let s := { s with advisoryLocking := some s.locks }
  if collides team flock s.locks then
    if !wait then (.error .permissionDenied, s.setPhase thread .outside)
    else (.waits, s.setPhase thread (.waits team flock false))
  else
    (.ok, { s with advisoryLocking := some (s.locks ++ [newLock team flock]) }.setPhase thread
      .outside)

/-- `release_advisory_lock()`, up to where it removes an empty structure -/
def release (s : State) (thread team session : ℕ) (flock : Option Flock) : Result × State :=
  match s.advisoryLocking with
  | none => (.ok, s)
  | some locks =>
    let locks := releaseLocks team session flock locks
    (.ok, { s with advisoryLocking := some locks }.notifyAll.setPhase thread
      (if locks.isEmpty then .removes else .outside))

/-- The end of `release_advisory_lock()`: the structure could have been changed in the mean time. -/
def removeLocking (s : State) (thread : ℕ) : State :=
  if s.advisoryLocking = some [] then
    -- deleting the semaphore wakes those who wait for it
    { s with advisoryLocking := none }.notifyAll.setPhase thread .outside
  else s.setPhase thread .outside

end State

/-- `fcntl()` with `F_SETLK`, or with `F_SETLKW`, which waits -/
structure LockCall where
  thread : ℕ
  team : ℕ
  session : ℕ
  descriptor : FileDescriptor
  flock : Flock
  wait : Bool

def FileDescriptor.allows (descriptor : FileDescriptor) (type : LockType) : Bool :=
  !(descriptor.openMode = .readOnly && type = .writeLock ||
    descriptor.openMode = .writeOnly && type = .readLock)

def State.setLock (s : State) (call : LockCall) : Result × State :=
  match normalizeFlock call.descriptor call.flock with
  | .error error => (.error error, s)
  | .ok flock =>
    if flock.type = .unlock then s.release call.thread call.team call.session (some flock)
    else if !call.descriptor.allows flock.type then (.error .fileError, s)
    else s.acquire call.thread call.team flock call.wait

inductive Call
  | setLock (call : LockCall)
  /-- a thread goes on that was notified -/
  | retry (thread : ℕ)
  /-- a thread is interrupted while it waits -/
  | interrupt (thread : ℕ)
  /-- a thread of a team closes the file -/
  | close (thread team session : ℕ)
  | removeLocking (thread : ℕ)

def State.perform (s : State) : Call → Option (Result × State)
  | .setLock call => if s.phases call.thread = .outside then some (s.setLock call) else none
  | .retry thread =>
    match s.phases thread with
    | .waits team flock true => some (s.acquire thread team flock true)
    | _ => none
  | .interrupt thread =>
    match s.phases thread with
    | .waits _ _ false => some (.error .interrupted, s.setPhase thread .outside)
    | _ => none
  | .close thread team session =>
    if s.phases thread = .outside then some (s.release thread team session none) else none
  | .removeLocking thread =>
    if s.phases thread = .removes then some (.ok, s.removeLocking thread) else none

def State.step (s : State) (call : Call) : Option State := (s.perform call).map Prod.snd

end Haiku.RecordLock
