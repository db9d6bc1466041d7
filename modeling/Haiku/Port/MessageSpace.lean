import Haiku.Lib.Run
import Haiku.Lib.Tally
import Mathlib.Algebra.Order.Ring.Int

/-!
# The space of port messages

The messages of all ports are allocated from one heap, which grows by areas when it is full.
`get_port_message()` reserves the space of a message in `sTotalSpaceInUse` before it allocates it;
`put_port_message()` returns the space. Both run in any number of threads. Every atomic operation,
every call of the heap, the creation of an area and the wait for space is one step of a thread.
-/

namespace Haiku.Port

open Lib

/-- The space that all messages together may take -/
def kTotalSpaceLimit : ℕ := 64 * 1024 * 1024

/-- The largest buffer `writev_port_etc()` accepts -/
def portMaxMessageSize : ℕ := 256 * 1024

/-- The size of a `port_message` without its buffer -/
def sizeofPortMessage : ℕ := 28

def bRelativeTimeout : BitVec 32 := 0x8
def bAbsoluteTimeout : BitVec 32 := 0x10

/-- A message in the heap -/
structure PortMessage where
  address : ℕ
  code : BitVec 32
  size : ℕ
deriving DecidableEq

def PortMessage.space (m : PortMessage) : ℕ := sizeofPortMessage + m.size

structure Request where
  code : BitVec 32
  bufferSize : ℕ
  flags : BitVec 32
  timeout : ℤ

def Request.size (r : Request) : ℕ := sizeofPortMessage + r.bufferSize

def Request.noWait (r : Request) : Bool := r.flags &&& bRelativeTimeout ≠ 0 ∧ r.timeout ≤ 0

def Request.timed (r : Request) : Bool :=
  r.flags &&& (bRelativeTimeout ||| bAbsoluteTimeout) ≠ 0

/-- What is next in `get_port_message()` -/
inductive Place
  /-- `atomic_add(&sTotalSpaceInUse, size)` at the head of the loop -/
  | reserve
  /-- `atomic_get(&sAreaChangeCounter)` -/
  | readCounter
  /-- `heap_memalign()` -/
  | allocate (areaChangeCounter : BitVec 32)
  /-- `atomic_or(&sAllocatingArea, 1)` -/
  | takeFlag (areaChangeCounter : BitVec 32)
  /-- the second `atomic_get(&sAreaChangeCounter)` -/
  | compareCounter (areaChangeCounter : BitVec 32)
  /-- `atomic_add(&sTotalSpaceInUse, -size)` because the counter has changed -/
  | giveBack
  /-- `create_area()` -/
  | createArea
  /-- `NotifyAll()` because there is no area, and the return -/
  | fail
  /-- `heap_add_area()` -/
  | addArea
  /-- `atomic_add(&sAreaChangeCounter, 1)` -/
  | countArea
  /-- `sNoSpaceCondition.NotifyAll()` after the heap has grown -/
  | announceArea
  /-- `atomic_and(&sAllocatingArea, 0)` -/
  | clearFlag
  /-- the label `wait`: locks `sPortsLock` -/
  | wait (limitReached : Bool)
  /-- `atomic_add(&sTotalSpaceInUse, -size)` with the lock held -/
  | release (limitReached : Bool)
  /-- unlocks, and returns that it would block -/
  | wouldBlock
  /-- `sNoSpaceCondition.Add(&entry)` and the unlocking -/
  | addEntry
  /-- `entry.Wait()` -/
  | waiting (notified : Bool)

inductive Result
  | nothing
  | message (m : PortMessage)
  | wouldBlock
  | timedOut
  | noMemory

/-- Where a thread is. A call of `get_port_message()` counts the areas it has added to the heap. -/
inductive Phase
  | outside (result : Result)
  | get (r : Request) (areas : ℕ) (place : Place)
  /-- in `put_port_message()`, behind `heap_free()` -/
  | freed (size : ℕ)
  /-- in `put_port_message()`, at `NotifyAll()` -/
  | announce

/-- How `entry.Wait()` ends -/
inductive WaitStatus
  | ok
  | timedOut
  | interrupted

/-- What comes from outside in a step: the calls that are made, and the results of the functions
that are called -/
inductive Input
  | get (r : Request)
  | put (m : PortMessage)
  | go
  | memalign (address : Option ℕ)
  | area (created : Bool)
  | woken (status : WaitStatus)

/-- The global variables, the messages in the heap, and the threads -/
structure Space (T : Type) where
  sTotalSpaceInUse : BitVec 32
  sAllocatingArea : BitVec 32
  sAreaChangeCounter : BitVec 32
  sPortsLock : Option T
  messages : List PortMessage
  phases : T → Phase

/-- The state `port_init()` leaves behind -/
def Space.init (T : Type) : Space T := ⟨0, 0, 0, none, [], fun _ => .outside .nothing⟩

/-- One thread of those that wait for space is notified. -/
def Phase.notify : Phase → Phase
  | .get r n (.waiting _) => .get r n (.waiting true)
  | p => p

section

variable {T : Type}

/-- `sNoSpaceCondition.NotifyAll()` -/
def Space.notifyAll (s : Space T) : Space T :=
  { s with phases := fun t => (s.phases t).notify }

/-- `atomic_add(&sTotalSpaceInUse, size)` -/
def Space.reserve (s : Space T) (size : ℕ) : Space T :=
  { s with sTotalSpaceInUse := s.sTotalSpaceInUse + BitVec.ofNat 32 size }

/-- `atomic_add(&sTotalSpaceInUse, -size)` -/
def Space.release (s : Space T) (size : ℕ) : Space T :=
  { s with sTotalSpaceInUse := s.sTotalSpaceInUse - BitVec.ofNat 32 size }

/-- Whether `size` more than what `atomic_add()` found is above the limit -/
def Space.full (s : Space T) (size : ℕ) : Bool :=
  s.sTotalSpaceInUse.toInt > (BitVec.ofNat 32 (kTotalSpaceLimit - size)).toInt

/-- The step of a call of `get_port_message()` -/
def Space.advance (s : Space T) (t : T) (r : Request) (areas : ℕ) :
    Place → Input → Option (Space T × Phase)
  | .reserve, .go =>
    some (s.reserve r.size,
      .get r areas (if s.full r.size then .wait true else .readCounter))
  | .readCounter, .go => some (s, .get r areas (.allocate s.sAreaChangeCounter))
  | .allocate _, .memalign (some address) =>
    -- the heap hands out memory that is not in use
    if s.messages.any (fun m => m.address = address) then none
    else
      let message : PortMessage := ⟨address, r.code, r.bufferSize⟩
      some ({ s with messages := message :: s.messages }, .outside (.message message))
  | .allocate counter, .memalign none => some (s, .get r areas (.takeFlag counter))
  | .takeFlag counter, .go =>
    some ({ s with sAllocatingArea := s.sAllocatingArea ||| 1 },
      .get r areas (if s.sAllocatingArea ≠ 0 then .wait false else .compareCounter counter))
  | .compareCounter counter, .go =>
    some (s, .get r areas (if counter ≠ s.sAreaChangeCounter then .giveBack else .createArea))
  | .giveBack, .go => some (s.release r.size, .get r areas .reserve)
  | .createArea, .area created =>
    some (s, .get r areas (if created then .addArea else .fail))
  | .fail, .go => some (s.notifyAll, .outside .noMemory)
  | .addArea, .go => some (s, .get r areas .countArea)
  | .countArea, .go =>
    some ({ s with sAreaChangeCounter := s.sAreaChangeCounter + 1 }, .get r areas .announceArea)
  | .announceArea, .go => some (s.notifyAll, .get r areas .clearFlag)
  | .clearFlag, .go =>
    some ({ s with sAllocatingArea := s.sAllocatingArea &&& 0 }, .get r (areas + 1) .reserve)
  | .wait limitReached, .go =>
    if s.sPortsLock.isSome then none
    else some ({ s with sPortsLock := some t }, .get r areas (.release limitReached))
  | .release limitReached, .go =>
    some (s.release r.size,
      .get r areas (if limitReached && r.noWait then .wouldBlock else .addEntry))
  | .wouldBlock, .go => some ({ s with sPortsLock := none }, .outside .wouldBlock)
  | .addEntry, .go => some ({ s with sPortsLock := none }, .get r areas (.waiting false))
  | .waiting notified, .woken status =>
    match status with
    | .ok => if notified then some (s, .get r areas .reserve) else none
    | .timedOut => if r.timed then some (s, .outside .timedOut) else none
    | .interrupted => some (s, .get r areas .reserve)
  | _, _ => none

/-- The step of the thread `t`: the other variables after it, and where the thread is then -/
def Space.act (s : Space T) (t : T) : Phase → Input → Option (Space T × Phase)
  | .outside _, .get r =>
    if r.bufferSize ≤ portMaxMessageSize then some (s, .get r 0 .reserve) else none
  | .outside _, .put m =>
    if m ∈ s.messages then
      some ({ s with messages := s.messages.erase m }, .freed m.space)
    else none
  | .freed size, .go => some (s.release size, .announce)
  | .announce, .go => some (s.notifyAll, .outside .nothing)
  | .get r areas place, input => s.advance t r areas place input
  | _, _ => none

end

variable {T : Type} [DecidableEq T]

/-- Any thread takes its next step. -/
def step (s : Space T) (a : T × Input) : Option (Space T) :=
  (s.act a.1 (s.phases a.1) a.2).map fun r =>
    { r.1 with phases := Function.update r.1.phases a.1 r.2 }

end Haiku.Port
