import Haiku.Port.MessageSpace

/-!
# The message queue of a port

A port holds the messages that have been written and not been read. Readers wait on
`read_condition` while it has none, and writers wait on `write_condition` for a place.
`write_count` is the number of free places less the number of waiting writers. A section that is
run under the lock of the port, up to a wait or to the return, is one step; so is each end of a wait,
in which a thread may be unblocked by a timeout before a notification reaches its entry.
-/

namespace Haiku.Port.Queue

open Lib

abbrev Byte := BitVec 8

def bCanInterrupt : BitVec 32 := 0x1
def bKillCanInterrupt : BitVec 32 := 0x20
def bPeekPortMessage : BitVec 32 := 0x100
def portFlagUseUserMemcpy : BitVec 32 := 0x80000000

/-- The longest queue `create_port()` accepts -/
def maxQueueLength : ℕ := 4096

/-! ## Messages and calls -/

structure Credentials where
  sender : ℤ
  senderGroup : ℤ
  senderTeam : ℤ

/-- A `port_message` -/
structure Message where
  code : BitVec 32
  size : ℕ
  credentials : Credentials
  buffer : List Byte

inductive Status
  | ok
  | wouldBlock
  | timedOut
  | interrupted
  | badPortId
  | badValue
  | badAddress
  | noMemory
  | error
deriving DecidableEq

/-- The flags and the timeout that a call waits with -/
structure Limits where
  flags : BitVec 32
  timeout : ℤ

def Limits.noWait (l : Limits) : Bool := l.flags &&& bRelativeTimeout ≠ 0 ∧ l.timeout ≤ 0

def Limits.allows (l : Limits) : Status → Bool
  | .timedOut => l.flags &&& (bRelativeTimeout ||| bAbsoluteTimeout) ≠ 0
  | .interrupted => l.flags &&& (bCanInterrupt ||| bKillCanInterrupt) ≠ 0
  | _ => false

inductive Call
  | read (bufferSize : ℕ) (limits : Limits)
  | info (limits : Limits)
  | write (code : BitVec 32) (vecs : List (List Byte)) (bufferSize : ℕ) (limits : Limits)

def Call.limits : Call → Limits
  | .read _ limits => limits
  | .info limits => limits
  | .write _ _ _ limits => limits

def Call.isWrite : Call → Bool
  | .write .. => true
  | _ => false

/-- Whether a reader copies into the memory of an application -/
def Limits.userCopy (l : Limits) : Bool := l.flags &&& portFlagUseUserMemcpy ≠ 0

/-- Whether a reader leaves the message where it is -/
def Limits.peekOnly (l : Limits) : Bool := !l.userCopy && l.flags &&& bPeekPortMessage ≠ 0

inductive Result
  | status (status : Status)
  | message (code : BitVec 32) (data : List Byte)
  | info (size : ℕ) (credentials : Credentials)

/-- Where a thread is. The entry of a waiting thread is in the list of the condition variable until
it is notified; `unblocked` is what the thread has been unblocked with. When `Wait()` has returned
the thread goes for the lock of the port. -/
inductive Thread
  | outside (result : Result)
  | waiting (call : Call) (notified : Bool) (unblocked : Option Status)
  | returned (call : Call) (notified : Bool) (status : Status)

def Thread.notify : Thread → Status → Thread
  | .waiting call _ unblocked, result => .waiting call true (unblocked.or (some result))
  | x, _ => x

/-- A `port_entry`, the threads that use it, and two lists that record the course of events: what
the successful writes were to send, and the messages that reads have returned -/
structure PortEntry (T : Type) where
  /-- `sPorts[slot].id == id` -/
  alive : Bool
  capacity : ℕ
  readCount : ℕ
  writeCount : ℤ
  totalCount : ℕ
  readCondition : List T
  writeCondition : List T
  messages : List Message
  threads : T → Thread
  sent : List (BitVec 32 × List Byte)
  received : List Message

/-- `create_port()` -/
def PortEntry.create (T : Type) (queueLength : ℕ) : Option (PortEntry T) :=
  if queueLength < 1 ∨ queueLength > maxQueueLength then none
  else some
    { alive := true, capacity := queueLength, readCount := 0, writeCount := queueLength,
      totalCount := 0, readCondition := [], writeCondition := [], messages := [],
      threads := fun _ => .outside (.status .ok), sent := [], received := [] }

/-- What a section needs from outside: the memory of a new message or the error of
`get_port_message()`, the credentials of the thread, and whether the buffer of a reader in an
application is not accessible -/
structure Input where
  memory : Except Status (ℕ → Byte)
  credentials : Credentials
  fault : Bool

section

variable {T : Type} [DecidableEq T]

/-! ## Condition variables -/

def PortEntry.notify (s : PortEntry T) (result : Status) (t : T) : PortEntry T :=
  { s with threads := Function.update s.threads t ((s.threads t).notify result) }

/-- `read_condition.NotifyOne()` -/
def PortEntry.notifyReader (s : PortEntry T) : PortEntry T :=
  match s.readCondition with
  | [] => s
  | t :: l => { s with readCondition := l }.notify .ok t

/-- `write_condition.NotifyOne()` -/
def PortEntry.notifyWriter (s : PortEntry T) : PortEntry T :=
  match s.writeCondition with
  | [] => s
  | t :: l => { s with writeCondition := l }.notify .ok t

/-! ## Reading -/

def PortEntry.isPortClosed (s : PortEntry T) : Bool := s.capacity = 0

def PortEntry.isGone (s : PortEntry T) : Bool := !s.alive || (s.isPortClosed && s.messages = [])

def copyPortMessage (message : Message) (bufferSize : ℕ) : Result :=
  .message message.code (message.buffer.take (min bufferSize message.size))

/-- `read_port_etc()` from the loop on -/
def PortEntry.readLoop (s : PortEntry T) (t : T) (bufferSize : ℕ) (limits : Limits) (input : Input) :
    PortEntry T × Thread :=
  if s.readCount = 0 then
    if limits.noWait then (s, .outside (.status .wouldBlock))
    else
      ({ s with readCondition := s.readCondition ++ [t] },
        .waiting (.read bufferSize limits) false none)
  else
    match s.messages with
    | [] => (s, .outside (.status .error))
    | message :: messages =>
      if limits.peekOnly then (s.notifyReader, .outside (copyPortMessage message bufferSize))
      else
        let fault := limits.userCopy && 0 < min bufferSize message.size && input.fault
        let removed := { s with
          messages := messages
          totalCount := s.totalCount + 1
          writeCount := s.writeCount + 1
          readCount := s.readCount - 1
          received := if fault then s.received else s.received ++ [message] }
        (removed.notifyWriter,
          .outside (if fault then .status .badAddress else copyPortMessage message bufferSize))

/-- `_get_port_message_info_etc()` from the loop on -/
def PortEntry.infoLoop (s : PortEntry T) (t : T) (limits : Limits) : PortEntry T × Thread :=
  if s.readCount = 0 then
    if limits.noWait then (s, .outside (.status .wouldBlock))
    else
      ({ s with readCondition := s.readCondition ++ [t] }, .waiting (.info limits) false none)
  else
    match s.messages with
    | [] => (s, .outside (.status .error))
    | message :: _ => (s.notifyReader, .outside (.info message.size message.credentials))

/-! ## Writing -/

/-- The loop over the vectors in `writev_port_etc()`: each of them is copied to the start of the
buffer. `flags` has been masked before, so that the bytes never come from an application. -/
def copyVecs (buffer : List Byte) : List (List Byte) → ℕ → List Byte
  | [], _ => buffer
  | vec :: vecs, bufferSize =>
    let bytes := min vec.length bufferSize
    let copied := vec.take bytes ++ buffer.drop bytes
    if bufferSize - bytes = 0 then copied else copyVecs copied vecs (bufferSize - bytes)

/-- The label `error` -/
def PortEntry.giveUp (s : PortEntry T) (status : Status) : PortEntry T × Thread :=
  ({ s with writeCount := s.writeCount + 1 }.notifyWriter, .outside (.status status))

/-- `writev_port_etc()` with a place in the queue -/
def PortEntry.writeMessage (s : PortEntry T) (code : BitVec 32) (vecs : List (List Byte)) (bufferSize : ℕ)
    (input : Input) : PortEntry T × Thread :=
  match input.memory with
  | .error status => s.giveUp status
  | .ok memory =>
    let space := (List.range bufferSize).map memory
    let buffer := if 0 < bufferSize then copyVecs space vecs bufferSize else space
    let message : Message := ⟨code, bufferSize, input.credentials, buffer⟩
    let added := { s with
      messages := s.messages ++ [message]
      readCount := s.readCount + 1
      sent := s.sent ++ [(code, vecs.flatten.take bufferSize)] }
    (added.notifyReader, .outside (.status .ok))

/-- `writev_port_etc()` -/
def PortEntry.write (s : PortEntry T) (t : T) (code : BitVec 32) (vecs : List (List Byte)) (bufferSize : ℕ)
    (limits : Limits) (input : Input) : PortEntry T × Thread :=
  if portMaxMessageSize < bufferSize then (s, .outside (.status .badValue))
  else if !s.alive || s.isPortClosed then (s, .outside (.status .badPortId))
  else if s.writeCount ≤ 0 then
    if limits.noWait then (s, .outside (.status .wouldBlock))
    else
      ({ s with writeCount := s.writeCount - 1, writeCondition := s.writeCondition ++ [t] },
        .waiting (.write code vecs bufferSize limits) false none)
  else { s with writeCount := s.writeCount - 1 }.writeMessage code vecs bufferSize input

/-! ## The system -/

def PortEntry.begin (s : PortEntry T) (t : T) (input : Input) : Call → PortEntry T × Thread
  | .read bufferSize limits =>
    if limits.timeout < 0 then (s, .outside (.status .badValue))
    else if s.isGone then (s, .outside (.status .badPortId))
    else s.readLoop t bufferSize limits input
  | .info limits =>
    if s.isGone then (s, .outside (.status .badPortId)) else s.infoLoop t limits
  | .write code vecs bufferSize limits => s.write t code vecs bufferSize limits input

/-- A thread whose wait has ended with `status` goes on. -/
def PortEntry.resume (s : PortEntry T) (t : T) (input : Input) (status : Status) :
    Call → PortEntry T × Thread
  | .read bufferSize limits =>
    if s.isGone then (s, .outside (.status .badPortId))
    else if status ≠ .ok then (s, .outside (.status status))
    else s.readLoop t bufferSize limits input
  | .info limits =>
    if status ≠ .ok then (s, .outside (.status status))
    else if s.isGone then (s, .outside (.status .badPortId))
    else s.infoLoop t limits
  | .write code vecs bufferSize _ =>
    if !s.alive || s.isPortClosed then (s, .outside (.status .badPortId))
    else if status ≠ .ok then s.giveUp status
    else s.writeMessage code vecs bufferSize input

inductive Action (T : Type)
  | begin (t : T) (call : Call) (input : Input)
  | resume (t : T) (input : Input)
  /-- the thread is unblocked by a timeout or an interruption -/
  | unblock (t : T) (status : Status)
  /-- `Wait()` takes the entry off the list if it is still there, and returns -/
  | unlist (t : T)
  | close
  | delete

def PortEntry.act (s : PortEntry T) (t : T) : Thread → Action T → Option (PortEntry T × Thread)
  | .outside _, .begin _ call input => some (s.begin t input call)
  | .waiting call notified none, .unblock _ status =>
    if call.limits.allows status then some (s, .waiting call notified (some status)) else none
  | .waiting call notified (some status), .unlist _ =>
    some ({ s with
      readCondition := s.readCondition.erase t
      writeCondition := s.writeCondition.erase t }, .returned call notified status)
  | .returned call _ status, .resume _ input => some (s.resume t input status call)
  | _, _ => none

def PortEntry.closePort (s : PortEntry T) : PortEntry T :=
  if !s.alive then s
  else
    { s with
      capacity := 0
      readCondition := []
      writeCondition := []
      threads := fun t =>
        if t ∈ s.readCondition ∨ t ∈ s.writeCondition then (s.threads t).notify .badPortId
        else s.threads t }

def PortEntry.deletePort (s : PortEntry T) : PortEntry T :=
  if !s.alive then s
  else
    { s with
      alive := false
      messages := []
      readCondition := []
      writeCondition := []
      threads := fun t =>
        if t ∈ s.readCondition ∨ t ∈ s.writeCondition then (s.threads t).notify .badPortId
        else s.threads t }

/-- The state after a step of `t`, and where `t` is then -/
def PortEntry.put (r : PortEntry T × Thread) (t : T) : PortEntry T :=
  { r.1 with threads := Function.update r.1.threads t r.2 }

def step (s : PortEntry T) (a : Action T) : Option (PortEntry T) :=
  match a with
  | .begin t .. => (s.act t (s.threads t) a).map (PortEntry.put · t)
  | .resume t _ => (s.act t (s.threads t) a).map (PortEntry.put · t)
  | .unblock t _ => (s.act t (s.threads t) a).map (PortEntry.put · t)
  | .unlist t => (s.act t (s.threads t) a).map (PortEntry.put · t)
  | .close => some s.closePort
  | .delete => some s.deletePort

end

end Haiku.Port.Queue
