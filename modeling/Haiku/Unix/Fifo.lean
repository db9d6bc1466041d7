import Mathlib.Data.List.Nodup
import Haiku.Lib.Run
import Mathlib.Algebra.Order.Ring.Int

/-!
# The fifo of UNIX sockets

A `UnixFifo` passes bytes from writers to readers through a buffer of fixed capacity. Its readers
queue up in `fReaders` and its writers in `fWriters`; only the head of a queue transfers bytes, and
a thread that cannot go on waits on one of two condition variables. All of `Read()` and `Write()`
runs under the lock of the fifo, which is only given up while waiting, so that a section up to the
next wait, or up to the return, is one step.
-/

namespace Haiku.Unix

open Lib

abbrev Byte := BitVec 8

/-! ## Requests -/

/-- A `UnixRequest` of a reader: the sizes of the vectors that are left to fill, the first one less
`fVecOffset`, and what has been read -/
structure ReadRequest (A : Type) where
  fTotalSize : ℕ
  fBytesTransferred : ℕ
  vecs : List ℕ
  data : List Byte
  fAncillaryData : List A

/-- A `UnixRequest` of a writer: the vectors that are left to write, the first one without what
`fVecOffset` has passed -/
structure WriteRequest (A : Type) where
  fTotalSize : ℕ
  fBytesTransferred : ℕ
  vecs : List (List Byte)
  fAncillaryData : Option A

inductive Status
  | ok
  | shutdown
  | brokenPipe
  | wouldBlock
  | badAddress
  | noMemory
  | timedOut
  | interrupted
deriving DecidableEq

/-- What can go wrong while bytes are copied -/
structure Faults where
  /-- how many vectors can be copied before the memory of one is not accessible -/
  copies : Option ℕ
  /-- whether there is no memory for an `AncillaryDataEntry` -/
  noMemory : Bool

def noFaults : Faults := ⟨none, false⟩

section

variable {A : Type}

def ReadRequest.new (vecs : List ℕ) : ReadRequest A := ⟨vecs.sum, 0, vecs, [], []⟩

def WriteRequest.new (vecs : List (List Byte)) (ancillaryData : Option A) : WriteRequest A :=
  ⟨(vecs.map List.length).sum, 0, vecs, ancillaryData⟩

def WriteRequest.bytesRemaining (r : WriteRequest A) : ℕ := r.fTotalSize - r.fBytesTransferred

end

/-! ## The buffer -/

/-- The bytes in the ring buffer, in the order they are read in, and the entries of ancillary data,
each with its offset from the one before it -/
structure UnixBufferQueue (A : Type) where
  fCapacity : ℕ
  fBuffer : List Byte
  fAncillaryData : List (A × ℕ)

section

variable {A : Type}

def UnixBufferQueue.readable (q : UnixBufferQueue A) : ℕ := q.fBuffer.length

def UnixBufferQueue.writable (q : UnixBufferQueue A) : ℕ := q.fCapacity - q.fBuffer.length

/-- The ancillary data of the next `offsetDelta` bytes, and the entries that stay -/
def readAncillary : ℕ → List (A × ℕ) → List A × List (A × ℕ)
  | _, [] => ([], [])
  | offsetDelta, (data, offset) :: entries =>
    if offset < offsetDelta then
      let rest := readAncillary (offsetDelta - offset) entries
      (data :: rest.1, rest.2)
    else ([], (data, offset - offsetDelta) :: entries)

/-- One round of the loop of `UnixBufferQueue::Read()`: `size` bytes are taken out. -/
def UnixBufferQueue.readBytes (q : UnixBufferQueue A) (r : ReadRequest A) (size : ℕ) :
    UnixBufferQueue A × ReadRequest A :=
  let ancillary := readAncillary size q.fAncillaryData
  ({ q with fBuffer := q.fBuffer.drop size, fAncillaryData := ancillary.2 },
    { r with
      fBytesTransferred := r.fBytesTransferred + size
      data := r.data ++ q.fBuffer.take size
      fAncillaryData := r.fAncillaryData ++ ancillary.1 })

/-- `UnixBufferQueue::Read()`, by the vectors that are left -/
def UnixBufferQueue.read (q : UnixBufferQueue A) (r : ReadRequest A) :
    List ℕ → Option ℕ → Status × UnixBufferQueue A × ReadRequest A
  | [], _ => (.ok, q, { r with vecs := [] })
  | size :: vecs, copies =>
    if size = 0 then q.read r vecs copies
    else if q.readable = 0 then (.ok, q, { r with vecs := size :: vecs })
    else if copies = some 0 then (.badAddress, q, { r with vecs := size :: vecs })
    else
      let n := min size q.readable
      let next := q.readBytes r n
      if n < size then (.ok, next.1, { next.2 with vecs := (size - n) :: vecs })
      else next.1.read next.2 vecs (copies.map (· - 1))

/-- One round of the loop of `UnixBufferQueue::Write()`: the bytes are put in; with the first of
them goes the entry of the ancillary data, its offset relative to the last entry. -/
def UnixBufferQueue.writeBytes (q : UnixBufferQueue A) (r : WriteRequest A) (bytes : List Byte) :
    UnixBufferQueue A × WriteRequest A :=
  let offset := q.readable - (q.fAncillaryData.map Prod.snd).sum
  ({ q with
      fBuffer := q.fBuffer ++ bytes
      fAncillaryData := q.fAncillaryData ++ (r.fAncillaryData.map (·, offset)).toList },
    { r with fBytesTransferred := r.fBytesTransferred + bytes.length, fAncillaryData := none })

/-- The loop of `UnixBufferQueue::Write()`, by the vectors that are left -/
def UnixBufferQueue.writeVecs (q : UnixBufferQueue A) (r : WriteRequest A) :
    List (List Byte) → Option ℕ → Status × UnixBufferQueue A × WriteRequest A
  | [], _ => (.ok, q, { r with vecs := [] })
  | vec :: vecs, copies =>
    if vec.length = 0 then q.writeVecs r vecs copies
    else if q.writable = 0 then (.ok, q, { r with vecs := vec :: vecs })
    else if copies = some 0 then (.badAddress, q, { r with vecs := vec :: vecs })
    else
      let n := min vec.length q.writable
      let next := q.writeBytes r (vec.take n)
      if n < vec.length then (.ok, next.1, { next.2 with vecs := vec.drop n :: vecs })
      else next.1.writeVecs next.2 vecs (copies.map (· - 1))

def UnixBufferQueue.write (q : UnixBufferQueue A) (r : WriteRequest A) (faults : Faults) :
    Status × UnixBufferQueue A × WriteRequest A :=
  if 0 < q.writable ∧ r.fAncillaryData.isSome ∧ faults.noMemory then (.noMemory, q, r)
  else q.writeVecs r r.vecs faults.copies

end

/-! ## The threads -/

/-- Which of its two loops a thread waits in: for its request to reach the front of the queue, or
for data or space -/
inductive Place
  | queue
  | transfer

/-- Where a thread is: outside, with what its last call has returned, or waiting, with whether a
notification is pending -/
inductive Thread (A : Type)
  | outside (status : Status) (transferred : ℕ) (data : List Byte) (ancillaryData : List A)
  | reading (r : ReadRequest A) (timeout : ℤ) (place : Place) (notified : Bool)
  | writing (r : WriteRequest A) (timeout : ℤ) (place : Place) (notified : Bool)

structure UnixFifo (T A : Type) where
  fBuffer : UnixBufferQueue A
  fReaders : List T
  fWriters : List T
  fShutdown : BitVec 32
  threads : T → Thread A

/-- `UnixFifo::UnixFifo()` and `Init()` -/
def UnixFifo.new (T A : Type) (capacity : ℕ) : UnixFifo T A :=
  ⟨⟨capacity, [], []⟩, [], [], 0, fun _ => .outside .ok 0 [] []⟩

def unixFifoShutdownRead : BitVec 32 := 1
def unixFifoShutdownWrite : BitVec 32 := 2

section

variable {T A : Type}

def UnixFifo.isReadShutdown (s : UnixFifo T A) : Bool := s.fShutdown &&& unixFifoShutdownRead ≠ 0

def UnixFifo.isWriteShutdown (s : UnixFifo T A) : Bool :=
  s.fShutdown &&& unixFifoShutdownWrite ≠ 0

def Thread.notifyRead : Thread A → Thread A
  | .reading r timeout place _ => .reading r timeout place true
  | thread => thread

def Thread.notifyWrite : Thread A → Thread A
  | .writing r timeout place _ => .writing r timeout place true
  | thread => thread

/-- `fReadCondition.NotifyAll()` -/
def UnixFifo.notifyReaders (s : UnixFifo T A) : UnixFifo T A :=
  { s with threads := fun t => (s.threads t).notifyRead }

/-- `fWriteCondition.NotifyAll()` -/
def UnixFifo.notifyWriters (s : UnixFifo T A) : UnixFifo T A :=
  { s with threads := fun t => (s.threads t).notifyWrite }

end

variable {T A : Type} [DecidableEq T]

def UnixFifo.setThread (s : UnixFifo T A) (t : T) (thread : Thread A) : UnixFifo T A :=
  { s with threads := Function.update s.threads t thread }

/-! ## Reading -/

/-- The rest of `UnixFifo::Read()` behind `_Read()` -/
def UnixFifo.finishRead (s : UnixFifo T A) (t : T) (r : ReadRequest A) (error : Status) :
    UnixFifo T A :=
  let fReaders := s.fReaders.erase t
  let left := { s with fReaders := fReaders }.setThread t
    (.outside error r.fBytesTransferred r.data r.fAncillaryData)
  -- there is more to read, there are other readers, and this one was the first in the queue
  let more : Bool := s.fReaders.head? = some t ∧ fReaders ≠ [] ∧ 0 < s.fBuffer.readable ∧
    !s.isReadShutdown
  let others := if more then left.notifyReaders else left
  -- something has been read, and there are writers
  let space : Bool := 0 < r.fBytesTransferred ∧ s.fWriters ≠ [] ∧ !s.isWriteShutdown
  if space then others.notifyWriters else others

/-- The second loop of `_Read()` and what follows -/
def UnixFifo.readData (s : UnixFifo T A) (t : T) (r : ReadRequest A) (timeout : ℤ)
    (faults : Faults) : UnixFifo T A :=
  if s.fBuffer.readable = 0 ∧ !s.isReadShutdown ∧ !s.isWriteShutdown then
    s.setThread t (.reading r timeout .transfer false)
  else if s.fBuffer.readable = 0 then
    s.finishRead t r (if s.isReadShutdown then .shutdown else .ok)
  else
    let result := s.fBuffer.read r r.vecs faults.copies
    { s with fBuffer := result.2.1 }.finishRead t result.2.2 result.1

/-- `_Read()` from its first loop on -/
def UnixFifo.readQueue (s : UnixFifo T A) (t : T) (r : ReadRequest A) (timeout : ℤ)
    (faults : Faults) : UnixFifo T A :=
  if s.fReaders.head? ≠ some t ∧ ¬(s.isReadShutdown ∧ s.fBuffer.readable = 0) then
    s.setThread t (.reading r timeout .queue false)
  else if s.fBuffer.readable = 0 ∧ s.isReadShutdown then s.finishRead t r .shutdown
  else if s.fBuffer.readable = 0 ∧ s.isWriteShutdown then s.finishRead t r .ok
  else if s.fBuffer.readable = 0 ∧ timeout = 0 then s.finishRead t r .wouldBlock
  else s.readData t r timeout faults

/-- `UnixFifo::Read()`. A running thread is treated as one with a pending notification. -/
def UnixFifo.read (s : UnixFifo T A) (t : T) (vecs : List ℕ) (timeout : ℤ) (faults : Faults) :
    UnixFifo T A :=
  if s.isReadShutdown ∧ s.fBuffer.readable = 0 then
    s.setThread t (.outside .shutdown 0 [] [])
  else
    let r := ReadRequest.new vecs
    let added := { s with fReaders := s.fReaders ++ [t] }.setThread t
      (.reading r timeout .queue true)
    if added.fReaders.head? ≠ some t ∧ timeout = 0 then added.finishRead t r .wouldBlock
    else added.readQueue t r timeout faults

/-! ## Writing -/

/-- The rest of `UnixFifo::Write()` behind `_Write()` -/
def UnixFifo.finishWrite (s : UnixFifo T A) (t : T) (r : WriteRequest A) (error : Status) :
    UnixFifo T A :=
  let fWriters := s.fWriters.erase t
  let left := { s with fWriters := fWriters }.setThread t
    (.outside error r.fBytesTransferred [] [])
  let more : Bool := s.fWriters.head? = some t ∧ fWriters ≠ [] ∧ 0 < s.fBuffer.writable ∧
    !s.isWriteShutdown
  let others := if more then left.notifyWriters else left
  let data : Bool := 0 < r.fBytesTransferred ∧ s.fReaders ≠ [] ∧ !s.isReadShutdown
  if data then others.notifyReaders else others

/-- The loop of `_Write()` that waits for space and transfers. A transfer that went well and left
bytes has filled the buffer, so that the next round waits. -/
def UnixFifo.writeSpace (s : UnixFifo T A) (t : T) (r : WriteRequest A) (timeout : ℤ)
    (faults : Faults) : UnixFifo T A :=
  if r.bytesRemaining = 0 then s.finishWrite t r .ok
  else if s.fBuffer.writable = 0 ∧ !s.isWriteShutdown ∧ !s.isReadShutdown then
    s.setThread t (.writing r timeout .transfer false)
  else if s.isWriteShutdown then s.finishWrite t r .shutdown
  else if s.isReadShutdown then s.finishWrite t r .brokenPipe
  else
    let result := s.fBuffer.write r faults
    let written := { s with fBuffer := result.2.1 }
    if result.1 ≠ .ok ∨ result.2.2.bytesRemaining = 0 then
      written.finishWrite t result.2.2 result.1
    else written.setThread t (.writing result.2.2 timeout .transfer false)

/-- `_Write()` from its first loop on -/
def UnixFifo.writeQueue (s : UnixFifo T A) (t : T) (r : WriteRequest A) (timeout : ℤ)
    (faults : Faults) : UnixFifo T A :=
  if s.fWriters.head? ≠ some t ∧ !s.isWriteShutdown then
    s.setThread t (.writing r timeout .queue false)
  else if s.isWriteShutdown then s.finishWrite t r .shutdown
  else if s.isReadShutdown then s.finishWrite t r .brokenPipe
  else if r.fTotalSize = 0 then s.finishWrite t r .ok
  else s.writeSpace t r timeout faults

def UnixFifo.writeNonBlocking (s : UnixFifo T A) (t : T) (r : WriteRequest A)
    (faults : Faults) : UnixFifo T A :=
  if s.fWriters.head? ≠ some t ∨ s.fBuffer.writable = 0 then s.finishWrite t r .wouldBlock
  else if r.fTotalSize = 0 then s.finishWrite t r .ok
  else
    let result := s.fBuffer.write r faults
    { s with fBuffer := result.2.1 }.finishWrite t result.2.2 result.1

def UnixFifo.write (s : UnixFifo T A) (t : T) (vecs : List (List Byte)) (ancillaryData : Option A)
    (timeout : ℤ) (faults : Faults) : UnixFifo T A :=
  if s.isWriteShutdown then s.setThread t (.outside .shutdown 0 [] [])
  else if s.isReadShutdown then s.setThread t (.outside .brokenPipe 0 [] [])
  else
    let r := WriteRequest.new vecs ancillaryData
    let added := { s with fWriters := s.fWriters ++ [t] }.setThread t
      (.writing r timeout .queue true)
    if timeout = 0 then added.writeNonBlocking t r faults
    else added.writeQueue t r timeout faults

/-! ## The system -/

def UnixFifo.shutdown (s : UnixFifo T A) (shutdown : BitVec 32) : UnixFifo T A :=
  let marked := { s with fShutdown := s.fShutdown ||| shutdown }
  if shutdown ≠ 0 then marked.notifyReaders.notifyWriters else marked

inductive Wakeup
  | notified
  | timedOut
  | interrupted
deriving DecidableEq

def Wakeup.error : Wakeup → Status
  | .notified => .ok
  | .timedOut => .timedOut
  | .interrupted => .interrupted

/-- A thread holds the lock again after its wait. -/
def UnixFifo.woken (s : UnixFifo T A) (t : T) (wakeup : Wakeup) (faults : Faults) :
    Option (UnixFifo T A) :=
  match s.threads t with
  | .outside .. => none
  | .reading r timeout place notified =>
    if wakeup ≠ .notified then some (s.finishRead t r wakeup.error)
    else if notified then
      some (match place with
        | .queue => s.readQueue t r timeout faults
        | .transfer => s.readData t r timeout faults)
    else none
  | .writing r timeout place notified =>
    if wakeup ≠ .notified then some (s.finishWrite t r wakeup.error)
    else if notified then
      some (match place with
        | .queue => s.writeQueue t r timeout faults
        | .transfer => s.writeSpace t r timeout faults)
    else none

inductive Action (T A : Type)
  | read (t : T) (vecs : List ℕ) (timeout : ℤ) (faults : Faults)
  | write (t : T) (vecs : List (List Byte)) (ancillaryData : Option A) (timeout : ℤ)
    (faults : Faults)
  | woken (t : T) (wakeup : Wakeup) (faults : Faults)
  | shutdown (shutdown : BitVec 32)

def Thread.isOutside : Thread A → Bool
  | .outside .. => true
  | _ => false

def step (s : UnixFifo T A) : Action T A → Option (UnixFifo T A)
  | .read t vecs timeout faults =>
    if (s.threads t).isOutside then some (s.read t vecs timeout faults) else none
  | .write t vecs ancillaryData timeout faults =>
    if (s.threads t).isOutside then some (s.write t vecs ancillaryData timeout faults) else none
  | .woken t wakeup faults => s.woken t wakeup faults
  | .shutdown shutdown => some (s.shutdown shutdown)

end Haiku.Unix
