import Haiku.Lib.Run
import Haiku.Lib.Spans
import Mathlib.Algebra.Order.Ring.Int
import Mathlib.Data.BitVec
import Mathlib.Tactic.Ring

/-!
# TCP sequence numbers

`tcp_sequence` of `src/add-ons/kernel/network/protocols/tcp/tcp.h`: 32 bit numbers, compared by the
sign of their difference. The comparisons are right for the numbers of two positions of a stream
that are less than `2^31` apart, however often the numbers have wrapped around.
-/

namespace Haiku.TCP

/-- `tcp_sequence` -/
abbrev Sequence := BitVec 32

namespace Sequence

/-- `operator>` -/
def gt (a b : Sequence) : Bool := (a - b).toInt > 0

/-- `operator>=` -/
def ge (a b : Sequence) : Bool := (a - b).toInt ≥ 0

/-- `operator<` -/
def lt (a b : Sequence) : Bool := (a - b).toInt < 0

/-- `operator<=` -/
def le (a b : Sequence) : Bool := (a - b).toInt ≤ 0

end Sequence

/-- The sequence number of a position of a stream that starts with the number `initial`. -/
def seqAt (initial : Sequence) (p : ℕ) : Sequence := initial + BitVec.ofNat 32 p

variable {initial : Sequence} {x y n : ℕ}

lemma seqAt_add : seqAt initial x + BitVec.ofNat 32 n = seqAt initial (x + n) := by
  rw [seqAt, seqAt, BitVec.add_assoc, ← BitVec.ofNat_add]

lemma seqAt_sub : seqAt initial x - seqAt initial y = BitVec.ofNat 32 x - BitVec.ofNat 32 y := by
  rw [seqAt, seqAt]
  bv_omega

lemma toInt_seqAt_sub (hlo : -0x80000000 ≤ (x : ℤ) - y) (hhi : (x : ℤ) - y < 0x80000000) :
    (seqAt initial x - seqAt initial y).toInt = x - y := by
  rw [seqAt_sub, BitVec.toInt_sub, BitVec.toInt_ofNat', BitVec.toInt_ofNat']
  rw [Int.bmod_sub_bmod, Int.sub_bmod_bmod]
  apply Int.bmod_eq_of_le <;> omega

lemma toNat_seqAt_sub (hle : y ≤ x) (hlt : x < y + 2 ^ 32) :
    (seqAt initial x - seqAt initial y).toNat = x - y := by
  rw [seqAt_sub]
  bv_omega

section

variable (hlo : -0x80000000 ≤ (x : ℤ) - y) (hhi : (x : ℤ) - y < 0x80000000)
include hlo hhi

lemma seqAt_inj : seqAt initial x = seqAt initial y ↔ x = y := by
  constructor
  · intro heq
    have hzero : (seqAt initial x - seqAt initial y).toInt = x - y := toInt_seqAt_sub hlo hhi
    rw [heq, BitVec.sub_self] at hzero
    have : (0#32).toInt = 0 := rfl
    omega
  · rintro rfl
    rfl

lemma gt_seqAt :
    Sequence.gt (seqAt initial x) (seqAt initial y) = decide (x > y) := by
  rw [Sequence.gt, toInt_seqAt_sub hlo hhi, decide_eq_decide]
  omega

lemma ge_seqAt :
    Sequence.ge (seqAt initial x) (seqAt initial y) = decide (x ≥ y) := by
  rw [Sequence.ge, toInt_seqAt_sub hlo hhi, decide_eq_decide]
  omega

lemma lt_seqAt :
    Sequence.lt (seqAt initial x) (seqAt initial y) = decide (x < y) := by
  rw [Sequence.lt, toInt_seqAt_sub hlo hhi, decide_eq_decide]
  omega

lemma le_seqAt :
    Sequence.le (seqAt initial x) (seqAt initial y) = decide (x ≤ y) := by
  rw [Sequence.le, toInt_seqAt_sub hlo hhi, decide_eq_decide]
  omega

end

lemma le_seqAt_far : Sequence.le (seqAt initial (y + 0x80000000)) (seqAt initial y) = true := by
  have hsub : seqAt initial (y + 0x80000000) - seqAt initial y = 0x80000000#32 := by
    rw [seqAt_sub]
    bv_omega
  rw [Sequence.le, hsub]
  rfl

/-!
## The buffer queue of a TCP endpoint

`BufferQueue::Add()` and `BufferQueue::Get()` of
`src/add-ons/kernel/network/protocols/tcp/BufferQueue.cpp`, with buffer operations that succeed.
A buffer is its bytes with its sequence number; the doubly linked list of the queue is a list.
-/

open Lib

variable {α : Type}

/-- The parts of `net_buffer` the queue uses. -/
structure NetBuffer (α : Type) where
  sequence : Sequence
  data : List α
  deriving DecidableEq

namespace NetBuffer

def size (b : NetBuffer α) : ℕ := b.data.length

/-- `buffer->sequence + buffer->size` -/
def stop (b : NetBuffer α) : Sequence := b.sequence + BitVec.ofNat 32 b.size

/-- `remove_header()`, with the sequence number that follows from it -/
def removeHeader (b : NetBuffer α) (bytes : ℕ) (sequence : Sequence) : NetBuffer α :=
  ⟨sequence, b.data.drop bytes⟩

def removeTrailer (b : NetBuffer α) (bytes : ℕ) : NetBuffer α :=
  { b with data := b.data.take (b.size - bytes) }

end NetBuffer

structure BufferQueue (α : Type) where
  list : List (NetBuffer α)
  numBytes : ℕ
  contiguousBytes : ℕ
  firstSequence : Sequence
  lastSequence : Sequence

namespace BufferQueue

/-- The constructor and `SetInitialSequence()` -/
def init (sequence : Sequence) : BufferQueue α where
  list := []
  numBytes := 0
  contiguousBytes := 0
  firstSequence := sequence
  lastSequence := sequence

/-! ## Adding a buffer -/

/-- The loop with the reverse iterator: the buffers up to `previous` in reverse order, and those
from `next` on. -/
def findPlace (sequence : Sequence) : List (NetBuffer α) → List (NetBuffer α) →
    List (NetBuffer α) × List (NetBuffer α)
  | [], after => ([], after)
  | previous :: before, after =>
    if sequence.ge previous.sequence then (previous :: before, after)
    else findPlace sequence before (previous :: after)

/-- Removes the data the previous buffer has already, or the previous buffer. The buffer is `none`
once it is freed; the number is `fNumBytes`. -/
def trimPrevious (buffer : NetBuffer α) : List (NetBuffer α) → ℕ →
    Option (NetBuffer α) × List (NetBuffer α) × ℕ
  | [], numBytes => (some buffer, [], numBytes)
  | previous :: before, numBytes =>
    if buffer.sequence = previous.sequence then
      if previous.size ≥ buffer.size then (none, previous :: before, numBytes)
      else (some buffer, before, numBytes - previous.size)
    else if previous.stop.ge buffer.stop then (none, previous :: before, numBytes)
    else if previous.stop.gt buffer.sequence then
      (some (buffer.removeHeader (previous.stop - buffer.sequence).toNat previous.stop),
        previous :: before, numBytes)
    else (some buffer, previous :: before, numBytes)

/-- The loop over the buffers from `next` on. It ends after `remove_trailer()`, as the buffer then
ends where the next one starts. -/
def swallow (buffer : NetBuffer α) : List (NetBuffer α) → ℕ →
    Option (NetBuffer α) × List (NetBuffer α) × ℕ
  | [], numBytes => (some buffer, [], numBytes)
  | next :: after, numBytes =>
    if buffer.stop.gt next.sequence then
      if next.stop.le buffer.stop then swallow buffer after (numBytes - next.size)
      else if next.sequence.gt buffer.sequence then
        (some (buffer.removeTrailer (buffer.stop - next.sequence).toNat), next :: after, numBytes)
      else (none, next :: after, numBytes)
    else (some buffer, next :: after, numBytes)

/-- The loop that counts the buffers the new one has connected. -/
def connect (first : Sequence) : ℕ → List (NetBuffer α) → ℕ
  | contiguousBytes, [] => contiguousBytes
  | contiguousBytes, buffer :: list =>
    if first + BitVec.ofNat 32 contiguousBytes = buffer.sequence then
      connect first (contiguousBytes + buffer.size) list
    else contiguousBytes

/-- The end of `Add()`, from where the buffer is inserted between two others. -/
def link (q : BufferQueue α) (buffer : NetBuffer α) (before after : List (NetBuffer α))
    (numBytes : ℕ) : BufferQueue α :=
  let numBytes := numBytes + buffer.size
  let contiguousBytes :=
    if q.lastSequence - q.firstSequence = BitVec.ofNat 32 numBytes then numBytes
    else if q.firstSequence + BitVec.ofNat 32 q.contiguousBytes = buffer.sequence then
      connect q.firstSequence q.contiguousBytes (buffer :: after)
    else q.contiguousBytes
  { q with
    list            := before.reverse ++ buffer :: after
    numBytes        := numBytes
    contiguousBytes := contiguousBytes }

/-- `Add()` behind the end of the queue. -/
def append (q : BufferQueue α) (buffer : NetBuffer α) : BufferQueue α :=
  let contiguousBytes :=
    if buffer.sequence = q.lastSequence ∧
        q.lastSequence - q.firstSequence = BitVec.ofNat 32 q.numBytes then
      q.contiguousBytes + buffer.size
    else q.contiguousBytes
  { q with
    list            := q.list ++ [buffer]
    contiguousBytes := contiguousBytes
    lastSequence    := buffer.stop
    numBytes        := q.numBytes + buffer.size }

/-- `Add()` before the end of the queue. -/
def insert (q : BufferQueue α) (buffer : NetBuffer α) : BufferQueue α :=
  let q := { q with
    lastSequence := if q.lastSequence.lt buffer.stop then buffer.stop else q.lastSequence }
  let place := findPlace buffer.sequence q.list.reverse []
  match trimPrevious buffer place.1 q.numBytes with
  | (none, _, _) => q
  | (some buffer, before, numBytes) =>
    match swallow buffer place.2 numBytes with
    | (none, after, numBytes) =>
      { q with list := before.reverse ++ after, numBytes := numBytes }
    | (some buffer, after, numBytes) => q.link buffer before after numBytes

def add (q : BufferQueue α) (data : List α) (sequence : Sequence) : BufferQueue α :=
  let buffer : NetBuffer α := ⟨sequence, data⟩
  if buffer.stop.le q.firstSequence ∨ buffer.size = 0 then q
  else
    -- data that is already long gone is trimmed
    let buffer :=
      if sequence.lt q.firstSequence then
        buffer.removeHeader (q.firstSequence - sequence).toNat q.firstSequence
      else buffer
    if q.list = [] ∨ buffer.sequence.ge q.lastSequence then q.append buffer
    else q.insert buffer

/-! ## Handing out bytes -/

/-- The loop of `Get()` that clones data and removes it from the queue: the data, and the buffers
left. -/
def takeBytes : ℕ → List (NetBuffer α) → List α × List (NetBuffer α)
  | _, [] => ([], [])
  | bytesLeft, source :: list =>
    if bytesLeft = 0 then ([], source :: list)
    else
      let size := min source.size bytesLeft
      if size = source.size then
        let r := takeBytes (bytesLeft - size) list
        (source.data ++ r.1, r.2)
      else
        (source.data.take size,
          source.removeHeader size (source.sequence + BitVec.ofNat 32 size) :: list)

/-- The loop of `Get()` that only clones data. -/
def cloneBytes : ℕ → List (NetBuffer α) → List α
  | _, [] => []
  | bytesLeft, source :: list =>
    if bytesLeft = 0 then []
    else
      let size := min source.size bytesLeft
      source.data.take size ++ cloneBytes (bytesLeft - size) list

/-- The part of `Get()` that removes data: a first buffer that is not too large is taken out of the
queue, and the rest is copied to it. -/
def takeFrom (bytes : ℕ) : List (NetBuffer α) → List α × List (NetBuffer α)
  | [] => ([], [])
  | buffer :: list =>
    if buffer.size > bytes then takeBytes bytes (buffer :: list)
    else
      let r := takeBytes (bytes - buffer.size) list
      (buffer.data ++ r.1, r.2)

/-- `BufferQueue::Get()` from the start of the queue. Without data there is no buffer. -/
def get (q : BufferQueue α) (bytes : ℕ) (remove : Bool) : BufferQueue α × List α :=
  let bytes := min bytes q.contiguousBytes
  if bytes = 0 then (q, [])
  else if remove then
    let r := takeFrom bytes q.list
    ({ q with
        list            := r.2
        firstSequence   := q.firstSequence + BitVec.ofNat 32 r.1.length
        numBytes        := q.numBytes - r.1.length
        contiguousBytes := q.contiguousBytes - r.1.length }, r.1)
  else (q, cloneBytes bytes q.list)

end BufferQueue

/-! ## The queue as a transition system -/

/-- The queue, with the bytes that were taken out of it so far. -/
structure Receiver (α : Type) where
  queue : BufferQueue α
  taken : List α

inductive Action (α : Type)
  | add (data : List α) (sequence : Sequence)
  | get (bytes : ℕ) (remove : Bool)

def Receiver.init (initial : Sequence) : Receiver α := ⟨.init initial, []⟩

def step (s : Receiver α) : Action α → Option (Receiver α)
  | .add data sequence => some { s with queue := s.queue.add data sequence }
  | .get bytes remove =>
    let r := s.queue.get bytes remove
    some ⟨r.1, if remove then s.taken ++ r.2 else s.taken⟩

/-! ## What the queue is for -/

/-- The bytes of a stream from one position up to another. -/
def slice (stream : ℕ → α) (a b : ℕ) : List α := (List.range' a (b - a)).map stream

/-- The bytes are those of the stream at their sequence number, and they lie within `2^31` of the
first one that was not taken yet. -/
def Carries (stream : ℕ → α) (initial : Sequence) (first : ℕ) (data : List α)
    (sequence : Sequence) : Prop :=
  data = [] ∨ ∃ p, sequence = seqAt initial p ∧ data = slice stream p (p + data.length) ∧
    first ≤ p + 0x80000000 ∧ p + data.length ≤ first + 0x80000000

def Sends (stream : ℕ → α) (initial : Sequence) (s : Receiver α) : Action α → Prop
  | .add data sequence => Carries stream initial s.taken.length data sequence
  | .get _ _ => True

/-- A buffer with the bytes of a span of the stream. -/
def buffered (stream : ℕ → α) (initial : Sequence) (span : Span) : NetBuffer α :=
  ⟨seqAt initial span.1, slice stream span.1 span.2⟩

/-- The queue holds spans of the stream, sorted and disjoint, and its counters are right; the bytes
taken out of it are those in front of the queue. -/
structure Reassembles (stream : ℕ → α) (initial : Sequence) (s : Receiver α) : Prop where
  taken : s.taken = slice stream 0 s.taken.length
  first : s.queue.firstSequence = seqAt initial s.taken.length
  spans : ∃ l last, s.queue.list = l.map (buffered stream initial) ∧
    Spans s.taken.length l last ∧ s.queue.lastSequence = seqAt initial last ∧
    s.queue.numBytes = total l ∧
    s.queue.contiguousBytes = gapFree s.taken.length l - s.taken.length

/-- The last buffer of the gap-free prefix of the queue. -/
def lastContiguous : Sequence → List (NetBuffer α) → Option (NetBuffer α)
  | _, [] => none
  | sequence, buffer :: list =>
    if buffer.sequence = sequence then (lastContiguous buffer.stop list).or (some buffer) else none

/-- There is a hole in the queue that ends behind the given position. -/
def hasHoleBehind (stop : Sequence) : Sequence → List (NetBuffer α) → Bool
  | _, [] => false
  | sequence, buffer :: list =>
    (buffer.sequence ≠ sequence && buffer.sequence.gt stop) ||
      hasHoleBehind stop buffer.stop list

/-- The segment ends behind the gap-free prefix of the queue, but starts so early that it takes the
place of the last buffer of the prefix, and a hole remains behind it. What lies before the first
sequence number does not count. -/
def BufferQueue.straddles (q : BufferQueue α) (segment : NetBuffer α) : Bool :=
  let start := if segment.sequence.lt q.firstSequence then q.firstSequence else segment.sequence
  segment.stop.gt q.firstSequence &&
    (lastContiguous q.firstSequence q.list).any (fun last =>
      start.le last.sequence && segment.stop.gt last.stop) &&
    hasHoleBehind segment.stop q.firstSequence q.list

/-- No segment straddles the end of the gap-free prefix. -/
def Aligned (s : Receiver α) : Action α → Prop
  | .add data sequence => data = [] ∨ s.queue.straddles ⟨sequence, data⟩ = false
  | .get _ _ => True

/-!
## The buffer queue on the sending side

The functions of `BufferQueue` an endpoint uses beside `Add()` and `Get()` from the start: the soft
limit `fMaxBytes` and the push pointer, and what acknowledges and retransmits need.
-/

namespace BufferQueue

/-- `SetInitialSequence()`: whatever is in the queue stays there. -/
def setInitialSequence (q : BufferQueue α) (sequence : Sequence) : BufferQueue α :=
  { q with firstSequence := sequence, lastSequence := sequence }

def nextSequence (q : BufferQueue α) : Sequence :=
  q.firstSequence + BitVec.ofNat 32 q.contiguousBytes

def isContiguous (q : BufferQueue α) : Bool := q.numBytes = q.contiguousBytes

/-- `Available()` with a sequence number -/
def availableFrom (q : BufferQueue α) (sequence : Sequence) : ℕ :=
  if sequence.gt q.nextSequence then 0
  else (BitVec.ofNat 32 q.contiguousBytes + q.firstSequence - sequence).toNat

/-- The loop of `RemoveUntil()`: the buffers left, and the number of bytes removed. -/
def dropUntil (sequence : Sequence) : List (NetBuffer α) → List (NetBuffer α) × ℕ
  | [] => ([], 0)
  | buffer :: list =>
    if buffer.sequence.lt sequence then
      if sequence.ge buffer.stop then
        let r := dropUntil sequence list
        (r.1, buffer.size + r.2)
      else
        let size := (sequence - buffer.sequence).toNat
        (buffer.removeHeader size sequence :: list, size)
    else (buffer :: list, 0)

def removeUntil (q : BufferQueue α) (sequence : Sequence) : BufferQueue α :=
  if sequence.lt q.firstSequence then q
  else
    let r := dropUntil sequence q.list
    { q with
      list            := r.1
      numBytes        := q.numBytes - r.2
      contiguousBytes := q.contiguousBytes - r.2
      firstSequence   := match r.1 with
        | [] => q.lastSequence
        | buffer :: _ => buffer.sequence }

inductive GetError
  /-- `B_BAD_VALUE` -/
  | badValue
  /-- `panic("we should have had that data...")`, and the one for data that starts too late -/
  | missing

/-- The loop that finds the first buffer matching the sequence number. -/
def findSource (sequence : Sequence) : List (NetBuffer α) → List (NetBuffer α)
  | [] => []
  | source :: list => if sequence.lt source.stop then source :: list else findSource sequence list

/-- The loop that clones the data, from the given offset in the first buffer on. -/
def cloneFrom : ℕ → ℕ → List (NetBuffer α) → List α
  | _, _, [] => []
  | offset, bytesLeft, source :: list =>
    if bytesLeft = 0 then []
    else
      let size := min (source.size - offset) bytesLeft
      (source.data.drop offset).take size ++ cloneFrom 0 (bytesLeft - size) list

/-- `Get()` with a sequence number -/
def getFrom (q : BufferQueue α) (sequence : Sequence) (bytes : ℕ) : Except GetError (List α) :=
  if bytes = 0 then .ok []
  else if sequence.ge q.lastSequence ∨ sequence.lt q.firstSequence then .error .badValue
  else
    let bytes :=
      if Sequence.gt (sequence + BitVec.ofNat 32 bytes) q.lastSequence then
        (q.lastSequence - sequence).toNat
      else bytes
    match findSource sequence q.list with
    | [] => .error .missing
    | source :: list =>
      if source.sequence.gt sequence then .error .missing
      else .ok (cloneFrom (sequence - source.sequence).toNat bytes (source :: list))

end BufferQueue

/-- The queue with its limit and the position of the last pushed byte. -/
structure LimitedQueue (α : Type) extends BufferQueue α where
  maxBytes : ℕ
  pushPointer : Sequence

namespace LimitedQueue

/-- The constructor -/
def init (maxBytes : ℕ) : LimitedQueue α where
  toBufferQueue := .init 0
  maxBytes := maxBytes
  pushPointer := 0

/-- `Free()`: the limit is a soft one, there may be more data in the queue. -/
def free (q : LimitedQueue α) : ℕ :=
  if q.maxBytes > q.numBytes then q.maxBytes - q.numBytes else 0

def pushedData (q : LimitedQueue α) : ℕ :=
  if q.pushPointer ≠ 0 ∧ q.pushPointer.gt q.firstSequence then
    (q.pushPointer - q.firstSequence).toNat
  else 0

def setPushPointer (q : LimitedQueue α) : LimitedQueue α :=
  { q with pushPointer := match q.list.getLast? with
      | none => 0
      | some buffer => buffer.stop }

def add (q : LimitedQueue α) (data : List α) (sequence : Sequence) : LimitedQueue α :=
  { q with toBufferQueue := q.toBufferQueue.add data sequence }

end LimitedQueue

end Haiku.TCP
