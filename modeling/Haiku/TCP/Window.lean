import Haiku.TCP.System

/-!
# What an endpoint offers, and what it takes

The endpoint with what an observer of the connection knows. Positions do not wrap around: the
observer gives every received byte a place, the number of the connection and the position of the
byte in the stream of the peer, and collects the places up to which the endpoint has offered to
receive, the right window edges of the segments it has sent. The endpoint never looks at them.
-/

namespace Haiku.TCP

variable {α β : Type}

structure Place where
  connection : ℕ
  position : ℤ

def BufferQueue.bytes (q : BufferQueue α) : List α := q.list.flatMap NetBuffer.data

/-- The endpoint; `next` is the position of `fReceiveNext`. -/
structure Observed (α β : Type) where
  endpoint : TCPEndpoint (α × Place) β
  connection : ℕ
  next : ℤ
  edges : List Place

/-- A sequence number of a connection with its position: those of the numbers around it follow. -/
structure Reference where
  connection : ℕ
  number : Sequence
  position : ℤ

namespace Reference

def locate (r : Reference) (sequence : Sequence) : ℤ :=
  r.position + (sequence - r.number).toInt

/-- The bytes with their places, from the one with the given number on -/
def label (r : Reference) (data : List α) (sequence : Sequence) : List (α × Place) :=
  data.mapIdx fun i x => (x, ⟨r.connection, r.locate sequence + i⟩)

/-- The right edge of the window a segment offers: `acknowledge` plus the scaled window. A segment
that does not acknowledge anything has none. -/
def edge (r : Reference) (shift : ℕ) (segment : Segment) : Option Place :=
  if segment.flags.acknowledge then
    some ⟨r.connection, r.locate segment.acknowledge + (segment.scaledWindow shift).toNat⟩
  else none

end Reference

/-- The segment and the data of a call for a received segment -/
def EndpointAction.received : EndpointAction α β → List (Segment × List α)
  | .segmentReceived segment data => [(segment, data)]
  | _ => []

def Segment.firstByte (segment : Segment) : Sequence :=
  if segment.flags.synchronize then segment.sequence + 1 else segment.sequence

namespace Observed

def init (sendBufferSize receiveBufferSize : ℕ) (anything : Sequence) : Observed α β where
  endpoint := .init sendBufferSize receiveBufferSize anything
  connection := 0
  next := 0
  edges := []

/-- A SYN the endpoint accepts is the reference for a new connection, and otherwise it is
`fReceiveNext`. -/
def reference (s : Observed α β) : EndpointAction α β → Reference
  | .spawn _ _ _ _ segment _ => ⟨s.connection + 1, segment.sequence + 1, 0⟩
  | .segmentReceived segment _ =>
    if s.endpoint.state = .synchronizeSent ∧ s.endpoint.synchronizes segment then
      ⟨s.connection + 1, segment.sequence + 1, 0⟩
    else ⟨s.connection, s.endpoint.receiveNext, s.next⟩
  | _ => ⟨s.connection, s.endpoint.receiveNext, s.next⟩

def labelled (r : Reference) : EndpointAction α β → EndpointAction (α × Place) β
  | .spawn noDelay noOptions isBound path segment data =>
    .spawn noDelay noOptions isBound path segment (r.label data segment.firstByte)
  | .segmentReceived segment data =>
    .segmentReceived segment (r.label data segment.firstByte)
  | .connect path => .connect path
  | .listen => .listen
  | .readData point numBytes flags lowWaterMark => .readData point numBytes flags lowWaterMark
  | .sendData data outOfBand endOfFile lowWaterMark =>
    .sendData data outOfBand endOfFile lowWaterMark
  | .shutdown read write => .shutdown read write
  | .close => .close
  | .free => .free
  | .retransmitTimer => .retransmitTimer
  | .persistTimer => .persistTimer
  | .delayedAcknowledgeTimer => .delayedAcknowledgeTimer
  | .timeWaitTimer => .timeWaitTimer
  | .setSendBufferSize length => .setSendBufferSize length
  | .setReceiveBufferSize length => .setReceiveBufferSize length
  | .setNoDelay noDelay => .setNoDelay noDelay

def step (s : Observed α β) (call : EndpointCall α β) : Option (Observed α β) :=
  let r := s.reference call.action
  (stepEndpoint s.endpoint ⟨call.now, call.outcomes, labelled r call.action⟩).map fun e =>
    { endpoint   := e
      connection := r.connection
      next       := r.locate e.receiveNext
      edges      := s.edges ++ e.sent.filterMap fun sent => r.edge e.receiveWindowShift sent.1 }

/-- The place lies below the right edge of a window the endpoint has offered. -/
def Offers (s : Observed α β) (place : Place) : Prop :=
  ∃ edge ∈ s.edges, edge.connection = place.connection ∧ place.position < edge.position

def BelowEdge (s : Observed α β) : Prop :=
  ∀ x ∈ s.endpoint.receiveQueue.bytes, s.Offers x.2

end Observed

/-! ## The segments that respect the window -/

namespace TCPEndpoint

/-- The window `_Receive()` takes data from -/
def window (e : TCPEndpoint α β) : ℕ := max e.receiveQueue.free e.receiveWindow

/-- The segment does not get through to where data is taken: the endpoint does not receive, the
segment is a reset or a faulty SYN, it is out of the window, or it acknowledges what it should
not. -/
def refuses (e : TCPEndpoint α β) (segment : Segment) (size : ℕ) : Bool :=
  e.flags.noReceive || segment.flags.reset ||
  match e.state with
  | .synchronizeSent => !(e.synchronizes segment && segment.flags.acknowledge)
  | .synchronizeReceived | .established | .finishSent | .finishAcknowledged =>
    e.isFaulty segment || (e.state = .synchronizeReceived && !segment.flags.acknowledge) ||
      (segment.sequence ≠ e.receiveNext &&
        !segmentInSequence segment.sequence size e.receiveNext e.receiveWindow) ||
      (segment.flags.acknowledge && segment.acknowledge ≠ e.sendUnacknowledged &&
        (e.sendMax.lt segment.acknowledge || segment.acknowledge.lt e.sendUnacknowledged))
  | _ => true

end TCPEndpoint

namespace Observed

/-- The data of the segment ends below the right edge of a window the endpoint has offered, or the
window from `fReceiveNext` on that the endpoint takes data from does, and is less than `2^31`
bytes; a finish flag makes it one byte larger. -/
def Offered (s : Observed α β) (segment : Segment) (size : ℕ) (r : Reference) : Prop :=
  ∃ edge ∈ s.edges, edge.connection = r.connection ∧
    (r.locate segment.firstByte + size ≤ edge.position ∨ s.endpoint.window < 2 ^ 31 ∧
      r.position + s.endpoint.window + (if segment.flags.finish then 1 else 0) ≤ edge.position)

/-- The segments carry no data, data the endpoint does not take, or data it has offered to
receive. -/
def Respects (s : Observed α β) (call : EndpointCall α β) : Prop :=
  ∀ r ∈ call.action.received, r.2 = [] ∨ s.endpoint.refuses r.1 r.2.length ∨
    s.Offered r.1 r.2.length (s.reference call.action)

end Observed

end Haiku.TCP
