import Haiku.TCP.BufferQueue

/-!
# A TCP endpoint, and how it sends

The state of a `TCPEndpoint` of `src/add-ons/kernel/network/protocols/tcp/TCPEndpoint.cpp`, and
`_SendQueued()` with what it needs. The bytes received and the bytes sent have types of their own.
What the network stack answers is part of the state: a list with the outcome of every attempt to
send a segment, after which memory is out. The segments sent are collected.

The round trip time is left out, it only sets the delay of the retransmit timer.
-/

namespace Haiku.TCP

inductive TcpState
  | closed
  | listen
  | synchronizeSent
  | synchronizeReceived
  | established
  | finishReceived
  | waitForFinishAcknowledge
  | finishSent
  | finishAcknowledged
  | closing
  | timeWait
  deriving DecidableEq

namespace TcpState

/-- `fState < ESTABLISHED` -/
def beforeEstablished : TcpState → Bool
  | .closed | .listen | .synchronizeSent | .synchronizeReceived => true
  | _ => false

/-- `fState > ESTABLISHED` -/
def afterEstablished (state : TcpState) : Bool :=
  state ≠ .established && !state.beforeEstablished

def isWritable : TcpState → Bool
  | .synchronizeSent | .synchronizeReceived | .established | .finishReceived => true
  | _ => false

/-- `state_needs_finish()` -/
def needsFinish : TcpState → Bool
  | .waitForFinishAcknowledge | .finishSent | .closing => true
  | _ => false

end TcpState

/-- `TCP_FLAG_*` -/
structure SegmentFlags where
  finish : Bool
  synchronize : Bool
  reset : Bool
  push : Bool
  acknowledge : Bool
  urgent : Bool

def SegmentFlags.none : SegmentFlags := ⟨false, false, false, false, false, false⟩

/-- `tcp_segment_header`, without selective acknowledgements -/
structure Segment where
  sequence : Sequence
  acknowledge : Sequence
  advertisedWindow : BitVec 16
  urgentOffset : BitVec 16
  flags : SegmentFlags
  windowShift : BitVec 8
  maxSegmentSize : BitVec 16
  hasWindowScale : Bool
  hasTimestamps : Bool
  timestampValue : BitVec 32
  timestampReply : BitVec 32

/-- `tcp_segment_header(flags)` -/
def Segment.init (flags : SegmentFlags) : Segment where
  sequence := 0
  acknowledge := 0
  advertisedWindow := 0
  urgentOffset := 0
  flags := flags
  windowShift := 0
  maxSegmentSize := 0
  hasWindowScale := false
  hasTimestamps := false
  timestampValue := 0
  timestampReply := 0

def Segment.acknowledgeOnly (segment : Segment) : Bool :=
  segment.flags.acknowledge && !segment.flags.synchronize && !segment.flags.finish &&
    !segment.flags.reset && !segment.flags.urgent

/-- `tcp_options_length()` -/
def Segment.optionsLength (segment : Segment) : ℕ :=
  (if segment.maxSegmentSize ≠ 0 then 4 else 0) + (if segment.hasTimestamps then 12 else 0) +
    (if segment.hasWindowScale then 4 else 0)

/-- The outcome of an attempt to send a segment. -/
inductive Outcome
  | sent
  /-- `gBufferModule->create()` returned `NULL` -/
  | noMemory
  /-- `add_tcp_header()` failed -/
  | noHeader
  /-- `send_routed_data()` failed -/
  | unreachable
  deriving DecidableEq

/-- The members for receiving -/
structure Receiving (α : Type) where
  receiveNext : Sequence
  receiveWindow : ℕ
  receiveMaxSegmentSize : ℕ
  receiveWindowShift : ℕ
  receiveQueue : LimitedQueue α
  finishReceived : Bool
  finishReceivedAt : Sequence
  initialReceiveSequence : Sequence
  receivedTimestamp : BitVec 32

/-- The members for sending, and the network stack -/
structure Sending (β : Type) where
  sendWindowShift : BitVec 8
  sendUnacknowledged : Sequence
  sendNext : Sequence
  sendMax : Sequence
  sendUrgentOffset : Sequence
  sendWindow : ℕ
  sendMaxWindow : ℕ
  sendMaxSegmentSize : ℕ
  sendQueue : LimitedQueue β
  lastAcknowledgeSent : Sequence
  initialSendSequence : Sequence
  duplicateAcknowledgeCount : ℕ
  receiveMaxAdvertised : Sequence
  congestionWindow : ℕ
  slowStartThreshold : ℕ
  retransmitTimer : Bool
  persistTimer : Bool
  delayedAcknowledgeTimer : Bool
  /-- `tcp_now()` -/
  now : BitVec 32
  outcomes : List Outcome
  sent : List (Segment × List β)

/-- `FLAG_*` -/
structure EndpointFlags where
  optionWindowScale : Bool
  optionTimestamp : Bool
  noReceive : Bool
  closed : Bool
  deleteOnClose : Bool
  isLocal : Bool

inductive SocketError
  | connectionRefused
  | notConnected
  | connectionReset

structure TCPEndpoint (α β : Type) extends Receiving α, Sending β where
  state : TcpState
  flags : EndpointFlags
  /-- `TCP_NODELAY` in `fOptions` -/
  noDelay : Bool
  /-- `TCP_NOOPT` in `fOptions` -/
  noOptions : Bool
  /-- `fRoute != NULL` -/
  hasRoute : Bool
  timeWaitTimer : Bool
  socketError : Option SocketError

variable {α β : Type}

/-- `tcp_sequence` plus a `uint32` -/
def Sequence.advance (sequence : Sequence) (bytes : ℕ) : Sequence :=
  sequence + BitVec.ofNat 32 bytes

/-- `(uint32)segment.advertised_window << shift`: the processor takes the shift modulo 32 -/
def Segment.scaledWindow (segment : Segment) (shift : ℕ) : BitVec 32 :=
  segment.advertisedWindow.setWidth 32 <<< (shift % 32)

/-- The segment after it was sent: the options of the connection setup are not sent again. -/
def Segment.afterSend (segment : Segment) : Segment :=
  let segment := if segment.flags.synchronize then
    { segment with hasWindowScale := false, maxSegmentSize := 0 } else segment
  { segment with flags := { segment.flags with
    synchronize := false, reset := false, finish := false } }

namespace Sending

def flightSize (s : Sending β) : ℕ := (s.sendMax - s.sendUnacknowledged).toNat

def consumedWindow (s : Sending β) : ℕ := (s.sendNext - s.sendUnacknowledged).toNat

/-- `length` in `_SendQueued()`: what the effective window lets through of the send queue. -/
def sendLength (s : Sending β) (force : Bool) (sendWindow : ℕ) : ℕ :=
  let sendWindow :=
    if s.congestionWindow > 0 ∧ s.congestionWindow < sendWindow then s.congestionWindow
    else sendWindow
  let sendWindow := if s.consumedWindow > sendWindow then 0 else sendWindow - s.consumedWindow
  -- one byte of data asks for a window update
  let sendWindow :=
    if force ∧ sendWindow = 0 ∧ s.sendNext.le s.sendQueue.lastSequence then 1 else sendWindow
  min (s.sendQueue.availableFrom s.sendNext) sendWindow

/-- The urgent offset is kept updated, so that it does not reach into the send window. -/
def updateUrgentOffset (s : Sending β) : Sending β :=
  { s with sendUrgentOffset :=
      if s.sendUrgentOffset.gt s.sendNext then s.sendUrgentOffset else s.sendUnacknowledged }

def cancelConnectionTimers (s : Sending β) : Sending β :=
  { s with retransmitTimer := false, persistTimer := false, delayedAcknowledgeTimer := false }

def resetSlowStart (s : Sending β) : Sending β :=
  { s with
    slowStartThreshold := max (s.flightSize / 2) (2 * s.sendMaxSegmentSize)
    congestionWindow   := s.sendMaxSegmentSize }

/-- The start of `_Acknowledged()`: what was acknowledged leaves the send queue. -/
def removeAcknowledged (s : Sending β) (acknowledge : Sequence) : Sending β :=
  { s with
    sendQueue          := { s.sendQueue with
      toBufferQueue := s.sendQueue.removeUntil acknowledge }
    sendUnacknowledged := acknowledge
    sendNext           := if s.sendNext.lt acknowledge then acknowledge else s.sendNext
    retransmitTimer    := s.retransmitTimer && acknowledge ≠ s.sendMax }

/-- The congestion window after an acknowledge; `newData` tells whether it was one of data. -/
def openCongestionWindow (s : Sending β) (newData : Bool) : Sending β :=
  let congestionWindow :=
    if newData ∧ s.congestionWindow < s.slowStartThreshold then
      (s.congestionWindow + s.sendMaxSegmentSize) % 2 ^ 32
    else s.congestionWindow
  let increment := s.sendMaxSegmentSize * s.sendMaxSegmentSize % 2 ^ 32
  let increment := if increment < congestionWindow then 1 else increment / congestionWindow
  { s with congestionWindow :=
      if congestionWindow ≥ s.slowStartThreshold then (congestionWindow + increment) % 2 ^ 32
      else congestionWindow }

/-- The third duplicate acknowledge starts the fast retransmit, further ones inflate the congestion
window. -/
def countDuplicate (s : Sending β) (acknowledge : Sequence) : Sending β :=
  let count := (s.duplicateAcknowledgeCount + 1) % 2 ^ 32
  if count < 3 then { s with duplicateAcknowledgeCount := count }
  else if count = 3 then
    let s := s.resetSlowStart
    { s with
      duplicateAcknowledgeCount := count
      congestionWindow          := (s.slowStartThreshold + 3 * s.sendMaxSegmentSize) % 2 ^ 32
      sendNext                  := acknowledge }
  else
    { s with
      duplicateAcknowledgeCount := count
      congestionWindow          := (s.congestionWindow + s.sendMaxSegmentSize) % 2 ^ 32 }

/-- An acknowledge of new data deflates the congestion window after a fast retransmit. -/
def resetDuplicates (s : Sending β) : Sending β :=
  { s with
    congestionWindow          :=
      if s.duplicateAcknowledgeCount ≥ 3 then s.slowStartThreshold else s.congestionWindow
    duplicateAcknowledgeCount := 0 }

def updateWindow (s : Sending β) (advertisedWindow : ℕ) : Sending β :=
  { s with
    sendWindow    := advertisedWindow
    sendMaxWindow := max advertisedWindow s.sendMaxWindow }

end Sending

namespace TCPEndpoint

/-- The constructor. `fLastAcknowledgeSent` and what concerns the received finish flag are set
before they are used, or have any value. -/
def init (sendBufferSize receiveBufferSize : ℕ) (anything : Sequence) : TCPEndpoint α β where
  receiveNext := 0
  receiveWindow := receiveBufferSize
  receiveMaxSegmentSize := 536
  receiveWindowShift := 0
  receiveQueue := .init receiveBufferSize
  finishReceived := false
  finishReceivedAt := anything
  initialReceiveSequence := anything
  receivedTimestamp := 0
  sendWindowShift := 0
  sendUnacknowledged := 0
  sendNext := 0
  sendMax := 0
  sendUrgentOffset := 0
  sendWindow := 0
  sendMaxWindow := 0
  sendMaxSegmentSize := 536
  sendQueue := .init sendBufferSize
  lastAcknowledgeSent := anything
  initialSendSequence := 0
  duplicateAcknowledgeCount := 0
  receiveMaxAdvertised := 0
  congestionWindow := 0
  slowStartThreshold := 0
  retransmitTimer := false
  persistTimer := false
  delayedAcknowledgeTimer := false
  now := 0
  outcomes := []
  sent := []
  state := .closed
  flags := ⟨true, true, false, false, false, false⟩
  noDelay := false
  noOptions := false
  hasRoute := false
  timeWaitTimer := false
  socketError := none

/-- `_CurrentFlags()`. The finish flag is set where the last bytes of the send queue are sent. -/
def currentFlags : TcpState → SegmentFlags
  | .closed => { SegmentFlags.none with reset := true, acknowledge := true }
  | .listen => .none
  | .synchronizeSent => { SegmentFlags.none with synchronize := true }
  | .synchronizeReceived => { SegmentFlags.none with synchronize := true, acknowledge := true }
  | _ => { SegmentFlags.none with acknowledge := true }

/-- `_ShouldSendSegment()`; `socket->receive.buffer_size` is the limit of the receive queue. -/
def shouldSendSegment (e : TCPEndpoint α β) (s : Sending β) (segment : Segment)
    (length segmentMaxSize : ℕ) : Bool :=
  let window := (segment.scaledWindow e.receiveWindowShift -
    (s.receiveMaxAdvertised - e.receiveNext)).toNat
  -- the silly window syndrome is avoided
  (length > 0 && (length = segmentMaxSize || e.noDelay ||
      s.sendNext.advance length = s.sendQueue.lastSequence ||
      (s.sendMaxWindow > 0 && length ≥ s.sendMaxWindow / 2))) ||
    -- a window update for the peer
    (segment.advertisedWindow ≠ 0 && (window ≥ e.receiveMaxSegmentSize * 2 ||
      window ≥ e.receiveQueue.maxBytes / 2)) ||
    segment.flags.synchronize || segment.flags.finish || segment.flags.reset ||
    s.sendUrgentOffset.gt s.sendNext

/-- The flags of a segment that ends with the last byte of the send queue. -/
def markLast (e : TCPEndpoint α β) (s : Sending β) (segment : Segment)
    (length segmentLength : ℕ) : Segment :=
  if s.sendNext.advance segmentLength = s.sendQueue.lastSequence then
    { segment with flags := { segment.flags with
      finish := segment.flags.finish || e.state.needsFinish
      push := segment.flags.push || length > 0 } }
  else segment

/-- The members that are set before the segment is handed on; `size` counts the flags that take a
sequence number. -/
def advanceSend (e : TCPEndpoint α β) (s : Sending β) (segment : Segment) (size : ℕ) : Sending β :=
  let size := size + (if segment.flags.synchronize then 1 else 0) +
    (if segment.flags.finish then 1 else 0)
  let sendNext := s.sendNext.advance size
  { s with
    sendNext            := sendNext
    sendMax             := if s.sendMax.lt sendNext then sendNext else s.sendMax
    receiveMaxAdvertised := e.receiveNext + segment.scaledWindow e.receiveWindowShift }

/-- The loop of `_SendQueued()`, and whether it succeeds. When `Get()` panics, nothing is sent. -/
def sendSegments (e : TCPEndpoint α β) (force : Bool) :
    List Outcome → Segment → ℕ → Sending β → Sending β × Bool
  | outcomes, segment, length, s =>
    let segmentMaxSize := (s.sendMaxSegmentSize + 2 ^ 32 - segment.optionsLength) % 2 ^ 32
    let segmentLength := min length segmentMaxSize
    let segment := e.markLast s segment length segmentLength
    if !force && !e.shouldSendSegment s segment segmentLength segmentMaxSize then
      let startPersist := s.sendQueue.contiguousBytes ≠ 0 && !s.persistTimer && !s.retransmitTimer
      ({ s with persistTimer := s.persistTimer || startPersist, outcomes := outcomes }, true)
    else match outcomes with
      | [] => ({ s with outcomes := [] }, false)
      | .noMemory :: outcomes => ({ s with outcomes := outcomes }, false)
      | outcome :: outcomes =>
        match s.sendQueue.getFrom s.sendNext segmentLength with
        | .error _ => ({ s with outcomes := outcomes }, false)
        | .ok data =>
          if outcome = .noHeader then ({ s with outcomes := outcomes }, false)
          else
            let segment := { segment with sequence := s.sendNext }
            let t := e.advanceSend s segment data.length
            if outcome = .unreachable then
              -- the send status is restored
              ({ t with sendNext := s.sendNext, sendMax := s.sendMax, outcomes := outcomes }, false)
            else
              let t := { t with
                sent := s.sent ++ [(segment, data)]
                lastAcknowledgeSent :=
                  if segment.flags.acknowledge then segment.acknowledge else s.lastAcknowledgeSent }
              if length - segmentLength > 0 then
                sendSegments e force outcomes segment.afterSend (length - segmentLength) t
              else ({ t with outcomes := outcomes }, true)

/-- The header of the segments `_SendQueued()` sends. -/
def segmentHeader (e : TCPEndpoint α β) : Segment :=
  let segment := Segment.init (currentFlags e.state)
  let segment :=
    if !e.noOptions && e.flags.optionTimestamp then
      { segment with
        hasTimestamps := true, timestampReply := e.receivedTimestamp, timestampValue := e.now }
    else segment
  let segment :=
    if !e.noOptions && segment.flags.synchronize && e.sendNext = e.initialSendSequence then
      { segment with
        maxSegmentSize := BitVec.ofNat 16 e.receiveMaxSegmentSize
        hasWindowScale := e.flags.optionWindowScale
        windowShift := if e.flags.optionWindowScale then BitVec.ofNat 8 e.receiveWindowShift else 0 }
    else segment
  let availableBytes := e.receiveQueue.free
  { segment with
    acknowledge := e.receiveNext
    advertisedWindow :=
      if e.flags.optionWindowScale then BitVec.ofNat 16 (availableBytes >>> e.receiveWindowShift)
      else BitVec.ofNat 16 (min 65535 availableBytes)
    flags := { segment.flags with urgent := e.sendUrgentOffset.gt e.sendNext }
    urgentOffset :=
      if e.sendUrgentOffset.gt e.sendNext then (e.sendUrgentOffset - e.sendNext).setWidth 16 else 0 }

/-- The endpoint with what concerns sending replaced -/
def setSending (e : TCPEndpoint α β) (s : Sending β) : TCPEndpoint α β :=
  { e with toSending := s }

/-- `_SendQueued(force, sendWindow)`, and whether it succeeds -/
def sendQueuedWithin (e : TCPEndpoint α β) (force : Bool) (sendWindow : ℕ) :
    TCPEndpoint α β × Bool :=
  if !e.hasRoute || e.state = .listen then (e, false)
  else
    let s := e.toSending.updateUrgentOffset
    let r := e.sendSegments force s.outcomes e.segmentHeader (s.sendLength force sendWindow) s
    let setTimer := r.2 && s.sendNext = s.sendUnacknowledged && r.1.sendNext.gt s.sendNext
    (e.setSending { r.1 with retransmitTimer := r.1.retransmitTimer || setTimer }, r.2)

def sendQueued (e : TCPEndpoint α β) (force : Bool) : TCPEndpoint α β × Bool :=
  e.sendQueuedWithin force e.sendWindow

def sendAcknowledge (e : TCPEndpoint α β) (force : Bool) : TCPEndpoint α β :=
  (e.sendQueuedWithin force 0).1

end TCPEndpoint

end Haiku.TCP
