import Haiku.TCP.Receive

/-!
# The calls to a TCP endpoint

The socket functions and the timer hooks, each from where it gets the lock to where it gives it
back. A call that waits gives the lock back, and gets it again in another step.
-/

namespace Haiku.TCP

variable {α β : Type}

namespace TCPEndpoint

/-- `_Disconnect()`, and whether it succeeds -/
def disconnect (e : TCPEndpoint α β) : TCPEndpoint α β × Bool :=
  let send (state : TcpState) : TCPEndpoint α β × Bool :=
    let r := { e with state := state }.sendQueued false
    (if r.2 then r.1 else { r.1 with state := e.state }, r.2)
  match e.state with
  | .synchronizeReceived | .established => send .finishSent
  | .finishReceived => send .waitForFinishAcknowledge
  | _ => (e, true)

/-- `Connect()` up to where it waits -/
def connect (e : TCPEndpoint α β) (path : Path) : TCPEndpoint α β :=
  if e.state ≠ .closed ∧ e.state ≠ .listen then e
  else
    let r := e.prepareSendPath path
    if !r.2 then r.1
    else
      let r := { r.1 with state := .synchronizeSent }.sendQueued false
      if r.2 then r.1 else r.1.close

def listen (e : TCPEndpoint α β) : TCPEndpoint α β :=
  if e.state ≠ .closed then e else { e with state := .listen }

/-- `Close()`; lingering only waits. -/
def closeSocket (e : TCPEndpoint α β) : TCPEndpoint α β :=
  if e.state = .synchronizeSent ∨ e.state = .listen then { e with state := .closed }
  else e.disconnect.1

def free (e : TCPEndpoint α β) : TCPEndpoint α β :=
  match e.state with
  | .closed | .listen | .synchronizeSent => e
  | _ =>
    let e := e.enterTimeWait
    { e with flags := { e.flags with closed := true } }

/-- `Shutdown()` for reading, for writing or both -/
def shutdown (e : TCPEndpoint α β) (read write : Bool) : TCPEndpoint α β :=
  let e := { e with flags := { e.flags with noReceive := e.flags.noReceive || read } }
  if write then e.disconnect.1 else e

/-- The end of `SendData()`, once all data is in the queue -/
def sendNow (e : TCPEndpoint α β) (outOfBand endOfFile : Bool) : TCPEndpoint α β :=
  let e := { e with
    sendUrgentOffset := if outOfBand then e.sendQueue.lastSequence else e.sendUrgentOffset }
  let e := if endOfFile then e.disconnect.1 else e
  if e.state = .established ∨ e.state = .finishReceived then (e.sendQueued outOfBand).1 else e

/-- `SendData()` up to where it waits for space, with the data it has left then. When it goes on
it does what it does at first. -/
def sendData (e : TCPEndpoint α β) (data : List β) (outOfBand endOfFile : Bool)
    (lowWaterMark : ℕ) : TCPEndpoint α β × List β :=
  if !e.state.isWritable then (e, data)
  else if data ≠ [] ∧ e.sendQueue.free < lowWaterMark then (e, data)
  else
    let size := e.sendQueue.free
    let e := { e with
      sendQueue := e.sendQueue.add (data.take size) e.sendQueue.lastSequence }
    if size < data.length then (e, data.drop size)
    else (e.sendNow outOfBand endOfFile, [])

/-- Where a call of `ReadData()` gets the lock: at its start, when it was waiting for the
connection, or for data. -/
inductive ReadPoint
  | start
  | connecting
  | waiting

structure ReadFlags where
  /-- `MSG_PEEK` -/
  peek : Bool
  /-- `MSG_WAITALL` -/
  waitAll : Bool
  /-- `MSG_DONTWAIT`, or a timeout of zero once there is a connection -/
  dontWait : Bool
  /-- waiting has timed out or was interrupted -/
  interrupted : Bool

inductive ReadResult (α : Type)
  | error
  | wouldBlock
  | waits (point : ReadPoint)
  /-- `B_OK` without a buffer -/
  | endOfStream
  | data (bytes : List α)

/-- The end of `ReadData()` -/
def takeData (e : TCPEndpoint α β) (numBytes : ℕ) (flags : ReadFlags) :
    TCPEndpoint α β × ReadResult α :=
  let r := e.receiveQueue.get numBytes !flags.peek
  let e := { e with receiveQueue := { e.receiveQueue with toBufferQueue := r.1 } }
  -- an acknowledge is sent if that opens the window
  (if flags.peek then e else e.sendAcknowledge false, .data r.2)

/-- The loop of `ReadData()` up to where it waits -/
def awaitData (e : TCPEndpoint α β) (numBytes : ℕ) (flags : ReadFlags) (lowWaterMark : ℕ) :
    TCPEndpoint α β × ReadResult α :=
  let dataNeeded := if flags.waitAll then numBytes else lowWaterMark
  let available := e.receiveQueue.contiguousBytes
  let pushed := e.receiveQueue.pushedData
  if e.state = .closing ∨ e.state = .waitForFinishAcknowledge ∨ e.state = .timeWait then
    (e, .endOfStream)
  else if available > 0 ∧ (available ≥ dataNeeded ∨ pushed > 0 ∧ pushed ≥ available) then
    e.takeData numBytes flags
  else if available = 0 ∧ e.state = .finishReceived then (e, .endOfStream)
  else if flags.dontWait then (e, .wouldBlock)
  else if e.flags.noReceive then (e, .endOfStream)
  else if !flags.interrupted then (e, .waits .waiting)
  else if available > 0 then e.takeData numBytes flags
  else (e, .error)

/-- `ReadData()` from one of the points on where it gets the lock -/
def readData (e : TCPEndpoint α β) (point : ReadPoint) (numBytes : ℕ) (flags : ReadFlags)
    (lowWaterMark : ℕ) : TCPEndpoint α β × ReadResult α :=
  match point with
  | .start =>
    if e.state = .closed then (e, .error)
    else if e.state = .synchronizeSent ∨ e.state = .synchronizeReceived then
      if flags.dontWait then (e, .wouldBlock)
      else if e.socketError ≠ none then (e, .error)
      else (e, .waits .connecting)
    else e.awaitData numBytes flags lowWaterMark
  | .connecting =>
    if e.state.beforeEstablished then
      if e.socketError ≠ none ∨ flags.interrupted then (e, .error) else (e, .waits .connecting)
    else e.awaitData numBytes flags lowWaterMark
  | .waiting => e.awaitData numBytes flags lowWaterMark

/-- `_RetransmitTimer()` and `_Retransmit()` -/
def retransmit (e : TCPEndpoint α β) : TCPEndpoint α β :=
  let s := { e.toSending with retransmitTimer := false }.resetSlowStart
  ((e.setSending { s with sendNext := s.sendUnacknowledged }).sendQueued false).1

/-- `_PersistTimer()`; the timer may not have been canceled early enough. -/
def persist (e : TCPEndpoint α β) : TCPEndpoint α β :=
  let e := e.setSending { e.toSending with persistTimer := false }
  if e.state = .closed then e else (e.sendQueued true).1

/-- `_DelayedAcknowledgeTimer()` -/
def acknowledgeLate (e : TCPEndpoint α β) : TCPEndpoint α β :=
  let e := e.setSending { e.toSending with delayedAcknowledgeTimer := false }
  if e.state = .closed then e else e.sendAcknowledge true

/-- `_TimeWaitTimer()`: a socket that was closed is released. -/
def endTimeWait (e : TCPEndpoint α β) : TCPEndpoint α β :=
  let e := { e with timeWaitTimer := false }
  if e.flags.closed then e else { e with flags := { e.flags with deleteOnClose := true } }

def setSendBufferSize (e : TCPEndpoint α β) (length : ℕ) : TCPEndpoint α β :=
  { e with sendQueue := { e.sendQueue with maxBytes := length } }

def setReceiveBufferSize (e : TCPEndpoint α β) (length : ℕ) : TCPEndpoint α β :=
  { e with receiveQueue := { e.receiveQueue with maxBytes := length } }

end TCPEndpoint

/-! ## The endpoint as a transition system -/

inductive EndpointAction (α β : Type)
  | connect (path : TCPEndpoint.Path)
  | listen
  | spawn (noDelay noOptions isBound : Bool) (path : TCPEndpoint.Path) (segment : Segment)
      (data : List α)
  | segmentReceived (segment : Segment) (data : List α)
  | readData (point : TCPEndpoint.ReadPoint) (numBytes : ℕ) (flags : TCPEndpoint.ReadFlags)
      (lowWaterMark : ℕ)
  | sendData (data : List β) (outOfBand endOfFile : Bool) (lowWaterMark : ℕ)
  | shutdown (read write : Bool)
  | close
  | free
  | retransmitTimer
  | persistTimer
  | delayedAcknowledgeTimer
  | timeWaitTimer
  | setSendBufferSize (length : ℕ)
  | setReceiveBufferSize (length : ℕ)
  | setNoDelay (noDelay : Bool)

/-- A call with what the network stack and the clock answer to it -/
structure EndpointCall (α β : Type) where
  now : BitVec 32
  outcomes : List Outcome
  action : EndpointAction α β

namespace TCPEndpoint

def perform (e : TCPEndpoint α β) : EndpointAction α β → TCPEndpoint α β
  | .connect path => e.connect path
  | .listen => e.listen
  | .spawn noDelay noOptions isBound path segment data =>
    (e.spawn noDelay noOptions isBound path segment data).1
  | .segmentReceived segment data => (e.segmentReceived segment data).1
  | .readData point numBytes flags lowWaterMark =>
    (e.readData point numBytes flags lowWaterMark).1
  | .sendData data outOfBand endOfFile lowWaterMark =>
    (e.sendData data outOfBand endOfFile lowWaterMark).1
  | .shutdown read write => e.shutdown read write
  | .close => e.closeSocket
  | .free => e.free
  | .retransmitTimer => e.retransmit
  | .persistTimer => e.persist
  | .delayedAcknowledgeTimer => e.acknowledgeLate
  | .timeWaitTimer => e.endTimeWait
  | .setSendBufferSize length => e.setSendBufferSize length
  | .setReceiveBufferSize length => e.setReceiveBufferSize length
  | .setNoDelay noDelay => { e with noDelay := noDelay }

/-- A packet of the internet protocol has less than `2^16` bytes, and only an endpoint that was
never connected becomes the child of a listening one. -/
def enabled (e : TCPEndpoint α β) : EndpointAction α β → Bool
  | .spawn _ _ _ _ segment data =>
    e.state = .closed && !e.hasRoute && segment.flags.synchronize && !segment.flags.reset &&
      !segment.flags.acknowledge && data.length < 2 ^ 16
  | .segmentReceived _ data => data.length < 2 ^ 16
  | _ => true

def prepare (e : TCPEndpoint α β) (call : EndpointCall α β) : TCPEndpoint α β :=
  { e with now := call.now, outcomes := call.outcomes, sent := [] }

end TCPEndpoint

def stepEndpoint (e : TCPEndpoint α β) (call : EndpointCall α β) : Option (TCPEndpoint α β) :=
  if e.enabled call.action then some ((e.prepare call).perform call.action) else none

end Haiku.TCP
