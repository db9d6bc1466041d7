import Haiku.TCP.Endpoint

/-!
# A TCP endpoint, and how it receives

`SegmentReceived()` with the functions it calls. A received buffer is its bytes; whether the caller
frees the buffer, resets the connection or the endpoint acknowledges the segment is the action.
-/

namespace Haiku.TCP

def inWindow (sequence receiveNext : Sequence) (receiveWindow : ℕ) : Bool :=
  sequence.ge receiveNext && sequence.lt (receiveNext.advance receiveWindow)

def segmentInSequence (sequence : Sequence) (size : ℕ) (receiveNext : Sequence)
    (receiveWindow : ℕ) : Bool :=
  if size = 0 then
    if receiveWindow = 0 then sequence = receiveNext
    else inWindow sequence receiveNext receiveWindow
  else if receiveWindow = 0 then false
  else inWindow sequence receiveNext receiveWindow ||
    inWindow (sequence.advance size - 1) receiveNext receiveWindow

/-- `KEEP`, `DROP`, `RESET`, `ACKNOWLEDGE`, `IMMEDIATE_ACKNOWLEDGE`; what is not dropped is kept. -/
structure SegmentAction where
  drop : Bool
  reset : Bool
  acknowledge : Bool
  immediateAcknowledge : Bool

namespace SegmentAction

def keep : SegmentAction := ⟨false, false, false, false⟩

def dropped : SegmentAction := ⟨true, false, false, false⟩

end SegmentAction

variable {α β : Type}

namespace TCPEndpoint

/-! ## Changes of the state -/

/-- `_EnterTimeWait()`: there is no time wait for local connections. -/
def enterTimeWait (e : TCPEndpoint α β) : TCPEndpoint α β :=
  let e := e.setSending e.cancelConnectionTimers
  if e.state = .timeWait ∧ e.flags.isLocal then
    { e with flags := { e.flags with deleteOnClose := true } }
  else { e with timeWaitTimer := true }

def close (e : TCPEndpoint α β) : TCPEndpoint α β :=
  let e := e.setSending e.cancelConnectionTimers
  { e with state := .closed, flags := { e.flags with deleteOnClose := true } }

def handleReset (e : TCPEndpoint α β) (error : SocketError) : TCPEndpoint α β :=
  { e.close with socketError := some error }

def shouldReceive (e : TCPEndpoint α β) : Bool :=
  !e.flags.noReceive &&
    (e.state = .established || e.state = .finishSent || e.state = .finishAcknowledged)

def duplicateAcknowledge (e : TCPEndpoint α β) (segment : Segment) : TCPEndpoint α β :=
  let e := e.setSending (e.countDuplicate segment.acknowledge)
  if e.duplicateAcknowledgeCount < 3 then e else (e.sendQueued false).1

def acknowledged (e : TCPEndpoint α β) (segment : Segment) : TCPEndpoint α β :=
  let s := e.removeAcknowledged segment.acknowledge
  let e := e.setSending (s.openCongestionWindow (s.sendQueue.numBytes < e.sendQueue.numBytes))
  -- if there is data left to be sent, it is sent now
  if e.sendQueue.numBytes > 0 then (e.sendQueued false).1 else e

def updateTimestamps (e : TCPEndpoint α β) (segment : Segment) (segmentLength : ℕ) :
    TCPEndpoint α β :=
  if e.flags.optionTimestamp ∧ e.lastAcknowledgeSent.ge segment.sequence ∧
      e.lastAcknowledgeSent.lt (segment.sequence.advance segmentLength) then
    { e with receivedTimestamp := segment.timestampValue }
  else e

/-- `_AddData()`: the segment comes back with its finish flag set or reset. -/
def addData (e : TCPEndpoint α β) (segment : Segment) (data : List α) :
    TCPEndpoint α β × Segment :=
  let e :=
    if segment.flags.finish then
      { e with
        finishReceived := true, finishReceivedAt := segment.sequence.advance data.length }
    else e
  let receiveQueue := e.receiveQueue.add data segment.sequence
  let receiveNext := receiveQueue.nextSequence
  let segment :=
    if e.finishReceived then
      { segment with flags := { segment.flags with
        finish := !receiveNext.lt e.finishReceivedAt } }
    else segment
  ({ e with
      receiveQueue := if segment.flags.push then receiveQueue.setPushPointer else receiveQueue
      receiveNext  := receiveNext }, segment)

/-- `_PrepareReceivePath()`; the number of the segment then counts the SYN. -/
def prepareReceivePath (e : TCPEndpoint α β) (segment : Segment) : TCPEndpoint α β × Segment :=
  let start := segment.sequence + 1
  let e := { e with
    initialReceiveSequence := segment.sequence
    finishReceived         := false
    receiveNext            := start
    receiveQueue           := { e.receiveQueue with
      toBufferQueue := e.receiveQueue.setInitialSequence start } }
  let e :=
    if e.noOptions then e
    else
      { e with
        sendMaxSegmentSize :=
          if segment.maxSegmentSize ≠ 0 then segment.maxSegmentSize.toNat
          else e.sendMaxSegmentSize
        sendWindowShift    := if segment.hasWindowScale then segment.windowShift
          else e.sendWindowShift
        receiveWindowShift := if segment.hasWindowScale then e.receiveWindowShift else 0
        receivedTimestamp  := if segment.hasTimestamps then segment.timestampValue
          else e.receivedTimestamp
        flags              := { e.flags with
          optionWindowScale := segment.hasWindowScale
          optionTimestamp   := segment.hasTimestamps } }
  ({ e with
      congestionWindow   := 2 * e.sendMaxSegmentSize
      slowStartThreshold := (segment.scaledWindow e.sendWindowShift.toNat).toNat },
    { segment with sequence := start })

/-! ## `_Receive()` -/

/-- Header prediction: the segment is the one expected, and does not change the window. When the
function goes on, only the timestamps may have been updated. -/
def predictHeader (e : TCPEndpoint α β) (segment : Segment) (data : List α) :
    TCPEndpoint α β × Option SegmentAction :=
  let advertisedWindow := (segment.scaledWindow e.sendWindowShift.toNat).toNat
  if e.state = .established ∧ segment.acknowledgeOnly ∧ e.receiveNext = segment.sequence ∧
      advertisedWindow > 0 ∧ advertisedWindow = e.sendWindow ∧ e.sendNext = e.sendMax then
    let e := e.updateTimestamps segment data.length
    if data.length = 0 then
      if e.sendUnacknowledged.lt segment.acknowledge ∧ e.sendMax.ge segment.acknowledge then
        (e.acknowledged segment, some .dropped)
      else (e, none)
    else if segment.acknowledge = e.sendUnacknowledged ∧ e.receiveQueue.isContiguous ∧
        e.receiveQueue.free ≥ data.length ∧ !e.flags.noReceive then
      let r := e.addData segment data
      (r.1, some { SegmentAction.keep with
        acknowledge          := !r.2.flags.push
        immediateAcknowledge := r.2.flags.push })
    else (e, none)
  else (e, none)

def widenWindow (e : TCPEndpoint α β) : TCPEndpoint α β :=
  { e with receiveWindow := max e.receiveQueue.free e.receiveWindow }

/-- Duplicate data is removed from the start of the segment. -/
def trimStart (e : TCPEndpoint α β) (segment : Segment) (data : List α) : Segment × List α :=
  let drop := (e.receiveNext - segment.sequence).toInt
  if drop > 0 then
    if drop > data.length ∨ drop = data.length ∧ !segment.flags.finish then
      ({ segment with
          flags    := { segment.flags with finish := false }
          sequence := segment.sequence.advance data.length }, [])
    else
      ({ segment with sequence := segment.sequence.advance drop.toNat }, data.drop drop.toNat)
  else (segment, data)

/-- Data exceeding the window is removed from the end of the segment. There is no result if the
segment is dropped; the Boolean asks for an immediate acknowledge. -/
def trimEnd (e : TCPEndpoint α β) (segment : Segment) (data : List α) :
    Option (Segment × List α × Bool) :=
  let drop := (segment.sequence.advance data.length -
    e.receiveNext.advance e.receiveWindow).toInt
  if drop > 0 then
    if drop ≥ data.length ∧ (e.receiveWindow ≠ 0 ∨ segment.sequence ≠ e.receiveNext) then none
    else
      -- the finish flag is removed as part of the data
      let bytes := if segment.flags.finish then drop.toNat - 1 else drop.toNat
      some ({ segment with flags := { segment.flags with finish := false, push := false } },
        data.take (data.length - bytes), decide (drop ≥ data.length))
  else some (segment, data, false)

/-- The segment resets the connection if its number is one the endpoint may expect. -/
def receiveReset (e : TCPEndpoint α β) (segment : Segment) : TCPEndpoint α β :=
  if e.lastAcknowledgeSent.le segment.sequence ∧
      segment.sequence.lt (e.lastAcknowledgeSent.advance e.receiveWindow) ∧
      e.state ≠ .timeWait then
    e.handleReset (match e.state with
      | .synchronizeReceived => .connectionRefused
      | .closing | .waitForFinishAcknowledge => .notConnected
      | _ => .connectionReset)
  else e

def isFaulty (e : TCPEndpoint α β) (segment : Segment) : Bool :=
  segment.flags.synchronize ||
    (e.state = .synchronizeReceived &&
      (e.initialReceiveSequence.gt segment.sequence ||
        (segment.flags.acknowledge && (e.sendUnacknowledged.gt segment.acknowledge ||
          e.sendMax.lt segment.acknowledge))))

/-- The acknowledge of a segment is processed. There is an action if that ends the function. -/
def receiveAcknowledge (e : TCPEndpoint α β) (segment : Segment) (size : ℕ)
    (advertisedWindow : ℕ) : TCPEndpoint α β × Option SegmentAction :=
  let e := if e.state = .synchronizeReceived then { e with state := .established } else e
  if e.sendMax.lt segment.acknowledge then
    (e, some { SegmentAction.dropped with immediateAcknowledge := true })
  else if segment.acknowledge.lt e.sendUnacknowledged then
    if size = 0 ∧ advertisedWindow = e.sendWindow ∧ !segment.flags.finish then
      (e.duplicateAcknowledge segment, some .dropped)
    else (e, some .dropped)
  else
    let e := e.setSending e.resetDuplicates
    if segment.acknowledge.gt e.sendQueue.lastSequence ∧ e.state.afterEstablished then
      match e.state with
      | .finishSent => ({ e with state := .finishAcknowledged }.acknowledged segment, none)
      | .closing => ({ e with state := .timeWait }.enterTimeWait, some .dropped)
      | .waitForFinishAcknowledge => (e.close, none)
      | _ => (e.acknowledged segment, none)
    else if e.state ≠ .closed then (e.acknowledged segment, none)
    else (e, none)

/-- The state after the peer has finished the connection -/
def finishedByPeer (e : TCPEndpoint α β) : TCPEndpoint α β :=
  match e.state with
  | .established | .synchronizeReceived => { e with state := .finishReceived }
  | .finishSent => { e with state := .closing }
  | .finishAcknowledged => { e with state := .timeWait }.enterTimeWait
  | .timeWait => { e with timeWaitTimer := true }
  | _ => e

/-- The end of `_Receive()`: the data and the finish flag. A buffer that `Add()` has freed still
counts as data to acknowledge. -/
def receiveData (e : TCPEndpoint α β) (segment : Segment) (data : List α) (segmentLength : ℕ)
    (action : SegmentAction) : TCPEndpoint α β × SegmentAction :=
  let size := data.length
  let takes := (size > 0 || segment.flags.finish) && e.shouldReceive
  let r :=
    if takes then e.addData segment data
    else if e.flags.noReceive then
      ({ e with receiveNext := e.receiveNext.advance size }, segment)
    else (e, segment)
  let e := r.1
  let segment := r.2
  let action := { action with drop := !takes, acknowledge := size > 0 }
  if segment.flags.finish then
    if e.state ≠ .closed ∧ e.state ≠ .listen ∧ e.state ≠ .synchronizeSent then
      let e := { e with
        receiveNext  := e.receiveNext + 1
        receiveQueue := e.receiveQueue.setPushPointer }
      (e.finishedByPeer.updateTimestamps segment (segmentLength + 1),
        { action with immediateAcknowledge := true })
    else (e.updateTimestamps segment (segmentLength + 1), action)
  else (e.updateTimestamps segment segmentLength, action)

/-- The part of `_Receive()` behind the trimming of the segment -/
def receiveTrimmed (e : TCPEndpoint α β) (segment : Segment) (data : List α) (segmentLength : ℕ)
    (immediate : Bool) : TCPEndpoint α β × SegmentAction :=
  let advertisedWindow := (segment.scaledWindow e.sendWindowShift.toNat).toNat
  let e := e.setSending (e.updateWindow advertisedWindow)
  let action := { SegmentAction.keep with immediateAcknowledge := immediate }
  if segment.flags.acknowledge then
    match e.receiveAcknowledge segment data.length advertisedWindow with
    | (e, some action) => (e, action)
    | (e, none) => e.receiveData segment data segmentLength action
  else e.receiveData segment data segmentLength action

/-- `_Receive()` from where the standard processing starts -/
def receiveStandard (e : TCPEndpoint α β) (segment : Segment) (data : List α) :
    TCPEndpoint α β × SegmentAction :=
  if e.state ≠ .closed ∧ e.state ≠ .timeWait ∧
      !segmentInSequence segment.sequence data.length e.receiveNext e.receiveWindow then
    (e, { SegmentAction.dropped with immediateAcknowledge := !segment.flags.reset })
  else if segment.flags.reset then (e.receiveReset segment, .dropped)
  else if e.isFaulty segment then (e, { SegmentAction.dropped with reset := true })
  else
    let e := e.widenWindow
    let start := e.trimStart segment data
    match e.trimEnd start.1 start.2 with
    | none => (e, { SegmentAction.dropped with immediateAcknowledge := true })
    | some (segment, trimmed, immediate) =>
      e.receiveTrimmed segment trimmed data.length immediate

def receive (e : TCPEndpoint α β) (segment : Segment) (data : List α) :
    TCPEndpoint α β × SegmentAction :=
  match e.predictHeader segment data with
  | (e, some action) => (e, action)
  | (e, none) => e.receiveStandard segment data

/-! ## The connection setup -/

/-- What is found out about the path to the peer: whether there is a route, whether it is a local
one, whether the connection is a new one, the size of the largest packet, and the number the system
time gives. -/
structure Path where
  hasRoute : Bool
  isLocal : Bool
  isNew : Bool
  mtu : ℕ
  initialSequence : Sequence

def windowShift (bufferSize : ℕ) : ℕ → ℕ → ℕ
  | 0, shift => shift
  | steps + 1, shift =>
    if 0xffff <<< shift < bufferSize then windowShift bufferSize steps (shift + 1) else shift

/-- `_PrepareSendPath()`, and whether it succeeds -/
def prepareSendPath (e : TCPEndpoint α β) (path : Path) : TCPEndpoint α β × Bool :=
  if !e.hasRoute && !path.hasRoute then (e, false)
  else
    let e := { e with
      hasRoute := true
      flags    := { e.flags with isLocal := e.flags.isLocal || (!e.hasRoute && path.isLocal) } }
    if !path.isNew then (e, false)
    else
      ({ e with
          initialSendSequence   := path.initialSequence
          sendNext              := path.initialSequence
          sendUnacknowledged    := path.initialSequence
          sendMax               := path.initialSequence
          sendUrgentOffset      := path.initialSequence
          sendQueue             := { e.sendQueue with
            toBufferQueue := e.sendQueue.setInitialSequence (path.initialSequence + 1) }
          receiveMaxSegmentSize := path.mtu - 20
          receiveWindowShift    := windowShift e.receiveQueue.maxBytes 14 0 }, true)

/-- The segment acknowledges something else than the SYN the endpoint has sent. -/
def badAcknowledge (e : TCPEndpoint α β) (segment : Segment) : Bool :=
  segment.flags.acknowledge &&
    (e.initialSendSequence.ge segment.acknowledge || e.sendMax.lt segment.acknowledge)

def synchronizes (e : TCPEndpoint α β) (segment : Segment) : Bool :=
  !e.badAcknowledge segment && !segment.flags.reset && segment.flags.synchronize

/-- The endpoint once it has accepted the SYN of its peer, and the segment without it; without an
acknowledge this is a simultaneous open. -/
def synchronize (e : TCPEndpoint α β) (segment : Segment) : TCPEndpoint α β × Segment :=
  let e := e.setSending { e.toSending with sendUnacknowledged := segment.acknowledge }
  let r := e.prepareReceivePath segment
  ({ r.1 with
      state := if segment.flags.acknowledge then .established else .synchronizeReceived },
    { r.2 with flags := { r.2.flags with synchronize := false } })

def synchronizeSentReceive (e : TCPEndpoint α β) (segment : Segment) (data : List α) :
    TCPEndpoint α β × SegmentAction :=
  if e.badAcknowledge segment then (e, { SegmentAction.dropped with reset := true })
  else if segment.flags.reset then (e.handleReset .connectionRefused, .dropped)
  else if !segment.flags.synchronize then (e, .dropped)
  else
    let r := e.synchronize segment
    let r := r.1.receive r.2 data
    (r.1, { r.2 with immediateAcknowledge := true })

/-- `_ListenReceive()` as far as the listening endpoint is concerned -/
def listenReceive (segment : Segment) : SegmentAction :=
  if segment.flags.reset then .dropped
  else if segment.flags.acknowledge then { SegmentAction.dropped with reset := true }
  else .dropped

/-- `_Spawn()` of a new endpoint; the socket may not get the address of its parent. -/
def spawn (e : TCPEndpoint α β) (noDelay noOptions isBound : Bool) (path : Path)
    (segment : Segment) (data : List α) : TCPEndpoint α β × SegmentAction :=
  let e := { e with state := .synchronizeReceived }
  if !isBound then (e, .dropped)
  else
    let r := e.prepareSendPath path
    if !r.2 then (r.1, .dropped)
    else
      let e := { r.1 with noDelay := noDelay, noOptions := noOptions }
      let r := e.prepareReceivePath segment
      let segment := { r.2 with flags := { r.2.flags with synchronize := false } }
      let sent := r.1.sendQueued false
      if !sent.2 then (sent.1, .dropped)
      else sent.1.receive segment data

/-- `DelayedAcknowledge()`: every other segment is acknowledged at once. -/
def delayedAcknowledge (e : TCPEndpoint α β) : TCPEndpoint α β :=
  if e.delayedAcknowledgeTimer then
    (e.setSending { e.toSending with delayedAcknowledgeTimer := false }).sendAcknowledge true
  else e.setSending { e.toSending with delayedAcknowledgeTimer := true }

/-- The part of `SegmentReceived()` that depends on the state -/
def dispatch (e : TCPEndpoint α β) (segment : Segment) (data : List α) :
    TCPEndpoint α β × SegmentAction :=
  match e.state with
  | .listen => (e, listenReceive segment)
  | .synchronizeSent => e.synchronizeSentReceive segment data
  | _ => e.receive segment data

def segmentReceived (e : TCPEndpoint α β) (segment : Segment) (data : List α) :
    TCPEndpoint α β × SegmentAction :=
  let r := e.dispatch segment data
  if r.2.immediateAcknowledge then (r.1.sendAcknowledge true, r.2)
  else if r.2.acknowledge then (r.1.delayedAcknowledge, r.2)
  else r

end TCPEndpoint

end Haiku.TCP
