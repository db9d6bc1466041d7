import Haiku.Lib.Spans
import Haiku.Lock.ReadWrite

/-!
# IPv4 fragments

`FragmentPacket` and `reassemble_fragments()` of
`src/add-ons/kernel/network/protocols/ipv4/ipv4.cpp`. Allocations succeed, so that merging two
buffers does; the table of packets finds a packet by its key.

Where the kernel panics, a function fails (`none`).
-/

namespace Haiku.IPv4

open Lib Lock

inductive Status
  | ok
  | error
  | badData
  deriving DecidableEq

/-- `IP_MAXPACKET` -/
def maxPacket : ℤ := 65535

/-- `IP_MORE_FRAGMENTS` -/
def moreFragments : ℕ := 0x2000

/-- `IP_FRAGMENT_OFFSET_MASK` -/
def fragmentOffsetMask : ℕ := 0x1fff

/-- `ipv4_packet_key` -/
structure PacketKey where
  source : ℕ
  destination : ℕ
  id : ℕ
  protocol : ℕ
  deriving DecidableEq

/-- The parts of `ipv4_header` that reassembling uses, in host order. -/
structure Header where
  key : PacketKey
  /-- `HeaderLength()` -/
  headerLength : ℕ
  /-- `TotalLength()` -/
  totalLength : ℕ
  /-- `FragmentOffset()` -/
  fragmentOffset : ℕ

/-! ## Buffers -/

/-- The parts of `net_buffer` that reassembling uses. -/
structure NetBuffer where
  address : ℕ
  data : List UInt8
  /-- `fragment.start` -/
  start : ℕ
  /-- `fragment.end` -/
  stop : ℕ

namespace NetBuffer

def size (buffer : NetBuffer) : ℕ := buffer.data.length

/-- `remove_header()`, whose status nobody looks at -/
def removeHeader (buffer : NetBuffer) (bytes : ℕ) : NetBuffer :=
  if bytes > buffer.size then buffer
  else { buffer with data := buffer.data.drop bytes }

def trimData (buffer : NetBuffer) (newSize : ℕ) : NetBuffer :=
  if newSize > buffer.size then buffer
  else { buffer with data := buffer.data.take newSize }

/-- `remove_trailer()`; sizes have 32 bits -/
def removeTrailer (buffer : NetBuffer) (bytes : ℤ) : NetBuffer :=
  buffer.trimData ((buffer.size - bytes) % 2 ^ 32).toNat

def merge (buffer other : NetBuffer) (after : Bool) : NetBuffer :=
  { buffer with data := if after then buffer.data ++ other.data else other.data ++ buffer.data }

def setFragment (buffer : NetBuffer) (start stop : ℕ) : NetBuffer :=
  { buffer with start, stop }

end NetBuffer

/-! ## Packets -/

structure FragmentPacket where
  receivedLastFragment : Bool
  bytesLeft : ℤ
  fragments : List NetBuffer

namespace FragmentPacket

def init : FragmentPacket where
  receivedLastFragment := false
  bytesLeft := maxPacket
  fragments := []

def isComplete (packet : FragmentPacket) : Bool :=
  packet.receivedLastFragment && packet.bytesLeft = 0

/-- The search for the position, which starts at the end. The fragments in front of it come in
reverse order. -/
def findPosition (start : ℕ) : List NetBuffer → List NetBuffer → List NetBuffer × List NetBuffer
  | [], after => ([], after)
  | previous :: before, after =>
    -- the new fragment can be inserted after this one
    if previous.start ≤ start then (previous :: before, after)
    else findPosition start before (previous :: after)

/-- What becomes of the hole with the bytes from `start` to `stop`. -/
def cutHole (packet : FragmentPacket) (start stop : ℕ) (lastFragment : Bool) : FragmentPacket :=
  -- cut down existing hole
  let packet := { packet with bytesLeft := int32 (packet.bytesLeft - (stop - start)) }
  if lastFragment && !packet.receivedLastFragment then
    { packet with
      receivedLastFragment := true
      bytesLeft            := int32 (packet.bytesLeft - (maxPacket - stop)) }
  else packet

/-- Truncates a fragment whose first bytes are there already. -/
def truncateStart (previous : Option NetBuffer) (buffer : NetBuffer) (start : ℕ) : NetBuffer × ℕ :=
  match previous with
  | some previous =>
    if previous.stop > start then (buffer.removeHeader (previous.stop - start), previous.stop)
    else (buffer, start)
  | none => (buffer, start)

/-- Truncates a fragment whose last bytes are there already. -/
def truncateStop (next : Option NetBuffer) (buffer : NetBuffer) (stop : ℕ) : NetBuffer × ℕ :=
  match next with
  | some next =>
    if next.start < stop then (buffer.removeTrailer ((next.start : ℤ) - stop), next.start)
    else (buffer, stop)
  | none => (buffer, stop)

/-- Puts a fragment between the fragments `before`, which come in reverse order, and `after`, and
merges it with one of them if it can. -/
def insertFragment (before after : List NetBuffer) (buffer : NetBuffer) (start stop : ℕ) :
    List NetBuffer :=
  match before.head?.filter (·.stop = start), after.head?.filter (·.start = stop) with
  | some previous, _ =>
    before.tail.reverse ++ (buffer.setFragment previous.start stop).merge previous false :: after
  | none, some next =>
    before.reverse ++ (buffer.setFragment start next.stop).merge next true :: after.tail
  | none, none => before.reverse ++ buffer.setFragment start stop :: after

def addFragment (packet : FragmentPacket) (start stop : ℕ) (buffer : NetBuffer)
    (lastFragment : Bool) : FragmentPacket × Status :=
  if start ≥ stop then (packet, .badData)
  else
    let (before, after) := findPosition start packet.fragments.reverse []
    -- see if we already have the fragment's data
    if before.head?.any fun previous => previous.start ≤ start ∧ previous.stop ≥ stop then
      (packet, .ok)
    else
      let (buffer, start) := truncateStart before.head? buffer start
      let (buffer, stop) := truncateStop after.head? buffer stop
      let fragments := insertFragment before after buffer start stop
      ({ packet.cutHole start stop lastFragment with fragments }, .ok)

/-- The loop of `Reassemble()`. -/
def mergeFragments (target : ℕ) : Option NetBuffer → List NetBuffer → Option NetBuffer
  | buffer, [] => buffer
  | none, fragment :: fragments => mergeFragments target (some fragment) fragments
  | some buffer, fragment :: fragments =>
    if target = fragment.address then mergeFragments target (some (fragment.merge buffer false)) fragments
    else mergeFragments target (some (buffer.merge fragment true)) fragments

/-- `Reassemble()` to the buffer at the address `target` -/
def reassemble (packet : FragmentPacket) (target : ℕ) : Option (Except Status NetBuffer) :=
  if packet.isComplete then
    match mergeFragments target none packet.fragments with
    | some buffer => if buffer.address = target then some (.ok buffer) else none
    | none => none
  else some (.error .error)

end FragmentPacket

/-! ## All packets -/

/-- What `reassemble_fragments()` returns: an error, or `B_OK` and the buffer or `NULL`. -/
inductive Result
  | error (status : Status)
  | incomplete
  | complete (buffer : NetBuffer)

/-- `sFragmentHash` -/
abbrev FragmentHash := PacketKey → Option FragmentPacket

/-- `(fragmentOffset & IP_FRAGMENT_OFFSET_MASK) << 3` in a `uint16` -/
def Header.start (header : Header) : ℕ :=
  (header.fragmentOffset &&& fragmentOffsetMask) * 8 % 2 ^ 16

/-- The end of the fragment, in a `uint16` -/
def Header.stop (header : Header) : ℕ :=
  (((header.start + header.totalLength : ℤ) - header.headerLength) % 2 ^ 16).toNat

def Header.isLast (header : Header) : Bool := header.fragmentOffset &&& moreFragments = 0

def reassembleFragments (hash : FragmentHash) (header : Header) (buffer : NetBuffer) :
    Option (FragmentHash × Result) :=
  let packet := (hash header.key).getD .init
  -- remove header unless this is the first fragment
  let buffer := if header.start ≠ 0 then buffer.removeHeader header.headerLength else buffer
  let (packet, status) := packet.addFragment header.start header.stop buffer header.isLast
  let hash := Function.update hash header.key (some packet)
  if status ≠ .ok then some (hash, .error status)
  else if packet.isComplete then
    -- we won't need this packet anymore
    (packet.reassemble buffer.address).map fun result =>
      (Function.update hash header.key none,
        match result with
        | .ok buffer => .complete buffer
        | .error status => .error status)
  else some (hash, .incomplete)

def staleTimer (hash : FragmentHash) (key : PacketKey) : FragmentHash :=
  Function.update hash key none

end Haiku.IPv4
