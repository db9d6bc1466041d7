import Haiku.Lib.Ring

/-!
# Ring buffers

`src/system/kernel/util/ring_buffer.cpp` with 32 bits in a `size_t`. The memory behind the header is
a function on positions. An `int32` that overflows has no value.
-/

namespace Haiku.Ring

open Lib

variable {α : Type}

/-- The value of an `int32` expression that is not negative -/
def int32 (n : ℕ) : Option ℕ := if n < 2 ^ 31 then some n else none

/-- `ring_buffer`; `bytesIn` is the field `in`. -/
structure RingBuffer (α : Type) where
  first : ℕ
  bytesIn : ℕ
  size : ℕ
  buffer : ℕ → α

namespace RingBuffer

/-- `create_ring_buffer()`, with what the memory holds -/
def create (size : ℕ) (memory : ℕ → α) : Option (RingBuffer α) :=
  (int32 size).map fun size => ⟨0, 0, size, memory⟩

/-- `memcpy()` out of the buffer -/
def bytesAt (b : RingBuffer α) (position length : ℕ) : List α :=
  (List.range length).map fun i => b.buffer (position + i)

/-- The bytes from a position on, which end at `stop`: either a simple copy, or both ends. -/
def copyOut (b : RingBuffer α) (position length stop : ℕ) : List α :=
  if stop ≤ b.size then b.bytesAt position length
  else
    let upper := b.size - position
    b.bytesAt position upper ++ b.bytesAt 0 (length - upper)

/-- `read_from_buffer()`: the buffer afterwards, and the bytes read -/
def read (b : RingBuffer α) (length : ℕ) : Option (RingBuffer α × List α) :=
  let length := min length b.bytesIn
  if length = 0 then some (b, [])
  else
    (int32 (b.first + length)).map fun stop =>
      ({ b with first := stop % b.size, bytesIn := b.bytesIn - length },
        b.copyOut b.first length stop)

/-- `write_to_buffer()`: the buffer afterwards, and the number of bytes written -/
def write (b : RingBuffer α) (data : List α) : Option (RingBuffer α × ℕ) :=
  let data := data.take (b.size - b.bytesIn)
  if data.length = 0 then some (b, 0)
  else
    (int32 (b.first + b.bytesIn)).bind fun stop =>
      let position := stop % b.size
      (int32 (position + data.length)).map fun stop =>
        let upper := b.size - position
        let writes :=
          if stop ≤ b.size then [(position, data)]
          else [(position, data.take upper), (0, data.drop upper)]
        ({ b with buffer := applyWrites b.buffer writes, bytesIn := b.bytesIn + data.length },
          data.length)

/-- `ring_buffer_flush()` -/
def flush (b : RingBuffer α) (length : ℕ) : RingBuffer α :=
  let length := min length b.bytesIn
  { b with first := (b.first + length) % b.size, bytesIn := b.bytesIn - length }

/-- `ring_buffer_peek()`: the number of bytes read, and the bytes. The sum of two `size_t` wraps. -/
def peek (b : RingBuffer α) (offset length : BitVec 32) : ℕ × List α :=
  if offset.toNat ≥ b.bytesIn ∨ length = 0 then (0, [])
  else
    let length := if (offset + length).toNat > b.bytesIn then b.bytesIn - offset.toNat
      else length.toNat
    let offset := if offset.toNat + b.first ≥ b.size then offset.toNat + b.first - b.size
      else offset.toNat + b.first
    (length, b.copyOut offset length ((offset + length) % 2 ^ 32))

/-- `ring_buffer_get_vecs()`: the positions and the lengths of the vectors -/
def getVecs (b : RingBuffer α) : Option (List (ℕ × ℕ)) :=
  if b.bytesIn = 0 then some []
  else
    (int32 (b.first + b.bytesIn)).map fun stop =>
      if stop ≤ b.size then [(b.first, b.bytesIn)]
      else
        let upper := b.size - b.first
        [(b.first, upper), (0, b.bytesIn - upper)]

end RingBuffer

/-! ## Calls -/

inductive Call (α : Type) where
  | write (data : List α)
  | read (length : ℕ)
  | flush (length : ℕ)
  | peek (offset length : BitVec 32)
  | getVecs

/-- A call on the buffer: the buffer afterwards, and the number and the bytes it answers, which are
the ones described by the vectors. -/
def RingBuffer.exec (b : RingBuffer α) : Call α → Option (RingBuffer α × ℕ × List α)
  | .write data => (b.write data).map fun (b, length) => (b, length, [])
  | .read length => (b.read length).map fun (b, data) => (b, data.length, data)
  | .flush length => some (b.flush length, 0, [])
  | .peek offset length => some (b, b.peek offset length)
  | .getVecs => b.getVecs.map fun vecs =>
      let data := vecs.flatMap fun vec => b.bytesAt vec.1 vec.2
      (b, data.length, data)

def execQueue (capacity : ℕ) (queue : List α) : Call α → List α × ℕ × List α
  | .write data =>
    let data := data.take (capacity - queue.length)
    (queue ++ data, data.length, [])
  | .read length => (queue.drop length, (queue.take length).length, queue.take length)
  | .flush length => (queue.drop length, 0, [])
  | .peek offset length =>
    let data := (queue.drop offset.toNat).take length.toNat
    (queue, data.length, data)
  | .getVecs => (queue, queue.length, queue)

/-- The calls are answered as by a queue of the capacity. -/
def RingBuffer.Right (capacity : ℕ) : RingBuffer α → List α → List (Call α) → Prop
  | _, _, [] => True
  | b, queue, call :: calls => ∃ b', b.exec call = some (b', (execQueue capacity queue call).2) ∧
      Right capacity b' (execQueue capacity queue call).1 calls

/-- No `int32` overflows, and the end of what is looked at does not wrap. -/
def RingBuffer.Fits (b : RingBuffer α) : Call α → Prop
  | .write data =>
    let length := min data.length (b.size - b.bytesIn)
    length = 0 ∨ b.first + b.bytesIn < 2 ^ 31 ∧
      (b.first + b.bytesIn) % b.size + length < 2 ^ 31
  | .read length => min length b.bytesIn = 0 ∨ b.first + min length b.bytesIn < 2 ^ 31
  | .flush _ => True
  | .peek offset length => b.bytesIn ≤ offset.toNat ∨ length = 0 ∨
      offset.toNat + length.toNat < 2 ^ 32
  | .getVecs => b.bytesIn = 0 ∨ b.first + b.bytesIn < 2 ^ 31

def RingBuffer.Meets : RingBuffer α → List (Call α) → Prop
  | _, [] => True
  | b, call :: calls => b.Fits call ∧ ∀ r, b.exec call = some r → Meets r.1 calls

/-! ## Reattaching -/

/-- The memory that a ring buffer is made from, as an `int32` each -/
structure Image (α : Type) where
  first : BitVec 32
  bytesIn : BitVec 32
  size : BitVec 32
  buffer : ℕ → α

/-- `create_ring_buffer_etc()` with `RING_BUFFER_INIT_FROM_BUFFER` for memory behind which there are
`size` bytes. The size is set before it is looked at. -/
def Image.create (memory : Image α) (size : BitVec 32) : RingBuffer α :=
  let buffer := { memory with size := size }
  if buffer.size = size ∧ 0 ≤ buffer.bytesIn.toInt ∧ buffer.bytesIn ≤ size ∧
      0 ≤ buffer.first.toInt ∧ buffer.first < size then
    ⟨buffer.first.toNat, buffer.bytesIn.toNat, size.toNat, buffer.buffer⟩
  else ⟨0, 0, size.toNat, buffer.buffer⟩

end Haiku.Ring
