import Haiku.KMessage.Basic

/-!
# Kernel messages: writing

The functions of `src/system/kernel/messaging/KMessage.cpp` that add fields and elements to a
`KMessage`. Allocations succeed; the bytes of new memory are arbitrary, and come as an argument.
A function fails (`none`) where it reads or writes through a null pointer.
-/

namespace Haiku.KMessage

open Lib Lock

def int32Bytes (x : ℤ) : List UInt8 := digits 4 (x % 2 ^ 32).toNat

def int16Bytes (x : ℤ) : List UInt8 := digits 2 (x % 2 ^ 16).toNat

/-- What a pointer to data points to: the bytes from there on. -/
abbrev Data := ℕ → UInt8

def Data.bytes (data : Data) (start n : ℕ) : List UInt8 :=
  (List.range n).map fun i => data (start + i)

/-- `KMessage` -/
structure FullMessage extends Message where
  /-- `fBuffer` is `&fHeader` -/
  inHeader : Bool
  /-- `fBufferCapacity` -/
  capacity : ℤ
  /-- `KMESSAGE_OWNS_BUFFER` -/
  ownsBuffer : Bool
  /-- `KMESSAGE_READ_ONLY` -/
  readOnly : Bool

/-- `_InitBuffer()`: the header of an empty message -/
def initBuffer (m : Memory) (what : ℕ) : Memory :=
  m.write 0 (digits 4 messageHeaderMagic ++ int32Bytes headerSize ++ digits 4 what ++
    int32Bytes (-1) ++ int32Bytes (-1) ++ int32Bytes (-1) ++ int32Bytes (-1))

/-- Memory of a size, as it comes from `malloc()`. -/
def malloc (garbage : ℤ → UInt8) (size : ℤ) : Memory :=
  fun p => if 0 ≤ p ∧ p < size then some (garbage p) else none

/-- `KMessage()` with `SetWhat()`, and `SetTo()` without a buffer -/
def FullMessage.init (what : ℕ) : FullMessage where
  buffer := initBuffer (malloc (fun _ => 0) headerSize) what
  lastFieldOffset := 0
  inHeader := true
  capacity := headerSize
  ownsBuffer := false
  readOnly := false

/-- `SetTo()` with a buffer, that is owned then, for an empty message -/
def FullMessage.initWithBuffer (garbage : ℤ → UInt8) (bufferSize : ℤ) (what : ℕ) : FullMessage where
  buffer := initBuffer (malloc garbage bufferSize) what
  lastFieldOffset := 0
  inHeader := false
  capacity := bufferSize
  ownsBuffer := true
  readOnly := false

def FullMessage.contentSize (msg : FullMessage) : Option ℤ := int32At msg.buffer 4

def capacityFor (size : ℤ) : ℤ := (size + 64 - 1) / 64 * 64

/-- `realloc()`, or `malloc()` and a copy of the header -/
def FullMessage.grow (msg : FullMessage) (garbage : ℤ → UInt8) (newCapacity : ℤ) : FullMessage :=
  { msg with
    buffer     := fun p => if p < msg.capacity then msg.buffer p else malloc garbage newCapacity p
    capacity   := newCapacity
    inHeader   := false
    ownsBuffer := true }

def FullMessage.write (msg : FullMessage) (pos : ℤ) (bytes : List UInt8) : FullMessage :=
  { msg with buffer := msg.buffer.write pos bytes }

/-- `_AllocateSpace()`: where the space is, and its aligned size -/
def FullMessage.allocateSpace (msg : FullMessage) (garbage : ℤ → UInt8) (size : ℤ)
    (alignAddress alignSize : Bool) : Option (FullMessage × Except Status (ℤ × ℤ)) :=
  if msg.inHeader = false ∧ msg.readOnly then some (msg, .error .notAllowed)
  else msg.contentSize.map fun contentSize =>
    let offset := if alignAddress then align contentSize else contentSize
    let newSize := if alignSize then align (offset + size) else int32 (offset + size)
    -- reallocate if necessary
    if msg.inHeader = false ∧ newSize > msg.capacity ∧ msg.ownsBuffer = false then
      (msg, .error .bufferOverflow)
    else
      let msg := if msg.inHeader ∨ newSize > msg.capacity then
        msg.grow garbage (capacityFor newSize) else msg
      (msg.write 4 (int32Bytes newSize), .ok (offset, int32 (newSize - offset)))

/-- `_AddField()`: the status, and the field -/
def FullMessage.addNewField (msg : FullMessage) (garbage : ℤ → UInt8) (name : CString) (type : ℕ)
    (elementSize : ℤ) : Option (FullMessage × Status × ℤ) := do
  let (msg, space) ← msg.allocateSpace garbage (fieldHeaderSize + name.bytes.length) true true
  match space with
  | .error status => some (msg, status, 0)
  | .ok (offset, alignedSize) =>
    let header := digits 4 type ++ int32Bytes elementSize ++ int32Bytes 0 ++
      int32Bytes alignedSize ++ int16Bytes alignedSize ++ name.bytes ++ [0]
    let msg := { msg.write offset header with lastFieldOffset := offset }
    some (msg, .ok, offset)

/-- Sets `elementCount` and `fieldSize` of the field at `pos`. -/
def FullMessage.updateField (msg : FullMessage) (pos elementCount fieldSize : ℤ) : FullMessage :=
  msg.write (pos + 8) (int32Bytes elementCount ++ int32Bytes fieldSize)

/-- The loop of `_AddFieldData()` over the elements from `i` on, for a field at `pos` whose elements
have no fixed size. -/
def FullMessage.addValues (garbage : ℤ → UInt8) (pos : ℤ) (data : Data) (elementSize : ℤ) :
    ℕ → ℕ → FullMessage → Option (FullMessage × Status)
  | 0, _, msg => some (msg, .ok)
  | n + 1, i, msg => do
    let (msg, space) ← msg.allocateSpace garbage (valueHeaderSize + elementSize) true false
    match space with
    | .error status => some (msg, status)
    | .ok (address, alignedSize) =>
      let msg := msg.write address (int32Bytes elementSize)
      let msg := msg.write (valueData address)
        (data.bytes (i * elementSize.toNat) elementSize.toNat)
      let header ← fieldHeaderAt msg.buffer pos
      let msg := msg.updateField pos (header.elementCount + 1) (address + alignedSize - pos)
      addValues garbage pos data elementSize n (i + 1) msg

def FullMessage.addFieldData (msg : FullMessage) (garbage : ℤ → UInt8) (field : ℤ)
    (data : Option Data) (elementSize elementCount : ℤ) : Option (FullMessage × Status) := do
  let fieldHeader ← msg.fieldHeaderForOffset field
  let lastField ← msg.fieldHeaderForOffset msg.lastFieldOffset
  match fieldHeader, data with
  | some pos, some data =>
    if lastField ≠ some pos ∨ elementSize < 0 ∨ elementCount < 0 then some (msg, .badValue)
    else if elementCount = 0 then some (msg, .ok)
    else
      let header ← fieldHeaderAt msg.buffer pos
      if header.hasFixedElementSize then
        -- fixed size values
        if elementSize ≠ header.elementSize then some (msg, .badValue)
        else
          let size := int32 (elementSize * elementCount)
          let (msg, space) ← msg.allocateSpace garbage size (header.elementCount = 0) false
          match space with
          | .error status => some (msg, status)
          | .ok (address, alignedSize) =>
            let msg := msg.write address (data.bytes 0 size.toNat)
            some (msg.updateField pos (header.elementCount + elementCount)
              (address + alignedSize - pos), .ok)
      else FullMessage.addValues garbage pos data elementSize elementCount.toNat 0 msg
  | _, _ => some (msg, .badValue)

/-- A number of rounds that is enough for `FindField()`. -/
def FullMessage.fuel (msg : FullMessage) : ℕ := (msg.contentSize.getD 0).toNat

def FullMessage.addField (msg : FullMessage) (garbage : ℤ → UInt8) (name : CString) (type : ℕ)
    (elementSize : ℤ) : Option (FullMessage × Status) :=
  if type = anyType then some (msg, .badValue)
  else do
    let (status, _) ← msg.findField msg.fuel (some name) anyType
    if status = .ok then some (msg, .nameInUse)
    else
      let (msg, status, _) ← msg.addNewField garbage name type elementSize
      some (msg, status)

/-- What `AddData()`, `AddArray()` and `SetData()` do for a name that is not in use: a new field
with this element size, and then the elements. -/
def FullMessage.addFieldWithData (msg : FullMessage) (garbage : ℤ → UInt8) (name : CString)
    (type : ℕ) (fieldElementSize : ℤ) (data : Option Data) (elementSize elementCount : ℤ) :
    Option (FullMessage × Status) := do
  let (msg, status, field) ← msg.addNewField garbage name type fieldElementSize
  if status ≠ .ok then some (msg, status)
  else msg.addFieldData garbage field data elementSize elementCount

def FullMessage.addData (msg : FullMessage) (garbage : ℤ → UInt8) (name : CString) (type : ℕ)
    (data : Option Data) (numBytes : ℤ) (isFixedSize : Bool) : Option (FullMessage × Status) :=
  if type = anyType ∨ data.isNone ∨ numBytes < 0 then some (msg, .badValue)
  else do
    let (status, field) ← msg.findField msg.fuel (some name) anyType
    if status = .ok then
      -- field with that name already exists: check its type
      let fieldType ← msg.typeCode field
      if fieldType ≠ type then some (msg, .badType)
      else msg.addFieldData garbage field data numBytes 1
    else
      msg.addFieldWithData garbage name type (if isFixedSize then numBytes else -1) data numBytes 1

def FullMessage.addArray (msg : FullMessage) (garbage : ℤ → UInt8) (name : CString) (type : ℕ)
    (data : Option Data) (elementSize elementCount : ℤ) : Option (FullMessage × Status) :=
  if type = anyType ∨ data.isNone ∨ elementSize < 0 ∨ elementCount < 0 then some (msg, .badValue)
  else do
    let (status, field) ← msg.findField msg.fuel (some name) anyType
    if status = .ok then
      -- field with that name already exists: check its type
      let fieldType ← msg.typeCode field
      if fieldType ≠ type then some (msg, .badType)
      else msg.addFieldData garbage field data elementSize elementCount
    else msg.addFieldWithData garbage name type elementSize data elementSize elementCount

def FullMessage.setData (msg : FullMessage) (garbage : ℤ → UInt8) (name : CString) (type : ℕ)
    (data : Option Data) (numBytes : ℤ) : Option (FullMessage × Status) :=
  if msg.inHeader = false ∧ msg.readOnly then some (msg, .notAllowed)
  else do
    let (status, field) ← msg.findField msg.fuel (some name) anyType
    if status = .ok then
      -- field already known
      match ← msg.fieldHeaderForOffset field with
      | none => some (msg, .badValue)
      | some pos =>
        let header ← fieldHeaderAt msg.buffer pos
        if header.type ≠ type ∨ header.hasFixedElementSize = false ∨ header.elementSize ≠ numBytes then
          some (msg, .badValue)
        else if header.elementCount > 0 then
          -- ElementAt() writes the size of the element to a null pointer
          none
        else msg.addFieldData garbage field data numBytes 1
    else msg.addFieldWithData garbage name type numBytes data numBytes 1

def FullMessage.elementSize (msg : FullMessage) (field : ℤ) : Option ℤ := do
  match ← msg.fieldHeaderForOffset field with
  | some pos => int32At msg.buffer (pos + 4)
  | none => some (-1)

/-- `KMessageField::AddElements()`; `KMessageField::AddElement()` is the same for one element -/
def FullMessage.addElements (msg : FullMessage) (garbage : ℤ → UInt8) (field : ℤ)
    (data : Option Data) (count elementSize : ℤ) : Option (FullMessage × Status) := do
  let fieldHeader ← msg.fieldHeaderForOffset field
  if fieldHeader = none ∨ data.isNone ∨ count < 0 then some (msg, .badValue)
  else
    let fieldElementSize ← msg.elementSize field
    let size := if elementSize < 0 then fieldElementSize else elementSize
    if size < 0 then some (msg, .badValue)
    else msg.addFieldData garbage field data size count

def FullMessage.addElement (msg : FullMessage) (garbage : ℤ → UInt8) (field : ℤ)
    (data : Option Data) (size : ℤ) : Option (FullMessage × Status) :=
  msg.addElements garbage field data 1 size

/-- The calls that change a message; a `KMessageField` is given by its `fHeaderOffset`. -/
inductive Call
  | setWhat (what : ℕ)
  | addField (name : CString) (type : ℕ) (elementSize : ℤ)
  | addData (name : CString) (type : ℕ) (data : Option Data) (numBytes : ℤ) (isFixedSize : Bool)
  | addArray (name : CString) (type : ℕ) (data : Option Data) (elementSize elementCount : ℤ)
  | setData (name : CString) (type : ℕ) (data : Option Data) (numBytes : ℤ)
  | addElement (field : ℤ) (data : Option Data) (size : ℤ)
  | addElements (field : ℤ) (data : Option Data) (count elementSize : ℤ)

def FullMessage.exec (msg : FullMessage) (garbage : ℤ → UInt8) :
    Call → Option (FullMessage × Status)
  | .setWhat what => some (msg.write 8 (digits 4 what), .ok)
  | .addField name type elementSize => msg.addField garbage name type elementSize
  | .addData name type data numBytes isFixedSize =>
    msg.addData garbage name type data numBytes isFixedSize
  | .addArray name type data elementSize elementCount =>
    msg.addArray garbage name type data elementSize elementCount
  | .setData name type data numBytes => msg.setData garbage name type data numBytes
  | .addElement field data size => msg.addElement garbage field data size
  | .addElements field data count elementSize => msg.addElements garbage field data count elementSize

end Haiku.KMessage
