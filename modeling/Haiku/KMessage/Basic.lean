import Haiku.Lib.Bytes
import Haiku.Lock.ReadWrite

/-!
# Kernel messages: reading

`KMessage` of `src/system/kernel/messaging/KMessage.cpp` and `headers/private/kernel/util/KMessage.h`
as it reads a buffer: the checks of `_InitFromBuffer()`, and what `GetNextField()`, `FindField()`,
`ElementAt()` and `FindData()` do with a buffer that passed them.

Pointers into the buffer are offsets from its start, which is a multiple of 4, and they are
computed as the 32 bit addresses are. Reading where the memory may not be accessed makes a
computation fail (`none`).
-/

namespace Haiku.KMessage

open Lib Lock

inductive Status
  | ok
  | badValue
  | badData
  | badType
  | badIndex
  | nameInUse
  | nameNotFound
  | notAllowed
  | bufferOverflow
  deriving DecidableEq

/-- `B_ANY_TYPE` -/
def anyType : ℕ := 0x414e5954

/-- `KMessage::kMessageHeaderMagic` -/
def messageHeaderMagic : ℕ := 0x6b4d7347

/-- `sizeof(KMessage::Header)` -/
def headerSize : ℤ := 28

/-- `sizeof(KMessage::FieldHeader)` -/
def fieldHeaderSize : ℤ := 20

/-- `offsetof(KMessage::FieldHeader, name)` -/
def nameOffset : ℤ := 18

/-- `sizeof(KMessage::FieldValueHeader)` -/
def valueHeaderSize : ℤ := 4

/-- A string without its terminating null. -/
structure CString where
  bytes : List UInt8
  nonzero : ∀ b ∈ bytes, b ≠ 0
  deriving DecidableEq

def uint32At (m : Memory) (pos : ℤ) : Option ℕ := (m.read pos 4).map number

def int32At (m : Memory) (pos : ℤ) :
    Option ℤ := (m.read pos 4).map fun bytes => int32 (number bytes)

def int16At (m : Memory) (pos : ℤ) :
    Option ℤ := (m.read pos 2).map fun bytes => int16 (number bytes)

def roundUp (x : ℤ) : ℤ := (x + 3) / 4 * 4

def align (offset : ℤ) : ℤ := int32 (roundUp offset)

/-! ## `FieldValueHeader` -/

/-- `FieldValueHeader::Data()` -/
def valueData (valueHeader : ℤ) : ℤ := align (valueHeader + valueHeaderSize)

def nextFieldValueHeader (valueHeader size : ℤ) : ℤ := align (valueData valueHeader + size)

/-! ## `FieldHeader` -/

/-- `FieldHeader` without the name -/
structure FieldHeader where
  type : ℕ
  elementSize : ℤ
  elementCount : ℤ
  fieldSize : ℤ
  headerSize : ℤ
  deriving DecidableEq

def fieldHeaderAt (m : Memory) (pos : ℤ) : Option FieldHeader := do
  let type ← uint32At m pos
  let elementSize ← int32At m (pos + 4)
  let elementCount ← int32At m (pos + 8)
  let fieldSize ← int32At m (pos + 12)
  let headerSize ← int16At m (pos + 16)
  some { type, elementSize, elementCount, fieldSize, headerSize }

def FieldHeader.hasFixedElementSize (header : FieldHeader) : Bool := header.elementSize ≥ 0

attribute [simp] FieldHeader.hasFixedElementSize

/-- The loop of `FieldHeader::ElementAt()`. -/
def skipValues (m : Memory) : ℕ → ℤ → Option ℤ
  | 0, valueHeader => some valueHeader
  | i + 1, valueHeader => (int32At m valueHeader).bind fun size =>
    skipValues m i (nextFieldValueHeader valueHeader size)

/-- `FieldHeader::ElementAt()`: where the element is, and its size; `none` for `NULL`. -/
def elementAt (m : Memory) (pos index : ℤ) : Option (Option (ℤ × ℤ)) :=
  (fieldHeaderAt m pos).bind fun header =>
    if index < 0 ∨ index ≥ header.elementCount then some none
    else
      let data := int32 (pos + header.headerSize)
      if header.hasFixedElementSize then
        some (some (int32 (data + header.elementSize * index), header.elementSize))
      else
        -- non-fixed element size: we need to iterate
        (skipValues m index.toNat data).bind fun valueHeader =>
          (int32At m valueHeader).map fun size => some (valueData valueHeader, size)

def nextFieldHeader (m : Memory) (pos : ℤ) : Option ℤ :=
  (int32At m (pos + 12)).map fun fieldSize => align (pos + fieldSize)

/-- `strcmp()` for equality -/
def strEqual (m : Memory) : ℤ → List UInt8 → Option Bool
  | pos, [] => (m pos).map fun b => b = 0
  | pos, c :: name => (m pos).bind fun b => if b = c then strEqual m (pos + 1) name else some false

def strnlen (m : Memory) : ℤ → ℕ → Option ℕ
  | _, 0 => some 0
  | pos, n + 1 => (m pos).bind fun b => if b = 0 then some 0 else (strnlen m (pos + 1) n).map (· + 1)

/-! ## `KMessage` -/

/-- What the reading functions of a `KMessage` use: the memory at `fBuffer`, and
`fLastFieldOffset`. -/
structure Message where
  buffer : Memory
  lastFieldOffset : ℤ

def firstFieldHeader : ℤ := align headerSize

def Message.fieldHeaderForOffset (msg : Message) (offset : ℤ) : Option (Option ℤ) :=
  if offset ≤ 0 then some none
  else (int32At msg.buffer 4).map fun size => if offset ≥ size then none else some offset

/-- `GetNextField()` with a `KMessageField` of this message, or one that is not set, whose
`fHeaderOffset` is 0. The new offset is the field's afterwards. -/
def Message.getNextField (msg : Message) (field : ℤ) : Option (Status × ℤ) := do
  let fieldHeader ← msg.fieldHeaderForOffset field
  match ← msg.fieldHeaderForOffset msg.lastFieldOffset with
  | none => some (.nameNotFound, field)
  | some lastField =>
    match fieldHeader with
    | none => some (.ok, firstFieldHeader)
    | some pos =>
      if pos < firstFieldHeader ∨ pos > lastField then some (.badValue, field)
      else if pos = lastField then some (.nameNotFound, field)
      else (nextFieldHeader msg.buffer pos).map fun next => (.ok, next)

def Message.typeCode (msg : Message) (field : ℤ) : Option ℕ := do
  match ← msg.fieldHeaderForOffset field with
  | some pos => uint32At msg.buffer pos
  | none => some 0

/-- `strcmp()` of a name with `KMessageField::Name()` -/
def Message.hasName (msg : Message) (field : ℤ) (name : CString) : Option Bool := do
  match ← msg.fieldHeaderForOffset field with
  | some pos => strEqual msg.buffer (pos + nameOffset) name.bytes
  | none => none

/-- The loop of `FindField()`. -/
def Message.findFieldLoop (msg : Message) (name : CString) (type : ℕ) : ℕ → ℤ → Option (Status × ℤ)
  | 0, _ => none
  | fuel + 1, field => do
    let (status, field) ← msg.getNextField field
    if status ≠ .ok then some (.nameNotFound, field)
    else
      let sameType ← if type = anyType then some true
        else (msg.typeCode field).map fun fieldType => decide (fieldType = type)
      let found ← if sameType then msg.hasName field name else some false
      if found then some (.ok, field) else msg.findFieldLoop name type fuel field

/-- `FindField()`; `none` for a `NULL` name -/
def Message.findField (msg : Message) (fuel : ℕ) (name : Option CString) (type : ℕ) :
    Option (Status × ℤ) :=
  match name with
  | none => some (.badValue, 0)
  | some name => msg.findFieldLoop name type fuel 0

/-- `KMessageField::ElementAt()` with a place for the size -/
def Message.elementAt (msg : Message) (field index : ℤ) : Option (Option (ℤ × ℤ)) := do
  match ← msg.fieldHeaderForOffset field with
  | some pos => KMessage.elementAt msg.buffer pos index
  | none => some none

/-- `FindData()` with places for the data and its size -/
def Message.findData (msg : Message) (fuel : ℕ) (name : Option CString) (type : ℕ) (index : ℤ) :
    Option (Status × Option (ℤ × ℤ)) :=
  match name with
  | none => some (.badValue, none)
  | some name => do
    let (status, field) ← msg.findField fuel (some name) type
    if status ≠ .ok then some (status, none)
    else
      match ← msg.elementAt field index with
      | none => some (.badIndex, none)
      | some element => some (.ok, some element)

/-! ## The checks of a buffer -/

/-- The loop of `_InitFromBuffer()` over the elements of a field at `data`, whose elements have no
fixed size: how long the field is, or `none` for `B_BAD_DATA`. -/
def checkElements (m : Memory) (size data : ℤ) : ℕ → ℤ → ℤ → Option (Option ℤ)
  | 0, _, fieldSize => some (some fieldSize)
  | n + 1, valueHeader, _ =>
    if int32 (size - valueHeader) < valueHeaderSize then some none
    else
      let value := valueData valueHeader
      (int32At m valueHeader).bind fun valueSize =>
        if int32 (size - value) < valueSize then some none
        else checkElements m size data n (nextFieldValueHeader valueHeader valueSize)
          (int32 (value + valueSize - data))

/-- One round of the loop of `_InitFromBuffer()` over the fields: where the next field is. -/
def checkField (m : Memory) (size data : ℤ) : Option (Option ℤ) :=
  let remainingBytes := int32 (size - data)
  if remainingBytes < fieldHeaderSize then some none
  else (fieldHeaderAt m data).bind fun header =>
    -- check field header
    if header.type = anyType then some none
    else if header.elementCount < 0 then some none
    else if header.fieldSize < fieldHeaderSize ∨ header.fieldSize > remainingBytes then some none
    else if header.headerSize < fieldHeaderSize ∨ header.headerSize > header.fieldSize then some none
    else
      let maxNameLen := header.headerSize - nameOffset
      (strnlen m (data + nameOffset) maxNameLen.toNat).bind fun nameLen =>
        if nameLen = maxNameLen ∨ nameLen = 0 then some none
        else if header.hasFixedElementSize then
          -- the size of the data is computed, but not compared with the size of the field
          some (some (align (data + header.fieldSize)))
        else
          (checkElements m size data header.elementCount.toNat (int32 (data + header.headerSize))
            header.headerSize).map fun result =>
            match result with
            | none => none
            | some fieldSize =>
              if fieldSize > header.fieldSize then none else some (align (data + header.fieldSize))

/-- The loop of `_InitFromBuffer()` over the fields: the offset of the last one. -/
def checkFields (m : Memory) (size : ℤ) : ℕ → ℤ → ℤ → Option (Except Status ℤ)
  | 0, _, _ => none
  | fuel + 1, data, lastField =>
    if int32 (size - data) > 0 then
      (checkField m size data).bind fun result =>
        match result with
        | none => some (.error .badData)
        | some next => checkFields m size fuel next data
    else some (.ok lastField)

/-- `fBufferCapacity` of a message that is initialized from a buffer -/
def bufferCapacity (m : Memory) (bufferSize : ℤ) : Option ℤ :=
  if bufferSize < 0 then int32At m 4 else some bufferSize

/-- `SetTo()` with `KMESSAGE_INIT_FROM_BUFFER` for a buffer at an address: `fLastFieldOffset`
afterwards, or an error. -/
def setTo (m : Memory) (address : ℕ) (bufferSize : ℤ) : Option (Except Status ℤ) :=
  if 0 ≤ bufferSize ∧ bufferSize < headerSize then some (.error .badValue)
  else if address % 4 ≠ 0 then some (.error .badData)
  else do
    let capacity ← bufferCapacity m bufferSize
    if capacity < headerSize then some (.error .badData)
    else if (← uint32At m 0) ≠ messageHeaderMagic then some (.error .badData)
    else
      let size ← int32At m 4
      if size < headerSize ∨ size > capacity then some (.error .badData)
      else checkFields m size (size.toNat + 1) firstFieldHeader (-1)

end Haiku.KMessage
