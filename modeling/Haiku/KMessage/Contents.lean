import Haiku.KMessage.Writing

/-!
# What a message contains

The contents of a message are its fields in the order they were added. `record` says what a
successful call adds; `Message.contents` reads a message with `GetNextField()` and `ElementAt()` as
`KMessage::Dump()` does, and `Laid` says how the contents lie in the buffer.
-/

namespace Haiku.KMessage

open Lib Lock

structure Field where
  name : CString
  type : ℕ
  /-- negative for elements without fixed size -/
  elementSize : ℤ
  elements : List (List UInt8)

/-! ## What the calls add -/

def Data.elements (data : Data) (elementSize elementCount : ℤ) : List (List UInt8) :=
  (List.range elementCount.toNat).map fun i =>
    data.bytes (i * elementSize.toNat) elementSize.toNat

def elementsOf (data : Option Data) (elementSize elementCount : ℤ) : List (List UInt8) :=
  match data with
  | some data => data.elements elementSize elementCount
  | none => []

def Field.append (f : Field) (elements : List (List UInt8)) : Field :=
  { f with elements := f.elements ++ elements }

/-- Changes the field with a name, or adds a new one. -/
def changeOrAdd (fields : List Field) (name : CString) (change : Field → Field) (new : Field) :
    List Field :=
  if fields.any fun f => f.name = name then
    fields.map fun f => if f.name = name then change f else f
  else fields ++ [new]

def Field.setFirst (f : Field) (element : List UInt8) : Field :=
  { f with elements := element :: f.elements.tail }

/-! ## Where the fields are -/

/-- Where values without fixed size end that start behind the offset `e`. -/
def valuesEnd : ℤ → List (List UInt8) → ℤ
  | e, [] => e
  | e, x :: xs => valuesEnd (roundUp e + 4 + x.length) xs

def Field.headerSize (f : Field) : ℤ := roundUp (20 + f.name.bytes.length)

def Field.size (f : Field) : ℤ :=
  if 0 ≤ f.elementSize then f.headerSize + f.elementSize * f.elements.length
  else valuesEnd f.headerSize f.elements

/-- Where fields end that start behind the offset `d`. -/
def fieldsEnd : ℤ → List Field → ℤ
  | d, [] => d
  | d, f :: fs => fieldsEnd (roundUp d + f.size) fs

def offsets : ℤ → List Field → List ℤ
  | _, [] => []
  | d, f :: fs => roundUp d :: offsets (roundUp d + f.size) fs

/-- What a call adds to the contents of a message if it is successful. -/
def record (fields : List Field) : Call → List Field
  | .setWhat _ => fields
  | .addField name type elementSize => fields ++ [⟨name, type, elementSize, []⟩]
  | .addData name type data numBytes isFixedSize =>
    let elements := elementsOf data numBytes 1
    changeOrAdd fields name (Field.append · elements)
      ⟨name, type, if isFixedSize then numBytes else -1, elements⟩
  | .addArray name type data elementSize elementCount =>
    let elements := elementsOf data elementSize elementCount
    changeOrAdd fields name (Field.append · elements) ⟨name, type, elementSize, elements⟩
  | .setData name type data numBytes =>
    let element := (elementsOf data numBytes 1).headD []
    changeOrAdd fields name (Field.setFirst · element) ⟨name, type, numBytes, [element]⟩
  | .addElement field data size =>
    fields.modify ((offsets 28 fields).idxOf field) fun f =>
      f.append (elementsOf data (if size < 0 then f.elementSize else size) 1)
  | .addElements field data count elementSize =>
    fields.modify ((offsets 28 fields).idxOf field) fun f =>
      f.append (elementsOf data (if elementSize < 0 then f.elementSize else elementSize) count)

/-! ## How the fields lie in the buffer -/

/-- Values without fixed size lie behind the offset `e`. -/
def ValuesLaid (m : Memory) : ℤ → List (List UInt8) → Prop
  | _, [] => True
  | e, x :: xs => int32At m (roundUp e) = some (x.length : ℤ) ∧
    m.read (roundUp e + 4) x.length = some x ∧ ValuesLaid m (roundUp e + 4 + x.length) xs

/-- A field lies at the offset `pos`. -/
structure FieldLaid (m : Memory) (pos : ℤ) (f : Field) : Prop where
  header : fieldHeaderAt m pos =
    some ⟨f.type, f.elementSize, f.elements.length, f.size, f.headerSize⟩
  name : m.read (pos + 18) (f.name.bytes.length + 1) = some (f.name.bytes ++ [0])
  fixed : 0 ≤ f.elementSize → m.read (pos + f.headerSize) f.elements.flatten.length =
    some f.elements.flatten
  values : f.elementSize < 0 → ValuesLaid m (pos + f.headerSize) f.elements

/-- The fields lie behind the offset `d`. -/
def Laid (m : Memory) : ℤ → List Field → Prop
  | _, [] => True
  | d, f :: fs => FieldLaid m (roundUp d) f ∧ Laid m (roundUp d + f.size) fs

/-! ## Reading a message -/

/-- `KMessageField::Name()`: the string -/
def Message.name (msg : Message) (field : ℤ) : Option (List UInt8) := do
  match ← msg.fieldHeaderForOffset field with
  | some pos => (strnlen msg.buffer (pos + nameOffset) 0x8000).bind fun n =>
    msg.buffer.read (pos + nameOffset) n
  | none => none

def Message.elementSize (msg : Message) (field : ℤ) : Option ℤ := do
  match ← msg.fieldHeaderForOffset field with
  | some pos => int32At msg.buffer (pos + 4)
  | none => some (-1)

def Message.bytesOf (msg : Message) (element : ℤ × ℤ) : Option (List UInt8) :=
  msg.buffer.read element.1 element.2.toNat

/-- The elements of a field from an index on, up to where there is none. -/
def Message.elementsFrom (msg : Message) (field : ℤ) : ℕ → ℕ → Option (List (List UInt8))
  | 0, _ => none
  | fuel + 1, index => do
    match ← msg.elementAt field index with
    | none => some []
    | some element =>
      let bytes ← msg.bytesOf element
      let rest ← msg.elementsFrom field fuel (index + 1)
      some (bytes :: rest)

/-- What a field looks like through the functions of `KMessageField`. -/
abbrev FieldView := List UInt8 × ℕ × ℤ × List (List UInt8)

def Field.view (f : Field) : FieldView := (f.name.bytes, f.type, f.elementSize, f.elements)

def Message.fieldsFrom (msg : Message) (elementFuel : ℕ) : ℕ → ℤ → Option (List FieldView)
  | 0, _ => none
  | fuel + 1, field => do
    let (status, field) ← msg.getNextField field
    if status ≠ .ok then some []
    else
      let name ← msg.name field
      let type ← msg.typeCode field
      let elementSize ← msg.elementSize field
      let elements ← msg.elementsFrom field elementFuel 0
      let rest ← msg.fieldsFrom elementFuel fuel field
      some ((name, type, elementSize, elements) :: rest)

/-- What `FindData()` finds: the status, and the bytes. -/
def Message.findBytes (msg : Message) (fuel : ℕ) (name : CString) (type : ℕ) (index : ℤ) :
    Option (Status × Option (List UInt8)) := do
  let (status, element) ← msg.findData fuel (some name) type index
  match element with
  | none => some (status, none)
  | some element => (msg.bytesOf element).map fun bytes => (status, some bytes)

def Field.matching (f : Field) (name : CString) (type : ℕ) : Bool :=
  (type = anyType ∨ f.type = type) ∧ f.name = name

/-- What there is to find in the fields. -/
def lookup (fields : List Field) (name : CString) (type : ℕ) (index : ℤ) :
    Status × Option (List UInt8) :=
  match fields.find? (Field.matching · name type) with
  | none => (.nameNotFound, none)
  | some f =>
    if index < 0 then (.badIndex, none)
    else
      match f.elements[index.toNat]? with
      | none => (.badIndex, none)
      | some bytes => (.ok, some bytes)

/-- A message yields the fields, in this order, with these elements. -/
structure Yields (msg : Message) (fields : List Field) : Prop where
  contents : ∃ n, ∀ elementFuel ≥ n, ∀ fuel ≥ n,
    msg.fieldsFrom elementFuel fuel 0 = some (fields.map Field.view)
  findData : ∀ name type index, ∃ n, ∀ fuel ≥ n,
    msg.findBytes fuel name type index = some (lookup fields name type index)

end Haiku.KMessage
