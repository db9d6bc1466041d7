import Haiku.Bfs.DataStream
import Haiku.Lib.Block
import Haiku.Lib.Bytes

/-!
# The small_data section of an inode

`small_data` of `src/add-ons/kernel/file_systems/bfs/bfs.h`, and what
`src/add-ons/kernel/file_systems/bfs/Inode.cpp` does with the section: `_AddSmallData()`,
`_RemoveSmallData()` and `_MakeSpaceForSmallData()`.

* An inode is a block of bytes: the `bfs_inode`, and the items of the section behind it. A pointer to
  an item is its position in the block. A write outside of the block gives `none`.
* A name is a C string, without its null byte. A position is an `off_t` that is not negative, and
  the sum of a position and a length has 64 bits.
* The block is also what is written back; that this may fail is left out, like the iterators, whose
  indices are updated, and the check for missing arguments.
-/

namespace Haiku.Bfs

open Haiku.Lib

def fileNameName : UInt8 := 0x13

namespace SmallData

/-- `SmallDataStart()`; a `bfs_inode` has 232 bytes. -/
def start : ℕ := 232

variable (node : List UInt8) (item : ℕ)

def type : ℕ := number ((node.drop item).take 4)

def nameSize : ℕ := number ((node.drop (item + 4)).take 2)

def dataSize : ℕ := number ((node.drop (item + 6)).take 2)

def name : List UInt8 := (node.drop (item + 8)).takeWhile (· ≠ 0)

def data : ℕ := item + 8 + nameSize node item + 3

def size : ℕ := 8 + nameSize node item + 3 + dataSize node item + 1

def next : ℕ := item + size node item

def isLast : Bool := node.length < item + 8 ∨ nameSize node item = 0

/-- The loops over the items, from `item` on, that end with the last one, or when `stop` does. -/
def skip (stop : ℕ → Bool) : (rounds item : ℕ) → ℕ
  | 0, item => item
  | rounds + 1, item =>
    if isLast node item ∨ stop item then item else skip stop rounds (next node item)

/-- The item with a name, or the last one -/
def find (wanted : List UInt8) :
    ℕ := skip node (fun item => name node item = wanted) node.length start

def last : ℕ := skip node (fun _ => false) node.length item

end SmallData

structure AttributeFile where
  type : ℕ
  contents : List UInt8

/-- An inode, and the files of its attribute directory by name -/
structure Inode where
  node : List UInt8
  files : List UInt8 → Option AttributeFile

inductive AttributeStatus where
  | ok
  | deviceFull
  | error
  | badData
  | entryNotFound
deriving DecidableEq

/-- Which operations on attribute files succeed -/
structure AttributeIo where
  create : List UInt8 → Bool
  write : List UInt8 → Bool
  remove : List UInt8 → Bool

/-- `WriteAt()`, which fills the gap up to `pos` with zeros -/
def AttributeFile.writeAt (file : AttributeFile) (pos : ℕ) (data : List UInt8) : AttributeFile :=
  { file with
    contents := file.contents.take pos ++ List.replicate (pos - file.contents.length) 0 ++ data ++
      file.contents.drop (pos + data.length) }

namespace Inode

variable (io : AttributeIo) (inode : Inode) (name : List UInt8)

/-- `CreateAttribute()`; an attribute file that exists is opened. -/
def createAttribute (type : ℕ) : Option (Inode × AttributeFile) :=
  if io.create name then
    let file := (inode.files name).getD ⟨type, []⟩
    some ({ inode with files := Function.update inode.files name (some file) }, file)
  else none

/-- A write to the attribute file `name`; a file size is an `off_t`. -/
def writeFile (file : AttributeFile) (pos : ℕ) (data : List UInt8) : Option Inode :=
  if io.write name ∧ pos + data.length < 2 ^ 63 then
    some { inode with files := Function.update inode.files name (some (file.writeAt pos data)) }
  else none

/-- `Remove()` of the attribute directory -/
def removeFile : Option Inode :=
  if io.remove name then some { inode with files := Function.update inode.files name none } else none

end Inode

/-- `_RemoveSmallData()` of the item at a position -/
def removeItem (node : List UInt8) (item : ℕ) : Option (AttributeStatus × List UInt8) :=
  let next := SmallData.next node item
  if SmallData.isLast node next then
    (memset node item 0 (SmallData.size node item)).map (.ok, ·)
  else
    let last := SmallData.last node next
    let size := last - next
    if node.length < next + size then some (.badData, node)
    else do
      let node ← memmove node item next size
      let last := last - (next - item)
      -- what terminates the section
      let node ← memset node last 0 (node.length - last)
      some (.ok, node)

/-- `_RemoveSmallData()` of the item with a name -/
def Inode.removeSmallData (inode : Inode) (name : List UInt8) : Option (AttributeStatus × Inode) :=
  let item := SmallData.find inode.node name
  if SmallData.isLast inode.node item then some (.entryNotFound, inode)
  else (removeItem inode.node item).map fun (status, node) => (status, { inode with node })

/-- `_MakeSpaceForSmallData()` does not remove the node's name, and not the item `wanted`. -/
def isProtected (node wanted : List UInt8) (item : ℕ) : Bool :=
  node[item + 8]? = some fileNameName ∨ SmallData.name node item = wanted

/-- The inner loop of `_MakeSpaceForSmallData()`: the item that ends it, and the largest one -/
def findLarge (node wanted : List UInt8) (bytes : ℤ) :
    (rounds item : ℕ) → (max : Option ℕ) → ℕ × Option ℕ
  | 0, item, max => (item, max)
  | rounds + 1, item, max =>
    if SmallData.isLast node item then (item, max)
    else if isProtected node wanted item then
      findLarge node wanted bytes rounds (SmallData.next node item) max
    else
      let max := if max.all (SmallData.size node · < SmallData.size node item)
        then some item else max
      if bytes < SmallData.size node item then (item, max)
      else findLarge node wanted bytes rounds (SmallData.next node item) max

/-- `_MakeSpaceForSmallData()` -/
def Inode.makeSpace (io : AttributeIo) (name : List UInt8) :
    (rounds : ℕ) → (bytes : ℤ) → Inode → Option (AttributeStatus × Inode)
  | 0, _, _ => none
  | rounds + 1, bytes, inode =>
    if bytes ≤ 0 then some (.ok, inode)
    else
      let node := inode.node
      let (item, max) := findLarge node name bytes node.length SmallData.start none
      if SmallData.isLast node item ∨ SmallData.size node item < bytes then some (.error, inode)
      else do
        let max ← max
        let bytes := bytes - SmallData.size node max
        let itemName := SmallData.name node item
        match inode.createAttribute io itemName (SmallData.type node item) with
        | none => some (.error, inode)
        | some (inode, file) =>
          let data ← slice node (SmallData.data node item) (SmallData.dataSize node item)
          match inode.writeFile io itemName file 0 data with
          | none => some (.error, (inode.removeFile io name).getD inode)
          | some inode =>
            let (_, node) ← removeItem node max
            makeSpace io name rounds bytes { inode with node }

/-- The bytes that an item needs, as a `uint32` -/
def spaceNeeded (name : List UInt8) (pos length : ℕ) : ℕ :=
  (8 + name.length + 3 + pos + length + 1) % 2 ^ 32

/-- The part of `_AddSmallData()` that gives the data of an item another length -/
def resizeItem (node : List UInt8) (item last spaceNeeded length : ℕ) : Option (List UInt8) := do
  -- move the attributes after the current one
  let next := SmallData.next node item
  let node ← (if SmallData.isLast node next then some node
    else memmove node (item + spaceNeeded) next (last - next))
  let last := last + (item + spaceNeeded) - next
  -- what terminates the section
  let node ← (if last < node.length then memset node last 0 (node.length - last) else some node)
  memcpy node (item + 6) (digits 2 length)

/-- The part of `_AddSmallData()` that writes into the data of an item -/
def writeData (node : List UInt8) (item oldDataSize pos : ℕ) (data : List UInt8) :
    Option (List UInt8) := do
  -- fill the gap with zeros
  let node ← (if oldDataSize < pos
    then memset node (SmallData.data node item + oldDataSize) 0 (pos - oldDataSize) else some node)
  let node ← memcpy node (SmallData.data node item + pos) data
  memcpy node (SmallData.data node item + pos + data.length) [0]

/-- The part of `_AddSmallData()` that replaces the data of an item -/
def replaceItem (node : List UInt8) (item last spaceNeeded type pos : ℕ) (data : List UInt8) :
    Option (List UInt8) := do
  let oldDataSize := SmallData.dataSize node item
  let node ← (if pos + data.length = oldDataSize then some node
    else resizeItem node item last spaceNeeded (pos + data.length))
  let node ← memcpy node item (digits 4 type)
  writeData node item oldDataSize pos data

/-- The part of `_AddSmallData()` that writes a new item into zeros -/
def writeItem (node : List UInt8) (item : ℕ) (name : List UInt8) (type pos : ℕ)
    (data : List UInt8) : Option (List UInt8) := do
  let node ← memcpy node item (digits 4 type)
  let node ← memcpy node (item + 4) (digits 2 name.length)
  let node ← memcpy node (item + 6) (digits 2 data.length)
  let node ← memcpy node (item + 8) (name ++ [0])
  memcpy node (SmallData.data node item + pos) data

/-- The part of `_AddSmallData()` that adds an item behind the others -/
def appendItem (node : List UInt8) (item spaceNeeded : ℕ) (name : List UInt8) (type pos : ℕ)
    (data : List UInt8) : Option (List UInt8) := do
  let node ← memset node item 0 spaceNeeded
  let node ← writeItem node item name type pos data
  -- what terminates the section
  let next := SmallData.next node item
  if SmallData.isLast node next then some node else memset node next 0 (node.length - next)

namespace Inode

variable (io : AttributeIo) (inode : Inode) (name : List UInt8) (type pos : ℕ) (data : List UInt8)
  (force : Bool)

/-- The part of `_AddSmallData()` for an attribute that is already in the small_data section -/
def replaceSmallData (item : ℕ) : Option (AttributeStatus × Inode) :=
  let space := spaceNeeded name pos data.length
  let last := SmallData.last inode.node item
  let length := pos + data.length
  let oldDataSize := SmallData.dataSize inode.node item
  let fits := last + length ≤ inode.node.length + oldDataSize
  if oldDataSize > length ∨ force ∨ fits then
    if force ∧ ¬fits then do
      let needed := int32 (length - oldDataSize - (inode.node.length - last))
      let (status, inode) ← inode.makeSpace io name (needed.toNat + 1) needed
      if status ≠ .ok then some (.error, inode)
      else
        let item := SmallData.find inode.node name
        let node ← replaceItem inode.node item (SmallData.last inode.node item) space type pos data
        some (.ok, { inode with node })
    else do
      let node ← replaceItem inode.node item last space type pos data
      some (.ok, { inode with node })
  else some (.deviceFull, inode)

/-- The part of `_AddSmallData()` for a new attribute; `item` is the last one. -/
def appendSmallData (item : ℕ) : Option (AttributeStatus × Inode) :=
  let space := spaceNeeded name pos data.length
  if item + space > inode.node.length then
    if !force then some (.deviceFull, inode)
    else do
      let (status, inode) ← inode.makeSpace io name ((int32 space).toNat + 1) (int32 space)
      if status ≠ .ok then some (.error, inode)
      else
        let item := SmallData.last inode.node SmallData.start
        let node ← appendItem inode.node item space name type pos data
        some (.ok, { inode with node })
  else do
    let node ← appendItem inode.node item space name type pos data
    some (.ok, { inode with node })

def addSmallData : Option (AttributeStatus × Inode) :=
  -- reject any requests that can't fit into the small_data section
  if spaceNeeded name pos data.length > inode.node.length - SmallData.start
  then some (.deviceFull, inode)
  else
    let item := SmallData.find inode.node name
    if SmallData.isLast inode.node item
    then inode.appendSmallData io name type pos data force item
    else inode.replaceSmallData io name type pos data force item

end Inode

end Haiku.Bfs
