import Mathlib.Algebra.Order.Ring.Int

/-!
# The file map

`src/system/kernel/cache/file_map.cpp`. A map caches the first disk extents of a file. Up to two of
them are held in the map itself, more in an array that takes the same place. `size_t` is smaller than
`off_t`, and allocations succeed.
-/

namespace Haiku.FileMapping

def cachedFileExtents : ℕ := 2

def fileMapCacheOnDemand : ℕ := 1

def fileMapCacheAll : ℕ := 2

inductive Status
  | ok
  | badValue
  | error
  | bufferOverflow
  deriving DecidableEq

/-- `file_io_vec`: the offset -1 is that of a hole. -/
structure FileIoVec where
  offset : ℤ
  length : ℤ
  deriving DecidableEq

structure FileExtent where
  offset : ℤ
  disk : FileIoVec

/-- What the memory holds where the map does not determine it -/
structure Memory where
  /-- in extents that were not written yet -/
  fresh : ℕ → FileExtent
  /-- in an extent of an array that was freed -/
  freed : FileExtent → FileExtent

inductive Extents
  | direct (fDirect : ℕ → FileExtent)
  | indirect (array : ℕ → FileExtent) (maxCount : ℕ)

def Extents.get : Extents → ℕ → FileExtent
  | .direct fDirect, i => fDirect i
  | .indirect array _, i => array i

def Extents.set : Extents → ℕ → FileExtent → Extents
  | .direct fDirect, i, extent => .direct (Function.update fDirect i extent)
  | .indirect array maxCount, i, extent => .indirect (Function.update array i extent) maxCount

def Extents.room : Extents → ℕ
  | .direct _ => cachedFileExtents
  | .indirect _ maxCount => maxCount

structure FileMap where
  extents : Extents
  fCount : ℕ
  fSize : ℤ
  fCacheAll : Bool

/-- The arithmetic of `off_t` -/
def toOff (x : ℤ) : ℤ := x.bmod (2 ^ 64)

/-- The size that an array gets for `count` extents -/
def growMaxCount (count : ℕ) : ℕ → ℕ → ℕ
  | 0, maxCount => maxCount
  | fuel + 1, maxCount =>
    if maxCount < count then
      growMaxCount count fuel (if maxCount < 32768 then 2 * maxCount else maxCount + 32768)
    else maxCount

namespace FileMap

/-- `FileMap::FileMap()` -/
def create (memory : Memory) (size : ℤ) : FileMap := ⟨.direct memory.fresh, 0, size, false⟩

/-! ## Finding an extent -/

/-- The bisection of `_FindExtent()` -/
def findLoop (map : FileMap) (offset : ℤ) : ℕ → ℤ → ℤ → Option ℕ
  | 0, _, _ => none
  | fuel + 1, left, right =>
    if left ≤ right then
      let index := (left + right) / 2
      let extent := map.extents.get index.toNat
      if extent.offset > offset then map.findLoop offset fuel left (index - 1)
      else if extent.offset + extent.disk.length ≤ offset then
        map.findLoop offset fuel (index + 1) right
      else some index.toNat
    else none

/-- `_FindExtent()`: the index of the extent, or `NULL` -/
def findExtent (map : FileMap) (offset : ℤ) : Option ℕ :=
  map.findLoop offset (map.fCount + 1) 0 (map.fCount - 1)

/-! ## Changing the number of extents -/

def makeSpace (map : FileMap) (memory : Memory) (count : ℕ) : FileMap :=
  if count ≤ cachedFileExtents then
    if map.fCount > cachedFileExtents then
      -- the extents move to the map, and the array is freed
      { map with
        extents := .direct fun i => if i < count then map.extents.get i else memory.fresh i
        fCount  := count }
    else { map with fCount := count }
  else
    let kept := if map.fCount > cachedFileExtents then map.extents.room else map.fCount
    let maxCount := if map.fCount > cachedFileExtents then map.extents.room else cachedFileExtents
    if count > maxCount then
      { map with
        extents := .indirect (fun i => if i < kept then map.extents.get i else memory.fresh i)
          (growMaxCount count count maxCount)
        fCount  := count }
    else { map with fCount := count }

def free (map : FileMap) (memory : Memory) : FileMap :=
  { map with extents := .direct memory.fresh, fCount := 0 }

/-! ## Adding extents -/

/-- What `lastExtent` points to: an extent of the map, or one of an array that was freed -/
inductive LastExtent
  | at (index : ℕ)
  | freed (extent : FileExtent)

def readLast (map : FileMap) : LastExtent → FileExtent
  | .at index => map.extents.get index
  | .freed extent => extent

/-- Add to the length of the last extent, and give up the place of a vec. -/
def mergeLast (map : FileMap) (memory : Memory) (last : LastExtent) (length : ℤ) :
    FileMap × LastExtent :=
  let extent := map.readLast last
  let longer : FileExtent := { extent with disk.length := extent.disk.length + length }
  match last with
  | .at index =>
    let map := { map with extents := map.extents.set index longer }
    (map.makeSpace memory (map.fCount - 1),
      -- the pointer is not adapted when the array is freed
      if map.fCount > cachedFileExtents ∧ map.fCount - 1 ≤ cachedFileExtents then
        .freed (memory.freed longer)
      else .at index)
  | .freed _ => (map.makeSpace memory (map.fCount - 1), .freed longer)

/-- A vec continues the last extent, as `_Add()` tests it. -/
def Merges (last vec : FileIoVec) : Prop :=
  last.offset + last.length = vec.offset ∨ last.offset = -1 ∧ vec.offset = -1

instance (last vec : FileIoVec) : Decidable (Merges last vec) := inferInstanceAs (Decidable (_ ∨ _))

/-- The loop of `_Add()` -/
def addLoop (memory : Memory) : List FileIoVec → ℤ → ℕ → Option LastExtent → ℤ → FileMap →
    FileMap × ℤ
  | [], _, _, _, offset, map => (map, offset)
  | vec :: vecs, start, i, lastExtent, offset, map =>
    let index := (start + i).toNat
    let added := { map with extents := map.extents.set index ⟨offset, vec⟩ }
    match lastExtent with
    | none => addLoop memory vecs start (i + 1) (some (.at index)) (offset + vec.length) added
    | some last =>
      if Merges (map.readLast last).disk vec then
        let merged := map.mergeLast memory last vec.length
        addLoop memory vecs (start - 1) (i + 1) (some merged.2) (offset + vec.length) merged.1
      else addLoop memory vecs start (i + 1) (some (.at index)) (offset + vec.length) added

/-- `_Add()`: the map and `lastOffset` -/
def add (map : FileMap) (memory : Memory) (vecs : List FileIoVec) : FileMap × ℤ :=
  let start := map.fCount
  let map := map.makeSpace memory (start + vecs.length)
  if start ≠ 0 then
    let last := map.extents.get (start - 1)
    addLoop memory vecs start 0 (some (.at (start - 1))) (last.offset + last.disk.length) map
  else addLoop memory vecs start 0 none 0 map

/-! ## Removing extents -/

def invalidateAfter (map : FileMap) (memory : Memory) (offset : ℤ) : FileMap :=
  match map.findExtent offset with
  | none => map
  | some index =>
    let extent := map.extents.get index
    if extent.offset + extent.disk.length > offset then
      let shorter : FileExtent := { extent with disk.length := offset - extent.offset }
      let map := { map with extents := map.extents.set index shorter }
      map.makeSpace memory (if shorter.disk.length = 0 then index else index + 1)
    else map.makeSpace memory (index + 1)

/-- `FileMap::Invalidate()`, which does not honour the size -/
def invalidate (map : FileMap) (memory : Memory) (offset : ℤ) : FileMap :=
  if offset = 0 then map.free memory else map.invalidateAfter memory offset

def setSize (map : FileMap) (memory : Memory) (size : ℤ) : FileMap :=
  let map := if size < map.fSize then map.invalidateAfter memory size else map
  { map with fSize := size }

end FileMap

/-! ## The extents of the file -/

/-- Where a byte of a vec is on disk: at -1 if it is in a hole -/
def FileIoVec.place (vec : FileIoVec) (x : ℤ) : ℤ := if vec.offset = -1 then -1 else vec.offset + x

def FileIoVec.advance (vec : FileIoVec) (x : ℤ) : FileIoVec := ⟨vec.place x, vec.length - x⟩

def rest : List FileIoVec → ℤ → List FileIoVec
  | [], _ => []
  | vec :: vecs, offset =>
    if offset < vec.length then vec.advance offset :: vecs else rest vecs (offset - vec.length)

/-- `vfs_get_file_map()` of a file with the given disk extents -/
def vfsGetFileMap (list : List FileIoVec) (offset : ℤ) (count : ℕ) : List FileIoVec :=
  (rest list offset).take count

namespace FileMap

/-- The loop of `_Cache()`. At most eight vecs are retrieved at a time. -/
def cacheLoop (memory : Memory) (list : List FileIoVec) (portions : ℕ → Fin 8) (stop : ℤ) :
    ℕ → ℕ → FileMap → ℤ → Option FileMap
  | 0, _, _, _ => none
  | fuel + 1, n, map, mapEnd =>
    if mapEnd < stop then
      let added := map.add memory (vfsGetFileMap list mapEnd ((portions n : ℕ) + 1))
      cacheLoop memory list portions stop fuel (n + 1) added.1 added.2
    else some map

def mapEnd (map : FileMap) : ℤ :=
  if map.fCount > 0 then
    (map.extents.get (map.fCount - 1)).offset + (map.extents.get (map.fCount - 1)).disk.length
  else 0

def cache (map : FileMap) (memory : Memory) (list : List FileIoVec) (portions : ℕ → Fin 8)
    (offset size : ℤ) : Option (Status × FileMap) :=
  let stop := toOff (offset + size)
  if map.fCacheAll ∧ map.mapEnd < stop then some (.error, map)
  else
    (cacheLoop memory list portions stop (list.length + 1) 0 map map.mapEnd).map fun map => (.ok, map)

def setMode (map : FileMap) (memory : Memory) (list : List FileIoVec) (portions : ℕ → Fin 8)
    (mode : ℕ) : Option (Status × FileMap) :=
  if mode ≠ fileMapCacheAll ∧ mode ≠ fileMapCacheOnDemand then some (.badValue, map)
  else if mode = fileMapCacheAll ∧ map.fCacheAll ∨ mode = fileMapCacheOnDemand ∧ !map.fCacheAll then
    some (.ok, map)
  else if mode = fileMapCacheAll then
    (map.cache memory list portions 0 map.fSize).map fun (status, map) =>
      if status ≠ .ok then (status, map) else (.ok, { map with fCacheAll := true })
  else some (.ok, { map with fCacheAll := false })

end FileMap

/-! ## Translating -/

/-- What `Translate()` returns, `*_count`, and the vecs that it has written -/
structure Translated where
  status : Status
  count : ℕ
  vecs : List FileIoVec
  deriving DecidableEq

def alignedSize (fSize : ℤ) (align : ℕ) : ℤ :=
  (BitVec.ofInt 64 (fSize + align - 1) &&& ~~~BitVec.ofInt 64 (align - 1)).toInt

/-- The size and `padLastVec` of a request that starts within the file -/
def clip (fSize offset : ℤ) (size align : ℕ) : ℤ × ℤ :=
  if toOff (offset + size) > fSize then
    (fSize - offset,
      if align > 1 ∧ toOff (offset + size) ≥ alignedSize fSize align then
        alignedSize fSize align - fSize
      else 0)
  else (size, 0)

namespace FileMap

/-- The last loop of `Translate()`, from the extent with the index on -/
def copyLoop (map : FileMap) (maxVecs : ℕ) (padLastVec : ℤ) :
    ℕ → ℕ → ℤ → List FileIoVec → Option Translated
  | 0, _, _, _ => none
  | fuel + 1, index, size, vecs =>
    let disk := (map.extents.get index).disk
    if size ≤ disk.length then
      some ⟨.ok, vecs.length + 1, vecs ++ [⟨disk.offset, size + padLastVec⟩]⟩
    else if vecs.length + 1 ≥ maxVecs then
      some ⟨.bufferOverflow, vecs.length + 1, vecs ++ [disk]⟩
    else map.copyLoop maxVecs padLastVec fuel (index + 1) (size - disk.length) (vecs ++ [disk])

/-- `vecs[0]` for an offset in the first extent -/
def firstVec (extent : FileExtent) (offset : ℤ) : FileIoVec :=
  ⟨if extent.disk.offset ≠ -1 then extent.disk.offset + (offset - extent.offset) else -1,
    extent.disk.length - (offset - extent.offset)⟩

/-- `Translate()` once the extents are cached: there is no result where it uses a `NULL` pointer. -/
def copyVecs (map : FileMap) (offset size padLastVec : ℤ) (maxVecs : ℕ) : Option Translated :=
  match map.findExtent offset with
  | none => none
  | some index =>
    let first := firstVec (map.extents.get index) offset
    if first.length ≥ size then some ⟨.ok, 1, [⟨first.offset, size + padLastVec⟩]⟩
    else map.copyLoop maxVecs padLastVec (maxVecs + 1) (index + 1) (size - first.length) [first]

def translate (map : FileMap) (memory : Memory) (list : List FileIoVec) (portions : ℕ → Fin 8)
    (offset : ℤ) (size maxVecs align : ℕ) : Option (Translated × FileMap) :=
  if offset < 0 then some (⟨.badValue, maxVecs, []⟩, map)
  else if offset ≥ map.fSize then some (⟨.ok, 0, []⟩, map)
  else
    let (size, padLastVec) := clip map.fSize offset size align
    (map.cache memory list portions offset size).bind fun (status, map) =>
      if status ≠ .ok then some (⟨status, maxVecs, []⟩, map)
      else (map.copyVecs offset size padLastVec maxVecs).map fun translated => (translated, map)

end FileMap

/-! ## Runs -/

/-- A map, and the disk extents of the file that the file system reports -/
structure State where
  map : FileMap
  list : List FileIoVec

/-- A call, with the number of vecs less one that each call of `vfs_get_file_map()` gets, or with the
extents that the file has from now on -/
inductive Call
  | translate (offset : ℤ) (size maxVecs align : ℕ) (portions : ℕ → Fin 8)
  | setSize (size : ℤ) (list : List FileIoVec)
  | invalidate (offset size : ℤ) (list : List FileIoVec)
  | setMode (mode : ℕ) (portions : ℕ → Fin 8)

def State.step (memory : Memory) (s : State) : Call → Option State
  | .translate offset size maxVecs align portions =>
    (s.map.translate memory s.list portions offset size maxVecs align).map fun r => ⟨r.2, s.list⟩
  | .setSize size list => some ⟨s.map.setSize memory size, list⟩
  | .invalidate offset _ list => some ⟨s.map.invalidate memory offset, list⟩
  | .setMode mode portions =>
    (s.map.setMode memory s.list portions mode).map fun r => ⟨r.2, s.list⟩

end Haiku.FileMapping
