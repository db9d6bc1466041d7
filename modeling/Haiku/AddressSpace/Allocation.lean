import Haiku.AddressSpace.AVLTree

/-!
# The ranges of the kernel address space

The data of `src/system/kernel/vm/VMKernelAddressSpace.cpp` and the functions that link ranges.
Range objects are named by numbers; the list, the tree and the free lists hold these numbers, and
the base and the size of a range may change while it is linked. Addresses and sizes are numbers
below `2 ^ addressBits`, and arithmetic on them wraps around.
-/

namespace Haiku.AddressSpace

def pageShift : ℕ := 12

/-- `B_PAGE_SIZE` -/
def pageSize : ℕ := 4096

inductive Status where
  | ok
  | badValue
  | noMemory
  | badTeamId
  deriving DecidableEq

structure Bounds where
  addressBits : ℕ
  /-- `fBase` -/
  base : ℕ
  /-- `fEndAddress` -/
  endAddress : ℕ
  /-- `USER_BASE` -/
  userBase : ℕ
  /-- `USER_BASE_ANY` -/
  userBaseAny : ℕ
  bits_ge : pageShift ≤ addressBits
  base_pos : 0 < base
  userBaseAny_pos : 0 < userBaseAny
  base_le : base ≤ endAddress
  end_lt : endAddress < 2 ^ addressBits
  base_aligned : pageSize ∣ base
  end_aligned : pageSize ∣ endAddress + 1

/-! ## Address arithmetic -/

def Bounds.add (b : Bounds) (x y : ℕ) : ℕ := (x + y) % 2 ^ b.addressBits

def Bounds.sub (b : Bounds) (x y : ℕ) : ℕ := (x + 2 ^ b.addressBits - y) % 2 ^ b.addressBits

def roundDown (a b : ℕ) : ℕ := a / b * b

def Bounds.roundUp (b : Bounds) (x y : ℕ) : ℕ := roundDown (b.sub (b.add x y) 1) y

def ld (value : ℕ) : ℤ := if value = 0 then -1 else Nat.log2 value

/-- The free list for ranges of the given size. -/
def freeIndex (size : ℕ) : ℕ := (ld size - pageShift).toNat

/-- `fFreeListCount` -/
def Bounds.freeListCount (b : Bounds) : ℕ := freeIndex (b.endAddress - b.base + 1) + 1

/-! ## Ranges -/

inductive RangeType where
  | free
  | reserved (base flags : ℕ)
  | area (area : ℕ)
  deriving DecidableEq

/-- `VMKernelAddressRange` -/
structure Range where
  base : ℕ
  size : ℕ
  type : RangeType

def Range.isFree (r : Range) : Bool := decide (r.type = .free)

def Bounds.lastOf (b : Bounds) (r : Range) : ℕ := b.add r.base (b.sub r.size 1)

structure State where
  ranges : ℕ → Range
  /-- the number of the next range object -/
  next : ℕ
  /-- `fRangeList` -/
  list : List ℕ
  /-- `fRangeTree` -/
  tree : Tree
  /-- `fFreeLists` -/
  freeLists : ℕ → List ℕ
  /-- `VMKernelArea::fRange` of the areas in the address space -/
  areas : ℕ → Option ℕ
  /-- `fDeleting` -/
  deleting : Bool

namespace State

def setRange (s : State) (id : ℕ) (r : Range) : State :=
  { s with ranges := Function.update s.ranges id r }

def newRange (s : State) (r : Range) : State × ℕ :=
  ({ s with ranges := Function.update s.ranges s.next r, next := s.next + 1 }, s.next)

/-- The range behind the given one in the list, `fRangeList.GetNext()`. -/
def nextRange (s : State) (id : ℕ) : Option ℕ := (s.list.dropWhile (· ≠ id)).tail.head?

/-- The range before the given one in the list, `fRangeList.GetPrevious()`. -/
def previousRange (s : State) (id : ℕ) : Option ℕ := (s.list.takeWhile (· ≠ id)).getLast?

/-- `fRangeTree.FindClosest()` -/
def findClosest (s : State) (address : ℕ) (less : Bool) : Option ℕ :=
  s.tree.findClosest (fun id => (s.ranges id).base) address less

/-! ## Linking ranges -/

def freeListInsertRange (s : State) (id size : ℕ) : State :=
  { s with
    freeLists := Function.update s.freeLists (freeIndex size) (s.freeLists (freeIndex size) ++ [id]) }

def freeListRemoveRange (s : State) (id size : ℕ) : State :=
  { s with
    freeLists := Function.update s.freeLists (freeIndex size)
      ((s.freeLists (freeIndex size)).erase id) }

/-- Puts a number into a list behind another one. -/
def insertAfter (c id : ℕ) : List ℕ → List ℕ
  | [] => [id]
  | x :: xs => if x = c then x :: id :: xs else x :: insertAfter c id xs

/-- The list with a range behind the one with the closest smaller base. -/
def listWith (s : State) (id : ℕ) : List ℕ :=
  match s.findClosest (s.ranges id).base true with
  | some c => insertAfter c id s.list
  | none => id :: s.list

def insertRange (s : State) (id : ℕ) : State :=
  let r := s.ranges id
  let list := s.listWith id
  let tree := ((s.tree.insert (fun id => (s.ranges id).base) id).map Prod.fst).getD s.tree
  let s := { s with list, tree }
  if r.isFree then s.freeListInsertRange id r.size else s

def removeRange (s : State) (id : ℕ) : State :=
  let r := s.ranges id
  let s := { s with tree := (s.tree.remove id).1, list := s.list.erase id }
  if r.isFree then s.freeListRemoveRange id r.size else s

end State

def initObject (b : Bounds) : State :=
  let s : State := ⟨fun _ => ⟨0, 0, .free⟩, 0, [], .nil, fun _ => [], fun _ => none, false⟩
  let (s, id) := s.newRange ⟨b.base, b.endAddress - b.base + 1, .free⟩
  s.insertRange id

/-!
## Allocating and freeing ranges

`_FindFreeRange()`, `_AllocateRange()` and `_FreeRange()` of
`src/system/kernel/vm/VMKernelAddressSpace.cpp`. Whether memory for new range objects can be
allocated is an argument.
-/

/-- The address specifications of `create_area()`; every other value is `other`. -/
inductive AddressSpec where
  | any
  | anyKernel
  | anyKernelBlock
  | base
  | exact
  | other
  deriving DecidableEq

/-- `virtual_address_restrictions` -/
structure Restrictions where
  address : ℕ
  spec : AddressSpec
  alignment : ℕ

def reservedAvoidBase : ℕ := 1

/-! ## Searching -/

def Bounds.isValidSpot (b : Bounds) (base alignedBase size limit : ℕ) : Bool :=
  alignedBase ≥ base && b.add alignedBase (b.sub size 1) > alignedBase &&
    b.add alignedBase (b.sub size 1) ≤ limit

/-- Looks for a range with a spot for the size, in the given order. -/
def findSpot (b : Bounds) (s : State) (start size alignment : ℕ) (ids : List ℕ) :
    Option (ℕ × ℕ) :=
  ids.findSome? fun id =>
    let r := s.ranges id
    let alignedBase := b.roundUp r.base alignment
    if b.isValidSpot start alignedBase size (b.lastOf r) then some (id, alignedBase) else none

/-- Looks for a reserved range with a spot for the size. -/
def findReserved (b : Bounds) (s : State) (start size alignment : ℕ) (ids : List ℕ) :
    Option (ℕ × ℕ) :=
  ids.findSome? fun id =>
    let r := s.ranges id
    match r.type with
    | .reserved _ flags =>
      let alignedBase := b.roundUp r.base alignment
      if b.isValidSpot start alignedBase size (b.lastOf r) then
        if flags &&& reservedAvoidBase ≠ 0 then
          some (id, roundDown (b.add r.base (b.sub r.size size)) alignment)
        else some (id, alignedBase)
      else none
    | _ => none

/-- The ranges from the one closest to the given address on. -/
def State.listFrom (s : State) (start : ℕ) : List ℕ :=
  match s.findClosest start true with
  | some c => s.list.dropWhile (· ≠ c)
  | none => []

/-- The case of `_FindFreeRange()` for `B_ANY_ADDRESS` and its variants. -/
def findAny (b : Bounds) (s : State) (start size alignment : ℕ) (allowReservedRange : Bool) :
    Option (ℕ × ℕ) :=
  let freeListIndex := (ld (b.sub (b.add size size) 1 >>> pageShift)).toNat
  let lists := (List.range' freeListIndex (b.freeListCount - freeListIndex)).flatMap s.freeLists
  match findSpot b s start size alignment lists with
  | some found => some found
  | none =>
    if !allowReservedRange then none
    else findReserved b s start size alignment (s.listFrom start)

/-- The case of `_FindFreeRange()` for `B_EXACT_ADDRESS`. -/
def findExact (b : Bounds) (s : State) (start size : ℕ) (allowReservedRange : Bool) :
    Option (ℕ × ℕ) :=
  (s.findClosest start true).bind fun id =>
    let r := s.ranges id
    match r.type with
    | .area _ => none
    | .free => if b.lastOf r < b.add start (b.sub size 1) then none else some (id, start)
    | .reserved .. =>
      if b.lastOf r < b.add start (b.sub size 1) || !allowReservedRange then none
      else some (id, start)

/-- `_FindFreeRange()`: a range and the address found in it. -/
def findFreeRange (b : Bounds) (s : State) (start size alignment : ℕ) (spec : AddressSpec)
    (allowReservedRange : Bool) : Option (ℕ × ℕ) :=
  match spec with
  | .base =>
    let free := (s.listFrom start).filter fun id => (s.ranges id).isFree
    match findSpot b s start size alignment free with
    | some found => some found
    | none => findAny b s b.base size alignment allowReservedRange
  | .any | .anyKernel | .anyKernelBlock => findAny b s start size alignment allowReservedRange
  | .exact => findExact b s start size allowReservedRange
  | .other => none

/-! ## Allocating -/

/-- The loop that aligns a block to the next power of two of its size; `none` when it does not come
to an end. -/
def blockAlignment (b : Bounds) (size : ℕ) : ℕ → ℕ → Option ℕ
  | 0, alignment => if alignment < size then none else some alignment
  | rounds + 1, alignment =>
    if alignment < size then blockAlignment b size rounds (b.add alignment alignment)
    else some alignment

def searchStart (b : Bounds) (restrictions : Restrictions) : ℕ :=
  match restrictions.spec with
  | .base => b.roundUp restrictions.address pageSize
  | .any | .anyKernel | .anyKernelBlock => if b.base = b.userBase then b.userBaseAny else b.base
  | .exact | .other => restrictions.address

def searchAlignment (b : Bounds) (restrictions : Restrictions) (size : ℕ) : Option ℕ :=
  let alignment := if restrictions.alignment ≠ 0 then restrictions.alignment else pageSize
  match restrictions.spec with
  | .anyKernelBlock => blockAlignment b size b.addressBits alignment
  | _ => some alignment

/-- The part of `_AllocateRange()` that splits the range found; `memory` tells which allocations of
range objects succeed. -/
def splitRange (b : Bounds) (s : State) (id address size : ℕ) (memory : Bool × Bool) :
    Option State :=
  let r := s.ranges id
  if address = r.base then
    if r.size > size then
      if !memory.1 then none
      else
        let (s, leftOver) := s.newRange { r with base := b.add address size, size := b.sub r.size size }
        some ((s.setRange id { r with size := size }).insertRange leftOver)
    else some s
  else if b.add address size = b.add r.base r.size then
    if !memory.1 then none
    else
      let (s, leftOver) := s.newRange { r with size := b.sub r.size size }
      some ((s.setRange id { r with base := address, size := size }).insertRange leftOver)
  else if !memory.1 || !memory.2 then none
  else
    let size₁ := b.sub address r.base
    let (s, leftOver₁) := s.newRange { r with size := size₁ }
    let (s, leftOver₂) := s.newRange
      { r with base := b.add address size, size := b.sub (b.sub r.size size) size₁ }
    some (((s.setRange id { r with base := address, size := size }).insertRange leftOver₁).insertRange
      leftOver₂)

/-- `_AllocateRange()`: the new state with the range, or the error; `none` when the call does not
return. -/
def allocateRange (b : Bounds) (s : State) (restrictions : Restrictions) (size : ℕ)
    (allowReservedRange : Bool) (memory : Bool × Bool) : Option (Except Status (State × ℕ)) :=
  let size := b.roundUp size pageSize
  if restrictions.spec = .other then some (.error .badValue)
  else if restrictions.spec = .exact && restrictions.address % pageSize ≠ 0 then
    some (.error .badValue)
  else
    (searchAlignment b restrictions size).map fun alignment =>
      match findFreeRange b s (searchStart b restrictions) size alignment restrictions.spec
          allowReservedRange with
      | none => .error (if restrictions.spec = .exact then .badValue else .noMemory)
      | some (id, address) =>
        let r := s.ranges id
        match splitRange b s id address size memory with
        | none => .error .noMemory
        | some s => .ok (if r.isFree then s.freeListRemoveRange id r.size else s, id)

/-! ## Freeing -/

def freeRange (b : Bounds) (s : State) (id : ℕ) : State :=
  let r := s.ranges id
  let previous := (s.previousRange id).filter fun p => (s.ranges p).isFree
  let next := (s.nextRange id).filter fun n => (s.ranges n).isFree
  match previous, next with
  | some p, some n =>
    let rp := s.ranges p
    let rn := s.ranges n
    let s := ((s.freeListRemoveRange p rp.size).removeRange id).removeRange n
    let rp := { rp with size := b.add rp.size (b.add r.size rn.size) }
    (s.setRange p rp).freeListInsertRange p rp.size
  | some p, none =>
    let rp := s.ranges p
    let s := (s.freeListRemoveRange p rp.size).removeRange id
    let rp := { rp with size := b.add rp.size r.size }
    (s.setRange p rp).freeListInsertRange p rp.size
  | none, some n =>
    let rn := s.ranges n
    let s := s.removeRange n
    let r := { r with size := b.add r.size rn.size, type := .free }
    (s.setRange id r).freeListInsertRange id r.size
  | none, none => (s.setRange id { r with type := .free }).freeListInsertRange id r.size

end Haiku.AddressSpace
