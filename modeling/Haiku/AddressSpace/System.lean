import Haiku.AddressSpace.Allocation
import Haiku.Lib.Run

/-!
# The kernel address space as a transition system

The operations on areas and reservations of
`src/system/kernel/vm/VMKernelAddressSpace.cpp`. A step is one call; areas are named by numbers.
-/

namespace Haiku.AddressSpace

open Lib

/-! ## Areas -/

def insertArea (b : Bounds) (s : State) (area size : ℕ) (restrictions : Restrictions)
    (memory : Bool × Bool) : Option (State × Status) :=
  (allocateRange b s restrictions size (restrictions.spec = .exact) memory).map fun
    | .error status => (s, status)
    | .ok (s, id) =>
      ({ s.setRange id { s.ranges id with type := .area area } with
          areas := Function.update s.areas area (some id) }, .ok)

def removeArea (b : Bounds) (s : State) (area id : ℕ) : State :=
  { freeRange b s id with areas := Function.update s.areas area none }

/-- A range that does not belong to the given one, and may not be taken by it. -/
def Range.isReservedBehind (r : Range) (base : ℕ) : Bool :=
  match r.type with
  | .reserved reservedBase _ => reservedBase > base
  | _ => false

def canResizeArea (b : Bounds) (s : State) (id newSize : ℕ) : Bool :=
  let r := s.ranges id
  if newSize ≤ r.size then true
  else
    match s.nextRange id with
    | none => false
    | some n =>
      let rn := s.ranges n
      match rn.type with
      | .area _ => false
      | _ =>
        if rn.isReservedBehind r.base then false else b.sub newSize r.size ≤ rn.size

/-- The branch of `ResizeArea()` for a smaller size. -/
def shrinkTail (b : Bounds) (s : State) (id newSize : ℕ) (memory : Bool) : State × Status :=
  let r := s.ranges id
  match (s.nextRange id).filter fun n => (s.ranges n).isFree with
  | some n =>
    let rn := s.ranges n
    let s := s.freeListRemoveRange n rn.size
    let rn := { rn with size := b.add rn.size (b.sub r.size newSize), base := b.add r.base newSize }
    (((s.setRange n rn).freeListInsertRange n rn.size).setRange id { r with size := newSize }, .ok)
  | none =>
    if !memory then (s, .noMemory)
    else
      let (s, n) := s.newRange ⟨b.add r.base newSize, b.sub r.size newSize, .free⟩
      ((s.insertRange n).setRange id { r with size := newSize }, .ok)

/-- The branch of `ResizeArea()` for a larger size. -/
def growTail (b : Bounds) (s : State) (id newSize : ℕ) : State × Status :=
  let r := s.ranges id
  match s.nextRange id with
  | none => (s, .badValue)
  | some n =>
    let rn := s.ranges n
    let sizeDiff := b.sub newSize r.size
    if rn.isReservedBehind r.base then (s, .badValue)
    else if sizeDiff > rn.size then (s, .badValue)
    else if sizeDiff = rn.size then ((s.removeRange n).setRange id { r with size := newSize }, .ok)
    else
      let rn' := { rn with size := b.sub rn.size sizeDiff, base := b.add r.base newSize }
      let s := if rn.isFree then s.freeListRemoveRange n rn.size else s
      let s := s.setRange n rn'
      let s := if rn.isFree then s.freeListInsertRange n rn'.size else s
      (s.setRange id { r with size := newSize }, .ok)

/-- `VMKernelAddressSpace::ResizeArea()`, and `ShrinkAreaTail()`, which only calls it. -/
def resizeArea (b : Bounds) (s : State) (id newSize : ℕ) (memory : Bool) : State × Status :=
  let r := s.ranges id
  if newSize = r.size then (s, .ok)
  else if newSize < r.size then shrinkTail b s id newSize memory
  else growTail b s id newSize

def shrinkAreaHead (b : Bounds) (s : State) (id newSize : ℕ) (memory : Bool) : State × Status :=
  let r := s.ranges id
  if newSize = r.size then (s, .ok)
  else if newSize > r.size then (s, .badValue)
  else
    let sizeDiff := b.sub r.size newSize
    let r' := { r with base := b.add r.base sizeDiff, size := newSize }
    match (s.previousRange id).filter fun p => (s.ranges p).isFree with
    | some p =>
      let rp := s.ranges p
      let s := s.freeListRemoveRange p rp.size
      let rp := { rp with size := b.add rp.size sizeDiff }
      (((s.setRange p rp).freeListInsertRange p rp.size).setRange id r', .ok)
    | none =>
      if !memory then (s, .noMemory)
      else
        let (s, p) := s.newRange ⟨r.base, sizeDiff, .free⟩
        ((s.setRange id r').insertRange p, .ok)

/-! ## Reservations -/

def reserveAddressRange (b : Bounds) (s : State) (size : ℕ) (restrictions : Restrictions)
    (flags : ℕ) (memory : Bool × Bool) : Option (State × Status) :=
  if s.deleting then some (s, .badTeamId)
  else
    (allocateRange b s restrictions size false memory).map fun
      | .error status => (s, status)
      | .ok (s, id) =>
        let r := s.ranges id
        (s.setRange id { r with type := .reserved r.base flags }, .ok)

/-- The next range in the list that is not free. -/
def State.nextUsed (s : State) (id : ℕ) : Option ℕ :=
  (s.list.dropWhile (· ≠ id)).tail.find? fun n => !(s.ranges n).isFree

/-- The loop that frees the reserved ranges from the given one on, as long as they end at most at
the given address. -/
def unreserveFrom (b : Bounds) (limit : Option ℕ) : ℕ → State → Option ℕ → State
  | 0, s, _ => s
  | _, s, none => s
  | rounds + 1, s, some id =>
    let r := s.ranges id
    if limit.all (b.lastOf r ≤ ·) then
      let next := s.nextUsed id
      let s :=
        match r.type with
        | .reserved .. => freeRange b s id
        | _ => s
      unreserveFrom b limit rounds s next
    else s

def unreserveAddressRange (b : Bounds) (s : State) (address size : ℕ) : State × Status :=
  if s.deleting then (s, .badTeamId)
  else
    let endAddress := b.add address (b.sub size 1)
    (unreserveFrom b (some endAddress) s.list.length s (s.findClosest address false), .ok)

def unreserveAllAddressRanges (b : Bounds) (s : State) : State :=
  unreserveFrom b none s.list.length s s.list.head?

/-! ## Calls -/

inductive Call where
  | insertArea (area size : ℕ) (restrictions : Restrictions) (memory : Bool × Bool)
  | removeArea (area : ℕ)
  /-- `ResizeArea()`, after `CanResizeArea()` allowed it -/
  | resizeArea (area newSize : ℕ) (memory : Bool)
  | shrinkAreaHead (area newSize : ℕ) (memory : Bool)
  | shrinkAreaTail (area newSize : ℕ) (memory : Bool)
  | reserveAddressRange (size : ℕ) (restrictions : Restrictions) (flags : ℕ) (memory : Bool × Bool)
  | unreserveAddressRange (address size : ℕ)
  | unreserveAllAddressRanges
  /-- `fDeleting` is set -/
  | markDeleting

/-- One call with its result. Areas are inserted once, and only used while they are in the address
space; sizes are multiples of the page size. -/
def exec (b : Bounds) (s : State) : Call → Option (State × Status)
  | .insertArea area size restrictions memory =>
    if s.areas area = none ∧ pageSize ∣ size ∧ size < 2 ^ b.addressBits ∧
        restrictions.address < 2 ^ b.addressBits ∧ restrictions.alignment < 2 ^ b.addressBits then
      insertArea b s area size restrictions memory
    else none
  | .removeArea area => (s.areas area).map fun id => (removeArea b s area id, .ok)
  | .resizeArea area newSize memory =>
    (s.areas area).bind fun id =>
      if pageSize ∣ newSize ∧ 0 < newSize ∧ newSize < 2 ^ b.addressBits ∧
          canResizeArea b s id newSize then
        some (resizeArea b s id newSize memory)
      else none
  | .shrinkAreaHead area newSize memory =>
    (s.areas area).bind fun id =>
      if pageSize ∣ newSize ∧ newSize < 2 ^ b.addressBits then
        some (shrinkAreaHead b s id newSize memory)
      else none
  | .shrinkAreaTail area newSize memory =>
    (s.areas area).bind fun id =>
      if pageSize ∣ newSize ∧ newSize < 2 ^ b.addressBits then
        some (resizeArea b s id newSize memory)
      else none
  | .reserveAddressRange size restrictions flags memory =>
    if pageSize ∣ size ∧ size < 2 ^ b.addressBits ∧ restrictions.address < 2 ^ b.addressBits ∧
        restrictions.alignment < 2 ^ b.addressBits then
      reserveAddressRange b s size restrictions flags memory
    else none
  | .unreserveAddressRange address size =>
    if pageSize ∣ size ∧ size < 2 ^ b.addressBits ∧ address < 2 ^ b.addressBits then
      some (unreserveAddressRange b s address size)
    else none
  | .unreserveAllAddressRanges => some (unreserveAllAddressRanges b s, .ok)
  | .markDeleting => some ({ s with deleting := true }, .ok)

def step (b : Bounds) (s : State) (c : Call) : Option State := (exec b s c).map Prod.fst

end Haiku.AddressSpace
