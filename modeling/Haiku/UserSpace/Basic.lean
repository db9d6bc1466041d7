import Haiku.AddressSpace.Allocation
import Haiku.Lib.Run

/-!
# User address spaces

The areas of `src/system/kernel/vm/VMUserAddressSpace.cpp`: one list of real and reserved areas. The
pointers `last` and `next` of the searches are the two parts of the list they stand between.
Addresses and sizes are numbers below `2 ^ addressBits`, and arithmetic on them wraps around; a call
that does not return, or follows a `NULL` pointer, is undefined (`none`).
-/

namespace Haiku.UserSpace

open Lib
open AddressSpace (AddressSpec Restrictions pageSize roundDown reservedAvoidBase)

inductive Status where
  | ok
  | badValue
  | badAddress
  | noMemory
  | badTeamId
  | entryNotFound
  | error
  deriving DecidableEq

structure Space where
  addressBits : ℕ
  /-- `fBase` -/
  base : ℕ
  /-- `fEndAddress` -/
  endAddress : ℕ
  /-- `USER_BASE` -/
  userBase : ℕ
  /-- `USER_BASE_ANY` -/
  userBaseAny : ℕ
  page_lt : pageSize < 2 ^ addressBits
  base_le : base ≤ endAddress
  end_lt : endAddress < 2 ^ addressBits

def Space.add (b : Space) (x y : ℕ) : ℕ := (x + y) % 2 ^ b.addressBits

def Space.sub (b : Space) (x y : ℕ) : ℕ := (x + 2 ^ b.addressBits - y) % 2 ^ b.addressBits

def Space.roundUp (b : Space) (x y : ℕ) : ℕ := roundDown (b.sub (b.add x y) 1) y

def Space.isValidSpot (b : Space) (base alignedBase size limit : ℕ) : Bool :=
  alignedBase ≥ base && b.add alignedBase (b.sub size 1) > alignedBase &&
    b.add alignedBase (b.sub size 1) ≤ limit

inductive Kind where
  | area (name : ℕ)
  | reserved (protection cacheOffset : ℕ)
  deriving DecidableEq

def Kind.isReserved : Kind → Bool
  | .area _ => false
  | .reserved .. => true

structure VMUserArea where
  base : ℕ
  size : ℕ
  kind : Kind
  deriving DecidableEq

def Space.lastOf (b : Space) (a : VMUserArea) : ℕ := b.add a.base (b.sub a.size 1)

inductive NewArea where
  | area (name : ℕ)
  | reserved (flags : ℕ)

/-- The area at its place. A reserved area remembers its original base. -/
def NewArea.place (base size : ℕ) : NewArea → VMUserArea
  | .area name => ⟨base, size, .area name⟩
  | .reserved flags => ⟨base, size, .reserved flags base⟩

def NewArea.isReserved : NewArea → Bool
  | .area _ => false
  | .reserved _ => true

/-! ## Reserved regions -/

/-- `_InsertAreaIntoReservedRegion()`: the new list, and by how much the number of references
changes. `memory` tells whether a reserved area can be allocated. -/
def insertAreaIntoReservedRegion (b : Space) (start size : ℕ) (new : NewArea) (memory : Bool) :
    List VMUserArea → Except Status (List VMUserArea × ℤ)
  | [] => .error .entryNotFound
  | next :: rest =>
    if next.base ≤ start ∧ b.lastOf next ≥ b.add start (b.sub size 1) then
      match next.kind with
      | .area _ => .error .badValue
      | .reserved protection cacheOffset =>
        if start = next.base then
          if size = next.size then .ok (new.place start size :: rest, -1)
          else
            .ok (new.place start size ::
              { next with base := b.add next.base size, size := b.sub next.size size } :: rest, 0)
        else if b.add start size = b.add next.base next.size then
          .ok ({ next with size := b.sub start next.base } :: new.place start size :: rest, 0)
        else if !memory then .error .noMemory
        else
          .ok ({ next with size := b.sub start next.base } :: new.place start size ::
            ⟨b.add start size, b.sub (b.sub (b.add next.base next.size) start) size,
              .reserved protection cacheOffset⟩ :: rest, 1)
    else
      match insertAreaIntoReservedRegion b start size new memory rest with
      | .ok r => .ok (next :: r.1, r.2)
      | .error status => .error status

/-! ## Searching a slot -/

/-- The walk of the case `B_ANY_ADDRESS` from `last` on: the areas behind it, with the new one in the
first hole that is large enough. -/
def anyHole (b : Space) (size alignment limit : ℕ) (new : NewArea) (last : VMUserArea) :
    List VMUserArea → Option (List VMUserArea)
  | [] =>
    let alignedBase := b.roundUp (b.add last.base last.size) alignment
    if b.isValidSpot (b.lastOf last) alignedBase size limit then some [new.place alignedBase size]
    else none
  | next :: rest =>
    let alignedBase := b.roundUp (b.add last.base last.size) alignment
    if b.isValidSpot (b.lastOf last) alignedBase size next.base then
      some (new.place alignedBase size :: next :: rest)
    else (anyHole b size alignment limit new next rest).map (next :: ·)

/-- The part of the case `B_ANY_ADDRESS` that looks into reserved areas. -/
def anyReserved (b : Space) (size alignment : ℕ) (new : NewArea) :
    List VMUserArea → Option (List VMUserArea)
  | [] => none
  | next :: rest =>
    match next.kind with
    | .area _ => (anyReserved b size alignment new rest).map (next :: ·)
    | .reserved protection _ =>
      let alignedBase := b.roundUp next.base alignment
      if next.base = alignedBase ∧ next.size = size then
        -- the reserved area is entirely covered, and thus removed
        some (new.place alignedBase size :: rest)
      else if protection &&& reservedAvoidBase = 0 ∧ alignedBase = next.base ∧ next.size ≥ size then
        some (new.place alignedBase size ::
          { next with base := b.add next.base size, size := b.sub next.size size } :: rest)
      else if b.isValidSpot next.base alignedBase size (b.lastOf next) then
        -- the new area is placed at the end of the reserved area
        let alignedBase := roundDown (b.sub (b.add next.base next.size) size) alignment
        some ({ next with size := b.sub alignedBase next.base } :: new.place alignedBase size :: rest)
      else (anyReserved b size alignment new rest).map (next :: ·)

/-- The areas up to the spot where the search starts. -/
def upTo (b : Space) (start size : ℕ) (areas : List VMUserArea) : List VMUserArea :=
  areas.takeWhile fun next => !(next.base > b.add start (b.sub size 1))

/-- The areas behind the spot where the search starts. -/
def behind (b : Space) (start size : ℕ) (areas : List VMUserArea) : List VMUserArea :=
  areas.dropWhile fun next => !(next.base > b.add start (b.sub size 1))

/-- The holes of the case `B_ANY_ADDRESS`; undefined when there is no area to start behind. -/
def anySlot (b : Space) (start size alignment limit : ℕ) (new : NewArea)
    (areas : List VMUserArea) : Option (Option (List VMUserArea)) :=
  let before := upTo b start size areas
  let after := behind b start size areas
  match before.getLast? with
  | some last => some ((anyHole b size alignment limit new last after).map (before ++ ·))
  | none =>
    let alignedBase := b.roundUp b.base alignment
    let end_ :=
      match after with
      | [] => limit
      | next :: _ => next.base
    if b.isValidSpot b.base alignedBase size end_ then
      some (some (new.place alignedBase size :: after))
    else
      match after with
      | [] => none
      | last :: rest => some ((anyHole b size alignment limit new last rest).map (last :: ·))

/-- The walk of the case `B_BASE_ADDRESS` from `last` on. -/
def baseHole (b : Space) (start size limit : ℕ) (new : NewArea) (last : VMUserArea) :
    List VMUserArea → Option (List VMUserArea)
  | [] =>
    let lastEnd := b.lastOf last
    if b.sub limit lastEnd ≥ size then
      some [new.place (if lastEnd < start then start else b.add lastEnd 1) size]
    else none
  | next :: rest =>
    let lastEnd := b.lastOf last
    if b.sub next.base (b.add last.base last.size) ≥ size then
      some (new.place (if lastEnd < start then start else b.add lastEnd 1) size :: next :: rest)
    else (baseHole b start size limit new next rest).map (next :: ·)

/-- The holes of the case `B_BASE_ADDRESS`. -/
def baseSlot (b : Space) (start size limit : ℕ) (new : NewArea) (areas : List VMUserArea) :
    Option (Option (List VMUserArea)) :=
  let before := upTo b start size areas
  let after := behind b start size areas
  match before.getLast? with
  | some last => some ((baseHole b start size limit new last after).map (before ++ ·))
  | none =>
    if after.head?.all fun next => next.base > b.add start (b.sub size 1) then
      some (some (new.place start size :: after))
    else
      match after with
      | [] => none
      | last :: rest => some ((baseHole b start size limit new last rest).map (last :: ·))

/-- The case `B_EXACT_ADDRESS`. -/
def exactSlot (b : Space) (start size : ℕ) (new : NewArea) (areas : List VMUserArea) :
    Option (List VMUserArea) :=
  let before := upTo b start size areas
  let after := behind b start size areas
  if before.getLast?.all (fun last => b.lastOf last < start) &&
      after.head?.all fun next => next.base > b.add start (b.sub size 1) then
    some (before ++ new.place start size :: after)
  else none

/-- The case `B_ANY_ADDRESS` and its variants. -/
def findAny (b : Space) (start size alignment limit : ℕ) (new : NewArea)
    (areas : List VMUserArea) : Option (Except Status (List VMUserArea)) :=
  (anySlot b start size alignment limit new areas).map fun
    | some areas => .ok areas
    | none =>
      match if new.isReserved then none else anyReserved b size alignment new areas with
      | some areas => .ok areas
      | none => .error .noMemory

/-- The loop that aligns a block to the next power of two of its size; undefined when it does not
come to an end. -/
def blockAlignment (b : Space) (size : ℕ) : ℕ → ℕ → Option ℕ
  | 0, alignment => if alignment < size then none else some alignment
  | rounds + 1, alignment =>
    if alignment < size then blockAlignment b size rounds (b.add alignment alignment)
    else some alignment

def slotAlignment (b : Space) (spec : AddressSpec) (alignment size : ℕ) : Option ℕ :=
  let alignment := if alignment = 0 then pageSize else alignment
  match spec with
  | .anyKernelBlock => blockAlignment b size b.addressBits alignment
  | _ => some alignment

def findSlot (b : Space) (start size alignment limit : ℕ) (spec : AddressSpec) (new : NewArea)
    (areas : List VMUserArea) : Option (Except Status (List VMUserArea)) :=
  match spec with
  | .any | .anyKernel | .anyKernelBlock => findAny b start size alignment limit new areas
  | .base =>
    (baseSlot b start size limit new areas).bind fun
      | some areas => some (.ok areas)
      -- try again without any restrictions
      | none => findAny b b.base size alignment limit new areas
  | .exact =>
    match exactSlot b start size new areas with
    | some areas => some (.ok areas)
    | none => some (.error .badValue)
  | .other => some (.error .badValue)

/-- The sanity checks of `_InsertAreaSlot()`. -/
def Space.sane (b : Space) (start size limit : ℕ) : Bool :=
  !(start < b.base || size = 0 || limit > b.endAddress || b.add start (b.sub size 1) > limit)

/-- `_InsertAreaSlot()`: the new list, and by how much the number of references changes. -/
def insertAreaSlot (b : Space) (start size limit : ℕ) (spec : AddressSpec) (alignment : ℕ)
    (new : NewArea) (memory : Bool) (areas : List VMUserArea) :
    Option (Except Status (List VMUserArea × ℤ)) :=
  if !b.sane start size limit then some (.error .badAddress)
  else
    match if spec = .exact ∧ new.isReserved = false then
        insertAreaIntoReservedRegion b start size new memory areas
      else .error .entryNotFound with
    | .ok r => some (.ok r)
    | .error .badValue => some (.error .badValue)
    | .error _ =>
      (slotAlignment b spec alignment size).bind fun alignment =>
        (findSlot b (b.roundUp start alignment) size alignment limit spec new areas).map fun
          | .ok areas => .ok (areas, 0)
          | .error status => .error status

/-! ## Areas -/

structure State where
  /-- `fAreas` -/
  areas : List VMUserArea
  /-- `fFreeSpace` -/
  freeSpace : ℕ
  /-- the references taken with `Get()` for reservations, less those returned with `Put()` -/
  references : ℤ
  /-- `fDeleting` -/
  deleting : Bool

/-- A new address space. -/
def State.init (b : Space) : State := ⟨[], b.endAddress - b.base + 1, 0, false⟩

/-- Where to search, for an address specification. -/
def searchRange (b : Space) (size : ℕ) (restrictions : Restrictions) : Option (ℕ × ℕ) :=
  match restrictions.spec with
  | .exact => some (restrictions.address, b.add restrictions.address (b.sub size 1))
  | .base => some (restrictions.address, b.endAddress)
  | .any | .anyKernel | .anyKernelBlock =>
    some (if b.base = b.userBase then b.userBaseAny else b.base, b.endAddress)
  | .other => none

def insertArea (b : Space) (s : State) (new : NewArea) (size : ℕ) (restrictions : Restrictions)
    (memory : Bool) : Option (State × Status) :=
  match searchRange b size restrictions with
  | none => some (s, .badValue)
  | some (start, limit) =>
    (insertAreaSlot b start size limit restrictions.spec restrictions.alignment new memory
      s.areas).map fun
      | .error status => (s, status)
      | .ok r =>
        ({ s with
            areas      := r.1
            freeSpace  := b.sub s.freeSpace size
            references := s.references + r.2 }, .ok)

/-- The areas before an area, the area, and the areas behind it. -/
def locate (name : ℕ) : List VMUserArea → Option (List VMUserArea × VMUserArea × List VMUserArea)
  | [] => none
  | a :: rest =>
    if a.kind = .area name then some ([], a, rest)
    else (locate name rest).map fun r => (a :: r.1, r.2)

def canResizeArea (b : Space) (a : VMUserArea) (next : Option VMUserArea) (newSize : ℕ) :
    Option Bool :=
  let newEnd := b.add a.base (b.sub newSize 1)
  match next with
  | none => if b.endAddress ≥ newEnd then some true else none
  | some next =>
    if next.base > newEnd then some true
    else
      match next.kind with
      | .reserved _ cacheOffset => some (cacheOffset ≤ a.base && b.lastOf next ≥ newEnd)
      | .area _ => some false

def shrinkAreaHead (b : Space) (a : VMUserArea) (size : ℕ) : VMUserArea :=
  if size = a.size then a else { a with base := b.sub (b.add a.base a.size) size, size := size }

def shrinkAreaTail (a : VMUserArea) (size : ℕ) : VMUserArea :=
  if size = a.size then a else { a with size := size }

/-- `VMUserAddressSpace::ResizeArea()`: the area and those behind it. -/
def resizeArea (b : Space) (a : VMUserArea) (newSize : ℕ) (rest : List VMUserArea) :
    Except Status (List VMUserArea) :=
  let newEnd := b.add a.base (b.sub newSize 1)
  match rest with
  | [] => .ok [{ a with size := newSize }]
  | next :: rest =>
    if next.base ≤ newEnd then
      match next.kind with
      | .area _ => .error .error
      | .reserved _ cacheOffset =>
        if cacheOffset > a.base ∨ b.lastOf next < newEnd then .error .error
        else
          -- resize the reserved area
          let offset := b.sub (b.add a.base newSize) next.base
          if next.size ≤ offset then .ok ({ a with size := newSize } :: rest)
          else .ok ({ a with size := newSize } ::
            shrinkAreaHead b next (b.sub next.size offset) :: rest)
    else .ok ({ a with size := newSize } :: next :: rest)

/-! ## Reservations -/

/-- The loop of `UnreserveAddressRange()`: the areas that are left, and the number of references that
are returned. -/
def unreserveLoop (b : Space) (address endAddress : ℕ) : List VMUserArea → List VMUserArea × ℕ
  | [] => ([], 0)
  | a :: rest =>
    -- the area must be completely part of the reserved range
    if b.lastOf a > endAddress then (a :: rest, 0)
    else
      let r := unreserveLoop b address endAddress rest
      if a.kind.isReserved ∧ a.base ≥ address then (r.1, r.2 + 1) else (a :: r.1, r.2)

/-! ## Calls -/

inductive Call where
  | insertArea (name size : ℕ) (restrictions : Restrictions) (memory : Bool)
  | removeArea (name : ℕ)
  | resizeArea (name newSize : ℕ)
  | shrinkAreaHead (name size : ℕ)
  | shrinkAreaTail (name size : ℕ)
  | reserveAddressRange (size : ℕ) (restrictions : Restrictions) (flags : ℕ) (memory : Bool)
  | unreserveAddressRange (address size : ℕ)
  | unreserveAllAddressRanges
  /-- `fDeleting` is set -/
  | markDeleting

/-- One call with its result. Areas are inserted once, and only used while they are in the address
space. -/
def exec (b : Space) (s : State) : Call → Option (State × Status)
  | .insertArea name size restrictions memory =>
    if (locate name s.areas).isNone ∧ 0 < size ∧ size < 2 ^ b.addressBits ∧
        restrictions.address < 2 ^ b.addressBits ∧ restrictions.alignment < 2 ^ b.addressBits then
      insertArea b s (.area name) size restrictions memory
    else none
  | .removeArea name =>
    (locate name s.areas).map fun r =>
      ({ s with
          areas     := r.1 ++ r.2.2
          freeSpace := b.add s.freeSpace r.2.1.size }, .ok)
  | .resizeArea name newSize =>
    (locate name s.areas).bind fun r =>
      if newSize < 2 ^ b.addressBits then
        match resizeArea b r.2.1 newSize r.2.2 with
        | .ok rest => some ({ s with areas := r.1 ++ rest }, .ok)
        | .error status => some (s, status)
      else none
  | .shrinkAreaHead name size =>
    (locate name s.areas).bind fun r =>
      if size < 2 ^ b.addressBits then
        some ({ s with areas := r.1 ++ shrinkAreaHead b r.2.1 size :: r.2.2 }, .ok)
      else none
  | .shrinkAreaTail name size =>
    (locate name s.areas).bind fun r =>
      if size < 2 ^ b.addressBits then
        some ({ s with areas := r.1 ++ shrinkAreaTail r.2.1 size :: r.2.2 }, .ok)
      else none
  | .reserveAddressRange size restrictions flags memory =>
    if 0 < size ∧ size < 2 ^ b.addressBits ∧ restrictions.address < 2 ^ b.addressBits ∧
        restrictions.alignment < 2 ^ b.addressBits then
      if s.deleting then some (s, .badTeamId)
      else if !memory then some (s, .noMemory)
      else
        (insertArea b s (.reserved flags) size restrictions memory).map fun r =>
          if r.2 = .ok then ({ r.1 with references := r.1.references + 1 }, .ok) else r
    else none
  | .unreserveAddressRange address size =>
    if address < 2 ^ b.addressBits ∧ size < 2 ^ b.addressBits then
      if s.deleting then some (s, .badTeamId)
      else
        let r := unreserveLoop b address (b.add address (b.sub size 1)) s.areas
        some ({ s with areas := r.1, references := s.references - r.2 }, .ok)
    else none
  | .unreserveAllAddressRanges =>
    some ({ s with
      areas      := s.areas.filter fun a => !a.kind.isReserved
      references := s.references - s.areas.countP fun a => a.kind.isReserved }, .ok)
  | .markDeleting => some ({ s with deleting := true }, .ok)

def step (b : Space) (s : State) (c : Call) : Option State := (exec b s c).map Prod.fst

end Haiku.UserSpace
