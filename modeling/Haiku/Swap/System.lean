import Haiku.Swap.Blocks
import Haiku.Lib.Run

/-!
# Merging a cache with its consumer

`VMAnonymousCache::Merge()` of `src/system/kernel/vm/VMAnonymousCache.cpp`: the consumer takes
over the pages and swap slots of its source that it does not shadow.
-/

namespace Haiku.Swap

open Lib

variable {P : Type}

/-- The numbers of the blocks in the range of a cache. -/
def blocksOf (c : AnonymousCache P) : List ℕ :=
  let bytes := pageSize * blockPages
  let first := c.virtualBase / bytes
  (List.range ((c.virtualEnd + (bytes - 1)) / bytes - first)).map (first + ·)

def pageOf (block : ℕ) (i : Fin blockPages) : ℕ := block * blockPages + i

/-- Removes the source page at an index, if there is one. It must not be busy. -/
def removeShadowed (c : AnonymousCache P) (index : ℕ) : Option (AnonymousCache P) :=
  match c.lookupPage index with
  | none => some c
  | some page => if page.busy then none else some (c.removePage index)

def slotsOf (b : Option SwapBlock) (i : Fin blockPages) : Option ℕ := b.bind (·.slots i)

/-- One round of the loop over a source block in `_MergeSwapPages()`: the source slot is freed if
the consumer already has a page or a swapped out page there. -/
def mergeSlot (block : ℕ) (consumer : AnonymousCache P) (b : Option SwapBlock)
    (x : State P × AnonymousCache P × SwapBlock) (i : Fin blockPages) :
    Option (State P × AnonymousCache P × SwapBlock) :=
  let (s, source, sb) := x
  match sb.slots i with
  | none => some x
  | some slot =>
    let source := { source with allocatedSwapSize := source.allocatedSwapSize - pageSize }
    if (slotsOf b i).isSome ∨ (consumer.lookupPage (pageOf block i)).isSome then do
      let s ← swapSlotDealloc s slot 1
      some (s, source, { used := sb.used - 1, slots := Function.update sb.slots i none })
    else some (s, source, sb)

/-- One round of `_MergeSwapPages()`. When both caches have a block, the slots are copied, and
`used` of the consumer's block stays as it is. -/
def mergeBlock (consumerId sourceId : ℕ) (x : State P × AnonymousCache P × AnonymousCache P)
    (block : ℕ) : Option (State P × AnonymousCache P × AnonymousCache P) := do
  let (s, consumer, source) := x
  let sourceBlock := s.blocks.lookup (sourceId, block)
  let s := { s with blocks := s.blocks.erase (sourceId, block) }
  let b := s.blocks.lookup (consumerId, block)
  let source ← ((List.finRange blockPages).filter fun i => (slotsOf b i).isSome).foldlM
    (fun source i => removeShadowed source (pageOf block i)) source
  match sourceBlock with
  | none => some (s, consumer, source)
  | some sb =>
    let (s, source, sb) ← (List.finRange blockPages).foldlM (mergeSlot block consumer b)
      (s, source, sb)
    let consumer :=
      { consumer with allocatedSwapSize := consumer.allocatedSwapSize + pageSize * sb.used.toNat }
    if sb.used = 0 then some (s, consumer, source)
    else
      let b' :=
        match b with
        | none => sb
        | some b => { b with slots := fun i => if (sb.slots i).isSome then sb.slots i else b.slots i }
      some ({ s with blocks := s.blocks.insert (consumerId, block) b' }, consumer, source)

def mergeSwapPages (consumerId sourceId : ℕ) (s : State P) (consumer source : AnonymousCache P) :
    Option (State P × AnonymousCache P × AnonymousCache P) :=
  if source.allocatedSwapSize = 0 ∧ consumer.allocatedSwapSize = 0 then
    some (s, consumer, source)
  else (blocksOf source).foldlM (mergeBlock consumerId sourceId) (s, consumer, source)

/-- `_MergePagesSmallerSource()`: the source pages that are not shadowed move to the consumer. -/
def mergePagesSmallerSource (consumer source : AnonymousCache P) :
    AnonymousCache P × AnonymousCache P :=
  source.pages.entries.foldl
    (fun x e =>
      match x.1.lookupPage e.1 with
      | none => (x.1.insertPage e.1 e.2, x.2.removePage e.1)
      | some _ => x)
    (consumer, source)

/-- `_MergePagesSmallerConsumer()`: the consumer pages move to the source, where they replace the
shadowed ones, and then all pages of the source move back. -/
def mergePagesSmallerConsumer (consumer source : AnonymousCache P) :
    AnonymousCache P × AnonymousCache P :=
  let (consumer, source) := consumer.pages.entries.foldl
    (fun x e => (x.1.removePage e.1, (x.2.removePage e.1).insertPage e.1 e.2)) (consumer, source)
  ({ consumer with pages := source.pages }, { source with pages := consumer.pages })

/-- The last part of `Merge()`, for either of the two ways. -/
def mergePages (smallerSource : Bool) (consumer source : AnonymousCache P) :
    AnonymousCache P × AnonymousCache P :=
  if smallerSource then mergePagesSmallerSource consumer source
  else mergePagesSmallerConsumer consumer source

/-- `Merge()` up to the commitment: the consumer takes over what the source has committed. -/
def mergeCommitments (s : State P) (consumer source : AnonymousCache P) :
    State P × AnonymousCache P × AnonymousCache P :=
  let consumer :=
    { consumer with
      committedSwapSize := consumer.committedSwapSize + source.committedSwapSize
      committedSize := consumer.committedSize + source.committedSize }
  let source := { source with committedSwapSize := 0, committedSize := 0 }
  let actualSize : ℤ := consumer.virtualEnd - consumer.virtualBase
  if consumer.committedSize > actualSize then
    let (s, consumer, _) := commitSpace s consumer actualSize false
    (s, consumer, source)
  else (s, consumer, source)

def merge (s : State P) (consumerId sourceId : ℕ) : Option (State P) := do
  let consumer ← s.caches.lookup consumerId
  let source ← s.caches.lookup sourceId
  let (s, consumer, source) := mergeCommitments s consumer source
  let (s, consumer, source) ← mergeSwapPages consumerId sourceId s consumer source
  let (consumer, source) :=
    mergePages (source.pageCount < consumer.pageCount) consumer source
  some ((s.setCache sourceId source).setCache consumerId consumer)

/-!
## The swap subsystem as a transition system

`step` runs one call. A write of a page that takes time is two steps, `writeAsync` and
`ioFinished`. The last calls stand for the rest of the virtual memory system, which creates
caches and puts pages into them.
-/

inductive Call (P : Type) where
  /-- `swap_file_add()` -/
  | fileAdd (vnode size : ℕ)
  /-- `swap_file_delete()` -/
  | fileDelete (vnode : ℕ)
  /-- `VMAnonymousCache::Commit()` -/
  | commit (id size : ℕ) (memory : Bool)
  /-- `VMAnonymousCache::Fault()` -/
  | fault (id offset : ℕ) (memory : Bool)
  /-- `VMAnonymousCache::Merge()` -/
  | merge (consumer source : ℕ)
  /-- `VMAnonymousCache::Resize()` -/
  | resize (id newSize : ℕ) (memory : Bool)
  /-- `VMAnonymousCache::Write()`, the vectors by their numbers of pages -/
  | write (id pageIndex : ℕ) (vecs : List ℕ) (answers : List WriteAnswer)
  /-- `VMAnonymousCache::WriteAsync()` -/
  | writeAsync (id pageIndex slot : ℕ) (memory : Bool)
  /-- `WriteCallback::IOFinished()` -/
  | ioFinished (w : PendingWrite) (ok : Bool)
  /-- `swap_free_page_swap_space()` -/
  | freePageSwapSpace (id pageIndex : ℕ)
  /-- `~VMAnonymousCache()` -/
  | destroy (id : ℕ)
  /-- a new cache, after `Init()` -/
  | create (id : ℕ) (canOvercommit : Bool) (precommittedPages guardPages base size : ℕ)
  /-- a page is put into a cache, changed, or made busy -/
  | insertPage (id index : ℕ) (page : Page P)
  /-- a page is removed from a cache -/
  | removePage (id index : ℕ)

/-- `Init()` -/
def newCache (P : Type) (canOvercommit : Bool) (precommittedPages guardPages base size : ℕ) :
    AnonymousCache P where
  virtualBase := base
  virtualEnd := base + size
  committedSize := 0
  committedSwapSize := 0
  allocatedSwapSize := 0
  canOvercommit := canOvercommit
  hasPrecommitted := false
  precommittedPages := min precommittedPages 255
  guardedSize := guardPages * pageSize
  pages := ∅

/-- Runs a function on a cache and stores the cache again. -/
def onCache (s : State P) (id : ℕ)
    (f : AnonymousCache P → State P × AnonymousCache P × Status) : Option (State P) :=
  (s.caches.lookup id).map fun c => (f c).1.setCache id (f c).2.1

/-- One call. -/
def step (s : State P) : Call P → Option (State P)
  | .fileAdd vnode size => some (swapFileAdd s vnode size).1
  | .fileDelete vnode => some (swapFileDelete s vnode).1
  | .commit id size memory => onCache s id fun c => commit s c size memory
  | .fault id offset memory => onCache s id fun c =>
    let missing := (c.lookupPage (offset / pageSize)).isNone ∧
      (getAddress s id (offset / pageSize)).isNone
    fault s c offset missing memory
  | .merge consumer source => if consumer = source then none else merge s consumer source
  | .resize id newSize memory => (resize s id newSize memory).map Prod.fst
  | .write id pageIndex vecs answers => (write s id pageIndex vecs answers).map Prod.fst
  | .writeAsync id pageIndex slot memory => (writeAsync s id pageIndex slot memory).map Prod.fst
  | .ioFinished w ok => ioFinished s w ok
  | .freePageSwapSpace id pageIndex => swapFreePageSwapSpace s id pageIndex
  | .destroy id => destroy s id
  | .create id canOvercommit precommittedPages guardPages base size =>
    if (s.caches.lookup id).isSome then none
    else some (s.setCache id
      (newCache P canOvercommit precommittedPages guardPages base size))
  | .insertPage id index page => onCache s id fun c =>
    (s, (c.removePage index).insertPage index page, .ok)
  | .removePage id index => onCache s id fun c => (s, c.removePage index, .ok)

end Haiku.Swap
