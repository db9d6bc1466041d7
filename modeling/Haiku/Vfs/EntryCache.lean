import Haiku.Lib.Run
import Mathlib.Data.Fintype.Basic

/-!
# The entry cache of a directory

The entries of the cache are in a hash table, and each of them in the array of one of eight
generations. `Lookup()` moves an entry it finds to the current generation while it holds the lock
for reading only, so that several of them may meet; when the generation is full it gives the lock up
and takes it for writing. `Add()` and `Remove()` hold the lock for writing, which makes each of them
one step; every access of `Lookup()` to what is shared is a step of its own.

An access to memory that is not allocated, a second `free()` and an index outside an array set
`fault`.
-/

namespace Haiku.Vfs

open Function Lib

def kGenerationCount : ℕ := 8
def kEntriesPerGeneration : ℕ := 1024

def kEntryNotInArray : ℤ := -1
def kEntryRemoved : ℤ := -2

abbrev Ino := BitVec 64

/-- An `EntryCacheKey` -/
structure Key where
  dirID : Ino
  name : List (BitVec 8)
deriving DecidableEq

/-- An `EntryCacheEntry`; its key is its directory and its name. -/
structure Entry where
  nodeID : Ino
  key : Key
  generation : ℕ
  index : ℤ

/-- An `EntryCacheGeneration` -/
structure Generation where
  nextIndex : ℕ
  entries : ℕ → Option ℕ

/-- An `EntryCache`, with the memory of its entries by their addresses -/
structure EntryCache where
  fEntries : Key → Option ℕ
  fGenerations : ℕ → Generation
  fCurrentGeneration : ℕ
  heap : ℕ → Option Entry
  fault : Bool

namespace EntryCache

/-- `EntryCache::EntryCache()` and `Init()` -/
def init : EntryCache := ⟨fun _ => none, fun _ => ⟨0, fun _ => none⟩, 0, fun _ => none, false⟩

/-! ## Memory -/

def modify (s : EntryCache) (p : ℕ) (f : Entry → Entry) : EntryCache :=
  match s.heap p with
  | some entry => { s with heap := update s.heap p (some (f entry)) }
  | none => { s with fault := true }

def free (s : EntryCache) (p : ℕ) : EntryCache :=
  match s.heap p with
  | some _ => { s with heap := update s.heap p none }
  | none => { s with fault := true }

def slot (s : EntryCache) (generation index : ℕ) : Option ℕ :=
  (s.fGenerations generation).entries index

def setSlot (s : EntryCache) (generation : ℕ) (index : ℤ) (p : Option ℕ) : EntryCache :=
  if generation < kGenerationCount ∧ 0 ≤ index ∧ index < kEntriesPerGeneration then
    let g := s.fGenerations generation
    let stored := { g with entries := update g.entries index.toNat p }
    { s with fGenerations := update s.fGenerations generation stored }
  else { s with fault := true }

def setNextIndex (s : EntryCache) (generation next : ℕ) : EntryCache :=
  let counted := { s.fGenerations generation with nextIndex := next }
  { s with fGenerations := update s.fGenerations generation counted }

def removeEntry (s : EntryCache) (p : ℕ) : EntryCache :=
  match s.heap p with
  | some _ =>
    { s with fEntries := fun key => if s.fEntries key = some p then none else s.fEntries key }
  | none => { s with fault := true }

/-! ## What is done with the lock held for writing -/

/-- One round of the loop that clears the oldest generation -/
def evict (s : EntryCache) (generation i : ℕ) : EntryCache :=
  match s.slot generation i with
  | none => s
  | some other => ((s.setSlot generation i none).removeEntry other).free other

def addEntryToCurrentGeneration (s : EntryCache) (p : ℕ) : EntryCache :=
  let current := s.fCurrentGeneration
  let index := (s.fGenerations current).nextIndex
  let counted := s.setNextIndex current (index + 1)
  if index < kEntriesPerGeneration then
    (counted.setSlot current index (some p)).modify p fun entry =>
      { entry with generation := current, index := index }
  else
    -- we have to clear the oldest generation
    let newGeneration := (current + 1) % kGenerationCount
    let cleared := (List.range kEntriesPerGeneration).foldl (·.evict newGeneration ·) counted
    let renewed := { cleared with fCurrentGeneration := newGeneration }.setNextIndex newGeneration 1
    (renewed.setSlot newGeneration 0 (some p)).modify p fun entry =>
      { entry with generation := newGeneration, index := 0 }

/-- `EntryCache::Add()`; `memory` is what `malloc()` returns. -/
def add (s : EntryCache) (key : Key) (nodeID : Ino) (memory : Option ℕ) : Option EntryCache :=
  match s.fEntries key with
  | some p =>
    match s.heap p with
    | none => some { s with fault := true }
    | some entry =>
      let set := s.modify p fun entry => { entry with nodeID := nodeID }
      if entry.generation ≠ s.fCurrentGeneration ∧ 0 ≤ entry.index then
        some ((set.setSlot entry.generation entry.index none).addEntryToCurrentGeneration p)
      else some set
  | none =>
    match memory with
    | none => some s
    | some p =>
      if (s.heap p).isSome then none
      else
        let entry : Entry := ⟨nodeID, key, s.fCurrentGeneration, kEntryNotInArray⟩
        some ({ s with
          heap := update s.heap p (some entry)
          fEntries := update s.fEntries key (some p) }.addEntryToCurrentGeneration p)

def remove (s : EntryCache) (key : Key) : EntryCache :=
  match s.fEntries key with
  | none => s
  | some p =>
    match s.heap p with
    | none => { s with fault := true }
    | some entry =>
      let removed := s.removeEntry p
      if 0 ≤ entry.index then (removed.setSlot entry.generation entry.index none).free p
      else removed.modify p fun entry => { entry with index := kEntryRemoved }

end EntryCache

/-! ## The threads -/

/-- What a thread has got from its last `Lookup()` -/
inductive Answer
  | none
  | missing (key : Key)
  | found (key : Key) (nodeID : Ino)

/-- Where a thread is. All places but the first and the last are in `Lookup()` with the lock held
for reading. -/
inductive Phase
  | idle (answer : Answer)
  /-- `fEntries.Lookup()` -/
  | search (key : Key)
  | miss (key : Key)
  /-- `atomic_set(&entry->generation, fCurrentGeneration)` -/
  | exchange (key : Key) (p : ℕ)
  /-- `entry->index < 0`, when the entry was in another generation -/
  | test (key : Key) (p oldGeneration : ℕ)
  /-- `_nodeID = entry->node_id` -/
  | fetch (key : Key) (p : ℕ)
  | hit (key : Key) (nodeID : Ino)
  /-- reads `entry->index` for the array of the old generation -/
  | readIndex (key : Key) (p oldGeneration : ℕ)
  /-- `fGenerations[oldGeneration].entries[...] = NULL` -/
  | clear (key : Key) (p oldGeneration : ℕ) (index : ℤ)
  /-- `entry->index = kEntryNotInArray` -/
  | unindex (key : Key) (p oldGeneration : ℕ)
  /-- `atomic_add(&fGenerations[oldGeneration].next_index, 1)` -/
  | claim (key : Key) (p oldGeneration : ℕ)
  /-- `fGenerations[fCurrentGeneration].entries[index] = entry` -/
  | store (key : Key) (p index : ℕ)
  /-- `entry->index = index` -/
  | setIndex (key : Key) (p index : ℕ)
  /-- `readLocker.Unlock()` -/
  | unlock (key : Key) (p : ℕ)
  /-- waits for the lock, to hold it for writing -/
  | relock (key : Key) (p : ℕ)

def Phase.reads : Phase → Bool
  | .idle _ => false
  | .relock _ _ => false
  | _ => true

/-- The cache, the threads, and what has been added last for each key and not been removed since -/
structure System (T : Type) where
  cache : EntryCache
  threads : T → Phase
  latest : Key → Option Ino

def System.init (T : Type) : System T := ⟨.init, fun _ => .idle .none, fun _ => none⟩

inductive Input
  | lookup (key : Key)
  | add (key : Key) (nodeID : Ino) (memory : Option ℕ)
  | remove (key : Key)
  | go

/-- A step of a `Lookup()` with the lock held for reading -/
def EntryCache.look (s : EntryCache) : Phase → Option (EntryCache × Phase)
  | .search key =>
    match s.fEntries key with
    | none => some (s, .miss key)
    | some p => some (s, .exchange key p)
  | .miss key => some (s, .idle (.missing key))
  | .exchange key p =>
    match s.heap p with
    | none => some ({ s with fault := true }, .idle .none)
    | some entry =>
      some (s.modify p fun entry => { entry with generation := s.fCurrentGeneration },
        if entry.generation = s.fCurrentGeneration then .fetch key p
        else .test key p entry.generation)
  | .test key p oldGeneration =>
    match s.heap p with
    | none => some ({ s with fault := true }, .idle .none)
    | some entry =>
      some (s, if entry.index < 0 then .fetch key p else .readIndex key p oldGeneration)
  | .fetch key p =>
    match s.heap p with
    | none => some ({ s with fault := true }, .idle .none)
    | some entry => some (s, .hit key entry.nodeID)
  | .hit key nodeID => some (s, .idle (.found key nodeID))
  | .readIndex key p oldGeneration =>
    match s.heap p with
    | none => some ({ s with fault := true }, .idle .none)
    | some entry => some (s, .clear key p oldGeneration entry.index)
  | .clear key p oldGeneration index =>
    some (s.setSlot oldGeneration index none, .unindex key p oldGeneration)
  | .unindex key p oldGeneration =>
    some (s.modify p fun entry => { entry with index := kEntryNotInArray },
      .claim key p oldGeneration)
  | .claim key p oldGeneration =>
    -- the place is claimed in the old generation, not in the current one
    let index := (s.fGenerations oldGeneration).nextIndex
    some (s.setNextIndex oldGeneration (index + 1),
      if index < kEntriesPerGeneration then .store key p index else .unlock key p)
  | .store key p index =>
    some (s.setSlot s.fCurrentGeneration index (some p), .setIndex key p index)
  | .setIndex key p index =>
    some (s.modify p fun entry => { entry with index := index }, .fetch key p)
  | .unlock key p => some (s, .relock key p)
  | _ => none

/-- The rest of `Lookup()` with the lock held for writing -/
def EntryCache.finishMove (s : EntryCache) (key : Key) (p : ℕ) : EntryCache × Phase :=
  match s.heap p with
  | none => ({ s with fault := true }, .idle .none)
  | some entry =>
    if entry.index = kEntryRemoved then (s.free p, .idle (.missing key))
    else
      let added := s.addEntryToCurrentGeneration p
      match added.heap p with
      | none => ({ added with fault := true }, .idle .none)
      | some entry => (added, .idle (.found key entry.nodeID))

section

variable {T : Type} [Fintype T]

def System.unread (s : System T) : Bool := ∀ t, (s.threads t).reads = false

def System.act (s : System T) : Phase → Input → Option (EntryCache × Phase)
  | .idle _, .lookup key => some (s.cache, .search key)
  | .idle _, .add key nodeID memory =>
    if s.unread then (s.cache.add key nodeID memory).map (·, .idle .none) else none
  | .idle _, .remove key =>
    if s.unread then some (s.cache.remove key, .idle .none) else none
  | .relock key p, .go => if s.unread then some (s.cache.finishMove key p) else none
  | phase, .go => s.cache.look phase
  | _, _ => none

def Input.record (latest : Key → Option Ino) : Input → Key → Option Ino
  | .add key nodeID _ => update latest key (some nodeID)
  | .remove key => update latest key none
  | _ => latest

variable [DecidableEq T]

def step (s : System T) (a : T × Input) : Option (System T) :=
  (s.act (s.threads a.1) a.2).map fun r =>
    ⟨r.1, update s.threads a.1 r.2, a.2.record s.latest⟩

end

/-!
## Invariants of the entry cache

An entry of the table is in the slot its fields name, unless a thread that moves it is between two
steps: until the old slot is cleared the entry is still there, but its generation is the current one;
from then on it is in no array, and only this thread will put it into one.
-/

/-! ## Where the threads are -/

/-- The entry a thread moves, and the generation whose array it is still in -/
def Phase.source : Phase → Option (ℕ × ℕ)
  | .test _ p oldGeneration => some (p, oldGeneration)
  | .readIndex _ p oldGeneration => some (p, oldGeneration)
  | .clear _ p oldGeneration _ => some (p, oldGeneration)
  | _ => none

/-- The entry a thread has taken out of its array -/
def Phase.loose : Phase → Option ℕ
  | .unindex _ p _ => some p
  | .claim _ p _ => some p
  | .unlock _ p => some p
  | .relock _ p => some p
  | _ => none

/-! ## The cache -/

/-- What holds of the cache, where the threads that move entries still have them in arrays
(`source`) or do not (`loose`) -/
structure EntryCache.Sound (s : EntryCache) (latest : Key → Option Ino) (source : ℕ → ℕ → Prop)
    (loose : ℕ → Prop) : Prop where
  fault : s.fault = false
  current : s.fCurrentGeneration < kGenerationCount
  table : ∀ key p, s.fEntries key = some p →
    ∃ entry, s.heap p = some entry ∧ entry.key = key ∧ latest key = some entry.nodeID
  slots : ∀ g i p, s.slot g i = some p → g < kGenerationCount ∧ i < kEntriesPerGeneration ∧
    ∃ entry, s.heap p = some entry ∧ s.fEntries entry.key = some p ∧ entry.index = i ∧
      (entry.generation = g ∨ source p g)
  once : ∀ g g' i i' p, s.slot g i = some p → s.slot g' i' = some p → g = g'
  placed : ∀ key p entry, s.fEntries key = some p → s.heap p = some entry →
    (0 ≤ entry.index ∧ (s.slot entry.generation entry.index.toNat = some p ∨ ∃ g, source p g)) ∨
      loose p
  full : ∀ g ≠ s.fCurrentGeneration, kEntriesPerGeneration ≤ (s.fGenerations g).nextIndex ∨
    ∀ i, s.slot g i = none
  next : ∀ i, (s.fGenerations s.fCurrentGeneration).nextIndex ≤ i →
    s.slot s.fCurrentGeneration i = none

def EntryCache.At (s : EntryCache) (latest : Key → Option Ino) : Phase → Prop
  | .idle _ | .search _ | .miss _ => True
  | .exchange key p | .fetch key p => s.fEntries key = some p
  | .hit key nodeID => latest key = some nodeID
  | .test key p old => s.fEntries key = some p ∧ old ≠ s.fCurrentGeneration ∧
    ∃ entry, s.heap p = some entry ∧ entry.generation = s.fCurrentGeneration ∧
      (0 ≤ entry.index → kEntriesPerGeneration ≤ (s.fGenerations old).nextIndex ∧
        s.slot old entry.index.toNat = some p)
  | .readIndex key p old => s.fEntries key = some p ∧ old ≠ s.fCurrentGeneration ∧
    kEntriesPerGeneration ≤ (s.fGenerations old).nextIndex ∧
    ∃ entry, s.heap p = some entry ∧ entry.generation = s.fCurrentGeneration ∧
      0 ≤ entry.index ∧ s.slot old entry.index.toNat = some p
  | .clear key p old index => s.fEntries key = some p ∧ old ≠ s.fCurrentGeneration ∧
    kEntriesPerGeneration ≤ (s.fGenerations old).nextIndex ∧
    ∃ entry, s.heap p = some entry ∧ entry.generation = s.fCurrentGeneration ∧
      0 ≤ entry.index ∧ entry.index = index ∧ s.slot old entry.index.toNat = some p
  | .unindex key p old => s.fEntries key = some p ∧ old ≠ s.fCurrentGeneration ∧
    kEntriesPerGeneration ≤ (s.fGenerations old).nextIndex ∧
    (∃ entry, s.heap p = some entry ∧ entry.generation = s.fCurrentGeneration ∧
      0 ≤ entry.index) ∧ ∀ g i, s.slot g i ≠ some p
  | .claim key p old => s.fEntries key = some p ∧ old ≠ s.fCurrentGeneration ∧
    kEntriesPerGeneration ≤ (s.fGenerations old).nextIndex ∧
    ∃ entry, s.heap p = some entry ∧ entry.index = kEntryNotInArray
  | .store .. | .setIndex .. => False
  | .unlock key p => s.fEntries key = some p ∧
    ∃ entry, s.heap p = some entry ∧ entry.index = kEntryNotInArray
  | .relock key p => ∃ entry, s.heap p = some entry ∧ entry.key = key ∧
    ((entry.index = kEntryNotInArray ∧ s.fEntries key = some p) ∨
      (entry.index = kEntryRemoved ∧ ∀ key', s.fEntries key' ≠ some p))

/-- Whether a thread will put the entry `p` into an array -/
def EntryCache.Carries (s : EntryCache) (p : ℕ) : Phase → Prop
  | .test _ q _ => q = p ∧ ∃ entry, s.heap p = some entry ∧ 0 ≤ entry.index
  | .readIndex _ q _ => q = p
  | .clear _ q _ _ => q = p
  | .unindex _ q _ => q = p
  | .claim _ q _ => q = p
  | .unlock _ q => q = p
  | .relock _ q => q = p
  | _ => False

variable {T : Type}

def System.source (s : System T) (p g : ℕ) : Prop := ∃ t, (s.threads t).source = some (p, g)

def System.loose (s : System T) (p : ℕ) : Prop := ∃ t, (s.threads t).loose = some p

structure System.Inv (s : System T) : Prop where
  sound : s.cache.Sound s.latest s.source s.loose
  place : ∀ t, s.cache.At s.latest (s.threads t)
  unique : ∀ t t' p, t ≠ t' → s.cache.Carries p (s.threads t) →
    ¬s.cache.Carries p (s.threads t')

lemma EntryCache.Sound.mono {c : EntryCache} {latest : Key → Option Ino}
    {source source' : ℕ → ℕ → Prop} {loose loose' : ℕ → Prop}
    (h : c.Sound latest source loose) (hsource : ∀ p g, source p g → source' p g)
    (hloose : ∀ p, loose p → loose' p) : c.Sound latest source' loose' := by
  refine ⟨h.fault, h.current, h.table, fun g i p hp => ?_, h.once,
    fun key p entry hkey hp => ?_, h.full, h.next⟩
  · obtain ⟨hg, hi, entry, he, hkey, hindex, hgen⟩ := h.slots g i p hp
    exact ⟨hg, hi, entry, he, hkey, hindex, hgen.imp_right (hsource p g)⟩
  · rcases h.placed key p entry hkey hp with ⟨hpos, hwhere⟩ | hl
    · refine .inl ⟨hpos, hwhere.imp_right ?_⟩
      rintro ⟨g, hg⟩
      exact ⟨g, hsource p g hg⟩
    · exact .inr (hloose p hl)

/-! ## Stores into arrays -/

section

variable {s : EntryCache} {g i : ℕ} {p : Option ℕ}

lemma setSlot_heap (j : ℤ) : (s.setSlot g j p).heap = s.heap := by
  unfold EntryCache.setSlot
  split_ifs <;> rfl

lemma setSlot_entries (j : ℤ) : (s.setSlot g j p).fEntries = s.fEntries := by
  unfold EntryCache.setSlot
  split_ifs <;> rfl

lemma setSlot_current (j : ℤ) : (s.setSlot g j p).fCurrentGeneration = s.fCurrentGeneration := by
  unfold EntryCache.setSlot
  split_ifs <;> rfl

section

variable (hg : g < kGenerationCount) (hi : i < kEntriesPerGeneration)
include hg hi

lemma setSlot_eq : s.setSlot g (i : ℤ) p = { s with
      fGenerations := update s.fGenerations g
        { s.fGenerations g with entries := update (s.fGenerations g).entries i p } } := by
  unfold EntryCache.setSlot
  rw [if_pos ⟨hg, Int.natCast_nonneg i, by exact_mod_cast hi⟩]
  rfl

lemma setSlot_slot (g' i' : ℕ) :
    (s.setSlot g (i : ℤ) p).slot g' i' = if g' = g ∧ i' = i then p else s.slot g' i' := by
  rw [setSlot_eq hg hi]
  unfold EntryCache.slot
  dsimp only
  by_cases he : g' = g
  · subst he
    rw [update_self]
    show update (s.fGenerations g').entries i p i' = _
    by_cases hi' : i' = i
    · rw [if_pos ⟨rfl, hi'⟩, hi', update_self]
    · rw [if_neg (fun h => hi' h.2), update_of_ne hi']
  · rw [update_of_ne he, if_neg (fun h => he h.1)]

lemma setSlot_nextIndex (g' : ℕ) :
    ((s.setSlot g (i : ℤ) p).fGenerations g').nextIndex = (s.fGenerations g').nextIndex := by
  rw [setSlot_eq hg hi]
  dsimp only
  by_cases he : g' = g
  · subst he
    rw [update_self]
  · rw [update_of_ne he]

lemma setSlot_fault : (s.setSlot g (i : ℤ) p).fault = s.fault := by
  rw [setSlot_eq hg hi]

end

lemma setNextIndex_slot (n g' i' : ℕ) : (s.setNextIndex g n).slot g' i' = s.slot g' i' := by
  unfold EntryCache.setNextIndex EntryCache.slot
  dsimp only
  by_cases he : g' = g
  · subst he
    rw [update_self]
  · rw [update_of_ne he]

lemma setNextIndex_nextIndex (n g' : ℕ) : ((s.setNextIndex g n).fGenerations g').nextIndex =
    if g' = g then n else (s.fGenerations g').nextIndex := by
  unfold EntryCache.setNextIndex
  dsimp only
  by_cases he : g' = g
  · subst he
    rw [update_self, if_pos rfl]
  · rw [update_of_ne he, if_neg he]

lemma modify_eq {p : ℕ} {entry : Entry} (h : s.heap p = some entry) (f : Entry → Entry) :
    s.modify p f = { s with heap := update s.heap p (some (f entry)) } := by
  unfold EntryCache.modify
  rw [h]

lemma free_eq {p : ℕ} {entry : Entry} (h : s.heap p = some entry) :
    s.free p = { s with heap := update s.heap p none } := by
  unfold EntryCache.free
  rw [h]

lemma removeEntry_eq {p : ℕ} {entry : Entry} (h : s.heap p = some entry) :
    s.removeEntry p = { s with
      fEntries := fun key => if s.fEntries key = some p then none else s.fEntries key } := by
  unfold EntryCache.removeEntry
  rw [h]

end

end Haiku.Vfs
