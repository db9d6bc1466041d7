import Haiku.Lib.Tally

/-!
# Object depots

`src/system/kernel/slab/ObjectDepot.cpp`: magazines of objects, two of them for each CPU and two lists
of them that the CPUs share. A thread inside one of the calls runs on one CPU with interrupts disabled,
so that no other thread is there in the meantime; each iteration of its loop takes the inner lock at
most once, and is one step. While a thread is inside, `object_depot_make_empty()` cannot have the outer
lock.
-/

namespace Haiku.Slab.Depot

open Lib

variable {T α : Type} {cpuCount : ℕ}

/-! ## Magazines -/

/-- `DepotMagazine`; the last round comes first, and `current_round` is the number of rounds. -/
structure DepotMagazine (α : Type) where
  rounds : List α
  roundCount : ℕ
  fits : rounds.length ≤ roundCount

namespace DepotMagazine

def IsEmpty (m : DepotMagazine α) : Prop := m.rounds.length = 0

def IsFull (m : DepotMagazine α) : Prop := m.rounds.length = m.roundCount

instance (m : DepotMagazine α) : Decidable m.IsEmpty := inferInstanceAs (Decidable (_ = _))

instance (m : DepotMagazine α) : Decidable m.IsFull := inferInstanceAs (Decidable (_ = _))

/-- `Pop()` of a magazine that is not empty -/
def pop (m : DepotMagazine α) : Option (α × DepotMagazine α) :=
  match h : m.rounds with
  | [] => none
  | object :: rounds =>
    some (object, ⟨rounds, m.roundCount, by
      have hfits := m.fits
      rw [h, List.length_cons] at hfits
      omega⟩)

/-- `Push()`, unless it fails -/
def push (m : DepotMagazine α) (object : α) : Option (DepotMagazine α) :=
  if h : m.IsFull then none
  else
    some ⟨object :: m.rounds, m.roundCount, by
      have hfits := m.fits
      unfold IsFull at h
      rw [List.length_cons]
      omega⟩

/-- `alloc_magazine()`, where `round_count` has 16 bits -/
def alloc (capacity : ℕ) : DepotMagazine α := ⟨[], capacity % 2 ^ 16, Nat.zero_le _⟩

/-- The objects in the order in which `empty_magazine()` returns them -/
def objects (m : DepotMagazine α) : List α := m.rounds.reverse

end DepotMagazine

/-! ## Depots -/

structure DepotCpuStore (α : Type) where
  loaded : Option (DepotMagazine α)
  previous : Option (DepotMagazine α)

/-- The magazines of a CPU in the order in which they are pushed to `storeMagazines` -/
def DepotCpuStore.magazines (store : DepotCpuStore α) : List (DepotMagazine α) :=
  store.loaded.toList ++ store.previous.toList

structure ObjectDepot (α : Type) (cpuCount : ℕ) where
  full : List (DepotMagazine α)
  empty : List (DepotMagazine α)
  fullCount : ℕ
  emptyCount : ℕ
  maxCount : ℕ
  magazineCapacity : ℕ
  stores : Fin cpuCount → DepotCpuStore α

namespace ObjectDepot

/-- `object_depot_init()` -/
def init (capacity maxCount : ℕ) : ObjectDepot α cpuCount :=
  ⟨[], [], 0, 0, maxCount, capacity, fun _ => ⟨none, none⟩⟩

def setStore (depot : ObjectDepot α cpuCount) (cpu : Fin cpuCount) (store : DepotCpuStore α) :
    ObjectDepot α cpuCount :=
  { depot with stores := Function.update depot.stores cpu store }

/-- `exchange_with_full()`, unless it returns `false` -/
def exchangeWithFull (depot : ObjectDepot α cpuCount) (magazine : DepotMagazine α) :
    Option (DepotMagazine α × ObjectDepot α cpuCount) :=
  match depot.full with
  | [] => none
  | first :: full =>
    some (first, { depot with
      full       := full
      empty      := magazine :: depot.empty
      fullCount  := depot.fullCount - 1
      emptyCount := depot.emptyCount + 1 })

/-- `exchange_with_empty()`, unless it returns `false`: the new magazine, and the one to free -/
def exchangeWithEmpty (depot : ObjectDepot α cpuCount) (magazine : Option (DepotMagazine α)) :
    Option (DepotMagazine α × Option (DepotMagazine α) × ObjectDepot α cpuCount) :=
  match depot.empty with
  | [] => none
  | first :: empty =>
    let depot := { depot with empty := empty, emptyCount := depot.emptyCount - 1 }
    match magazine with
    | none => some (first, none, depot)
    | some magazine =>
      if depot.fullCount < depot.maxCount then
        some (first, none, { depot with
          full      := magazine :: depot.full
          fullCount := depot.fullCount + 1 })
      else some (first, some magazine, depot)

def pushEmptyMagazine (depot : ObjectDepot α cpuCount) (magazine : DepotMagazine α) :
    ObjectDepot α cpuCount :=
  { depot with empty := magazine :: depot.empty, emptyCount := depot.emptyCount + 1 }

/-- The list `storeMagazines` of `object_depot_make_empty()` -/
def storeMagazines (depot : ObjectDepot α cpuCount) : List (DepotMagazine α) :=
  ((List.finRange cpuCount).flatMap fun cpu => (depot.stores cpu).magazines).reverse

/-- `object_depot_make_empty()` up to where it gives up the outer lock. The counts stay. -/
def detach (depot : ObjectDepot α cpuCount) : ObjectDepot α cpuCount :=
  { depot with full := [], empty := [], stores := fun _ => ⟨none, none⟩ }

end ObjectDepot

/-! ## Threads -/

inductive Phase (α : Type) (cpuCount : ℕ)
  | outside
  /-- in the loop of `object_depot_obtain()` -/
  | obtaining (cpu : Fin cpuCount)
  /-- in the loop of `object_depot_store()` -/
  | storing (cpu : Fin cpuCount) (object : α)
  /-- `object_depot_store()` empties the magazine to free: the objects that are still to be returned -/
  | freeing (objects : List α) (object : α)
  | allocating (object : α)
  /-- `object_depot_store()` has a new magazine -/
  | pushing (magazine : DepotMagazine α) (object : α)
  /-- `object_depot_make_empty()` after it detached the magazines: the objects to return -/
  | emptying (objects : List α)

/-- The CPU where the thread has disabled interrupts -/
def Phase.cpu : Phase α cpuCount → Option (Fin cpuCount)
  | .obtaining cpu => some cpu
  | .storing cpu _ => some cpu
  | _ => none

structure State (T α : Type) (cpuCount : ℕ) where
  depot : ObjectDepot α cpuCount
  threads : T → Phase α cpuCount
  /-- the objects of all calls of `object_depot_store()` so far -/
  stored : List α
  /-- the objects that `object_depot_obtain()` returned so far -/
  obtained : List α
  /-- the objects that were passed to `return_object` so far -/
  returned : List α
  /-- whether all `ASSERT`s held so far -/
  asserted : Bool

namespace State

def init (capacity maxCount : ℕ) : State T α cpuCount :=
  ⟨.init capacity maxCount, fun _ => .outside, [], [], [], true⟩

variable [DecidableEq T]

def setThread (s : State T α cpuCount) (t : T) (phase : Phase α cpuCount) : State T α cpuCount :=
  { s with threads := Function.update s.threads t phase }

def Free (s : State T α cpuCount) (cpu : Fin cpuCount) : Prop :=
  ∀ t, (s.threads t).cpu ≠ some cpu

def Unlocked (s : State T α cpuCount) : Prop := ∀ t, (s.threads t).cpu = none

instance [Fintype T] (s : State T α cpuCount) (cpu : Fin cpuCount) : Decidable (s.Free cpu) :=
  inferInstanceAs (Decidable (∀ t, (s.threads t).cpu ≠ some cpu))

instance [Fintype T] (s : State T α cpuCount) : Decidable s.Unlocked :=
  inferInstanceAs (Decidable (∀ t, (s.threads t).cpu = none))

/-- The start of `object_depot_obtain()` -/
def obtain (s : State T α cpuCount) (t : T) (cpu : Fin cpuCount) : State T α cpuCount :=
  if (s.depot.stores cpu).loaded.isNone then s else s.setThread t (.obtaining cpu)

/-- An iteration of the loop of `object_depot_obtain()` -/
def obtainNext (s : State T α cpuCount) (t : T) (cpu : Fin cpuCount) :
    Option (State T α cpuCount) :=
  let store := s.depot.stores cpu
  match store.loaded with
  | none => none
  | some loaded =>
    match loaded.pop with
    | some (object, loaded) =>
      some { s.setThread t .outside with
        depot    := s.depot.setStore cpu { store with loaded := some loaded }
        obtained := object :: s.obtained }
    | none =>
      match store.previous with
      | none => some (s.setThread t .outside)
      | some previous =>
        if previous.IsFull then
          some { s with depot := s.depot.setStore cpu ⟨some previous, some loaded⟩ }
        else
          let s := { s with asserted := s.asserted && decide previous.IsEmpty }
          match s.depot.exchangeWithFull previous with
          | none => some (s.setThread t .outside)
          | some (magazine, depot) =>
            some { s with depot := depot.setStore cpu ⟨some magazine, some loaded⟩ }

/-- An iteration of the loop of `object_depot_store()` -/
def storeNext (s : State T α cpuCount) (t : T) (cpu : Fin cpuCount) (object : α) :
    State T α cpuCount :=
  let store := s.depot.stores cpu
  match store.loaded.bind (·.push object) with
  | some loaded =>
    { s.setThread t .outside with
      depot := s.depot.setStore cpu { store with loaded := some loaded } }
  | none =>
    if ∃ previous ∈ store.previous, previous.IsEmpty then
      { s with depot := s.depot.setStore cpu ⟨store.previous, store.loaded⟩ }
    else
      let s := { s with
        asserted := s.asserted && decide (∀ previous ∈ store.previous, previous.IsFull) }
      match s.depot.exchangeWithEmpty store.previous with
      | some (magazine, freeMagazine, depot) =>
        let s := { s with depot := depot.setStore cpu ⟨some magazine, store.loaded⟩ }
        match freeMagazine with
        | none => s
        | some freeMagazine => s.setThread t (.freeing freeMagazine.objects object)
      | none => s.setThread t (.allocating object)

/-- `object_depot_make_empty()` up to where it gives up the outer lock -/
def makeEmpty (s : State T α cpuCount) (t : T) : State T α cpuCount :=
  let objects := (s.depot.storeMagazines ++ s.depot.full).flatMap DepotMagazine.objects
  { s.setThread t (.emptying objects) with depot := s.depot.detach }

end State

inductive Action (T α : Type) (cpuCount : ℕ)
  | obtain (t : T) (cpu : Fin cpuCount)
  | store (t : T) (cpu : Fin cpuCount) (object : α)
  | makeEmpty (t : T)
  /-- the next iteration of the loop of a thread -/
  | next (t : T)
  /-- `return_object` for the next of the objects to return, or the end of that loop -/
  | returnObject (t : T)
  /-- `object_depot_store()` goes on after it emptied a magazine, maybe on another CPU -/
  | resume (t : T) (cpu : Fin cpuCount)
  | allocate (t : T) (memory : Bool)
  | pushEmptyMagazine (t : T) (cpu : Fin cpuCount)

/-- One step of a thread -/
def step [DecidableEq T] [Fintype T] (s : State T α cpuCount) :
    Action T α cpuCount → Option (State T α cpuCount)
  | .obtain t cpu =>
    match s.threads t with
    | .outside => if s.Free cpu then some (s.obtain t cpu) else none
    | _ => none
  | .store t cpu object =>
    match s.threads t with
    | .outside =>
      if s.Free cpu then
        some { s.setThread t (.storing cpu object) with stored := object :: s.stored }
      else none
    | _ => none
  | .makeEmpty t =>
    match s.threads t with
    | .outside => if s.Unlocked then some (s.makeEmpty t) else none
    | _ => none
  | .next t =>
    match s.threads t with
    | .obtaining cpu => s.obtainNext t cpu
    | .storing cpu object => some (s.storeNext t cpu object)
    | _ => none
  | .returnObject t =>
    match s.threads t with
    | .freeing (first :: objects) object =>
      some { s.setThread t (.freeing objects object) with returned := first :: s.returned }
    | .emptying (first :: objects) =>
      some { s.setThread t (.emptying objects) with returned := first :: s.returned }
    | .emptying [] => some (s.setThread t .outside)
    | _ => none
  | .resume t cpu =>
    match s.threads t with
    | .freeing [] object => if s.Free cpu then some (s.setThread t (.storing cpu object)) else none
    | _ => none
  | .allocate t memory =>
    match s.threads t with
    | .allocating object =>
      if memory then some (s.setThread t (.pushing (.alloc s.depot.magazineCapacity) object))
      else some { s.setThread t .outside with returned := object :: s.returned }
    | _ => none
  | .pushEmptyMagazine t cpu =>
    match s.threads t with
    | .pushing magazine object =>
      if s.Free cpu then
        some { s.setThread t (.storing cpu object) with
          depot := s.depot.pushEmptyMagazine magazine }
      else none
    | _ => none

end Haiku.Slab.Depot
