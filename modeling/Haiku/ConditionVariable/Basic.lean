import Mathlib.Algebra.Order.Ring.Int
import Mathlib.Data.Fintype.Basic

/-!
# Condition variables

`src/system/kernel/condition_variable.cpp`. What is done under `sConditionVariablesLock`, or under
`gThreadSpinlock`, is one step: a call of `Wait()` takes three of them, so that a notification, a
timeout or an interruption may come in between. The status in `thread->wait` is 1 as long as nobody
woke the thread.
-/

namespace Haiku.ConditionVariable

open Function

def statusAdded : ℤ := 1

def statusWaiting : ℤ := 2

def bError : ℤ := -1

def bTimedOut : ℤ := -2147483639

def bInterrupted : ℤ := -2147483638

def bEntryNotFound : ℤ := -2147459069

variable {T E V O : Type}

structure ConditionVariableEntry (T V : Type) where
  fVariable : Option V
  fThread : Option T
  fWaitStatus : ℤ

inductive Phase (E : Type)
  | outside
  /-- it has announced that it waits, and is about to block -/
  | announced (entry : E)
  | blocked (entry : E)
  /-- it is about to leave the entry's variable -/
  | leaving (entry : E) (error : ℤ)

def Phase.entry : Phase E → Option E
  | .outside => none
  | .announced entry => some entry
  | .blocked entry => some entry
  | .leaving entry _ => some entry

structure State (T E V O : Type) where
  entries : E → ConditionVariableEntry T V
  /-- `fEntries` of the variables -/
  fEntries : V → List E
  /-- `fObject` of the variables -/
  fObject : V → Option O
  /-- `sConditionVariableHash` -/
  hash : O → Option V
  /-- `thread->wait.status` -/
  waitStatus : T → ℤ
  phases : T → Phase E

namespace State

/-- No variable is published, and no entry added. -/
def init : State T E V O where
  entries _ := ⟨none, none, 0⟩
  fEntries _ := []
  fObject _ := none
  hash _ := none
  waitStatus _ := 0
  phases _ := .outside

section

variable [DecidableEq T] [DecidableEq E] [DecidableEq V] [DecidableEq O]

def setEntry (s : State T E V O) (e : E) (entry : ConditionVariableEntry T V) : State T E V O :=
  { s with entries := update s.entries e entry }

def setList (s : State T E V O) (v : V) (l : List E) : State T E V O :=
  { s with fEntries := update s.fEntries v l }

def setStatus (s : State T E V O) (t : T) (status : ℤ) : State T E V O :=
  { s with waitStatus := update s.waitStatus t status }

def setPhase (s : State T E V O) (t : T) (phase : Phase E) : State T E V O :=
  { s with phases := update s.phases t phase }

/-- `thread_unblock_locked()` -/
def unblock (s : State T E V O) (t : T) (status : ℤ) : State T E V O :=
  if s.waitStatus t = 1 then s.setStatus t status else s

/-! ## Entries -/

def addToVariable (s : State T E V O) (t : T) (e : E) (v : V) : State T E V O :=
  (s.setEntry e ⟨some v, some t, statusAdded⟩).setList v (s.fEntries v ++ [e])

def add (s : State T E V O) (t : T) (e : E) (object : O) : State T E V O :=
  match s.hash object with
  | none => s.setEntry e ⟨none, some t, bEntryNotFound⟩
  | some v => s.addToVariable t e v

/-- `ConditionVariableEntry::Wait()` up to where it gives up `sConditionVariablesLock`: what it
returns, if it does -/
def wait (s : State T E V O) (t : T) (e : E) : Option (E × ℤ) × State T E V O :=
  match (s.entries e).fVariable with
  | none => (some (e, (s.entries e).fWaitStatus), s)
  | some _ =>
    -- `thread_prepare_to_block()` resets the status
    (none, ((s.setStatus t 1).setEntry e
      { s.entries e with fWaitStatus := statusWaiting }).setPhase t (.announced e))

/-- `thread_block_locked()` up to where the thread sleeps -/
def block (s : State T E V O) (t : T) (e : E) (interrupted : Bool) : State T E V O :=
  if s.waitStatus t = 1 then
    if interrupted then (s.setStatus t bInterrupted).setPhase t (.leaving e bInterrupted)
    else s.setPhase t (.blocked e)
  else s.setPhase t (.leaving e (s.waitStatus t))

/-- The end of `ConditionVariableEntry::Wait()`: remove the entry, if not done yet. -/
def leave (s : State T E V O) (t : T) (e : E) : State T E V O :=
  match (s.entries e).fVariable with
  | none => s.setPhase t .outside
  | some v =>
    ((s.setList v ((s.fEntries v).erase e)).setEntry e
      { s.entries e with fVariable := none }).setPhase t .outside

/-! ## Variables -/

/-- What `_NotifyLocked()` does with an entry that it took off the list -/
def notifyEntry (s : State T E V O) (e : E) (result : ℤ) : State T E V O :=
  let entry := s.entries e
  if entry.fWaitStatus ≤ 0 then s.setEntry e { entry with fVariable := none }
  else
    let s :=
      if entry.fWaitStatus = statusWaiting then
        match entry.fThread with
        | none => s
        | some t => s.unblock t result
      else s
    s.setEntry e { entry with fVariable := none, fWaitStatus := result }

/-- The loop of `_NotifyLocked()` over the entries of a variable -/
def notifyLocked (v : V) (all : Bool) (result : ℤ) : List E → State T E V O → State T E V O
  | [], s => s.setList v []
  | e :: l, s =>
    if (s.entries e).fWaitStatus ≤ 0 ∨ all then notifyLocked v all result l (s.notifyEntry e result)
    else (s.notifyEntry e result).setList v l

/-- What a notification makes of an invalid result -/
def validResult (result : ℤ) : ℤ := if result > 0 then bError else result

def notify (s : State T E V O) (v : V) (all : Bool) (result : ℤ) : State T E V O :=
  if (s.fEntries v).isEmpty then s else s.notifyLocked v all (validResult result) (s.fEntries v)

/-- `ConditionVariable::Publish()` of a variable for an object -/
def publish (s : State T E V O) (v : V) (object : O) : State T E V O :=
  { s.setList v [] with
    fObject := update s.fObject v (some object)
    hash    := update s.hash object (some v) }

def unpublish (s : State T E V O) (v : V) (object : O) : State T E V O :=
  let s := { s with
    fObject := update s.fObject v none
    hash    := update s.hash object none }
  if (s.fEntries v).isEmpty then s else s.notifyLocked v true bEntryNotFound (s.fEntries v)

end

/-- A thread is in a call of `Wait()` for the entry. -/
def InWait (s : State T E V O) (t : T) (e : E) : Prop := (s.phases t).entry = some e

def Unused (s : State T E V O) (e : E) : Prop :=
  (s.entries e).fVariable = none ∧ ∀ t, ¬ s.InWait t e

instance [DecidableEq E] (s : State T E V O) (t : T) (e : E) : Decidable (s.InWait t e) :=
  inferInstanceAs (Decidable ((s.phases t).entry = some e))

instance [DecidableEq E] [DecidableEq V] [Fintype T] (s : State T E V O) (e : E) :
    Decidable (s.Unused e) :=
  inferInstanceAs (Decidable (_ = none ∧ ∀ t, ¬ s.InWait t e))

end State

/-! ## Steps -/

inductive Action (T E V O : Type)
  | publish (v : V) (object : O)
  | unpublish (v : V)
  | add (t : T) (e : E) (object : O)
  | addToVariable (t : T) (e : E) (v : V)
  | wait (t : T) (e : E)
  | block (t : T) (interrupted : Bool)
  | resume (t : T)
  | leave (t : T)
  /-- a timeout, or an interruption -/
  | unblock (t : T) (status : ℤ)
  | notify (v : V) (all : Bool) (result : ℤ)

section

variable [DecidableEq T] [DecidableEq E] [DecidableEq V] [DecidableEq O] [Fintype T]

/-- A step, with the entry and the result if it is the end of a call of `Wait()`. A thread waits for
its own entries, and a variable is published only once, when nobody waits for it. -/
def State.perform (s : State T E V O) :
    Action T E V O → Option (Option (E × ℤ) × State T E V O)
  | .publish v object =>
    if s.fObject v = none ∧ s.hash object = none ∧ s.fEntries v = [] then
      some (none, s.publish v object)
    else none
  | .unpublish v => (s.fObject v).map fun object => (none, s.unpublish v object)
  | .add t e object =>
    if (s.phases t).entry = none ∧ s.Unused e then some (none, s.add t e object) else none
  | .addToVariable t e v =>
    if (s.phases t).entry = none ∧ s.Unused e then some (none, s.addToVariable t e v) else none
  | .wait t e =>
    if (s.phases t).entry = none ∧ (s.entries e).fThread = some t then some (s.wait t e) else none
  | .block t interrupted =>
    match s.phases t with
    | .announced e => some (none, s.block t e interrupted)
    | _ => none
  | .resume t =>
    match s.phases t with
    | .blocked e =>
      if s.waitStatus t ≠ 1 then some (none, s.setPhase t (.leaving e (s.waitStatus t))) else none
    | _ => none
  | .leave t =>
    match s.phases t with
    | .leaving e error => some (some (e, error), s.leave t e)
    | _ => none
  | .unblock t status =>
    if status = bTimedOut ∨ status = bInterrupted then some (none, s.unblock t status) else none
  | .notify v all result => some (none, s.notify v all result)

def State.step (s : State T E V O) (a : Action T E V O) : Option (State T E V O) :=
  (s.perform a).map Prod.snd

end

end Haiku.ConditionVariable
