import Haiku.Lib.Run
import Haiku.Lib.Tally

/-!
# File descriptors

The tables of several I/O contexts share descriptors, which have two counters: one of the slots and
of those who have the descriptor open, and one of all references. Every section under the mutex of a
context is one step here, and so is every `atomic_add()` with what depends on what it returns.

A use of a descriptor that has been freed sets `fault`.
-/

namespace Haiku.Fd

open Function Lib

/-- A `file_descriptor`: its counters, whether `open_mode` has `O_DISCONNECTED`, and whether `ops`
is not NULL -/
structure Descriptor where
  refCount : ℤ
  openCount : ℤ
  disconnected : Bool
  ops : Bool

structure IoContext where
  fds : List (Option ℕ)
  numUsedFds : ℤ

inductive Phase (C : Type)
  | idle
  /-- It has a reference that it will put. -/
  | got (p : ℕ)
  /-- It has an open reference that it will close and put. -/
  | gotOpen (p : ℕ)
  /-- It has taken the descriptor out of a slot, and will close and put it. -/
  | closing (p : ℕ)
  | putting (p : ℕ)
  /-- It has a reference that it will put into a slot. -/
  | dup (p : ℕ) (context : C)

/-- The tables, the descriptors by their addresses and the threads; whether a descriptor has been
created at an address, and how often its hooks have been called -/
structure System (C T : Type) where
  contexts : C → IoContext
  heap : ℕ → Option Descriptor
  threads : T → Phase C
  fault : Bool
  created : ℕ → Bool
  closes : ℕ → ℕ
  frees : ℕ → ℕ

variable {C T : Type}

/-- Tables without descriptors -/
def System.init (T : Type) (tableSize : C → ℕ) : System C T :=
  ⟨fun c => ⟨List.replicate (tableSize c) none, 0⟩, fun _ => none, fun _ => .idle, false,
    fun _ => false, fun _ => 0, fun _ => 0⟩

def IoContext.slot (io : IoContext) (fd : ℕ) : Option ℕ := io.fds[fd]?.join

inductive Input (C : Type)
  /-- `alloc_fd()` returns `p`, which `new_fd_etc()` puts into a slot. -/
  | newFd (context : C) (p firstIndex : ℕ)
  | getFd (context : C) (fd : ℕ)
  | getOpenFd (context : C) (fd : ℕ)
  /-- `dup_fd()`, and `dup_foreign_fd()` if the contexts are different ones -/
  | dupFd (source target : C) (fd : ℕ)
  | dup2Fd (context : C) (oldfd newfd : ℕ)
  | closeFdIndex (context : C) (fd : ℕ)
  | disconnectFd (p : ℕ)
  /-- the next step of what the thread has begun -/
  | go

/-! ## Counters -/

def System.modify (s : System C T) (p : ℕ) (f : Descriptor → Descriptor) : System C T :=
  match s.heap p with
  | some d => { s with heap := update s.heap p (some (f d)) }
  | none => { s with fault := true }

def System.putFd (s : System C T) (p : ℕ) : System C T :=
  match s.heap p with
  | none => { s with fault := true }
  | some d =>
    let previous := d.refCount
    -- free the descriptor if we don't need it anymore
    if previous = 1 then
      { s with
        heap := update s.heap p none
        frees := if d.ops then update s.frees p (s.frees p + 1) else s.frees }
    else if d.disconnected ∧ previous - 1 = d.openCount ∧ d.ops then
      -- the descriptor has been disconnected: it is closed and freed, but kept in its slots
      { s with
        heap := update s.heap p (some ⟨-1, -1, true, false⟩)
        closes := update s.closes p (s.closes p + 1)
        frees := update s.frees p (s.frees p + 1) }
    else { s with heap := update s.heap p (some { d with refCount := previous - 1 }) }

def System.closeFd (s : System C T) (p : ℕ) : System C T :=
  match s.heap p with
  | none => { s with fault := true }
  | some d =>
    { s with
      heap := update s.heap p (some { d with openCount := d.openCount - 1 })
      closes := if d.openCount = 1 ∧ d.ops then update s.closes p (s.closes p + 1)
        else s.closes }

section

variable [DecidableEq C]

/-! ## Tables -/

def System.setFd (s : System C T) (c : C) (fd : ℕ) (p : Option ℕ) (numUsedFds : ℤ) : System C T :=
  { s with contexts := update s.contexts c ⟨(s.contexts c).fds.set fd p, numUsedFds⟩ }

def freeIndex (fds : List (Option ℕ)) (firstIndex : ℕ) : Option ℕ :=
  ((fds.drop firstIndex).findIdx? (·.isNone)).map (· + firstIndex)

/-- `new_fd_etc()`; none is `B_NO_MORE_FDS`. -/
def System.newFdEtc (s : System C T) (c : C) (p firstIndex : ℕ) : Option (System C T) :=
  (freeIndex (s.contexts c).fds firstIndex).map fun fd =>
    (s.setFd c fd (some p) ((s.contexts c).numUsedFds + 1)).modify p fun d =>
      { d with openCount := d.openCount + 1 }

variable [DecidableEq T]

def System.setThread (s : System C T) (t : T) (phase : Phase C) : System C T :=
  { s with threads := update s.threads t phase }

/-- `get_fd_locked()`, which adds to the counters -/
def System.get (s : System C T) (t : T) (c : C) (fd : ℕ) (opens : ℤ) (phase : ℕ → Phase C) :
    System C T :=
  match (s.contexts c).slot fd with
  | none => s
  | some p =>
    match s.heap p with
    | none => { s with fault := true }
    | some d =>
      -- disconnected descriptors cannot be accessed anymore
      if d.disconnected then s
      else
        (s.modify p fun d =>
          { d with refCount := d.refCount + 1, openCount := d.openCount + opens }).setThread t
            (phase p)

/-- The section of `close_fd_index()` in `remove_fd()` -/
def System.closeFdIndex (s : System C T) (t : T) (c : C) (fd : ℕ) : System C T :=
  match (s.contexts c).slot fd with
  | none => s
  | some p =>
    match s.heap p with
    | none => { s with fault := true }
    | some d =>
      let removed := s.setFd c fd none ((s.contexts c).numUsedFds - 1)
      if d.disconnected then removed else removed.setThread t (.closing p)

/-- The section of `dup2_fd()` -/
def System.dup2Fd (s : System C T) (t : T) (c : C) (oldfd newfd : ℕ) : System C T :=
  let io := s.contexts c
  match io.slot oldfd with
  | none => s
  | some p =>
    if io.fds.length ≤ newfd ∨ oldfd = newfd then s
    else
      let shared := s.modify p fun d =>
        { d with refCount := d.refCount + 1, openCount := d.openCount + 1 }
      match io.slot newfd with
      | none => shared.setFd c newfd (some p) (io.numUsedFds + 1)
      | some evicted =>
        (shared.setFd c newfd (some p) io.numUsedFds).setThread t (.closing evicted)

/-- `new_fd()` with a new descriptor; if there is no slot for it, its creator frees it. -/
def System.create (s : System C T) (c : C) (p firstIndex : ℕ) : System C T :=
  let made := { s with heap := update s.heap p (some ⟨1, 0, false, true⟩) }
  match made.newFdEtc c p firstIndex with
  | none => s
  | some new =>
    { new with
      created := update s.created p true
      closes := update s.closes p 0
      frees := update s.frees p 0 }

/-! ## Steps -/

def step (s : System C T) (a : T × Input C) : Option (System C T) :=
  match s.threads a.1, a.2 with
  | .idle, .newFd c p firstIndex =>
    if (s.heap p).isSome then none else some (s.create c p firstIndex)
  | .idle, .getFd c fd => some (s.get a.1 c fd 0 .got)
  | .idle, .getOpenFd c fd => some (s.get a.1 c fd 1 .gotOpen)
  | .idle, .dupFd source target fd => some (s.get a.1 source fd 0 (.dup · target))
  | .idle, .dup2Fd c oldfd newfd => some (s.dup2Fd a.1 c oldfd newfd)
  | .idle, .closeFdIndex c fd => some (s.closeFdIndex a.1 c fd)
  | .idle, .disconnectFd p =>
    if (s.heap p).isSome then some (s.modify p fun d => { d with disconnected := true }) else none
  | .got p, .go => some ((s.putFd p).setThread a.1 .idle)
  | .gotOpen p, .go => some ((s.closeFd p).setThread a.1 (.got p))
  | .closing p, .go => some ((s.closeFd p).setThread a.1 (.putting p))
  | .putting p, .go => some ((s.putFd p).setThread a.1 .idle)
  | .dup p c, .go =>
    match s.newFdEtc c p 0 with
    | none => some (s.setThread a.1 (.got p))
    | some new => some (new.setThread a.1 .idle)
  | _, _ => none

end

end Haiku.Fd
