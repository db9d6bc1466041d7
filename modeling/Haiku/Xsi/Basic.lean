import Mathlib.Algebra.Order.Ring.Int
import Mathlib.Data.List.Basic

/-!
# XSI semaphore sets

The classes of `src/system/kernel/posix/xsi_semaphore.cpp`, and the loops of `_user_xsi_semop()`
over the operations of a call. A function that wakes threads returns them. Values are 16 bit numbers;
where the code has a `short`, their signed value counts.
-/

namespace Haiku.Xsi

inductive Error
  | again
  | badAddress
  | exists
  | idRemoved
  | interrupted
  | invalid
  | noEntry
  | noMemory
  | noPermission
  | noSpace
  | range
  deriving DecidableEq

structure SemBuf where
  semNum : BitVec 16
  semOp : BitVec 16
  semFlg : BitVec 16
  deriving DecidableEq

def ipcNoWait : BitVec 16 := 0o4000

def semUndo : BitVec 16 := 10

def SemBuf.has (op : SemBuf) (flag : BitVec 16) : Bool := op.semFlg &&& flag != 0

/-! ## Semaphores -/

/-- `queued_thread`; whether it is queued is seen from the queues. -/
structure QueuedThread where
  thread : ℕ
  count : ℤ
  deriving DecidableEq

structure XsiSemaphore where
  lastPidOperation : ℕ
  threadsWaitingToIncrease : BitVec 16
  threadsWaitingToBeZero : BitVec 16
  value : BitVec 16
  waitingToIncreaseQueue : List QueuedThread
  waitingToBeZeroQueue : List QueuedThread

namespace XsiSemaphore

def new : XsiSemaphore := ⟨0, 0, 0, 0, [], []⟩

/-- `WakeUpThread()`: all threads of one of the queues -/
def wakeUpThread (s : XsiSemaphore) (waitingForZero : Bool) : XsiSemaphore × List ℕ :=
  if waitingForZero then
    ({ s with
        waitingToBeZeroQueue   := []
        threadsWaitingToBeZero :=
          s.threadsWaitingToBeZero - BitVec.ofNat 16 s.waitingToBeZeroQueue.length },
      s.waitingToBeZeroQueue.map QueuedThread.thread)
  else
    ({ s with
        waitingToIncreaseQueue   := []
        threadsWaitingToIncrease :=
          s.threadsWaitingToIncrease - BitVec.ofNat 16 s.waitingToIncreaseQueue.length },
      s.waitingToIncreaseQueue.map QueuedThread.thread)

/-- The end of `Add()` and of `Revert()` -/
def wakeUpWaiting (s : XsiSemaphore) : XsiSemaphore × List ℕ :=
  if s.value = 0 ∧ s.threadsWaitingToBeZero > 0 then s.wakeUpThread true
  else if s.value > 0 ∧ s.threadsWaitingToIncrease > 0 then s.wakeUpThread false
  else (s, [])

/-- Whether `Add()` returns `true` -/
def mustWait (s : XsiSemaphore) (value : BitVec 16) : Bool := (s.value.toNat : ℤ) + value.toInt < 0

/-- `Add()` where it returns `false` -/
def add (s : XsiSemaphore) (value : BitVec 16) : XsiSemaphore × List ℕ :=
  { s with value := s.value + value }.wakeUpWaiting

def revert (s : XsiSemaphore) (value : BitVec 16) : XsiSemaphore × List ℕ :=
  { s with value := s.value - value }.wakeUpWaiting

def setValue (s : XsiSemaphore) (value : BitVec 16) : XsiSemaphore := { s with value := value }

def setPid (s : XsiSemaphore) (pid : ℕ) : XsiSemaphore := { s with lastPidOperation := pid }

def enqueue (s : XsiSemaphore) (entry : QueuedThread) (waitForZero : Bool) : XsiSemaphore :=
  if waitForZero then
    { s with
      waitingToBeZeroQueue   := s.waitingToBeZeroQueue ++ [entry]
      threadsWaitingToBeZero := s.threadsWaitingToBeZero + 1 }
  else
    { s with
      waitingToIncreaseQueue   := s.waitingToIncreaseQueue ++ [entry]
      threadsWaitingToIncrease := s.threadsWaitingToIncrease + 1 }

/-- `Deque()` of the entry of a thread -/
def deque (s : XsiSemaphore) (thread : ℕ) (waitForZero : Bool) : XsiSemaphore :=
  if waitForZero then
    if s.waitingToBeZeroQueue.any (·.thread = thread) then
      { s with
        waitingToBeZeroQueue   := s.waitingToBeZeroQueue.eraseP (·.thread = thread)
        threadsWaitingToBeZero := s.threadsWaitingToBeZero - 1 }
    else s
  else
    if s.waitingToIncreaseQueue.any (·.thread = thread) then
      { s with
        waitingToIncreaseQueue   := s.waitingToIncreaseQueue.eraseP (·.thread = thread)
        threadsWaitingToIncrease := s.threadsWaitingToIncrease - 1 }
    else s

end XsiSemaphore

abbrev Semaphores := List XsiSemaphore

def Semaphores.change (l : Semaphores) (number : ℕ) (f : XsiSemaphore → XsiSemaphore × List ℕ) :
    Semaphores × List ℕ :=
  match l[number]? with
  | none => (l, [])
  | some s => (l.set number (f s).1, (f s).2)

/-! ## Undo records -/

/-- `sem_undo` in the list of a set -/
structure SemUndo where
  team : ℕ
  undoValues : List (BitVec 16)

/-- `RecordUndo()` for a set with the given number of semaphores, unless it fails. Whether the
allocations succeed that are made for a new record is given. -/
def recordUndo (team numberOfSemaphores semaphoreNumber : ℕ) (value : BitVec 16) (memory : Bool) :
    List SemUndo → Option (List SemUndo)
  | [] =>
    if memory then
      some [⟨team, (List.replicate numberOfSemaphores 0).set semaphoreNumber value⟩]
    else none
  | current :: list =>
    if current.team = team then
      let newValue := (current.undoValues.getD semaphoreNumber 0).toInt + value.toInt
      if newValue > 65535 ∨ newValue < -65535 then none
      else
        some ({ current with
          undoValues := current.undoValues.set semaphoreNumber (BitVec.ofInt 16 newValue) } :: list)
    else
      (recordUndo team numberOfSemaphores semaphoreNumber value memory list).map (current :: ·)

/-- `RevertUndo()`, which takes the value back from the semaphore -/
def revertUndo (team : ℕ) (undoList : List SemUndo) (semaphoreNumber : ℕ) (value : BitVec 16)
    (l : Semaphores) : Semaphores × List ℕ :=
  if undoList.any (·.team = team) then l.change semaphoreNumber (·.revert value) else (l, [])

/-! ## The operations of a call -/

inductive Verdict
  | done
  | sleeps
  | fails (error : Error)

structure Applied where
  semaphores : Semaphores
  woken : List ℕ
  /-- how many operations were carried out -/
  count : ℕ
  verdict : Verdict

def Applied.stop (l : Semaphores) (verdict : Verdict) : Applied := ⟨l, [], 0, verdict⟩

/-- A loop that carried out one operation more, at its start -/
def Applied.after (woken : List ℕ) (a : Applied) : Applied :=
  { a with woken := woken ++ a.woken, count := a.count + 1 }

/-- The loop over the operations. The number of a semaphore is compared as a `short`; without a
result the code uses what lies before the array. -/
def applyOperations : List SemBuf → Semaphores → Option Applied
  | [], l => some (.stop l .done)
  | op :: ops, l =>
    if op.semNum.toInt ≥ l.length then some (.stop l (.fails .invalid))
    else if op.semNum.toInt < 0 then none
    else
      match l[op.semNum.toNat]? with
      | none => none
      | some s =>
        let next (r : XsiSemaphore × List ℕ) : Option Applied :=
          (applyOperations ops (l.set op.semNum.toNat r.1)).map (.after r.2)
        let wait : Applied := .stop l (if op.has ipcNoWait then .fails .again else .sleeps)
        if op.semOp.toInt < 0 then
          if s.mustWait op.semOp then some wait else next (s.add op.semOp)
        else if op.semOp = 0 then
          if s.value = 0 then next (s, []) else some wait
        else next (s.add op.semOp)

def revertOperations : List SemBuf → Semaphores → Semaphores × List ℕ
  | [], l => (l, [])
  | op :: ops, l =>
    let r := if op.semOp ≠ 0 then l.change op.semNum.toNat (·.revert op.semOp) else (l, [])
    let rest := revertOperations ops r.1
    (rest.1, r.2 ++ rest.2)

/-- The loop that is meant to take the undo values back -/
def revertUndos (team : ℕ) (undoList : List SemUndo) :
    List SemBuf → Semaphores → Semaphores × List ℕ
  | [], l => (l, [])
  | op :: ops, l =>
    let r :=
      if op.has semUndo then revertUndo team undoList op.semNum.toNat op.semOp l else (l, [])
    let rest := revertUndos team undoList ops r.1
    (rest.1, r.2 ++ rest.2)

structure Recording where
  semaphores : Semaphores
  undoList : List SemUndo
  /-- whether the next calls of `RecordUndo()` get the memory for a new record -/
  memory : List Bool
  woken : List ℕ
  failed : Bool

/-- The loop that records the undo values of all operations; it goes on where it fails. -/
def recordUndos (team : ℕ) (all : List SemBuf) :
    List SemBuf → List SemBuf → Recording → Recording
  | _, [], r => r
  | before, op :: ops, r =>
    if op.has semUndo then
      match recordUndo team r.semaphores.length op.semNum.toNat op.semOp (r.memory.headD true)
          r.undoList with
      | some undoList =>
        recordUndos team all (before ++ [op]) ops
          { r with undoList := undoList, memory := r.memory.tail }
      | none =>
        let values := revertOperations all r.semaphores
        let undos := revertUndos team r.undoList before values.1
        recordUndos team all (before ++ [op]) ops
          { r with
            semaphores := undos.1
            memory     := r.memory.tail
            woken      := r.woken ++ values.2 ++ undos.2
            failed     := true }
    else recordUndos team all (before ++ [op]) ops r

/-- The loop at the end of a call that succeeded -/
def setPids (pid : ℕ) : List SemBuf → Semaphores → Semaphores
  | [], l => l
  | op :: ops, l => setPids pid ops (l.change op.semNum.toNat fun s => (s.setPid pid, [])).1

/-- How an attempt to carry out all operations ends: the call returns, or its thread is queued, at
the given semaphore, for an operation. -/
inductive Outcome
  | returns (result : Option Error)
  | sleeps (queuedAt : ℕ) (op : SemBuf)
  deriving DecidableEq

structure Attempt where
  semaphores : Semaphores
  undoList : List SemUndo
  woken : List ℕ
  outcome : Outcome

/-- The semaphore that the variable `semaphore` points to when a thread is queued: that of the
operation that was taken back last, if there is one. -/
def semaphoreAt (reverted : List SemBuf) (op : SemBuf) : ℕ :=
  (reverted.getLast?.getD op).semNum.toNat

namespace Applied

/-- All operations were carried out: their undo values are recorded. -/
def record (a : Applied) (team : ℕ) (ops : List SemBuf) (memory : List Bool)
    (undoList : List SemUndo) : Attempt :=
  let r := recordUndos team ops [] ops ⟨a.semaphores, undoList, memory, a.woken, false⟩
  if r.failed then ⟨r.semaphores, r.undoList, r.woken, .returns (some .noSpace)⟩
  else ⟨setPids team ops r.semaphores, r.undoList, r.woken, .returns none⟩

/-- An operation failed: those before it are taken back. -/
def refuse (a : Applied) (ops : List SemBuf) (undoList : List SemUndo) (error : Error) : Attempt :=
  let reverted := revertOperations (ops.take a.count) a.semaphores
  ⟨reverted.1, undoList, a.woken ++ reverted.2, .returns (some error)⟩

/-- The thread has to wait for an operation: those before it are taken back, and it is queued. -/
def sleep (a : Applied) (thread : ℕ) (ops : List SemBuf) (undoList : List SemUndo) (op : SemBuf) :
    Attempt :=
  let reverted := revertOperations (ops.take a.count) a.semaphores
  let queuedAt := semaphoreAt (ops.take a.count) op
  let enqueued := reverted.1.change queuedAt fun s =>
    (s.enqueue ⟨thread, op.semOp.toInt⟩ (op.semOp = 0), [])
  ⟨enqueued.1, undoList, a.woken ++ reverted.2, .sleeps queuedAt op⟩

end Applied

/-- An iteration of the main loop of `_user_xsi_semop()`, up to where the thread blocks -/
def attempt (team thread : ℕ) (ops : List SemBuf) (memory : List Bool) (l : Semaphores)
    (undoList : List SemUndo) : Option Attempt := do
  let a ← applyOperations ops l
  match a.verdict with
  | .done => return a.record team ops memory undoList
  | .fails error => return a.refuse ops undoList error
  | .sleeps => ops[a.count]?.map (a.sleep thread ops undoList)

/-- `MAX_XSI_SEMS_PER_TEAM` -/
def maxSemaphoresPerTeam : ℕ := 128

end Haiku.Xsi
