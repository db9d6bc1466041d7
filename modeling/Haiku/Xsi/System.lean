import Haiku.Lib.Table
import Haiku.Xsi.Basic

/-!
# The calls for XSI semaphores

The state of `src/system/kernel/posix/xsi_semaphore.cpp` with its two tables, and the system calls as
steps. A call holds the locks that it needs, so that one call is one step up to where it blocks its
thread; it goes on with another step when the thread was woken or interrupted. A call cannot be
taken where the code uses a null pointer, or memory outside of the array of a set.
-/

namespace Haiku.Xsi

open Lib

/-- `ipc_perm`, without the creator's ids -/
structure IpcPermission where
  key : ℤ
  uid : ℕ
  gid : ℕ
  mode : BitVec 32

/-- The effective ids of the calling process -/
structure Caller where
  uid : ℕ
  gid : ℕ

structure XsiSemaphoreSet where
  permissions : IpcPermission
  semaphores : Semaphores
  sequenceNumber : ℕ
  undoList : List SemUndo

/-- `HasPermission()`; `HasReadPermission()` is the same. -/
def XsiSemaphoreSet.hasPermission (set : XsiSemaphoreSet) (caller : Caller) : Bool :=
  let mode := set.permissions.mode
  if mode &&& 0o2 ≠ 0 then true
  else if caller.uid = 0 ∨ caller.uid = set.permissions.uid ∧ mode &&& 0o200 ≠ 0 then true
  else caller.gid = set.permissions.gid ∧ mode &&& 0o20 ≠ 0

/-- `XsiSemaphoreSet()` with `SetID()`, which counts the sets -/
def XsiSemaphoreSet.new (key : ℤ) (number : ℕ) (flags : BitVec 32) (caller : Caller)
    (sequenceNumber : ℕ) : XsiSemaphoreSet where
  permissions := ⟨key, caller.uid, caller.gid, flags &&& 0x01ff⟩
  semaphores := List.replicate number .new
  sequenceNumber := sequenceNumber
  undoList := []

inductive Wake
  | ok
  | idRemoved
  | interrupted
  deriving DecidableEq

/-- A call of `_user_xsi_semop()` whose thread was blocked -/
structure Waiting where
  team : ℕ
  semaphoreID : ℤ
  sequenceNumber : ℕ
  operations : List SemBuf
  queuedAt : ℕ
  /-- the operation that it waits for -/
  op : SemBuf
  /-- `none` while the thread is blocked -/
  wake : Option Wake

/-- `waitOnZero` -/
def Waiting.onZero (w : Waiting) : Bool := w.op.semOp = 0

/-- `thread_unblock_locked()` -/
def Waiting.unblock (w : Waiting) (wake : Wake) : Waiting :=
  if w.wake = none then { w with wake := some wake } else w

structure State where
  /-- `sIpcHashTable`: the ids of the sets of the keys -/
  ipcHashTable : Table ℤ ℤ
  semaphoreHashTable : Table ℤ XsiSemaphoreSet
  globalSequenceNumber : ℕ
  xsiSemaphoreCount : ℤ
  xsiSemaphoreSetCount : ℤ
  waiting : ℕ → Option Waiting

def State.initial : State := ⟨∅, ∅, 1, 0, 0, fun _ => none⟩

inductive Result
  | value (n : ℤ)
  | error (error : Error)
  | waits

def State.unblockAll (s : State) (threads : List ℕ) (wake : Wake) : State :=
  { s with waiting := fun t => if t ∈ threads then (s.waiting t).map (·.unblock wake) else s.waiting t }

def State.setSet (s : State) (id : ℤ) (set : XsiSemaphoreSet) : State :=
  { s with semaphoreHashTable := s.semaphoreHashTable.insert id set }

def State.setWaiting (s : State) (t : ℕ) (w : Option Waiting) : State :=
  { s with waiting := Function.update s.waiting t w }

/-! ## `_user_xsi_semget()` -/

def ipcCreat : BitVec 32 := 0o1000

def ipcExcl : BitVec 32 := 0o2000

def ipcPrivate : ℤ := 0

def maxXsiSemaphore : ℤ := 4096

def maxXsiSemaphoreSet : ℤ := 2048

/-- `SetID()`: the first id that is not used, from the given one on. The number bounds the search;
among one id more than there are sets, one is not used. -/
def freeID (sets : Table ℤ XsiSemaphoreSet) : ℕ → ℤ → Option ℤ
  | 0, _ => none
  | steps + 1, id =>
    if (sets.lookup id).isNone then some id else freeID sets steps ((id + 1).tmod 2147483647)

structure GetCall where
  key : ℤ
  numberOfSemaphores : ℤ
  flags : BitVec 32
  caller : Caller
  /-- `real_time_clock()` -/
  clock : ℤ
  /-- whether the allocation of an `Ipc` object succeeds -/
  ipcMemory : Bool
  /-- whether the allocations of a set succeed -/
  setMemory : Bool

/-- The end of `_user_xsi_semget()` that makes a new set -/
def State.createSet (s : State) (call : GetCall) : Option (Result × State) :=
  if call.numberOfSemaphores ≤ 0 ∨ call.numberOfSemaphores ≥ maxSemaphoresPerTeam then
    some (.error .invalid, s)
  else if s.xsiSemaphoreCount ≥ maxXsiSemaphore ∨ s.xsiSemaphoreSetCount ≥ maxXsiSemaphoreSet then
    some (.error .noSpace, s)
  else if !call.setMemory then some (.error .noMemory, s)
  else do
    let id ← freeID s.semaphoreHashTable (s.semaphoreHashTable.entries.length + 1) call.clock
    let sequenceNumber := (s.globalSequenceNumber + 1) % 4294967295
    let isPrivate := call.key = ipcPrivate
    let set := XsiSemaphoreSet.new (if isPrivate then -1 else call.key)
      call.numberOfSemaphores.toNat call.flags call.caller sequenceNumber
    return (.value id, { s with
      ipcHashTable :=
        if isPrivate then s.ipcHashTable else s.ipcHashTable.insert call.key id
      semaphoreHashTable   := s.semaphoreHashTable.insert id set
      globalSequenceNumber := sequenceNumber
      xsiSemaphoreCount    := s.xsiSemaphoreCount + call.numberOfSemaphores
      xsiSemaphoreSetCount := s.xsiSemaphoreSetCount + 1 })

/-- `_user_xsi_semget()` -/
def State.semget (s : State) (call : GetCall) : Option (Result × State) :=
  if call.key = ipcPrivate then s.createSet call
  else
    match s.ipcHashTable.lookup call.key with
    | none =>
      if call.flags &&& ipcCreat = 0 then some (.error .noEntry, s)
      else if !call.ipcMemory then some (.error .noMemory, s)
      else
        -- the key gets its set when that was created
        { s with ipcHashTable := s.ipcHashTable.insert call.key (-1) }.createSet call
    | some id =>
      if call.flags &&& ipcCreat ≠ 0 ∧ call.flags &&& ipcExcl ≠ 0 then some (.error .exists, s)
      else
        match s.semaphoreHashTable.lookup id with
        | none => none
        | some set =>
          if !set.hasPermission call.caller then some (.error .noPermission, s)
          else if call.numberOfSemaphores > set.semaphores.length ∧ call.numberOfSemaphores ≠ 0 then
            some (.error .invalid, s)
          else some (.value id, s)

/-! ## `_user_xsi_semctl()` -/

/-- The commands that change something, and those that return a number. What cannot be copied from
the memory of the caller is missing. -/
inductive Command
  | getVal
  | getPid
  | getNCnt
  | getZCnt
  | setVal (value : Option ℤ)
  | setAll (values : List (Option (BitVec 16)))
  | ipcSet (permissions : Option IpcPermission)
  | ipcRmid
  | other

def Command.isKnown : Command → Bool
  | .other => false
  | _ => true

/-- The record of a team in the list of a set changes. -/
def changeUndo (team : ℕ) (f : List (BitVec 16) → List (BitVec 16)) :
    List SemUndo → List SemUndo
  | [] => []
  | current :: list =>
    if current.team = team then { current with undoValues := f current.undoValues } :: list
    else current :: changeUndo team f list

def clearUndo (team semaphoreNumber : ℕ) : List SemUndo → List SemUndo :=
  changeUndo team fun values => values.set semaphoreNumber 0

def clearUndos (team : ℕ) : List SemUndo → List SemUndo :=
  changeUndo team fun values => values.map fun _ => 0

/-- The loop of `SETALL`: the semaphores, and whether all values were copied. -/
def setAllValues : List (Option (BitVec 16)) → Semaphores → Semaphores × Bool
  | _, [] => ([], true)
  | some value :: values, s :: l =>
    let r := setAllValues values l
    (s.setValue value :: r.1, r.2)
  | _, s :: l => (s :: l, false)

/-- `IPC_RMID`: the set is removed, and everyone who waits for one of its semaphores woken. -/
def State.removeSet (s : State) (id : ℤ) (set : XsiSemaphoreSet) : Option (Result × State) :=
  let key := set.permissions.key
  -- a key without an entry would make the table follow a null pointer
  if key ≠ -1 ∧ (s.ipcHashTable.lookup key).isNone then none
  else
    let threads := set.semaphores.flatMap fun sem =>
      (sem.waitingToIncreaseQueue ++ sem.waitingToBeZeroQueue).map QueuedThread.thread
    some (.value 0, { s with
      ipcHashTable := if key ≠ -1 then s.ipcHashTable.erase key else s.ipcHashTable
      semaphoreHashTable   := s.semaphoreHashTable.erase id
      xsiSemaphoreCount    := s.xsiSemaphoreCount - set.semaphores.length
      xsiSemaphoreSetCount := s.xsiSemaphoreSetCount - 1 }.unblockAll threads .idRemoved)

structure ControlCall where
  semaphoreID : ℤ
  semaphoreNumber : ℤ
  command : Command
  team : ℕ
  caller : Caller

/-- What a command does that the caller has the permission for -/
def State.control (s : State) (call : ControlCall) (set : XsiSemaphoreSet) :
    Option (Result × State) :=
  let number := call.semaphoreNumber.toNat
  let get (f : XsiSemaphore → ℤ) : Option (Result × State) :=
    set.semaphores[number]?.map fun sem => (.value (f sem), s)
  match call.command with
  | .getVal => get fun sem => sem.value.toNat
  | .getPid => get fun sem => sem.lastPidOperation
  | .getNCnt => get fun sem => sem.threadsWaitingToIncrease.toNat
  | .getZCnt => get fun sem => sem.threadsWaitingToBeZero.toNat
  | .setVal none => some (.error .badAddress, s)
  | .setVal (some value) =>
    if value > 65535 then some (.error .range, s)
    else
      set.semaphores[number]?.map fun sem => (.value 0, s.setSet call.semaphoreID
        { set with
          semaphores := set.semaphores.set number (sem.setValue (BitVec.ofInt 16 value))
          undoList   := clearUndo call.team number set.undoList })
  | .setAll values =>
    let r := setAllValues values set.semaphores
    some (if r.2 then .value 0 else .error .badAddress, s.setSet call.semaphoreID
      { set with
        semaphores := r.1
        undoList   := if r.2 then clearUndos call.team set.undoList else set.undoList })
  | .ipcSet none => some (.error .badAddress, s)
  | .ipcSet (some new) =>
    some (.value 0, s.setSet call.semaphoreID
      { set with
        permissions := { set.permissions with
          uid  := new.uid
          gid  := new.gid
          mode := set.permissions.mode &&& ~~~0x01ff ||| new.mode &&& 0x01ff } })
  | .ipcRmid => s.removeSet call.semaphoreID set
  | .other => some (.error .invalid, s)

/-- `_user_xsi_semctl()` -/
def State.semctl (s : State) (call : ControlCall) : Option (Result × State) :=
  match s.semaphoreHashTable.lookup call.semaphoreID with
  | none => some (.error .invalid, s)
  | some set =>
    if call.semaphoreNumber < 0 ∨ call.semaphoreNumber > set.semaphores.length then
      some (.error .invalid, s)
    else if call.command.isKnown && !set.hasPermission call.caller then
      some (.error .noPermission, s)
    else s.control call set

/-! ## `_user_xsi_semop()` -/

structure OperationCall where
  thread : ℕ
  team : ℕ
  semaphoreID : ℤ
  operations : List SemBuf
  /-- whether the memory for new undo records is there -/
  memory : List Bool

/-- An attempt of a thread, whose call then returns or waits -/
def State.tryOperations (s : State) (call : OperationCall) (set : XsiSemaphoreSet) :
    Option (Result × State) := do
  let a ← attempt call.team call.thread call.operations call.memory set.semaphores set.undoList
  let s := (s.setSet call.semaphoreID
    { set with semaphores := a.semaphores, undoList := a.undoList }).unblockAll a.woken .ok
  match a.outcome with
  | .returns none => return (.value 0, s.setWaiting call.thread none)
  | .returns (some error) => return (.error error, s.setWaiting call.thread none)
  | .sleeps queuedAt op => return (.waits, s.setWaiting call.thread (some
      { team           := call.team
        semaphoreID    := call.semaphoreID
        sequenceNumber := set.sequenceNumber
        operations     := call.operations
        queuedAt       := queuedAt
        op             := op
        wake           := none }))

/-- `_user_xsi_semop()` of a thread that is in no other call, up to where it blocks -/
def State.semop (s : State) (call : OperationCall) : Option (Result × State) :=
  if (s.waiting call.thread).isSome then none
  else
    match s.semaphoreHashTable.lookup call.semaphoreID with
    | none => some (.error .invalid, s)
    | some set =>
      if call.operations.length ≥ maxSemaphoresPerTeam then some (.error .invalid, s)
      else s.tryOperations call set

/-- `_user_xsi_semop()` goes on, after the thread was unblocked. -/
def State.resume (s : State) (thread : ℕ) (memory : List Bool) : Option (Result × State) :=
  match s.waiting thread with
  | none => none
  | some w =>
    match w.wake with
    | none => none
    | some wake =>
      match s.semaphoreHashTable.lookup w.semaphoreID with
      | none => some (.error .idRemoved, s.setWaiting thread none)
      | some set =>
        if wake = .idRemoved ∨ w.sequenceNumber ≠ set.sequenceNumber then
          some (.error .idRemoved, s.setWaiting thread none)
        else if wake = .interrupted then
          let r := set.semaphores.change w.queuedAt fun sem => (sem.deque thread w.onZero, [])
          some (.error .interrupted,
            (s.setSet w.semaphoreID { set with semaphores := r.1 }).setWaiting thread none)
        else s.tryOperations ⟨thread, w.team, w.semaphoreID, w.operations, memory⟩ set

def State.interrupt (s : State) (thread : ℕ) : State :=
  s.setWaiting thread ((s.waiting thread).map (·.unblock .interrupted))

/-! ## `xsi_sem_undo()` -/

/-- The loop of `xsi_sem_undo()` over the semaphores of a set, from a number on -/
def undoValues : List (BitVec 16) → Semaphores → Semaphores × List ℕ
  | value :: values, s :: l =>
    let r := if value ≠ 0 then s.revert value else (s, [])
    let rest := undoValues values l
    (r.1 :: rest.1, r.2 ++ rest.2)
  | _, l => (l, [])

/-- What `xsi_sem_undo()` does with one set -/
def XsiSemaphoreSet.undo (set : XsiSemaphoreSet) (team : ℕ) : XsiSemaphoreSet × List ℕ :=
  match set.undoList.find? (·.team = team) with
  | none => (set, [])
  | some record =>
    let r := undoValues record.undoValues set.semaphores
    ({ set with semaphores := r.1, undoList := set.undoList.eraseP (·.team = team) }, r.2)

/-- `xsi_sem_undo()` on the exit of a team -/
def State.teamExit (s : State) (team : ℕ) : State :=
  let woken := s.semaphoreHashTable.entries.flatMap fun e => (e.2.undo team).2
  { s with
    semaphoreHashTable := Table.mapValues (fun set => (set.undo team).1) s.semaphoreHashTable }.unblockAll
      woken .ok

/-! ## Steps -/

inductive Call
  | semget (call : GetCall)
  | semctl (call : ControlCall)
  | semop (call : OperationCall)
  | resume (thread : ℕ) (memory : List Bool)
  | interrupt (thread : ℕ)
  | teamExit (team : ℕ)

def State.perform (s : State) : Call → Option (Result × State)
  | .semget call => s.semget call
  | .semctl call => s.semctl call
  | .semop call => s.semop call
  | .resume thread memory => s.resume thread memory
  | .interrupt thread => some (.value 0, s.interrupt thread)
  | .teamExit team => some (.value 0, s.teamExit team)

def State.step (s : State) (call : Call) : Option State := (s.perform call).map Prod.snd

end Haiku.Xsi
