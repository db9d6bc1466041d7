import Haiku.Xsi.KeyTheorems
import Haiku.Xsi.QueueTheorems

/-!
# Nobody sleeps who could go on

A thread in a queue waits for an operation on the semaphore of that queue, which cannot be carried
out. Every call keeps this up, as long as threads are queued at the semaphore that they wait for, for
an operation that the values do not allow after all others were taken back, and as long as the
commands that set values set none that somebody waits for: they do not wake anybody.
-/

namespace Haiku.Xsi

open Function Lib

/-! ## The property and the condition -/

def State.Has (s : State) (id : ℤ) (k : ℕ) (sem : XsiSemaphore) : Prop :=
  ∃ set, s.semaphoreHashTable.lookup id = some set ∧ set.semaphores[k]? = some sem

/-- What the claim about those who wait says -/
structure State.NoneCanProceed (s : State) : Prop where
  waits : ∀ id k sem, s.Has id k sem → ∀ zero, ∀ q ∈ sem.queue zero,
    ∃ w, s.waiting q.thread = some w ∧ w.semaphoreID = id ∧ w.op.semNum.toNat = k ∧
      w.op.semOp.toInt = q.count ∧ w.onZero = zero
  zero : ∀ id k sem, s.Has id k sem → sem.waitingToBeZeroQueue ≠ [] → sem.value ≠ 0
  increase : ∀ id k sem, s.Has id k sem → ∀ q ∈ sem.waitingToIncreaseQueue,
    q.count < 0 ∧ (sem.value.toNat : ℤ) < -q.count
  counters : ∀ id k sem, s.Has id k sem →
    sem.threadsWaitingToIncrease.toNat = sem.waitingToIncreaseQueue.length ∧
      sem.threadsWaitingToBeZero.toNat = sem.waitingToBeZeroQueue.length

/-- If the thread has to wait for an operation, the operation cannot be carried out on the values that
were there before the call, and the operation before it is one on the same semaphore. -/
def SleepsInPlace (ops : List SemBuf) (l : Semaphores) : Prop :=
  match firstStop l.length ops (valueAt l) with
  | none => True
  | some (i, op) =>
    op.has ipcNoWait = true ∨ l.length ≤ op.semNum.toNat ∨
      semaphoreAt (ops.take i) op = op.semNum.toNat ∧
        (op.semOp = 0 ∧ valueAt l op.semNum.toNat ≠ 0 ∨
          ((valueAt l op.semNum.toNat).toNat : ℤ) + op.semOp.toInt < 0) ∧
        (queueAt l op.semNum.toNat (op.semOp = 0)).length + 1 < 2 ^ 16

def ControlCall.Reaches (call : ControlCall) (set : XsiSemaphoreSet) : Prop :=
  0 ≤ call.semaphoreNumber ∧ call.semaphoreNumber ≤ set.semaphores.length ∧
    set.hasPermission call.caller = true

/-- The command sets no value that somebody waits for. -/
def Command.SetsQuietly (number : ℕ) (l : Semaphores) : Command → Prop
  | .setVal (some value) => value ≤ 65535 →
      ∀ sem ∈ l[number]?, sem.Admits (BitVec.ofInt 16 value)
  | .setAll values => AdmitAll values l
  | _ => True

/-- The thread that goes on has been woken to try again. -/
def Waiting.Retries (w : Waiting) (set : XsiSemaphoreSet) : Prop :=
  w.wake = some .ok ∧ w.sequenceNumber = set.sequenceNumber

/-- Threads that have to wait are queued where they wait, and no value is set that somebody waits
for. -/
def State.Settles (s : State) : Call → Prop
  | .semop call => call.operations.length < maxSemaphoresPerTeam →
      ∀ set ∈ s.semaphoreHashTable.lookup call.semaphoreID,
        SleepsInPlace call.operations set.semaphores
  | .resume thread _ => ∀ w ∈ s.waiting thread,
      ∀ set ∈ s.semaphoreHashTable.lookup w.semaphoreID,
        w.Retries set → SleepsInPlace w.operations set.semaphores
  | .semctl call => ∀ set ∈ s.semaphoreHashTable.lookup call.semaphoreID,
      call.Reaches set → call.command.SetsQuietly call.semaphoreNumber.toNat set.semaphores
  | _ => True

/-! ## The condition can be decided -/

instance (s : XsiSemaphore) (value : BitVec 16) : Decidable (s.Admits value) :=
  inferInstanceAs (Decidable (_ ∧ _))

instance decidableAdmitAll : ∀ (values : List (Option (BitVec 16))) (l : Semaphores),
    Decidable (AdmitAll values l)
  | some value :: values, s :: l =>
    have := decidableAdmitAll values l
    inferInstanceAs (Decidable (s.Admits value ∧ AdmitAll values l))
  | [], _ => .isTrue trivial
  | none :: _, _ => .isTrue trivial
  | some _ :: _, [] => .isTrue trivial

instance (ops : List SemBuf) (l : Semaphores) : Decidable (SleepsInPlace ops l) :=
  match h : firstStop l.length ops (valueAt l) with
  | none => .isTrue (by rw [SleepsInPlace, h]; trivial)
  | some (i, op) =>
    decidable_of_iff (op.has ipcNoWait = true ∨ l.length ≤ op.semNum.toNat ∨
      semaphoreAt (ops.take i) op = op.semNum.toNat ∧
        (op.semOp = 0 ∧ valueAt l op.semNum.toNat ≠ 0 ∨
          ((valueAt l op.semNum.toNat).toNat : ℤ) + op.semOp.toInt < 0) ∧
        (queueAt l op.semNum.toNat (op.semOp = 0)).length + 1 < 2 ^ 16)
      (by rw [SleepsInPlace, h])

instance (call : ControlCall) (set : XsiSemaphoreSet) : Decidable (call.Reaches set) :=
  inferInstanceAs (Decidable (_ ∧ _ ∧ _))

instance (number : ℕ) (l : Semaphores) :
    ∀ command : Command, Decidable (command.SetsQuietly number l)
  | .setVal (some value) => inferInstanceAs (Decidable (value ≤ 65535 →
      ∀ sem ∈ l[number]?, sem.Admits (BitVec.ofInt 16 value)))
  | .setAll values => inferInstanceAs (Decidable (AdmitAll values l))
  | .setVal none | .getVal | .getPid | .getNCnt | .getZCnt | .ipcSet _ | .ipcRmid | .other =>
    inferInstanceAs (Decidable True)

instance (w : Waiting) (set : XsiSemaphoreSet) : Decidable (w.Retries set) :=
  inferInstanceAs (Decidable (_ ∧ _))

instance (s : State) : ∀ call : Call, Decidable (s.Settles call)
  | .semop call => inferInstanceAs (Decidable (call.operations.length < maxSemaphoresPerTeam →
      ∀ set ∈ s.semaphoreHashTable.lookup call.semaphoreID,
        SleepsInPlace call.operations set.semaphores))
  | .resume thread _ => inferInstanceAs (Decidable (∀ w ∈ s.waiting thread,
      ∀ set ∈ s.semaphoreHashTable.lookup w.semaphoreID,
        w.Retries set → SleepsInPlace w.operations set.semaphores))
  | .semctl call => inferInstanceAs (Decidable (
      ∀ set ∈ s.semaphoreHashTable.lookup call.semaphoreID, call.Reaches set →
        call.command.SetsQuietly call.semaphoreNumber.toNat set.semaphores))
  | .semget _ | .interrupt _ | .teamExit _ => inferInstanceAs (Decidable True)

/-! ## The invariant -/

structure Waiting.Queued (w : Waiting) (id : ℤ) (set : XsiSemaphoreSet) (k : ℕ) (zero : Bool)
    (q : QueuedThread) : Prop where
  id : w.semaphoreID = id
  sequence : w.sequenceNumber = set.sequenceNumber
  place : w.queuedAt = k
  number : w.op.semNum.toNat = k
  count : w.op.semOp.toInt = q.count
  zero : w.onZero = zero
  asleep : w.wake = none ∨ w.wake = some .interrupted

namespace State

structure Inv (s : State) : Prop where
  settled : ∀ id set, s.semaphoreHashTable.lookup id = some set → AllSettled set.semaphores
  small : ∀ id set, s.semaphoreHashTable.lookup id = some set →
    set.semaphores.length < maxSemaphoresPerTeam
  queued : ∀ id set, s.semaphoreHashTable.lookup id = some set → ∀ k zero,
    ∀ q ∈ queueAt set.semaphores k zero,
      ∃ w, s.waiting q.thread = some w ∧ w.Queued id set k zero q

def NotQueued (s : State) (thread : ℕ) : Prop :=
  ∀ id set, s.semaphoreHashTable.lookup id = some set → ∀ k zero,
    ∀ q ∈ queueAt set.semaphores k zero, q.thread ≠ thread

variable {s s' : State} {id id' : ℤ} {set set' : XsiSemaphoreSet} {k k' thread : ℕ}
  {zero zero' : Bool} {q q' : QueuedThread} {woken : List ℕ} {l : Semaphores} {w : Waiting}

lemma inv_initial : State.initial.Inv where
  settled id set h := by cases h
  small id set h := by cases h
  queued id set h := by cases h

section

variable (h : s.Inv)
include h

lemma Inv.toNoneCanProceed : s.NoneCanProceed where
  waits id k sem hhas zero q hq := by
    obtain ⟨set, hl, hsem⟩ := hhas
    obtain ⟨w, hw, hqueued⟩ := h.queued id set hl k zero q (by rw [queueAt_of_getElem? hsem]; exact hq)
    exact ⟨w, hw, hqueued.id, hqueued.number, hqueued.count, hqueued.zero⟩
  zero id k sem hhas hne hvalue := by
    obtain ⟨set, hl, hsem⟩ := hhas
    exact hne (((h.settled id set hl).getElem? hsem).nonzero hvalue)
  increase id k sem hhas q hq := by
    obtain ⟨set, hl, hsem⟩ := hhas
    have hsettled := (h.settled id set hl).getElem? hsem
    have hblocked := hsettled.blocked q hq
    exact ⟨hsettled.negative q hq, by omega⟩
  counters id k sem hhas := by
    obtain ⟨set, hl, hsem⟩ := hhas
    have hsettled := (h.settled id set hl).getElem? hsem
    exact ⟨hsettled.increase, hsettled.zero⟩

lemma Inv.unique (hl : s.semaphoreHashTable.lookup id = some set)
    (hq : q ∈ queueAt set.semaphores k zero) (hl' : s.semaphoreHashTable.lookup id' = some set')
    (hq' : q' ∈ queueAt set'.semaphores k' zero') (ht : q.thread = q'.thread) :
    id = id' ∧ k = k' ∧ zero = zero' := by
  obtain ⟨w, hw, hqueued⟩ := h.queued id set hl k zero q hq
  obtain ⟨w', hw', hqueued'⟩ := h.queued id' set' hl' k' zero' q' hq'
  rw [ht, hw'] at hw
  cases hw
  refine ⟨?_, ?_, ?_⟩
  · exact hqueued.id.symm.trans hqueued'.id
  · exact hqueued.place.symm.trans hqueued'.place
  · exact hqueued.zero.symm.trans hqueued'.zero

lemma Inv.unblockAll (hwaiting : s'.waiting = s.waiting)
    (hsets : ∀ id set', s'.semaphoreHashTable.lookup id = some set' →
      ∃ set, s.semaphoreHashTable.lookup id = some set ∧
        set'.sequenceNumber = set.sequenceNumber ∧
        set'.semaphores.length = set.semaphores.length ∧ AllSettled set'.semaphores ∧
        ∀ k zero, ∀ q ∈ queueAt set'.semaphores k zero, q ∈ queueAt set.semaphores k zero)
    (hwoken : ∀ t ∈ woken, s'.NotQueued t) (wake : Wake) : (s'.unblockAll woken wake).Inv where
  settled id set' hl := by
    obtain ⟨set, _, _, _, hsettled, _⟩ := hsets id set' hl
    exact hsettled
  small id set' hl := by
    obtain ⟨set, hold, _, hlength, _⟩ := hsets id set' hl
    rw [hlength]
    exact h.small id set hold
  queued id set' hl k zero q hq := by
    obtain ⟨set, hold, hsequence, _, _, hqueue⟩ := hsets id set' hl
    obtain ⟨w, hw, hqueued⟩ := h.queued id set hold k zero q (hqueue k zero q hq)
    have hasleep : q.thread ∉ woken := fun ht => hwoken q.thread ht id set' hl k zero q hq rfl
    refine ⟨w, ?_, ?_⟩
    · show (if q.thread ∈ woken then _ else s'.waiting q.thread) = some w
      rw [if_neg hasleep, hwaiting]
      exact hw
    · exact ⟨hqueued.id, hqueued.sequence.trans hsequence.symm, hqueued.place, hqueued.number,
        hqueued.count, hqueued.zero, hqueued.asleep⟩

lemma Inv.setWaiting (hnot : s.NotQueued thread) (w : Option Waiting) :
    (s.setWaiting thread w).Inv where
  settled := h.settled
  small := h.small
  queued id set hl k zero q hq := by
    obtain ⟨w', hw', hqueued⟩ := h.queued id set hl k zero q hq
    refine ⟨w', ?_, hqueued⟩
    show update s.waiting thread w q.thread = some w'
    rw [update_of_ne (hnot id set hl k zero q hq)]
    exact hw'

lemma Inv.notQueued_of_none (hw : s.waiting thread = none) : s.NotQueued thread := by
  intro id set hl k zero q hq ht
  obtain ⟨w, hw', _⟩ := h.queued id set hl k zero q hq
  rw [ht, hw] at hw'
  cases hw'

lemma Inv.queued_at (hw : s.waiting thread = some w)
    (hl : s.semaphoreHashTable.lookup id = some set) (hq : q ∈ queueAt set.semaphores k zero)
    (ht : q.thread = thread) : w.Queued id set k zero q := by
  obtain ⟨w', hw', hqueued⟩ := h.queued id set hl k zero q hq
  rw [ht, hw] at hw'
  cases hw'
  exact hqueued

section

variable (hl : s.semaphoreHashTable.lookup id = some set)
include hl

lemma Inv.wake (hsequence : set'.sequenceNumber = set.sequenceNumber)
    (hlength : set'.semaphores.length = set.semaphores.length)
    (hwoken : Woken set.semaphores set'.semaphores woken) (wake : Wake) :
    ((s.setSet id set').unblockAll woken wake).Inv := by
  have hsets : ∀ id₁ set₁, (s.setSet id set').semaphoreHashTable.lookup id₁ = some set₁ →
      ∃ set, s.semaphoreHashTable.lookup id₁ = some set ∧
        set₁.sequenceNumber = set.sequenceNumber ∧
        set₁.semaphores.length = set.semaphores.length ∧ AllSettled set₁.semaphores ∧
        ∀ k zero, ∀ q ∈ queueAt set₁.semaphores k zero, q ∈ queueAt set.semaphores k zero := by
    intro id₁ set₁ hl₁
    rcases Table.lookup_insert_cases hl₁ with ⟨he, he'⟩ | ⟨_, hold⟩
    · rw [he, he']
      exact ⟨set, hl, hsequence, hlength, hwoken.settled (h.settled id set hl), hwoken.queue⟩
    · exact ⟨set₁, hold, rfl, rfl, h.settled id₁ set₁ hold, fun _ _ _ hq => hq⟩
  have hsame : (s.setSet id set').waiting = s.waiting := rfl
  apply h.unblockAll hsame hsets
  intro t ht id₁ set₁ hl₁ k₁ zero₁ q₁ hq₁ hthread
  obtain ⟨k, zero, q, hq, hqthread, hnil⟩ := hwoken.woken t ht
  obtain ⟨old, hold, _, _, _, hqueue⟩ := hsets id₁ set₁ hl₁
  -- the thread was in the queue that is empty now, so it is not in another one
  obtain ⟨hid, hk, hzero⟩ := h.unique hl hq hold (hqueue k₁ zero₁ q₁ hq₁) (hqthread.trans hthread.symm)
  rw [← hid] at hl₁
  have hset₁ : set₁ = set' := by
    rcases Table.lookup_insert_cases hl₁ with ⟨_, he⟩ | ⟨hne, _⟩
    · exact he
    · exact absurd rfl hne
  rw [hset₁, ← hk, ← hzero, hnil] at hq₁
  cases hq₁

lemma Inv.setSet (hsequence : set'.sequenceNumber = set.sequenceNumber)
    (hlength : set'.semaphores.length = set.semaphores.length)
    (hsettled : AllSettled set'.semaphores)
    (hqueue : ∀ k zero, ∀ q ∈ queueAt set'.semaphores k zero, q ∈ queueAt set.semaphores k zero) :
    (s.setSet id set').Inv := by
  have hwoken : Woken set.semaphores set'.semaphores [] := by
    constructor
    · exact fun _ => hsettled
    · exact hqueue
    · intro t ht
      cases ht
  exact h.wake hl hsequence hlength hwoken .ok

/-! ## `_user_xsi_semop()` -/

lemma Inv.enqueue
    (hnot : s.NotQueued thread) {entry : QueuedThread} (hentry : entry.thread = thread)
    {sem new : XsiSemaphore} (hsem : set.semaphores[k]? = some sem) (hnew : new.Settled)
    (hqueue : ∀ zero' q, q ∈ new.queue zero' → q ∈ sem.queue zero' ∨ zero = zero' ∧ q = entry)
    (hsequence : set'.sequenceNumber = set.sequenceNumber)
    (hsemaphores : set'.semaphores = set.semaphores.set k new)
    (hw : w.Queued id set' k zero entry) : ((s.setSet id set').setWaiting thread (some w)).Inv := by
  have hcases : ∀ id₁ set₁, (s.setSet id set').semaphoreHashTable.lookup id₁ = some set₁ →
      id₁ = id ∧ set₁ = set' ∨ id₁ ≠ id ∧ s.semaphoreHashTable.lookup id₁ = some set₁ :=
    fun id₁ set₁ hl₁ => Table.lookup_insert_cases hl₁
  constructor
  · intro id₁ set₁ hl₁
    rcases hcases id₁ set₁ hl₁ with ⟨_, he⟩ | ⟨_, hold⟩
    · rw [he, hsemaphores]
      exact (h.settled id set hl).set hnew k
    · exact h.settled id₁ set₁ hold
  · intro id₁ set₁ hl₁
    rcases hcases id₁ set₁ hl₁ with ⟨_, he⟩ | ⟨_, hold⟩
    · rw [he, hsemaphores, List.length_set]
      exact h.small id set hl
    · exact h.small id₁ set₁ hold
  · -- who was queued before waits as before
    have hbefore : ∀ id₁ set₁, s.semaphoreHashTable.lookup id₁ = some set₁ → ∀ k₁ zero₁,
        ∀ q ∈ queueAt set₁.semaphores k₁ zero₁, ∃ w₁,
          ((s.setSet id set').setWaiting thread (some w)).waiting q.thread = some w₁ ∧
            w₁.Queued id₁ set₁ k₁ zero₁ q := by
      intro id₁ set₁ hl₁ k₁ zero₁ q hq
      obtain ⟨w₁, hw₁, hqueued⟩ := h.queued id₁ set₁ hl₁ k₁ zero₁ q hq
      refine ⟨w₁, ?_, hqueued⟩
      show update s.waiting thread (some w) q.thread = some w₁
      rw [update_of_ne (hnot id₁ set₁ hl₁ k₁ zero₁ q hq)]
      exact hw₁
    intro id₁ set₁ hl₁ k₁ zero₁ q hq
    rcases hcases id₁ set₁ hl₁ with ⟨hid, he⟩ | ⟨_, hold⟩
    · have hold : q ∈ queueAt set.semaphores k₁ zero₁ → ∃ w₁,
          ((s.setSet id set').setWaiting thread (some w)).waiting q.thread = some w₁ ∧
            w₁.Queued id₁ set₁ k₁ zero₁ q := by
        intro hq
        obtain ⟨w₁, hw₁, hqueued⟩ := hbefore id set hl k₁ zero₁ q hq
        refine ⟨w₁, hw₁, ?_⟩
        rw [hid, he]
        exact ⟨hqueued.id, hqueued.sequence.trans hsequence.symm, hqueued.place, hqueued.number,
          hqueued.count, hqueued.zero, hqueued.asleep⟩
      rw [he, hsemaphores, queueAt_set hsem] at hq
      by_cases hk : k = k₁
      · rw [if_pos hk] at hq
        rcases hqueue zero₁ q hq with hq | ⟨hzero, hq⟩
        · apply hold
          rw [← hk, queueAt_of_getElem? hsem]
          exact hq
        · refine ⟨w, ?_, ?_⟩
          · show update s.waiting thread (some w) q.thread = some w
            rw [hq, hentry, update_self]
          · rw [hid, he, hq, ← hk, ← hzero]
            exact hw
      · rw [if_neg hk] at hq
        exact hold hq
    · exact hbefore id₁ set₁ hold k₁ zero₁ q hq

end

end

variable {result : Result}

section

variable (h : s.Inv)
include h

lemma Inv.tryOperations {call : OperationCall}
    (hl : s.semaphoreHashTable.lookup call.semaphoreID = some set)
    (hnot : s.NotQueued call.thread) (hsleeps : SleepsInPlace call.operations set.semaphores)
    (hc : s.tryOperations call set = some (result, s')) : s'.Inv := by
  unfold State.tryOperations at hc
  obtain ⟨a, ha, hc⟩ := Option.bind_eq_some_iff.1 hc
  dsimp only at hc
  have hsmall := h.small call.semaphoreID set hl
  -- a call that returns has only woken threads
  have hreturns : ∀ result, a.outcome = .returns result →
      (((s.setSet call.semaphoreID
        { set with semaphores := a.semaphores, undoList := a.undoList }).unblockAll a.woken
          .ok).setWaiting call.thread none).Inv := by
    intro result he
    have hwoken := woken_attempt ha he
    have hlength := length_attempt ha
    have hwake : ((s.setSet call.semaphoreID
        { set with semaphores := a.semaphores, undoList := a.undoList }).unblockAll a.woken
          .ok).Inv := h.wake hl (by rfl) hlength hwoken .ok
    apply hwake.setWaiting
    intro id₁ set₁ hl₁ k₁ zero₁ q hq
    rcases Table.lookup_insert_cases hl₁ with ⟨hid, he⟩ | ⟨_, hold⟩
    · rw [he] at hq
      exact hnot call.semaphoreID set hl k₁ zero₁ q (hwoken.queue k₁ zero₁ q hq)
    · exact hnot id₁ set₁ hold k₁ zero₁ q hq
  generalize houtcome : a.outcome = outcome at hc hreturns
  cases outcome with
  | returns result =>
    cases result with
    | none =>
      cases hc
      exact hreturns none rfl
    | some error =>
      cases hc
      exact hreturns (some error) rfl
  | sleeps queuedAt op =>
    cases hc
    obtain ⟨i, hstop, hinside, hwait, hplace, mid, hwoken, hlength, hvalues, hafter⟩ :=
      attempt_blocks ha hsmall houtcome
    unfold SleepsInPlace at hsleeps
    rw [hstop] at hsleeps
    dsimp only at hsleeps
    obtain ⟨hsame, hblocks, hroom⟩ : semaphoreAt (call.operations.take i) op = op.semNum.toNat ∧
        (op.semOp = 0 ∧ valueAt set.semaphores op.semNum.toNat ≠ 0 ∨
          ((valueAt set.semaphores op.semNum.toNat).toNat : ℤ) + op.semOp.toInt < 0) ∧
        (queueAt set.semaphores op.semNum.toNat (op.semOp = 0)).length + 1 < 2 ^ 16 := by
      rcases hsleeps with hnever | hout | hgood
      · rw [hwait] at hnever
        cases hnever
      · omega
      · exact hgood
    have hk : queuedAt = op.semNum.toNat := hplace.trans hsame
    -- first the attempt wakes threads, then it queues its own
    let before : XsiSemaphoreSet := { set with semaphores := mid, undoList := a.undoList }
    have hbefore : ((s.setSet call.semaphoreID before).unblockAll a.woken .ok).Inv :=
      h.wake hl (by rfl) hlength hwoken .ok
    have hlookup : ((s.setSet call.semaphoreID before).unblockAll a.woken
        .ok).semaphoreHashTable.lookup call.semaphoreID = some before := AList.lookup_insert _
    have hnotBefore : ((s.setSet call.semaphoreID before).unblockAll a.woken .ok).NotQueued
        call.thread := by
      intro id₁ set₁ hl₁ k₁ zero₁ q hq
      rcases Table.lookup_insert_cases hl₁ with ⟨hid, he⟩ | ⟨_, hold⟩
      · rw [he] at hq
        exact hnot call.semaphoreID set hl k₁ zero₁ q (hwoken.queue k₁ zero₁ q hq)
      · exact hnot id₁ set₁ hold k₁ zero₁ q hq
    have hin : queuedAt < mid.length := by omega
    have hsem : mid[queuedAt]? = some mid[queuedAt] := List.getElem?_eq_getElem hin
    have hvalue : mid[queuedAt].value = valueAt set.semaphores op.semNum.toNat := by
      rw [← hvalues, ← hk, valueAt_of_getElem? hsem]
    have hlonger : ∀ zero, (mid[queuedAt].queue zero).length ≤
        (queueAt set.semaphores op.semNum.toNat zero).length := by
      intro zero
      have hsub : mid[queuedAt].queue zero ⊆ queueAt set.semaphores op.semNum.toNat zero := by
        intro q hq
        rw [← hk]
        apply hwoken.queue queuedAt zero q
        rw [queueAt_of_getElem? hsem]
        exact hq
      have hmid := (hwoken.settled (h.settled _ set hl)).getElem? hsem
      have hnodup : (mid[queuedAt].queue zero).Nodup := (hmid.nodup zero).of_map _
      exact (hnodup.subperm hsub).length_le
    have hblocked : op.Blocks mid[queuedAt] := by
      unfold SemBuf.Blocks
      rw [hvalue]
      exact hblocks
    have hnobody : ∀ zero, ∀ q ∈ mid[queuedAt].queue zero, q.thread ≠ call.thread := by
      intro zero q hq
      apply hnotBefore call.semaphoreID before hlookup queuedAt zero q
      rw [queueAt_of_getElem? hsem]
      exact hq
    have hfits : (mid[queuedAt].queue (op.semOp = 0)).length + 1 < 2 ^ 16 := by
      have hle := hlonger (op.semOp = 0)
      omega
    have hnew : (mid[queuedAt].enqueue ⟨call.thread, op.semOp.toInt⟩ (op.semOp = 0)).Settled :=
      ((hwoken.settled (h.settled _ set hl)).getElem? hsem).enqueue hblocked hnobody hfits
    have hqueue : ∀ zero' q,
        q ∈ (mid[queuedAt].enqueue ⟨call.thread, op.semOp.toInt⟩ (op.semOp = 0)).queue zero' →
          q ∈ mid[queuedAt].queue zero' ∨
            decide (op.semOp = 0) = zero' ∧ q = ⟨call.thread, op.semOp.toInt⟩ := by
      intro zero' q hq
      exact (XsiSemaphore.mem_queue_enqueue _ _ _ _).1 hq
    have hsemaphores : a.semaphores = mid.set queuedAt
        (mid[queuedAt].enqueue ⟨call.thread, op.semOp.toInt⟩ (op.semOp = 0)) := by
      rw [hafter]
      unfold Semaphores.change
      rw [hsem]
    let after : XsiSemaphoreSet := { set with semaphores := a.semaphores, undoList := a.undoList }
    let waiting : Waiting :=
      { team           := call.team
        semaphoreID    := call.semaphoreID
        sequenceNumber := set.sequenceNumber
        operations     := call.operations
        queuedAt       := queuedAt
        op             := op
        wake           := none }
    have hwaiting : waiting.Queued call.semaphoreID after queuedAt (op.semOp = 0)
        ⟨call.thread, op.semOp.toInt⟩ := ⟨rfl, rfl, rfl, hk.symm, rfl, rfl, Or.inl rfl⟩
    have hqueued : ((((s.setSet call.semaphoreID before).unblockAll a.woken .ok).setSet
        call.semaphoreID after).setWaiting call.thread (some waiting)).Inv :=
      hbefore.enqueue hlookup hnotBefore (by rfl) hsem hnew hqueue (by rfl) hsemaphores hwaiting
    have hsame : ((s.setSet call.semaphoreID before).unblockAll a.woken .ok).setSet
        call.semaphoreID after = (s.setSet call.semaphoreID after).unblockAll a.woken .ok := by
      unfold State.setSet State.unblockAll
      rw [AList.insert_insert]
    rw [hsame] at hqueued
    exact hqueued

lemma Inv.semop {call : OperationCall} (hok : s.Settles (.semop call))
    (hc : s.semop call = some (result, s')) : s'.Inv := by
  unfold State.semop at hc
  by_cases hwaiting : (s.waiting call.thread).isSome = true
  · rw [if_pos hwaiting] at hc
    cases hc
  · rw [if_neg hwaiting] at hc
    split at hc
    · cases hc
      exact h
    next set hl =>
      by_cases hmany : call.operations.length ≥ maxSemaphoresPerTeam
      · rw [if_pos hmany] at hc
        cases hc
        exact h
      · rw [if_neg hmany] at hc
        have hnone : s.waiting call.thread = none := by simpa using hwaiting
        exact h.tryOperations hl (h.notQueued_of_none hnone) (hok (by omega) set hl) hc

lemma Inv.deque (hw : s.waiting thread = some w)
    (hl : s.semaphoreHashTable.lookup w.semaphoreID = some set) :
    ((s.setSet w.semaphoreID { set with
      semaphores := (set.semaphores.change w.queuedAt
        fun sem => (sem.deque thread w.onZero, [])).1 }).setWaiting thread none).Inv := by
  have hsettled := h.settled _ set hl
  unfold Semaphores.change
  cases hsem : set.semaphores[w.queuedAt]? with
  | none =>
    -- it was in no queue of this set
    apply Inv.setWaiting
    · exact h.setSet hl (by rfl) (by rfl) hsettled (fun _ _ _ hq => hq)
    · intro id₁ set₁ hl₁ k₁ zero₁ q hq ht
      rcases Table.lookup_insert_cases hl₁ with ⟨_, he⟩ | ⟨hne, hold⟩
      · rw [he] at hq
        have hqueued := h.queued_at hw hl hq ht
        obtain ⟨sem, hsem', _⟩ := exists_of_mem_queueAt hq
        rw [← hqueued.place, hsem] at hsem'
        cases hsem'
      · exact hne (h.queued_at hw hold hq ht).id.symm
  | some sem =>
    dsimp only
    have hold := hsettled.getElem? hsem
    have hmem : ∀ k zero, ∀ q ∈ queueAt (set.semaphores.set w.queuedAt
        (sem.deque thread w.onZero)) k zero, q ∈ queueAt set.semaphores k zero ∧
          (k = w.queuedAt → zero = w.onZero → q.thread ≠ thread) := by
      intro k zero q hq
      rw [queueAt_set hsem] at hq
      by_cases hk : w.queuedAt = k
      · rw [if_pos hk] at hq
        obtain ⟨hin, hgone⟩ := hold.mem_queue_deque hq
        rw [← hk, queueAt_of_getElem? hsem]
        exact ⟨hin, fun _ hzero => hgone hzero⟩
      · rw [if_neg hk] at hq
        exact ⟨hq, fun he => absurd he.symm hk⟩
    have hdequed : AllSettled (set.semaphores.set w.queuedAt (sem.deque thread w.onZero)) :=
      hsettled.set (hold.deque thread w.onZero) w.queuedAt
    apply Inv.setWaiting
    · exact h.setSet hl (by rfl) List.length_set hdequed fun k zero q hq => (hmem k zero q hq).1
    · intro id₁ set₁ hl₁ k₁ zero₁ q hq ht
      rcases Table.lookup_insert_cases hl₁ with ⟨_, he⟩ | ⟨hne, hold⟩
      · rw [he] at hq
        obtain ⟨hin, hgone⟩ := hmem k₁ zero₁ q hq
        have hqueued := h.queued_at hw hl hin ht
        exact hgone hqueued.place.symm hqueued.zero.symm ht
      · exact hne (h.queued_at hw hold hq ht).id.symm

lemma Inv.resume {memory : List Bool} (hok : s.Settles (.resume thread memory))
    (hc : s.resume thread memory = some (result, s')) : s'.Inv := by
  unfold State.resume at hc
  cases hw : s.waiting thread with
  | none =>
    rw [hw] at hc
    cases hc
  | some w =>
    rw [hw] at hc
    dsimp only at hc
    cases hwake : w.wake with
    | none =>
      rw [hwake] at hc
      cases hc
    | some wake =>
      rw [hwake] at hc
      dsimp only at hc
      -- a thread that is in a queue waits for a set that is there, and was interrupted
      have hqueued : ∀ id₁ set₁, s.semaphoreHashTable.lookup id₁ = some set₁ → ∀ k₁ zero₁,
          ∀ q ∈ queueAt set₁.semaphores k₁ zero₁, q.thread = thread →
            w.semaphoreID = id₁ ∧ w.sequenceNumber = set₁.sequenceNumber ∧ wake = .interrupted := by
        intro id₁ set₁ hl₁ k₁ zero₁ q hq ht
        have hqueued := h.queued_at hw hl₁ hq ht
        refine ⟨hqueued.id, hqueued.sequence, ?_⟩
        rcases hqueued.asleep with hnone | hinterrupted
        · rw [hwake] at hnone
          cases hnone
        · rw [hwake] at hinterrupted
          exact Option.some.inj hinterrupted
      cases hl : s.semaphoreHashTable.lookup w.semaphoreID with
      | none =>
        rw [hl] at hc
        cases hc
        apply h.setWaiting
        intro id₁ set₁ hl₁ k₁ zero₁ q hq ht
        rw [(hqueued id₁ set₁ hl₁ k₁ zero₁ q hq ht).1, hl₁] at hl
        cases hl
      | some set =>
        rw [hl] at hc
        dsimp only at hc
        by_cases hgone : wake = .idRemoved ∨ w.sequenceNumber ≠ set.sequenceNumber
        · rw [if_pos hgone] at hc
          cases hc
          apply h.setWaiting
          intro id₁ set₁ hl₁ k₁ zero₁ q hq ht
          obtain ⟨hid, hsequence, hinterrupted⟩ := hqueued id₁ set₁ hl₁ k₁ zero₁ q hq ht
          rw [hid, hl₁] at hl
          rw [Option.some.inj hl] at hsequence
          rcases hgone with hremoved | hother
          · rw [hremoved] at hinterrupted
            cases hinterrupted
          · exact hother hsequence
        · rw [if_neg hgone] at hc
          by_cases hinterrupted : wake = .interrupted
          · rw [if_pos hinterrupted] at hc
            cases hc
            exact h.deque hw hl
          · rw [if_neg hinterrupted] at hc
            have hawake : wake = .ok := by
              cases wake with
              | ok => rfl
              | idRemoved => exact absurd (Or.inl rfl) hgone
              | interrupted => exact absurd rfl hinterrupted
            have hnot : s.NotQueued thread := by
              intro id₁ set₁ hl₁ k₁ zero₁ q hq ht
              exact hinterrupted (hqueued id₁ set₁ hl₁ k₁ zero₁ q hq ht).2.2
            have hretries : w.Retries set :=
              ⟨by rw [hwake, hawake], not_not.1 fun hne => hgone (Or.inr hne)⟩
            have hsleeps := hok w hw set hl hretries
            let call : OperationCall := ⟨thread, w.team, w.semaphoreID, w.operations, memory⟩
            have hcall : s.tryOperations call set = some (result, s') := hc
            exact h.tryOperations hl hnot hsleeps hcall

/-! ## The other calls -/

lemma Inv.createSet {call : GetCall} (hc : s.createSet call = some (result, s')) : s'.Inv := by
  unfold State.createSet at hc
  split_ifs at hc with hnumber hspace hmemory
  · cases hc
    exact h
  · cases hc
    exact h
  · cases hc
    exact h
  obtain ⟨id, hid, hc⟩ := Option.bind_eq_some_iff.1 hc
  cases hc
  have hqueue : ∀ k zero, queueAt (List.replicate call.numberOfSemaphores.toNat
      XsiSemaphore.new) k zero = [] := by
    intro k zero
    unfold queueAt
    rw [List.getElem?_replicate]
    split
    · cases zero <;> rfl
    · rfl
  constructor
  · intro id₁ set₁ hl₁
    rcases Table.lookup_insert_cases hl₁ with ⟨_, he⟩ | ⟨_, hold⟩
    · rw [he]
      intro sem hsem
      rw [List.eq_of_mem_replicate hsem]
      exact XsiSemaphore.settled_new
    · exact h.settled id₁ set₁ hold
  · intro id₁ set₁ hl₁
    rcases Table.lookup_insert_cases hl₁ with ⟨_, he⟩ | ⟨_, hold⟩
    · rw [he]
      show (List.replicate call.numberOfSemaphores.toNat XsiSemaphore.new).length < _
      rw [List.length_replicate]
      omega
    · exact h.small id₁ set₁ hold
  · intro id₁ set₁ hl₁ k zero q hq
    rcases Table.lookup_insert_cases hl₁ with ⟨_, he⟩ | ⟨_, hold⟩
    · rw [he] at hq
      have hnil := hqueue k zero
      unfold XsiSemaphoreSet.new at hq
      rw [hnil] at hq
      cases hq
    · exact h.queued id₁ set₁ hold k zero q hq

lemma Inv.of_same (hsets : s'.semaphoreHashTable = s.semaphoreHashTable)
    (hwaiting : s'.waiting = s.waiting) : s'.Inv where
  settled := by
    rw [hsets]
    exact h.settled
  small := by
    rw [hsets]
    exact h.small
  queued := by
    rw [hsets, hwaiting]
    exact h.queued

lemma Inv.semget {call : GetCall} (hc : s.semget call = some (result, s')) : s'.Inv := by
  unfold State.semget at hc
  by_cases hprivate : call.key = ipcPrivate
  · rw [if_pos hprivate] at hc
    exact h.createSet hc
  · rw [if_neg hprivate] at hc
    split at hc
    · split_ifs at hc
      · cases hc
        exact h
      · cases hc
        exact h
      · have hkey : State.Inv
            { s with ipcHashTable := s.ipcHashTable.insert call.key (-1) } := h.of_same rfl rfl
        exact hkey.createSet hc
    · split_ifs at hc
      · cases hc
        exact h
      · split at hc
        · cases hc
        · split_ifs at hc
          all_goals
            cases hc
            exact h

lemma Inv.removeSet (hl : s.semaphoreHashTable.lookup id = some set)
    (hc : s.removeSet id set = some (result, s')) : s'.Inv := by
  unfold State.removeSet at hc
  dsimp only at hc
  split_ifs at hc
  all_goals
    cases hc
    apply h.unblockAll
    · rfl
    · intro id₁ set₁ hl₁
      obtain ⟨_, hold⟩ := Table.lookup_of_erase hl₁
      exact ⟨set₁, hold, rfl, rfl, h.settled id₁ set₁ hold, fun _ _ _ hq => hq⟩
    · -- all of them were in queues of the set that is gone
      intro t ht id₁ set₁ hl₁ k₁ zero₁ q₁ hq₁ hthread
      obtain ⟨hne, hold⟩ := Table.lookup_of_erase hl₁
      obtain ⟨sem, hsem, ht⟩ := List.mem_flatMap.1 ht
      obtain ⟨q, hq, hqt⟩ := List.mem_map.1 ht
      obtain ⟨k, hk⟩ := List.mem_iff_getElem?.1 hsem
      have hin : ∃ zero, q ∈ queueAt set.semaphores k zero := by
        rcases List.mem_append.1 hq with hq | hq
        · exact ⟨false, by rw [queueAt_of_getElem? hk]; exact hq⟩
        · exact ⟨true, by rw [queueAt_of_getElem? hk]; exact hq⟩
      obtain ⟨zero, hin⟩ := hin
      obtain ⟨hid, _⟩ := h.unique hl hin hold hq₁ (hqt.trans hthread.symm)
      exact hne hid.symm

end

lemma queueAt_setValue {sem : XsiSemaphore} (hsem : l[k]? = some sem) (value : BitVec 16)
    (k' : ℕ) (zero : Bool) :
    queueAt (l.set k (sem.setValue value)) k' zero = queueAt l k' zero := by
  rw [queueAt_set hsem]
  split
  next hk =>
    rw [← hk, queueAt_of_getElem? hsem]
    rfl
  · rfl

lemma Inv.control (h : s.Inv) {call : ControlCall}
    (hl : s.semaphoreHashTable.lookup call.semaphoreID = some set)
    (hquiet : call.command.SetsQuietly call.semaphoreNumber.toNat set.semaphores)
    (hc : s.control call set = some (result, s')) : s'.Inv := by
  have hsettled := h.settled _ set hl
  have hget : ∀ f : XsiSemaphore → ℤ,
      (set.semaphores[call.semaphoreNumber.toNat]?.map fun sem => (Result.value (f sem), s)) =
        some (result, s') → s'.Inv := by
    intro f hf
    obtain ⟨_, _, he⟩ := Option.map_eq_some_iff.1 hf
    cases he
    exact h
  unfold State.control at hc
  generalize call.command = command at hc hquiet
  cases command with
  | getVal => exact hget _ hc
  | getPid => exact hget _ hc
  | getNCnt => exact hget _ hc
  | getZCnt => exact hget _ hc
  | setVal value =>
    cases value with
    | none =>
      cases hc
      exact h
    | some value =>
      dsimp only at hc
      by_cases hlarge : value > 65535
      · rw [if_pos hlarge] at hc
        cases hc
        exact h
      · rw [if_neg hlarge] at hc
        obtain ⟨sem, hsem, he⟩ := Option.map_eq_some_iff.1 hc
        cases he
        have hadmits := hquiet (by omega) sem hsem
        have hset : AllSettled (set.semaphores.set call.semaphoreNumber.toNat
            (sem.setValue (BitVec.ofInt 16 value))) :=
          hsettled.set ((hsettled.getElem? hsem).setValue hadmits) _
        apply h.setSet hl (by rfl) List.length_set hset
        intro k zero q hq
        exact queueAt_setValue hsem _ k zero ▸ hq
  | setAll values =>
    cases hc
    apply h.setSet hl (by rfl) (length_setAllValues _ _) (hsettled.setAllValues hquiet)
    intro k zero q hq
    exact queueAt_setAllValues values _ k zero ▸ hq
  | ipcSet permissions =>
    cases permissions with
    | none =>
      cases hc
      exact h
    | some new =>
      cases hc
      exact h.setSet hl (by rfl) (by rfl) hsettled fun _ _ _ hq => hq
  | ipcRmid => exact h.removeSet hl hc
  | other =>
    cases hc
    exact h

lemma Inv.semctl (h : s.Inv) {call : ControlCall} (hok : s.Settles (.semctl call))
    (hc : s.semctl call = some (result, s')) : s'.Inv := by
  unfold State.semctl at hc
  split at hc
  · cases hc
    exact h
  next set hl =>
    by_cases hnumber : call.semaphoreNumber < 0 ∨ call.semaphoreNumber > set.semaphores.length
    · rw [if_pos hnumber] at hc
      cases hc
      exact h
    · rw [if_neg hnumber] at hc
      by_cases hdenied : (call.command.isKnown && !set.hasPermission call.caller) = true
      · rw [if_pos hdenied] at hc
        cases hc
        exact h
      · rw [if_neg hdenied] at hc
        by_cases hpermission : set.hasPermission call.caller = true
        · exact h.control hl (hok set hl ⟨by omega, by omega, hpermission⟩) hc
        · -- then the command is none of those that are known
          have hquiet : call.command.SetsQuietly call.semaphoreNumber.toNat set.semaphores := by
            generalize call.command = command at hdenied
            cases command with
            | other => trivial
            | _ => simp [Command.isKnown, hpermission] at hdenied
          exact h.control hl hquiet hc

lemma Inv.interrupt (h : s.Inv) (thread : ℕ) : (s.interrupt thread).Inv where
  settled := h.settled
  small := h.small
  queued id set hl k zero q hq := by
    obtain ⟨w, hw, hqueued⟩ := h.queued id set hl k zero q hq
    show ∃ w, update s.waiting thread _ q.thread = some w ∧ _
    by_cases ht : q.thread = thread
    · rw [ht, update_self, ← ht, hw]
      refine ⟨w.unblock .interrupted, rfl, ?_⟩
      unfold Waiting.unblock
      split
      · exact ⟨hqueued.id, hqueued.sequence, hqueued.place, hqueued.number, hqueued.count,
          hqueued.zero, Or.inr rfl⟩
      · exact hqueued
    · rw [update_of_ne ht]
      exact ⟨w, hw, hqueued⟩

lemma sequence_undo (set : XsiSemaphoreSet) (team : ℕ) :
    (set.undo team).1.sequenceNumber = set.sequenceNumber := by
  unfold XsiSemaphoreSet.undo
  split <;> rfl

lemma Inv.teamExit (h : s.Inv) (team : ℕ) : (s.teamExit team).Inv := by
  have hlookup : ∀ id, (Table.mapValues (fun set : XsiSemaphoreSet => (set.undo team).1)
      s.semaphoreHashTable).lookup id =
        (s.semaphoreHashTable.lookup id).map fun set => (set.undo team).1 :=
    fun id => Table.lookup_mapValues _ _ _
  have hundone : ∀ id set', (Table.mapValues (fun set : XsiSemaphoreSet => (set.undo team).1)
      s.semaphoreHashTable).lookup id = some set' → ∃ set,
        s.semaphoreHashTable.lookup id = some set ∧ (set.undo team).1 = set' := by
    intro id set' hl
    rw [hlookup] at hl
    exact Option.map_eq_some_iff.1 hl
  apply h.unblockAll
  · rfl
  · intro id set' hl
    obtain ⟨set, hold, he⟩ := hundone id set' hl
    have hwoken := woken_undo set team
    rw [← he]
    exact ⟨set, hold, sequence_undo set team, length_undo set team,
      hwoken.settled (h.settled id set hold), hwoken.queue⟩
  · intro t ht id₁ set₁ hl₁ k₁ zero₁ q₁ hq₁ hthread
    obtain ⟨⟨id, set⟩, hentry, ht⟩ := List.mem_flatMap.1 ht
    have hl : s.semaphoreHashTable.lookup id = some set := AList.mem_lookup_iff.2 hentry
    obtain ⟨k, zero, q, hq, hqthread, hnil⟩ := (woken_undo set team).woken t ht
    obtain ⟨old, hold, he⟩ := hundone id₁ set₁ hl₁
    have hin : q₁ ∈ queueAt old.semaphores k₁ zero₁ := by
      rw [← he] at hq₁
      exact (woken_undo old team).queue k₁ zero₁ q₁ hq₁
    obtain ⟨hid, hk, hzero⟩ := h.unique hl hq hold hin (hqthread.trans hthread.symm)
    -- the queue is the one that is empty now
    rw [← hid, hl] at hold
    rw [← he, ← Option.some.inj hold, ← hk, ← hzero, hnil] at hq₁
    cases hq₁

lemma Inv.step (h : s.Inv) {call : Call} (hok : s.Settles call)
    (hc : s.step call = some s') : s'.Inv := by
  obtain ⟨⟨result, s₁⟩, hperform, he⟩ := Option.map_eq_some_iff.1 hc
  subst he
  cases call with
  | semget call => exact h.semget hperform
  | semctl call => exact h.semctl hok hperform
  | semop call => exact h.semop hok hperform
  | resume thread memory => exact h.resume hok hperform
  | interrupt thread =>
    cases hperform
    exact h.interrupt thread
  | teamExit team =>
    cases hperform
    exact h.teamExit team

end State

/-! ## Runs -/

lemma settles_of_decide (s : State) (call : Call) (h : decide (s.Settles call) = true) :
    s.Settles call := of_decide_eq_true h

/-- An operation of thread and team `thread` on the set 100 -/
def operate (thread : ℕ) (number value : BitVec 16) : Call :=
  .semop ⟨thread, thread, 100, [⟨number, value, 0⟩], []⟩

/-- A thread waits until another one adds 2 to the value, and takes it. -/
def waitAndGo : List Call := [getSeven 2, operate 1 1 (-2), operate 2 1 2, .resume 1 []]

/-- A thread waits for 2, and the value is set to 2. -/
def setWhileWaiting : List Call :=
  [getSeven 2, operate 1 1 (-2), .semctl ⟨100, 1, .setVal (some 2), 2, ⟨0, 0⟩⟩]

end Haiku.Xsi
