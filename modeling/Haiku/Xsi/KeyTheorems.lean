import Haiku.Lib.Run
import Haiku.Xsi.AttemptTheorems

/-!
# Every key has its set

The table of keys and the table of sets agree as long as every call that enters a key goes on to
make the set: nothing takes a key out again but the removal of its set. The other calls change what
is in a set, but neither its key nor the number of its semaphores.
-/

namespace Haiku.Xsi

open Lib

/-! ## The tables agree -/

/-- What the claim about the two tables and the two counters says -/
structure State.KeysMatch (s : State) : Prop where
  /-- the set of a key exists, and no other set has the key -/
  owner : ∀ key id, s.ipcHashTable.lookup key = some id →
    (∃ set, s.semaphoreHashTable.lookup id = some set ∧ set.permissions.key = key) ∧
      ∀ id' set', s.semaphoreHashTable.lookup id' = some set' → set'.permissions.key = key → id' = id
  listed : ∀ id set, s.semaphoreHashTable.lookup id = some set → set.permissions.key ≠ -1 →
    set.permissions.key ∈ s.ipcHashTable
  semaphores : s.xsiSemaphoreCount =
    (s.semaphoreHashTable.entries.map fun e => (e.2.semaphores.length : ℤ)).sum
  sets : s.xsiSemaphoreSetCount = s.semaphoreHashTable.entries.length

def State.EntersKey (s : State) (call : GetCall) : Prop :=
  call.key ≠ ipcPrivate ∧ call.key ∉ s.ipcHashTable ∧ call.flags &&& ipcCreat ≠ 0 ∧
    call.ipcMemory = true

/-- Nothing keeps the call from making a set for its key. -/
def State.CanCreate (s : State) (call : GetCall) : Prop :=
  0 < call.numberOfSemaphores ∧ call.numberOfSemaphores < maxSemaphoresPerTeam ∧
    s.xsiSemaphoreCount < maxXsiSemaphore ∧ s.xsiSemaphoreSetCount < maxXsiSemaphoreSet ∧
    call.setMemory = true ∧ call.key ≠ -1

/-- A key is entered only by a call that makes its set. -/
def State.KeepsKeys (s : State) : Call → Prop
  | .semget call => s.EntersKey call → s.CanCreate call
  | _ => True

instance (s : State) (call : GetCall) : Decidable (s.EntersKey call) :=
  inferInstanceAs (Decidable (_ ∧ _ ∧ _ ∧ _))

instance (s : State) (call : GetCall) : Decidable (s.CanCreate call) :=
  inferInstanceAs (Decidable (_ ∧ _ ∧ _ ∧ _ ∧ _ ∧ _))

instance (s : State) : ∀ call : Call, Decidable (s.KeepsKeys call)
  | .semget call => inferInstanceAs (Decidable (s.EntersKey call → s.CanCreate call))
  | .semctl _ | .semop _ | .resume _ _ | .interrupt _ | .teamExit _ =>
    inferInstanceAs (Decidable True)

/-- The invariant: the same, with the tables as inverses of each other. -/
structure State.Keyed (s : State) : Prop where
  owner : ∀ key id, s.ipcHashTable.lookup key = some id →
    key ≠ -1 ∧ ∃ set, s.semaphoreHashTable.lookup id = some set ∧ set.permissions.key = key
  listed : ∀ id set, s.semaphoreHashTable.lookup id = some set → set.permissions.key ≠ -1 →
    s.ipcHashTable.lookup set.permissions.key = some id
  semaphores : s.xsiSemaphoreCount =
    Table.total (fun _ set => (set.semaphores.length : ℤ)) s.semaphoreHashTable
  sets : s.xsiSemaphoreSetCount = Table.total (fun _ _ => 1) s.semaphoreHashTable

namespace State

variable {s s' : State} {id : ℤ} {set old : XsiSemaphoreSet}

lemma keyed_initial : State.initial.Keyed where
  owner key id h := by cases h
  listed id set h := by cases h
  semaphores := rfl
  sets := rfl

lemma Keyed.toKeysMatch (h : s.Keyed) : s.KeysMatch where
  owner key id hkey := by
    obtain ⟨hne, set, hset, hown⟩ := h.owner key id hkey
    refine ⟨⟨set, hset, hown⟩, ?_⟩
    intro id' set' hset' hown'
    have hlisted := h.listed id' set' hset' (by rw [hown']; exact hne)
    rw [hown', hkey] at hlisted
    exact (Option.some.inj hlisted).symm
  listed id set hset hne := by
    have hlisted := h.listed id set hset hne
    rw [← AList.lookup_isSome, hlisted]
    rfl
  semaphores := h.semaphores
  sets := by
    rw [h.sets, Table.total]
    simp

lemma Keyed.of_tables (h : s.Keyed) (hkeys : s'.ipcHashTable = s.ipcHashTable)
    (hsets : s'.semaphoreHashTable = s.semaphoreHashTable)
    (hcount : s'.xsiSemaphoreCount = s.xsiSemaphoreCount)
    (hsetCount : s'.xsiSemaphoreSetCount = s.xsiSemaphoreSetCount) : s'.Keyed where
  owner := by
    rw [hkeys, hsets]
    exact h.owner
  listed := by
    rw [hkeys, hsets]
    exact h.listed
  semaphores := by
    rw [hcount, hsets]
    exact h.semaphores
  sets := by
    rw [hsetCount, hsets]
    exact h.sets

lemma Keyed.unblockAll (h : s.Keyed) (threads : List ℕ) (wake : Wake) :
    (s.unblockAll threads wake).Keyed := h.of_tables rfl rfl rfl rfl

lemma Keyed.setWaiting (h : s.Keyed) (t : ℕ) (w : Option Waiting) : (s.setWaiting t w).Keyed :=
  h.of_tables rfl rfl rfl rfl

lemma Keyed.setSet (h : s.Keyed) (hl : s.semaphoreHashTable.lookup id = some old)
    (hkey : set.permissions.key = old.permissions.key)
    (hlength : set.semaphores.length = old.semaphores.length) : (s.setSet id set).Keyed where
  owner key id' hid := by
    obtain ⟨hne, own, hown, heq⟩ := h.owner key id' hid
    refine ⟨hne, ?_⟩
    by_cases he : id' = id
    · subst he
      rw [hl] at hown
      refine ⟨set, AList.lookup_insert _, ?_⟩
      rw [hkey, Option.some.inj hown]
      exact heq
    · exact ⟨own, (Table.lookup_insert_of_ne he).trans hown, heq⟩
  listed id' set' hset' hne := by
    rcases Table.lookup_insert_cases hset' with ⟨hid, he⟩ | ⟨_, hset'⟩
    · rw [hid, he, hkey]
      rw [he, hkey] at hne
      exact h.listed id old hl hne
    · exact h.listed id' set' hset' hne
  semaphores := by
    show s.xsiSemaphoreCount = Table.total _ (s.semaphoreHashTable.insert id set)
    rw [Table.total_insert, Table.part_of_lookup hl, hlength, h.semaphores]
    omega
  sets := by
    show s.xsiSemaphoreSetCount = Table.total _ (s.semaphoreHashTable.insert id set)
    rw [Table.total_insert, Table.part_of_lookup hl, h.sets]
    omega

/-! ## The calls -/

lemma freeID_free {sets : Table ℤ XsiSemaphoreSet} {steps : ℕ} {first : ℤ}
    (h : freeID sets steps first = some id) : sets.lookup id = none := by
  induction steps generalizing first with
  | zero => cases h
  | succ steps ih =>
    rw [freeID] at h
    split_ifs at h with hfree
    · rw [← Option.some.inj h]
      exact Option.isNone_iff_eq_none.1 hfree
    · exact ih h

lemma Keyed.addSet (h : s.Keyed) (set : XsiSemaphoreSet) (sequenceNumber : ℕ) {key : ℤ}
    (hfree : s.semaphoreHashTable.lookup id = none) (hnew : s.ipcHashTable.lookup key = none)
    (hkey : key ≠ -1) (hown : set.permissions.key = key) :
    State.Keyed { s with
      ipcHashTable         := s.ipcHashTable.insert key id
      semaphoreHashTable   := s.semaphoreHashTable.insert id set
      globalSequenceNumber := sequenceNumber
      xsiSemaphoreCount    := s.xsiSemaphoreCount + set.semaphores.length
      xsiSemaphoreSetCount := s.xsiSemaphoreSetCount + 1 } where
  owner key' id' hid := by
    rcases Table.lookup_insert_cases hid with ⟨hk, he⟩ | ⟨_, hid⟩
    · rw [hk, he]
      exact ⟨hkey, set, AList.lookup_insert _, hown⟩
    · obtain ⟨hne, own, hset, heq⟩ := h.owner key' id' hid
      have hother : id' ≠ id := by
        intro he
        rw [he, hfree] at hset
        cases hset
      exact ⟨hne, own, (Table.lookup_insert_of_ne hother).trans hset, heq⟩
  listed id' set' hset' hne := by
    rcases Table.lookup_insert_cases hset' with ⟨hid, he⟩ | ⟨_, hset'⟩
    · rw [hid, he, hown]
      exact AList.lookup_insert _
    · have hold := h.listed id' set' hset' hne
      have hother : set'.permissions.key ≠ key := by
        intro he
        rw [he, hnew] at hold
        cases hold
      exact (Table.lookup_insert_of_ne hother).trans hold
  semaphores := by
    show s.xsiSemaphoreCount + _ = Table.total _ (s.semaphoreHashTable.insert id set)
    rw [Table.total_insert, Table.part_of_none hfree, h.semaphores]
    omega
  sets := by
    show s.xsiSemaphoreSetCount + 1 = Table.total _ (s.semaphoreHashTable.insert id set)
    rw [Table.total_insert, Table.part_of_none hfree, h.sets]
    omega

lemma Keyed.addPrivateSet (h : s.Keyed) (set : XsiSemaphoreSet) (sequenceNumber : ℕ)
    (hfree : s.semaphoreHashTable.lookup id = none) (hown : set.permissions.key = -1) :
    State.Keyed { s with
      semaphoreHashTable   := s.semaphoreHashTable.insert id set
      globalSequenceNumber := sequenceNumber
      xsiSemaphoreCount    := s.xsiSemaphoreCount + set.semaphores.length
      xsiSemaphoreSetCount := s.xsiSemaphoreSetCount + 1 } where
  owner key' id' hid := by
    obtain ⟨hne, own, hset, heq⟩ := h.owner key' id' hid
    have hother : id' ≠ id := by
      intro he
      rw [he, hfree] at hset
      cases hset
    exact ⟨hne, own, (Table.lookup_insert_of_ne hother).trans hset, heq⟩
  listed id' set' hset' hne := by
    rcases Table.lookup_insert_cases hset' with ⟨_, he⟩ | ⟨_, hset'⟩
    · rw [he] at hne
      exact absurd hown hne
    · exact h.listed id' set' hset' hne
  semaphores := by
    show s.xsiSemaphoreCount + _ = Table.total _ (s.semaphoreHashTable.insert id set)
    rw [Table.total_insert, Table.part_of_none hfree, h.semaphores]
    omega
  sets := by
    show s.xsiSemaphoreSetCount + 1 = Table.total _ (s.semaphoreHashTable.insert id set)
    rw [Table.total_insert, Table.part_of_none hfree, h.sets]
    omega

lemma length_new {number : ℤ} (hpos : 0 < number) (key : ℤ) (flags : BitVec 32) (caller : Caller)
    (sequenceNumber : ℕ) :
    ((XsiSemaphoreSet.new key number.toNat flags caller sequenceNumber).semaphores.length : ℤ) =
      number := by
  rw [XsiSemaphoreSet.new, List.length_replicate]
  omega

variable {call : GetCall} {result : Result}

section

variable (h : s.Keyed)
include h

lemma Keyed.createSet (hentered : s.EntersKey call) (hcan : s.CanCreate call)
    (hc : { s with ipcHashTable := s.ipcHashTable.insert call.key (-1) }.createSet call =
      some (result, s')) : s'.Keyed := by
  obtain ⟨hprivate, hnew, _, _⟩ := hentered
  obtain ⟨hpos, hlt, hcount, hsets, hmemory, hkey⟩ := hcan
  have hrange : ¬ (call.numberOfSemaphores ≤ 0 ∨
      call.numberOfSemaphores ≥ maxSemaphoresPerTeam) := by omega
  have hspace : ¬ (s.xsiSemaphoreCount ≥ maxXsiSemaphore ∨
      s.xsiSemaphoreSetCount ≥ maxXsiSemaphoreSet) := by omega
  unfold State.createSet at hc
  rw [if_neg hrange, if_neg hspace, hmemory] at hc
  obtain ⟨id, hid, hc⟩ := Option.bind_eq_some_iff.1 hc
  have hfree := freeID_free hid
  have hnone : s.ipcHashTable.lookup call.key = none := AList.lookup_eq_none.2 hnew
  cases hc
  have hadded := h.addSet (.new call.key call.numberOfSemaphores.toNat call.flags call.caller
    ((s.globalSequenceNumber + 1) % 4294967295)) ((s.globalSequenceNumber + 1) % 4294967295) hfree
    hnone hkey rfl
  rw [length_new hpos] at hadded
  simpa [hprivate, AList.insert_insert] using hadded

lemma Keyed.createPrivateSet (hprivate : call.key = ipcPrivate)
    (hc : s.createSet call = some (result, s')) : s'.Keyed := by
  unfold State.createSet at hc
  split_ifs at hc with hrange hspace hmemory
  · cases hc
    exact h
  · cases hc
    exact h
  · cases hc
    exact h
  · obtain ⟨id, hid, hc⟩ := Option.bind_eq_some_iff.1 hc
    have hfree := freeID_free hid
    cases hc
    have hadded := h.addPrivateSet (.new (-1) call.numberOfSemaphores.toNat call.flags call.caller
      ((s.globalSequenceNumber + 1) % 4294967295)) ((s.globalSequenceNumber + 1) % 4294967295)
      hfree rfl
    rw [length_new (by omega)] at hadded
    simpa [hprivate] using hadded

lemma Keyed.semget (hkeeps : s.EntersKey call → s.CanCreate call)
    (hc : s.semget call = some (result, s')) : s'.Keyed := by
  unfold State.semget at hc
  by_cases hprivate : call.key = ipcPrivate
  · rw [if_pos hprivate] at hc
    exact h.createPrivateSet hprivate hc
  · rw [if_neg hprivate] at hc
    split at hc
    next hnone =>
      split_ifs at hc with hflags hmemory
      · cases hc
        exact h
      · cases hc
        exact h
      · have hentered : s.EntersKey call :=
          ⟨hprivate, AList.lookup_eq_none.1 hnone, hflags, by simpa using hmemory⟩
        exact h.createSet hentered (hkeeps hentered) hc
    next id hid =>
      split_ifs at hc
      · cases hc
        exact h
      · split at hc
        · cases hc
        · split_ifs at hc
          all_goals
            cases hc
            exact h

lemma Keyed.semget_isSome (hknown : call.key ∈ s.ipcHashTable)
    (hprivate : call.key ≠ ipcPrivate) : (s.semget call).isSome = true := by
  obtain ⟨id, hid⟩ := Option.isSome_iff_exists.1 (AList.lookup_isSome.2 hknown)
  obtain ⟨_, set, hset, _⟩ := h.owner call.key id hid
  unfold State.semget
  rw [if_neg hprivate, hid]
  dsimp only
  rw [hset]
  dsimp only
  split_ifs <;> rfl

lemma Keyed.removeSet (hl : s.semaphoreHashTable.lookup id = some set)
    (hc : s.removeSet id set = some (result, s')) : s'.Keyed := by
  unfold State.removeSet at hc
  dsimp only at hc
  split_ifs at hc with hmissing hkey
  all_goals
    cases hc
    apply Keyed.unblockAll
  · -- the set has a key, which no other set has
    have hlisted := h.listed id set hl hkey
    constructor
    · intro key id' hid
      obtain ⟨hne, hid⟩ := Table.lookup_of_erase hid
      obtain ⟨hvalid, own, hown, heq⟩ := h.owner key id' hid
      have hother : id' ≠ id := by
        intro he
        rw [he, hl] at hown
        rw [← Option.some.inj hown] at heq
        exact hne heq.symm
      exact ⟨hvalid, own, (AList.lookup_erase_ne hother).trans hown, heq⟩
    · intro id' set' hset' hne
      obtain ⟨hother, hset'⟩ := Table.lookup_of_erase hset'
      have hold := h.listed id' set' hset' hne
      have hdifferent : set'.permissions.key ≠ set.permissions.key := by
        intro he
        rw [he, hlisted] at hold
        exact hother (Option.some.inj hold).symm
      exact (AList.lookup_erase_ne hdifferent).trans hold
    · show s.xsiSemaphoreCount - _ = Table.total _ (s.semaphoreHashTable.erase id)
      rw [Table.total_erase, Table.part_of_lookup hl, h.semaphores]
    · show s.xsiSemaphoreSetCount - 1 = Table.total _ (s.semaphoreHashTable.erase id)
      rw [Table.total_erase, Table.part_of_lookup hl, h.sets]
  · -- the set is private
    constructor
    · intro key id' hid
      obtain ⟨hvalid, own, hown, heq⟩ := h.owner key id' hid
      have hother : id' ≠ id := by
        intro he
        rw [he, hl] at hown
        rw [← Option.some.inj hown] at heq
        exact hvalid (heq.symm.trans (not_not.1 hkey))
      exact ⟨hvalid, own, (AList.lookup_erase_ne hother).trans hown, heq⟩
    · intro id' set' hset' hne
      obtain ⟨_, hset'⟩ := Table.lookup_of_erase hset'
      exact h.listed id' set' hset' hne
    · show s.xsiSemaphoreCount - _ = Table.total _ (s.semaphoreHashTable.erase id)
      rw [Table.total_erase, Table.part_of_lookup hl, h.semaphores]
    · show s.xsiSemaphoreSetCount - 1 = Table.total _ (s.semaphoreHashTable.erase id)
      rw [Table.total_erase, Table.part_of_lookup hl, h.sets]

lemma Keyed.control {call : ControlCall}
    (hl : s.semaphoreHashTable.lookup call.semaphoreID = some set)
    (hc : s.control call set = some (result, s')) : s'.Keyed := by
  have hget : ∀ f : XsiSemaphore → ℤ,
      (set.semaphores[call.semaphoreNumber.toNat]?.map fun sem => (Result.value (f sem), s)) =
        some (result, s') → s'.Keyed := by
    intro f hf
    obtain ⟨_, _, he⟩ := Option.map_eq_some_iff.1 hf
    cases he
    exact h
  unfold State.control at hc
  dsimp only at hc
  split at hc
  · exact hget _ hc
  · exact hget _ hc
  · exact hget _ hc
  · exact hget _ hc
  · cases hc
    exact h
  · split_ifs at hc
    · cases hc
      exact h
    · obtain ⟨_, _, he⟩ := Option.map_eq_some_iff.1 hc
      cases he
      exact h.setSet hl rfl List.length_set
  · cases hc
    exact h.setSet hl rfl (length_setAllValues _ _)
  · cases hc
    exact h
  · cases hc
    exact h.setSet hl rfl rfl
  · exact h.removeSet hl hc
  · cases hc
    exact h

lemma Keyed.semctl {call : ControlCall} (hc : s.semctl call = some (result, s')) : s'.Keyed := by
  unfold State.semctl at hc
  split at hc
  · cases hc
    exact h
  next set hl =>
    split_ifs at hc
    · cases hc
      exact h
    · cases hc
      exact h
    · exact h.control hl hc

lemma Keyed.tryOperations {call : OperationCall}
    (hl : s.semaphoreHashTable.lookup call.semaphoreID = some set)
    (hc : s.tryOperations call set = some (result, s')) : s'.Keyed := by
  unfold State.tryOperations at hc
  obtain ⟨a, ha, hc⟩ := Option.bind_eq_some_iff.1 hc
  have hset : (s.setSet call.semaphoreID
      { set with semaphores := a.semaphores, undoList := a.undoList }).Keyed :=
    h.setSet hl rfl (length_attempt ha)
  dsimp only at hc
  split at hc
  all_goals
    cases hc
    exact (hset.unblockAll _ _).setWaiting _ _

lemma Keyed.semop {call : OperationCall} (hc : s.semop call = some (result, s')) : s'.Keyed := by
  unfold State.semop at hc
  by_cases hwaiting : (s.waiting call.thread).isSome = true
  · rw [if_pos hwaiting] at hc
    cases hc
  · rw [if_neg hwaiting] at hc
    split at hc
    · cases hc
      exact h
    next hl =>
      split_ifs at hc
      · cases hc
        exact h
      · exact h.tryOperations hl hc

lemma Keyed.resume {thread : ℕ} {memory : List Bool}
    (hc : s.resume thread memory = some (result, s')) : s'.Keyed := by
  unfold State.resume at hc
  split at hc
  · cases hc
  · split at hc
    · cases hc
    · split at hc
      · cases hc
        exact h.setWaiting _ _
      next set hl =>
        split_ifs at hc
        · cases hc
          exact h.setWaiting _ _
        · cases hc
          apply Keyed.setWaiting
          exact h.setSet hl rfl (length_change _ _ _)
        · exact h.tryOperations hl hc

end

lemma key_undo (set : XsiSemaphoreSet) (team : ℕ) :
    (set.undo team).1.permissions = set.permissions := by
  unfold XsiSemaphoreSet.undo
  split <;> rfl

lemma length_undo (set : XsiSemaphoreSet) (team : ℕ) :
    (set.undo team).1.semaphores.length = set.semaphores.length := by
  unfold XsiSemaphoreSet.undo
  split
  · rfl
  · exact length_undoValues _ _

lemma Keyed.teamExit (h : s.Keyed) (team : ℕ) : (s.teamExit team).Keyed := by
  have hlookup : ∀ id, (Table.mapValues (fun set : XsiSemaphoreSet => (set.undo team).1)
      s.semaphoreHashTable).lookup id =
        (s.semaphoreHashTable.lookup id).map fun set => (set.undo team).1 :=
    fun id => Table.lookup_mapValues _ _ _
  apply Keyed.unblockAll
  constructor
  · intro key id hid
    obtain ⟨hne, set, hset, heq⟩ := h.owner key id hid
    refine ⟨hne, (set.undo team).1, ?_, ?_⟩
    · rw [hlookup, hset]
      rfl
    · rw [key_undo]
      exact heq
  · intro id set hset hne
    rw [hlookup] at hset
    obtain ⟨old, hold, he⟩ := Option.map_eq_some_iff.1 hset
    rw [← he, key_undo] at hne ⊢
    exact h.listed id old hold hne
  · show s.xsiSemaphoreCount = _
    rw [h.semaphores, Table.total_mapValues]
    simp only [length_undo]
  · show s.xsiSemaphoreSetCount = _
    rw [h.sets, Table.total_mapValues]

lemma Keyed.step (h : s.Keyed) {call : Call} (hkeeps : s.KeepsKeys call)
    (hc : s.step call = some s') : s'.Keyed := by
  obtain ⟨⟨result, s₁⟩, hperform, he⟩ := Option.map_eq_some_iff.1 hc
  subst he
  cases call with
  | semget call => exact h.semget hkeeps hperform
  | semctl call => exact h.semctl hperform
  | semop call => exact h.semop hperform
  | resume thread memory => exact h.resume hperform
  | interrupt thread =>
    cases hperform
    exact h.setWaiting _ _
  | teamExit team =>
    cases hperform
    exact h.teamExit team

end State

/-! ## Runs -/

/-- As long as no call enters a key without making its set, the tables and the counters agree after
every run, and a call with a known key finds its set. -/
theorem keysMatch {hist : History State Call} {s : State}
    (hr : Run State.step State.KeepsKeys .initial hist s) :
    s.KeysMatch ∧ ∀ call : GetCall, call.key ∈ s.ipcHashTable → call.key ≠ ipcPrivate →
      (s.semget call).isSome = true := by
  have hkeyed : s.Keyed := hr.invariant State.keyed_initial fun h hkeeps hc => h.step hkeeps hc
  exact ⟨hkeyed.toKeysMatch, fun call => hkeyed.semget_isSome⟩

lemma keepsKeys_of_decide (s : State) (call : Call) (h : decide (s.KeepsKeys call) = true) :
    s.KeepsKeys call := of_decide_eq_true h

/-- A call of `_user_xsi_semget()` by the super user for the key 7 -/
def getSeven (number : ℤ) : Call := .semget ⟨7, number, ipcCreat ||| 0o666, ⟨0, 0⟩, 100, true, true⟩

/-- A set of two semaphores is made, and asked for again. -/
theorem keysMatch_getSeven :
    (outcome State.step .initial [getSeven 2, getSeven 1]).KeysMatch ∧
      (outcome State.step .initial [getSeven 2, getSeven 1]).xsiSemaphoreCount = 2 := by
  obtain ⟨hist, hr, _⟩ := run_outcome State.step keepsKeys_of_decide .initial
    [getSeven 2, getSeven 1] (fun _ => true) (by decide)
  exact ⟨(keysMatch hr).1, by decide⟩

/-- Too many semaphores are asked for: the key stays without a set, and the next call with the key
follows a null pointer. -/
theorem key_without_set : ¬∀ (hist : History State Call) (s : State),
    Run State.step (fun _ _ => True) .initial hist s →
      s.KeysMatch ∧ ∀ call : GetCall, call.key ∈ s.ipcHashTable → call.key ≠ ipcPrivate →
        (s.semget call).isSome = true := by
  intro h
  obtain ⟨hist, hr, _⟩ := @run_outcome _ _ (fun _ _ => True) State.step (fun _ _ => true)
    (fun _ _ _ => trivial) .initial [getSeven 200] (fun _ => true) (by decide)
  have hsome := (h hist _ hr).2 ⟨7, 1, 0, ⟨0, 0⟩, 100, true, true⟩ (by decide) (by decide)
  revert hsome
  decide

end Haiku.Xsi
