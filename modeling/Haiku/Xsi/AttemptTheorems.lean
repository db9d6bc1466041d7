import Haiku.Xsi.System
import Mathlib.Data.BitVec
import Mathlib.Tactic.Abel

/-!
# The loops over semaphores

What one operation does in the loops of `_user_xsi_semop()`, said once: it ends the loop, or it is
carried out. No loop changes the number of semaphores.
-/

namespace Haiku.Xsi

namespace SemBuf

/-- The operation cannot be carried out on the semaphore now. -/
def Blocks (op : SemBuf) (s : XsiSemaphore) : Prop :=
  op.semOp = 0 ∧ s.value ≠ 0 ∨ (s.value.toNat : ℤ) + op.semOp.toInt < 0

instance (op : SemBuf) (s : XsiSemaphore) : Decidable (op.Blocks s) :=
  inferInstanceAs (Decidable (_ ∨ _))

/-- How the loop ends at an operation that cannot be carried out -/
def refused (op : SemBuf) : Verdict := if op.has ipcNoWait then .fails .again else .sleeps

def carryOut (op : SemBuf) (s : XsiSemaphore) : XsiSemaphore × List ℕ :=
  if op.semOp = 0 then (s, []) else s.add op.semOp

end SemBuf

variable {op : SemBuf} {ops : List SemBuf} {l l' : Semaphores} {s : XsiSemaphore} {a : Applied}

lemma toInt_of_nonneg {x : BitVec 16} (h : ¬ x.toInt < 0) : x.toInt = x.toNat := by
  have hcond := BitVec.toInt_eq_toNat_cond x
  have hlt : x.toNat < 2 ^ 16 := x.isLt
  split_ifs at hcond with hsmall
  · exact hcond
  · omega

lemma toInt_neg_iff (x : BitVec 16) : x.toInt < 0 ↔ 2 ^ 15 ≤ x.toNat := by
  have hcond := BitVec.toInt_eq_toNat_cond x
  have hlt : x.toNat < 2 ^ 16 := x.isLt
  split_ifs at hcond with hsmall
  · omega
  · omega

lemma applyOperations_inside (hs : l[op.semNum.toNat]? = some s)
    (hnum : op.semNum.toNat < 2 ^ 15) :
    applyOperations (op :: ops) l =
      if op.Blocks s then some (.stop l op.refused)
      else (applyOperations ops (l.set op.semNum.toNat (op.carryOut s).1)).map
        (.after (op.carryOut s).2) := by
  have hneg : ¬ op.semNum.toInt < 0 := by
    rw [toInt_neg_iff]
    omega
  have hlt : op.semNum.toNat < l.length := (List.getElem?_eq_some_iff.1 hs).1
  have hin : ¬ op.semNum.toInt ≥ l.length := by
    rw [toInt_of_nonneg hneg]
    omega
  rw [applyOperations, if_neg hin, if_neg hneg, hs]
  dsimp only
  unfold SemBuf.carryOut SemBuf.refused XsiSemaphore.mustWait
  by_cases hzero : op.semOp = 0
  · have hnonneg : op.semOp.toInt = 0 := by
      rw [hzero]
      decide
    rw [if_neg (by omega), if_pos hzero, if_pos hzero]
    by_cases hvalue : s.value = 0
    · have hblocks : ¬ op.Blocks s := by
        unfold SemBuf.Blocks
        rw [hvalue, hnonneg]
        simp
      rw [if_pos hvalue, if_neg hblocks]
    · have hblocks : op.Blocks s := Or.inl ⟨hzero, hvalue⟩
      rw [if_neg hvalue, if_pos hblocks]
  · rw [if_neg hzero, if_neg hzero]
    by_cases hwait : (s.value.toNat : ℤ) + op.semOp.toInt < 0
    · have hblocks : op.Blocks s := Or.inr hwait
      rw [if_pos (by omega), if_pos (decide_eq_true hwait), if_pos hblocks]
    · have hblocks : ¬ op.Blocks s := by
        intro h
        rcases h with h | h
        · exact hzero h.1
        · exact hwait h
      rw [if_neg hblocks]
      split
      · rw [if_neg (by simpa using hwait)]
      · rfl

lemma applyOperations_outside (hout : l.length ≤ op.semNum.toNat) (hsmall : l.length < 2 ^ 15) :
    applyOperations (op :: ops) l =
      if op.semNum.toNat < 2 ^ 15 then some (.stop l (.fails .invalid)) else none := by
  rw [applyOperations]
  by_cases hnum : op.semNum.toNat < 2 ^ 15
  · have hneg : ¬ op.semNum.toInt < 0 := by
      rw [toInt_neg_iff]
      omega
    have hge : op.semNum.toInt ≥ l.length := by
      rw [toInt_of_nonneg hneg]
      omega
    rw [if_pos hge, if_pos hnum]
  · have hneg : op.semNum.toInt < 0 := by
      rw [toInt_neg_iff]
      omega
    have hlt : ¬ op.semNum.toInt ≥ l.length := by omega
    rw [if_neg hlt, if_pos hneg, if_neg hnum]

lemma applyOperations_cases (h : applyOperations (op :: ops) l = some a) :
    a = .stop l (.fails .invalid) ∨
      ∃ s, l[op.semNum.toNat]? = some s ∧
        (op.Blocks s ∧ a = .stop l op.refused ∨
          ¬ op.Blocks s ∧ ∃ b, applyOperations ops (l.set op.semNum.toNat (op.carryOut s).1) = some b ∧
            a = b.after (op.carryOut s).2) := by
  by_cases hout : op.semNum.toInt ≥ l.length
  · rw [applyOperations, if_pos hout] at h
    exact Or.inl (Option.some.inj h).symm
  · by_cases hneg : op.semNum.toInt < 0
    · rw [applyOperations, if_neg hout, if_pos hneg] at h
      cases h
    · right
      have hnum : op.semNum.toNat < 2 ^ 15 := by
        rw [toInt_neg_iff] at hneg
        omega
      have hlt : op.semNum.toNat < l.length := by
        rw [toInt_of_nonneg hneg] at hout
        omega
      have hs : l[op.semNum.toNat]? = some l[op.semNum.toNat] := List.getElem?_eq_getElem hlt
      refine ⟨l[op.semNum.toNat], hs, ?_⟩
      rw [applyOperations_inside hs hnum] at h
      split_ifs at h with hblocks
      · exact Or.inl ⟨hblocks, (Option.some.inj h).symm⟩
      · obtain ⟨b, hb, he⟩ := Option.map_eq_some_iff.1 h
        exact Or.inr ⟨hblocks, b, hb, he.symm⟩

/-! ## The number of semaphores stays -/

@[simp] lemma length_change (l : Semaphores) (number : ℕ)
    (f : XsiSemaphore → XsiSemaphore × List ℕ) : (l.change number f).1.length = l.length := by
  unfold Semaphores.change
  split
  · rfl
  · exact List.length_set

lemma length_applyOperations (h : applyOperations ops l = some a) :
    a.semaphores.length = l.length := by
  induction ops generalizing l a with
  | nil =>
    cases h
    rfl
  | cons op ops ih =>
    rcases applyOperations_cases h with rfl | ⟨s, _, ⟨_, rfl⟩ | ⟨_, b, hb, rfl⟩⟩
    · rfl
    · rfl
    · exact (ih hb).trans List.length_set

lemma length_revertOperations (ops : List SemBuf) (l : Semaphores) :
    (revertOperations ops l).1.length = l.length := by
  induction ops generalizing l with
  | nil => rfl
  | cons op ops ih =>
    rw [revertOperations, ih]
    split
    · exact length_change _ _ _
    · rfl

lemma length_revertUndos (team : ℕ) (undoList : List SemUndo) (ops : List SemBuf)
    (l : Semaphores) : (revertUndos team undoList ops l).1.length = l.length := by
  induction ops generalizing l with
  | nil => rfl
  | cons op ops ih =>
    rw [revertUndos, ih]
    unfold revertUndo
    split_ifs
    · exact length_change _ _ _
    · rfl
    · rfl

lemma length_recordUndos (team : ℕ) (all before ops : List SemBuf) (r : Recording) :
    (recordUndos team all before ops r).semaphores.length = r.semaphores.length := by
  induction ops generalizing before r with
  | nil => rfl
  | cons op ops ih =>
    rw [recordUndos]
    split
    · split
      · exact ih _ _
      · rw [ih, length_revertUndos, length_revertOperations]
    · exact ih _ _

lemma length_setPids (pid : ℕ) (ops : List SemBuf) (l : Semaphores) :
    (setPids pid ops l).length = l.length := by
  induction ops generalizing l with
  | nil => rfl
  | cons op ops ih => rw [setPids, ih, length_change]

lemma attempt_cases {team thread : ℕ} {memory : List Bool} {undoList : List SemUndo}
    {b : Attempt} (h : attempt team thread ops memory l undoList = some b) :
    ∃ a, applyOperations ops l = some a ∧
      (a.verdict = .done ∧ b = a.record team ops memory undoList ∨
        (∃ error, a.verdict = .fails error ∧ b = a.refuse ops undoList error) ∨
        a.verdict = .sleeps ∧ ∃ op, ops[a.count]? = some op ∧ b = a.sleep thread ops undoList op) := by
  unfold attempt at h
  obtain ⟨a, ha, h⟩ := Option.bind_eq_some_iff.1 h
  refine ⟨a, ha, ?_⟩
  split at h
  next hdone => exact Or.inl ⟨hdone, (Option.some.inj h).symm⟩
  next error hfails => exact Or.inr (Or.inl ⟨error, hfails, (Option.some.inj h).symm⟩)
  next hsleeps =>
    obtain ⟨op, hop, he⟩ := Option.map_eq_some_iff.1 h
    exact Or.inr (Or.inr ⟨hsleeps, op, hop, he.symm⟩)

lemma length_attempt {team thread : ℕ} {memory : List Bool} {undoList : List SemUndo}
    {b : Attempt} (h : attempt team thread ops memory l undoList = some b) :
    b.semaphores.length = l.length := by
  obtain ⟨a, ha, hends⟩ := attempt_cases h
  have hlength := length_applyOperations ha
  rcases hends with ⟨_, rfl⟩ | ⟨error, _, rfl⟩ | ⟨_, op, _, rfl⟩
  · unfold Applied.record
    dsimp only
    split_ifs
    · exact (length_recordUndos _ _ _ _ _).trans hlength
    · exact (length_setPids _ _ _).trans ((length_recordUndos _ _ _ _ _).trans hlength)
  · exact (length_revertOperations _ _).trans hlength
  · exact (length_change _ _ _).trans ((length_revertOperations _ _).trans hlength)

lemma length_setAllValues (values : List (Option (BitVec 16))) (l : Semaphores) :
    (setAllValues values l).1.length = l.length := by
  induction l generalizing values with
  | nil => rw [setAllValues]
  | cons s l ih =>
    match values with
    | [] => rfl
    | none :: _ => rfl
    | some value :: values => rw [setAllValues, List.length_cons, ih, List.length_cons]

lemma length_undoValues (values : List (BitVec 16)) (l : Semaphores) :
    (undoValues values l).1.length = l.length := by
  induction l generalizing values with
  | nil => cases values <;> rfl
  | cons s l ih =>
    match values with
    | [] => rfl
    | value :: values => rw [undoValues, List.length_cons, ih, List.length_cons]

/-!
## All operations of a call, or none

What the loops of an attempt do to the values is a sum of operations: the loop that carries out
operations adds them, the loops that take operations back subtract them, modulo 65536. An attempt
that stops at an operation takes back what it has added. One that carries out all operations is in
order if no value goes beyond 65535 and all undo values can be recorded; otherwise it takes back too
much, or leaves undo values recorded, unless that adds up to nothing.
-/

open Function

/-! ## Values as sums -/

/-- The value of a semaphore -/
def valueAt (l : Semaphores) (k : ℕ) : BitVec 16 := (l[k]?.map XsiSemaphore.value).getD 0

/-- What operations add to the value of a semaphore -/
def change (ops : List SemBuf) (k : ℕ) : BitVec 16 :=
  (ops.map fun op => if op.semNum.toNat = k then op.semOp else 0).sum

variable {op : SemBuf} {ops all before : List SemBuf} {l : Semaphores} {s : XsiSemaphore}
  {a : Applied} {k number team : ℕ} {value : BitVec 16} {undoList undoList' : List SemUndo}

@[simp] lemma change_nil (k : ℕ) : change [] k = 0 := rfl

@[simp] lemma change_cons (op : SemBuf) (ops : List SemBuf) (k : ℕ) :
    change (op :: ops) k = (if op.semNum.toNat = k then op.semOp else 0) + change ops k := by
  rw [change, List.map_cons, List.sum_cons]
  rfl

@[simp] lemma value_wakeUpWaiting (s : XsiSemaphore) : s.wakeUpWaiting.1.value = s.value := by
  unfold XsiSemaphore.wakeUpWaiting XsiSemaphore.wakeUpThread
  split_ifs <;> rfl

@[simp] lemma value_revert (s : XsiSemaphore) (value : BitVec 16) :
    (s.revert value).1.value = s.value - value := value_wakeUpWaiting _

@[simp] lemma value_carryOut (op : SemBuf) (s : XsiSemaphore) :
    (op.carryOut s).1.value = s.value + op.semOp := by
  unfold SemBuf.carryOut
  split_ifs with hzero
  · rw [hzero, add_zero]
  · exact value_wakeUpWaiting _

lemma valueAt_set (hs : l[number]? = some s) (new : XsiSemaphore) (k : ℕ) :
    valueAt (l.set number new) k = if number = k then new.value else valueAt l k := by
  have hlt : number < l.length := (List.getElem?_eq_some_iff.1 hs).1
  unfold valueAt
  by_cases hk : number = k
  · rw [if_pos hk, hk, List.getElem?_set_self (by omega)]
    rfl
  · rw [if_neg hk, List.getElem?_set_ne hk]

lemma valueAt_of_getElem? (hs : l[k]? = some s) : valueAt l k = s.value := by
  rw [valueAt, hs]
  rfl

lemma valueAt_revert (hlt : number < l.length) (value : BitVec 16) (k : ℕ) :
    valueAt (l.change number (·.revert value)).1 k =
      valueAt l k - if number = k then value else 0 := by
  have hs : l[number]? = some l[number] := List.getElem?_eq_getElem hlt
  unfold Semaphores.change
  rw [hs]
  dsimp only
  rw [valueAt_set hs]
  by_cases hk : number = k
  · rw [if_pos hk, if_pos hk, value_revert, ← hk, valueAt_of_getElem? hs]
  · rw [if_neg hk, if_neg hk, sub_zero]

lemma valueAt_revertOperations (hin : ∀ op ∈ ops, op.semNum.toNat < l.length) (k : ℕ) :
    valueAt (revertOperations ops l).1 k = valueAt l k - change ops k := by
  induction ops generalizing l with
  | nil => simp [revertOperations]
  | cons op ops ih =>
    have hop := hin op List.mem_cons_self
    have hrest : ∀ o ∈ ops, o.semNum.toNat < l.length :=
      fun o ho => hin o (List.mem_cons_of_mem _ ho)
    rw [revertOperations, change_cons]
    dsimp only
    by_cases hzero : op.semOp ≠ 0
    · rw [if_pos hzero, ih (by rw [length_change]; exact hrest), valueAt_revert hop]
      abel
    · rw [if_neg hzero, ih hrest, not_not.1 hzero, ite_self, zero_add]

lemma valueAt_revertUndos (hrecord : undoList.any (·.team = team) = true)
    (hin : ∀ op ∈ ops, op.semNum.toNat < l.length) (k : ℕ) :
    valueAt (revertUndos team undoList ops l).1 k =
      valueAt l k - change (ops.filter (·.has semUndo)) k := by
  induction ops generalizing l with
  | nil => simp [revertUndos]
  | cons op ops ih =>
    have hop := hin op List.mem_cons_self
    have hrest : ∀ o ∈ ops, o.semNum.toNat < l.length :=
      fun o ho => hin o (List.mem_cons_of_mem _ ho)
    rw [revertUndos]
    dsimp only
    unfold revertUndo
    by_cases hundo : op.has semUndo = true
    · rw [if_pos hundo, if_pos hrecord, ih (by rw [length_change]; exact hrest),
        valueAt_revert hop, List.filter_cons, if_pos hundo, change_cons]
      abel
    · rw [if_neg hundo, ih hrest, List.filter_cons, if_neg hundo]

lemma revertUndos_of_none (hrecord : undoList.any (·.team = team) = false) (ops : List SemBuf)
    (l : Semaphores) : (revertUndos team undoList ops l).1 = l := by
  induction ops with
  | nil => rfl
  | cons op ops ih =>
    rw [revertUndos]
    dsimp only
    unfold revertUndo
    rw [hrecord]
    simpa using ih

lemma valueAt_setPids (pid : ℕ) (ops : List SemBuf) (l : Semaphores) (k : ℕ) :
    valueAt (setPids pid ops l) k = valueAt l k := by
  induction ops generalizing l with
  | nil => rfl
  | cons op ops ih =>
    rw [setPids, ih]
    unfold Semaphores.change
    split
    · rfl
    next s hs =>
      rw [valueAt_set hs]
      split_ifs with hk
      · rw [← hk, valueAt_of_getElem? hs]
        rfl
      · rfl

lemma valueAt_enqueue (l : Semaphores) (number : ℕ) (entry : QueuedThread) (zero : Bool) (k : ℕ) :
    valueAt (l.change number fun s => (s.enqueue entry zero, [])).1 k = valueAt l k := by
  unfold Semaphores.change
  split
  · rfl
  next s hs =>
    rw [valueAt_set hs]
    split_ifs with hk
    · rw [← hk, valueAt_of_getElem? hs]
      unfold XsiSemaphore.enqueue
      split <;> rfl
    · rfl

/-! ## The loop that carries out operations -/

lemma valueAt_applyOperations (h : applyOperations ops l = some a) :
    a.count ≤ ops.length ∧ (∀ op ∈ ops.take a.count, op.semNum.toNat < l.length) ∧
      ∀ k, valueAt a.semaphores k = valueAt l k + change (ops.take a.count) k := by
  induction ops generalizing l a with
  | nil =>
    cases h
    refine ⟨le_refl _, ?_, ?_⟩
    · intro op hop
      cases hop
    · intro k
      exact (add_zero _).symm
  | cons op ops ih =>
    rcases applyOperations_cases h with rfl | ⟨s, hs, ⟨_, rfl⟩ | ⟨_, b, hb, rfl⟩⟩
    · exact ⟨Nat.zero_le _, by simp [Applied.stop], by simp [Applied.stop]⟩
    · exact ⟨Nat.zero_le _, by simp [Applied.stop], by simp [Applied.stop]⟩
    · obtain ⟨hle, hin, hvalues⟩ := ih hb
      have hlt : op.semNum.toNat < l.length := (List.getElem?_eq_some_iff.1 hs).1
      refine ⟨Nat.succ_le_succ hle, ?_, ?_⟩
      · intro o ho
        rcases List.mem_cons.1 ho with rfl | ho
        · exact hlt
        · have ho' := hin o ho
          rw [List.length_set] at ho'
          exact ho'
      · intro k
        show valueAt b.semaphores k = valueAt l k + change (op :: ops.take b.count) k
        rw [hvalues, valueAt_set hs, value_carryOut, change_cons]
        by_cases hk : op.semNum.toNat = k
        · rw [if_pos hk, if_pos hk, ← valueAt_of_getElem? hs, hk]
          abel
        · rw [if_neg hk, if_neg hk, zero_add]

/-! ## Where the loop stops -/

/-- The first operation that names no semaphore of the set, or that cannot be carried out with the
values that those before it make, modulo 65536, and how many are before it. -/
def firstStop (number : ℕ) : List SemBuf → (ℕ → BitVec 16) → Option (ℕ × SemBuf)
  | [], _ => none
  | op :: ops, v =>
    let k := op.semNum.toNat
    if number ≤ k then some (0, op)
    else if op.semOp = 0 ∧ v k ≠ 0 ∨ ((v k).toNat : ℤ) + op.semOp.toInt < 0 then some (0, op)
    else (firstStop number ops (update v k (v k + op.semOp))).map fun r => (r.1 + 1, r.2)

lemma valueAt_update (hs : l[number]? = some s) (new : XsiSemaphore)
    (hnew : new.value = s.value + value) :
    valueAt (l.set number new) = update (valueAt l) number (valueAt l number + value) := by
  funext k
  rw [valueAt_set hs, valueAt_of_getElem? hs]
  by_cases hk : number = k
  · rw [if_pos hk, hk, update_self, hnew]
  · rw [if_neg hk, update_of_ne (fun he => hk he.symm)]

lemma firstStop_inside (hs : l[op.semNum.toNat]? = some s) (hlength : l.length = number) :
    firstStop number (op :: ops) (valueAt l) =
      if op.Blocks s then some (0, op)
      else (firstStop number ops (valueAt (l.set op.semNum.toNat (op.carryOut s).1))).map
        fun r => (r.1 + 1, r.2) := by
  have hlt : op.semNum.toNat < l.length := (List.getElem?_eq_some_iff.1 hs).1
  rw [firstStop, if_neg (by omega), valueAt_update hs (op.carryOut s).1 (value_carryOut _ _),
    valueAt_of_getElem? hs]
  by_cases hblocks : op.Blocks s
  · rw [if_pos hblocks]
    exact if_pos hblocks
  · rw [if_neg hblocks]
    exact if_neg hblocks

lemma applyOperations_firstStop (hlength : l.length = number) (hsmall : number < 2 ^ 15) :
    match firstStop number ops (valueAt l) with
    | none => ∃ a, applyOperations ops l = some a ∧ a.verdict = .done ∧ a.count = ops.length
    | some (i, op) =>
      if number ≤ op.semNum.toNat then
        if op.semNum.toNat < 2 ^ 15 then
          ∃ a, applyOperations ops l = some a ∧ a.verdict = .fails .invalid
        else applyOperations ops l = none
      else
        ∃ a, applyOperations ops l = some a ∧ a.verdict = op.refused ∧ a.count = i ∧
          ops[i]? = some op := by
  induction ops generalizing l with
  | nil => exact ⟨_, rfl, rfl, rfl⟩
  | cons op ops ih =>
    by_cases hout : number ≤ op.semNum.toNat
    · rw [firstStop, if_pos hout]
      dsimp only
      rw [if_pos hout, applyOperations_outside (by omega) (by omega)]
      by_cases hnum : op.semNum.toNat < 2 ^ 15
      · rw [if_pos hnum, if_pos hnum]
        exact ⟨_, rfl, rfl⟩
      · rw [if_neg hnum, if_neg hnum]
    · have hlt : op.semNum.toNat < l.length := by omega
      have hs : l[op.semNum.toNat]? = some l[op.semNum.toNat] := List.getElem?_eq_getElem hlt
      have hinside : applyOperations (op :: ops) l = _ := applyOperations_inside hs (by omega)
      rw [firstStop_inside hs hlength]
      by_cases hblocks : op.Blocks l[op.semNum.toNat]
      · rw [if_pos hblocks] at hinside
        rw [if_pos hblocks]
        dsimp only
        rw [if_neg hout]
        exact ⟨_, hinside, rfl, rfl, rfl⟩
      · rw [if_neg hblocks] at hinside
        rw [if_neg hblocks, hinside]
        have hrest := ih (l := l.set op.semNum.toNat (op.carryOut l[op.semNum.toNat]).1)
          (by rw [List.length_set]; exact hlength)
        -- the loop goes on with the other operations
        generalize firstStop number ops
          (valueAt (l.set op.semNum.toNat (op.carryOut l[op.semNum.toNat]).1)) = stop at hrest ⊢
        cases stop with
        | none =>
          obtain ⟨b, hb, hdone, hcount⟩ := hrest
          rw [hb]
          exact ⟨_, rfl, hdone, congrArg Nat.succ hcount⟩
        | some r =>
          show if _ then if _ then _ else _ else _
          dsimp only at hrest
          split_ifs at hrest ⊢ with houtside hnum
          · obtain ⟨b, hb, hfails⟩ := hrest
            rw [hb]
            exact ⟨_, rfl, hfails⟩
          · rw [hrest]
            rfl
          · obtain ⟨b, hb, hrefused, hcount, hop⟩ := hrest
            rw [hb]
            exact ⟨_, rfl, hrefused, congrArg Nat.succ hcount, hop⟩

/-! ## The sequential application -/

/-- The operations one after the other, with values from 0 to 65535 -/
def applySequentially : List SemBuf → (ℕ → ℤ) → Option (ℕ → ℤ)
  | [], v => some v
  | op :: ops, v =>
    let new := v op.semNum.toNat + op.semOp.toInt
    if op.semOp = 0 ∧ v op.semNum.toNat ≠ 0 ∨ new < 0 ∨ new > 65535 then none
    else applySequentially ops (update v op.semNum.toNat new)

def overflows : List SemBuf → (ℕ → ℤ) → Bool
  | [], _ => false
  | op :: ops, v =>
    let new := v op.semNum.toNat + op.semOp.toInt
    new > 65535 || overflows ops (update v op.semNum.toNat new)

def numbers (v : ℕ → BitVec 16) (k : ℕ) : ℤ := (v k).toNat

lemma toNat_add_of_range (x y : BitVec 16) (h : 0 ≤ (x.toNat : ℤ) + y.toInt)
    (hle : (x.toNat : ℤ) + y.toInt ≤ 65535) : ((x + y).toNat : ℤ) = x.toNat + y.toInt := by
  have hcond := BitVec.toInt_eq_toNat_cond y
  have hy : y.toNat < 2 ^ 16 := y.isLt
  have hadd : (x + y).toNat = (x.toNat + y.toNat) % 2 ^ 16 := BitVec.toNat_add x y
  split_ifs at hcond with hsmall
  · omega
  · omega

lemma numbers_update (v : ℕ → BitVec 16) (k : ℕ) (x y : BitVec 16)
    (h : (x.toNat : ℤ) = (v k).toNat + y.toInt) :
    numbers (update v k x) =
      update (numbers v) k (numbers v k + y.toInt) := by
  funext j
  unfold numbers
  by_cases hj : j = k
  · rw [hj, update_self, update_self, h]
  · rw [update_of_ne hj, update_of_ne hj]

lemma applySequentially_of_firstStop {v : ℕ → BitVec 16}
    (hstop : firstStop number ops v = none) :
    if overflows ops (numbers v) = true then applySequentially ops (numbers v) = none
    else applySequentially ops (numbers v) = some (numbers fun k => v k + change ops k) := by
  induction ops generalizing v with
  | nil =>
    have hsame : (fun k => v k + change [] k) = v := funext fun k => add_zero _
    rw [hsame]
    rfl
  | cons op ops ih =>
    rw [firstStop] at hstop
    split_ifs at hstop with hout hblocks
    have hstop := Option.map_eq_none_iff.1 hstop
    rw [overflows, applySequentially]
    have hnonneg : 0 ≤ numbers v op.semNum.toNat + op.semOp.toInt := by
      by_contra hneg
      exact hblocks (Or.inr (by unfold numbers at hneg; omega))
    by_cases hover : numbers v op.semNum.toNat + op.semOp.toInt > 65535
    · rw [decide_eq_true hover, Bool.true_or, if_pos rfl, if_pos (Or.inr (Or.inr hover))]
    · have hnumber := toNat_add_of_range (v op.semNum.toNat) op.semOp hnonneg (not_lt.1 hover)
      have hupdate := numbers_update v op.semNum.toNat _ op.semOp hnumber
      have hgo : ¬ (op.semOp = 0 ∧ numbers v op.semNum.toNat ≠ 0 ∨
          numbers v op.semNum.toNat + op.semOp.toInt < 0 ∨
          numbers v op.semNum.toNat + op.semOp.toInt > 65535) := by
        intro h
        rcases h with ⟨hzero, hvalue⟩ | hneg | hgt
        · apply hblocks
          refine Or.inl ⟨hzero, ?_⟩
          intro he
          apply hvalue
          unfold numbers
          rw [he]
          rfl
        · omega
        · exact hover hgt
      rw [decide_eq_false hover, Bool.false_or, if_neg hgo, ← hupdate]
      have hrest := ih hstop
      have hsum : (fun k => update v op.semNum.toNat (v op.semNum.toNat + op.semOp) k +
          change ops k) = fun k => v k + change (op :: ops) k := by
        funext k
        rw [change_cons]
        by_cases hk : op.semNum.toNat = k
        · rw [← hk, update_self, if_pos rfl]
          abel
        · rw [update_of_ne (fun he => hk he.symm), if_neg hk, zero_add]
      rw [hsum] at hrest
      exact hrest

/-! ## Recording undo values -/

/-- The value a team has recorded for a semaphore -/
def undoValueAt (undoList : List SemUndo) (team k : ℕ) : BitVec 16 :=
  ((undoList.find? (·.team = team)).map fun u => u.undoValues.getD k 0).getD 0

/-- A call of `RecordUndo()`: the operation, those before it, whether the team has a record, and
whether the call succeeds -/
structure RecordAttempt where
  op : SemBuf
  before : List SemBuf
  hasRecord : Bool
  recorded : Bool

/-- The calls of `RecordUndo()` for the operations -/
def recordAttempts (team number : ℕ) :
    List SemBuf → List SemBuf → List Bool → List SemUndo → List RecordAttempt
  | _, [], _, _ => []
  | before, op :: ops, memory, undoList =>
    if op.has semUndo then
      let next := recordUndo team number op.semNum.toNat op.semOp (memory.headD true) undoList
      ⟨op, before, undoList.any (·.team = team), next.isSome⟩ ::
        recordAttempts team number (before ++ [op]) ops memory.tail (next.getD undoList)
    else recordAttempts team number (before ++ [op]) ops memory undoList

/-- What is taken from a semaphore where recording fails: all operations, and those before it that
have an undo flag, which `RevertUndo()` takes from the semaphore and not from the record. -/
def takenBack (all : List SemBuf) (attempts : List RecordAttempt) (k : ℕ) : BitVec 16 :=
  (attempts.map fun r =>
    if r.recorded then 0
    else change all k + if r.hasRecord then change (r.before.filter (·.has semUndo)) k else 0).sum

def leftRecorded (attempts : List RecordAttempt) (k : ℕ) : BitVec 16 :=
  (attempts.map fun r => if r.recorded ∧ r.op.semNum.toNat = k then r.op.semOp else 0).sum

@[simp] lemma takenBack_cons (all : List SemBuf) (r : RecordAttempt) (rs : List RecordAttempt)
    (k : ℕ) : takenBack all (r :: rs) k = (if r.recorded then 0 else change all k +
      if r.hasRecord then change (r.before.filter (·.has semUndo)) k else 0) +
        takenBack all rs k := by
  rw [takenBack, List.map_cons, List.sum_cons]
  rfl

@[simp] lemma leftRecorded_cons (r : RecordAttempt) (rs : List RecordAttempt) (k : ℕ) :
    leftRecorded (r :: rs) k =
      (if r.recorded ∧ r.op.semNum.toNat = k then r.op.semOp else 0) + leftRecorded rs k := by
  rw [leftRecorded, List.map_cons, List.sum_cons]
  rfl

/-- Every record has a value for each semaphore. -/
def Full (undoList : List SemUndo) (number : ℕ) : Prop :=
  ∀ u ∈ undoList, u.undoValues.length = number

lemma undoValueAt_cons (u : SemUndo) (team k : ℕ) :
    undoValueAt (u :: undoList) team k =
      if u.team = team then u.undoValues.getD k 0 else undoValueAt undoList team k := by
  unfold undoValueAt
  rw [List.find?_cons]
  by_cases hu : u.team = team
  · rw [decide_eq_true hu, if_pos hu]
    rfl
  · rw [decide_eq_false hu, if_neg hu]

lemma getD_set (values : List (BitVec 16)) (number k : ℕ) (new : BitVec 16)
    (hlt : number < values.length) :
    (values.set number new).getD k 0 = if number = k then new else values.getD k 0 := by
  rw [List.getD_eq_getElem?_getD, List.getD_eq_getElem?_getD]
  by_cases hk : number = k
  · rw [if_pos hk, ← hk, List.getElem?_set_self hlt]
    rfl
  · rw [if_neg hk, List.getElem?_set_ne hk]

lemma ofInt_toInt_add (x y : BitVec 16) : BitVec.ofInt 16 (x.toInt + y.toInt) = x + y := by
  rw [BitVec.ofInt_add, BitVec.ofInt_toInt, BitVec.ofInt_toInt]

lemma recordUndo_some {count : ℕ} {memory : Bool} (hfull : Full undoList count)
    (hlt : number < count) (h : recordUndo team count number value memory undoList = some undoList') :
    Full undoList' count ∧ ∀ t k, undoValueAt undoList' t k =
      undoValueAt undoList t k + if t = team ∧ number = k then value else 0 := by
  induction undoList generalizing undoList' with
  | nil =>
    rw [recordUndo] at h
    split_ifs at h
    cases h
    constructor
    · intro u hu
      rw [List.mem_singleton.1 hu, List.length_set, List.length_replicate]
    · intro t k
      rw [undoValueAt_cons, getD_set _ _ _ _ (by rw [List.length_replicate]; exact hlt)]
      have hzero : (List.replicate count (0 : BitVec 16)).getD k 0 = 0 := by
        rw [List.getD_eq_getElem?_getD, List.getElem?_replicate]
        split <;> rfl
      have hnil : undoValueAt [] t k = 0 := rfl
      rw [hzero, hnil, zero_add]
      by_cases ht : t = team
      · rw [if_pos ht.symm]
        simp only [ht, true_and]
      · rw [if_neg (fun he => ht he.symm), if_neg (fun he => ht he.1)]
  | cons current list ih =>
    rw [recordUndo] at h
    have hcurrent := hfull current List.mem_cons_self
    have hlist : Full list count := fun u hu => hfull u (List.mem_cons_of_mem _ hu)
    by_cases hteam : current.team = team
    · rw [if_pos hteam] at h
      dsimp only at h
      split_ifs at h
      cases h
      constructor
      · intro u hu
        rcases List.mem_cons.1 hu with rfl | hu
        · rw [List.length_set]
          exact hcurrent
        · exact hlist u hu
      · intro t k
        rw [undoValueAt_cons, undoValueAt_cons, ofInt_toInt_add,
          getD_set _ _ _ _ (by rw [hcurrent]; exact hlt), hteam]
        by_cases ht : team = t
        · rw [if_pos ht, if_pos ht]
          by_cases hk : number = k
          · rw [if_pos hk, if_pos ⟨ht.symm, hk⟩, hk]
          · rw [if_neg hk, if_neg (fun he => hk he.2), add_zero]
        · rw [if_neg ht, if_neg ht, if_neg (fun he => ht he.1.symm), add_zero]
    · rw [if_neg hteam] at h
      obtain ⟨new, hnew, he⟩ := Option.map_eq_some_iff.1 h
      obtain ⟨hfull', hvalues⟩ := ih hlist hnew
      rw [← he]
      constructor
      · intro u hu
        rcases List.mem_cons.1 hu with rfl | hu
        · exact hcurrent
        · exact hfull' u hu
      · intro t k
        rw [undoValueAt_cons, undoValueAt_cons, hvalues]
        by_cases ht : current.team = t
        · have hother : ¬ (t = team ∧ number = k) := fun he => hteam (ht.trans he.1)
          rw [if_pos ht, if_pos ht, if_neg hother, add_zero]
        · rw [if_neg ht, if_neg ht]

lemma recordUndos_sums {r : Recording} (hfull : Full r.undoList r.semaphores.length)
    (hall : ∀ op ∈ all, op.semNum.toNat < r.semaphores.length)
    (hbefore : ∀ op ∈ before, op.semNum.toNat < r.semaphores.length)
    (hops : ∀ op ∈ ops, op.semNum.toNat < r.semaphores.length) :
    (∀ k, valueAt (recordUndos team all before ops r).semaphores k = valueAt r.semaphores k -
      takenBack all (recordAttempts team r.semaphores.length before ops r.memory r.undoList) k) ∧
    (∀ t k, undoValueAt (recordUndos team all before ops r).undoList t k =
      undoValueAt r.undoList t k + if t = team then leftRecorded
        (recordAttempts team r.semaphores.length before ops r.memory r.undoList) k else 0) ∧
    (recordUndos team all before ops r).failed = (r.failed ||
      (recordAttempts team r.semaphores.length before ops r.memory r.undoList).any
        (!·.recorded)) := by
  induction ops generalizing before r with
  | nil => simp [recordUndos, recordAttempts, takenBack, leftRecorded]
  | cons op ops ih =>
    have hop := hops op List.mem_cons_self
    have hrest : ∀ o ∈ ops, o.semNum.toNat < r.semaphores.length :=
      fun o ho => hops o (List.mem_cons_of_mem _ ho)
    have hnext : ∀ o ∈ before ++ [op], o.semNum.toNat < r.semaphores.length := by
      intro o ho
      rcases List.mem_append.1 ho with ho | ho
      · exact hbefore o ho
      · rw [List.mem_singleton.1 ho]
        exact hop
    rw [recordUndos, recordAttempts]
    by_cases hundo : op.has semUndo = true
    · rw [if_pos hundo, if_pos hundo]
      dsimp only
      generalize hrecord : recordUndo team r.semaphores.length op.semNum.toNat op.semOp
        (r.memory.headD true) r.undoList = next
      cases next with
      | some undoList' =>
        obtain ⟨hfull', hvalues⟩ := recordUndo_some hfull hop hrecord
        obtain ⟨hsem, hlist, hfailed⟩ := @ih (before ++ [op])
          { r with undoList := undoList', memory := r.memory.tail } hfull' hall hnext hrest
        refine ⟨?_, ?_, ?_⟩
        · intro k
          rw [hsem]
          simp
        · intro t k
          rw [hlist, hvalues]
          simp only [leftRecorded_cons, Option.getD_some, Option.isSome_some, true_and]
          by_cases ht : t = team
          · rw [if_pos ht, if_pos ht]
            simp only [ht, true_and]
            abel
          · rw [if_neg ht, if_neg ht, if_neg (fun he => ht he.1), add_zero]
        · rw [hfailed]
          simp
      | none =>
        have hlength : (revertUndos team r.undoList before
            (revertOperations all r.semaphores).1).1.length = r.semaphores.length := by
          rw [length_revertUndos, length_revertOperations]
        have hall' : ∀ o ∈ all, o.semNum.toNat < (revertUndos team r.undoList before
            (revertOperations all r.semaphores).1).1.length := by
          rw [hlength]
          exact hall
        obtain ⟨hsem, hlist, hfailed⟩ := @ih (before ++ [op])
          { r with
            semaphores := (revertUndos team r.undoList before
              (revertOperations all r.semaphores).1).1
            memory     := r.memory.tail
            woken      := r.woken ++ (revertOperations all r.semaphores).2 ++
              (revertUndos team r.undoList before (revertOperations all r.semaphores).1).2
            failed     := true }
          (by rw [hlength]; exact hfull) hall' (by rw [hlength]; exact hnext)
          (by rw [hlength]; exact hrest)
        dsimp only at hsem hlist hfailed
        rw [hlength] at hsem hlist hfailed
        -- the values after the two loops that take operations back
        have hvalue : ∀ k, valueAt (revertUndos team r.undoList before
            (revertOperations all r.semaphores).1).1 k = valueAt r.semaphores k - (change all k +
              if r.undoList.any (·.team = team) = true then
                change (before.filter (·.has semUndo)) k else 0) := by
          intro k
          by_cases hany : r.undoList.any (·.team = team) = true
          · rw [valueAt_revertUndos hany (by rw [length_revertOperations]; exact hbefore),
              valueAt_revertOperations hall, if_pos hany]
            abel
          · rw [revertUndos_of_none (by simpa using hany), valueAt_revertOperations hall,
              if_neg hany, add_zero]
        refine ⟨?_, ?_, ?_⟩
        · intro k
          rw [hsem, hvalue]
          simp only [takenBack_cons, Option.isSome_none, Option.getD_none, Bool.false_eq_true,
            if_false]
          abel
        · intro t k
          rw [hlist]
          simp
        · rw [hfailed]
          simp
    · rw [if_neg hundo, if_neg hundo]
      exact ih hfull hall hnext hrest

/-! ## Attempts -/

/-- What an attempt is to be: it applies all operations, or it changes no value and no undo value;
and it rejects an operation on a semaphore that is not there. -/
structure AllOrNothing (ops : List SemBuf) (l : Semaphores) (undoList : List SemUndo) (r : Attempt) :
    Prop where
  applied : r.outcome = .returns none → ∃ v, applySequentially ops (numbers (valueAt l)) = some v ∧
    ∀ k, k < l.length → numbers (valueAt r.semaphores) k = v k
  nothing : r.outcome ≠ .returns none → ∀ k, k < l.length →
    valueAt r.semaphores k = valueAt l k ∧
      ∀ t, undoValueAt r.undoList t k = undoValueAt undoList t k
  outside : (∃ op ∈ ops, l.length ≤ op.semNum.toNat) → r.outcome = .returns (some .invalid)

/-- If an operation names no semaphore of the set, nothing stops the loop before it, and its number is
none that the code takes for a negative one. If all operations can be carried out, no value
overflows and all undo values can be recorded; or else what is taken back too often, and what stays
recorded, adds up to nothing. -/
def Orderly (team : ℕ) (ops : List SemBuf) (memory : List Bool) (l : Semaphores)
    (undoList : List SemUndo) : Prop :=
  match firstStop l.length ops (valueAt l) with
  | some (_, op) => (∃ o ∈ ops, l.length ≤ o.semNum.toNat) →
      l.length ≤ op.semNum.toNat ∧ op.semNum.toNat < 2 ^ 15
  | none =>
    let attempts := recordAttempts team l.length [] ops memory undoList
    if attempts.all (·.recorded) = true then overflows ops (numbers (valueAt l)) = false
    else ∀ k, k < l.length → takenBack ops attempts k = change ops k ∧ leftRecorded attempts k = 0

lemma firstStop_mem {v : ℕ → BitVec 16} {i : ℕ} (h : firstStop number ops v = some (i, op)) :
    op ∈ ops := by
  induction ops generalizing v i with
  | nil => cases h
  | cons o ops ih =>
    rw [firstStop] at h
    split_ifs at h
    · cases h
      exact List.mem_cons_self
    · cases h
      exact List.mem_cons_self
    · obtain ⟨r, hr, he⟩ := Option.map_eq_some_iff.1 h
      cases he
      exact List.mem_cons_of_mem _ (ih hr)

lemma takenBack_of_all {attempts : List RecordAttempt} (h : attempts.all (·.recorded) = true)
    (k : ℕ) : takenBack all attempts k = 0 := by
  induction attempts with
  | nil => rfl
  | cons r rs ih =>
    rw [List.all_cons, Bool.and_eq_true] at h
    rw [takenBack_cons, if_pos h.1, ih h.2, zero_add]

section

variable (h : applyOperations ops l = some a)
include h

lemma valueAt_stopped (k : ℕ) :
    valueAt (revertOperations (ops.take a.count) a.semaphores).1 k = valueAt l k := by
  obtain ⟨_, hin, hvalues⟩ := valueAt_applyOperations h
  have hlength := length_applyOperations h
  rw [valueAt_revertOperations (by rw [hlength]; exact hin), hvalues]
  abel

lemma nothing_refuse (undoList : List SemUndo) (error : Error)
    (houtside : (∃ op ∈ ops, l.length ≤ op.semNum.toNat) → error = .invalid) :
    AllOrNothing ops l undoList (a.refuse ops undoList error) where
  applied he := by cases he
  nothing _ k _ := ⟨valueAt_stopped h k, fun _ => rfl⟩
  outside hout := by
    rw [← houtside hout]
    rfl

lemma nothing_sleep (thread : ℕ) (undoList : List SemUndo)
    (op : SemBuf) (hinside : ¬ ∃ op ∈ ops, l.length ≤ op.semNum.toNat) :
    AllOrNothing ops l undoList (a.sleep thread ops undoList op) where
  applied he := by cases he
  nothing _ k _ := by
    refine ⟨?_, fun _ => rfl⟩
    unfold Applied.sleep
    rw [valueAt_enqueue]
    exact valueAt_stopped h k
  outside hout := absurd hout hinside

lemma allOrNothing_record (hcount : a.count = ops.length)
    (hstop : firstStop l.length ops (valueAt l) = none) (hfull : Full undoList l.length)
    (memory : List Bool) : AllOrNothing ops l undoList (a.record team ops memory undoList) ↔
      if (recordAttempts team l.length [] ops memory undoList).all (·.recorded) = true then
        overflows ops (numbers (valueAt l)) = false
      else ∀ k, k < l.length →
        takenBack ops (recordAttempts team l.length [] ops memory undoList) k = change ops k ∧
          leftRecorded (recordAttempts team l.length [] ops memory undoList) k = 0 := by
  obtain ⟨_, hin, hvalues⟩ := valueAt_applyOperations h
  have hlength := length_applyOperations h
  rw [hcount, List.take_length] at hin hvalues
  have hinside : ¬ ∃ op ∈ ops, l.length ≤ op.semNum.toNat := by
    rintro ⟨op, hop, hle⟩
    have hlt := hin op hop
    omega
  obtain ⟨hsem, hlist, hfailed⟩ := @recordUndos_sums ops ops [] team
    ⟨a.semaphores, undoList, memory, a.woken, false⟩ (by rw [hlength]; exact hfull)
    (by rw [hlength]; exact hin) (fun _ ho => by cases ho) (by rw [hlength]; exact hin)
  dsimp only at hsem hlist hfailed
  rw [hlength, Bool.false_or] at hfailed
  rw [hlength] at hsem hlist
  generalize recordAttempts team l.length [] ops memory undoList = attempts at hsem hlist hfailed ⊢
  by_cases hall : attempts.all (·.recorded) = true
  · have hnone : attempts.any (!·.recorded) = false := by
      rw [List.any_eq_not_all_not]
      simpa using hall
    rw [if_pos hall]
    have hsequential := applySequentially_of_firstStop hstop
    have hfinal : (a.record team ops memory undoList).outcome = .returns none ∧
        ∀ k, valueAt (a.record team ops memory undoList).semaphores k =
          valueAt l k + change ops k := by
      unfold Applied.record
      dsimp only
      rw [hfailed, hnone]
      refine ⟨rfl, ?_⟩
      intro k
      show valueAt (setPids team ops _) k = _
      rw [valueAt_setPids, hsem, takenBack_of_all hall, hvalues, sub_zero]
    constructor
    · intro hprop
      obtain ⟨v, hv, _⟩ := hprop.applied hfinal.1
      by_contra hover
      rw [if_pos (by simpa using hover), hv] at hsequential
      cases hsequential
    · intro hover
      rw [if_neg (by rw [hover]; decide)] at hsequential
      constructor
      · intro _
        refine ⟨_, hsequential, ?_⟩
        intro k _
        unfold numbers
        rw [hfinal.2]
      · intro hne
        exact absurd hfinal.1 hne
      · intro hout
        exact absurd hout hinside
  · have hsome : attempts.any (!·.recorded) = true := by
      rw [List.any_eq_not_all_not]
      simpa using hall
    rw [if_neg hall]
    have hfinal : (a.record team ops memory undoList).outcome = .returns (some .noSpace) ∧
        (∀ k, valueAt (a.record team ops memory undoList).semaphores k =
          valueAt l k + change ops k - takenBack ops attempts k) ∧
        ∀ t k, undoValueAt (a.record team ops memory undoList).undoList t k =
          undoValueAt undoList t k + if t = team then leftRecorded attempts k else 0 := by
      unfold Applied.record
      dsimp only
      rw [hfailed, hsome]
      refine ⟨rfl, ?_, ?_⟩
      · intro k
        show valueAt (recordUndos team ops [] ops _).semaphores k = _
        rw [hsem, hvalues]
      · exact hlist
    constructor
    · intro hprop k hk
      obtain ⟨hvalue, hundo⟩ := hprop.nothing (by rw [hfinal.1]; simp) k hk
      rw [hfinal.2.1] at hvalue
      have hteam := hundo team
      rw [hfinal.2.2, if_pos rfl] at hteam
      constructor
      · have hsub : change ops k - takenBack ops attempts k = 0 := by
          rw [add_sub_assoc] at hvalue
          exact add_eq_left.1 hvalue
        exact (sub_eq_zero.1 hsub).symm
      · exact add_eq_left.1 hteam
    · intro hsums
      constructor
      · intro he
        rw [hfinal.1] at he
        cases he
      · intro _ k hk
        obtain ⟨htaken, hleft⟩ := hsums k hk
        constructor
        · rw [hfinal.2.1, htaken, add_sub_cancel_right]
        · intro t
          rw [hfinal.2.2, hleft, ite_self, add_zero]
      · intro hout
        exact absurd hout hinside

lemma attempt_fails {error : Error}
    (hfails : a.verdict = .fails error) (team thread : ℕ) (memory : List Bool)
    (undoList : List SemUndo) :
    attempt team thread ops memory l undoList = some (a.refuse ops undoList error) := by
  simp [attempt, h, hfails]

lemma attempt_sleeps (hsleeps : a.verdict = .sleeps)
    (hop : ops[a.count]? = some op) (team thread : ℕ) (memory : List Bool)
    (undoList : List SemUndo) :
    attempt team thread ops memory l undoList = some (a.sleep thread ops undoList op) := by
  simp [attempt, h, hsleeps, hop]

end

/-- An attempt is all or nothing if and only if its operations are in order. -/
theorem allOrNothing_iff (hsmall : l.length < maxSemaphoresPerTeam) (hfull : Full undoList l.length)
    (team thread : ℕ) (ops : List SemBuf) (memory : List Bool) :
    (∃ r, attempt team thread ops memory l undoList = some r ∧ AllOrNothing ops l undoList r) ↔
      Orderly team ops memory l undoList := by
  unfold maxSemaphoresPerTeam at hsmall
  have hloop := @applyOperations_firstStop ops l l.length rfl (by omega)
  unfold Orderly
  generalize hstop : firstStop l.length ops (valueAt l) = stop at hloop ⊢
  cases stop with
  | none =>
    obtain ⟨a, ha, hdone, hcount⟩ := hloop
    have hattempt : attempt team thread ops memory l undoList =
        some (a.record team ops memory undoList) := by
      simp [attempt, ha, hdone]
    rw [hattempt]
    simp only [Option.some.injEq, exists_eq_left']
    exact allOrNothing_record ha hcount hstop hfull memory
  | some r =>
    obtain ⟨i, op⟩ := r
    have hmem := firstStop_mem hstop
    dsimp only at hloop ⊢
    by_cases hout : l.length ≤ op.semNum.toNat
    · rw [if_pos hout] at hloop
      by_cases hnum : op.semNum.toNat < 2 ^ 15
      · rw [if_pos hnum] at hloop
        obtain ⟨a, ha, hfails⟩ := hloop
        constructor
        · intro _ _
          exact ⟨hout, hnum⟩
        · intro _
          exact ⟨_, attempt_fails ha hfails _ _ _ _, nothing_refuse ha _ _ fun _ => rfl⟩
      · -- the number is taken for a negative one
        rw [if_neg hnum] at hloop
        constructor
        · rintro ⟨r, hr, _⟩
          rw [attempt, hloop] at hr
          cases hr
        · intro horder
          exact absurd (horder ⟨op, hmem, hout⟩).2 hnum
    · rw [if_neg hout] at hloop
      obtain ⟨a, ha, hrefused, hcount, hop⟩ := hloop
      rw [← hcount] at hop
      unfold SemBuf.refused at hrefused
      constructor
      · rintro ⟨r, hr, hprop⟩ houtside
        have hinvalid := hprop.outside houtside
        -- the attempt returned something else
        split_ifs at hrefused
        · rw [attempt_fails ha hrefused] at hr
          cases hr
          cases hinvalid
        · rw [attempt_sleeps ha hrefused hop] at hr
          cases hr
          cases hinvalid
      · intro horder
        have hinside : ¬ ∃ o ∈ ops, l.length ≤ o.semNum.toNat :=
          fun houtside => hout (horder houtside).1
        split_ifs at hrefused
        · exact ⟨_, attempt_fails ha hrefused _ _ _ _,
            nothing_refuse ha _ _ fun houtside => absurd houtside hinside⟩
        · exact ⟨_, attempt_sleeps ha hrefused hop _ _ _ _, nothing_sleep ha _ _ _ hinside⟩

def twoSemaphores : Semaphores := [XsiSemaphore.new.setValue 3, .new]

/-- An operation of value `value` with the undo flag -/
def undoOperation (number value : BitVec 16) : SemBuf := ⟨number, value, semUndo⟩

/-- Both operations can be carried out, and recorded. -/
theorem allOrNothing_iff_twoSemaphores :
    ∃ r, attempt 1 1 [undoOperation 0 (-2), undoOperation 1 4] [] twoSemaphores [] = some r ∧
      AllOrNothing [undoOperation 0 (-2), undoOperation 1 4] twoSemaphores [] r := by
  apply (allOrNothing_iff (by decide) (fun _ hu => by cases hu) 1 1
    [undoOperation 0 (-2), undoOperation 1 4] []).2
  show overflows _ _ = false
  decide

/-- There is no memory for a record: the operations are taken back once for each of them. -/
theorem not_allOrNothing : ¬∀ (l : Semaphores) (undoList : List SemUndo) (team thread : ℕ)
    (ops : List SemBuf) (memory : List Bool), l.length < maxSemaphoresPerTeam →
      Full undoList l.length → ∃ r, attempt team thread ops memory l undoList = some r ∧
        AllOrNothing ops l undoList r := by
  intro h
  obtain ⟨r, hr, hprop⟩ := h twoSemaphores [] 1 1 [undoOperation 0 (-2), undoOperation 1 4]
    [false, false] (by decide) (fun _ hu => by cases hu)
  have hends : (attempt 1 1 [undoOperation 0 (-2), undoOperation 1 4] [false, false] twoSemaphores
      []).map (fun r => (r.outcome, valueAt r.semaphores 0)) =
        some (.returns (some .noSpace), 5) := by decide
  rw [hr] at hends
  obtain ⟨houtcome, hvalue⟩ := Prod.mk.inj (Option.some.inj hends)
  have hsame := (hprop.nothing (by rw [houtcome]; decide) 0 (by decide)).1
  rw [hvalue] at hsame
  revert hsame
  decide

end Haiku.Xsi
