import Haiku.Xsi.AttemptTheorems

/-!
# The queues of a set

A semaphore is settled when nobody in its queues could go on with the value it has. Adding to its
value and taking from it always leaves a settled semaphore, because both wake up a whole queue; so
do all loops over operations and undo values. `Woken` says what such a loop does to the queues: it
empties some of them, and the threads it wakes are those of the queues that it emptied.
-/

namespace Haiku.Xsi

def XsiSemaphore.queue (s : XsiSemaphore) (zero : Bool) : List QueuedThread :=
  if zero then s.waitingToBeZeroQueue else s.waitingToIncreaseQueue

/-- The counters are right, and nobody is queued twice. -/
structure XsiSemaphore.Counted (s : XsiSemaphore) : Prop where
  increase : s.threadsWaitingToIncrease.toNat = s.waitingToIncreaseQueue.length
  zero : s.threadsWaitingToBeZero.toNat = s.waitingToBeZeroQueue.length
  nodup : ∀ zero, ((s.queue zero).map QueuedThread.thread).Nodup
  negative : ∀ q ∈ s.waitingToIncreaseQueue, q.count < 0

/-- No operation that a thread is queued for could proceed. -/
structure XsiSemaphore.Settled (s : XsiSemaphore) : Prop extends s.Counted where
  blocked : ∀ q ∈ s.waitingToIncreaseQueue, (s.value.toNat : ℤ) + q.count < 0
  nonzero : s.value = 0 → s.waitingToBeZeroQueue = []

def queueAt (l : Semaphores) (k : ℕ) (zero : Bool) : List QueuedThread :=
  (l[k]?.map (·.queue zero)).getD []

/-- Queues of a semaphore were emptied, and their threads woken. -/
structure XsiSemaphore.Wakes (s s' : XsiSemaphore) (woken : List ℕ) : Prop where
  settled : s.Settled → s'.Settled
  queue : ∀ zero, s'.queue zero = s.queue zero ∨ s'.queue zero = []
  woken : ∀ t ∈ woken, ∃ zero q, q ∈ s.queue zero ∧ q.thread = t ∧ s'.queue zero = []

def AllSettled (l : Semaphores) : Prop := ∀ s ∈ l, s.Settled

/-- Queues of a set were emptied, and their threads woken. -/
structure Woken (l l' : Semaphores) (woken : List ℕ) : Prop where
  settled : AllSettled l → AllSettled l'
  queue : ∀ k zero, ∀ q ∈ queueAt l' k zero, q ∈ queueAt l k zero
  woken : ∀ t ∈ woken, ∃ k zero q, q ∈ queueAt l k zero ∧ q.thread = t ∧ queueAt l' k zero = []

variable {s s' : XsiSemaphore} {l l' l'' : Semaphores} {op : SemBuf} {ops : List SemBuf} {k number : ℕ}
  {woken woken' : List ℕ} {value : BitVec 16} {zero : Bool} {q : QueuedThread} {a : Applied}

/-! ## One semaphore -/

namespace XsiSemaphore

lemma settled_new : new.Settled where
  increase := rfl
  zero := rfl
  nodup zero := by cases zero <;> exact List.nodup_nil
  negative q hq := by cases hq
  blocked q hq := by cases hq
  nonzero _ := rfl

lemma Counted.setValue (h : s.Counted) (value : BitVec 16) : (s.setValue value).Counted :=
  ⟨h.increase, h.zero, h.nodup, h.negative⟩

lemma eq_nil_of_zero {x : BitVec 16} {q : List QueuedThread} (h : x.toNat = q.length)
    (hx : ¬ x > 0) : q = [] := by
  have hzero : ¬ (0 : BitVec 16) < x := hx
  rw [BitVec.lt_def] at hzero
  exact List.length_eq_zero_iff.1 (by simpa [h] using hzero)

lemma wakeUpWaiting_cases (s : XsiSemaphore) :
    (s.value = 0 ∧ s.wakeUpWaiting = s.wakeUpThread true) ∨
      (s.value ≠ 0 ∧ s.wakeUpWaiting = s.wakeUpThread false) ∨
      (s.wakeUpWaiting = (s, []) ∧ (s.value = 0 → ¬ s.threadsWaitingToBeZero > 0) ∧
        (s.value ≠ 0 → ¬ s.threadsWaitingToIncrease > 0)) := by
  have hpos : s.value > 0 ↔ s.value ≠ 0 := by
    constructor
    · intro hgt he
      have hnot : ¬ (0 : BitVec 16) < 0 := by decide
      exact hnot (he ▸ hgt)
    · intro hne
      show 0 < s.value
      rw [BitVec.lt_def]
      have hnat : s.value.toNat ≠ 0 := fun he => hne (BitVec.eq_of_toNat_eq (by simpa using he))
      simpa using Nat.pos_of_ne_zero hnat
  unfold wakeUpWaiting
  by_cases hzero : s.value = 0
  · have hnot : ¬ (s.value > 0 ∧ s.threadsWaitingToIncrease > 0) := fun h => hpos.1 h.1 hzero
    by_cases hwaiting : s.threadsWaitingToBeZero > 0
    · rw [if_pos ⟨hzero, hwaiting⟩]
      exact Or.inl ⟨hzero, rfl⟩
    · rw [if_neg fun h => hwaiting h.2, if_neg hnot]
      exact Or.inr (Or.inr ⟨rfl, fun _ => hwaiting, fun h => absurd hzero h⟩)
  · rw [if_neg fun h => hzero h.1]
    by_cases hwaiting : s.threadsWaitingToIncrease > 0
    · rw [if_pos ⟨hpos.2 hzero, hwaiting⟩]
      exact Or.inr (Or.inl ⟨hzero, rfl⟩)
    · rw [if_neg fun h => hwaiting h.2]
      exact Or.inr (Or.inr ⟨rfl, fun h => absurd h hzero, fun _ => hwaiting⟩)

lemma Counted.settled_wakeUpWaiting (h : s.Counted) : s.wakeUpWaiting.1.Settled := by
  have hcleared : ∀ (x : BitVec 16) (n : ℕ), x.toNat = n → (x - BitVec.ofNat 16 n).toNat = 0 := by
    intro x n hx
    rw [← hx, BitVec.ofNat_toNat, BitVec.setWidth_eq, BitVec.sub_self]
    rfl
  have hbelow : s.value = 0 → ∀ q ∈ s.waitingToIncreaseQueue,
      (s.value.toNat : ℤ) + q.count < 0 := by
    intro hzero q hq
    have hneg := h.negative q hq
    rw [hzero]
    simpa using hneg
  rcases s.wakeUpWaiting_cases with ⟨hzero, he⟩ | ⟨hvalue, he⟩ | ⟨he, hzero, hvalue⟩
  · -- the value is zero, and those who wait for that go on
    rw [he]
    constructor
    · constructor
      · exact h.increase
      · exact hcleared _ _ h.zero
      · intro zero
        cases zero
        · exact h.nodup false
        · exact List.nodup_nil
      · exact h.negative
    · exact hbelow hzero
    · intro _
      rfl
  · rw [he]
    constructor
    · constructor
      · exact hcleared _ _ h.increase
      · exact h.zero
      · intro zero
        cases zero
        · exact List.nodup_nil
        · exact h.nodup true
      · intro q hq
        cases hq
    · intro q hq
      cases hq
    · intro hzero
      exact absurd hzero hvalue
  · rw [he]
    constructor
    · exact h
    · by_cases hvalue' : s.value = 0
      · exact hbelow hvalue'
      · have hnone := eq_nil_of_zero h.increase (hvalue hvalue')
        intro q hq
        rw [hnone] at hq
        cases hq
    · intro hvalue'
      exact eq_nil_of_zero h.zero (hzero hvalue')

lemma queue_wakeUpWaiting (s : XsiSemaphore) (zero : Bool) :
    s.wakeUpWaiting.1.queue zero = s.queue zero ∨ s.wakeUpWaiting.1.queue zero = [] := by
  rcases s.wakeUpWaiting_cases with ⟨_, he⟩ | ⟨_, he⟩ | ⟨he, _⟩
  · rw [he]
    cases zero
    · exact Or.inl rfl
    · exact Or.inr rfl
  · rw [he]
    cases zero
    · exact Or.inr rfl
    · exact Or.inl rfl
  · rw [he]
    exact Or.inl rfl

lemma woken_wakeUpWaiting {t : ℕ} (ht : t ∈ s.wakeUpWaiting.2) :
    ∃ zero q, q ∈ s.queue zero ∧ q.thread = t ∧ s.wakeUpWaiting.1.queue zero = [] := by
  rcases s.wakeUpWaiting_cases with ⟨_, he⟩ | ⟨_, he⟩ | ⟨he, _⟩
  · rw [he] at ht ⊢
    obtain ⟨q, hq, hthread⟩ := List.mem_map.1 ht
    exact ⟨true, q, hq, hthread, rfl⟩
  · rw [he] at ht ⊢
    obtain ⟨q, hq, hthread⟩ := List.mem_map.1 ht
    exact ⟨false, q, hq, hthread, rfl⟩
  · rw [he] at ht
    cases ht

lemma Wakes.refl (s : XsiSemaphore) : s.Wakes s [] where
  settled h := h
  queue _ := Or.inl rfl
  woken t ht := by cases ht

lemma wakes_setValue (s : XsiSemaphore) (value : BitVec 16) :
    s.Wakes (s.setValue value).wakeUpWaiting.1 (s.setValue value).wakeUpWaiting.2 where
  settled h := (h.toCounted.setValue value).settled_wakeUpWaiting
  queue zero := queue_wakeUpWaiting (s.setValue value) zero
  woken _ ht := woken_wakeUpWaiting ht

lemma wakes_revert (s : XsiSemaphore) (value : BitVec 16) :
    s.Wakes (s.revert value).1 (s.revert value).2 := s.wakes_setValue (s.value - value)

lemma wakes_carryOut (op : SemBuf) (s : XsiSemaphore) :
    s.Wakes (op.carryOut s).1 (op.carryOut s).2 := by
  unfold SemBuf.carryOut
  by_cases hzero : op.semOp = 0
  · rw [if_pos hzero]
    exact Wakes.refl s
  · rw [if_neg hzero]
    exact s.wakes_setValue (s.value + op.semOp)

lemma wakes_setPid (s : XsiSemaphore) (pid : ℕ) : s.Wakes (s.setPid pid) [] where
  settled h := ⟨⟨h.increase, h.zero, h.nodup, h.negative⟩, h.blocked, h.nonzero⟩
  queue _ := Or.inl rfl
  woken t ht := by cases ht

lemma Settled.enqueue (h : s.Settled) {thread : ℕ} (hblocks : op.Blocks s)
    (hnew : ∀ zero, ∀ q ∈ s.queue zero, q.thread ≠ thread)
    (hroom : (s.queue (op.semOp = 0)).length + 1 < 2 ^ 16) :
    (s.enqueue ⟨thread, op.semOp.toInt⟩ (op.semOp = 0)).Settled := by
  have hadd : ∀ (x : BitVec 16) (n : ℕ), x.toNat = n → n + 1 < 2 ^ 16 → (x + 1).toNat = n + 1 := by
    intro x n hx hn
    rw [BitVec.toNat_add, hx]
    exact Nat.mod_eq_of_lt hn
  have hnodup : ∀ zero, ((s.queue zero ++ [QueuedThread.mk thread op.semOp.toInt]).map
      QueuedThread.thread).Nodup := by
    intro zero
    rw [List.map_append, List.nodup_append]
    refine ⟨h.nodup zero, List.nodup_singleton _, ?_⟩
    intro t ht t' ht'
    obtain ⟨q, hq, he⟩ := List.mem_map.1 ht
    rw [← he, List.mem_singleton.1 ht']
    exact hnew zero q hq
  by_cases hzero : op.semOp = 0
  · rw [decide_eq_true hzero] at hroom ⊢
    have hvalue : s.value ≠ 0 := by
      rcases hblocks with hblocks | hblocks
      · exact hblocks.2
      · rw [hzero] at hblocks
        have hint : (0 : BitVec 16).toInt = 0 := by decide
        omega
    constructor
    · refine ⟨h.increase, ?_, ?_, h.negative⟩
      · show (s.threadsWaitingToBeZero + 1).toNat = (s.waitingToBeZeroQueue ++ [_]).length
        rw [List.length_append, hadd _ _ h.zero hroom]
        rfl
      · intro zero
        cases zero
        · exact h.nodup false
        · exact hnodup true
    · exact h.blocked
    · intro he
      exact absurd he hvalue
  · rw [decide_eq_false hzero] at hroom ⊢
    have hwait : (s.value.toNat : ℤ) + op.semOp.toInt < 0 :=
      hblocks.resolve_left fun hb => hzero hb.1
    constructor
    · refine ⟨?_, h.zero, ?_, ?_⟩
      · show (s.threadsWaitingToIncrease + 1).toNat = (s.waitingToIncreaseQueue ++ [_]).length
        rw [List.length_append, hadd _ _ h.increase hroom]
        rfl
      · intro zero
        cases zero
        · exact hnodup false
        · exact h.nodup true
      · intro q hq
        rcases List.mem_append.1 hq with hq | hq
        · exact h.negative q hq
        · rw [List.mem_singleton.1 hq]
          show op.semOp.toInt < 0
          omega
    · intro q hq
      rcases List.mem_append.1 hq with hq | hq
      · exact h.blocked q hq
      · rw [List.mem_singleton.1 hq]
        exact hwait
    · exact h.nonzero

lemma mem_queue_enqueue (s : XsiSemaphore) (entry : QueuedThread) (zero zero' : Bool) :
    q ∈ (s.enqueue entry zero).queue zero' ↔
      q ∈ s.queue zero' ∨ zero = zero' ∧ q = entry := by
  unfold enqueue queue
  cases zero <;> cases zero' <;> simp

lemma Settled.deque (h : s.Settled) (thread : ℕ) (zero : Bool) :
    (s.deque thread zero).Settled := by
  have hsub : ∀ (x : BitVec 16) (l : List QueuedThread), x.toNat = l.length →
      l.any (·.thread = thread) = true →
        (x - 1).toNat = (l.eraseP (·.thread = thread)).length := by
    intro x l hx hany
    obtain ⟨q, hq, ht⟩ := List.any_eq_true.1 hany
    have hpos : 0 < l.length := List.length_pos_of_mem hq
    rw [List.length_eraseP_of_mem hq ht, BitVec.toNat_sub, hx]
    have hone : (1 : BitVec 16).toNat = 1 := rfl
    rw [hone]
    omega
  have hnodup : ∀ zero, (((s.queue zero).eraseP (·.thread = thread)).map
      QueuedThread.thread).Nodup :=
    fun zero => (h.nodup zero).sublist (List.eraseP_sublist.map _)
  unfold XsiSemaphore.deque
  split_ifs with hzero hany hany
  · subst hzero
    constructor
    · refine ⟨h.increase, hsub _ _ h.zero hany, ?_, h.negative⟩
      intro zero
      cases zero
      · exact h.nodup false
      · exact hnodup true
    · exact h.blocked
    · intro he
      show s.waitingToBeZeroQueue.eraseP _ = []
      rw [h.nonzero he]
      rfl
  · exact h
  · constructor
    · refine ⟨hsub _ _ h.increase hany, h.zero, ?_, ?_⟩
      · intro zero
        cases zero
        · exact hnodup false
        · exact h.nodup true
      · intro q hq
        exact h.negative q (List.mem_of_mem_eraseP hq)
    · intro q hq
      exact h.blocked q (List.mem_of_mem_eraseP hq)
    · exact h.nonzero
  · exact h

lemma Settled.mem_queue_deque (h : s.Settled) {thread : ℕ} {zero' : Bool}
    (hq : q ∈ (s.deque thread zero).queue zero') :
    q ∈ s.queue zero' ∧ (zero' = zero → q.thread ≠ thread) := by
  have hgone : ∀ l : List QueuedThread, (l.map QueuedThread.thread).Nodup →
      q ∈ l.eraseP (·.thread = thread) → q.thread ≠ thread := by
    intro l hnodup hq
    induction l with
    | nil => cases hq
    | cons x l ih =>
      rw [List.map_cons, List.nodup_cons] at hnodup
      by_cases hx : x.thread = thread
      · rw [List.eraseP_cons_of_pos (by simpa using hx)] at hq
        intro he
        apply hnodup.1
        rw [hx, ← he]
        exact List.mem_map_of_mem hq
      · rw [List.eraseP_cons_of_neg (by simpa using hx)] at hq
        rcases List.mem_cons.1 hq with rfl | hq
        · exact hx
        · exact ih hnodup.2 hq
  have hnone : ∀ l : List QueuedThread, ¬ l.any (·.thread = thread) = true → q ∈ l →
      q.thread ≠ thread := by
    intro l hany hq he
    exact hany (List.any_eq_true.2 ⟨q, hq, by simpa using he⟩)
  unfold XsiSemaphore.deque at hq
  cases zero <;> cases zero' <;> simp only [Bool.false_eq_true, if_false, if_true] at hq
  · split_ifs at hq with hany
    · exact ⟨List.mem_of_mem_eraseP hq, fun _ => hgone _ (h.nodup false) hq⟩
    · exact ⟨hq, fun _ => hnone _ hany hq⟩
  · split_ifs at hq <;> exact ⟨hq, fun he => by cases he⟩
  · split_ifs at hq <;> exact ⟨hq, fun he => by cases he⟩
  · split_ifs at hq with hany
    · exact ⟨List.mem_of_mem_eraseP hq, fun _ => hgone _ (h.nodup true) hq⟩
    · exact ⟨hq, fun _ => hnone _ hany hq⟩

/-- Nobody who is queued could go on with the value. -/
def Admits (s : XsiSemaphore) (value : BitVec 16) : Prop :=
  (value = 0 → s.waitingToBeZeroQueue = []) ∧
    ∀ q ∈ s.waitingToIncreaseQueue, (value.toNat : ℤ) + q.count < 0

lemma Settled.setValue (h : s.Settled) (hadmits : s.Admits value) : (s.setValue value).Settled :=
  ⟨h.toCounted.setValue value, hadmits.2, hadmits.1⟩

end XsiSemaphore

/-! ## The array of a set -/

lemma queueAt_of_getElem? (hs : l[k]? = some s) (zero : Bool) :
    queueAt l k zero = s.queue zero := by
  rw [queueAt, hs]
  rfl

lemma exists_of_mem_queueAt (hq : q ∈ queueAt l k zero) :
    ∃ s, l[k]? = some s ∧ q ∈ s.queue zero := by
  unfold queueAt at hq
  cases hs : l[k]? with
  | none =>
    rw [hs] at hq
    cases hq
  | some s =>
    rw [hs] at hq
    exact ⟨s, rfl, hq⟩

lemma queueAt_set (hs : l[number]? = some s) (new : XsiSemaphore) (k : ℕ) (zero : Bool) :
    queueAt (l.set number new) k zero = if number = k then new.queue zero else queueAt l k zero := by
  have hlt : number < l.length := (List.getElem?_eq_some_iff.1 hs).1
  unfold queueAt
  by_cases hk : number = k
  · rw [if_pos hk, hk, List.getElem?_set_self (by omega)]
    rfl
  · rw [if_neg hk, List.getElem?_set_ne hk]

lemma AllSettled.getElem? (h : AllSettled l) (hs : l[k]? = some s) : s.Settled :=
  h s (List.mem_of_getElem? hs)

lemma AllSettled.set (h : AllSettled l) {new : XsiSemaphore} (hnew : new.Settled) (number : ℕ) :
    AllSettled (l.set number new) := by
  intro t ht
  rcases List.mem_or_eq_of_mem_set ht with ht | rfl
  · exact h t ht
  · exact hnew

namespace Woken

lemma refl (l : Semaphores) : Woken l l [] where
  settled h := h
  queue _ _ _ hq := hq
  woken t ht := by cases ht

lemma trans (h : Woken l l' woken) (h' : Woken l' l'' woken') :
    Woken l l'' (woken ++ woken') where
  settled hl := h'.settled (h.settled hl)
  queue k zero q hq := h.queue k zero q (h'.queue k zero q hq)
  woken t ht := by
    rcases List.mem_append.1 ht with ht | ht
    · obtain ⟨k, zero, q, hq, hthread, hnil⟩ := h.woken t ht
      refine ⟨k, zero, q, hq, hthread, ?_⟩
      apply List.eq_nil_iff_forall_not_mem.2
      intro q' hq'
      have hin := h'.queue k zero q' hq'
      rw [hnil] at hin
      cases hin
    · obtain ⟨k, zero, q, hq, hthread, hnil⟩ := h'.woken t ht
      exact ⟨k, zero, q, h.queue k zero q hq, hthread, hnil⟩

lemma set (hs : l[number]? = some s) {new : XsiSemaphore} (h : s.Wakes new woken) :
    Woken l (l.set number new) woken where
  settled hl := hl.set (h.settled (hl.getElem? hs)) number
  queue k zero q hq := by
    rw [queueAt_set hs] at hq
    by_cases hk : number = k
    · rw [if_pos hk] at hq
      rw [← hk, queueAt_of_getElem? hs]
      rcases h.queue zero with he | he
      · exact he ▸ hq
      · rw [he] at hq
        cases hq
    · rw [if_neg hk] at hq
      exact hq
  woken t ht := by
    obtain ⟨zero, q, hq, hthread, hnil⟩ := h.woken t ht
    refine ⟨number, zero, q, ?_, hthread, ?_⟩
    · rw [queueAt_of_getElem? hs]
      exact hq
    · rw [queueAt_set hs, if_pos rfl]
      exact hnil

lemma change {f : XsiSemaphore → XsiSemaphore × List ℕ}
    (h : ∀ s : XsiSemaphore, s.Wakes (f s).1 (f s).2)
    (l : Semaphores) (number : ℕ) :
    Woken l (l.change number f).1 (l.change number f).2 := by
  unfold Semaphores.change
  split
  · exact refl l
  next s hs => exact set hs (h s)

lemma cons (h : s.Wakes s' woken) (h' : Woken l l' woken') :
    Woken (s :: l) (s' :: l') (woken ++ woken') := by
  have hfirst : (s :: l)[0]? = some s := rfl
  have hhead : Woken (s :: l) (s' :: l) woken := set hfirst h
  apply hhead.trans
  constructor
  · intro hl t ht
    rcases List.mem_cons.1 ht with rfl | ht
    · exact hl _ List.mem_cons_self
    · exact h'.settled (fun t ht => hl t (List.mem_cons_of_mem _ ht)) t ht
  · intro k zero q hq
    cases k with
    | zero => exact hq
    | succ k => exact h'.queue k zero q hq
  · intro t ht
    obtain ⟨k, zero, q, hq, hthread, hnil⟩ := h'.woken t ht
    exact ⟨k + 1, zero, q, hq, hthread, hnil⟩

end Woken

lemma woken_applyOperations (h : applyOperations ops l = some a) :
    Woken l a.semaphores a.woken := by
  induction ops generalizing l a with
  | nil =>
    cases h
    exact Woken.refl l
  | cons op ops ih =>
    rcases applyOperations_cases h with rfl | ⟨s, hs, ⟨_, rfl⟩ | ⟨_, b, hb, rfl⟩⟩
    · exact Woken.refl l
    · exact Woken.refl l
    · exact (Woken.set hs (s.wakes_carryOut op)).trans (ih hb)

lemma woken_revertOperations (ops : List SemBuf) (l : Semaphores) :
    Woken l (revertOperations ops l).1 (revertOperations ops l).2 := by
  induction ops generalizing l with
  | nil => exact Woken.refl l
  | cons op ops ih =>
    rw [revertOperations]
    apply Woken.trans _ (ih _)
    split
    · exact Woken.change (fun s => s.wakes_revert op.semOp) l op.semNum.toNat
    · exact Woken.refl l

lemma woken_revertUndos (team : ℕ) (undoList : List SemUndo) (ops : List SemBuf)
    (l : Semaphores) :
    Woken l (revertUndos team undoList ops l).1 (revertUndos team undoList ops l).2 := by
  induction ops generalizing l with
  | nil => exact Woken.refl l
  | cons op ops ih =>
    rw [revertUndos]
    apply Woken.trans _ (ih _)
    unfold revertUndo
    split_ifs
    · exact Woken.change (fun s => s.wakes_revert op.semOp) l op.semNum.toNat
    · exact Woken.refl l
    · exact Woken.refl l

lemma woken_recordUndos (team : ℕ) (all before ops : List SemBuf) {r : Recording}
    (h : Woken l r.semaphores r.woken) :
    Woken l (recordUndos team all before ops r).semaphores
      (recordUndos team all before ops r).woken := by
  induction ops generalizing before r with
  | nil => exact h
  | cons op ops ih =>
    rw [recordUndos]
    split
    · split
      · exact ih _ h
      · apply ih
        exact (h.trans (woken_revertOperations _ _)).trans (woken_revertUndos _ _ _ _)
    · exact ih _ h

lemma woken_setPids (pid : ℕ) (ops : List SemBuf) (l : Semaphores) :
    Woken l (setPids pid ops l) [] := by
  induction ops generalizing l with
  | nil => exact Woken.refl l
  | cons op ops ih =>
    have hfirst : ∃ woken, Woken l
        (l.change op.semNum.toNat fun s => (s.setPid pid, [])).1 woken ∧ woken = [] := by
      refine ⟨_, Woken.change (fun s => s.wakes_setPid pid) l op.semNum.toNat, ?_⟩
      unfold Semaphores.change
      split <;> rfl
    obtain ⟨woken, hwoken, hnil⟩ := hfirst
    rw [hnil] at hwoken
    exact hwoken.trans (ih _)

lemma woken_undoValues (values : List (BitVec 16)) (l : Semaphores) :
    Woken l (undoValues values l).1 (undoValues values l).2 := by
  induction l generalizing values with
  | nil => cases values <;> exact Woken.refl []
  | cons s l ih =>
    match values with
    | [] => exact Woken.refl (s :: l)
    | value :: values =>
      rw [undoValues]
      dsimp only
      apply Woken.cons _ (ih values)
      split
      · exact s.wakes_revert value
      · exact XsiSemaphore.Wakes.refl s

lemma woken_undo (set : XsiSemaphoreSet) (team : ℕ) :
    Woken set.semaphores (set.undo team).1.semaphores (set.undo team).2 := by
  unfold XsiSemaphoreSet.undo
  split
  · exact Woken.refl _
  · exact woken_undoValues _ _

/-! ## Attempts -/

variable {team thread : ℕ} {memory : List Bool} {undoList : List SemUndo} {r : Attempt}

lemma woken_record (ha : applyOperations ops l = some a) (team : ℕ) (memory : List Bool)
    (undoList : List SemUndo) :
    Woken l (a.record team ops memory undoList).semaphores
      (a.record team ops memory undoList).woken := by
  have hrecorded := woken_recordUndos team ops [] ops
    (r := ⟨a.semaphores, undoList, memory, a.woken, false⟩) (woken_applyOperations ha)
  unfold Applied.record
  dsimp only
  split
  · exact hrecorded
  · have hall := hrecorded.trans (woken_setPids team ops _)
    rw [List.append_nil] at hall
    exact hall

lemma woken_attempt (h : attempt team thread ops memory l undoList = some r)
    {result : Option Error} (hreturns : r.outcome = .returns result) :
    Woken l r.semaphores r.woken := by
  obtain ⟨a, ha, hends⟩ := attempt_cases h
  have happlied := woken_applyOperations ha
  rcases hends with ⟨_, rfl⟩ | ⟨error, _, rfl⟩ | ⟨_, op, _, rfl⟩
  · exact woken_record ha team memory undoList
  · exact happlied.trans (woken_revertOperations _ _)
  · cases hreturns

lemma attempt_blocks (h : attempt team thread ops memory l undoList = some r)
    (hsmall : l.length < maxSemaphoresPerTeam) (hsleeps : r.outcome = .sleeps k op) :
    ∃ i, firstStop l.length ops (valueAt l) = some (i, op) ∧ op.semNum.toNat < l.length ∧
      op.has ipcNoWait = false ∧ k = semaphoreAt (ops.take i) op ∧
      ∃ mid, Woken l mid r.woken ∧ mid.length = l.length ∧ (∀ j, valueAt mid j = valueAt l j) ∧
        r.semaphores = (mid.change k fun s =>
          (s.enqueue ⟨thread, op.semOp.toInt⟩ (op.semOp = 0), [])).1 := by
  unfold maxSemaphoresPerTeam at hsmall
  obtain ⟨a, ha, hends⟩ := attempt_cases h
  rcases hends with ⟨_, rfl⟩ | ⟨error, _, rfl⟩ | ⟨hverdict, op', hop', rfl⟩
  · unfold Applied.record at hsleeps
    dsimp only at hsleeps
    split at hsleeps
    · cases hsleeps
    · cases hsleeps
  · cases hsleeps
  · cases hsleeps
    have hloop := @applyOperations_firstStop ops l l.length rfl (by omega)
    generalize firstStop l.length ops (valueAt l) = stop at hloop
    cases stop with
    | none =>
      obtain ⟨b, hb, hdone, _⟩ := hloop
      rw [ha] at hb
      cases hb
      rw [hverdict] at hdone
      cases hdone
    | some stop =>
      dsimp only at hloop
      by_cases hout : l.length ≤ stop.2.semNum.toNat
      · rw [if_pos hout] at hloop
        split_ifs at hloop
        · obtain ⟨b, hb, hfails⟩ := hloop
          rw [ha] at hb
          cases hb
          rw [hverdict] at hfails
          cases hfails
        · rw [ha] at hloop
          cases hloop
      · rw [if_neg hout] at hloop
        obtain ⟨b, hb, hrefused, hcount, hop⟩ := hloop
        rw [ha] at hb
        cases hb
        rw [hcount, hop] at hop'
        cases hop'
        have hwait : stop.2.has ipcNoWait = false := by
          rw [hverdict] at hrefused
          unfold SemBuf.refused at hrefused
          split_ifs at hrefused with hwait
          simpa using hwait
        refine ⟨stop.1, rfl, by omega, hwait, ?_, ?_⟩
        · rw [← hcount]
        · refine ⟨(revertOperations (ops.take a.count) a.semaphores).1, ?_, ?_, ?_, rfl⟩
          · exact (woken_applyOperations ha).trans (woken_revertOperations _ _)
          · exact (length_revertOperations _ _).trans (length_applyOperations ha)
          · exact fun j => valueAt_stopped ha j

/-! ## Values that are set -/

/-- The values that `SETALL` sets leave those who are queued where they are. -/
def AdmitAll : List (Option (BitVec 16)) → Semaphores → Prop
  | some value :: values, s :: l => s.Admits value ∧ AdmitAll values l
  | _, _ => True

lemma AllSettled.setAllValues {values : List (Option (BitVec 16))} (h : AllSettled l)
    (hvalues : AdmitAll values l) : AllSettled (setAllValues values l).1 := by
  induction l generalizing values with
  | nil =>
    rw [Xsi.setAllValues]
    exact h
  | cons s l ih =>
    rcases values with _ | ⟨_ | value, values⟩
    · exact h
    · exact h
    · obtain ⟨hs, hl⟩ := hvalues
      have hrest := ih (fun t ht => h t (List.mem_cons_of_mem _ ht)) hl
      intro t ht
      rcases List.mem_cons.1 ht with rfl | ht
      · exact (h s List.mem_cons_self).setValue hs
      · exact hrest t ht

lemma queueAt_setAllValues (values : List (Option (BitVec 16))) (l : Semaphores) (k : ℕ)
    (zero : Bool) : queueAt (setAllValues values l).1 k zero = queueAt l k zero := by
  induction l generalizing values k with
  | nil => rw [setAllValues]
  | cons s l ih =>
    rcases values with _ | ⟨_ | value, values⟩
    · rfl
    · rfl
    · cases k with
      | zero => rfl
      | succ k => exact ih values k

end Haiku.Xsi
