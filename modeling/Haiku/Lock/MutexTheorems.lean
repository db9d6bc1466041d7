import Haiku.Lock.Mutex
import Haiku.Lock.ReadWriteInvariant

/-!
# A mutex with timeouts keeps its owner

The right to the mutex is with its owner, with an unlock on its way to `_mutex_unlock()`, or in the
flag `MUTEX_FLAG_RELEASED`. There is one such right while the count is negative and none while it is
zero, except that `ignore_unlock_count` of the unlocks on their way have lost theirs:

    owners + unlocks + released = ignore_unlock_count + (1 if count < 0)

The count is minus the number of owners, of lockers on their way to the queue, and of waiters.
-/

set_option linter.unusedSectionVars false

namespace Haiku.MutexLock

open Function Lib Lock

variable {T : Type} [DecidableEq T] [Fintype T]

/-! ## The invariant -/

def Place.owners (p : Place) : ℕ := if p = .owner then 1 else 0

def Place.unlocks (p : Place) : ℕ := if p = .unlocking then 1 else 0

/-- The thread decremented the count, and is on its way to the queue. -/
def Place.lockers : Place → ℕ
  | .announced _ => 1
  | _ => 0

/-- The waiters are the threads that wait, in the order they came. -/
structure Queue (s : State T) (l : List T) : Prop where
  holds : s.lock.waiters.Holds l
  waits : ∀ t, t ∈ l ↔ (s.threads t).waits = true
  ordered : l.Pairwise fun t u => s.arrived t < s.arrived u
  arrived_lt : ∀ t ∈ l, s.arrived t < s.clock

/-- Who has a right to the mutex, with the number `n` of its waiters. -/
structure Rights (count : ℤ) (ignore : ℕ) (released : Bool) (threads : T → Place) (n : ℕ) :
    Prop where
  count_eq : count = -(tally Place.owners threads + tally Place.lockers threads + n : ℕ)
  count_ge : -0x80000000 ≤ count
  locked : count < 0 → tally Place.owners threads + tally Place.unlocks threads +
    released.toNat = ignore + 1
  free : count = 0 → tally Place.owners threads + tally Place.unlocks threads +
    released.toNat = ignore
  ignored : ignore ≤ tally Place.unlocks threads
  ignored_le : ignore ≤ 0xffff
  none_waits : released = true → n = 0

def State.Inv (s : State T) : Prop := ∃ l, Queue s l ∧
  Rights s.lock.count s.lock.ignoreUnlockCount s.lock.released s.threads l.length

/-! ## Rights change hands -/

section

variable {count : ℤ} {ignore n : ℕ} {released : Bool} {threads : T → Place} {t h : T}

lemma tally_all (threads : T → Place) (t : T) (p : Place) :
    tally Place.owners (update threads t p) + (threads t).owners =
        tally Place.owners threads + p.owners ∧
      tally Place.unlocks (update threads t p) + (threads t).unlocks =
        tally Place.unlocks threads + p.unlocks ∧
      tally Place.lockers (update threads t p) + (threads t).lockers =
        tally Place.lockers threads + p.lockers :=
  ⟨tally_update _ _ _ _, tally_update _ _ _ _, tally_update _ _ _ _⟩

attribute [simp] Place.owners Place.unlocks Place.lockers

lemma Rights.announce (hr : Rights count ignore released threads n) (hx : threads t = .idle)
    (timed : Bool) (hneg : count < 0) (hwide : -0x80000000 < count) :
    Rights (count - 1) ignore released (update threads t (.announced timed)) n := by
  obtain ⟨hc, -, hlocked, -, hignored, hle, hnone⟩ := hr
  have hrights := hlocked hneg
  obtain ⟨ho, hu, hl⟩ := tally_all threads t (.announced timed)
  simp [hx] at ho hu hl
  exact ⟨by omega, by omega, fun _ => by omega, fun _ => by omega, by omega, hle, hnone⟩

lemma Rights.acquire (hr : Rights 0 ignore released threads n) (hx : threads t = .idle) :
    Rights (-1) ignore released (update threads t .owner) n := by
  obtain ⟨hc, -, -, hfree, hignored, hle, hnone⟩ := hr
  have hrights := hfree rfl
  obtain ⟨ho, hu, hl⟩ := tally_all threads t .owner
  simp [hx] at ho hu hl
  exact ⟨by omega, by omega, fun _ => by omega, fun _ => by omega, by omega, hle, hnone⟩

lemma Rights.take {timed : Bool} (hr : Rights count ignore true threads n)
    (hx : threads t = .announced timed) :
    Rights count ignore false (update threads t .owner) n := by
  obtain ⟨hc, hge, hlocked, hfree, hignored, hle, -⟩ := hr
  obtain ⟨ho, hu, hl⟩ := tally_all threads t .owner
  simp [hx] at ho hu hl
  rw [Bool.toNat_true] at hlocked hfree
  exact ⟨by omega, hge, fun hneg => by
    have := hlocked hneg
    rw [Bool.toNat_false]
    omega, fun hzero => by omega, by omega, hle, fun hf => (by cases hf)⟩

lemma Rights.enqueue {timed : Bool} (hr : Rights count ignore false threads n)
    (hx : threads t = .announced timed) :
    Rights count ignore false (update threads t (.blocked timed)) (n + 1) := by
  obtain ⟨hc, hge, hlocked, hfree, hignored, hle, -⟩ := hr
  obtain ⟨ho, hu, hl⟩ := tally_all threads t (.blocked timed)
  simp [hx] at ho hu hl
  exact ⟨by omega, hge, fun hneg => by rw [ho, hu]; exact hlocked hneg,
    fun hzero => by rw [ho, hu]; exact hfree hzero, by omega, hle, fun hf => (by cases hf)⟩

lemma Rights.timeout {timed : Bool} (hr : Rights count ignore released threads n)
    (hx : threads t = .blocked timed) :
    Rights count ignore released (update threads t .timedOut) n := by
  obtain ⟨hc, hge, hlocked, hfree, hignored, hle, hnone⟩ := hr
  obtain ⟨ho, hu, hl⟩ := tally_all threads t .timedOut
  simp [hx] at ho hu hl
  exact ⟨by omega, hge, fun hneg => by rw [ho, hu]; exact hlocked hneg,
    fun hzero => by rw [ho, hu]; exact hfree hzero, by omega, hle, hnone⟩

lemma Rights.expire (hr : Rights count ignore released threads (n + 1))
    (hx : threads t = .timedOut) (hwide : ignore < 0xffff) :
    Rights (count + 1) (if count = -1 then (ignore + 1) % 2 ^ 16 else ignore) released
      (update threads t .idle) n := by
  obtain ⟨hc, hge, hlocked, -, hignored, hle, hnone⟩ := hr
  have hrights := hlocked (by omega)
  have hreleased : released = false := by
    cases released with
    | false => rfl
    | true => exact absurd (hnone rfl) (Nat.succ_ne_zero n)
  subst hreleased
  rw [Bool.toNat_false] at hrights
  obtain ⟨ho, hu, hl⟩ := tally_all threads t .idle
  simp [hx] at ho hu hl
  by_cases hlast : count = -1
  · have hmod : (ignore + 1) % 2 ^ 16 = ignore + 1 := Nat.mod_eq_of_lt (by omega)
    rw [if_pos hlast, hmod]
    exact ⟨by omega, by omega, fun _ => by omega, fun _ => by rw [Bool.toNat_false]; omega,
      by omega, by omega, fun hf => (by cases hf)⟩
  · rw [if_neg hlast]
    exact ⟨by omega, by omega, fun _ => by rw [Bool.toNat_false]; omega, fun _ => by omega,
      by omega, by omega, fun hf => (by cases hf)⟩

section

variable (hr : Rights count ignore released threads n)
include hr

lemma Rights.of_owner (hx : threads t = .owner) :
    tally Place.owners threads = 1 ∧ tally Place.unlocks threads = ignore ∧ released = false ∧
      count < 0 := by
  obtain ⟨hc, hge, hlocked, -, hignored, -, -⟩ := hr
  have hone := le_tally Place.owners threads t
  simp only [hx, Place.owners, if_true] at hone
  have hrights := hlocked (by omega)
  cases released with
  | false =>
    rw [Bool.toNat_false] at hrights
    exact ⟨by omega, by omega, rfl, by omega⟩
  | true =>
    rw [Bool.toNat_true] at hrights
    omega

lemma Rights.unlock (hx : threads t = .owner) : Rights (count + 1) ignore released
      (update threads t (if count < -1 then .unlocking else .idle)) n := by
  obtain ⟨hone, hunlocks, hreleased, hneg⟩ := hr.of_owner hx
  subst hreleased
  obtain ⟨hc, hge, hlocked, -, hignored, hle, hnone⟩ := hr
  by_cases hmore : count < -1
  · rw [if_pos hmore]
    obtain ⟨ho, hu, hl⟩ := tally_all threads t .unlocking
    simp [hx] at ho hu hl
    exact ⟨by omega, by omega, fun _ => by rw [Bool.toNat_false]; omega, fun _ => by omega,
      by omega, hle, hnone⟩
  · rw [if_neg hmore]
    obtain ⟨ho, hu, hl⟩ := tally_all threads t .idle
    simp [hx] at ho hu hl
    exact ⟨by omega, by omega, fun _ => by omega, fun _ => by rw [Bool.toNat_false]; omega,
      by omega, hle, hnone⟩

lemma Rights.ignore_unlock (hx : threads t = .unlocking) (hpos : ignore > 0) :
    Rights count (ignore - 1) released (update threads t .idle) n := by
  obtain ⟨hc, hge, hlocked, hfree, hignored, hle, hnone⟩ := hr
  obtain ⟨ho, hu, hl⟩ := tally_all threads t .idle
  simp [hx] at ho hu hl
  exact ⟨by omega, hge, fun hneg => by have := hlocked hneg; omega,
    fun hzero => by have := hfree hzero; omega, by omega, by omega, hnone⟩

end

lemma Rights.of_unlock (hr : Rights count 0 released threads n) (hx : threads t = .unlocking) :
    tally Place.owners threads = 0 ∧ tally Place.unlocks threads = 1 ∧ released = false ∧
      count < 0 := by
  obtain ⟨hc, hge, hlocked, hfree, -, -, -⟩ := hr
  have hone := le_tally Place.unlocks threads t
  simp only [hx, Place.unlocks, if_true] at hone
  have hneg : count < 0 := by
    by_contra hzero
    have := hfree (by omega)
    omega
  have hrights := hlocked hneg
  cases released with
  | false =>
    rw [Bool.toNat_false] at hrights
    exact ⟨by omega, by omega, rfl, hneg⟩
  | true =>
    rw [Bool.toNat_true] at hrights
    omega

lemma Rights.handOver {timed : Bool} (hr : Rights count 0 released threads (n + 1))
    (hx : threads t = .unlocking) (hh : threads h = .blocked timed) :
    Rights count 0 released
      (update (update threads t .idle) h .owner) n := by
  obtain ⟨hzero, hone, hreleased, hneg⟩ := hr.of_unlock hx
  subst hreleased
  obtain ⟨hc, hge, hlocked, -, -, hle, -⟩ := hr
  have hne : h ≠ t := fun he => by
    rw [he, hx] at hh
    cases hh
  obtain ⟨ho, hu, hl⟩ := tally_all threads t .idle
  obtain ⟨ho', hu', hl'⟩ := tally_all (update threads t .idle) h .owner
  rw [update_of_ne hne] at ho' hu' hl'
  simp [hx, hh] at ho hu hl ho' hu' hl'
  exact ⟨by omega, hge, fun _ => by rw [Bool.toNat_false]; omega, fun _ => by omega, by omega, hle,
    fun hf => (by cases hf)⟩

lemma Rights.release (hr : Rights count 0 released threads 0) (hx : threads t = .unlocking) :
    Rights count 0 true (update threads t .idle) 0 := by
  obtain ⟨hzero, hone, hreleased, hneg⟩ := hr.of_unlock hx
  subst hreleased
  obtain ⟨hc, hge, hlocked, -, -, hle, -⟩ := hr
  obtain ⟨ho, hu, hl⟩ := tally_all threads t .idle
  simp [hx] at ho hu hl
  exact ⟨by omega, hge, fun _ => by rw [Bool.toNat_true]; omega, fun _ => by omega, by omega, hle,
    fun _ => rfl⟩

end

/-! ## The queue -/

variable {s s' : State T} {l : List T} {t h : T} {a : Action T} {timed : Bool}

lemma Queue.update (hq : Queue s l) {p : Place}
    (hthreads : s'.threads = update s.threads t p)
    (hlock : s'.lock.waiters = s.lock.waiters) (harrived : s'.arrived = s.arrived)
    (hclock : s'.clock = s.clock) (hp : p.waits = (s.threads t).waits) : Queue s' l := by
  refine ⟨hlock ▸ hq.holds, fun u => ?_, harrived ▸ hq.ordered, ?_⟩
  · rw [hq.waits u, hthreads]
    by_cases hu : u = t
    · rw [hu, update_self, hp]
    · rw [update_of_ne hu]
  · rw [harrived, hclock]
    exact hq.arrived_lt

lemma Queue.enqueue (hq : Queue s l) {p : Place} (ht : (s.threads t).waits = false)
    (hp : p.waits = true) (hthreads : s'.threads = Function.update s.threads t p)
    (hlock : s'.lock.waiters = s.lock.waiters.enqueue t)
    (harrived : s'.arrived = Function.update s.arrived t s.clock)
    (hclock : s'.clock = s.clock + 1) : Queue s' (l ++ [t]) := by
  have hnot : t ∉ l := by
    rw [hq.waits t, ht]
    simp
  have hsame : ∀ u ∈ l, s'.arrived u = s.arrived u := fun u hu => by
    rw [harrived, Function.update_of_ne fun he : u = t => hnot (he ▸ hu)]
  have hnew : s'.arrived t = s.clock := by
    rw [harrived, Function.update_self]
  refine ⟨hlock ▸ hq.holds.enqueue hnot, fun u => ?_, ?_, fun u hu => ?_⟩
  · rw [hthreads]
    by_cases hu : u = t
    · simp [hu, hp]
    · rw [Function.update_of_ne hu, ← hq.waits u]
      simp [hu]
  · rw [List.pairwise_append]
    refine ⟨hq.ordered.imp_of_mem fun ha hb hlt => by rwa [hsame _ ha, hsame _ hb], by simp, ?_⟩
    intro u hu v hv
    rw [List.mem_singleton.1 hv, hnew, hsame u hu]
    exact hq.arrived_lt u hu
  · rw [hclock]
    rcases List.mem_append.1 hu with hu | hu
    · rw [hsame u hu]
      exact Nat.lt_succ_of_lt (hq.arrived_lt u hu)
    · rw [List.mem_singleton.1 hu, hnew]
      exact Nat.lt_succ_self _

lemma Queue.leave (hq : Queue s l) {p : Place} {l' : List T} (hsub : l'.Sublist l)
    (hmem : ∀ u, u ∈ l' ↔ u ∈ l ∧ u ≠ t) (hp : p.waits = false)
    (hthreads : s'.threads = Function.update s.threads t p) (hholds : s'.lock.waiters.Holds l')
    (harrived : s'.arrived = s.arrived) (hclock : s'.clock = s.clock) : Queue s' l' := by
  refine ⟨hholds, fun u => ?_, harrived ▸ hq.ordered.sublist hsub, fun u hu => ?_⟩
  · rw [hthreads, hmem u]
    by_cases hu : u = t
    · simp [hu, hp]
    · rw [Function.update_of_ne hu, ← hq.waits u]
      simp [hu]
  · rw [harrived, hclock]
    exact hq.arrived_lt u (hsub.subset hu)

/-! ## The steps -/

section

variable (hi : s.Inv)
include hi

lemma inv_lock (hx : s.threads t = .idle) (hwide : -0x80000000 < s.lock.count) :
    (mutexLock s t timed).Inv := by
  obtain ⟨l, hq, hr⟩ := hi
  have hc := hr.count_eq
  have hint : int32 (s.lock.count - 1) = s.lock.count - 1 := by
    apply int32_eq <;> omega
  rw [mutexLock, hint]
  by_cases hneg : s.lock.count < 0
  · rw [if_pos hneg]
    exact ⟨l, hq.update rfl rfl rfl rfl (by rw [hx]; rfl), hr.announce hx timed hneg hwide⟩
  · have hzero : s.lock.count = 0 := by omega
    rw [hzero] at hr
    rw [if_neg hneg, hzero]
    exact ⟨l, hq.update rfl rfl rfl rfl (by rw [hx]; rfl), hr.acquire hx⟩

lemma inv_trylock (hx : s.threads t = .idle) : (mutexTrylock s t).Inv := by
  rw [mutexTrylock]
  by_cases hzero : s.lock.count = 0
  · obtain ⟨l, hq, hr⟩ := hi
    rw [hzero] at hr
    rw [if_pos hzero]
    exact ⟨l, hq.update rfl rfl rfl rfl (by rw [hx]; rfl), hr.acquire hx⟩
  · rw [if_neg hzero]
    exact hi

lemma inv_lockSlow (hx : s.threads t = .announced timed) : (mutexLockSlow s t timed).Inv := by
  obtain ⟨l, hq, hr⟩ := hi
  rw [mutexLockSlow]
  by_cases hreleased : s.lock.released = true
  · rw [hreleased] at hr
    rw [if_pos hreleased]
    exact ⟨l, hq.update rfl rfl rfl rfl (by rw [hx]; rfl), hr.take hx⟩
  · have hfalse : s.lock.released = false := by simpa using hreleased
    rw [hfalse] at hr
    rw [if_neg hreleased]
    refine ⟨l ++ [t], hq.enqueue (by rw [hx]; rfl) rfl rfl rfl rfl rfl, ?_⟩
    rw [List.length_append]
    show Rights s.lock.count s.lock.ignoreUnlockCount s.lock.released _ _
    rw [hfalse]
    exact hr.enqueue hx

lemma inv_timeout (hx : s.threads t = .blocked true) : (s.setThread t .timedOut).Inv := by
  obtain ⟨l, hq, hr⟩ := hi
  exact ⟨l, hq.update rfl rfl rfl rfl (by rw [hx]; rfl), hr.timeout hx⟩

lemma inv_lockTimedOut (hx : s.threads t = .timedOut)
    (hwide : s.lock.ignoreUnlockCount < 0xffff) : (mutexLockTimedOut s t).Inv := by
  obtain ⟨l, hq, hr⟩ := hi
  have hmem : t ∈ l := (hq.waits t).2 (by rw [hx]; rfl)
  obtain ⟨hfound, hholds⟩ := hq.holds.remove_of_mem hmem
  have hc := hr.count_eq
  have hge := hr.count_ge
  have hlen : l.length = (l.erase t).length + 1 := by
    have := List.length_pos_of_mem hmem
    rw [List.length_erase_of_mem hmem]
    omega
  rw [hlen] at hr hc
  have hint : int32 (s.lock.count + 1) = s.lock.count + 1 := by
    apply int32_eq <;> omega
  rw [mutexLockTimedOut, if_pos hfound]
  refine ⟨l.erase t, hq.leave List.erase_sublist (fun u => ?_) rfl rfl hholds rfl rfl, ?_⟩
  · rw [hq.holds.nodup.mem_erase_iff]
    exact And.comm
  · show Rights (int32 (s.lock.count + 1)) _ s.lock.released _ _
    rw [hint]
    exact hr.expire hx hwide

lemma inv_unlock (hx : s.threads t = .owner) : (mutexUnlock s t).Inv := by
  obtain ⟨l, hq, hr⟩ := hi
  have hc := hr.count_eq
  have hge := hr.count_ge
  have hint : int32 (s.lock.count + 1) = s.lock.count + 1 := by
    apply int32_eq <;> omega
  rw [mutexUnlock, hint]
  refine ⟨l, hq.update rfl rfl rfl rfl ?_, hr.unlock hx⟩
  rw [hx]
  split <;> rfl

lemma inv_unlockSlow (hx : s.threads t = .unlocking)
    (hok : Undisturbed s (.unlockSlow t)) : (mutexUnlockSlow s t).Inv := by
  obtain ⟨l, hq, hr⟩ := hi
  have hidle : Queue (s.setThread t .idle) l := hq.update rfl rfl rfl rfl (by rw [hx]; rfl)
  rw [mutexUnlockSlow]
  by_cases hpos : s.lock.ignoreUnlockCount > 0
  · rw [if_pos hpos]
    exact ⟨l, ⟨hidle.holds, hidle.waits, hidle.ordered, hidle.arrived_lt⟩, hr.ignore_unlock hx hpos⟩
  · have hzero : s.lock.ignoreUnlockCount = 0 := by omega
    rw [hzero] at hr
    rw [if_neg hpos]
    have hhead := hq.holds.head_eq
    cases l with
    | nil =>
      rw [List.head?_nil] at hhead
      rw [hhead]
      refine ⟨[], ⟨hidle.holds, hidle.waits, hidle.ordered, hidle.arrived_lt⟩, ?_⟩
      show Rights s.lock.count s.lock.ignoreUnlockCount true _ _
      rw [hzero]
      exact hr.release hx
    | cons h l =>
      rw [List.head?_cons] at hhead
      rw [hhead]
      -- the first waiter still blocks
      have ⟨timed, hh⟩ : ∃ timed, s.threads h = .blocked timed := by
        have hwaits := (hq.waits h).1 List.mem_cons_self
        have hnot := hok hzero h hhead
        cases hplace : s.threads h with
        | blocked timed => exact ⟨timed, rfl⟩
        | timedOut => exact absurd hplace hnot
        | idle => simp [hplace, Place.waits] at hwaits
        | owner => simp [hplace, Place.waits] at hwaits
        | announced timed => simp [hplace, Place.waits] at hwaits
        | unlocking => simp [hplace, Place.waits] at hwaits
      have hne : h ≠ t := fun he => by
        rw [he, hx] at hh
        cases hh
      have hplace : ((s.setThread t .idle).threads h).unblocked = .owner := by
        show (Function.update s.threads t .idle h).unblocked = .owner
        rw [Function.update_of_ne hne, hh]
        rfl
      have hnodup := (List.nodup_cons.1 hq.holds.nodup).1
      simp only [hplace]
      refine ⟨l, hidle.leave (List.sublist_cons_self h l) (fun u => ?_) rfl rfl hq.holds.dequeue rfl
        rfl, ?_⟩
      · constructor
        · exact fun hu => ⟨List.mem_cons_of_mem _ hu, fun he => hnodup (he ▸ hu)⟩
        · exact fun hu => (List.mem_cons.1 hu.1).resolve_left hu.2
      · show Rights s.lock.count s.lock.ignoreUnlockCount s.lock.released _ _
        rw [hzero]
        exact hr.handOver hx hh

end

lemma inv_init : (State.init : State T).Inv := by
  have hzero : ∀ f : Place → ℕ, f .idle = 0 → tally f (State.init : State T).threads = 0 :=
    fun f hf => tally_eq_zero.2 fun _ => hf
  have ho := hzero Place.owners rfl
  have hu := hzero Place.unlocks rfl
  have hl := hzero Place.lockers rfl
  refine ⟨[], ⟨Waiters.holds_empty, by simp [State.init, Place.waits], by simp, by simp⟩, ?_⟩
  refine ⟨?_, by simp [State.init], fun hneg => (by simp [State.init] at hneg), fun _ => ?_,
    by simp [State.init], by simp [State.init], fun _ => rfl⟩
  · rw [ho, hl]
    rfl
  · rw [ho, hu]
    rfl

lemma inv_step (hi : s.Inv) (hok : Undisturbed s a) (hs : step s a = some s') : s'.Inv := by
  cases a with
  | lock t timed =>
    simp only [step, Option.ite_none_right_eq_some, Option.some.injEq] at hs
    exact hs.2 ▸ inv_lock hi hs.1 hok
  | trylock t =>
    simp only [step, Option.ite_none_right_eq_some, Option.some.injEq] at hs
    exact hs.2 ▸ inv_trylock hi hs.1
  | lockSlow t =>
    simp only [step] at hs
    split at hs
    · rename_i timed hx
      cases hs
      exact inv_lockSlow hi hx
    · cases hs
  | timeout t =>
    simp only [step, Option.ite_none_right_eq_some, Option.some.injEq] at hs
    exact hs.2 ▸ inv_timeout hi hs.1
  | lockTimedOut t =>
    simp only [step, Option.ite_none_right_eq_some, Option.some.injEq] at hs
    exact hs.2 ▸ inv_lockTimedOut hi hs.1 hok
  | unlock t =>
    simp only [step, Option.ite_none_right_eq_some, Option.some.injEq] at hs
    exact hs.2 ▸ inv_unlock hi hs.1
  | unlockSlow t =>
    simp only [step, Option.ite_none_right_eq_some, Option.some.injEq] at hs
    exact hs.2 ▸ inv_unlockSlow hi hs.1 hok

/-! ## Safety -/

lemma owners_le {threads : T → Place} {u : T} (hle : tally Place.owners threads ≤ 1)
    (ht : threads t = .owner) (hu : threads u = .owner) : u = t := by
  by_contra hne
  have hfirst := tally_update Place.owners threads t .idle
  have hsecond := le_tally Place.owners (update threads t .idle) u
  rw [update_of_ne hne] at hsecond
  simp [ht, hu] at hfirst hsecond
  omega

lemma State.Inv.sound (hi : s.Inv) : s.Sound := by
  obtain ⟨l, hq, hr⟩ := hi
  refine ⟨fun t u ht hu => owners_le (hr.of_owner ht).1.le ht hu,
    ⟨l, hq.holds, hq.waits, hq.ordered⟩, fun hnoowner hnounlock => ?_⟩
  have ho : tally Place.owners s.threads = 0 := tally_eq_zero.2 fun t => by
    rw [Place.owners, if_neg (hnoowner t)]
  have hu : tally Place.unlocks s.threads = 0 := tally_eq_zero.2 fun t => by
    rw [Place.unlocks, if_neg (hnounlock t)]
  obtain ⟨hc, -, hlocked, -, hignored, -, hnone⟩ := hr
  rw [hq.holds.head_eq, List.head?_eq_none_iff, ← List.length_eq_zero_iff]
  by_cases hneg : s.lock.count < 0
  · have hrights := hlocked hneg
    apply hnone
    cases hreleased : s.lock.released with
    | true => rfl
    | false =>
      rw [hreleased, Bool.toNat_false] at hrights
      omega
  · omega

/-- In every run in which no unlock hands the mutex to a waiter whose timeout occurred before, the
mutex is sound. -/
theorem mutex_sound {hist : History (State T) (Action T)}
    (hr : Run step Undisturbed .init hist s) : s.Sound :=
  (hr.invariant (I := State.Inv) inv_init inv_step).sound

lemma undisturbed_of (s : State T) (a : Action T) (h : undisturbed s a = true) :
    Undisturbed s a := by
  cases a with
  | lock t timed => simpa [undisturbed, Undisturbed] using h
  | lockTimedOut t => simpa [undisturbed, Undisturbed] using h
  | unlockSlow t =>
    intro hzero u hu
    simpa [undisturbed, hzero, hu] using h
  | trylock t => trivial
  | lockSlow t => trivial
  | timeout t => trivial
  | unlock t => trivial

/-- A waiter gives up while the unlock that would have woken it up is on its way. -/
theorem mutex_sound_ignored :
    let s := outcome step (State.init : State (Fin 3))
      [.lock 0 false, .lock 1 true, .lockSlow 1, .timeout 1, .unlock 0, .lockTimedOut 1,
        .lock 2 false, .lock 1 true, .unlockSlow 0, .lockSlow 1]
    s.threads 2 = .owner ∧ s.threads 1 = .blocked true ∧ s.Sound := by
  refine ⟨by decide, by decide, ?_⟩
  obtain ⟨hist, hr, -⟩ := run_outcome step undisturbed_of (State.init : State (Fin 3))
    [.lock 0 false, .lock 1 true, .lockSlow 1, .timeout 1, .unlock 0, .lockTimedOut 1,
      .lock 2 false, .lock 1 true, .unlockSlow 0, .lockSlow 1] (fun _ => true) (by decide)
  exact mutex_sound hr

/-- An unlock takes a waiter from the queue whose timeout occurred, and so no one has the mutex; the
next locker waits for ever. -/
theorem mutex_wakeup_lost : ¬ ∀ (hist : History (State Bool) (Action Bool)) (s : State Bool),
    Run step (fun _ _ => True) .init hist s → s.Sound := by
  intro hall
  obtain ⟨hist, hr, -⟩ := @run_outcome _ _ (fun _ _ => True) step (fun _ _ => true)
    (fun _ _ _ => trivial) (State.init : State Bool)
    [.lock false false, .lock true true, .lockSlow true, .unlock false, .timeout true,
      .unlockSlow false, .lockTimedOut true, .lock false false, .lockSlow false]
    (fun _ => true) (by decide)
  have hlost := (hall _ _ hr).no_lost_wakeup (by decide) (by decide)
  revert hlost
  decide

end Haiku.MutexLock
