import Haiku.Lock.ReadWriteInvariant
import Haiku.Semaphore.Basic

/-!
# A semaphore gives away what it has, in order

What was there at first and was released since is with the calls that acquired it, with the threads
that were served and did not run yet, or in `net_count`. The entry of a thread that gave up stays in
the queue until the thread, or someone who serves the queue, takes it out. Whoever serves the queue
stops at a thread that asks for more than `net_count`, or else with an empty queue; only a release
may stop before, when its count is used up.
-/

set_option linter.unusedSectionVars false

namespace Haiku.Semaphore

open Function Lib Lock

variable {T : Type} [DecidableEq T] [Fintype T]

/-! ## The invariant -/

/-- What a thread has been given that did not run since. -/
def granted : Option Wait → ℕ
  | some w => if w.status = some .ok then w.count.toNat else 0
  | none => 0

structure State.Inv (initial : ℤ) (s : State T) : Prop where
  nodup : s.queue.Nodup
  queued : ∀ t, t ∈ s.queue ↔ ∃ w, s.waits t = some w ∧ w.queued = true
  count_pos : ∀ t w, s.waits t = some w → 0 < w.count
  blocked : ∀ t w, s.waits t = some w → w.status = none → w.queued = true
  served : ∀ t w, s.waits t = some w → w.status = some .ok → w.queued = false
  count_eq : s.count = s.netCount - s.total s.queue
  count_ge : -0x80000000 ≤ s.count
  netCount_nonneg : 0 ≤ s.netCount
  netCount_lt : s.netCount < 0x80000000
  balance : s.acquired + tally granted s.waits + s.netCount = initial + s.released
  arrived_lt : ∀ t w, s.waits t = some w → s.arrived t < s.clock
  ordered : s.queue.Pairwise fun t u => s.arrived t < s.arrived u
  served_first : ∀ t u, s.served t = true → u ∈ s.queue → s.arrived t < s.arrived u

/-- The first thread, if it still waits, asks for more than there is. -/
def State.HeadWaits (s : State T) : Prop :=
  ∀ t, s.queue.head? = some t → s.isBlocked t = true → s.netCount < s.requested t

variable {s s' : State T} {t u : T} {w w' : Wait} {l l' : List T} {initial count amount : ℤ}

lemma inv_init (h : 0 ≤ count) (hlt : count < 0x80000000) (kernelOwned : Bool) :
    (State.init count kernelOwned : State T).Inv count where
  nodup := List.nodup_nil
  queued t := by simp [State.init]
  count_pos t w h := by cases h
  blocked t w h := by cases h
  served t w h := by cases h
  count_eq := by simp [State.init, State.total]
  count_ge := by
    show -0x80000000 ≤ count
    omega
  netCount_nonneg := h
  netCount_lt := hlt
  balance := by
    have hnone : tally granted (State.init count kernelOwned : State T).waits = 0 :=
      tally_eq_zero.2 fun t => rfl
    rw [hnone]
    simp [State.init]
  arrived_lt t w h := by cases h
  ordered := List.Pairwise.nil
  served_first t u h := by cases h

/-! ## What the threads ask for -/

lemma requested_of (h : s.waits t = some w) : s.requested t = w.count := by
  rw [State.requested, h]
  rfl

lemma isBlocked_of (h : s.waits t = some w) : s.isBlocked t = decide (w.status = none) := by
  rw [State.isBlocked, h]
  rfl

lemma served_of (h : s.waits t = some w) : s.served t = decide (w.status = some .ok) := by
  rw [State.served, h]
  rfl

lemma State.Inv.requested_nonneg (h : s.Inv initial) (t : T) : 0 ≤ s.requested t := by
  cases hw : s.waits t with
  | none => simp [State.requested, hw]
  | some w =>
    rw [requested_of hw]
    exact (h.count_pos t w hw).le

lemma State.Inv.requested_pos (h : s.Inv initial) (ht : t ∈ s.queue) : 0 < s.requested t := by
  obtain ⟨w, hw, _⟩ := (h.queued t).1 ht
  rw [requested_of hw]
  exact h.count_pos t w hw

lemma total_cons : s.total (t :: l) = s.requested t + s.total l := rfl

lemma total_append : s.total (l ++ l') = s.total l + s.total l' := by
  rw [State.total, List.map_append, List.sum_append]
  rfl

lemma total_congr (h : ∀ u ∈ l, s'.requested u = s.requested u) : s'.total l = s.total l := by
  rw [State.total, List.map_congr_left h]
  rfl

lemma total_erase (ht : t ∈ l) : s.total (l.erase t) + s.requested t = s.total l := by
  induction l with
  | nil => cases ht
  | cons u l ih =>
    by_cases he : u = t
    · rw [he, List.erase_cons_head, total_cons]
      omega
    · have hmem : t ∈ l := (List.mem_cons.1 ht).resolve_left fun h => he h.symm
      have hrest := ih hmem
      rw [List.erase_cons_tail (by simpa using he), total_cons, total_cons]
      omega

lemma State.Inv.total_nonneg (h : s.Inv initial) (l : List T) : 0 ≤ s.total l := by
  induction l with
  | nil => exact le_refl 0
  | cons t l ih =>
    have hpos := h.requested_nonneg t
    rw [total_cons]
    omega

lemma isBlocked_congr (h : s'.waits t = s.waits t) : s'.isBlocked t = s.isBlocked t := by
  rw [State.isBlocked, h]
  rfl

lemma requested_congr (h : s'.waits t = s.waits t) : s'.requested t = s.requested t := by
  rw [State.requested, h]
  rfl

lemma waiting_nil : s.waiting [] = 0 := rfl

lemma waiting_cons_blocked (h : s.isBlocked t = true) :
    s.waiting (t :: l) = s.requested t + s.waiting l := by
  rw [State.waiting, List.filter_cons_of_pos h, total_cons]
  rfl

lemma waiting_cons_not (h : s.isBlocked t = false) : s.waiting (t :: l) = s.waiting l := by
  rw [State.waiting, List.filter_cons_of_neg (by simp [h])]
  rfl

lemma waiting_congr (h : ∀ u ∈ l, s'.waits u = s.waits u) : s'.waiting l = s.waiting l := by
  induction l with
  | nil => rfl
  | cons t l ih =>
    have hrest := ih fun u hu => h u (List.mem_cons_of_mem _ hu)
    have hself := h t List.mem_cons_self
    have hblocked := isBlocked_congr hself
    have hrequested := requested_congr hself
    cases hb : s.isBlocked t with
    | true =>
      rw [waiting_cons_blocked hb, waiting_cons_blocked (hblocked.trans hb), hrest, hrequested]
    | false => rw [waiting_cons_not hb, waiting_cons_not (hblocked.trans hb), hrest]

lemma State.Inv.waiting_nonneg (h : s.Inv initial) (l : List T) : 0 ≤ s.waiting l :=
  h.total_nonneg _

/-! ## What a section does to the queue -/

/-- The call of `t` leaves the queue, with the status it has or the one it is unblocked with. -/
structure Leaves (s s' : State T) (t : T) (w : Wait) (status : Option Status) : Prop where
  was : s.waits t = some w
  waits_eq : s'.waits =
    update s.waits t (some { w with queued := false, status := status })
  queue_eq : s'.queue = s.queue.erase t
  arrived_eq : s'.arrived = s.arrived
  clock_eq : s'.clock = s.clock

variable {status : Option Status}

section

variable (h : Leaves s s' t w status)
include h

lemma Leaves.waits_self : s'.waits t = some { w with queued := false, status := status } := by
  rw [h.waits_eq, update_self]

lemma Leaves.waits_of_ne (hne : u ≠ t) : s'.waits u = s.waits u := by
  rw [h.waits_eq, update_of_ne hne]

lemma Leaves.requested_eq (u : T) : s'.requested u = s.requested u := by
  by_cases hu : u = t
  · rw [hu, requested_of h.waits_self, requested_of h.was]
  · rw [State.requested, h.waits_of_ne hu]
    rfl

lemma Leaves.total_eq (ht : t ∈ s.queue) : s'.total s'.queue + s.requested t = s.total s.queue := by
  rw [h.queue_eq, total_congr fun u _ => h.requested_eq u]
  exact total_erase ht

lemma Leaves.tally_eq (hstatus : w.status ≠ some .ok) (hpos : 0 < w.count) :
    (tally granted s'.waits : ℤ) =
      tally granted s.waits + if status = some .ok then w.count else 0 := by
  have hupdate := tally_update granted s.waits t (some { w with queued := false, status := status })
  have hold : granted (s.waits t) = 0 := by rw [h.was, granted, if_neg hstatus]
  rw [hold, ← h.waits_eq, granted] at hupdate
  by_cases hs : status = some .ok
  · rw [if_pos hs] at hupdate ⊢
    dsimp only at hupdate
    omega
  · rw [if_neg hs] at hupdate ⊢
    omega

lemma Leaves.inv (hi : s.Inv initial) (hsome : status ≠ none)
    (hfirst : status = some .ok → s.queue = t :: s.queue.erase t)
    (hcount : s'.count = s'.netCount - s'.total s'.queue) (hge : -0x80000000 ≤ s'.count)
    (hnet : 0 ≤ s'.netCount) (hlt : s'.netCount < 0x80000000)
    (hbalance : s'.acquired + tally granted s'.waits + s'.netCount = initial + s'.released) :
    s'.Inv initial where
  nodup := by
    rw [h.queue_eq]
    exact hi.nodup.erase t
  queued u := by
    rw [h.queue_eq, hi.nodup.mem_erase_iff, hi.queued]
    by_cases hu : u = t
    · rw [hu, h.waits_self]
      constructor
      · rintro ⟨hne, _⟩
        exact absurd rfl hne
      · rintro ⟨w', hw', hq'⟩
        cases hw'
        cases hq'
    · rw [h.waits_of_ne hu]
      exact and_iff_right hu
  count_pos u w' hw' := by
    by_cases hu : u = t
    · rw [hu, h.waits_self] at hw'
      cases hw'
      exact hi.count_pos t w h.was
    · rw [h.waits_of_ne hu] at hw'
      exact hi.count_pos u w' hw'
  blocked u w' hw' hnone := by
    by_cases hu : u = t
    · rw [hu, h.waits_self] at hw'
      cases hw'
      exact absurd hnone hsome
    · rw [h.waits_of_ne hu] at hw'
      exact hi.blocked u w' hw' hnone
  served u w' hw' hok := by
    by_cases hu : u = t
    · rw [hu, h.waits_self] at hw'
      cases hw'
      rfl
    · rw [h.waits_of_ne hu] at hw'
      exact hi.served u w' hw' hok
  count_eq := hcount
  count_ge := hge
  netCount_nonneg := hnet
  netCount_lt := hlt
  balance := hbalance
  arrived_lt u w' hw' := by
    rw [h.arrived_eq, h.clock_eq]
    by_cases hu : u = t
    · rw [hu]
      exact hi.arrived_lt t w h.was
    · rw [h.waits_of_ne hu] at hw'
      exact hi.arrived_lt u w' hw'
  ordered := by
    rw [h.queue_eq, h.arrived_eq]
    exact hi.ordered.sublist List.erase_sublist
  served_first u v hserved hv := by
    rw [h.arrived_eq]
    rw [h.queue_eq] at hv
    by_cases hu : u = t
    · rw [hu, served_of h.waits_self, decide_eq_true_eq] at hserved
      have hordered := hi.ordered
      rw [hfirst hserved, List.pairwise_cons] at hordered
      rw [hu]
      exact hordered.1 v hv
    · have hserved' : s.served u = true := by
        rw [State.served, h.waits_of_ne hu] at hserved
        exact hserved
      exact hi.served_first u v hserved' (List.mem_of_mem_erase hv)

end

section

variable (hi : s.Inv initial)
include hi

lemma State.Inv.drop (ht : t ∈ s.queue) (hb : s.isBlocked t = false) :
    State.Inv initial { s.dequeue t with count := int32 (s.count + s.requested t) } ∧
      s.count + s.requested t ≤ s.netCount := by
  obtain ⟨w, hw, hq⟩ := (hi.queued t).1 ht
  have hsome : w.status ≠ none := by
    rw [isBlocked_of hw] at hb
    simpa using hb
  have hstatus : w.status ≠ some .ok := by
    intro hok
    rw [hi.served t w hw hok] at hq
    cases hq
  have hleaves : Leaves s { s.dequeue t with count := int32 (s.count + s.requested t) } t w
      w.status := by
    refine ⟨hw, ?_, rfl, rfl, rfl⟩
    show update s.waits t ((s.waits t).map fun w => { w with queued := false }) = _
    rw [hw]
    rfl
  have htotal := hleaves.total_eq ht
  have htally := hleaves.tally_eq hstatus (hi.count_pos t w hw)
  have hrest := hi.total_nonneg (s.queue.erase t)
  rw [if_neg hstatus] at htally
  have hpos := hi.requested_pos ht
  have hcount := hi.count_eq
  have hge := hi.count_ge
  have hlt := hi.netCount_lt
  have hbalance := hi.balance
  have herase : s.total (s.queue.erase t) + s.requested t = s.total s.queue := total_erase ht
  have hint : int32 (s.count + s.requested t) = s.count + s.requested t :=
    int32_eq (by omega) (by omega)
  constructor
  · apply hleaves.inv hi hsome
    · intro hok
      exact absurd hok hstatus
    · show int32 (s.count + s.requested t) = s.netCount - _
      omega
    · show -0x80000000 ≤ int32 (s.count + s.requested t)
      omega
    · exact hi.netCount_nonneg
    · exact hi.netCount_lt
    · rw [htally]
      show s.acquired + (_ + 0) + s.netCount = initial + s.released
      omega
  · omega

lemma State.Inv.serve (hamount : 0 ≤ amount) (hqueue : s.queue = t :: l)
    (hb : s.isBlocked t = true) (hle : amount ≤ s.requested t)
    (henough : s.requested t ≤ s.netCount + amount) :
    State.Inv initial { (s.unblock t .ok).dequeue t with
      count := s.count + amount
      netCount := s.netCount + (amount - s.requested t)
      released := s.released + amount } := by
  have ht : t ∈ s.queue := by rw [hqueue]; exact List.mem_cons_self
  obtain ⟨w, hw, hq⟩ := (hi.queued t).1 ht
  have hnone : w.status = none := by
    rw [isBlocked_of hw] at hb
    simpa using hb
  have hleaves : Leaves s { (s.unblock t .ok).dequeue t with
      count := s.count + amount
      netCount := s.netCount + (amount - s.requested t)
      released := s.released + amount } t w (some .ok) := by
    refine ⟨hw, ?_, rfl, rfl, rfl⟩
    show update (update s.waits t ((s.waits t).map (Wait.unblock · .ok))) t
      ((update s.waits t ((s.waits t).map (Wait.unblock · .ok)) t).map fun w =>
        { w with queued := false }) = _
    rw [update_self, update_idem, hw]
    simp [Wait.unblock, hnone]
  have hstatus : w.status ≠ some .ok := by
    rw [hnone]
    exact (Option.some_ne_none _).symm
  have htotal := hleaves.total_eq ht
  have htally := hleaves.tally_eq hstatus (hi.count_pos t w hw)
  have hcount := hi.count_eq
  have hge := hi.count_ge
  have hlt := hi.netCount_lt
  have hnonneg := hi.netCount_nonneg
  have hbalance := hi.balance
  have hrequested := requested_of hw
  rw [if_pos rfl] at htally
  apply hleaves.inv hi (Option.some_ne_none _)
  · intro _
    rw [hqueue, List.erase_cons_head]
  · show s.count + amount = s.netCount + (amount - s.requested t) - _
    omega
  · show -0x80000000 ≤ s.count + amount
    omega
  · show 0 ≤ s.netCount + (amount - s.requested t)
    omega
  · show s.netCount + (amount - s.requested t) < 0x80000000
    omega
  · rw [htally]
    show s.acquired + _ + (s.netCount + (amount - s.requested t)) = initial + (s.released + amount)
    omega

lemma State.Inv.give (hamount : 0 ≤ amount) (hfits : s.netCount + amount < 0x80000000) :
    State.Inv initial { s with
      count := int32 (s.count + amount)
      netCount := int32 (s.netCount + amount)
      released := s.released + amount } ∧ int32 (s.netCount + amount) = s.netCount + amount := by
  have htotal := hi.total_nonneg s.queue
  have hcount := hi.count_eq
  have hge := hi.count_ge
  have hnonneg := hi.netCount_nonneg
  have hbalance := hi.balance
  have hint : int32 (s.count + amount) = s.count + amount := int32_eq (by omega) (by omega)
  have hnet : int32 (s.netCount + amount) = s.netCount + amount := int32_eq (by omega) (by omega)
  rw [hint, hnet]
  refine ⟨⟨hi.nodup, hi.queued, hi.count_pos, hi.blocked, hi.served, ?_, ?_, ?_, hfits, ?_,
    hi.arrived_lt, hi.ordered, hi.served_first⟩, rfl⟩
  · show s.count + amount = s.netCount + amount - s.total s.queue
    omega
  · show -0x80000000 ≤ s.count + amount
    omega
  · show 0 ≤ s.netCount + amount
    omega
  · show s.acquired + tally granted s.waits + (s.netCount + amount) =
      initial + (s.released + amount)
    omega

/-! ## Serving the queue -/

lemma State.Inv.wakeThreads (hqueue : s.queue = l) :
    (wakeThreads l s).Inv initial ∧ (Semaphore.wakeThreads l s).HeadWaits ∧
      ∀ u ∉ l, (Semaphore.wakeThreads l s).waits u = s.waits u := by
  induction l generalizing s with
  | nil =>
    refine ⟨hi, ?_, fun u _ => rfl⟩
    intro t ht
    rw [Semaphore.wakeThreads, hqueue] at ht
    cases ht
  | cons t l ih =>
    have ht : t ∈ s.queue := by rw [hqueue]; exact List.mem_cons_self
    have herase : s.queue.erase t = l := by rw [hqueue, List.erase_cons_head]
    unfold Semaphore.wakeThreads
    cases hb : s.isBlocked t with
    | true =>
      rw [if_pos rfl]
      by_cases hmore : s.requested t > s.netCount
      · rw [if_pos hmore]
        refine ⟨hi, ?_, fun u _ => rfl⟩
        intro u hu _
        rw [hqueue] at hu
        cases hu
        exact hmore
      · rw [if_neg hmore]
        have hpos := hi.requested_pos ht
        have hnonneg := hi.netCount_nonneg
        have hlt := hi.netCount_lt
        have hint : int32 (s.netCount - s.requested t) = s.netCount - s.requested t :=
          int32_eq (by omega) (by omega)
        -- nothing is released here, so the thread is served from `net_count` alone
        have hserved := hi.serve (le_refl 0) hqueue hb hpos.le (by omega)
        have hsame : ({ (s.unblock t .ok).dequeue t with
            count := s.count + 0
            netCount := s.netCount + (0 - s.requested t)
            released := s.released + 0 } : State T) =
            { (s.unblock t .ok).dequeue t with
              netCount := int32 (s.netCount - s.requested t) } := by
          rw [hint, add_zero, add_zero, zero_sub, ← sub_eq_add_neg]
          rfl
        rw [hsame] at hserved
        obtain ⟨hinv, hhead, hwaits⟩ := ih hserved herase
        refine ⟨hinv, hhead, fun u hu => ?_⟩
        have hne : u ≠ t := fun he => hu (he ▸ List.mem_cons_self)
        rw [hwaits u fun hm => hu (List.mem_cons_of_mem _ hm)]
        show update (update s.waits t _) t _ u = s.waits u
        rw [update_of_ne hne, update_of_ne hne]
    | false =>
      rw [if_neg Bool.false_ne_true]
      obtain ⟨hdropped, _⟩ := hi.drop ht hb
      obtain ⟨hinv, hhead, hwaits⟩ := ih hdropped herase
      refine ⟨hinv, hhead, fun u hu => ?_⟩
      have hne : u ≠ t := fun he => hu (he ▸ List.mem_cons_self)
      rw [hwaits u fun hm => hu (List.mem_cons_of_mem _ hm)]
      exact update_of_ne hne _ _

lemma State.Inv.waiting_cons (t : T) (l : List T) :
    0 ≤ s.waiting [t] ∧ s.waiting [t] ≤ s.requested t ∧
      s.waiting (t :: l) = s.waiting [t] + s.waiting l := by
  have hnonneg := hi.requested_nonneg t
  cases hb : s.isBlocked t with
  | true =>
    rw [waiting_cons_blocked hb, waiting_cons_blocked hb, waiting_nil]
    omega
  | false =>
    rw [waiting_cons_not hb, waiting_cons_not hb, waiting_nil]
    omega

end

/-- One round of the loop of a release that does not stop: the first entry leaves the queue, and
its thread, if it still waits, gets from the amount what it can. -/
structure Round (s s' : State T) (t : T) (l : List T) (initial amount taken : ℤ) : Prop where
  inv : s'.Inv initial
  queue_eq : s'.queue = l
  waits_eq : ∀ u ∈ l, s'.waits u = s.waits u
  taken_eq : taken = min amount (s.waiting [t])
  enough : s.waiting [t] ≤ s.netCount + amount
  netCount_eq : s'.netCount = s.netCount + (taken - s.waiting [t])

lemma State.Inv.releaseThreads_cons (hi : s.Inv initial) (ifWaitingOnly : Bool)
    (hqueue : s.queue = t :: l) (hpos : 0 < amount)
    (hfits : s.isBlocked t = true → s.netCount + amount < 0x80000000) :
    (s.isBlocked t = true ∧ s.netCount + amount < s.requested t ∧
      releaseThreads ifWaitingOnly (t :: l) s amount = { s with
        count    := int32 (s.count + amount)
        netCount := int32 (s.netCount + amount)
        released := s.released + amount }) ∨
    ∃ s' taken, Round s s' t l initial amount taken ∧
      releaseThreads ifWaitingOnly (t :: l) s amount =
        releaseThreads ifWaitingOnly l s' (amount - taken) := by
  have ht : t ∈ s.queue := by rw [hqueue]; exact List.mem_cons_self
  have herase : s.queue.erase t = l := by rw [hqueue, List.erase_cons_head]
  have hnotin : t ∉ l := by
    have hnodup := hi.nodup
    rw [hqueue, List.nodup_cons] at hnodup
    exact hnodup.1
  have hge := hi.netCount_nonneg
  rw [releaseThreads, if_pos hpos]
  cases hb : s.isBlocked t with
  | true =>
    have hroom := hfits hb
    have hint : int32 (s.netCount + amount) = s.netCount + amount := int32_eq (by omega) (by omega)
    have hwaiting : s.waiting [t] = s.requested t := by
      rw [waiting_cons_blocked hb, waiting_nil, add_zero]
    have hrequested := hi.requested_pos ht
    rw [if_pos rfl]
    by_cases hmore : s.requested t > int32 (s.netCount + amount)
    · rw [if_pos hmore]
      exact .inl ⟨rfl, by omega, rfl⟩
    · rw [if_neg hmore]
      have hcount := hi.count_eq
      have hcountGe := hi.count_ge
      have htotal := hi.total_nonneg l
      rw [hqueue, total_cons] at hcount
      dsimp only
      generalize hdelta : min amount (s.requested t) = delta
      have hle : delta ≤ s.requested t := by omega
      have hint₁ : int32 (s.count + delta) = s.count + delta := int32_eq (by omega) (by omega)
      have hint₂ : int32 (s.netCount + (delta - s.requested t)) =
          s.netCount + (delta - s.requested t) := int32_eq (by omega) (by omega)
      rw [hint₁, hint₂]
      have hserved := hi.serve (by omega : 0 ≤ delta) hqueue hb hle (by omega)
      refine .inr ⟨_, delta, ⟨hserved, herase, ?_, by rw [hwaiting, hdelta], by omega, ?_⟩, rfl⟩
      · intro u hu
        have hne : u ≠ t := fun he => hnotin (he ▸ hu)
        show update (update s.waits t _) t _ u = s.waits u
        rw [update_of_ne hne, update_of_ne hne]
      · rw [hwaiting]
  | false =>
    have hwaiting : s.waiting [t] = 0 := by rw [waiting_cons_not hb, waiting_nil]
    rw [if_neg Bool.false_ne_true]
    refine .inr ⟨_, 0, ⟨(hi.drop ht hb).1, herase, ?_, by omega, by omega, ?_⟩, by rw [sub_zero]⟩
    · intro u hu
      have hne : u ≠ t := fun he => hnotin (he ▸ hu)
      exact update_of_ne hne _ _
    · rw [hwaiting]
      exact (add_zero _).symm

lemma Round.reachesAll {taken : ℤ} (hr : Round s s' t l initial amount taken)
    (hi : s.Inv initial) (hall : s.ReachesAll (t :: l) amount) :
    s'.ReachesAll l (amount - taken) := by
  intro l₁ v u l₂ hl hv hu hlt hle
  have hmem : ∀ x, x ∈ l₁ ∨ x = v ∨ x = u → s'.waits x = s.waits x := by
    intro x hx
    apply hr.waits_eq
    rw [hl]
    simp only [List.mem_append, List.mem_cons]
    tauto
  have hfront : s'.waiting l₁ = s.waiting l₁ := waiting_congr fun x hx => hmem x (.inl hx)
  have hveq := hmem v (.inr (.inl rfl))
  have hueq := hmem u (.inr (.inr rfl))
  have hnonneg := hr.inv.waiting_nonneg l₁
  have htaken := hr.taken_eq
  have hnet := hr.netCount_eq
  obtain ⟨hself, _, hcons⟩ := hi.waiting_cons t l₁
  rw [isBlocked_congr hveq] at hv
  rw [isBlocked_congr hueq] at hu
  rw [requested_congr hveq] at hle ⊢
  rw [requested_congr hueq]
  -- something is left, so the first thread got all it asked for
  have hleft := hall (t :: l₁) v u l₂ (by rw [hl, List.cons_append]) hv hu (by omega) (by omega)
  omega

lemma State.Inv.releaseThreads {ifWaitingOnly : Bool} (hi : s.Inv initial)
    (hqueue : s.queue = l) (hnonneg : 0 ≤ amount) (hhead : amount = 0 → s.HeadWaits)
    (hfits : s.Fits ifWaitingOnly l amount) (hall : s.ReachesAll l amount) :
    (releaseThreads ifWaitingOnly l s amount).Inv initial ∧
      (Semaphore.releaseThreads ifWaitingOnly l s amount).HeadWaits := by
  induction l generalizing s amount with
  | nil =>
    unfold Semaphore.releaseThreads
    split
    case isTrue h =>
      have hgiven := (hi.give hnonneg (hfits (.inl h.2))).1
      refine ⟨hgiven, ?_⟩
      intro t ht
      rw [show _ = s.queue from rfl, hqueue] at ht
      cases ht
    case isFalse h =>
      refine ⟨hi, ?_⟩
      intro t ht
      rw [hqueue] at ht
      cases ht
  | cons t l ih =>
    by_cases hpos : 0 < amount
    · have hroom : s.isBlocked t = true → s.netCount + amount < 0x80000000 := fun hb =>
        hfits (.inr ⟨t, List.mem_cons_self, hb⟩)
      rcases hi.releaseThreads_cons ifWaitingOnly hqueue hpos hroom with
        ⟨hb, hmore, heq⟩ | ⟨s', taken, hr, heq⟩
      · rw [heq]
        obtain ⟨hgiven, hnet⟩ := hi.give hnonneg (hroom hb)
        refine ⟨hgiven, ?_⟩
        intro u hu _
        rw [show _ = s.queue from rfl, hqueue] at hu
        cases hu
        show int32 (s.netCount + amount) < s.requested t
        omega
      · rw [heq]
        obtain ⟨hself, _, _⟩ := hi.waiting_cons t l
        have htaken := hr.taken_eq
        have hnet := hr.netCount_eq
        apply ih hr.inv hr.queue_eq (by omega)
        · -- the count is used up: what is left is not enough for the next thread
          intro hzero u hu hblocked
          rw [hr.queue_eq] at hu
          obtain ⟨l₂, hl⟩ := List.head?_eq_some_iff.1 hu
          have hwaits := hr.waits_eq u (by rw [hl]; exact List.mem_cons_self)
          rw [isBlocked_congr hwaits] at hblocked
          rw [requested_congr hwaits]
          have hb : s.isBlocked t = true := by
            by_contra hb
            rw [waiting_cons_not (by simpa using hb), waiting_nil] at htaken
            omega
          have hwaiting : s.waiting [t] = s.requested t := by
            rw [waiting_cons_blocked hb, waiting_nil, add_zero]
          have hlast := hall [] t u l₂ (by rw [hl]; rfl) hb hblocked (by rw [waiting_nil]; omega)
            (by rw [waiting_nil]; omega)
          rw [waiting_nil] at hlast
          omega
        · intro h
          have hwhole : s.netCount + amount < 0x80000000 := by
            apply hfits
            apply h.imp id
            rintro ⟨u, hu, hblocked⟩
            rw [isBlocked_congr (hr.waits_eq u hu)] at hblocked
            exact ⟨u, List.mem_cons_of_mem _ hu, hblocked⟩
          omega
        · exact hr.reachesAll hi hall
    · have hzero : amount = 0 := by omega
      rw [Semaphore.releaseThreads, if_neg hpos]
      exact ⟨hi, hhead hzero⟩

/-! ## Steps of a thread -/

/-- The thread sees or gets another status, but does not get the semaphore. -/
structure Rests (w w' : Wait) : Prop where
  count_eq : w'.count = w.count
  queued_eq : w'.queued = w.queued
  status : w'.status = w.status ∨ w.status = none ∧ w'.status ≠ none ∧ w'.status ≠ some .ok

section

variable (hi : s.Inv initial)
include hi

lemma State.Inv.rest (hhead : s.HeadWaits) (hw : s.waits t = some w)
    (hrests : Rests w w') : (s.setWait t w').Inv initial ∧ (s.setWait t w').HeadWaits := by
  have hself : (s.setWait t w').waits t = some w' := update_self _ _ _
  have hne : ∀ u, u ≠ t → (s.setWait t w').waits u = s.waits u := fun u hu =>
    update_of_ne hu _ _
  have hrequested : ∀ u, (s.setWait t w').requested u = s.requested u := by
    intro u
    by_cases hu : u = t
    · rw [hu, requested_of hself, requested_of hw, hrests.count_eq]
    · exact requested_congr (hne u hu)
  have hok : w'.status = some .ok ↔ w.status = some .ok := by
    rcases hrests.status with h | ⟨hnone, _, h⟩
    · rw [h]
    · rw [hnone]
      exact iff_of_false h (Option.some_ne_none _).symm
  have hnone : w'.status = none → w.status = none := by
    intro h
    rcases hrests.status with h' | ⟨h', _⟩
    · rw [← h', h]
    · exact h'
  have hgranted : granted (some w') = granted (s.waits t) := by
    rw [hw, granted, granted, hrests.count_eq, if_congr hok rfl rfl]
  have htally := tally_update granted s.waits t (some w')
  constructor
  · exact {
      nodup := hi.nodup
      queued := fun u => by
        show u ∈ s.queue ↔ _
        rw [hi.queued]
        by_cases hu : u = t
        · rw [hu, hself, hw]
          simp [hrests.queued_eq]
        · rw [hne u hu]
      count_pos := fun u w₁ h₁ => by
        by_cases hu : u = t
        · rw [hu, hself] at h₁
          cases h₁
          rw [hrests.count_eq]
          exact hi.count_pos t w hw
        · rw [hne u hu] at h₁
          exact hi.count_pos u w₁ h₁
      blocked := fun u w₁ h₁ hs => by
        by_cases hu : u = t
        · rw [hu, hself] at h₁
          cases h₁
          rw [hrests.queued_eq]
          exact hi.blocked t w hw (hnone hs)
        · rw [hne u hu] at h₁
          exact hi.blocked u w₁ h₁ hs
      served := fun u w₁ h₁ hs => by
        by_cases hu : u = t
        · rw [hu, hself] at h₁
          cases h₁
          rw [hrests.queued_eq]
          exact hi.served t w hw (hok.1 hs)
        · rw [hne u hu] at h₁
          exact hi.served u w₁ h₁ hs
      count_eq := by
        rw [total_congr fun u _ => hrequested u]
        exact hi.count_eq
      count_ge := hi.count_ge
      netCount_nonneg := hi.netCount_nonneg
      netCount_lt := hi.netCount_lt
      balance := by
        have hbalance := hi.balance
        show s.acquired + tally granted (update s.waits t (some w')) + s.netCount =
          initial + s.released
        omega
      arrived_lt := fun u w₁ h₁ => by
        show s.arrived u < s.clock
        by_cases hu : u = t
        · rw [hu]
          exact hi.arrived_lt t w hw
        · rw [hne u hu] at h₁
          exact hi.arrived_lt u w₁ h₁
      ordered := hi.ordered
      served_first := fun u v hserved hv => by
        apply hi.served_first u v _ hv
        by_cases hu : u = t
        · rw [hu, served_of hself, decide_eq_true_eq] at hserved
          rw [hu, served_of hw, decide_eq_true_eq]
          exact hok.1 hserved
        · rw [State.served, hne u hu] at hserved
          exact hserved }
  · intro u hu hb
    rw [hrequested u]
    apply hhead u hu
    by_cases he : u = t
    · rw [he, isBlocked_of hself, decide_eq_true_eq] at hb
      rw [he, isBlocked_of hw, decide_eq_true_eq]
      exact hnone hb
    · rw [isBlocked_congr (hne u he)] at hb
      exact hb

lemma State.Inv.enqueue (hhead : s.HeadWaits) (hidle : s.waits t = none)
    (hw : w.queued = true) (hnone : w.status = none) (hpos : 0 < w.count)
    (hshort : s.count - w.count < 0) (hge : -0x80000000 ≤ s.count - w.count) :
    let s' : State T := { s.setWait t w with
      count   := s.count - w.count
      queue   := s.queue ++ [t]
      clock   := s.clock + 1
      arrived := update s.arrived t s.clock }
    s'.Inv initial ∧ s'.HeadWaits := by
  intro s'
  have hself : s'.waits t = some w := update_self _ _ _
  have hne : ∀ u, u ≠ t → s'.waits u = s.waits u := fun u hu => update_of_ne hu _ _
  have hnotin : t ∉ s.queue := by
    rw [hi.queued, hidle]
    rintro ⟨w, h, _⟩
    cases h
  have hnet : ∀ u ∈ s.queue, u ≠ t := fun u hu he => hnotin (he ▸ hu)
  have htotal : s'.total s.queue = s.total s.queue :=
    total_congr fun u hu => requested_congr (hne u (hnet u hu))
  have hrequested := requested_of hself
  have htally : tally granted s'.waits = tally granted s.waits := by
    have h := tally_update granted s.waits t (some w)
    rw [hidle, granted, granted, if_neg (by rw [hnone]; exact (Option.some_ne_none _).symm)] at h
    exact h
  have hold : ∀ u, u ≠ t → s'.arrived u = s.arrived u := fun u hu =>
    update_of_ne hu _ _
  have hnew : s'.arrived t = s.clock := update_self _ _ _
  have hearlier : ∀ u ∈ s.queue, s.arrived u < s.clock := by
    intro u hu
    obtain ⟨w, hw, _⟩ := (hi.queued u).1 hu
    exact hi.arrived_lt u w hw
  constructor
  · exact {
      nodup := by
        show (s.queue ++ [t]).Nodup
        rw [List.nodup_append]
        refine ⟨hi.nodup, List.nodup_singleton t, ?_⟩
        intro u hu v hv he
        rw [List.mem_singleton.1 hv] at he
        exact hnet u hu he
      queued := fun u => by
        show u ∈ s.queue ++ [t] ↔ _
        rw [List.mem_append, List.mem_singleton]
        by_cases hu : u = t
        · rw [hu, hself]
          exact iff_of_true (.inr rfl) ⟨w, rfl, hw⟩
        · rw [hne u hu, hi.queued]
          exact or_iff_left hu
      count_pos := fun u w₁ h₁ => by
        by_cases hu : u = t
        · rw [hu, hself] at h₁
          cases h₁
          exact hpos
        · rw [hne u hu] at h₁
          exact hi.count_pos u w₁ h₁
      blocked := fun u w₁ h₁ hs => by
        by_cases hu : u = t
        · rw [hu, hself] at h₁
          cases h₁
          exact hw
        · rw [hne u hu] at h₁
          exact hi.blocked u w₁ h₁ hs
      served := fun u w₁ h₁ hs => by
        by_cases hu : u = t
        · rw [hu, hself] at h₁
          cases h₁
          rw [hnone] at hs
          cases hs
        · rw [hne u hu] at h₁
          exact hi.served u w₁ h₁ hs
      count_eq := by
        have hcount := hi.count_eq
        have hone : s'.total [t] = s'.requested t := by
          rw [total_cons]
          exact add_zero _
        show s.count - w.count = s.netCount - s'.total (s.queue ++ [t])
        rw [total_append, htotal, hone]
        omega
      count_ge := hge
      netCount_nonneg := hi.netCount_nonneg
      netCount_lt := hi.netCount_lt
      balance := by
        rw [htally]
        exact hi.balance
      arrived_lt := fun u w₁ h₁ => by
        show s'.arrived u < s.clock + 1
        by_cases hu : u = t
        · rw [hu, hnew]
          omega
        · rw [hne u hu] at h₁
          have hlt := hi.arrived_lt u w₁ h₁
          rw [hold u hu]
          omega
      ordered := by
        show (s.queue ++ [t]).Pairwise _
        rw [List.pairwise_append]
        refine ⟨?_, List.pairwise_singleton _ _, ?_⟩
        · apply hi.ordered.imp_of_mem
          intro u v hu hv hlt
          rw [hold u (hnet u hu), hold v (hnet v hv)]
          exact hlt
        · intro u hu v hv
          rw [List.mem_singleton.1 hv, hold u (hnet u hu), hnew]
          exact hearlier u hu
      served_first := fun u v hserved hv => by
        have hu : u ≠ t := by
          intro hu
          rw [hu, served_of hself, hnone] at hserved
          cases hserved
        rw [State.served, hne u hu] at hserved
        rw [hold u hu]
        rcases List.mem_append.1 hv with hv | hv
        · rw [hold v (hnet v hv)]
          exact hi.served_first u v hserved hv
        · obtain ⟨w₁, h₁, _⟩ := Option.any_eq_true .. |>.1 hserved
          rw [List.mem_singleton.1 hv, hnew]
          exact hi.arrived_lt u w₁ h₁ }
  · intro u hu hb
    show s.netCount < s'.requested u
    cases hq : s.queue with
    | nil =>
      -- the queue was empty, so that `count` was `net_count`
      replace hu : (s.queue ++ [t]).head? = some u := hu
      rw [hq] at hu
      cases hu
      have hcount := hi.count_eq
      rw [hq] at hcount
      have hzero : s.total [] = 0 := rfl
      omega
    | cons v l =>
      replace hu : (s.queue ++ [t]).head? = some u := hu
      rw [hq] at hu
      cases hu
      have hut := hnet u (by rw [hq]; exact List.mem_cons_self)
      rw [requested_congr (hne u hut)]
      apply hhead u (by rw [hq]; rfl)
      rw [isBlocked_congr (hne u hut)] at hb
      exact hb

lemma State.Inv.take (hhead : s.HeadWaits) (hpos : 0 < count) (henough : 0 ≤ s.count - count) :
    let s' : State T := { s with
      count    := s.count - count
      netCount := int32 (s.netCount - count)
      acquired := s.acquired + count }
    s'.Inv initial ∧ s'.HeadWaits := by
  intro s'
  have htotal := hi.total_nonneg s.queue
  have hcount := hi.count_eq
  have hge := hi.count_ge
  have hlt := hi.netCount_lt
  have hbalance := hi.balance
  have hnet : int32 (s.netCount - count) = s.netCount - count := int32_eq (by omega) (by omega)
  constructor
  · refine ⟨hi.nodup, hi.queued, hi.count_pos, hi.blocked, hi.served, ?_, ?_, ?_, ?_, ?_,
      hi.arrived_lt, hi.ordered, hi.served_first⟩
    · show s.count - count = int32 (s.netCount - count) - s.total s.queue
      omega
    · show -0x80000000 ≤ s.count - count
      omega
    · show 0 ≤ int32 (s.netCount - count)
      omega
    · show int32 (s.netCount - count) < 0x80000000
      omega
    · show s.acquired + count + tally granted s.waits + int32 (s.netCount - count) =
        initial + s.released
      omega
  · intro u hu hb
    have h := hhead u hu hb
    show int32 (s.netCount - count) < s.requested u
    omega

lemma State.Inv.leave (hhead : s.HeadWaits) (hw : s.waits t = some w) (hout : w.queued = false) :
    let s' : State T := { s with
      waits    := update s.waits t none
      acquired := s.acquired + if w.status = some .ok then w.count else 0 }
    s'.Inv initial ∧ s'.HeadWaits := by
  intro s'
  have hself : s'.waits t = none := update_self _ _ _
  have hne : ∀ u, u ≠ t → s'.waits u = s.waits u := fun u hu => update_of_ne hu _ _
  have hnotin : t ∉ s.queue := by
    rw [hi.queued, hw]
    rintro ⟨w, h, hq⟩
    cases h
    rw [hout] at hq
    cases hq
  have hnet : ∀ u ∈ s.queue, u ≠ t := fun u hu he => hnotin (he ▸ hu)
  have hother : ∀ u w₁, s'.waits u = some w₁ → u ≠ t ∧ s.waits u = some w₁ := by
    intro u w₁ h₁
    have hu : u ≠ t := by
      intro hu
      rw [hu, hself] at h₁
      cases h₁
    rw [hne u hu] at h₁
    exact ⟨hu, h₁⟩
  have htally := tally_update granted s.waits t none
  have hpos := hi.count_pos t w hw
  have hgranted : (granted (s.waits t) : ℤ) = if w.status = some .ok then w.count else 0 := by
    rw [hw, granted]
    split
    · omega
    · rfl
  constructor
  · exact {
      nodup := hi.nodup
      queued := fun u => by
        show u ∈ s.queue ↔ _
        rw [hi.queued]
        by_cases hu : u = t
        · rw [hu, hself, hw]
          simp [hout]
        · rw [hne u hu]
      count_pos := fun u w₁ h₁ => hi.count_pos u w₁ (hother u w₁ h₁).2
      blocked := fun u w₁ h₁ => hi.blocked u w₁ (hother u w₁ h₁).2
      served := fun u w₁ h₁ => hi.served u w₁ (hother u w₁ h₁).2
      count_eq := by
        rw [total_congr fun u hu => requested_congr (hne u (hnet u hu))]
        exact hi.count_eq
      count_ge := hi.count_ge
      netCount_nonneg := hi.netCount_nonneg
      netCount_lt := hi.netCount_lt
      balance := by
        have hbalance := hi.balance
        have hzero : granted none = 0 := rfl
        show s.acquired + (if w.status = some .ok then w.count else 0) +
          tally granted (update s.waits t none) + s.netCount = initial + s.released
        omega
      arrived_lt := fun u w₁ h₁ => hi.arrived_lt u w₁ (hother u w₁ h₁).2
      ordered := hi.ordered
      served_first := fun u v hserved hv => by
        apply hi.served_first u v _ hv
        have hu : u ≠ t := by
          intro hu
          rw [hu, State.served, hself] at hserved
          cases hserved
        rw [State.served, hne u hu] at hserved
        exact hserved }
  · intro u hu hb
    have hut := hnet u (List.mem_of_mem_head? hu)
    show s.netCount < s'.requested u
    rw [requested_congr (hne u hut)]
    rw [isBlocked_congr (hne u hut)] at hb
    exact hhead u hu hb

end

/-! ## Runs -/

lemma switchSem_inv {flags : Flags} {timeout : ℤ} {signals : Signals} (hi : s.Inv initial)
    (hhead : s.HeadWaits) (hidle : s.waits t = none)
    (hfits : acquireRefused s count flags = none → -0x80000000 ≤ s.count - count) :
    let r := switchSem s t count flags timeout signals
    let s' := if r.2 = some .ok then { r.1 with acquired := r.1.acquired + count } else r.1
    s'.Inv initial ∧ s'.HeadWaits := by
  have htotal := hi.total_nonneg s.queue
  have hcount := hi.count_eq
  have hge := hi.count_ge
  have hlt := hi.netCount_lt
  unfold switchSem
  cases hrefused : acquireRefused s count flags with
  | some status =>
    have hstatus : status ≠ .ok := by
      intro h
      rw [h] at hrefused
      unfold acquireRefused at hrefused
      split at hrefused
      · cases hrefused
      · split at hrefused
        · cases hrefused
        · cases hrefused
    dsimp only
    rw [if_neg (fun h => hstatus (Option.some.inj h))]
    exact ⟨hi, hhead⟩
  | none =>
    have hpos : 0 < count := by
      unfold acquireRefused at hrefused
      split at hrefused
      · cases hrefused
      next h =>
        rw [Bool.or_eq_true, decide_eq_true_eq, not_or] at h
        omega
    have hmin := hfits hrefused
    have hint : int32 (s.count - count) = s.count - count := int32_eq hmin (by omega)
    have hback : int32 (s.count - count + count) = s.count := by
      rw [sub_add_cancel]
      exact int32_eq hge (by omega)
    dsimp only
    rw [hint]
    split
    · exact ⟨hi, hhead⟩
    split
    · exact ⟨hi, hhead⟩
    split
    case isTrue hshort =>
      split
      · dsimp only
        rw [hback]
        exact ⟨hi, hhead⟩
      · exact hi.enqueue hhead hidle (w := ⟨count, true, flags, _, none, false⟩) rfl rfl hpos
          hshort hmin
    case isFalse henough => exact hi.take hhead hpos (by omega)

lemma switchSemEnd_inv (hi : s.Inv initial) (hhead : s.HeadWaits) (hw : s.waits t = some w)
    (hstatus : w.status ≠ none) :
    let s₁ := switchSemEnd s t w
    let s' := if w.status = some .ok then { s₁ with acquired := s₁.acquired + w.count } else s₁
    s'.Inv initial ∧ s'.HeadWaits := by
  intro s₁ s'
  have hleave : ∀ {s₀ : State T} {w₀ : Wait}, s₀.Inv initial → s₀.HeadWaits →
      s₀.waits t = some w₀ → w₀.queued = false → w₀.status = w.status → w₀.count = w.count →
      s₁ = { s₀ with waits := update s₀.waits t none } →
      s'.Inv initial ∧ s'.HeadWaits := by
    intro s₀ w₀ hi₀ hhead₀ hw₀ hout hsame hcount heq
    have hleft := hi₀.leave hhead₀ hw₀ hout
    rw [hsame, hcount] at hleft
    have hs' : s' = { s₀ with
        waits    := update s₀.waits t none
        acquired := s₀.acquired + if w.status = some .ok then w.count else 0 } := by
      show (if w.status = some .ok then { s₁ with acquired := s₁.acquired + w.count } else s₁) = _
      rw [heq]
      split
      · rfl
      · rw [add_zero]
    rw [hs']
    exact hleft
  cases hq : w.queued with
  | false =>
    apply hleave hi hhead hw hq rfl rfl
    show switchSemEnd s t w = _
    unfold switchSemEnd
    rw [hq]
    rfl
  | true =>
    have ht : t ∈ s.queue := (hi.queued t).2 ⟨w, hw, hq⟩
    have hb : s.isBlocked t = false := by
      rw [isBlocked_of hw]
      exact decide_eq_false hstatus
    obtain ⟨hdropped, _⟩ := hi.drop ht hb
    obtain ⟨hinv, hhead', hwaits⟩ := hdropped.wakeThreads rfl
    have hnotin : t ∉ s.queue.erase t := hi.nodup.not_mem_erase
    have hself : (s.dequeue t).waits t = some { w with queued := false } := by
      show update s.waits t _ t = _
      rw [update_self, hw]
      rfl
    apply hleave hinv hhead' ((hwaits t hnotin).trans hself) rfl rfl rfl
    show switchSemEnd s t w = _
    unfold switchSemEnd
    rw [hq]
    rfl

lemma releaseSem_inv {flags : Flags} (hi : s.Inv initial) (hhead : s.HeadWaits)
    (hok : Undisturbed s (.release count flags)) :
    (releaseSem s count flags).1.Inv initial ∧ (releaseSem s count flags).1.HeadWaits := by
  unfold releaseSem
  cases hrefused : releaseRefused s count flags with
  | some status => exact ⟨hi, hhead⟩
  | none =>
    obtain ⟨hfits, hall⟩ := hok hrefused
    dsimp only
    split
    · exact ⟨hi, hhead⟩
    · by_cases hpos : 0 ≤ releaseCount s count flags
      · exact hi.releaseThreads rfl hpos (fun _ => hhead) hfits hall
      · -- a sum of more counts than an `int32` has: nothing happens
        cases hq : s.queue with
        | nil =>
          rw [releaseThreads, if_neg (by omega)]
          exact ⟨hi, hhead⟩
        | cons t l =>
          rw [releaseThreads, if_neg (by omega)]
          exact ⟨hi, hhead⟩

lemma rests_unblock {status : Status} (h : status ≠ .ok) : Rests w (w.unblock status) := by
  unfold Wait.unblock
  split
  case isTrue hnone =>
    exact ⟨rfl, rfl, .inr ⟨hnone, Option.some_ne_none _, fun he => h (Option.some.inj he)⟩⟩
  case isFalse => exact ⟨rfl, rfl, .inl rfl⟩

lemma unblock_of {status : Status} (hw : s.waits t = some w) :
    s.unblock t status = s.setWait t (w.unblock status) := by
  unfold State.unblock State.setWait
  rw [hw]
  rfl

lemma inv_step {a : Action T} (hi : s.Inv initial ∧ s.HeadWaits) (hok : Undisturbed s a)
    (hstep : step s a = some s') : s'.Inv initial ∧ s'.HeadWaits := by
  cases a with
  | acquire t count flags timeout signals =>
    rw [step] at hstep
    split at hstep
    case isTrue hidle =>
      cases hstep
      exact switchSem_inv hi.1 hi.2 hidle hok
    case isFalse => cases hstep
  | block t signals =>
    rw [step] at hstep
    split at hstep
    case h_1 w hw =>
      split at hstep
      · cases hstep
      · cases hstep
        unfold threadBlock
        split
        case isTrue h =>
          exact hi.1.rest hi.2 hw ⟨rfl, rfl, .inr ⟨h.1, Option.some_ne_none _, fun he => by
            cases he⟩⟩
        case isFalse => exact hi.1.rest hi.2 hw ⟨rfl, rfl, .inl rfl⟩
    case h_2 => cases hstep
  | timeout t =>
    rw [step] at hstep
    split at hstep
    case h_1 w hw =>
      split at hstep
      · cases hstep
        rw [unblock_of hw]
        exact hi.1.rest hi.2 hw (rests_unblock fun h => by cases h)
      · cases hstep
    case h_2 => cases hstep
  | interrupt t kill =>
    rw [step] at hstep
    split at hstep
    case h_1 w hw =>
      split at hstep
      · cases hstep
        rw [unblock_of hw]
        exact hi.1.rest hi.2 hw (rests_unblock fun h => by cases h)
      · cases hstep
    case h_2 => cases hstep
  | finish t =>
    rw [step] at hstep
    split at hstep
    case h_1 w hw =>
      split at hstep
      case isTrue h =>
        cases hstep
        exact switchSemEnd_inv hi.1 hi.2 hw h.2
      case isFalse => cases hstep
    case h_2 => cases hstep
  | release count flags =>
    cases hstep
    exact releaseSem_inv hi.1 hi.2 hok

lemma State.Inv.sound (hi : s.Inv initial) (hhead : s.HeadWaits) : s.Sound initial where
  count_eq := hi.count_eq
  netCount_nonneg := hi.netCount_nonneg
  acquired_le := by
    have hbalance := hi.balance
    have hnonneg := hi.netCount_nonneg
    omega
  blocked_queued t hb := by
    cases hw : s.waits t with
    | none =>
      rw [State.isBlocked, hw] at hb
      cases hb
    | some w =>
      rw [isBlocked_of hw, decide_eq_true_eq] at hb
      exact (hi.queued t).2 ⟨w, hw, hi.blocked t w hw hb⟩
  no_lost_wakeup := hhead
  ordered := hi.ordered
  served_first := hi.served_first

/-- In every run in which the counts fit into an `int32` and no release is used up while a thread
waits for what is left, the semaphore is sound. -/
theorem semaphore_sound {kernelOwned : Bool} (h : 0 ≤ initial) (hlt : initial < 0x80000000)
    {hist : History (State T) (Action T)}
    (hr : Run step Undisturbed (.init initial kernelOwned) hist s) : s.Sound initial := by
  obtain ⟨hi, hhead⟩ := hr.invariant (I := fun s => s.Inv initial ∧ s.HeadWaits)
    ⟨inv_init h hlt kernelOwned, fun t ht => (by cases ht)⟩ inv_step
  exact hi.sound hhead

/-! ## Examples of runs -/

def noSignals : Signals := ⟨false, false⟩

/-- A sufficient condition for `Undisturbed` that can be evaluated: a release comes while there is
nothing in `net_count`. -/
def undisturbed (s : State T) : Action T → Bool
  | .acquire _ count _ _ _ => -0x80000000 ≤ s.count - count
  | .release count flags =>
    s.netCount = 0 ∧ releaseCount s count flags < 0x80000000 ∧ ∀ t ∈ s.queue, 0 < s.requested t
  | _ => true

lemma undisturbed_of (s : State T) (a : Action T) (h : undisturbed s a = true) :
    Undisturbed s a := by
  cases a with
  | acquire t count flags timeout signals =>
    intro _
    rw [undisturbed, decide_eq_true_eq] at h
    exact h
  | release count flags =>
    rw [undisturbed, decide_eq_true_eq] at h
    intro _
    constructor
    · intro _
      omega
    · intro l₁ t u l₂ hqueue _ _ _ hle
      have hpos := h.2.2 u (by rw [hqueue]; simp)
      omega
  | block t signals => trivial
  | timeout t => trivial
  | interrupt t kill => trivial
  | finish t => trivial

def waitersInTurn : List (Action (Fin 3)) :=
  [.acquire 0 2 0 0 noSignals, .acquire 1 3 relativeTimeout 1000 noSignals,
    .acquire 2 1 0 0 noSignals, .block 1 noSignals, .timeout 1, .release 3 0, .block 0 noSignals,
    .finish 0]

/-- A thread is served, another one gives up, and the one behind it is served too. -/
theorem semaphore_sound_waiters :
    (outcome step (State.init 0 true) waitersInTurn).acquired = 2 ∧
      (outcome step (State.init 0 true) waitersInTurn).served 2 = true ∧
      (outcome step (State.init 0 true) waitersInTurn).Sound 0 := by
  refine ⟨by decide, by decide, ?_⟩
  obtain ⟨hist, hr, -⟩ := run_outcome step undisturbed_of (State.init 0 true) waitersInTurn
    (fun _ => true) (by decide)
  exact semaphore_sound (le_refl 0) (by decide) hr

/-- There is one; a thread asks for two, and the next one for one. Two are released: the first
thread gets them, and the second one stays asleep although there still is one. -/
theorem semaphore_wakeup_lost : ∃ (hist : History (State Bool) (Action Bool)) (s : State Bool),
    Run step (fun _ _ => True) (.init 1 true) hist s ∧ s.queue.head? = some true ∧
      s.isBlocked true = true ∧ s.requested true = 1 ∧ s.netCount = 1 ∧ ¬s.Sound 1 := by
  obtain ⟨hist, hr, -⟩ := @run_outcome _ _ (fun _ _ => True) step (fun _ _ => true)
    (fun _ _ _ => trivial) (State.init 1 true : State Bool)
    [.acquire false 2 0 0 noSignals, .acquire true 1 0 0 noSignals, .block false noSignals,
      .block true noSignals, .release 2 0] (fun _ => true) (by decide)
  refine ⟨hist, _, hr, by decide, by decide, by decide,
    by decide, ?_⟩
  intro hsound
  have hlost := hsound.no_lost_wakeup true (by decide) (by decide)
  revert hlost
  decide

end Haiku.Semaphore
