import Haiku.Swap.Books

/-!
# Every call keeps the books

The calls one after the other. Where a call is not right in all cases, the condition under which
it is stands in `booksOk`.
-/

namespace Haiku.Swap

open Function Lib

variable {P : Type} {s s' s₁ : State P} {c c' : AnonymousCache P} {id : ℕ} {x : ℕ → ℤ}

/-! ## Caches that only change their count -/

/-- The caches are the same up to what they count as allocated. -/
def CachesKept (s s' : State P) : Prop :=
  ∀ id c, s.caches.lookup id = some c →
    ∃ a, s'.caches.lookup id = some { c with allocatedSwapSize := a }

lemma CachesKept.of_eq (h : s'.caches = s.caches) : CachesKept s s' := by
  intro id c hl
  rw [h]
  exact ⟨c.allocatedSwapSize, hl⟩

lemma CachesKept.trans (h : CachesKept s s₁) (h' : CachesKept s₁ s') : CachesKept s s' := by
  intro id c hl
  obtain ⟨a, hl₁⟩ := h id c hl
  obtain ⟨a', hl'⟩ := h' id _ hl₁
  exact ⟨a', hl'⟩

lemma addAllocated_cachesKept (s : State P) (id : ℕ) (a : ℤ) :
    CachesKept s (addAllocated s id a) := by
  intro id' c' hl'
  unfold addAllocated
  split
  · next c hl =>
    by_cases hid : id' = id
    · subst hid
      rw [hl] at hl'
      cases hl'
      exact ⟨_, AList.lookup_insert _⟩
    · exact ⟨c'.allocatedSwapSize, (AList.lookup_insert_ne hid).trans hl'⟩
  · exact ⟨c'.allocatedSwapSize, hl'⟩

@[simp] lemma getAddress_addAllocated (s : State P) (id : ℕ) (a : ℤ) :
    getAddress (addAllocated s id a) = getAddress s := by
  unfold addAllocated
  split <;> rfl

@[simp] lemma pending_addAllocated (s : State P) (id : ℕ) (a : ℤ) :
    (addAllocated s id a).pending = s.pending := by
  unfold addAllocated
  split <;> rfl

@[simp] lemma hasSlot_addAllocated (s : State P) (id : ℕ) (a : ℤ) (slot : ℕ) :
    (addAllocated s id a).hasSlot slot = s.hasSlot slot := by
  unfold addAllocated
  split <;> rfl

@[simp] lemma allocated_addAllocated (s : State P) (id : ℕ) (a : ℤ) :
    (addAllocated s id a).allocated = s.allocated := by
  unfold addAllocated
  split <;> rfl

lemma addAllocated_allocated (s : State P) (id : ℕ) (a : ℤ) (g : ℕ → Bool) :
    addAllocated { s with allocated := g } id a = { addAllocated s id a with allocated := g } := by
  simp only [addAllocated]
  split <;> rfl

variable {slot n : ℕ}

lemma swapSlotDealloc_addAllocated {a : ℤ} (h : swapSlotDealloc s slot n = some s₁) :
    swapSlotDealloc (addAllocated s id a) slot n = some (addAllocated s₁ id a) := by
  obtain ⟨hfile, h⟩ := Option.ite_none_right_eq_some.1 h
  cases h
  rw [swapSlotDealloc_eq_some n (by simpa using hfile), allocated_addAllocated]
  exact congrArg some (addAllocated_allocated s id a _).symm

variable {p : ℕ}

lemma Books.releaseCounted (h : Books s x) (hfirst : getAddress s id p = some slot)
    (hall : ∀ k, k < n → getAddress s id (p + k) = some (slot + k)) :
    ∃ s₁ s₂, swapSlotDealloc s slot n = some s₁ ∧
      swapBlockFree (Swap.addAllocated s₁ id (-(n * pageSize))) id p n = some s₂ ∧
      Books s₂ x ∧ getAddress s₂ = drop (getAddress s) id p n ∧ CachesKept s s₂ ∧
      s₂.pending = s.pending := by
  have hle : ∀ c, s.caches.lookup id = some c →
      c.allocatedSwapSize + -(n * pageSize : ℤ) ≤ c.committedSwapSize := by
    intro c hl
    have hle := h.le id c hl
    have hpos :
        (0 : ℤ) ≤ n * pageSize := Int.mul_nonneg (Int.natCast_nonneg _) (Int.natCast_nonneg _)
    omega
  obtain ⟨s₁', s₂, hs₁', hs₂, hbooks, haddress, hcaches, hpending, -⟩ :=
    (h.addAllocated hle).release (by rwa [getAddress_addAllocated])
      (by rwa [getAddress_addAllocated])
  have hfile : s.hasSlot slot = true := (h.ledger.stored id p slot (held_of_getAddress hfirst)).2
  have hs₁ := swapSlotDealloc_eq_some n hfile
  rw [swapSlotDealloc_addAllocated hs₁] at hs₁'
  cases hs₁'
  refine ⟨_, s₂, hs₁, hs₂, ?_, ?_, ?_, ?_⟩
  · rw [update_self, update_idem, neg_add_cancel_right, update_eq_self]
      at hbooks
    exact hbooks
  · rw [haddress, getAddress_addAllocated]
  · exact (addAllocated_cachesKept s id _).trans (.of_eq hcaches)
  · rw [hpending, pending_addAllocated]

lemma swapFreePageSwapSpace_books (h : Books s x) (hs' : swapFreePageSwapSpace s id p = some s') :
    Books s' x := by
  unfold swapFreePageSwapSpace at hs'
  split at hs'
  · cases hs'
    exact h
  · next slot hp =>
    obtain ⟨s₁, s₂, hs₁, hs₂, hbooks, -⟩ := h.releaseCounted (n := 1) hp (fun k hk => by
      rw [show k = 0 by omega]
      exact hp)
    rw [hs₁, Option.bind_eq_bind, Option.bind_some] at hs'
    rw [Nat.cast_one, one_mul] at hs₂
    rw [hs₂] at hs'
    cases hs'
    exact hbooks

/-! ## `WriteAsync()` -/

lemma ioFinished_books {w : PendingWrite} {ok : Bool} (h : Books s x)
    (hs' : ioFinished s w ok = some s') : Books s' x := by
  obtain ⟨hw, hs'⟩ := Option.ite_none_right_eq_some.1 hs'
  simp only at hs'
  split at hs'
  · next hnew =>
    split at hs'
    · cases hs'
      exact h.finishPending hw hnew
    · -- the count is corrected first, the slot is freed afterwards
      have hle : ∀ c, s.caches.lookup w.cache = some c →
          c.allocatedSwapSize + -(pageSize : ℤ) ≤ c.committedSwapSize := by
        intro c hl
        have hle := h.le _ c hl
        omega
      have hb := h.addAllocated hle
      have hw' : w ∈ (addAllocated s w.cache (-pageSize)).pending := by
        rwa [pending_addAllocated]
      have hcomm : addAllocated { s with pending := s.pending.erase w } w.cache (-pageSize) =
          { addAllocated s w.cache (-pageSize) with
            pending := (addAllocated s w.cache (-pageSize)).pending.erase w } := by
        rw [pending_addAllocated]
        simp only [addAllocated]
        split <;> rfl
      rw [hcomm] at hs'
      have hd := hb.dropPending hw' hnew hs'
      rw [update_self, update_idem, neg_add_cancel_right,
        update_eq_self] at hd
      exact hd
  · next hnew =>
    cases hs'
    exact h.erasePending (by simpa using hnew)

lemma swapSlotDealloc_alloc (h : swapSlotAlloc s n slot = some s₁)
    (hs' : swapSlotDealloc s₁ slot n = some s') : s' = s := by
  obtain ⟨-, hslots, rfl⟩ := swapSlotAlloc_spec h
  obtain ⟨-, hs'⟩ := Option.ite_none_right_eq_some.1 hs'
  rw [← Option.some.inj hs']
  have hsame : (fun y => !decide (slot ≤ y ∧ y < slot + n) &&
      (decide (slot ≤ y ∧ y < slot + n) || s.allocated y)) = s.allocated := by
    funext y
    by_cases hy : slot ≤ y ∧ y < slot + n
    · have hfree := (hslots (y - slot) (by omega)).1
      rw [Nat.add_sub_cancel' hy.1] at hfree
      simp [hy, hfree]
    · simp [hy]
  simp only [hsame]

lemma swapSlotAlloc_addAllocated {a : ℤ} (h : swapSlotAlloc s n slot = some s₁) :
    swapSlotAlloc (addAllocated s id a) n slot = some (addAllocated s₁ id a) := by
  obtain ⟨hcond, h⟩ := Option.ite_none_right_eq_some.1 h
  cases h
  unfold swapSlotAlloc
  rw [allocated_addAllocated, if_pos]
  · exact congrArg some (addAllocated_allocated s id a _).symm
  · refine ⟨hcond.1, hcond.2.1, ?_, hcond.2.2.2⟩
    rw [show (addAllocated s id a).files = s.files by unfold addAllocated; split <;> rfl]
    exact hcond.2.2.1

lemma writeAsync_books {memory : Bool} {r} (h : Books s x)
    (hr : writeAsync s id p slot memory = some r)
    (honce : ∀ w ∈ s.pending, ¬ (w.cache = id ∧ w.pageIndex = p))
    (hres : ∀ c, s.caches.lookup id = some c →
      c.hasIndex p ∧ (c.lookupPage p).isSome = true) : Books r.1 x := by
  obtain ⟨c, hl, hr⟩ := Option.bind_eq_some_iff.1 hr
  obtain ⟨hindex, hpage⟩ := hres c hl
  split at hr
  · next slot' hp =>
    split at hr
    · cases hr
      exact h.addPending rfl honce ⟨c, hl, hpage⟩
    · cases hr
      exact h
  · next hp =>
    split at hr
    · cases hr
      exact h
    · next hspace =>
      obtain ⟨s₁, hs₁, hr⟩ := Option.bind_eq_some_iff.1 hr
      have hb : Books (addAllocated s id pageSize) (update x id (x id + pageSize)) := by
        apply h.addAllocated
        intro c' hl'
        rw [hl] at hl'
        cases hl'
        omega
      split at hr
      · cases hr
        obtain ⟨a, hl'⟩ := addAllocated_cachesKept s id pageSize id c hl
        have hd := hb.addPendingNew (w := ⟨id, p, slot, true⟩) rfl hs₁
          (by rwa [getAddress_addAllocated]) (by rwa [pending_addAllocated]) ⟨_, hl', hindex, hpage⟩
        rw [update_self, update_idem, add_sub_cancel_right,
          update_eq_self] at hd
        exact hd
      · obtain ⟨s₂, hs₂, hr⟩ := Option.bind_eq_some_iff.1 hr
        cases hr
        have hs₂' := swapSlotDealloc_alloc (swapSlotAlloc_addAllocated hs₁) hs₂
        have hd := hb.addAllocated (a := -pageSize) (fun c' hl' => by
          have hle := hb.le id c' hl'
          omega)
        rw [update_self, update_idem, add_neg_cancel_right,
          update_eq_self] at hd
        rw [hs₂']
        exact hd

/-! ## `Write()` -/

/-- The pages of each vector have no slots, or consecutive ones. -/
def vectorsOk (f : ℕ → Option ℕ) : ℕ → List ℕ → Prop
  | _, [] => True
  | p, n :: vecs => ((∀ k, k < n → f (p + k) = none) ∨ ∃ slot, ∀ k, k < n → f (p + k) = some (slot + k)) ∧
      vectorsOk f (p + n) vecs

variable {f : ℕ → Option ℕ} {vecs : List ℕ}

lemma vectorsOk_congr {g : ℕ → Option ℕ} : ∀ {p : ℕ},
    (∀ q, p ≤ q → g q = f q) → vectorsOk f p vecs → vectorsOk g p vecs := by
  induction vecs with
  | nil => exact fun _ _ => trivial
  | cons n vecs ih =>
    intro p hfg h
    refine ⟨?_, ih (fun q hq => hfg q (by omega)) h.2⟩
    rcases h.1 with hnone | ⟨slot, hslots⟩
    · left
      intro k hk
      rw [hfg _ (by omega), hnone k hk]
    · right
      refine ⟨slot, fun k hk => ?_⟩
      rw [hfg _ (by omega), hslots k hk]

lemma releaseOld_books : ∀ {s : State P} {p : ℕ}, Books s x →
    vectorsOk (getAddress s id) p vecs →
    ∃ s', releaseOld s id p vecs = some s' ∧ Books s' x ∧
      (∀ q, p ≤ q → q < p + vecs.sum → getAddress s' id q = none) ∧
      (∀ q, q < p → getAddress s' id q = getAddress s id q) ∧ CachesKept s s' ∧
      s'.pending = s.pending := by
  induction vecs with
  | nil =>
    intro s p h _
    refine ⟨s, rfl, h, fun q hq hq' => ?_, fun _ _ => rfl, .of_eq rfl, rfl⟩
    rw [List.sum_nil] at hq'
    omega
  | cons n vecs ih =>
    intro s p h hok
    rw [releaseOld]
    cases hp : getAddress s id p with
    | none =>
      -- then none of the pages of this vector has a slot
      have hnone : ∀ k, k < n → getAddress s id (p + k) = none := by
        rcases hok.1 with hnone | ⟨slot, hslots⟩
        · exact hnone
        · intro k hk
          have h0 := hslots 0 (by omega)
          rw [Nat.add_zero, hp] at h0
          cases h0
      obtain ⟨s', hs', hb, hfree, hsame, hkept, hpending⟩ := ih h hok.2
      refine ⟨s', hs', hb, fun q hq hq' => ?_, fun q hq => hsame q (by omega), hkept, hpending⟩
      rw [List.sum_cons] at hq'
      by_cases hlt : q < p + n
      · rw [hsame q hlt]
        have hk := hnone (q - p) (by omega)
        rwa [Nat.add_sub_cancel' hq] at hk
      · exact hfree q (by omega) (by omega)
    | some slot =>
      have hall : ∀ k, k < n → getAddress s id (p + k) = some (slot + k) := by
        intro k hk
        rcases hok.1 with hnone | ⟨slot', hslots⟩
        · have h0 := hnone 0 (by omega)
          rw [Nat.add_zero, hp] at h0
          cases h0
        · have h0 := hslots 0 (by omega)
          rw [Nat.add_zero, hp] at h0
          rw [hslots k hk]
          have heq := Option.some.inj h0
          congr 1
          omega
      obtain ⟨s₁, s₂, hs₁, hs₂, hb, haddress, hcaches, hpending, -⟩ := h.release hp hall
      have hb₃ := hb.addAllocated (a := -(n * pageSize)) (fun c hl => by
        have hle := hb.le id c hl
        have hpos : (0 : ℤ) ≤ n * pageSize :=
          Int.mul_nonneg (Int.natCast_nonneg _) (Int.natCast_nonneg _)
        omega)
      rw [update_self, update_idem, add_neg_cancel_right,
        update_eq_self] at hb₃
      have hdrop : ∀ q, getAddress (Swap.addAllocated s₂ id (-(n * pageSize))) id q =
          if p ≤ q ∧ q < p + n then none else getAddress s id q := by
        intro q
        rw [getAddress_addAllocated, haddress, drop]
        simp
      obtain ⟨s', hs', hb', hfree, hsame, hkept, hpending'⟩ := ih hb₃
        (vectorsOk_congr (fun q hq => by rw [hdrop, if_neg (by omega)]) hok.2)
      refine ⟨s', ?_, hb', fun q hq hq' => ?_, fun q hq => ?_, ?_, ?_⟩
      · simp only [hs₁, hs₂, Option.bind_eq_bind, Option.bind_some]
        exact hs'
      · rw [List.sum_cons] at hq'
        by_cases hlt : q < p + n
        · rw [hsame q hlt, hdrop, if_pos ⟨hq, hlt⟩]
        · exact hfree q (by omega) (by omega)
      · rw [hsame q (by omega), hdrop, if_neg (by omega)]
      · exact ((CachesKept.of_eq hcaches).trans (addAllocated_cachesKept _ _ _)).trans hkept
      · rw [hpending', pending_addAllocated, hpending]

lemma writeVector_whole {left : ℤ} {answers : List WriteAnswer} {r}
    (hanswers : ∀ a ∈ answers, a.halvings = 0)
    (h : writeVector id p n s 0 n left answers = some r) :
    (∀ a ∈ r.2.2.1, a.halvings = 0) ∧
    (n = 0 ∧ r = (s, left, answers, true) ∨ 0 < n ∧ ∃ slot s₁, swapSlotAlloc s n slot = some s₁ ∧
      (r.1 = swapBlockBuild s₁ id p slot n ∧ r.2.1 = left - n ∧ r.2.2.2 = true ∨
        swapSlotDealloc (addAllocated s₁ id (-(left * pageSize))) slot n = some r.1 ∧
          r.2.2.2 = false)) := by
  cases answers with
  | nil =>
    rw [writeVector] at h
    split at h
    · cases h
    · cases h
      exact ⟨hanswers, Or.inl ⟨by omega, rfl⟩⟩
  | cons a answers =>
    have ha : n / 2 ^ a.halvings = n := by
      rw [hanswers a List.mem_cons_self, Nat.pow_zero, Nat.div_one]
    have hrest : ∀ a ∈ answers, a.halvings = 0 :=
      fun b hb => hanswers b (List.mem_cons_of_mem _ hb)
    rw [writeVector] at h
    split at h
    · next hn =>
      simp only [ha] at h
      obtain ⟨s₁, hs₁, h⟩ := Option.bind_eq_some_iff.1 h
      split at h
      · rw [writeVector.eq_def] at h
        simp only at h
        rw [if_neg (by omega)] at h
        cases h
        exact ⟨hrest, Or.inr ⟨hn, a.slot, s₁, hs₁, Or.inl ⟨rfl, rfl, rfl⟩⟩⟩
      · obtain ⟨s₂, hs₂, h⟩ := Option.bind_eq_some_iff.1 h
        cases h
        exact ⟨hrest, Or.inr ⟨hn, a.slot, s₁, hs₁, Or.inr ⟨hs₂, rfl⟩⟩⟩
    · cases h
      exact ⟨hanswers, Or.inl ⟨by omega, rfl⟩⟩

lemma writeVectors_books : ∀ {s : State P} {p : ℕ} {answers : List WriteAnswer} {r},
    Books s (update x id (x id + vecs.sum * pageSize)) →
    (∀ q, p ≤ q → q < p + vecs.sum → held s id q = none) →
    (∀ q, p ≤ q → q < p + vecs.sum → ∃ c, s.caches.lookup id = some c ∧ c.hasIndex q) →
    (∀ a ∈ answers, a.halvings = 0) →
    writeVectors s id p vecs.sum answers vecs = some r → Books r.1 x := by
  induction vecs with
  | nil =>
    intro s p answers r h _ _ _ hr
    obtain ⟨-, hr⟩ := Option.ite_none_right_eq_some.1 hr
    cases hr
    simpa using h
  | cons n vecs ih =>
    intro s p answers r h hfree hrange hanswers hr
    rw [List.sum_cons] at h hfree hrange hr
    rw [writeVectors] at hr
    obtain ⟨⟨s₁, left, rest, completed⟩, hs₁, hr⟩ := Option.bind_eq_some_iff.1 hr
    obtain ⟨hrest, hwhole⟩ := writeVector_whole hanswers hs₁
    simp only at hr hrest
    rcases hwhole with ⟨hn, heq⟩ | ⟨hn, slot, s₂, halloc, hdone⟩
    · -- an empty vector
      subst hn
      cases heq
      rw [if_pos rfl, Nat.zero_add] at hr
      rw [Nat.zero_add] at h hfree hrange
      exact ih h hfree hrange hrest hr
    · rcases hdone with ⟨hs, hleft, hcompleted⟩ | ⟨hs, hcompleted⟩
      · simp only at hs hleft hcompleted
        obtain ⟨hb, haddress, hcaches, hpending⟩ := h.build halloc
          (fun q hq hq' => hfree q hq (by omega)) (fun q hq hq' => hrange q hq (by omega))
        rw [← hs] at hb haddress hcaches hpending
        rw [hcompleted, if_pos rfl, hleft,
          show (((n + vecs.sum : ℕ) : ℤ) - n) = (vecs.sum : ℕ) by push_cast; omega] at hr
        rw [update_self, update_idem] at hb
        have hx : x id + ((n + vecs.sum : ℕ) : ℤ) * pageSize - n * pageSize =
            x id + (vecs.sum : ℕ) * pageSize := by
          push_cast
          ring
        rw [hx] at hb
        refine ih hb (fun q hq hq' => ?_) (fun q hq hq' => ?_) hrest hr
        · have hnone := hfree q (by omega) (by omega)
          rw [held, Option.or_eq_none_iff] at hnone
          rw [held, haddress, hold, if_neg (by omega), hnone.1, pendingSlot, hpending]
          exact hnone.2
        · rw [hcaches]
          exact hrange q (by omega) (by omega)
      · -- the rest is not counted anymore
        simp only at hs hcompleted
        rw [hcompleted, if_neg (by simp)] at hr
        cases hr
        have hs' := swapSlotDealloc_alloc (swapSlotAlloc_addAllocated halloc) hs
        have hd := h.addAllocated (a := -(((n + vecs.sum : ℕ) : ℤ) * pageSize)) (fun c hl => by
          have hle := h.le id c hl
          have hpos : (0 : ℤ) ≤ ((n + vecs.sum : ℕ) : ℤ) * pageSize :=
            Int.mul_nonneg (Int.natCast_nonneg _) (Int.natCast_nonneg _)
          omega)
        rw [update_self, update_idem, add_neg_cancel_right,
          update_eq_self] at hd
        rw [hs']
        exact hd

lemma write_books {answers : List WriteAnswer} {r} (h : Books s x)
    (hr : write s id p vecs answers = some r) (hok : vectorsOk (getAddress s id) p vecs)
    (hanswers : ∀ a ∈ answers, a.halvings = 0) (hpending : ∀ w ∈ s.pending, w.cache = id →
      ¬ (p ≤ w.pageIndex ∧ w.pageIndex < p + vecs.sum))
    (hrange : ∃ c, s.caches.lookup id = some c ∧ ∀ q, p ≤ q → q < p + vecs.sum → c.hasIndex q) :
    Books r.1 x := by
  obtain ⟨s₁, hs₁, hr⟩ := Option.bind_eq_some_iff.1 hr
  obtain ⟨s₁', hs₁', hb, hfree, -, hkept, hpending₁⟩ := releaseOld_books h hok
  rw [hs₁'] at hs₁
  cases hs₁
  obtain ⟨c, hl, hr⟩ := Option.bind_eq_some_iff.1 hr
  simp only at hr
  split at hr
  · cases hr
    exact hb
  · next hspace =>
    have hb₁ :
        Books (addAllocated s₁ id (vecs.sum * pageSize)) _ := hb.addAllocated (fun c' hl' => by
      rw [hl] at hl'
      cases hl'
      omega)
    refine writeVectors_books hb₁ (fun q hq hq' => ?_) (fun q hq hq' => ?_) hanswers hr
    · rw [held, getAddress_addAllocated, hfree q hq hq', Option.none_or, pendingSlot,
        pending_addAllocated, hpending₁, Option.map_eq_none_iff, List.find?_eq_none]
      intro w hw
      simp only [decide_eq_true_eq, not_and]
      rintro - hcache hindex
      exact hpending w hw hcache ⟨by omega, by omega⟩
    · obtain ⟨c₀, hl₀, hindex⟩ := hrange
      obtain ⟨a, hl₁⟩ := hkept.trans (addAllocated_cachesKept _ id _) id c₀ hl₀
      exact ⟨_, hl₁, hindex q hq hq'⟩

/-! ## `Resize()` -/

lemma Books.none_of_le (h : Books s 0) (hl : s.caches.lookup id = some c)
    (hle : c.allocatedSwapSize ≤ 0) (p : ℕ) : held s id p = none := by
  have hcount := h.ledger.count id c hl
  have hzero : (heldPages (held s) id).ncard = 0 := by
    simp only [Pi.zero_apply, pageSize] at hcount
    omega
  rw [Set.ncard_eq_zero (h.ledger.finite id)] at hzero
  cases hp : held s id p with
  | none => rfl
  | some slot =>
    have hmem : p ∈ heldPages (held s) id := by
      rw [heldPages, Set.mem_ofPred_eq, hp]
      rfl
    rw [hzero] at hmem
    exact absurd hmem (Set.notMem_empty p)

/-- What `Resize()` does not do: it leaves the slots of busy pages, and where a block is missing,
it does not look at the first page of the next one. -/
structure Droppable (f : ℕ → Option ℕ) (c : AnonymousCache P) (first : ℕ) : Prop where
  notBusy : ∀ p, first ≤ p → (f p).isSome = true → c.isBusy p = false
  noGap : ∀ p, first < p → p % blockPages = 0 → (f p).isSome = true →
    ∃ q, q / blockPages + 1 = p / blockPages ∧ (f q).isSome = true

/-- Where the loop of `Resize()` stands: it has dropped all slots from `first` to `p`. -/
structure Dropping (f : ℕ → Option ℕ) (s : State P) (id first p : ℕ) (hasBlock : Bool) : Prop where
  le : first ≤ p
  dropped : ∀ q, first ≤ q → q < p → getAddress s id q = none
  ahead : ∀ q, p ≤ q → getAddress s id q = f q
  behind : ∀ q, q < first → getAddress s id q = f q
  fresh : hasBlock = false → p = first ∨ p % blockPages = 1 ∧ f (p - 1) = none

variable {first : ℕ}

lemma Dropping.skip {hasBlock : Bool} (h : Dropping f s id first p hasBlock)
    (hf : Droppable f c first) (hlook : hasBlock = false ∨ p % blockPages = 0)
    (hnone : s.blocks.lookup (id, p / blockPages) = none) :
    Dropping f s id first ((p + 1 + (blockPages - 1)) / blockPages * blockPages + 1) false := by
  have haddress : ∀ q, q / blockPages = p / blockPages → getAddress s id q = none := by
    intro q hq
    rw [getAddress, hq, hnone]
    rfl
  -- the block was not there at the beginning either
  have hblock : ∀ q, q / blockPages = p / blockPages → f q = none := by
    intro q hq
    by_cases hp : p ≤ q
    · rw [← h.ahead q hp]
      exact haddress q hq
    · rcases hlook with hfalse | hzero
      · rcases h.fresh hfalse with hfirst | ⟨hone, hf⟩
        · rw [← h.behind q (by omega)]
          exact haddress q hq
        · have hq' : q = p - 1 := by
            simp only [blockPages] at *
            omega
          rw [hq', hf]
      · simp only [blockPages] at *
        omega
  have hnext : f ((p + 1 + (blockPages - 1)) / blockPages * blockPages) = none := by
    cases hp : f ((p + 1 + (blockPages - 1)) / blockPages * blockPages) with
    | none => rfl
    | some slot =>
      have hle := h.le
      obtain ⟨q, hq, hsome⟩ := hf.noGap ((p + 1 + (blockPages - 1)) / blockPages * blockPages)
        (by simp only [blockPages]; omega) (Nat.mul_mod_left _ _) (by rw [hp]; rfl)
      rw [hblock q (by simp only [blockPages] at *; omega)] at hsome
      cases hsome
  refine ⟨?_, fun q hq hq' => ?_, fun q hq => h.ahead q ?_, h.behind, fun _ => Or.inr ⟨?_, ?_⟩⟩
  · have hle := h.le
    simp only [blockPages]
    omega
  · by_cases hlt : q < p
    · exact h.dropped q hq hlt
    · by_cases hin : q / blockPages = p / blockPages
      · exact haddress q hin
      · rw [h.ahead q (by omega), show q = (p + 1 + (blockPages - 1)) / blockPages * blockPages by
          simp only [blockPages] at *
          omega]
        exact hnext
  · simp only [blockPages] at *
    omega
  · simp only [blockPages]
    omega
  · rw [Nat.add_sub_cancel]
    exact hnext

lemma resizeLoop_books (hf : Droppable f c first) (oldPageCount rounds : ℕ) :
    ∀ {s : State P} {p : ℕ} {hasBlock : Bool} {a : ℤ}, Books s 0 →
    Dropping f s id first p hasBlock → oldPageCount < rounds + p →
    s.caches.lookup id = some { c with allocatedSwapSize := a } →
    ∃ s', resizeLoop id oldPageCount rounds s p hasBlock = some s' ∧ Books s' 0 ∧
      (∀ q, first ≤ q → q < oldPageCount → getAddress s' id q = none) ∧
      (∀ q slot, getAddress s' id q = some slot → getAddress s id q = some slot) ∧
      CachesKept s s' ∧ s'.pending = s.pending := by
  induction rounds with
  | zero =>
    intro s p hasBlock a h hd hp hl
    exact ⟨s, rfl, h, fun q hq hq' => hd.dropped q hq (by omega), fun _ _ hq => hq, .of_eq rfl, rfl⟩
  | succ rounds ih =>
    intro s p hasBlock a h hd hp hl
    rw [resizeLoop]
    simp only [hl, Option.bind_eq_bind, Option.bind_some]
    split
    · next hgo =>
      split
      · next hlook =>
        have hlook' : hasBlock = false ∨ p % blockPages = 0 := by simpa using hlook.1
        refine ih h (hd.skip hf hlook' hlook.2) ?_ hl
        simp only [blockPages]
        omega
      · cases haddr : getAddress s id p with
        | none =>
          simp only
          refine ih h ⟨by have := hd.le; omega, fun q hq hq' => ?_, fun q hq => hd.ahead q (by omega),
            hd.behind, fun hfalse => by cases hfalse⟩ (by omega) hl
          by_cases hqp : q = p
          · rw [hqp]
            exact haddr
          · exact hd.dropped q hq (by omega)
        | some slot =>
          have hbusy : c.isBusy p = false := by
            apply hf.notBusy p hd.le
            rw [← hd.ahead p (Nat.le_refl p), haddr]
            rfl
          obtain ⟨s₁, s₂, hs₁, hs₂, hb, haddress, hkept, hpending⟩ :=
            h.releaseCounted (n := 1) haddr (fun k hk => by
              rw [show k = 0 by omega]
              exact haddr)
          rw [Nat.cast_one, one_mul] at hs₂
          obtain ⟨a', hl₂⟩ := hkept id _ hl
          have hdrop : ∀ q, getAddress s₂ id q = if q = p then none else getAddress s id q := by
            intro q
            rw [haddress, drop]
            by_cases hqp : q = p
            · rw [if_pos ⟨rfl, by omega, by omega⟩, if_pos hqp]
            · rw [if_neg (by omega), if_neg hqp]
          have hd₂ : Dropping f s₂ id first (p + 1) true := by
            have hle := hd.le
            refine ⟨by omega, fun q hq hq' => ?_, fun q hq => ?_, fun q hq => ?_,
              fun hfalse => by cases hfalse⟩
            · rw [hdrop]
              split
              · rfl
              · exact hd.dropped q hq (by omega)
            · rw [hdrop, if_neg (by omega)]
              exact hd.ahead q (by omega)
            · rw [hdrop, if_neg (by omega)]
              exact hd.behind q hq
          obtain ⟨s', hs', hb', hnone, hsub, hkept', hpending'⟩ := ih hb hd₂ (by omega) hl₂
          refine ⟨s', ?_, hb', hnone, fun q slot' hq => ?_, hkept.trans hkept',
            hpending'.trans hpending⟩
          · have hbusy' : ({ c with allocatedSwapSize := a } : AnonymousCache P).isBusy p = false :=
              hbusy
            simp only [hbusy', Bool.false_eq_true, if_false, hs₁, hs₂, Option.bind_some]
            exact hs'
          · have hq₂ := hsub q slot' hq
            rw [hdrop] at hq₂
            split at hq₂
            · cases hq₂
            · exact hq₂
    · next hstop =>
      refine ⟨s, rfl, h, fun q hq hq' => ?_, fun _ _ hq => hq, .of_eq rfl, rfl⟩
      by_cases hqp : q < p
      · exact hd.dropped q hq hqp
      · have hle : a ≤ 0 := by
          by_contra hpos
          exact hstop ⟨by omega, by simpa using hpos⟩
        exact getAddress_of_held_none (h.none_of_le hl hle q)

/-! ## Commitments -/

lemma Books.available (h : Books s x) (hs₁ : s₁ = { s with available := s₁.available }) :
    Books s₁ x := by
  rw [hs₁]
  exact ⟨h.blocks, ⟨h.ledger.once, h.ledger.stored, h.ledger.inRange, h.ledger.count⟩, h.apart,
    h.pendingOnce, h.resident, h.le, h.aligned⟩

lemma Books.moved (h : Books s x) (hl : s.caches.lookup id = some c) (ho : OnlySpace s s₁ c c')
    (hle : c.allocatedSwapSize ≤ c'.committedSwapSize) : Books (s₁.setCache id c') x := by
  have h₁ := h.available ho.state
  have hl₁ : s₁.caches.lookup id = some c := by
    rw [ho.state]
    exact hl
  have hset : Books (s₁.setCache id c') (update x id (x id + 0)) := by
    refine h₁.setCache hl₁ (fun p _ hp => ?_) (fun w _ _ hp => ?_) ?_ ?_ ?_
    · rw [ho.cache]
      exact hp
    · rw [ho.cache]
      exact hp
    · rw [ho.cache, add_zero]
    · rw [ho.cache] at hle ⊢
      exact hle
    · rw [ho.cache]
      exact h.aligned id c hl
  rw [add_zero, update_eq_self] at hset
  exact hset

/-- A commitment must not become smaller than what is allocated. The first one of a cache that
overcommits is for its precommitted pages only. -/
def commitOk (c : AnonymousCache P) (size : ℤ) : Prop :=
  c.allocatedSwapSize ≤ size ∧ (c.canOvercommit → c.committedSize < size → c.hasPrecommitted = false →
    c.allocatedSwapSize ≤ c.precommittedPages * pageSize)

lemma commit_swap_ge {size : ℤ} (memory : Bool) (hs : 0 ≤ s.available) (hc : CacheOk c)
    (hle : c.allocatedSwapSize ≤ c.committedSwapSize) (hok : commitOk c size) :
    c.allocatedSwapSize ≤ (commit s c size memory).2.1.committedSwapSize := by
  unfold commit
  split
  · next hgrow =>
    split
    · exact hle
    · next hpre =>
      have hpages := hok.2 hgrow.1 hgrow.2 (by simpa using hpre)
      have hc' : CacheOk { c with hasPrecommitted := true } := ⟨hc.nonneg, hc.le, hc.range⟩
      have hge := commitSpace_swap_ge (min size (c.precommittedPages * pageSize)) memory hs hc'
      have hsize := hok.1
      simp only at hge ⊢
      omega
  · have hge := commitSpace_swap_ge size memory hs hc
    have hsize := hok.1
    omega

lemma Books.allocated_le (h : Books s 0) (hl : s.caches.lookup id = some c) {last : ℕ}
    (hrange : ∀ p, (held s id p).isSome = true → first ≤ p ∧ p < last) :
    c.allocatedSwapSize ≤ pageSize * ((last - first : ℕ) : ℤ) := by
  have hcount := h.ledger.count id c hl
  have hsub : heldPages (held s) id ⊆ Set.Ico first last := fun p hp => hrange p hp
  have hcard := Set.ncard_le_ncard hsub (Set.finite_Ico _ _)
  rw [← Finset.coe_Ico, Set.ncard_coe_finset, Nat.card_Ico] at hcard
  simp only [Pi.zero_apply, pageSize] at hcount ⊢
  omega

lemma dropSwapPages_books {newSize : ℕ} (h : Books s 0) (hl : s.caches.lookup id = some c)
    (hdrop : Droppable (getAddress s id) c (numPages newSize)) :
    ∃ s', dropSwapPages s id newSize c = some s' ∧ Books s' 0 ∧
      (∀ p, numPages newSize ≤ p → getAddress s' id p = none) ∧
      (∀ p slot, getAddress s' id p = some slot → getAddress s id p = some slot) ∧
      CachesKept s s' ∧ s'.pending = s.pending := by
  unfold dropSwapPages
  split
  · have hstart : Dropping (getAddress s id) s id (numPages newSize) (numPages newSize) false :=
      ⟨Nat.le_refl _, fun q hq hq' => by omega, fun _ _ => rfl, fun _ _ => rfl, fun _ => Or.inl rfl⟩
    obtain ⟨s', hs', hb, hnone, hsub, hkept, hpending⟩ := resizeLoop_books hdrop
      (numPages c.virtualEnd) (numPages c.virtualEnd + 1) h hstart (by omega) hl
    refine ⟨s', hs', hb, fun p hp => ?_, hsub, hkept, hpending⟩
    by_cases hlt : p < numPages c.virtualEnd
    · exact hnone p hp hlt
    · -- there are no slots behind the end of the cache
      cases haddress : getAddress s' id p with
      | none => rfl
      | some slot =>
        obtain ⟨c', hl', hindex⟩ :=
          h.ledger.inRange id p slot (held_of_getAddress (hsub p slot haddress))
        rw [hl] at hl'
        cases hl'
        have hend := hindex.2
        simp only [numPages, pageSize] at *
        omega
  · next hzero =>
    refine ⟨s, rfl, h, fun p _ => ?_, fun _ _ hp => hp, .of_eq rfl, rfl⟩
    exact getAddress_of_held_none (h.none_of_le hl (by omega) p)

lemma resize_books {newSize : ℕ} {memory : Bool} {r} (h : Books s 0) (hspace : Conserved s)
    (hr : resize s id newSize memory = some r) (hl : s.caches.lookup id = some c)
    (hbase : c.virtualBase ≤ newSize) (haligned : pageSize ∣ newSize)
    (hdrop : Droppable (getAddress s id) c (numPages newSize))
    (hpending : ∀ w ∈ s.pending, w.cache = id → w.pageIndex < numPages newSize)
    (hcommit : c.canOvercommit → c.committedSize < newSize - c.virtualBase →
      c.hasPrecommitted = false → c.allocatedSwapSize ≤ c.precommittedPages * pageSize) :
    Books r.1 0 := by
  obtain ⟨c', hl', hr⟩ := Option.bind_eq_some_iff.1 hr
  rw [hl] at hl'
  cases hl'
  obtain ⟨s₁, hs₁, hr⟩ := Option.bind_eq_some_iff.1 hr
  obtain ⟨s₁', hs₁', h₁, hnone, hsub, hkept, hpending₁⟩ := dropSwapPages_books h hl hdrop
  rw [hs₁'] at hs₁
  cases hs₁
  have hspace₁ := (dropSwapPages_sameSpace hs₁').conserved hspace
  obtain ⟨c₁, hl₁, hr⟩ := Option.bind_eq_some_iff.1 hr
  obtain ⟨a, hl₁'⟩ := hkept id c hl
  rw [hl₁] at hl₁'
  have hc₁ := Option.some.inj hl₁'
  -- what is held now is in the new range
  have hrange : ∀ p, (held s₁ id p).isSome = true →
      c.virtualBase / pageSize ≤ p ∧ p < numPages newSize := by
    intro p hp
    obtain ⟨slot, hslot⟩ := Option.isSome_iff_exists.1 hp
    obtain ⟨c'', hl'', hindex⟩ := h₁.ledger.inRange id p slot hslot
    rw [hl₁, hc₁] at hl''
    cases hl''
    refine ⟨hindex.1, ?_⟩
    rw [held, Option.or_eq_some_iff] at hslot
    rcases hslot with haddress | ⟨-, hpend⟩
    · by_contra hge
      rw [hnone p (by omega)] at haddress
      cases haddress
    · obtain ⟨w, hw, -, hcache, hindex, -⟩ := pendingSlot_eq_some hpend
      rw [← hindex]
      exact hpending w (hpending₁ ▸ hw) hcache
  have hsize : c₁.allocatedSwapSize ≤ newSize - c₁.virtualBase := by
    have hle := h₁.allocated_le hl₁ hrange
    obtain ⟨k, hk⟩ := (h.aligned id c hl).1
    obtain ⟨m, hm⟩ := haligned
    rw [hc₁] at hle ⊢
    simp only [numPages, pageSize] at *
    omega
  have hmono : c₁.allocatedSwapSize ≤ c.allocatedSwapSize := by
    have hcount := h.ledger.count id c hl
    have hcount₁ := h₁.ledger.count id c₁ hl₁
    have hpages : heldPages (held s₁) id ⊆ heldPages (held s) id := by
      intro p hp
      obtain ⟨slot, hslot⟩ := Option.isSome_iff_exists.1 hp
      rw [held, Option.or_eq_some_iff] at hslot
      rcases hslot with haddress | ⟨-, hpend⟩
      · rw [heldPages, Set.mem_ofPred_eq, held_of_getAddress (hsub p slot haddress)]
        rfl
      · rw [heldPages, Set.mem_ofPred_eq, held, Option.isSome_or]
        have hpend' : pendingSlot s id p = some slot := by
          rw [← hpend, pendingSlot, pendingSlot, hpending₁]
        simp [hpend']
    have hcard := Set.ncard_le_ncard hpages (h.ledger.finite id)
    simp only [Pi.zero_apply, pageSize] at hcount hcount₁
    omega
  have hok : commitOk c₁ (newSize - c₁.virtualBase) := by
    refine ⟨hsize, fun hover hsmall hpre => ?_⟩
    rw [hc₁] at hover hsmall hpre hmono ⊢
    exact Int.le_trans hmono (hcommit hover hsmall hpre)
  have hge := commit_swap_ge memory hspace₁.nonneg (hspace₁.caches id c₁ hl₁) (h₁.le id c₁ hl₁) hok
  have honly := commit_onlySpace s₁ c₁ (newSize - c₁.virtualBase) memory
  split at hr
  · next s₂ c₂ hc₂ =>
    cases hr
    rw [hc₂] at hge honly
    dsimp only at hge honly
    have hl₂ : s₂.caches.lookup id = some c₁ := by
      rw [honly.state]
      exact hl₁
    have hset : Books (s₂.setCache id (resizePages c₂ newSize)) (update 0 id (0 + 0)) := by
      refine (h₁.available honly.state).setCache hl₂ (fun p hp hindex => ?_) (fun w hw hcache hp => ?_)
        ?_ ?_ ?_
      · have hp' := hrange p (by rwa [honly.state] at hp)
        rw [honly.cache]
        refine ⟨hindex.1, ?_⟩
        obtain ⟨m, hm⟩ := haligned
        simp only [resizePages, numPages, pageSize] at *
        omega
      · -- pages that are being written are in the new range
        have hlt := hpending w (by rw [honly.state, hpending₁] at hw; exact hw) hcache
        obtain ⟨page, hpage⟩ := Option.isSome_iff_exists.1 hp
        rw [honly.cache]
        simp only [AnonymousCache.lookupPage, resizePages]
        split
        · rw [Table.lookup_filter hpage (by simp [hlt])]
          rfl
        · exact hp
      · rw [honly.cache]
        simp [resizePages]
      · have heq : (resizePages c₂ newSize).allocatedSwapSize = c₁.allocatedSwapSize := by
          rw [honly.cache]
          rfl
        rw [heq]
        exact hge
      · refine ⟨?_, haligned⟩
        have hb : (resizePages c₂ newSize).virtualBase = c.virtualBase := by
          rw [honly.cache, hc₁]
          rfl
        rw [hb]
        exact (h.aligned id c hl).1
    have hzero : update (0 : ℕ → ℤ) id (0 + 0) = 0 := update_eq_self id 0
    rw [hzero] at hset
    exact hset
  · next s₂ c₂ _ _ hc₂ =>
    cases hr
    rw [hc₂] at hge honly
    exact h₁.moved hl₁ honly hge

/-! ## Deleting a cache -/

lemma releaseAll_books (pages : ℕ) : ∀ {s : State P} {p : ℕ} {toFree : ℤ} {x : ℕ → ℤ}, Books s x →
    (∀ w ∈ s.pending, w.cache ≠ id) →
    toFree = pageSize * ((heldPages (held s) id).ncard : ℤ) →
    (∀ q, (held s id q).isSome = true → p ≤ q ∧ q < p + pages) →
    ∃ s' y, releaseAll id pages s p toFree = some s' ∧ Books s' (update x id y) ∧
      (∀ q, getAddress s' id q = none) ∧ s'.caches = s.caches ∧ s'.pending = s.pending := by
  induction pages with
  | zero =>
    intro s p toFree x h _ hfree hrange
    refine ⟨s, x id, rfl, by rwa [update_eq_self], fun q => ?_, rfl, rfl⟩
    cases hq : getAddress s id q with
    | none => rfl
    | some slot =>
      have := hrange q (by rw [held_of_getAddress hq]; rfl)
      omega
  | succ pages ih =>
    intro s p toFree x h hnone hfree hrange
    rw [releaseAll]
    split
    · next hpos =>
      cases hp : getAddress s id p with
      | none =>
        have hpend : held s id p = none := by
          rw [held, hp, Option.none_or]
          cases hs : pendingSlot s id p with
          | none => rfl
          | some slot =>
            obtain ⟨w, hw, -, hcache, -⟩ := pendingSlot_eq_some hs
            exact absurd hcache (hnone w hw)
        refine ih h hnone hfree (fun q hq => ?_)
        have hq' := hrange q hq
        by_cases hqp : q = p
        · rw [hqp, hpend] at hq
          cases hq
        · omega
      | some slot =>
        obtain ⟨s₁, s₂, hs₁, hs₂, hb, -, hcaches, hpending, hheld⟩ := h.release (n := 1) hp
          (fun k hk => by rw [show k = 0 by omega]; exact hp)
        -- one page less is held
        have hcard : toFree - pageSize = pageSize * ((heldPages (held s₂) id).ncard : ℤ) := by
          obtain ⟨c, hl, -⟩ := h.ledger.inRange id p slot (held_of_getAddress hp)
          have hcount := h.ledger.count id c hl
          have hcount₂ := hb.ledger.count id c (by rwa [hcaches])
          rw [update_self] at hcount₂
          simp only [pageSize] at *
          omega
        have hrange₂ : ∀ q, (held s₂ id q).isSome = true → p + 1 ≤ q ∧ q < p + 1 + pages := by
          intro q hq
          rw [hheld, drop] at hq
          split at hq
          · cases hq
          · have hq' := hrange q hq
            omega
        obtain ⟨s', y, hs', hb', hnone', hcaches', hpending'⟩ :=
          ih hb (by rwa [hpending]) hcard hrange₂
        refine ⟨s', y, ?_, by rwa [update_idem] at hb', hnone', hcaches'.trans hcaches,
          hpending'.trans hpending⟩
        simp only [hs₁, hs₂, Option.bind_eq_bind, Option.bind_some]
        exact hs'
    · next hstop =>
      refine ⟨s, x id, rfl, by rwa [update_eq_self], fun q => ?_, rfl, rfl⟩
      have hzero : (heldPages (held s) id).ncard = 0 := by
        simp only [pageSize] at hfree
        omega
      rw [Set.ncard_eq_zero (h.ledger.finite id)] at hzero
      cases hq : getAddress s id q with
      | none => rfl
      | some slot =>
        have hmem : q ∈ heldPages (held s) id := by
          rw [heldPages, Set.mem_ofPred_eq, held_of_getAddress hq]
          rfl
        rw [hzero] at hmem
        exact absurd hmem (Set.notMem_empty q)

lemma destroy_books (h : Books s 0) (hs' : destroy s id = some s')
    (hpending : ∀ w ∈ s.pending, w.cache ≠ id) : Books s' 0 := by
  obtain ⟨c, hl, hs'⟩ := Option.bind_eq_some_iff.1 hs'
  obtain ⟨s₁, hs₁, hs'⟩ := Option.bind_eq_some_iff.1 hs'
  have hrange : ∀ q, (held s id q).isSome = true → c.virtualBase / pageSize ≤ q ∧
      q < c.virtualBase / pageSize + numPages (c.virtualEnd - c.virtualBase) := by
    intro q hq
    obtain ⟨slot, hslot⟩ := Option.isSome_iff_exists.1 hq
    obtain ⟨c', hl', hindex⟩ := h.ledger.inRange id q slot hslot
    rw [hl] at hl'
    cases hl'
    obtain ⟨⟨k, hk⟩, ⟨m, hm⟩⟩ := h.aligned id c hl
    have hbase := hindex.1
    have hend := hindex.2
    refine ⟨hbase, ?_⟩
    simp only [numPages, pageSize] at *
    omega
  have hcount := h.ledger.count id c hl
  rw [Pi.zero_apply, add_zero] at hcount
  obtain ⟨s₁', y, hs₁', h₁, hnone, hcaches, hpending₁⟩ :=
    releaseAll_books (numPages (c.virtualEnd - c.virtualBase)) h hpending hcount hrange
  rw [hs₁'] at hs₁
  cases hs₁
  cases hs'
  have hheld : ∀ q, held s₁ id q = none := by
    intro q
    rw [held, hnone q, Option.none_or]
    cases hq : pendingSlot s₁ id q with
    | none => rfl
    | some slot =>
      obtain ⟨w, hw, -, hcache, -⟩ := pendingSlot_eq_some hq
      exact absurd hcache (hpending w (hpending₁ ▸ hw))
  refine ⟨h₁.blocks, ⟨h₁.ledger.once, h₁.ledger.stored, ?_, ?_⟩, h₁.apart, h₁.pendingOnce, ?_, ?_, ?_⟩
  · intro id' q slot hq
    obtain ⟨c', hl', hindex⟩ := h₁.ledger.inRange id' q slot hq
    have hid : id' ≠ id := by
      rintro rfl
      have hq' : held s₁ id' q = some slot := hq
      rw [hheld q] at hq'
      cases hq'
    exact ⟨c', (AList.lookup_erase_ne hid).trans hl', hindex⟩
  · intro id' c' hl'
    obtain ⟨hid, hl'⟩ := Table.lookup_of_erase hl'
    have hcount' := h₁.ledger.count id' c' hl'
    rw [update_of_ne hid] at hcount'
    exact hcount'
  · intro w hw
    obtain ⟨c', hl', hres⟩ := h₁.resident w hw
    have hid : w.cache ≠ id := hpending w (hpending₁ ▸ hw)
    exact ⟨c', (AList.lookup_erase_ne hid).trans hl', hres⟩
  · exact Table.forall_lookup_erase h₁.le
  · exact Table.forall_lookup_erase h₁.aligned

end Haiku.Swap
