import Haiku.Swap.SlotTheorems
import Mathlib.Data.Set.Card
import Mathlib.Order.Interval.Finset.Nat

/-!
# Who holds which slot

A cache holds a slot for a page when a block refers to it, or when a write into a new slot is
still in flight (`held`). `Ledger` says that nobody else holds that slot, and that the caches
count what they hold. In the course of a call the count may be off by some amount, which is an
argument.
-/

namespace Haiku.Swap

open Function Lib

variable {P : Type} {s s' : State P} {id : ℕ}

/-- The slot of a write in flight that gives a page a new slot. -/
def pendingSlot (s : State P) (id p : ℕ) : Option ℕ :=
  (s.pending.find? fun w => w.newSlot ∧ w.cache = id ∧ w.pageIndex = p).map (·.slot)

def held (s : State P) (id p : ℕ) : Option ℕ := (getAddress s id p).or (pendingSlot s id p)

def heldPages (f : ℕ → ℕ → Option ℕ) (id : ℕ) : Set ℕ := {p | (f id p).isSome = true}

/-- The slots `f` that are held, as far as the bitmaps and the caches of a state know of them.
The count of a cache is `x` more than what it holds. -/
structure Ledger (f : ℕ → ℕ → Option ℕ) (s : State P) (x : ℕ → ℤ) : Prop where
  once : ∀ id p id' p' slot, f id p = some slot → f id' p' = some slot → id = id' ∧ p = p'
  stored : ∀ id p slot, f id p = some slot → s.allocated slot = true ∧ s.hasSlot slot = true
  inRange : ∀ id p slot, f id p = some slot → ∃ c, s.caches.lookup id = some c ∧ c.hasIndex p
  count : ∀ id c, s.caches.lookup id = some c →
    c.allocatedSwapSize = pageSize * (heldPages f id).ncard + x id

variable {f : ℕ → ℕ → Option ℕ} {x : ℕ → ℤ}

lemma Ledger.finite (h : Ledger f s x) (id : ℕ) : (heldPages f id).Finite := by
  by_cases hempty : ∃ p, p ∈ heldPages f id
  · obtain ⟨p, hp⟩ := hempty
    obtain ⟨slot, hslot⟩ := Option.isSome_iff_exists.1 hp
    obtain ⟨c, hc, -⟩ := h.inRange id p slot hslot
    refine (Set.finite_Iio c.virtualEnd).subset fun q hq => ?_
    obtain ⟨slot', hslot'⟩ := Option.isSome_iff_exists.1 hq
    obtain ⟨c', hc', hindex⟩ := h.inRange id q slot' hslot'
    rw [hc] at hc'
    cases hc'
    have hend := hindex.2
    simp only [pageSize] at hend
    simp only [Set.mem_Iio]
    omega
  · rw [Set.eq_empty_of_forall_notMem fun p hp => hempty ⟨p, hp⟩]
    exact Set.finite_empty

def hold (f : ℕ → ℕ → Option ℕ) (id start slot count : ℕ) (id' p : ℕ) : Option ℕ :=
  if id' = id ∧ start ≤ p ∧ p < start + count then some (slot + (p - start)) else f id' p

/-- A cache gives up the slots of consecutive pages. -/
def drop (f : ℕ → ℕ → Option ℕ) (id start count : ℕ) (id' p : ℕ) : Option ℕ :=
  if id' = id ∧ start ≤ p ∧ p < start + count then none else f id' p

lemma heldPages_hold (f : ℕ → ℕ → Option ℕ) (id start slot count : ℕ) :
    heldPages (hold f id start slot count) id = heldPages f id ∪ Set.Ico start (start + count) := by
  ext p
  simp only [heldPages, hold, Set.mem_ofPred_eq, Set.mem_union, Set.mem_Ico, true_and]
  split
  · next hp => simp [hp]
  · next hp => simp [hp]

lemma heldPages_hold_of_ne {id' : ℕ} (f : ℕ → ℕ → Option ℕ) (start slot count : ℕ)
    (h : id' ≠ id) : heldPages (hold f id start slot count) id' = heldPages f id' := by
  ext p
  simp [heldPages, hold, h]

lemma heldPages_drop (f : ℕ → ℕ → Option ℕ) (id start count : ℕ) :
    heldPages (drop f id start count) id = heldPages f id \ Set.Ico start (start + count) := by
  ext p
  simp only [heldPages, drop, Set.mem_ofPred_eq, Set.mem_sdiff, Set.mem_Ico, true_and]
  split
  · next hp => simp [hp]
  · next hp => simp [hp]

lemma heldPages_drop_of_ne {id' : ℕ} (f : ℕ → ℕ → Option ℕ) (start count : ℕ) (h : id' ≠ id) :
    heldPages (drop f id start count) id' = heldPages f id' := by
  ext p
  simp [heldPages, drop, h]

lemma ncard_Ico (start count : ℕ) : (Set.Ico start (start + count)).ncard = count := by
  rw [← Finset.coe_Ico, Set.ncard_coe_finset, Nat.card_Ico]
  omega

lemma Ledger.hold {start slot count : ℕ} (h : Ledger f s x)
    (hfree : ∀ p, start ≤ p → p < start + count → f id p = none)
    (hslots : ∀ i, i < count → s.allocated (slot + i) = false)
    (hstored : ∀ i, i < count → s'.allocated (slot + i) = true ∧ s'.hasSlot (slot + i) = true)
    (hmono : ∀ y, s.allocated y = true → s.hasSlot y = true →
      s'.allocated y = true ∧ s'.hasSlot y = true)
    (hcaches : s'.caches = s.caches)
    (hrange : ∀ p, start ≤ p → p < start + count →
      ∃ c, s.caches.lookup id = some c ∧ c.hasIndex p) :
    Ledger (hold f id start slot count) s'
      (update x id (x id - count * pageSize)) := by
  -- a slot that was held before is none of the new ones
  have hnew : ∀ id' p' i, i < count → f id' p' ≠ some (slot + i) := by
    intro id' p' i hi hf
    have hs := (h.stored id' p' _ hf).1
    rw [hslots i hi] at hs
    cases hs
  refine ⟨?_, ?_, ?_, ?_⟩
  · intro id₁ p₁ id₂ p₂ y h₁ h₂
    unfold Swap.hold at h₁ h₂
    split at h₁
    · next hp₁ =>
      cases h₁
      split at h₂
      · next hp₂ =>
        have heq := Option.some.inj h₂
        exact ⟨hp₁.1.trans hp₂.1.symm, by omega⟩
      · exact absurd h₂ (hnew id₂ p₂ _ (by omega))
    · split at h₂
      · next hp₂ =>
        cases h₂
        exact absurd h₁ (hnew id₁ p₁ _ (by omega))
      · exact h.once id₁ p₁ id₂ p₂ y h₁ h₂
  · intro id' p y hy
    unfold Swap.hold at hy
    split at hy
    · cases hy
      exact hstored _ (by omega)
    · have hs := h.stored id' p y hy
      exact hmono y hs.1 hs.2
  · intro id' p y hy
    rw [hcaches]
    unfold Swap.hold at hy
    split at hy
    · next hp =>
      rw [hp.1]
      exact hrange p hp.2.1 hp.2.2
    · exact h.inRange id' p y hy
  · intro id' c hc
    rw [hcaches] at hc
    have hcount := h.count id' c hc
    by_cases hid : id' = id
    · subst hid
      have hdisj : Disjoint (heldPages f id') (Set.Ico start (start + count)) := by
        rw [Set.disjoint_left]
        intro p hp hp'
        rw [heldPages, Set.mem_ofPred_eq, hfree p hp'.1 hp'.2] at hp
        cases hp
      rw [heldPages_hold, Set.ncard_union_eq hdisj (h.finite id') (Set.finite_Ico _ _), ncard_Ico,
        update_self, hcount]
      push_cast
      ring
    · rw [heldPages_hold_of_ne _ _ _ _ hid, update_of_ne hid]
      exact hcount

lemma Ledger.drop (id start count : ℕ) (h : Ledger f s x)
    (hall : ∀ p, start ≤ p → p < start + count → (f id p).isSome = true)
    (hstored : ∀ id' p y, Swap.drop f id start count id' p = some y → s.allocated y = true →
      s'.allocated y = true)
    (hfiles : s'.files = s.files) (hcaches : s'.caches = s.caches) :
    Ledger (drop f id start count) s' (update x id (x id + count * pageSize)) := by
  have hold : ∀ {id' p y}, Swap.drop f id start count id' p = some y → f id' p = some y := by
    intro id' p y hy
    unfold Swap.drop at hy
    split at hy
    · cases hy
    · exact hy
  refine ⟨fun id₁ p₁ id₂ p₂ y h₁ h₂ => h.once id₁ p₁ id₂ p₂ y (hold h₁) (hold h₂), ?_, ?_, ?_⟩
  · intro id' p y hy
    have hs := h.stored id' p y (hold hy)
    refine ⟨hstored id' p y hy hs.1, ?_⟩
    rw [State.hasSlot, hfiles]
    exact hs.2
  · intro id' p y hy
    rw [hcaches]
    exact h.inRange id' p y (hold hy)
  · intro id' c hc
    rw [hcaches] at hc
    have hcount := h.count id' c hc
    by_cases hid : id' = id
    · subst hid
      have hsub : Set.Ico start (start + count) ⊆ heldPages f id' := fun p hp => hall p hp.1 hp.2
      have hncard := Set.ncard_sdiff_add_ncard_of_subset hsub (h.finite id')
      rw [ncard_Ico] at hncard
      rw [heldPages_drop, update_self, hcount, ← hncard]
      push_cast
      ring
    · rw [heldPages_drop_of_ne _ _ _ hid, update_of_ne hid]
      exact hcount

end Haiku.Swap
