import Haiku.Swap.WriteTheorems

/-!
# What `Resize()` drops

Which slots the loop of `VMAnonymousCache::Resize()` gives back when a cache shrinks: those of all
pages beyond the new size, apart from the pages that it jumps over.
-/

namespace Haiku.Swap

open Lib

variable {P : Type} {s s' : State P} {id : ℕ} {c : AnonymousCache P} {a : ℤ}

def swappedPages (s : State P) (id : ℕ) : Set ℕ := {p | (getAddress s id p).isSome = true}

/-- What a cache and its swap blocks keep: the blocks are in order, all slots are slots of a swap
file, and all of them are counted. -/
structure Swapped (s : State P) (id : ℕ) (c : AnonymousCache P) : Prop where
  cache : s.caches.lookup id = some c
  blocks : BlocksOk s
  stored : ∀ p slot, getAddress s id p = some slot → s.hasSlot slot = true
  finite : (swappedPages s id).Finite
  counted : ((swappedPages s id).ncard * pageSize : ℤ) ≤ c.allocatedSwapSize

lemma Swapped.none_of_le (h : Swapped s id c) (hle : c.allocatedSwapSize ≤ 0) (p : ℕ) :
    getAddress s id p = none := by
  have hcounted := h.counted
  have hzero : (swappedPages s id).ncard = 0 := by
    simp only [pageSize] at hcounted
    omega
  rw [Set.ncard_eq_zero h.finite] at hzero
  have hp : p ∉ swappedPages s id := by
    rw [hzero]
    exact Set.notMem_empty p
  exact Option.not_isSome_iff_eq_none.1 hp

lemma lookup_eq_none_iff (h : BlocksOk s) (id block : ℕ) :
    s.blocks.lookup (id, block) = none ↔ ∀ p, p / blockPages = block → getAddress s id p = none := by
  constructor
  · rintro hnone p rfl
    rw [getAddress, hnone]
    rfl
  · intro hall
    cases hb : s.blocks.lookup (id, block) with
    | none => rfl
    | some b =>
      obtain ⟨i, -, hi⟩ := List.countP_pos_iff.1 (h _ b hb).pos
      have hnone := hall (pageOf block i) (pageOf_div block i)
      rw [getAddress_pageOf, slotAt, hb] at hnone
      change b.slots i = none at hnone
      rw [hnone] at hi
      cases hi

variable {p : ℕ}

lemma Swapped.drop {slot : ℕ} (h : Swapped s id c) (hp : getAddress s id p = some slot) :
    ∃ s₁ s₂, swapSlotDealloc s slot 1 = some s₁ ∧
      swapBlockFree (addAllocated s₁ id (-pageSize)) id p 1 = some s₂ ∧
      Swapped s₂ id { c with allocatedSwapSize := c.allocatedSwapSize + -pageSize } ∧
      (∀ q, getAddress s₂ id q = if q = p then none else getAddress s id q) ∧
      s₂.allocated = fun x => !decide (slot ≤ x ∧ x < slot + 1) && s.allocated x := by
  have hdealloc : swapSlotDealloc s slot 1 = some { s with
      allocated := fun x => !decide (slot ≤ x ∧ x < slot + 1) && s.allocated x } :=
    if_pos (h.stored p slot hp)
  set s₁ : State P := { s with
    allocated := fun x => !decide (slot ≤ x ∧ x < slot + 1) && s.allocated x }
  have hcount : addAllocated s₁ id (-pageSize) =
      s₁.setCache id { c with allocatedSwapSize := c.allocatedSwapSize + -pageSize } := by
    unfold addAllocated
    rw [show s₁.caches.lookup id = some c from h.cache]
  have haddress : ∀ q, getAddress (addAllocated s₁ id (-pageSize)) id q = getAddress s id q := by
    intro q
    rw [getAddress_addAllocated]
    rfl
  have hsome : (getAddress (addAllocated s₁ id (-pageSize)) id p).isSome = true := by
    rw [haddress, hp]
    rfl
  obtain ⟨s₂, hs₂, hchanged⟩ := swapBlockFree_changed (s := addAllocated s₁ id (-pageSize)) id p 1
    (by rw [hcount]; exact h.blocks)
    (fun q hq hq' => by rw [show q = p by omega]; exact hsome) hsome
  have hslots : ∀ q, getAddress s₂ id q = if q = p then none else getAddress s id q := by
    intro q
    split
    · next hq => exact hchanged.changed q (by omega) (by omega)
    · next hq => rw [hchanged.kept q (by omega), haddress]
  have hpages : swappedPages s₂ id = swappedPages s id \ {p} := by
    ext q
    show (getAddress s₂ id q).isSome = true ↔ (getAddress s id q).isSome = true ∧ q ≠ p
    rw [hslots]
    split
    · next hq => simp [hq]
    · next hq => simp [hq]
  have hmem : p ∈ swappedPages s id := by
    show (getAddress s id p).isSome = true
    rw [hp]
    rfl
  refine ⟨s₁, s₂, hdealloc, hs₂, ⟨?_, hchanged.ok, fun q slot' hq => ?_, ?_, ?_⟩, hslots, ?_⟩
  · rw [hchanged.state, hcount]
    exact AList.lookup_insert _
  · rw [hchanged.state, hcount]
    rw [hslots] at hq
    split at hq
    · cases hq
    · exact h.stored q slot' hq
  · rw [hpages]
    exact h.finite.subset Set.sdiff_subset
  · have hcard := Set.ncard_sdiff_singleton_add_one hmem h.finite
    have hcounted := h.counted
    rw [hpages]
    simp only [pageSize] at hcounted ⊢
    omega
  · rw [hchanged.state]
    dsimp only
    rw [allocated_addAllocated]

/-! ## The loop -/

/-- The loop jumps from a block that is not there behind the first page of the next one. -/
def IsJumped (f : ℕ → Option ℕ) (first p : ℕ) : Prop :=
  first < p ∧ p % blockPages = 0 ∧ ∀ q, q / blockPages + 1 = p / blockPages → f q = none

/-- Where the loop stands: it has dropped the slots from `first` to `p` that it has not jumped
over, and not changed the others. -/
structure Walking (f : ℕ → Option ℕ) (s : State P) (id first old p : ℕ) (hasBlock : Bool) :
    Prop where
  le : first ≤ p
  dropped : ∀ q, first ≤ q → q < p → ¬IsJumped f first q → getAddress s id q = none
  freed : ∀ q slot, first ≤ q → q < p → ¬IsJumped f first q → f q = some slot →
    s.allocated slot = false
  ahead : ∀ q, p ≤ q → getAddress s id q = f q
  kept : ∀ q, q < first ∨ old ≤ q ∨ IsJumped f first q → getAddress s id q = f q
  fresh : hasBlock = false → p = first ∨ p % blockPages = 1 ∧ IsJumped f first (p - 1)
  inBlock : hasBlock = true → first < p ∧ ∃ q, q / blockPages = (p - 1) / blockPages ∧
    (f q).isSome = true

variable {f : ℕ → Option ℕ} {first old : ℕ} {hasBlock : Bool}

section

variable (h : Walking f s id first old p hasBlock)
include h

lemma Walking.notJumped : ¬IsJumped f first p := by
  rintro ⟨hlt, hzero, hnone⟩
  cases hasBlock with
  | false =>
    rcases h.fresh rfl with hfirst | ⟨hone, -⟩
    · omega
    · omega
  | true =>
    obtain ⟨-, q, hq, hsome⟩ := h.inBlock rfl
    rw [hnone q (by simp only [blockPages] at *; omega)] at hsome
    cases hsome

lemma Walking.none_of_look (hlook : hasBlock = false ∨ p % blockPages = 0)
    (hnone : ∀ q, q / blockPages = p / blockPages → getAddress s id q = none) (q : ℕ)
    (hq : q / blockPages = p / blockPages) : f q = none := by
  by_cases hp : p ≤ q
  · rw [← h.ahead q hp]
    exact hnone q hq
  · rcases hlook with hfalse | hzero
    · rcases h.fresh hfalse with hfirst | ⟨hone, hjumped⟩
      · rw [← h.kept q (.inl (by omega))]
        exact hnone q hq
      · have hq' : q = p - 1 := by
          simp only [blockPages] at *
          omega
        rw [hq', ← h.kept (p - 1) (.inr (.inr hjumped)), ← hq']
        exact hnone q hq
    · simp only [blockPages] at *
      omega

lemma Walking.jump (hlook : hasBlock = false ∨ p % blockPages = 0)
    (hnone : ∀ q, q / blockPages = p / blockPages → getAddress s id q = none) :
    Walking f s id first old ((p + 1 + (blockPages - 1)) / blockPages * blockPages + 1) false := by
  have hblock := h.none_of_look hlook hnone
  have hle := h.le
  set next := (p + 1 + (blockPages - 1)) / blockPages * blockPages with hnext
  have hjumped : IsJumped f first next := by
    refine ⟨?_, Nat.mul_mod_left _ _, fun q hq => hblock q ?_⟩
    · simp only [blockPages] at *
      omega
    · simp only [blockPages] at *
      omega
  have hbetween : ∀ q, p ≤ q → q < next + 1 → q = next ∨ q / blockPages = p / blockPages := by
    intro q hq hq'
    simp only [blockPages] at *
    omega
  refine ⟨?_, fun q hq hq' hnot => ?_, fun q slot hq hq' hnot hslot => ?_, fun q hq => h.ahead q ?_,
    h.kept, fun _ => .inr ⟨?_, ?_⟩, fun htrue => by cases htrue⟩
  · simp only [blockPages] at *
    omega
  · by_cases hlt : q < p
    · exact h.dropped q hq hlt hnot
    · rcases hbetween q (by omega) hq' with rfl | hin
      · exact absurd hjumped hnot
      · exact hnone q hin
  · by_cases hlt : q < p
    · exact h.freed q slot hq hlt hnot hslot
    · rcases hbetween q (by omega) hq' with rfl | hin
      · exact absurd hjumped hnot
      · rw [hblock q hin] at hslot
        cases hslot
  · simp only [blockPages] at *
    omega
  · simp only [blockPages] at *
    omega
  · rwa [Nat.add_sub_cancel]

lemma Walking.next (hp : p < old)
    (hblock : ∃ q, q / blockPages = p / blockPages ∧ (f q).isSome = true)
    (hslots : ∀ q, getAddress s' id q = if q = p then none else getAddress s id q)
    (hallocated : ∀ x, s'.allocated x = true → s.allocated x = true)
    (hfreed : ∀ slot, f p = some slot → s'.allocated slot = false) :
    Walking f s' id first old (p + 1) true := by
  have hle := h.le
  have hnot := h.notJumped
  refine ⟨by omega, fun q hq hq' hjumped => ?_, fun q slot hq hq' hjumped hslot => ?_,
    fun q hq => ?_, fun q hq => ?_, fun hfalse => absurd hfalse (by decide),
    fun _ => ⟨by omega, ?_⟩⟩
  · rw [hslots]
    split
    · rfl
    · exact h.dropped q hq (by omega) hjumped
  · by_cases hqp : q = p
    · exact hfreed slot (hqp ▸ hslot)
    · have hfree := h.freed q slot hq (by omega) hjumped hslot
      by_contra hcon
      rw [Bool.not_eq_false] at hcon
      rw [hallocated slot hcon] at hfree
      cases hfree
  · rw [hslots, if_neg (by omega)]
    exact h.ahead q (by omega)
  · have hqp : q ≠ p := by
      rintro rfl
      rcases hq with hq | hq | hq
      · omega
      · omega
      · exact hnot hq
    rw [hslots, if_neg hqp]
    exact h.kept q hq
  · rwa [Nat.add_sub_cancel]

end

structure Walked (f : ℕ → Option ℕ) (s : State P) (id first old : ℕ) : Prop where
  dropped : ∀ q, first ≤ q → q < old → ¬IsJumped f first q → getAddress s id q = none
  freed : ∀ q slot, first ≤ q → q < old → ¬IsJumped f first q → f q = some slot →
    s.allocated slot = false
  kept : ∀ q, q < first ∨ old ≤ q ∨ IsJumped f first q → getAddress s id q = f q

lemma resizeLoop_walked (hbusy : ∀ p, c.isBusy p = false) (rounds : ℕ) :
    ∀ {s : State P} {p : ℕ} {hasBlock : Bool}
    {a : ℤ}, Swapped s id { c with allocatedSwapSize := a } →
    Walking f s id first old p hasBlock → old < rounds + p →
    ∃ s' a', resizeLoop id old rounds s p hasBlock = some s' ∧ Walked f s' id first old ∧
      Swapped s' id { c with allocatedSwapSize := a' } := by
  induction rounds with
  | zero =>
    intro s p hasBlock a hs h hp
    exact ⟨s, a, rfl, ⟨fun q hq hq' => h.dropped q hq (by omega),
      fun q slot hq hq' => h.freed q slot hq (by omega), h.kept⟩, hs⟩
  | succ rounds ih =>
    intro s p hasBlock a hs h hp
    rw [resizeLoop]
    simp only [hs.cache, Option.bind_eq_bind, Option.bind_some]
    split
    · next hgo =>
      split
      · next hlook =>
        have hlook' : hasBlock = false ∨ p % blockPages = 0 := by simpa using hlook.1
        have hnone := (lookup_eq_none_iff hs.blocks id _).1 hlook.2
        refine ih hs (h.jump hlook' hnone) ?_
        simp only [blockPages]
        omega
      · next hlook =>
        -- The block is there, or was when the loop came to it.
        have hblock : ∃ q, q / blockPages = p / blockPages ∧ (f q).isSome = true := by
          by_cases hlook' : hasBlock = false ∨ p % blockPages = 0
          · by_contra hcon
            apply hlook
            refine ⟨by simpa using hlook', (lookup_eq_none_iff hs.blocks id _).2 fun q hq => ?_⟩
            cases hslot : getAddress s id q with
            | none => rfl
            | some slot =>
              have hf : f q = some slot := by
                by_cases hqp : p ≤ q
                · rw [← h.ahead q hqp, hslot]
                · by_cases hjumped : IsJumped f first q
                  · rw [← h.kept q (.inr (.inr hjumped)), hslot]
                  · by_cases hq' : first ≤ q
                    · rw [h.dropped q hq' (by omega) hjumped] at hslot
                      cases hslot
                    · rw [← h.kept q (.inl (by omega)), hslot]
              exact absurd ⟨q, hq, by rw [hf]; rfl⟩ hcon
          · rw [not_or, Bool.not_eq_false] at hlook'
            obtain ⟨hlt, q, hq, hsome⟩ := h.inBlock hlook'.1
            refine ⟨q, ?_, hsome⟩
            simp only [blockPages] at *
            omega
        cases haddr : getAddress s id p with
        | none =>
          have hsame : ∀ x, s.allocated x = true → s.allocated x = true := fun _ hx => hx
          refine ih hs (h.next hgo.1 hblock (fun q => ?_) hsame fun slot hslot => ?_) (by omega)
          · split
            · next hq => rw [hq, haddr]
            · rfl
          · rw [← h.ahead p le_rfl, haddr] at hslot
            cases hslot
        | some slot =>
          have hbusy' : ({ c with allocatedSwapSize := a } : AnonymousCache P).isBusy p = false :=
            hbusy p
          obtain ⟨s₁, s₂, hs₁, hs₂, hswapped, hslots, hallocated⟩ := hs.drop haddr
          simp only [hbusy', Bool.false_eq_true, if_false, hs₁, hs₂, Option.bind_some]
          refine ih hswapped (h.next hgo.1 hblock hslots (fun x hx => ?_) fun slot' hslot => ?_)
            (by omega)
          · rw [hallocated, Bool.and_eq_true] at hx
            exact hx.2
          · rw [← h.ahead p le_rfl, haddr, Option.some.injEq] at hslot
            rw [hallocated, ← hslot]
            dsimp only
            rw [decide_eq_true ⟨le_rfl, Nat.lt_succ_self _⟩]
            rfl
    · next hstop =>
      refine ⟨s, a, rfl, ?_, hs⟩
      by_cases hold : old ≤ p
      · exact ⟨fun q hq hq' => h.dropped q hq (by omega),
          fun q slot hq hq' => h.freed q slot hq (by omega), h.kept⟩
      · -- Nothing is counted anymore.
        have hle : a ≤ 0 := by
          by_contra hpos
          exact hstop ⟨by omega, by simpa using hpos⟩
        have hnone := hs.none_of_le hle
        refine ⟨fun q _ _ _ => hnone q, fun q slot hq hq' hnot hslot => ?_, h.kept⟩
        by_cases hlt : q < p
        · exact h.freed q slot hq hlt hnot hslot
        · rw [← h.ahead q (by omega), hnone] at hslot
          cases hslot

/-! ## The call -/

/-- What `Resize()` has to achieve: no page from `first` on has a slot, the slots that these pages
had are free, and the slots of the pages before are the same. -/
structure Dropped (s s' : State P) (id first : ℕ) : Prop where
  gone : ∀ p, first ≤ p → getAddress s' id p = none
  freed : ∀ p slot, first ≤ p → getAddress s id p = some slot → s'.allocated slot = false
  kept : ∀ p, p < first → getAddress s' id p = getAddress s id p

lemma Walked.dropped_iff (hf : f = getAddress s id) (h : Walked f s' id first old)
    (hle : first ≤ old) :
    Dropped s s' id first ↔ (∀ p, old ≤ p → getAddress s id p = none) ∧
      ∀ p, p < old → IsJumped (getAddress s id) first p → getAddress s id p = none := by
  subst hf
  constructor
  · intro hdropped
    refine ⟨fun p hp => ?_, fun p hp hjumped => ?_⟩
    · rw [← h.kept p (.inr (.inl hp))]
      exact hdropped.gone p (by omega)
    · rw [← h.kept p (.inr (.inr hjumped))]
      exact hdropped.gone p hjumped.1.le
  · rintro ⟨hbehind, hjumped⟩
    refine ⟨fun p hp => ?_, fun p slot hp hslot => ?_, fun p hp => h.kept p (.inl hp)⟩
    · by_cases hin : p < old
      · by_cases hjump : IsJumped (getAddress s id) first p
        · rw [h.kept p (.inr (.inr hjump))]
          exact hjumped p hin hjump
        · exact h.dropped p hp hin hjump
      · rw [h.kept p (.inr (.inl (by omega)))]
        exact hbehind p (by omega)
    · by_cases hin : p < old
      · by_cases hjump : IsJumped (getAddress s id) first p
        · rw [hjumped p hin hjump] at hslot
          cases hslot
        · exact h.freed p slot hp hin hjump hslot
      · rw [hbehind p (by omega)] at hslot
        cases hslot

lemma dropSwapPages_walked (newSize : ℕ) (h : Swapped s id c)
    (hbusy : ∀ p, c.isBusy p = false) :
    ∃ s' a', dropSwapPages s id newSize c = some s' ∧
      Walked (getAddress s id) s' id (numPages newSize) (numPages c.virtualEnd) ∧
      Swapped s' id { c with allocatedSwapSize := a' } := by
  unfold dropSwapPages
  split
  · refine resizeLoop_walked hbusy (numPages c.virtualEnd + 1)
      (a := c.allocatedSwapSize) h ?_ (by omega)
    exact ⟨le_rfl, fun q hq hq' => absurd hq (Nat.not_le.2 hq'),
      fun q _ hq hq' => absurd hq (Nat.not_le.2 hq'), fun _ _ => rfl, fun _ _ => rfl,
      fun _ => .inl rfl, fun htrue => by cases htrue⟩
  · next hzero =>
    have hnone := h.none_of_le (Int.not_lt.1 hzero)
    refine ⟨s, c.allocatedSwapSize, rfl, ⟨fun q _ _ _ => hnone q, fun q slot _ _ _ hslot => ?_,
      fun _ _ => rfl⟩, h⟩
    rw [hnone] at hslot
    cases hslot

lemma Dropped.congr {s₁ s₂ : State P} (hblocks : s₂.blocks = s₁.blocks)
    (hallocated : s₂.allocated = s₁.allocated) : Dropped s s₂ id first ↔ Dropped s s₁ id first := by
  have haddress : getAddress s₂ id = getAddress s₁ id := by
    funext p
    rw [getAddress, getAddress, hblocks]
  constructor
  · rintro ⟨hgone, hfreed, hkept⟩
    rw [haddress] at hgone hkept
    rw [hallocated] at hfreed
    exact ⟨hgone, hfreed, hkept⟩
  · rintro ⟨hgone, hfreed, hkept⟩
    rw [← haddress] at hgone hkept
    rw [← hallocated] at hfreed
    exact ⟨hgone, hfreed, hkept⟩

def largeCache : AnonymousCache ℕ :=
  { committedCache with virtualEnd := 128 * 4096, allocatedSwapSize := 4096 }

/-- A page of the cache has been swapped out to slot 5. -/
def oneSlot (page : ℕ) : State ℕ :=
  swapBlockBuild
    { (initial ℕ).setCache 0 largeCache with
      files := [⟨0, 0, 64⟩]
      allocated := fun x => x = 5 } 0 page 5 1

lemma swapped_oneSlot (page : ℕ) : Swapped (oneSlot page) 0 largeCache := by
  have hchanged : PagesChanged _ (oneSlot page) 0 page 1 fun p => some (5 + (p - page)) :=
    swapBlockBuild_changed 0 page 5 1 (fun _ _ hb => absurd hb (Option.some_ne_none _).symm)
      Nat.one_pos fun p _ _ => rfl
  have haddress : ∀ p, getAddress (oneSlot page) 0 p = if p = page then some 5 else none := by
    intro p
    split
    · next hp => rw [hchanged.changed p (by omega) (by omega), hp, Nat.sub_self]
    · next hp => exact hchanged.kept p (by omega)
  have hpages : swappedPages (oneSlot page) 0 = {page} := by
    ext p
    show (getAddress (oneSlot page) 0 p).isSome = true ↔ p = page
    rw [haddress]
    split <;> simp_all
  refine ⟨?_, hchanged.ok, fun p slot hp => ?_, ?_, ?_⟩
  · rw [hchanged.state]
    rfl
  · rw [hchanged.state]
    rw [haddress] at hp
    split at hp
    · cases hp
      rfl
    · cases hp
  · rw [hpages]
    exact Set.finite_singleton page
  · rw [hpages, Set.ncard_singleton]
    decide

end Haiku.Swap
