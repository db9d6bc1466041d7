import Haiku.Swap.Ledger

/-!
# The books of the swap space

`Books` is the invariant of the swap bookkeeping. Most calls take a page's slot away
(`Books.release`) or give it one (`Books.build`), and change the count of a cache accordingly
(`Books.setCache`).
-/

namespace Haiku.Swap

open Function Lib

variable {P : Type} {s s' s₁ : State P} {c c' : AnonymousCache P} {id : ℕ} {x : ℕ → ℤ}

/-- The bookkeeping is in order, up to the difference `x` in the counts of the caches. -/
structure Books (s : State P) (x : ℕ → ℤ) : Prop where
  blocks : BlocksOk s
  ledger : Ledger (held s) s x
  apart : ∀ w ∈ s.pending, w.newSlot = true → getAddress s w.cache w.pageIndex = none
  pendingOnce : (s.pending.map fun w => (w.cache, w.pageIndex)).Nodup
  resident : ∀ w ∈ s.pending, ∃ c, s.caches.lookup w.cache = some c ∧
    (c.lookupPage w.pageIndex).isSome = true
  le : ∀ id c, s.caches.lookup id = some c → c.allocatedSwapSize ≤ c.committedSwapSize
  aligned : ∀ id c, s.caches.lookup id = some c → pageSize ∣ c.virtualBase ∧ pageSize ∣ c.virtualEnd

variable {p slot : ℕ}

lemma pendingSlot_eq_some (h : pendingSlot s id p = some slot) :
    ∃ w ∈ s.pending, w.newSlot = true ∧ w.cache = id ∧ w.pageIndex = p ∧ w.slot = slot := by
  obtain ⟨w, hw, hslot⟩ := Option.map_eq_some_iff.1 h
  have hp := List.find?_some hw
  simp only [decide_eq_true_eq] at hp
  exact ⟨w, List.mem_of_find?_eq_some hw, hp.1, hp.2.1, hp.2.2, hslot⟩

lemma Books.pendingSlot_eq_none (h : Books s x) (hp : getAddress s id p = some slot) :
    pendingSlot s id p = none := by
  cases hs : pendingSlot s id p with
  | none => rfl
  | some slot' =>
    obtain ⟨w, hw, hnew, hcache, hindex, -⟩ := pendingSlot_eq_some hs
    have hnone := h.apart w hw hnew
    rw [hcache, hindex, hp] at hnone
    cases hnone

lemma held_of_getAddress (h : getAddress s id p = some slot) : held s id p = some slot := by
  rw [held, h, Option.some_or]

lemma getAddress_of_held_none (h : held s id p = none) : getAddress s id p = none :=
  (Option.or_eq_none_iff.1 h).1

lemma Books.setCache {a : ℤ} (h : Books s x) (hl : s.caches.lookup id = some c)
    (hrange : ∀ p, (held s id p).isSome = true → c.hasIndex p → c'.hasIndex p)
    (hpages : ∀ w ∈ s.pending, w.cache = id → (c.lookupPage w.pageIndex).isSome = true →
      (c'.lookupPage w.pageIndex).isSome = true)
    (hcount : c'.allocatedSwapSize = c.allocatedSwapSize + a)
    (hle : c'.allocatedSwapSize ≤ c'.committedSwapSize)
    (haligned : pageSize ∣ c'.virtualBase ∧ pageSize ∣ c'.virtualEnd) :
    Books (s.setCache id c') (update x id (x id + a)) := by
  have hother : ∀ {id' c''}, s.caches.lookup id' = some c'' → id' ≠ id →
      (s.setCache id c').caches.lookup id' = some c'' := by
    intro id' c'' hl' hid
    exact (AList.lookup_insert_ne hid).trans hl'
  refine ⟨h.blocks, ⟨h.ledger.once, h.ledger.stored, ?_, ?_⟩, h.apart, h.pendingOnce, ?_, ?_, ?_⟩
  · intro id' p slot hp
    obtain ⟨c'', hl', hindex⟩ := h.ledger.inRange id' p slot hp
    by_cases hid : id' = id
    · subst hid
      rw [hl] at hl'
      cases hl'
      have hsome : (held s id' p).isSome = true := Option.isSome_iff_exists.2 ⟨slot, hp⟩
      exact ⟨c', AList.lookup_insert _, hrange p hsome hindex⟩
    · exact ⟨c'', hother hl' hid, hindex⟩
  · intro id' c'' hl'
    rcases Table.lookup_insert_cases hl' with ⟨rfl, rfl⟩ | ⟨hid, hl'⟩
    · rw [update_self, hcount, h.ledger.count id' c hl]
      exact add_assoc _ _ _
    · rw [update_of_ne hid]
      exact h.ledger.count id' c'' hl'
  · intro w hw
    obtain ⟨c'', hl', hres⟩ := h.resident w hw
    by_cases hid : w.cache = id
    · rw [hid, hl] at hl'
      cases hl'
      rw [hid]
      exact ⟨c', AList.lookup_insert _, hpages w hw hid hres⟩
    · exact ⟨c'', hother hl' hid, hres⟩
  · exact Table.forall_lookup_insert h.le hle
  · exact Table.forall_lookup_insert h.aligned haligned

lemma Books.addAllocated {a : ℤ} (h : Books s x)
    (hle : ∀ c, s.caches.lookup id = some c → c.allocatedSwapSize + a ≤ c.committedSwapSize) :
    Books (addAllocated s id a) (update x id (x id + a)) := by
  unfold Swap.addAllocated
  split
  · next c hl =>
    exact h.setCache hl (fun _ _ hp => hp) (fun _ _ _ hp => hp) rfl (hle c hl) (h.aligned id c hl)
  · next hl =>
    refine ⟨h.blocks, ⟨h.ledger.once, h.ledger.stored, h.ledger.inRange, ?_⟩, h.apart, h.pendingOnce,
      h.resident, h.le, h.aligned⟩
    intro id' c hl'
    rw [update_of_ne]
    · exact h.ledger.count id' c hl'
    · rintro rfl
      rw [hl] at hl'
      cases hl'

/-! ## Taking slots away -/

lemma swapSlotDealloc_eq_some (count : ℕ) (h : s.hasSlot slot = true) :
    swapSlotDealloc s slot count = some
      { s with allocated := fun y => !(slot ≤ y ∧ y < slot + count) && s.allocated y } :=
  if_pos h

lemma Books.release {n : ℕ} (h : Books s x) (hfirst : getAddress s id p = some slot)
    (hall : ∀ k, k < n → getAddress s id (p + k) = some (slot + k)) :
    ∃ s₁ s₂, swapSlotDealloc s slot n = some s₁ ∧ swapBlockFree s₁ id p n = some s₂ ∧
      Books s₂ (update x id (x id + n * pageSize)) ∧
      getAddress s₂ = drop (getAddress s) id p n ∧ s₂.caches = s.caches ∧
      s₂.pending = s.pending ∧ held s₂ = drop (held s) id p n := by
  have hfile : s.hasSlot slot = true := (h.ledger.stored id p slot (held_of_getAddress hfirst)).2
  have hall' : ∀ q, p ≤ q → q < p + n → getAddress s id q = some (slot + (q - p)) := by
    intro q hq hq'
    have hk := hall (q - p) (by omega)
    rwa [Nat.add_sub_cancel' hq] at hk
  obtain ⟨s₂, hs₂, hch⟩ := swapBlockFree_changed id p n
    (s := { s with allocated := fun y => !(slot ≤ y ∧ y < slot + n) && s.allocated y }) h.blocks
    (fun q hq hq' => Option.isSome_iff_exists.2 ⟨_, hall' q hq hq'⟩)
    (Option.isSome_iff_exists.2 ⟨slot, hfirst⟩)
  refine ⟨_, s₂, swapSlotDealloc_eq_some n hfile, hs₂, ?_⟩
  have haddress : getAddress s₂ = drop (getAddress s) id p n := by
    funext id' q
    unfold drop
    split
    · next hq =>
      rw [hq.1]
      exact hch.changed q hq.2.1 hq.2.2
    · next hq =>
      by_cases hid : id' = id
      · rw [hid]
        exact hch.kept q fun hq' => hq ⟨hid, hq'⟩
      · exact hch.others id' q hid
  have hpending : s₂.pending = s.pending := by rw [hch.state]
  have hcaches : s₂.caches = s.caches := by rw [hch.state]
  have hheld : held s₂ = drop (held s) id p n := by
    funext id' q
    rw [held, haddress]
    have hsame : pendingSlot s₂ id' q = pendingSlot s id' q := by
      rw [pendingSlot, hpending, pendingSlot]
    rw [hsame]
    unfold drop
    split
    · next hq =>
      rw [Option.none_or, hq.1]
      exact h.pendingSlot_eq_none (hall' q hq.2.1 hq.2.2)
    · rfl
  refine ⟨⟨hch.ok, ?_, ?_, ?_, ?_, ?_, ?_⟩, haddress, hcaches, hpending, hheld⟩
  · rw [hheld]
    refine h.ledger.drop id p n ?_ ?_ (by rw [hch.state]) hcaches
    · intro q hq hq'
      rw [held_of_getAddress (hall' q hq hq')]
      rfl
    · intro id' q y hy hallocated
      rw [hch.state]
      simp only [hallocated, Bool.and_true, Bool.not_eq_true', decide_eq_false_iff_not]
      -- the slots that are freed belong to the pages that lose them
      rintro ⟨hy₁, hy₂⟩
      have hy' : held s id' q = some y := by
        unfold drop at hy
        split at hy
        · cases hy
        · exact hy
      have hpage := hall (y - slot) (by omega)
      rw [Nat.add_sub_cancel' hy₁] at hpage
      obtain ⟨rfl, rfl⟩ := h.ledger.once _ _ _ _ _ hy' (held_of_getAddress hpage)
      rw [drop, if_pos ⟨rfl, by omega, by omega⟩] at hy
      cases hy
  · intro w hw hnew
    rw [hpending] at hw
    rw [haddress, drop]
    split
    · rfl
    · exact h.apart w hw hnew
  · rw [hpending]
    exact h.pendingOnce
  · rw [hpending, hcaches]
    exact h.resident
  · rw [hcaches]
    exact h.le
  · rw [hcaches]
    exact h.aligned

/-! ## Giving pages a slot -/

lemma swapSlotAlloc_spec {count : ℕ} (h : swapSlotAlloc s count slot = some s₁) :
    0 < count ∧ (∀ i, i < count → s.allocated (slot + i) = false ∧ s.hasSlot (slot + i) = true) ∧
      s₁ = { s with allocated := fun y => (slot ≤ y ∧ y < slot + count) || s.allocated y } := by
  obtain ⟨⟨hpos, -, hfile, hfree⟩, h⟩ := Option.ite_none_right_eq_some.1 h
  refine ⟨hpos, fun i hi => ⟨?_, ?_⟩, (Option.some.inj h).symm⟩
  · simpa using List.all_eq_true.1 hfree i (List.mem_range.2 hi)
  · obtain ⟨f, hf, hrange⟩ := List.any_eq_true.1 hfile
    refine List.any_eq_true.2 ⟨f, hf, ?_⟩
    simp only [decide_eq_true_eq] at hrange ⊢
    omega

lemma Books.build {n : ℕ} (h : Books s x) (hs₁ : swapSlotAlloc s n slot = some s₁)
    (hfree : ∀ q, p ≤ q → q < p + n → held s id q = none)
    (hrange : ∀ q, p ≤ q → q < p + n → ∃ c, s.caches.lookup id = some c ∧ c.hasIndex q) :
    Books (swapBlockBuild s₁ id p slot n) (update x id (x id - n * pageSize)) ∧
      getAddress (swapBlockBuild s₁ id p slot n) = hold (getAddress s) id p slot n ∧
      (swapBlockBuild s₁ id p slot n).caches = s.caches ∧
      (swapBlockBuild s₁ id p slot n).pending = s.pending := by
  obtain ⟨hpos, hslots, hs₁⟩ := swapSlotAlloc_spec hs₁
  have hblocks : BlocksOk s₁ := by
    rw [hs₁]
    exact h.blocks
  have haddress₁ : getAddress s₁ = getAddress s := by
    rw [hs₁]
    rfl
  have hch := swapBlockBuild_changed id p slot n hblocks hpos (fun q hq hq' => by
    rw [haddress₁]
    exact getAddress_of_held_none (hfree q hq hq'))
  obtain ⟨s₂, hs₂⟩ : ∃ s₂, swapBlockBuild s₁ id p slot n = s₂ := ⟨_, rfl⟩
  rw [hs₂] at hch ⊢
  have haddress : getAddress s₂ = hold (getAddress s) id p slot n := by
    funext id' q
    unfold hold
    split
    · next hq =>
      rw [hq.1]
      exact hch.changed q hq.2.1 hq.2.2
    · next hq =>
      rw [← haddress₁]
      by_cases hid : id' = id
      · rw [hid]
        exact hch.kept q fun hq' => hq ⟨hid, hq'⟩
      · exact hch.others id' q hid
  have hpending : s₂.pending = s.pending := by rw [hch.state, hs₁]
  have hcaches : s₂.caches = s.caches := by rw [hch.state, hs₁]
  have hfiles : s₂.files = s.files := by rw [hch.state, hs₁]
  have hallocated : s₂.allocated = fun y => (slot ≤ y ∧ y < slot + n) || s.allocated y := by
    rw [hch.state, hs₁]
  have hheld : held s₂ = hold (held s) id p slot n := by
    funext id' q
    rw [held, haddress]
    have hsame : pendingSlot s₂ id' q = pendingSlot s id' q := by
      rw [pendingSlot, hpending, pendingSlot]
    rw [hsame]
    unfold hold
    split <;> rfl
  refine ⟨⟨hch.ok, ?_, ?_, ?_, ?_, ?_, ?_⟩, haddress, hcaches, hpending⟩
  · rw [hheld]
    refine h.ledger.hold hfree (fun i hi => (hslots i hi).1) (fun i hi => ?_) (fun y hy hfile => ?_)
      hcaches hrange
    · rw [hallocated, State.hasSlot, hfiles]
      refine ⟨?_, (hslots i hi).2⟩
      simp only [Bool.or_eq_true, decide_eq_true_eq]
      left
      omega
    · rw [hallocated, State.hasSlot, hfiles]
      exact ⟨by simp [hy], hfile⟩
  · intro w hw hnew
    rw [hpending] at hw
    rw [haddress, hold]
    split
    · next hq =>
      -- the page has a write in flight, and so it is not free
      have hnone := hfree w.pageIndex hq.2.1 hq.2.2
      rw [← hq.1] at hnone
      have hfind := (Option.or_eq_none_iff.1 hnone).2
      rw [pendingSlot, Option.map_eq_none_iff, List.find?_eq_none] at hfind
      exact absurd (hfind w hw) (by simp [hnew])
    · exact h.apart w hw hnew
  · rw [hpending]
    exact h.pendingOnce
  · rw [hpending, hcaches]
    exact h.resident
  · rw [hcaches]
    exact h.le
  · rw [hcaches]
    exact h.aligned

/-! ## Writes in flight -/

lemma find?_erase_of_not {α : Type} [BEq α] [LawfulBEq α] {p : α → Bool} {a : α} {l : List α}
    (h : p a = false) : (l.erase a).find? p = l.find? p := by
  induction l with
  | nil => rfl
  | cons b l ih =>
    by_cases hb : b = a
    · rw [hb, List.erase_cons_head, List.find?_cons, h]
    · rw [List.erase_cons_tail (by simpa using hb), List.find?_cons, List.find?_cons, ih]

variable {w : PendingWrite}

lemma pendingSlot_erase_of_ne (h : ¬ (w.newSlot = true ∧ w.cache = id ∧ w.pageIndex = p)) :
    pendingSlot { s with pending := s.pending.erase w } id p = pendingSlot s id p := by
  unfold pendingSlot
  rw [find?_erase_of_not]
  simpa using h

lemma Books.pending_unique (h : Books s x) {w' : PendingWrite} (hw : w ∈ s.pending)
    (hw' : w' ∈ s.pending) (hcache : w.cache = w'.cache) (hindex : w.pageIndex = w'.pageIndex) :
    w = w' :=
  List.inj_on_of_nodup_map h.pendingOnce hw hw' (Prod.ext hcache hindex)

lemma Books.pendingSlot_of_mem (h : Books s x) (hw : w ∈ s.pending) (hnew : w.newSlot = true) :
    pendingSlot s w.cache w.pageIndex = some w.slot := by
  cases hp : pendingSlot s w.cache w.pageIndex with
  | none =>
    rw [pendingSlot, Option.map_eq_none_iff, List.find?_eq_none] at hp
    exact absurd (hp w hw) (by simp [hnew])
  | some slot =>
    obtain ⟨w', hw', -, hcache, hindex, hslot⟩ := pendingSlot_eq_some hp
    rw [← hslot, h.pending_unique hw' hw hcache hindex]

lemma Books.pendingSlot_erase (h : Books s x) (hw : w ∈ s.pending) :
    pendingSlot { s with pending := s.pending.erase w } w.cache w.pageIndex = none := by
  cases hp : pendingSlot { s with pending := s.pending.erase w } w.cache w.pageIndex with
  | none => rfl
  | some slot =>
    obtain ⟨w', hw', -, hcache, hindex, -⟩ := pendingSlot_eq_some hp
    have heq := h.pending_unique (List.mem_of_mem_erase hw') hw hcache hindex
    rw [heq] at hw'
    have hnodup : s.pending.Nodup := List.Nodup.of_map _ h.pendingOnce
    exact absurd hw' (List.Nodup.not_mem_erase hnodup)

lemma nodup_map_erase (h : (s.pending.map fun w => (w.cache, w.pageIndex)).Nodup) :
    ((s.pending.erase w).map fun w => (w.cache, w.pageIndex)).Nodup :=
  h.sublist (List.erase_sublist.map _)

section

variable (h : Books s x)
include h

lemma Books.erasePending (hnew : w.newSlot = false) :
    Books { s with pending := s.pending.erase w } x := by
  have hheld : held { s with pending := s.pending.erase w } = held s := by
    funext id p
    rw [held, pendingSlot_erase_of_ne (by simp [hnew])]
    rfl
  refine ⟨h.blocks, ?_, ?_, nodup_map_erase h.pendingOnce, ?_, h.le, h.aligned⟩
  · rw [hheld]
    exact ⟨h.ledger.once, h.ledger.stored, h.ledger.inRange, h.ledger.count⟩
  · exact fun w' hw' hnew' => h.apart w' (List.mem_of_mem_erase hw') hnew'
  · exact fun w' hw' => h.resident w' (List.mem_of_mem_erase hw')

lemma Books.dropPending (hw : w ∈ s.pending) (hnew : w.newSlot = true)
    (hs₁ : swapSlotDealloc { s with pending := s.pending.erase w } w.slot 1 = some s₁) :
    Books s₁ (update x w.cache (x w.cache + pageSize)) := by
  obtain ⟨-, hs₁⟩ := Option.ite_none_right_eq_some.1 hs₁
  have hs₁ := (Option.some.inj hs₁).symm
  have hslot : held s w.cache w.pageIndex = some w.slot := by
    rw [held, h.apart w hw hnew, Option.none_or, h.pendingSlot_of_mem hw hnew]
  have hheld : held s₁ = drop (held s) w.cache w.pageIndex 1 := by
    funext id p
    have hpending : pendingSlot s₁ id p =
        pendingSlot { s with pending := s.pending.erase w } id p := by rw [hs₁]; rfl
    have haddress : getAddress s₁ id p = getAddress s id p := by rw [hs₁]; rfl
    rw [held, haddress, hpending, drop]
    split
    · next hp =>
      have hindex : p = w.pageIndex := by omega
      rw [hp.1, hindex, h.apart w hw hnew, Option.none_or, h.pendingSlot_erase hw]
    · next hp =>
      rw [pendingSlot_erase_of_ne]
      · rfl
      · rintro ⟨-, hc, hi⟩
        exact hp ⟨hc.symm, by omega, by omega⟩
  refine ⟨?_, ?_, ?_, ?_, ?_, ?_, ?_⟩
  · rw [hs₁]
    exact h.blocks
  · rw [hheld]
    have hone : x w.cache + pageSize = x w.cache + (1 : ℕ) * pageSize := by omega
    rw [hone]
    apply h.ledger.drop w.cache w.pageIndex 1
    · intro p hp hp'
      rw [show p = w.pageIndex by omega, hslot]
      rfl
    · intro id p y hy hallocated
      rw [hs₁]
      simp only [hallocated, Bool.and_true, Bool.not_eq_true', decide_eq_false_iff_not]
      rintro ⟨hy₁, hy₂⟩
      have hyslot : y = w.slot := by omega
      unfold drop at hy
      split at hy
      · cases hy
      · next hp =>
        rw [hyslot] at hy
        obtain ⟨hc, hi⟩ := h.ledger.once _ _ _ _ _ hy hslot
        exact hp ⟨hc, by omega, by omega⟩
    · rw [hs₁]
    · rw [hs₁]
  · rw [hs₁]
    exact fun w' hw' hnew' => h.apart w' (List.mem_of_mem_erase hw') hnew'
  · rw [hs₁]
    exact nodup_map_erase h.pendingOnce
  · rw [hs₁]
    exact fun w' hw' => h.resident w' (List.mem_of_mem_erase hw')
  · rw [hs₁]
    exact h.le
  · rw [hs₁]
    exact h.aligned

lemma Books.finishPending (hw : w ∈ s.pending) (hnew : w.newSlot = true) :
    Books (swapBlockBuild { s with pending := s.pending.erase w } w.cache w.pageIndex w.slot 1) x := by
  have hch := swapBlockBuild_changed (s := { s with pending := s.pending.erase w })
    w.cache w.pageIndex w.slot 1 h.blocks (by omega) (fun q hq hq' => by
      rw [show q = w.pageIndex by omega]
      exact h.apart w hw hnew)
  obtain ⟨s₂, hs₂⟩ : ∃ s₂, swapBlockBuild { s with pending := s.pending.erase w } w.cache
    w.pageIndex w.slot 1 = s₂ := ⟨_, rfl⟩
  rw [hs₂] at hch ⊢
  have hpending : ∀ id p, pendingSlot s₂ id p =
      pendingSlot { s with pending := s.pending.erase w } id p := by
    intro id p
    rw [hch.state]
    rfl
  -- the cache goes on to hold the slot
  have hkept : ∀ id p, ¬ (w.cache = id ∧ w.pageIndex = p) →
      getAddress s₂ id p = getAddress s id p := by
    intro id p hp
    by_cases hid : id = w.cache
    · rw [hid]
      exact hch.kept p fun hq => hp ⟨hid.symm, by omega⟩
    · exact hch.others id p hid
  have hheld : held s₂ = held s := by
    funext id p
    rw [held, hpending, held]
    by_cases hp : w.cache = id ∧ w.pageIndex = p
    · obtain ⟨rfl, rfl⟩ := hp
      rw [hch.changed w.pageIndex (by omega) (by omega), h.apart w hw hnew,
        h.pendingSlot_of_mem hw hnew, Nat.sub_self]
      rfl
    · rw [hkept id p hp, pendingSlot_erase_of_ne fun hq => hp hq.2]
  refine ⟨hch.ok, ?_, ?_, ?_, ?_, ?_, ?_⟩
  · rw [hheld, hch.state]
    exact ⟨h.ledger.once, h.ledger.stored, h.ledger.inRange, h.ledger.count⟩
  · intro w' hw' hnew'
    rw [hch.state] at hw'
    rw [hkept]
    · exact h.apart w' (List.mem_of_mem_erase hw') hnew'
    · rintro ⟨hc, hi⟩
      have heq := h.pending_unique hw (List.mem_of_mem_erase hw') hc hi
      rw [← heq] at hw'
      exact absurd hw' (List.Nodup.not_mem_erase (List.Nodup.of_map _ h.pendingOnce))
  · rw [hch.state]
    exact nodup_map_erase h.pendingOnce
  · rw [hch.state]
    exact fun w' hw' => h.resident w' (List.mem_of_mem_erase hw')
  · rw [hch.state]
    exact h.le
  · rw [hch.state]
    exact h.aligned

lemma Books.addPending (hnew : w.newSlot = false)
    (honce : ∀ w' ∈ s.pending, ¬ (w'.cache = w.cache ∧ w'.pageIndex = w.pageIndex))
    (hres : ∃ c, s.caches.lookup w.cache = some c ∧ (c.lookupPage w.pageIndex).isSome = true) :
    Books { s with pending := w :: s.pending } x := by
  have hheld : held { s with pending := w :: s.pending } = held s := by
    funext id p
    have hfind : pendingSlot { s with pending := w :: s.pending } id p = pendingSlot s id p := by
      simp [pendingSlot, hnew]
    rw [held, hfind]
    rfl
  refine ⟨h.blocks, ?_, ?_, ?_, ?_, h.le, h.aligned⟩
  · rw [hheld]
    exact ⟨h.ledger.once, h.ledger.stored, h.ledger.inRange, h.ledger.count⟩
  · intro w' hw' hnew'
    rcases List.mem_cons.1 hw' with rfl | hw'
    · rw [hnew] at hnew'
      cases hnew'
    · exact h.apart w' hw' hnew'
  · rw [List.map_cons, List.nodup_cons]
    refine ⟨fun hmem => ?_, h.pendingOnce⟩
    obtain ⟨w', hw', heq⟩ := List.mem_map.1 hmem
    exact honce w' hw' (Prod.ext_iff.1 heq)
  · exact List.forall_mem_cons.2 ⟨hres, h.resident⟩

lemma Books.addPendingNew (hnew : w.newSlot = true) (hs₁ : swapSlotAlloc s 1 w.slot = some s₁)
    (haddress : getAddress s w.cache w.pageIndex = none)
    (honce : ∀ w' ∈ s.pending, ¬ (w'.cache = w.cache ∧ w'.pageIndex = w.pageIndex))
    (hres : ∃ c, s.caches.lookup w.cache = some c ∧ c.hasIndex w.pageIndex ∧
      (c.lookupPage w.pageIndex).isSome = true) : Books { s₁ with pending := w :: s₁.pending }
      (update x w.cache (x w.cache - pageSize)) := by
  obtain ⟨-, hslots, rfl⟩ := swapSlotAlloc_spec hs₁
  obtain ⟨c, hl, hindex, hpage⟩ := hres
  have hnone : pendingSlot s w.cache w.pageIndex = none := by
    rw [pendingSlot, Option.map_eq_none_iff, List.find?_eq_none]
    intro w' hw'
    simpa using fun _ => not_and.1 (honce w' hw')
  have hheld : held { s with
      allocated := fun y => (w.slot ≤ y ∧ y < w.slot + 1) || s.allocated y
      pending := w :: s.pending } = hold (held s) w.cache w.pageIndex w.slot 1 := by
    funext id p
    rw [held, hold]
    split
    · next hp =>
      have hindex : p = w.pageIndex := by omega
      obtain ⟨rfl, -⟩ := hp
      have haddress' : getAddress { s with
          allocated := fun y => (w.slot ≤ y ∧ y < w.slot + 1) || s.allocated y
          pending := w :: s.pending } w.cache p = none := by
        rw [hindex]
        exact haddress
      rw [haddress', hindex, Nat.sub_self]
      simp [pendingSlot, hnew]
    · next hp =>
      have hfind : pendingSlot { s with
          allocated := fun y => (w.slot ≤ y ∧ y < w.slot + 1) || s.allocated y
          pending := w :: s.pending } id p = pendingSlot s id p := by
        have hne : ¬ (w.cache = id ∧ w.pageIndex = p) := fun hq => hp ⟨hq.1.symm, by omega⟩
        simp [pendingSlot, hnew, hne]
      rw [hfind]
      rfl
  refine ⟨h.blocks, ?_, ?_, ?_, ?_, h.le, h.aligned⟩
  · have hone : x w.cache - pageSize = x w.cache - (1 : ℕ) * pageSize := by omega
    simp only
    rw [hheld, hone]
    refine h.ledger.hold (fun p hp hp' => ?_) (fun i hi => (hslots i hi).1) (fun i hi => ?_)
      (fun y hy hfile => ⟨by simp [hy], hfile⟩) rfl (fun p hp hp' => ?_)
    · rw [show p = w.pageIndex by omega, held, haddress, hnone]
      rfl
    · refine ⟨?_, (hslots i hi).2⟩
      simp only [Bool.or_eq_true, decide_eq_true_eq]
      left
      omega
    · rw [show p = w.pageIndex by omega]
      exact ⟨c, hl, hindex⟩
  · intro w' hw' hnew'
    rcases List.mem_cons.1 hw' with rfl | hw'
    · exact haddress
    · exact h.apart w' hw' hnew'
  · rw [List.map_cons, List.nodup_cons]
    refine ⟨fun hmem => ?_, h.pendingOnce⟩
    obtain ⟨w', hw', heq⟩ := List.mem_map.1 hmem
    exact honce w' hw' (Prod.ext_iff.1 heq)
  · exact List.forall_mem_cons.2 ⟨⟨c, hl, hpage⟩, h.resident⟩

end

end Haiku.Swap
