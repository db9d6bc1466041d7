import Haiku.Swap.MergeBooks

/-!
# The books along a run

In every run whose calls meet `booksOk`, every block counts its slots, no slot belongs to two
pages, and every cache counts the slots it refers to and those of its writes in flight.
-/

namespace Haiku.Swap

open Lib

variable {P : Type} {s s' : State P}

/-! ## What the books say -/

/-- The number of slots a cache refers to. -/
noncomputable def numReferenced (s : State P) (id : ℕ) : ℕ :=
  {p | (getAddress s id p).isSome = true}.ncard

/-- The number of writes of a cache into new slots that are in flight. -/
def numInFlight (s : State P) (id : ℕ) : ℕ :=
  s.pending.countP fun w => w.newSlot ∧ w.cache = id

structure SlotsRight (s : State P) : Prop where
  used : ∀ key b, s.blocks.lookup key = some b → b.used.toNat = b.numSlots ∧ 1 ≤ b.used.toNat
  once : ∀ id p id' p' slot, getAddress s id p = some slot → getAddress s id' p' = some slot →
    id = id' ∧ p = p'
  count : ∀ id c, s.caches.lookup id = some c →
    c.allocatedSwapSize = pageSize * (numReferenced s id + numInFlight s id : ℤ)
  le : ∀ id c, s.caches.lookup id = some c → c.allocatedSwapSize ≤ c.committedSwapSize

lemma Books.ncard_pending (h : Books s 0) (id : ℕ) :
    {p | (pendingSlot s id p).isSome = true}.Finite ∧
      {p | (pendingSlot s id p).isSome = true}.ncard = numInFlight s id := by
  have hnodup : ((s.pending.filter fun w => w.newSlot ∧ w.cache = id).map (·.pageIndex)).Nodup := by
    refine List.Nodup.map_on (fun w hw w' hw' hindex => ?_)
      ((List.Nodup.of_map _ h.pendingOnce).filter _)
    simp only [List.mem_filter, decide_eq_true_eq] at hw hw'
    exact h.pending_unique hw.1 hw'.1 (hw.2.2.trans hw'.2.2.symm) hindex
  have hset : {p | (pendingSlot s id p).isSome = true} =
      (((s.pending.filter fun w => w.newSlot ∧ w.cache = id).map (·.pageIndex)).toFinset : Set ℕ) := by
    ext p
    simp only [Set.mem_ofPred_eq, pendingSlot, Option.isSome_map, List.find?_isSome, decide_eq_true_eq,
      List.coe_toFinset, List.mem_map, List.mem_filter]
    constructor
    · rintro ⟨w, hw, hnew, hcache, hindex⟩
      exact ⟨w, ⟨hw, hnew, hcache⟩, hindex⟩
    · rintro ⟨w, ⟨hw, hnew, hcache⟩, hindex⟩
      exact ⟨w, hw, hnew, hcache, hindex⟩
  rw [hset]
  refine ⟨Finset.finite_toSet _, ?_⟩
  rw [Set.ncard_coe_finset, List.toFinset_card_of_nodup hnodup, List.length_map,
    ← List.countP_eq_length_filter]
  rfl

lemma Books.ncard_held (h : Books s 0) (id : ℕ) :
    (heldPages (held s) id).ncard = numReferenced s id + numInFlight s id := by
  have hset : heldPages (held s) id =
      {p | (getAddress s id p).isSome = true} ∪ {p | (pendingSlot s id p).isSome = true} := by
    ext p
    simp [heldPages, held]
  have hfin : {p | (getAddress s id p).isSome = true}.Finite := by
    refine (h.ledger.finite id).subset ?_
    rw [hset]
    exact Set.subset_union_left
  have hdisj : Disjoint {p | (getAddress s id p).isSome = true}
      {p | (pendingSlot s id p).isSome = true} := by
    rw [Set.disjoint_left]
    intro p hp hp'
    obtain ⟨slot, hslot⟩ := Option.isSome_iff_exists.1 hp
    rw [Set.mem_ofPred_eq, h.pendingSlot_eq_none hslot] at hp'
    cases hp'
  rw [hset, Set.ncard_union_eq hdisj hfin (h.ncard_pending id).1, (h.ncard_pending id).2]
  rfl

lemma Books.slotsRight (h : Books s 0) : SlotsRight s where
  used key b hl := by
    have hb := h.blocks key b hl
    have hused : b.used.toNat = b.numSlots := by
      rw [hb.used]
      exact UInt32.toNat_ofNat_of_lt' (Nat.lt_of_le_of_lt (numSlots_le b) (by decide))
    rw [hused]
    exact ⟨rfl, hb.pos⟩
  once id p id' p' slot hp hp' :=
    h.ledger.once id p id' p' slot (held_of_getAddress hp) (held_of_getAddress hp')
  count id c hl := by
    rw [h.ledger.count id c hl, h.ncard_held id, Pi.zero_apply, add_zero]
    push_cast
    rfl
  le := h.le

/-! ## The calls -/

/-- When the calls keep the books. `Write()` takes a vector for one piece of swap space, before
and after; `Resize()` leaves some slots (`Droppable`), and `Merge()` does not count slots it
copies (`MergeOk`). A page is not written twice at a time, and stays while it is being written. -/
def booksOk (s : State P) : Call P → Prop
  | .commit id size _ => ∀ c, s.caches.lookup id = some c → commitOk c size
  | .merge consumerId sourceId => ∀ consumer source, s.caches.lookup consumerId = some consumer →
      s.caches.lookup sourceId = some source → MergeOk s consumerId sourceId consumer source
  | .resize id newSize _ => pageSize ∣ newSize ∧ ∀ c, s.caches.lookup id = some c →
      Droppable (getAddress s id) c (numPages newSize) ∧
      (∀ w ∈ s.pending, w.cache = id → w.pageIndex < numPages newSize) ∧
      (c.canOvercommit → c.committedSize < newSize - c.virtualBase → c.hasPrecommitted = false →
        c.allocatedSwapSize ≤ c.precommittedPages * pageSize)
  | .write id p vecs answers => vectorsOk (getAddress s id) p vecs ∧
      (∀ a ∈ answers, a.halvings = 0) ∧
      (∀ w ∈ s.pending, w.cache = id → ¬ (p ≤ w.pageIndex ∧ w.pageIndex < p + vecs.sum)) ∧
      ∃ c, s.caches.lookup id = some c ∧ ∀ q, p ≤ q → q < p + vecs.sum → c.hasIndex q
  | .writeAsync id p _ _ => (∀ w ∈ s.pending, ¬ (w.cache = id ∧ w.pageIndex = p)) ∧
      ∀ c, s.caches.lookup id = some c → c.hasIndex p ∧ (c.lookupPage p).isSome = true
  | .destroy id => ∀ w ∈ s.pending, w.cache ≠ id
  | .create _ _ _ _ base size => pageSize ∣ base ∧ pageSize ∣ size
  | .removePage id p => ∀ w ∈ s.pending, ¬ (w.cache = id ∧ w.pageIndex = p)
  | _ => True

lemma Books.files {x : ℕ → ℤ} (h : Books s x) {files : List SwapFile} {available : ℤ}
    (hfiles : ∀ slot, s.allocated slot = true → s.hasSlot slot = true →
      (files.any fun f => f.firstSlot ≤ slot ∧ slot < f.lastSlot) = true) :
    Books { s with files := files, available := available } x := by
  refine ⟨h.blocks, ⟨h.ledger.once, fun id p slot hp => ?_, h.ledger.inRange, h.ledger.count⟩, h.apart,
    h.pendingOnce, h.resident, h.le, h.aligned⟩
  have hstored := h.ledger.stored id p slot hp
  exact ⟨hstored.1, hfiles slot hstored.1 hstored.2⟩

lemma swapFileAdd_books {vnode size : ℕ} {x : ℕ → ℤ} (h : Books s x) :
    Books (swapFileAdd s vnode size).1 x := by
  unfold swapFileAdd
  split
  · exact h
  · refine h.files fun slot _ hslot => ?_
    rw [List.any_append, Bool.or_eq_true]
    exact Or.inl hslot

lemma swapFileDelete_books {vnode : ℕ} {x : ℕ → ℤ} (h : Books s x) :
    Books (swapFileDelete s vnode).1 x := by
  unfold swapFileDelete
  split
  · exact h
  · next f hf =>
    split
    · exact h
    · next hunused =>
      refine h.files fun slot hallocated hslot => ?_
      obtain ⟨g, hg, hrange⟩ := List.any_eq_true.1 hslot
      refine List.any_eq_true.2 ⟨g, ?_, hrange⟩
      -- the file that is deleted has no allocated slot
      have hne : g ≠ f := by
        rintro rfl
        simp only [decide_eq_true_eq] at hrange
        have hunused : s.isUnused g = true := by simpa using hunused
        have hfree := List.all_eq_true.1 hunused (slot - g.firstSlot)
          (List.mem_range.2 (by simp only [SwapFile.pages]; omega))
        rw [Nat.add_sub_cancel' hrange.1, hallocated] at hfree
        cases hfree
      exact (List.mem_erase_of_ne hne).2 hg

lemma create_books {id base size precommittedPages guardPages : ℕ} {canOvercommit : Bool}
    (h : Books s 0) (hnone : s.caches.lookup id = none)
    (haligned : pageSize ∣ base ∧ pageSize ∣ size) :
    Books (s.setCache id (newCache P canOvercommit precommittedPages guardPages base size)) 0 := by
  have hkept : ∀ {id' c}, s.caches.lookup id' = some c → (s.setCache id
      (newCache P canOvercommit precommittedPages guardPages base size)).caches.lookup id' = some c := by
    intro id' c hl
    refine (AList.lookup_insert_ne ?_).trans hl
    rintro rfl
    rw [hnone] at hl
    cases hl
  refine ⟨h.blocks, ⟨h.ledger.once, h.ledger.stored, ?_, ?_⟩, h.apart, h.pendingOnce, ?_, ?_, ?_⟩
  · intro id' p slot hp
    obtain ⟨c, hl, hindex⟩ := h.ledger.inRange id' p slot hp
    exact ⟨c, hkept hl, hindex⟩
  · intro id' c hl
    rcases Table.lookup_insert_cases hl with ⟨rfl, rfl⟩ | ⟨-, hl⟩
    · have hempty : heldPages (held s) id' = ∅ := by
        apply Set.eq_empty_of_forall_notMem
        intro p hp
        obtain ⟨slot, hslot⟩ := Option.isSome_iff_exists.1 hp
        obtain ⟨c, hl, -⟩ := h.ledger.inRange id' p slot hslot
        rw [hnone] at hl
        cases hl
      show (0 : ℤ) = pageSize * ((heldPages (held s) id').ncard : ℤ) + 0
      rw [hempty, Set.ncard_empty]
      rfl
    · exact h.ledger.count id' c hl
  · intro w hw
    obtain ⟨c, hl, hres⟩ := h.resident w hw
    exact ⟨c, hkept hl, hres⟩
  · exact Table.forall_lookup_insert h.le (Int.le_refl 0)
  · exact Table.forall_lookup_insert h.aligned
      ⟨haligned.1, (Nat.dvd_add_right haligned.1).2 haligned.2⟩

lemma Books.setPages {id : ℕ} {c : AnonymousCache P} (h : Books s 0)
    (hl : s.caches.lookup id = some c) {pages : Table ℕ (Page P)}
    (hpages : ∀ w ∈ s.pending, w.cache = id → (c.lookupPage w.pageIndex).isSome = true →
      (pages.lookup w.pageIndex).isSome = true) :
    Books (s.setCache id { c with pages := pages }) 0 := by
  have hset : Books (s.setCache id { c with pages := pages }) (Function.update 0 id (0 + 0)) :=
    h.setCache hl (fun _ _ hp => hp) hpages (by simp) (h.le id c hl) (h.aligned id c hl)
  have hzero : Function.update (0 : ℕ → ℤ) id (0 + 0) = 0 := Function.update_eq_self id 0
  rwa [hzero] at hset

lemma step_books {call : Call P} (h : Books s 0) (hspace : Conserved s) (hok : booksOk s call)
    (hspaceOk : spaceOk s call) (hs' : step s call = some s') : Books s' 0 := by
  cases call with
  | fileAdd vnode size =>
    cases hs'
    exact swapFileAdd_books h
  | fileDelete vnode =>
    cases hs'
    exact swapFileDelete_books h
  | commit id size memory =>
    obtain ⟨c, hl, hs'⟩ := Option.map_eq_some_iff.1 hs'
    cases hs'
    exact h.moved hl (commit_onlySpace s c size memory)
      (commit_swap_ge memory hspace.nonneg (hspace.caches id c hl) (h.le id c hl) (hok c hl))
  | fault id offset memory =>
    obtain ⟨c, hl, hs'⟩ := Option.map_eq_some_iff.1 hs'
    cases hs'
    exact h.moved hl (fault_onlySpace s c offset _ memory)
      (Int.le_trans (h.le id c hl) fault_swap_ge)
  | merge consumerId sourceId =>
    obtain ⟨hne, hm⟩ := Option.ite_none_left_eq_some.1 hs'
    obtain ⟨consumer, hconsumer, hm'⟩ := Option.bind_eq_some_iff.1 hm
    obtain ⟨source, hsource, -⟩ := Option.bind_eq_some_iff.1 hm'
    exact merge_books h hspace hne hconsumer hsource (hok consumer source hconsumer hsource) hm
  | resize id newSize memory =>
    obtain ⟨r, hr, rfl⟩ := Option.map_eq_some_iff.1 hs'
    obtain ⟨c, hl, -⟩ := Option.bind_eq_some_iff.1 hr
    obtain ⟨haligned, hok⟩ := hok
    obtain ⟨hdrop, hpending, hcommit⟩ := hok c hl
    exact resize_books h hspace hr hl (hspaceOk c hl) haligned hdrop hpending hcommit
  | write id p vecs answers =>
    obtain ⟨r, hr, rfl⟩ := Option.map_eq_some_iff.1 hs'
    obtain ⟨hvectors, hanswers, hpending, hrange⟩ := hok
    exact write_books h hr hvectors hanswers hpending hrange
  | writeAsync id p slot memory =>
    obtain ⟨r, hr, rfl⟩ := Option.map_eq_some_iff.1 hs'
    exact writeAsync_books h hr hok.1 hok.2
  | ioFinished w ok => exact ioFinished_books h hs'
  | freePageSwapSpace id p => exact swapFreePageSwapSpace_books h hs'
  | destroy id => exact destroy_books h hs' hok
  | create id canOvercommit precommittedPages guardPages base size =>
    obtain ⟨hnone, hs'⟩ := Option.ite_none_left_eq_some.1 hs'
    cases hs'
    exact create_books h (by simpa using hnone) hok
  | insertPage id index page =>
    obtain ⟨c, hl, hs'⟩ := Option.map_eq_some_iff.1 hs'
    cases hs'
    refine h.setPages hl fun w _ _ hres => ?_
    by_cases hi : w.pageIndex = index
    · rw [hi, AList.lookup_insert]
      rfl
    · rw [AList.lookup_insert_ne hi, AnonymousCache.removePage, AList.lookup_erase_ne hi]
      exact hres
  | removePage id index =>
    obtain ⟨c, hl, hs'⟩ := Option.map_eq_some_iff.1 hs'
    cases hs'
    refine h.setPages hl fun w hw hcache hres => ?_
    rw [AList.lookup_erase_ne fun hi => hok w hw ⟨hcache, hi⟩]
    exact hres

lemma books_initial (P : Type) : Books (initial P) 0 where
  blocks key b hl := by cases hl
  ledger := by
    refine ⟨?_, ?_, ?_, ?_⟩
    · intro id p id' p' slot hp
      cases hp
    · intro id p slot hp
      cases hp
    · intro id p slot hp
      cases hp
    · intro id c hl
      cases hl
  apart w hw := by cases hw
  pendingOnce := List.nodup_nil
  resident w hw := by cases hw
  le id c hl := by cases hl
  aligned id c hl := by cases hl

/-- The conditions of some calls, checked by evaluation. -/
def checkBooksOk (s : State P) : Call P → Bool
  | .commit id size _ => (s.caches.lookup id).all fun c =>
      decide (c.allocatedSwapSize ≤ (size : ℤ)) && !c.canOvercommit
  | .write id p vecs answers => vecs.all (fun n => n = 1) && answers.all (fun a => a.halvings = 0) &&
      s.pending.isEmpty && (s.caches.lookup id).any fun c =>
        c.virtualBase / pageSize ≤ p ∧ (p + vecs.sum) * pageSize ≤ c.virtualEnd
  | .writeAsync id p _ _ => (s.pending.all fun w => !(w.cache = id ∧ w.pageIndex = p)) &&
      (s.caches.lookup id).all fun c =>
        (c.virtualBase / pageSize ≤ p ∧ p * pageSize < c.virtualEnd) ∧ (c.lookupPage p).isSome
  | .destroy id => s.pending.all fun w => w.cache ≠ id
  | .create _ _ _ _ base size => base % pageSize = 0 ∧ size % pageSize = 0
  | .removePage id p => s.pending.all fun w => !(w.cache = id ∧ w.pageIndex = p)
  | .merge _ _ => false
  | .resize _ _ _ => false
  | _ => true

lemma vectorsOk_of_ones {f : ℕ → Option ℕ} {vecs : List ℕ} (h : ∀ n ∈ vecs, n = 1) :
    ∀ p, vectorsOk f p vecs := by
  induction vecs with
  | nil => exact fun _ => trivial
  | cons n vecs ih =>
    intro p
    refine ⟨?_, ih (fun m hm => h m (List.mem_cons_of_mem _ hm)) _⟩
    have hn := h n List.mem_cons_self
    cases hp : f p with
    | none =>
      left
      intro k hk
      rwa [show k = 0 by omega]
    | some slot =>
      right
      refine ⟨slot, fun k hk => ?_⟩
      rwa [show k = 0 by omega]

lemma booksOk_of_check (s : State P) (call : Call P) (h : checkBooksOk s call = true) :
    booksOk s call := by
  cases call with
  | commit id size memory =>
    intro c hl
    simp only [checkBooksOk, hl, Option.all_some, Bool.and_eq_true, decide_eq_true_eq,
      Bool.not_eq_true'] at h
    exact ⟨h.1, fun hover => by rw [h.2] at hover; cases hover⟩
  | write id p vecs answers =>
    simp only [checkBooksOk, Bool.and_eq_true, List.all_eq_true, decide_eq_true_eq,
      List.isEmpty_iff, Option.any_eq_true] at h
    obtain ⟨⟨⟨hvecs, hanswers⟩, hpending⟩, c, hl, hbase, hend⟩ := h
    refine ⟨vectorsOk_of_ones hvecs p, hanswers, ?_, c, hl, fun q hq hq' => ⟨by omega, ?_⟩⟩
    · rw [hpending]
      exact fun w hw => absurd hw List.not_mem_nil
    · simp only [pageSize] at hend ⊢
      omega
  | writeAsync id p slot memory =>
    simp only [checkBooksOk, Bool.and_eq_true, List.all_eq_true, Bool.not_eq_true',
      decide_eq_false_iff_not] at h
    refine ⟨h.1, fun c hl => ?_⟩
    have hc := h.2
    simp only [hl, Option.all_some, decide_eq_true_eq] at hc
    exact hc
  | destroy id =>
    intro w hw
    simpa using List.all_eq_true.1 h w hw
  | create id canOvercommit precommittedPages guardPages base size =>
    simp only [checkBooksOk, decide_eq_true_eq] at h
    exact ⟨Nat.dvd_of_mod_eq_zero h.1, Nat.dvd_of_mod_eq_zero h.2⟩
  | removePage id p =>
    intro w hw
    have hw' := List.all_eq_true.1 h w hw
    simpa only [Bool.not_eq_true', decide_eq_false_iff_not] using hw'
  | merge consumer source => cases h
  | resize id newSize memory => cases h
  | _ => trivial

/-- Two pages are swapped out, one of them twice, and one write is still in flight. -/
def swapOut : List (Call ℕ) :=
  [.fileAdd 1 40960, .create 0 false 0 0 0 8192, .commit 0 8192 true, .insertPage 0 0 ⟨7, true⟩,
    .write 0 0 [1] [⟨0, 3, true⟩], .write 0 0 [1, 1] [⟨0, 5, true⟩, ⟨0, 6, true⟩],
    .freePageSwapSpace 0 0, .writeAsync 0 0 4 true]

/-- A page is swapped out in each of two caches, and they are merged. -/
def mergeSwapped : List (Call ℕ) :=
  [.fileAdd 1 40960, .create 0 false 0 0 0 8192, .create 1 false 0 0 0 8192, .commit 0 8192 true,
    .commit 1 8192 true, .writeAsync 0 0 3 true, .ioFinished ⟨0, 0, 3, true⟩ true,
    .writeAsync 1 1 4 true, .ioFinished ⟨1, 1, 4, true⟩ true, .merge 0 1]

end Haiku.Swap
