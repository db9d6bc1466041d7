import Haiku.Cache.Invariant

/-!
# Fetching, putting and evicting blocks

What the functions of `Blocks.lean` do to the invariants. Evictions are summed up by
`Evicts`: a few clean blocks of the unused list leave the cache. A block that has just been
fetched is described by `Fetched`, which is all that the rest of the development needs to
know about `get_cached_block()`.
-/

namespace Haiku.Cache

open Function Lib

variable {D : Type} {s s' : BlockCache D} {n : BlockNumber} {b : CachedBlock D}

/-! ## Eviction -/

/-- Clean unused blocks leave the cache, one after the other. -/
inductive Evicts : BlockCache D → BlockCache D → Prop
  | refl (s : BlockCache D) : Evicts s s
  | head {s s' : BlockCache D} {n : BlockNumber} {b : CachedBlock D} (cached : s.hash n = some b)
      (unused : b.unused = true) (clean : b.isDirty = false) (idle : b.busyWriting = false)
      (rest : Evicts ((s.dropUnused n).removeBlock n) s') : Evicts s s'

def BlockCache.Evictable (s : BlockCache D) : Prop :=
  ∀ n b, s.hash n = some b → b.unused = true → b.isDirty = false ∧ b.busyWriting = false

lemma evictable_evict (h : s.Evictable) (n : BlockNumber) :
    ((s.dropUnused n).removeBlock n).Evictable := by
  intro m b hm hu
  simp only [removeBlock_hash, dropUnused_hash, update_apply] at hm
  split at hm
  · cases hm
  · exact h m b hm hu

lemma unused_evict (h : Unused s) (hn : s.hash n = some b) (hu : b.unused = true) :
    Unused ((s.dropUnused n).removeBlock n) where
  mem_iff m := by
    show m ∈ s.unusedBlocks.erase n ↔ _
    rw [h.nodup.mem_erase_iff, h.mem_iff m]
    simp only [removeBlock_hash, dropUnused_hash, update_apply]
    by_cases hm : m = n <;> simp [hm]
  nodup := h.nodup.erase n
  count := by
    have hmem : n ∈ s.unusedBlocks := (h.mem_iff n).2 ⟨b, hn, hu⟩
    have hlen : 0 < s.unusedBlocks.length := List.length_pos_of_mem hmem
    show s.unusedBlockCount - 1 = ((s.unusedBlocks.erase n).length : ℤ)
    rw [List.length_erase_of_mem hmem, h.count]
    omega
  idle m b' hm hu' := by
    simp only [removeBlock_hash, dropUnused_hash, update_apply] at hm
    split at hm
    · cases hm
    · exact h.idle m b' hm hu'

lemma role_evict (ho : Owners s) (h : Unused s)
    (hn : s.hash n = some b) (hu : b.unused = true) (m : BlockNumber) :
    ((s.dropUnused n).removeBlock n).role m = s.role m := by
  rw [removeBlock_role]
  split
  · rename_i hm
    subst hm
    obtain ⟨-, htr, hprev⟩ := h.idle m b hn hu
    have hrole := role_of_cached hn
    have hfree := ho.free m (by rw [hrole]; exact htr)
    rw [hrole] at hfree ⊢
    simp only [roleOf] at hfree ⊢
    rw [hfree.1, hfree.2, htr, hprev]
  · rfl

lemma owners_evict (ho : Owners s) (h : Unused s) (hn : s.hash n = some b) (hu : b.unused = true) :
    Owners ((s.dropUnused n).removeBlock n) := by
  refine ho.congr (role_evict ho h hn hu) rfl rfl ?_
  intro m b' hm
  simp only [removeBlock_hash, dropUnused_hash, update_apply] at hm
  split at hm
  · cases hm
  · exact ho.no_discard m b' hm

lemma busy_evict {l : List BlockNumber} (ho : Owners s) (h : Unused s)
    (hb : Busy s l) (hn : s.hash n = some b) (hu : b.unused = true) (hnb : b.busyWriting = false) :
    Busy ((s.dropUnused n).removeBlock n) l := by
  refine hb.congr rfl rfl (fun m => ?_) (role_evict ho h hn hu) rfl
  simp only [removeBlock_hash, dropUnused_hash, update_apply]
  by_cases hm : m = n
  · subst hm
    simp [hn, hnb]
  · simp [hm]

lemma Inv.evict (h : Inv s)
    (hn : s.hash n = some b) (hu : b.unused = true) (hnb : b.busyWriting = false) :
    Inv ((s.dropUnused n).removeBlock n) :=
  ⟨owners_evict h.owners h.unused hn hu, h.counts.congr (role_evict h.owners h.unused hn hu) rfl,
    unused_evict h.unused hn hu, busy_evict h.owners h.unused h.busy hn hu hnb⟩

lemma Inv.evicts (h : Inv s) (he : Evicts s s') : Inv s' := by
  induction he with
  | refl s => exact h
  | head cached unused _ idle _ ih => exact ih (h.evict cached unused idle)

/-- What evictions leave alone. -/
structure SameRest (s s' : BlockCache D) : Prop where
  role : ∀ n, s'.role n = s.role n
  transactionHash : s'.transactionHash = s.transactionHash
  device : s'.device = s.device
  written : s'.written = s.written
  notified : s'.notified = s.notified
  writers : s'.writers = s.writers
  nextTransactionId : s'.nextTransactionId = s.nextTransactionId
  /-- A block that is not on the unused list stays as it is; no block enters the cache. -/
  hash : ∀ n, s'.hash n = s.hash n ∨ s'.hash n = none ∧ ∃ b, s.hash n = some b ∧
    b.unused = true ∧ b.isDirty = false

lemma Evicts.sameRest (he : Evicts s s') (h : Inv s) : SameRest s s' := by
  induction he with
  | refl s => exact ⟨fun _ => rfl, rfl, rfl, rfl, rfl, rfl, rfl, fun _ => .inl rfl⟩
  | @head s s' n b cached unused clean idle _ ih =>
    have hr := ih (h.evict cached unused idle)
    refine ⟨fun m => ?_, hr.transactionHash, hr.device, hr.written, hr.notified, hr.writers,
      hr.nextTransactionId, fun m => ?_⟩
    · rw [hr.role m, role_evict h.owners h.unused cached unused]
    · have hm := hr.hash m
      simp only [removeBlock_hash, dropUnused_hash, update_apply] at hm
      by_cases hmn : m = n
      · subst hmn
        simp only [↓reduceIte, reduceCtorEq, false_and, exists_false, and_false, or_false] at hm
        exact .inr ⟨hm, b, cached, unused, clean⟩
      · simpa only [hmn, ↓reduceIte] using hm

lemma SameRest.kept (h : SameRest s s') (hn : s.hash n = some b) (hu : b.unused = false) :
    s'.hash n = some b := by
  rcases h.hash n with he | ⟨-, b', hb', hu', -⟩
  · rw [he, hn]
  · rw [hn] at hb'
    cases hb'
    rw [hu] at hu'
    cases hu'

lemma removeUnusedLoop_evicts (minSecondsOld now : ℤ) (l : List BlockNumber) :
    ∀ (count : ℤ) (s : BlockCache D), l.Nodup →
      (∀ n ∈ l, ∃ b, s.hash n = some b ∧ b.unused = true) → s.Evictable →
      Evicts s (BlockCache.removeUnusedLoop minSecondsOld now l count s) := by
  induction l with
  | nil => intro count s _ _ _; exact .refl s
  | cons n rest ih =>
    intro count s hnd hl hclean
    obtain ⟨b, hb, hu⟩ := hl n List.mem_cons_self
    obtain ⟨hdirty, hidle⟩ := hclean n b hb hu
    have hrest : ∀ m ∈ rest, ∃ b, s.hash m = some b ∧ b.unused = true :=
      fun m hm => hl m (List.mem_cons_of_mem _ hm)
    have hnd' := List.nodup_cons.1 hnd
    simp only [BlockCache.removeUnusedLoop, hb, hdirty, Bool.false_and, Bool.false_eq_true,
      ↓reduceIte]
    split_ifs
    · exact .refl s
    · exact ih count s hnd'.2 hrest hclean
    · exact .head hb hu hdirty hidle (.refl _)
    · refine .head hb hu hdirty hidle (ih _ _ hnd'.2 (fun m hm => ?_) (evictable_evict hclean n))
      have hmn : m ≠ n := fun h => hnd'.1 (h ▸ hm)
      simpa [update_apply, hmn] using hrest m hm

lemma removeUnusedBlocks_evicts (h : Unused s) (hc : s.Evictable) (count minSecondsOld now : ℤ) :
    Evicts s (s.removeUnusedBlocks count minSecondsOld now) :=
  removeUnusedLoop_evicts minSecondsOld now s.unusedBlocks count s h.nodup
    (fun n hn => (h.mem_iff n).1 hn) hc

lemma allocate_evicts (h : Unused s) {m : Memory}
    (hc : m.shrink = true → s.Evictable) : Evicts s (s.allocate m) := by
  unfold BlockCache.allocate
  split
  · rename_i hm
    exact removeUnusedBlocks_evicts h (hc hm) _ _ _
  · exact .refl s

lemma map_reuse_eq {ws : List BlockWriter} {old : BlockNumber} (n : BlockNumber)
    (h : old ∉ ws.flatMap BlockWriter.blocks) : ws.map (BlockWriter.reuse old n) = ws := by
  have hmap : ∀ l : List BlockNumber, old ∉ l →
      l.map (fun m => if m = old then n else m) = l := by
    intro l hl
    conv_rhs => rw [← List.map_id l]
    refine List.map_congr_left fun m hm => ?_
    rw [if_neg (fun he : m = old => hl (he ▸ hm)), id]
  conv_rhs => rw [← List.map_id ws]
  refine List.map_congr_left fun w hw => ?_
  have hw' : old ∉ w.pending ∧ old ∉ w.done := by
    constructor <;> intro hm <;> apply h <;> rw [List.mem_flatMap] <;>
      exact ⟨w, hw, by simp [BlockWriter.blocks, hm]⟩
  simp only [BlockWriter.reuse, hmap _ hw'.1, hmap _ hw'.2, id]

lemma getUnusedBlock_evicts (h : Inv s) (hc : s.Evictable)
    (hs : s.getUnusedBlock n = some s') : Evicts s s' := by
  unfold BlockCache.getUnusedBlock at hs
  split at hs
  · cases hs
  · rename_i old rest hl
    have hmem : old ∈ s.unusedBlocks := by rw [hl]; exact List.mem_cons_self
    obtain ⟨b, hb, hu⟩ := (h.unused.mem_iff old).1 hmem
    obtain ⟨hdirty, hidle⟩ := hc old b hb hu
    have hw : old ∉ s.writers.flatMap BlockWriter.blocks := by
      intro hf
      obtain ⟨b', hb', hbusy⟩ := (h.busy.busy_iff old).1 hf
      rw [hb] at hb'
      cases hb'
      rw [hidle] at hbusy
      cases hbusy
    simp only [hb, hdirty, Bool.false_and, Bool.false_eq_true, ↓reduceIte,
      removeBlock_writers, dropUnused_writers, map_reuse_eq n hw, Option.some.injEq] at hs
    subst hs
    exact .head hb hu hdirty hidle (.refl _)

lemma newBlock_evicts (h : Inv s) {m : Memory}
    (hc : (m.reuse || m.shrink) = true → s.Evictable) (n : BlockNumber) :
    Evicts s (s.newBlock m n) := by
  unfold BlockCache.newBlock
  split
  · rename_i s' hs
    by_cases hr : m.reuse = true
    · rw [if_pos hr] at hs
      exact getUnusedBlock_evicts h (hc (by simp [hr])) hs
    · rw [if_neg hr] at hs
      cases hs
  · exact allocate_evicts h.unused fun hm => hc (by simp [hm])

/-! ## Changing one block

Each of the groups of facts has a lemma for a state `s'` that differs from `s` in the
block `n` (and perhaps in the list of unused blocks). -/

lemma role_set (hh : s'.hash = update s.hash n (some b))
    (hrole : s.role n = roleOf (some b)) (m : BlockNumber) : s'.role m = s.role m := by
  rw [BlockCache.role, hh, update_apply]
  split
  · rename_i hm
    rw [hm, hrole]
  · rfl

lemma hash_set (hh : s'.hash = update s.hash n (some b)) {m : BlockNumber}
    {c : CachedBlock D} (hm : s'.hash m = some c) :
    m = n ∧ c = b ∨ m ≠ n ∧ s.hash m = some c := by
  rw [hh, update_apply] at hm
  split at hm
  · rename_i hmn
    cases hm
    exact .inl ⟨hmn, rfl⟩
  · rename_i hmn
    exact .inr ⟨hmn, hm⟩

lemma Owners.set (h : Owners s) (hh : s'.hash = update s.hash n (some b))
    (hth : s'.transactionHash = s.transactionHash)
    (hid : s'.nextTransactionId = s.nextTransactionId)
    (hrole : s.role n = roleOf (some b)) (hd : b.discard = false) : Owners s' := by
  refine h.congr (role_set hh hrole) hth hid ?_
  intro m c hm
  rcases hash_set hh hm with ⟨-, rfl⟩ | ⟨-, hc⟩
  · exact hd
  · exact h.no_discard m c hc

lemma Unused.set (h : Unused s) (hh : s'.hash = update s.hash n (some b))
    (hl : s'.unusedBlocks = s.unusedBlocks) (hc : s'.unusedBlockCount = s.unusedBlockCount)
    (hn : n ∉ s.unusedBlocks) (hu : b.unused = false) : Unused s' := by
  refine h.congr hl hc (fun m => ?_) ?_
  · rw [hh]
    by_cases hm : m = n
    · subst hm
      rw [← h.mem_iff m]
      simp [hu, hn]
    · simp [hm]
  · intro m c hm hu'
    rcases hash_set hh hm with ⟨-, rfl⟩ | ⟨-, hc⟩
    · rw [hu] at hu'
      cases hu'
    · exact h.idle m c hc hu'

lemma Unused.add (h : Unused s) (hh : s'.hash = update s.hash n (some b))
    (hl : s'.unusedBlocks = s.unusedBlocks ++ [n])
    (hc : s'.unusedBlockCount = s.unusedBlockCount + 1)
    (hn : n ∉ s.unusedBlocks) (hu : b.unused = true)
    (hidle : b.refCount = 0 ∧ b.transaction = none ∧ b.previousTransaction = none) :
    Unused s' where
  mem_iff m := by
    rw [hl, hh, List.mem_append, List.mem_singleton, h.mem_iff m]
    by_cases hm : m = n
    · subst hm
      simp [hu]
    · simp [hm]
  nodup := by
    rw [hl]
    refine List.nodup_append.2 ⟨h.nodup, List.nodup_singleton n, ?_⟩
    intro a ha c hc he
    rw [List.mem_singleton] at hc
    exact hn (hc ▸ he ▸ ha)
  count := by
    rw [hl, hc, h.count, List.length_append]
    simp
  idle m c hm hu' := by
    rcases hash_set hh hm with ⟨-, rfl⟩ | ⟨-, hc⟩
    · exact hidle
    · exact h.idle m c hc hu'

lemma Unused.take (h : Unused s) (hh : s'.hash = update s.hash n (some b))
    (hl : s'.unusedBlocks = s.unusedBlocks.erase n)
    (hc : s'.unusedBlockCount = s.unusedBlockCount - 1)
    (hn : n ∈ s.unusedBlocks) (hu : b.unused = false) : Unused s' where
  mem_iff m := by
    rw [hl, hh, h.nodup.mem_erase_iff, h.mem_iff m]
    by_cases hm : m = n
    · subst hm
      simp [hu]
    · simp [hm]
  nodup := by
    rw [hl]
    exact h.nodup.erase n
  count := by
    have hlen : 0 < s.unusedBlocks.length := List.length_pos_of_mem hn
    rw [hl, hc, List.length_erase_of_mem hn, h.count]
    omega
  idle m c hm hu' := by
    rcases hash_set hh hm with ⟨-, rfl⟩ | ⟨-, hc⟩
    · rw [hu] at hu'
      cases hu'
    · exact h.idle m c hc hu'

lemma Busy.set {l : List BlockNumber} (h : Busy s l)
    (hh : s'.hash = Function.update s.hash n (some b)) (hw : s'.writers = s.writers)
    (hc : s'.busyWritingCount = s.busyWritingCount)
    (hth : s'.transactionHash = s.transactionHash) (hrole : s.role n = roleOf (some b))
    (hb : b.busyWriting = true ↔ ∃ b', s.hash n = some b' ∧ b'.busyWriting = true) :
    Busy s' l := by
  refine h.congr hw hc (fun m => ?_) (role_set hh hrole) hth
  rw [hh]
  by_cases hm : m = n
  · subst hm
    simp [hb]
  · simp [hm]

lemma Unused.notMem (h : Unused s)
    (hb : s.hash n = some b) (hu : b.unused = false) : n ∉ s.unusedBlocks := by
  intro hm
  obtain ⟨b', hb', hu'⟩ := (h.mem_iff n).1 hm
  rw [hb] at hb'
  cases hb'
  rw [hu] at hu'
  cases hu'

lemma Unused.referenced (h : Unused s) (hb : s.hash n = some b) (href : 0 < b.refCount) :
    b.unused = false := by
  cases hu : b.unused with
  | false => rfl
  | true =>
    have := (h.idle n b hb hu).1
    omega

/-! ## `put_cached_block()` -/

lemma put_cases (h : Owners s) (hs : s.putCachedBlock n = some s') :
    s' = s ∧ s.hash n = none ∨ ∃ b, s.hash n = some b ∧ 0 < b.refCount ∧
      ((b.refCount = 1 ∧ b.transaction = none ∧ b.previousTransaction = none ∧
        s' = (s.setBlock n
          { b with refCount := 0, isWriting := false, unused := true }).addUnused n) ∨
      (¬ (b.refCount = 1 ∧ b.transaction = none ∧ b.previousTransaction = none) ∧
        s' = s.setBlock n { b with refCount := b.refCount - 1 })) := by
  unfold BlockCache.putCachedBlock at hs
  split at hs
  · rename_i hn
    cases hs
    exact .inl ⟨rfl, hn⟩
  · rename_i b hb
    refine .inr ⟨b, hb, ?_⟩
    have hnd := h.no_discard n b hb
    split at hs
    · cases hs
    · rename_i href
      refine ⟨by omega, ?_⟩
      simp only [hnd, Bool.false_eq_true, ↓reduceIte] at hs
      split at hs
      · rename_i hidle
        cases hs
        refine .inl ⟨by omega, hidle.2.1, hidle.2.2, ?_⟩
        rw [hidle.1]
        simp [hnd]
      · rename_i hidle
        cases hs
        refine .inr ⟨fun hc => hidle ⟨by omega, hc.2⟩, ?_⟩
        simp [hnd]

lemma inv_put (h : Inv s) (hs : s.putCachedBlock n = some s') : Inv s' := by
  rcases put_cases h.owners hs with ⟨rfl, -⟩ | ⟨b, hb, href, hcase⟩
  · exact h
  · have hnd := h.owners.no_discard n b hb
    have hrole := role_of_cached hb
    have huf := h.unused.referenced hb href
    have hu := h.unused.notMem hb huf
    rcases hcase with ⟨-, htr, hprev, rfl⟩ | ⟨-, rfl⟩
    · exact ⟨h.owners.set rfl rfl rfl hrole hnd, h.counts.congr (role_set rfl hrole) rfl,
        h.unused.add rfl rfl rfl hu rfl ⟨rfl, htr, hprev⟩,
        h.busy.set rfl rfl rfl rfl hrole (by simp [hb])⟩
    · exact ⟨h.owners.set rfl rfl rfl hrole hnd, h.counts.congr (role_set rfl hrole) rfl,
        h.unused.set rfl rfl rfl hu huf,
        h.busy.set rfl rfl rfl rfl hrole (by simp [hb])⟩

/-! ## `get_cached_block()` -/

/-- What is known about the state after block `n` was fetched: up to evictions, only block
`n` differs, which now has a reference and is off the unused list. -/
structure Fetched (s s' : BlockCache D) (n : BlockNumber) (allocated : Bool)
    (b : CachedBlock D) : Prop where
  inv : Inv s'
  role : ∀ m, s'.role m = s.role m
  transactionHash : s'.transactionHash = s.transactionHash
  device : s'.device = s.device
  written : s'.written = s.written
  notified : s'.notified = s.notified
  writers : s'.writers = s.writers
  nextTransactionId : s'.nextTransactionId = s.nextTransactionId
  cached : s'.hash n = some b
  notUnused : b.unused = false
  refCount : 0 < b.refCount
  allocated_iff : allocated = true ↔ s.hash n = none
  others : ∀ m, m ≠ n → s'.hash m = s.hash m ∨ s'.hash m = none ∧
    ∃ c, s.hash m = some c ∧ c.unused = true ∧ c.isDirty = false
  /-- A block that was cached keeps its contents and its flags. -/
  same : ∀ c, s.hash n = some c → b.currentData = c.currentData ∧ b.isDirty = c.isDirty ∧
    b.isWriting = c.isWriting ∧ b.busyWriting = c.busyWriting
  fresh : s.hash n = none → b.isDirty = false ∧ b.isWriting = false ∧ b.busyWriting = false
  evictable : s.Evictable → s'.Evictable

lemma Evicts.evictable (he : Evicts s s') (h : s.Evictable) : s'.Evictable := by
  induction he with
  | refl s => exact h
  | head _ _ _ _ _ ih => exact ih (evictable_evict h _)

lemma evictable_set (h : s.Evictable) (hh : s'.hash = update s.hash n (some b))
    (hu : b.unused = false) : s'.Evictable := by
  intro m c hm hu'
  rcases hash_set hh hm with ⟨-, rfl⟩ | ⟨-, hc⟩
  · rw [hu] at hu'
    cases hu'
  · exact h m c hc hu'

variable [Zero D]

lemma fetched_getCachedBlock (h : Inv s) {m : Memory}
    (hc : (m.reuse || m.shrink) = true → s.Evictable) {read : Bool}
    {allocated : Bool} (hs : s.getCachedBlock m n read = some (s', allocated)) :
    ∃ b, Fetched s s' n allocated b ∧
      (s.hash n = none → b.currentData = if read then s.device n else 0) := by
  unfold BlockCache.getCachedBlock at hs
  split at hs
  · cases hs
  · cases hn : s.hash n with
    | none =>
      simp only [hn, Option.some.injEq, Prod.mk.injEq] at hs
      obtain ⟨rfl, rfl⟩ := hs
      have he := newBlock_evicts h hc n
      have hq := h.evicts he
      have hrest := he.sameRest h
      have hnone : (s.newBlock m n).hash n = none := by
        rcases hrest.hash n with h' | ⟨h', -⟩
        · rw [h', hn]
        · exact h'
      have hrole : (s.newBlock m n).role n = roleOf none := role_of_not_cached hnone
      have hnu : n ∉ (s.newBlock m n).unusedBlocks := by
        intro hm
        obtain ⟨b, hb, -⟩ := (hq.unused.mem_iff n).1 hm
        rw [hnone] at hb
        cases hb
      refine ⟨_, ⟨⟨hq.owners.set rfl rfl rfl hrole rfl, hq.counts.congr (role_set rfl hrole) rfl,
          hq.unused.set rfl rfl rfl hnu rfl,
          hq.busy.set rfl rfl rfl rfl hrole (by simp [hnone, CachedBlock.fresh])⟩,
        fun k => ?_, hrest.transactionHash,
        hrest.device, hrest.written, hrest.notified, hrest.writers, hrest.nextTransactionId,
        by rw [setBlock_hash, Function.update_self], rfl, Nat.one_pos, by simp [hn],
        fun k hk => ?_, by simp [hn], fun _ => ⟨rfl, rfl, rfl⟩,
        fun hd => evictable_set (he.evictable hd) rfl rfl⟩, fun _ => ?_⟩
      · rw [role_set rfl hrole k, hrest.role]
      · simpa [hk] using hrest.hash k
      · simp [CachedBlock.fresh, hrest.device]
    | some b =>
      simp only [hn] at hs
      split at hs
      · cases hs
      · cases hs
        have hrole := role_of_cached hn
        have hnd := h.owners.no_discard n b hn
        set b' : CachedBlock D :=
          { b with unused := false, refCount := b.refCount + 1, lastAccessed := m.now } with hb'
        refine ⟨b', ?_, by simp⟩
        have hfields : ∀ s₁ : BlockCache D, s₁ = s ∨ s₁ = s.dropUnused n →
            s₁.hash = s.hash ∧ s₁.transactionHash = s.transactionHash ∧
            s₁.device = s.device ∧ s₁.written = s.written ∧ s₁.notified = s.notified ∧
            s₁.writers = s.writers ∧ s₁.nextTransactionId = s.nextTransactionId ∧
            s₁.busyWritingCount = s.busyWritingCount := by
          rintro s₁ (rfl | rfl) <;> exact ⟨rfl, rfl, rfl, rfl, rfl, rfl, rfl, rfl⟩
        set s₁ := if b.unused = true then s.dropUnused n else s with hs₁
        obtain ⟨hh, hth, hdev, hwr, hno, hws, hid, hbc⟩ := hfields s₁ (by
          rw [hs₁]; split
          · exact .inr rfl
          · exact .inl rfl)
        have hset : (s₁.setBlock n b').hash = Function.update s.hash n (some b') := by
          rw [setBlock_hash, hh]
        have hunused : Unused (s₁.setBlock n b') := by
          by_cases hu : b.unused = true
          · rw [if_pos hu] at hs₁
            rw [hs₁]
            exact h.unused.take rfl rfl rfl ((h.unused.mem_iff n).2 ⟨b, hn, hu⟩) rfl
          · rw [if_neg hu] at hs₁
            rw [hs₁]
            exact h.unused.set rfl rfl rfl
              (h.unused.notMem hn (by simpa using hu)) rfl
        refine ⟨⟨h.owners.set hset hth hid hrole hnd,
            h.counts.congr (role_set hset hrole) hth, hunused,
            h.busy.set hset hws hbc hth hrole (by simp [hn, hb'])⟩, role_set hset hrole, hth, hdev, hwr, hno, hws,
          hid, by rw [hset, Function.update_self], rfl, Nat.succ_pos _, by simp [hn],
          fun k hk => .inl (by rw [hset, Function.update_of_ne hk]), fun c hc' => ?_,
          by simp [hn], fun hd => evictable_set hd hset rfl⟩
        rw [hn] at hc'
        cases hc'
        exact ⟨rfl, rfl, rfl, rfl⟩

end Haiku.Cache
