import Haiku.Vfs.EntryCacheReaders

/-!
# Changes with the lock held for writing

No thread is in `Lookup()` then, but for those that wait for the lock with an entry that is in no
array. These entries have no index: clearing a generation does not meet them, and `Remove()` leaves
them to the threads that wait.
-/

namespace Haiku.Vfs

open Function Lib

variable {c c' : EntryCache} {latest : Key → Option Ino} {loose : ℕ → Prop} {p : ℕ}

/-- What holds of the cache while the entry `p` is about to be put into an array -/
structure EntryCache.Open (c : EntryCache) (latest : Key → Option Ino) (loose : ℕ → Prop)
    (p : ℕ) : Prop where
  fault : c.fault = false
  current : c.fCurrentGeneration < kGenerationCount
  table : ∀ key q, c.fEntries key = some q →
    ∃ entry, c.heap q = some entry ∧ entry.key = key ∧ latest key = some entry.nodeID
  slots : ∀ g i q, c.slot g i = some q → g < kGenerationCount ∧ i < kEntriesPerGeneration ∧
    q ≠ p ∧ ∃ entry, c.heap q = some entry ∧ c.fEntries entry.key = some q ∧ entry.index = i ∧
      entry.generation = g
  placed : ∀ key q entry, c.fEntries key = some q → c.heap q = some entry → q ≠ p →
    (0 ≤ entry.index ∧ c.slot entry.generation entry.index.toNat = some q) ∨ loose q
  full : ∀ g ≠ c.fCurrentGeneration, kEntriesPerGeneration ≤ (c.fGenerations g).nextIndex ∨
    ∀ i, c.slot g i = none
  next : ∀ i, (c.fGenerations c.fCurrentGeneration).nextIndex ≤ i →
    c.slot c.fCurrentGeneration i = none
  here : ∃ entry, c.heap p = some entry ∧ c.fEntries entry.key = some p

/-- A change leaves the entry `q` alone if it has no index: neither its key, its index nor where the
table has it is another one afterwards. -/
def EntryCache.Keeps (c c' : EntryCache) (q : ℕ) : Prop :=
  ∀ entry, c.heap q = some entry → entry.index < 0 →
    (∃ entry', c'.heap q = some entry' ∧ entry'.key = entry.key ∧ entry'.index = entry.index) ∧
      ∀ key, c'.fEntries key = some q ↔ c.fEntries key = some q

lemma EntryCache.Keeps.refl (c : EntryCache) (q : ℕ) : c.Keeps c q :=
  fun entry h _ => ⟨⟨entry, h, rfl, rfl⟩, fun _ => Iff.rfl⟩

variable {q : ℕ}

lemma EntryCache.Keeps.trans {c'' : EntryCache} (h : c.Keeps c' q) (h' : c'.Keeps c'' q) :
    c.Keeps c'' q := by
  intro entry he hneg
  obtain ⟨⟨entry', he', hkey, hindex⟩, hentries⟩ := h entry he hneg
  have hneg' : entry'.index < 0 := by omega
  obtain ⟨⟨entry'', he'', hkey', hindex'⟩, hentries'⟩ := h' entry' he' hneg'
  exact ⟨⟨entry'', he'', hkey'.trans hkey, hindex'.trans hindex⟩,
    fun key => (hentries' key).trans (hentries key)⟩

lemma EntryCache.Keeps.of_eq (hheap : c'.heap q = c.heap q)
    (hentries : c'.fEntries = c.fEntries) : c.Keeps c' q :=
  fun entry h _ => ⟨⟨entry, hheap.trans h, rfl, rfl⟩, fun key => by rw [hentries]⟩

lemma EntryCache.Keeps.relock {key : Key} {latest' : Key → Option Ino} (h : c.Keeps c' q)
    (hat : c.At latest (.relock key q)) : c'.At latest' (.relock key q) := by
  obtain ⟨entry, he, hkey, hwhere⟩ := hat
  have hneg : entry.index < 0 := by
    rcases hwhere with ⟨hindex, -⟩ | ⟨hindex, -⟩ <;> rw [hindex] <;> decide
  obtain ⟨⟨entry', he', hkey', hindex⟩, hentries⟩ := h entry he hneg
  refine ⟨entry', he', hkey'.trans hkey, ?_⟩
  rw [hindex, hentries key]
  exact hwhere.imp_right fun hr => ⟨hr.1, fun key' => (hentries key').not.2 (hr.2 key')⟩

/-! ## Clearing a generation -/

variable {g : ℕ} {entry : Entry}

lemma evict_eq {i : ℕ} (hslot : c.slot g i = some q) (hq : c.heap q = some entry) :
    c.evict g i = { c.setSlot g i none with
      fEntries := fun key => if c.fEntries key = some q then none else c.fEntries key
      heap := update c.heap q none } := by
  unfold EntryCache.evict
  rw [hslot]
  dsimp only
  have hheap : (c.setSlot g i none).heap q = some entry := by rw [setSlot_heap, hq]
  have hremoved : ((c.setSlot g i none).removeEntry q).heap q = some entry := by
    rw [removeEntry_eq hheap]
    exact hheap
  rw [free_eq hremoved, removeEntry_eq hheap, setSlot_heap, setSlot_entries]

/-- What the rounds of the loop that clears a generation do -/
structure EntryCache.Evicted (c c' : EntryCache) (p : ℕ) : Prop where
  current : c'.fCurrentGeneration = c.fCurrentGeneration
  nextIndex : ∀ g, (c'.fGenerations g).nextIndex = (c.fGenerations g).nextIndex
  heap : c'.heap p = c.heap p
  shrink : ∀ g i, c.slot g i = none → c'.slot g i = none
  keeps : ∀ q, c.Keeps c' q

lemma EntryCache.Evicted.refl (c : EntryCache) (p : ℕ) : c.Evicted c p :=
  ⟨rfl, fun _ => rfl, rfl, fun _ _ h => h, fun q => .refl c q⟩

lemma EntryCache.Evicted.trans {c'' : EntryCache} (h : c.Evicted c' p)
    (h' : c'.Evicted c'' p) : c.Evicted c'' p :=
  ⟨h'.current.trans h.current, fun g => (h'.nextIndex g).trans (h.nextIndex g),
    h'.heap.trans h.heap, fun g i hi => h'.shrink g i (h.shrink g i hi),
    fun q => (h.keeps q).trans (h'.keeps q)⟩

lemma EntryCache.Open.evict (h : c.Open latest loose p) (g i : ℕ) :
    (c.evict g i).Open latest loose p ∧ c.Evicted (c.evict g i) p ∧
      (c.evict g i).slot g i = none := by
  cases hslot : c.slot g i with
  | none =>
    have heq : c.evict g i = c := by
      unfold EntryCache.evict
      rw [hslot]
    rw [heq]
    exact ⟨h, .refl c p, hslot⟩
  | some other =>
    obtain ⟨hg, hi, hne, entry, hother, hentry, hindex, hgen⟩ := h.slots g i other hslot
    have heq := evict_eq hslot hother
    set c' := c.evict g i
    have hheap : ∀ q ≠ other, c'.heap q = c.heap q := by
      intro q hq
      rw [heq]
      exact update_of_ne hq _ _
    have hslots : ∀ g' j, c'.slot g' j = if g' = g ∧ j = i then none else c.slot g' j := by
      intro g' j
      rw [heq]
      exact setSlot_slot hg hi g' j
    have hnext : ∀ g', (c'.fGenerations g').nextIndex = (c.fGenerations g').nextIndex := by
      intro g'
      rw [heq]
      exact setSlot_nextIndex hg hi g'
    have hcurrent : c'.fCurrentGeneration = c.fCurrentGeneration := by
      rw [heq]
      exact setSlot_current _
    have hfault : c'.fault = c.fault := by
      rw [heq]
      exact setSlot_fault hg hi
    have hentries : ∀ key q, c'.fEntries key = some q ↔ c.fEntries key = some q ∧ q ≠ other := by
      intro key q
      rw [heq]
      show (if c.fEntries key = some other then none else c.fEntries key) = some q ↔ _
      by_cases hk : c.fEntries key = some other
      · rw [if_pos hk, hk]
        exact ⟨nofun, fun hq => absurd (Option.some.inj hq.1).symm hq.2⟩
      · rw [if_neg hk]
        exact ⟨fun hq => ⟨hq, fun hc => hk (hc ▸ hq)⟩, fun hq => hq.1⟩
    have hempty : ∀ g' j, c.slot g' j = none → c'.slot g' j = none := by
      intro g' j hj
      rw [hslots]
      split_ifs
      · rfl
      · exact hj
    refine ⟨⟨hfault.trans h.fault, hcurrent ▸ h.current, fun key q hq => ?_, fun g' j q hq => ?_,
      fun key q e hq he hqp => ?_, fun g' hg' => ?_, fun j hj => ?_, ?_⟩,
      ⟨hcurrent, hnext, hheap p hne.symm, hempty, fun q e he hneg => ?_⟩, ?_⟩
    · obtain ⟨hq', hqo⟩ := (hentries key q).1 hq
      rw [hheap q hqo]
      exact h.table key q hq'
    · rw [hslots] at hq
      split_ifs at hq with hc
      obtain ⟨hg', hj, hqp, e, he, hkey, hij, hgen'⟩ := h.slots g' j q hq
      -- an entry is in one slot only
      have hqo : q ≠ other := by
        rintro rfl
        rw [hother] at he
        cases he
        have hj' : j = i := by omega
        exact hc ⟨hgen'.symm.trans hgen, hj'⟩
      exact ⟨hg', hj, hqp, e, (hheap q hqo).trans he, (hentries e.key q).2 ⟨hkey, hqo⟩, hij, hgen'⟩
    · obtain ⟨hq', hqo⟩ := (hentries key q).1 hq
      rw [hheap q hqo] at he
      refine (h.placed key q e hq' he hqp).imp_left fun hwhere => ⟨hwhere.1, ?_⟩
      rw [hslots, if_neg]
      · exact hwhere.2
      · rintro ⟨hg', hj⟩
        have hsame := hwhere.2
        rw [hg', hj, hslot] at hsame
        exact hqo (Option.some.inj hsame).symm
    · rw [hcurrent] at hg'
      rw [hnext]
      exact (h.full g' hg').imp_right fun hall j => hempty g' j (hall j)
    · rw [hcurrent, hnext] at hj
      rw [hcurrent]
      exact hempty _ j (h.next j hj)
    · obtain ⟨e, he, hkey⟩ := h.here
      exact ⟨e, (hheap p hne.symm).trans he, (hentries e.key p).2 ⟨hkey, hne.symm⟩⟩
    · have hqo : q ≠ other := by
        rintro rfl
        rw [hother] at he
        cases he
        omega
      exact ⟨⟨e, (hheap q hqo).trans he, rfl, rfl⟩,
        fun key => (hentries key q).trans (and_iff_left hqo)⟩
    · rw [hslots, if_pos ⟨rfl, rfl⟩]

lemma EntryCache.Open.foldl_evict (g : ℕ) (l : List ℕ) (h : c.Open latest loose p) :
    (l.foldl (·.evict g ·) c).Open latest loose p ∧
      c.Evicted (l.foldl (·.evict g ·) c) p ∧
        ∀ i ∈ l, (l.foldl (·.evict g ·) c).slot g i = none := by
  induction l generalizing c with
  | nil => exact ⟨h, .refl c p, nofun⟩
  | cons i l ih =>
    obtain ⟨hopen, hstep, hnone⟩ := h.evict g i
    obtain ⟨hopen', hrest, hall⟩ := ih hopen
    refine ⟨hopen', hstep.trans hrest, fun j hj => ?_⟩
    rcases List.mem_cons.1 hj with rfl | hj
    · exact hrest.shrink g j hnone
    · exact hall j hj

/-! ## Putting an entry into an array -/

/-- What putting the entry `p` into an array leads to -/
structure EntryCache.Filed (c c' : EntryCache) (latest : Key → Option Ino) (loose : ℕ → Prop)
    (p : ℕ) (nodeID : Ino) : Prop where
  sound : c'.Sound latest (fun _ _ => False) loose
  keeps : ∀ q ≠ p, c.Keeps c' q
  node : ∃ entry, c'.heap p = some entry ∧ entry.nodeID = nodeID

variable {loose' : ℕ → Prop}

section

variable (h : c.Open latest loose p)
include h

lemma EntryCache.Open.store {i : ℕ} (hi : i < kEntriesPerGeneration)
    (hfree : c.slot c.fCurrentGeneration i = none)
    (hnext : i < (c.fGenerations c.fCurrentGeneration).nextIndex)
    (hloose : ∀ q ≠ p, loose q → loose' q) (hp : c.heap p = some entry) :
    c.Filed ((c.setSlot c.fCurrentGeneration (i : ℤ) (some p)).modify p fun entry =>
      { entry with generation := c.fCurrentGeneration, index := i }) latest loose' p
        entry.nodeID := by
  have hstored : (c.setSlot c.fCurrentGeneration (i : ℤ) (some p)).heap p = some entry := by
    rw [setSlot_heap, hp]
  have heq : ((c.setSlot c.fCurrentGeneration (i : ℤ) (some p)).modify p fun entry =>
      { entry with generation := c.fCurrentGeneration, index := i }) = { c with
        fGenerations := (c.setSlot c.fCurrentGeneration (i : ℤ) (some p)).fGenerations
        heap := update c.heap p
          (some { entry with generation := c.fCurrentGeneration, index := i }) } := by
    rw [modify_eq hstored, setSlot_eq h.current hi]
  rw [heq]
  set c' : EntryCache := { c with
    fGenerations := (c.setSlot c.fCurrentGeneration (i : ℤ) (some p)).fGenerations
    heap := update c.heap p
      (some { entry with generation := c.fCurrentGeneration, index := i }) } with hc'
  have hself : c'.heap p = some { entry with generation := c.fCurrentGeneration, index := i } :=
    update_self _ _ _
  have hother : ∀ q ≠ p, c'.heap q = c.heap q := fun q hq => update_of_ne hq _ _
  have hslots : ∀ g j, c'.slot g j =
      if g = c.fCurrentGeneration ∧ j = i then some p else c.slot g j :=
    setSlot_slot h.current hi
  have hcount : ∀ g, (c'.fGenerations g).nextIndex = (c.fGenerations g).nextIndex :=
    setSlot_nextIndex h.current hi
  obtain ⟨e, he, hkey⟩ := h.here
  rw [hp] at he
  cases he
  refine ⟨⟨h.fault, h.current, fun key q hq => ?_, fun g j q hq => ?_,
    fun g g' j j' q hq hq' => ?_, fun key q e hq he => ?_, fun g hg => ?_, fun j hj => ?_⟩,
    fun q hq => .of_eq (hother q hq) rfl, ⟨_, hself, rfl⟩⟩
  · obtain ⟨e, he, hk, hl⟩ := h.table key q hq
    by_cases hqp : q = p
    · subst hqp
      rw [hp] at he
      cases he
      exact ⟨_, hself, hk, hl⟩
    · exact ⟨e, (hother q hqp).trans he, hk, hl⟩
  · rw [hslots] at hq
    split_ifs at hq with hc
    · cases hq
      rw [hc.1, hc.2]
      exact ⟨h.current, hi, _, hself, hkey, rfl, .inl rfl⟩
    · obtain ⟨hg, hj, hqp, e, he, hk, hij, hgen⟩ := h.slots g j q hq
      exact ⟨hg, hj, e, (hother q hqp).trans he, hk, hij, .inl hgen⟩
  · rw [hslots] at hq hq'
    split_ifs at hq hq' with hc hc' hc'
    · rw [hc.1, hc'.1]
    · cases hq
      exact absurd rfl (h.slots g' j' p hq').2.2.1
    · cases hq'
      exact absurd rfl (h.slots g j p hq).2.2.1
    · obtain ⟨-, -, -, e, he, -, -, hgen⟩ := h.slots g j q hq
      obtain ⟨-, -, -, e', he', -, -, hgen'⟩ := h.slots g' j' q hq'
      rw [he] at he'
      cases he'
      exact hgen.symm.trans hgen'
  · by_cases hqp : q = p
    · subst hqp
      rw [hself] at he
      cases he
      refine .inl ⟨Int.natCast_nonneg i, .inl ?_⟩
      show c'.slot c.fCurrentGeneration ((i : ℤ).toNat) = _
      rw [Int.toNat_natCast, hslots, if_pos ⟨rfl, rfl⟩]
    · rw [hother q hqp] at he
      rcases h.placed key q e hq he hqp with ⟨hpos, hslot⟩ | hl
      · refine .inl ⟨hpos, .inl ?_⟩
        rw [hslots, if_neg]
        · exact hslot
        · rintro ⟨hg, hj⟩
          rw [hg, hj, hfree] at hslot
          cases hslot
      · exact .inr (hloose q hqp hl)
  · rw [hcount]
    refine (h.full g hg).imp_right fun hall j => ?_
    rw [hslots, if_neg fun hc => hg hc.1]
    exact hall j
  · rw [hcount] at hj
    show c'.slot c.fCurrentGeneration j = none
    rw [hslots, if_neg]
    · exact h.next j hj
    · rintro ⟨-, rfl⟩
      have hle : (c.fGenerations c.fCurrentGeneration).nextIndex ≤ j := hj
      omega

lemma EntryCache.Open.setNextIndex {n : ℕ}
    (hn : (c.fGenerations c.fCurrentGeneration).nextIndex ≤ n) :
    (c.setNextIndex c.fCurrentGeneration n).Open latest loose p := by
  have hslots := setNextIndex_slot (s := c) (g := c.fCurrentGeneration) n
  have hcount := setNextIndex_nextIndex (s := c) (g := c.fCurrentGeneration) n
  refine ⟨h.fault, h.current, h.table, fun g i q hq => ?_, fun key q e hq he hqp => ?_,
    fun g hg => ?_, fun i hi => ?_, h.here⟩
  · rw [hslots] at hq
    exact h.slots g i q hq
  · rw [hslots]
    exact h.placed key q e hq he hqp
  · have hne : g ≠ c.fCurrentGeneration := hg
    rw [hcount, if_neg hne]
    exact (h.full g hne).imp_right fun hall i => by rw [hslots]; exact hall i
  · have hi' : n ≤ i := by
      have hsame := hcount c.fCurrentGeneration
      rw [if_pos rfl] at hsame
      exact hsame ▸ hi
    show (c.setNextIndex c.fCurrentGeneration n).slot c.fCurrentGeneration i = none
    rw [hslots]
    exact h.next i (hn.trans hi')

lemma EntryCache.Open.renew (hg : g < kGenerationCount)
    (hfull : kEntriesPerGeneration ≤ (c.fGenerations c.fCurrentGeneration).nextIndex)
    (hnone : ∀ i, c.slot g i = none) :
    ({ c with fCurrentGeneration := g }.setNextIndex g 1).Open latest loose p := by
  have hslots : ∀ g' i, ({ c with fCurrentGeneration := g }.setNextIndex g 1).slot g' i =
      c.slot g' i := setNextIndex_slot 1
  have hcount : ∀ g', (({ c with fCurrentGeneration := g }.setNextIndex g 1).fGenerations
      g').nextIndex = if g' = g then 1 else (c.fGenerations g').nextIndex :=
    setNextIndex_nextIndex 1
  refine ⟨h.fault, hg, h.table, fun g' i q hq => ?_, fun key q e hq he hqp => ?_,
    fun g' hg' => ?_, fun i _ => ?_, h.here⟩
  · rw [hslots] at hq
    exact h.slots g' i q hq
  · rw [hslots]
    exact h.placed key q e hq he hqp
  · have hne : g' ≠ g := hg'
    rw [hcount, if_neg hne]
    by_cases hcur : g' = c.fCurrentGeneration
    · rw [hcur]
      exact .inl hfull
    · exact (h.full g' hcur).imp_right fun hall i => by rw [hslots]; exact hall i
  · show ({ c with fCurrentGeneration := g }.setNextIndex g 1).slot g i = none
    rw [hslots]
    exact hnone i

lemma EntryCache.Open.file (hg : g < kGenerationCount)
    (hfull : kEntriesPerGeneration ≤ (c.fGenerations c.fCurrentGeneration).nextIndex)
    (hnone : ∀ i < kEntriesPerGeneration, c.slot g i = none)
    (hloose : ∀ q ≠ p, loose q → loose' q) (hp : c.heap p = some entry) :
    c.Filed ((({ c with fCurrentGeneration := g }.setNextIndex g 1).setSlot g 0 (some p)).modify p
      fun entry => { entry with generation := g, index := 0 }) latest loose' p entry.nodeID := by
  have hempty : ∀ i, c.slot g i = none := by
    intro i
    cases hi : c.slot g i with
    | none => rfl
    | some q =>
      have hlt := (h.slots g i q hi).2.1
      rw [hnone i hlt] at hi
      exact hi.symm
  have hrenewed := h.renew hg hfull hempty
  set renewed := { c with fCurrentGeneration := g }.setNextIndex g 1 with hrenew
  have hheap : renewed.heap p = some entry := hp
  have hfree : renewed.slot renewed.fCurrentGeneration 0 = none := by
    show renewed.slot g 0 = none
    rw [hrenew, setNextIndex_slot]
    exact hempty 0
  have hone : 0 < (renewed.fGenerations renewed.fCurrentGeneration).nextIndex := by
    show 0 < (({ c with fCurrentGeneration := g }.setNextIndex g 1).fGenerations g).nextIndex
    rw [setNextIndex_nextIndex, if_pos rfl]
    exact Nat.one_pos
  have hfiled := hrenewed.store (by decide) hfree hone hloose hheap
  exact ⟨hfiled.sound, hfiled.keeps, hfiled.node⟩

lemma EntryCache.Open.addEntry (hloose : ∀ q ≠ p, loose q → loose' q) (hp : c.heap p = some entry) :
    c.Filed (c.addEntryToCurrentGeneration p) latest loose' p entry.nodeID := by
  unfold EntryCache.addEntryToCurrentGeneration
  dsimp only
  set index := (c.fGenerations c.fCurrentGeneration).nextIndex
  set counted := c.setNextIndex c.fCurrentGeneration (index + 1) with hcounted
  have hopen : counted.Open latest loose p := h.setNextIndex (Nat.le_succ index)
  have hcount : (counted.fGenerations counted.fCurrentGeneration).nextIndex = index + 1 := by
    show ((c.setNextIndex c.fCurrentGeneration (index + 1)).fGenerations
      c.fCurrentGeneration).nextIndex = index + 1
    rw [setNextIndex_nextIndex, if_pos rfl]
  by_cases hlt : index < kEntriesPerGeneration
  · rw [if_pos hlt]
    have hfree : counted.slot counted.fCurrentGeneration index = none := by
      rw [hcounted, setNextIndex_slot]
      exact h.next index (Nat.le_refl _)
    have hfiled := hopen.store hlt hfree (by omega) hloose hp
    exact ⟨hfiled.sound, hfiled.keeps, hfiled.node⟩
  · rw [if_neg hlt]
    have hg : (c.fCurrentGeneration + 1) % kGenerationCount < kGenerationCount :=
      Nat.mod_lt _ (by decide)
    obtain ⟨hcleared, hev, hnone⟩ := hopen.foldl_evict
      ((c.fCurrentGeneration + 1) % kGenerationCount) (List.range kEntriesPerGeneration)
    have hfull : kEntriesPerGeneration ≤ index + 1 := by omega
    have hfiled := hcleared.file hg (by rw [hev.nextIndex, hev.current, hcount]; exact hfull)
      (fun i hi => hnone i (List.mem_range.2 hi)) hloose (hev.heap.trans hp)
    have hfirst : ∀ q, c.Keeps counted q := fun q => .of_eq rfl rfl
    exact ⟨hfiled.sound, fun q hq =>
      (hfirst q).trans ((hev.keeps q).trans (hfiled.keeps q hq)), hfiled.node⟩

end

end Haiku.Vfs
