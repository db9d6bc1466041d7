import Haiku.Vfs.EntryCacheWriters

/-!
# The calls that hold the lock for writing

`Add()`, `Remove()` and the end of a `Lookup()` that has waited for the lock keep the invariant of
the cache, and they leave the threads that still wait where they are.
-/

namespace Haiku.Vfs

open Function Lib

/-- The state of the cache when no thread holds the lock for reading; the entries of the threads
that wait have no index. -/
structure EntryCache.Quiet (c : EntryCache) (latest : Key → Option Ino) (loose : ℕ → Prop) :
    Prop where
  sound : c.Sound latest (fun _ _ => False) loose
  waits : ∀ q, loose q → ∃ entry, c.heap q = some entry ∧ entry.index < 0

variable {c c' : EntryCache} {latest : Key → Option Ino} {loose : ℕ → Prop} {p : ℕ}
  {key : Key} {entry : Entry}

section

variable (h : c.Quiet latest loose)
include h

lemma EntryCache.Quiet.slot_eq (hkey : c.fEntries key = some p)
    (hp : c.heap p = some entry) (hpos : 0 ≤ entry.index) :
    c.slot entry.generation entry.index.toNat = some p := by
  rcases h.sound.placed key p entry hkey hp with ⟨-, hslot | ⟨g, hg⟩⟩ | hl
  · exact hslot
  · exact hg.elim
  · obtain ⟨e, he, hneg⟩ := h.waits p hl
    rw [hp] at he
    cases he
    omega

lemma EntryCache.Quiet.ne {q : ℕ} (hq : loose q)
    (hp : c.heap p = some entry) (hpos : 0 ≤ entry.index) : q ≠ p := by
  rintro rfl
  obtain ⟨e, he, hneg⟩ := h.waits q hq
  rw [hp] at he
  cases he
  omega

lemma EntryCache.Quiet.open (hp : c.heap p = some entry)
    (hkey : c.fEntries entry.key = some p) (hneg : entry.index < 0) : c.Open latest loose p := by
  refine ⟨h.sound.fault, h.sound.current, h.sound.table, fun g i q hq => ?_,
    fun key q e hq he _ => ?_, h.sound.full, h.sound.next, ⟨entry, hp, hkey⟩⟩
  · obtain ⟨hg, hi, e, he, hk, hindex, hgen⟩ := h.sound.slots g i q hq
    have hne : q ≠ p := by
      rintro rfl
      rw [hp] at he
      cases he
      omega
    exact ⟨hg, hi, hne, e, he, hk, hindex, hgen.resolve_right id⟩
  · refine (h.sound.placed key q e hq he).imp_left fun hwhere => ⟨hwhere.1, ?_⟩
    exact hwhere.2.resolve_right fun hg => hg.choose_spec

lemma EntryCache.Quiet.take (hp : c.heap p = some entry)
    (hkey : c.fEntries entry.key = some p) (hpos : 0 ≤ entry.index) :
    (c.setSlot entry.generation entry.index none).Open latest loose p := by
  have hslot := h.slot_eq hkey hp hpos
  obtain ⟨hg, hi, -⟩ := h.sound.slots _ _ p hslot
  have hcast : entry.index = (entry.index.toNat : ℤ) := by omega
  rw [hcast]
  set i := entry.index.toNat
  set c' := c.setSlot entry.generation (i : ℤ) none
  have hslots : ∀ g j, c'.slot g j =
      if g = entry.generation ∧ j = i then none else c.slot g j := setSlot_slot hg hi
  have hnext : ∀ g, (c'.fGenerations g).nextIndex = (c.fGenerations g).nextIndex :=
    setSlot_nextIndex hg hi
  have hentries : c'.fEntries = c.fEntries := setSlot_entries _
  have hheap : c'.heap = c.heap := setSlot_heap _
  have hcurrent : c'.fCurrentGeneration = c.fCurrentGeneration := setSlot_current _
  have hempty : ∀ g j, c.slot g j = none → c'.slot g j = none := by
    intro g j hj
    rw [hslots]
    split_ifs
    · rfl
    · exact hj
  refine ⟨(setSlot_fault hg hi).trans h.sound.fault, hcurrent ▸ h.sound.current,
    fun key q hq => ?_, fun g j q hq => ?_, fun key q e hq he hqp => ?_, fun g hg' => ?_,
    fun j hj => ?_, ⟨entry, by rw [hheap]; exact hp, by rw [hentries]; exact hkey⟩⟩
  · rw [hentries] at hq
    rw [hheap]
    exact h.sound.table key q hq
  · rw [hslots] at hq
    split_ifs at hq with hc
    obtain ⟨hg', hj, e, he, hk, hindex, hgen⟩ := h.sound.slots g j q hq
    have hgen' := hgen.resolve_right id
    have hne : q ≠ p := by
      rintro rfl
      rw [hp] at he
      cases he
      have hj' : j = i := by omega
      exact hc ⟨hgen'.symm, hj'⟩
    rw [hheap, hentries]
    exact ⟨hg', hj, hne, e, he, hk, hindex, hgen'⟩
  · rw [hentries] at hq
    rw [hheap] at he
    refine (h.sound.placed key q e hq he).imp_left fun hwhere => ⟨hwhere.1, ?_⟩
    have hslot' := hwhere.2.resolve_right fun hg => hg.choose_spec
    rw [hslots, if_neg]
    · exact hslot'
    · rintro ⟨hg', hj⟩
      rw [hg', hj, hslot] at hslot'
      exact hqp (Option.some.inj hslot').symm
  · rw [hcurrent] at hg'
    rw [hnext]
    exact (h.sound.full g hg').imp_right fun hall j => hempty g j (hall j)
  · rw [hcurrent, hnext] at hj
    rw [hcurrent]
    exact hempty _ j (h.sound.next j hj)

/-! ## `Add()` -/

lemma EntryCache.Quiet.setNode (hkey : c.fEntries key = some p)
    (hp : c.heap p = some entry) (nodeID : Ino) :
    (c.modify p fun entry => { entry with nodeID := nodeID }).Quiet
      (update latest key (some nodeID)) loose := by
  rw [modify_eq hp]
  obtain ⟨e, he, hk, -⟩ := h.sound.table key p hkey
  rw [hp] at he
  cases he
  set c' : EntryCache := { c with
    heap := update c.heap p (some { entry with nodeID := nodeID }) } with hc'
  have hself : c'.heap p = some { entry with nodeID := nodeID } := update_self _ _ _
  have hother : ∀ q ≠ p, c'.heap q = c.heap q := fun q hq => update_of_ne hq _ _
  refine ⟨⟨h.sound.fault, h.sound.current, fun key' q hq => ?_, fun g i q hq => ?_, h.sound.once,
    fun key' q e hq he => ?_, h.sound.full, h.sound.next⟩, fun q hq => ?_⟩
  · obtain ⟨e, he, hk', hl⟩ := h.sound.table key' q hq
    by_cases hqp : q = p
    · subst hqp
      rw [hp] at he
      cases he
      have hsame : key' = key := hk'.symm.trans hk
      rw [hsame, update_self]
      exact ⟨_, hself, hk, rfl⟩
    · have hne : key' ≠ key := by
        rintro rfl
        rw [hkey] at hq
        exact hqp (Option.some.inj hq).symm
      rw [update_of_ne hne]
      exact ⟨e, (hother q hqp).trans he, hk', hl⟩
  · obtain ⟨hg, hi, e, he, hk', hindex, hgen⟩ := h.sound.slots g i q hq
    by_cases hqp : q = p
    · subst hqp
      rw [hp] at he
      cases he
      exact ⟨hg, hi, _, hself, hk', hindex, hgen⟩
    · exact ⟨hg, hi, e, (hother q hqp).trans he, hk', hindex, hgen⟩
  · by_cases hqp : q = p
    · subst hqp
      rw [hself] at he
      cases he
      exact h.sound.placed key' q entry hq hp
    · rw [hother q hqp] at he
      exact h.sound.placed key' q e hq he
  · obtain ⟨e, he, hneg⟩ := h.waits q hq
    by_cases hqp : q = p
    · subst hqp
      rw [hp] at he
      cases he
      exact ⟨_, hself, hneg⟩
    · exact ⟨e, (hother q hqp).trans he, hneg⟩

lemma EntryCache.Quiet.insert (hkey : c.fEntries key = none)
    (hp : c.heap p = none) (nodeID : Ino) : ({ c with
      heap := update c.heap p
        (some ⟨nodeID, key, c.fCurrentGeneration, kEntryNotInArray⟩)
      fEntries := update c.fEntries key (some p) } : EntryCache).Open
        (update latest key (some nodeID)) loose p := by
  set entry : Entry := ⟨nodeID, key, c.fCurrentGeneration, kEntryNotInArray⟩
  set c' : EntryCache := { c with
    heap := update c.heap p (some entry)
    fEntries := update c.fEntries key (some p) } with hc'
  have hself : c'.heap p = some entry := update_self _ _ _
  have hother : ∀ q ≠ p, c'.heap q = c.heap q := fun q hq => update_of_ne hq _ _
  have hne : ∀ q e, c.heap q = some e → q ≠ p := by
    rintro q e he rfl
    rw [hp] at he
    cases he
  have hnew : c'.fEntries key = some p := update_self _ _ _
  have hold : ∀ key' ≠ key, c'.fEntries key' = c.fEntries key' :=
    fun key' hk => update_of_ne hk _ _
  refine ⟨h.sound.fault, h.sound.current, fun key' q hq => ?_, fun g i q hq => ?_,
    fun key' q e hq he hqp => ?_, h.sound.full, h.sound.next, ⟨entry, hself, hnew⟩⟩
  · by_cases hk : key' = key
    · subst hk
      rw [hnew] at hq
      cases hq
      rw [update_self]
      exact ⟨entry, hself, rfl, rfl⟩
    · rw [hold key' hk] at hq
      obtain ⟨e, he, hk', hl⟩ := h.sound.table key' q hq
      rw [update_of_ne hk]
      exact ⟨e, (hother q (hne q e he)).trans he, hk', hl⟩
  · obtain ⟨hg, hi, e, he, hk, hindex, hgen⟩ := h.sound.slots g i q hq
    have hek : e.key ≠ key := by
      rintro he'
      rw [he', hkey] at hk
      cases hk
    exact ⟨hg, hi, hne q e he, e, (hother q (hne q e he)).trans he, (hold _ hek).trans hk, hindex,
      hgen.resolve_right id⟩
  · have hk : key' ≠ key := by
      rintro rfl
      rw [hnew] at hq
      exact hqp (Option.some.inj hq).symm
    rw [hold key' hk] at hq
    rw [hother q hqp] at he
    refine (h.sound.placed key' q e hq he).imp_left fun hwhere => ⟨hwhere.1, ?_⟩
    exact hwhere.2.resolve_right fun hg => hg.choose_spec

lemma EntryCache.Quiet.add {nodeID : Ino} {memory : Option ℕ}
    (hadd : c.add key nodeID memory = some c') :
    c'.Sound (update latest key (some nodeID)) (fun _ _ => False) loose ∧
      ∀ q, loose q → c.Keeps c' q := by
  unfold EntryCache.add at hadd
  cases hkey : c.fEntries key with
  | some p =>
    obtain ⟨entry, hp, hk, -⟩ := h.sound.table key p hkey
    rw [hkey] at hadd
    dsimp only at hadd
    rw [hp] at hadd
    dsimp only at hadd
    have hset := h.setNode hkey hp nodeID
    have heq := modify_eq hp fun entry => { entry with nodeID := nodeID }
    set set' := c.modify p fun entry => { entry with nodeID := nodeID }
    have hself : set'.heap p = some { entry with nodeID := nodeID } := by
      rw [heq]
      exact update_self _ _ _
    have hentries : set'.fEntries = c.fEntries := by rw [heq]
    have hkeeps : ∀ q, c.Keeps set' q := by
      intro q e he hneg
      by_cases hqp : q = p
      · subst hqp
        rw [hp] at he
        cases he
        exact ⟨⟨_, hself, rfl, rfl⟩, fun key => by rw [hentries]⟩
      · refine ⟨⟨e, ?_, rfl, rfl⟩, fun key => by rw [hentries]⟩
        rw [heq]
        exact (update_of_ne hqp _ _).trans he
    split_ifs at hadd with hc
    · cases hadd
      have hopen := hset.take hself (by rw [hentries, hk]; exact hkey) hc.2
      have hheap : (set'.setSlot entry.generation entry.index none).heap p =
          some { entry with nodeID := nodeID } := by rw [setSlot_heap, hself]
      have hfiled := hopen.addEntry (fun q _ hq => hq) hheap
      refine ⟨hfiled.sound, fun q hq => ?_⟩
      have htaken : set'.Keeps (set'.setSlot entry.generation entry.index none) q :=
        .of_eq (by rw [setSlot_heap]) (setSlot_entries _)
      exact (hkeeps q).trans (htaken.trans (hfiled.keeps q (h.ne hq hp hc.2)))
    · rw [← Option.some.inj hadd]
      exact ⟨hset.sound, fun q _ => hkeeps q⟩
  | none =>
    rw [hkey] at hadd
    dsimp only at hadd
    cases memory with
    | none =>
      cases hadd
      refine ⟨⟨h.sound.fault, h.sound.current, fun key' q hq => ?_, h.sound.slots, h.sound.once,
        h.sound.placed, h.sound.full, h.sound.next⟩, fun q _ => .refl c q⟩
      have hne : key' ≠ key := by
        rintro rfl
        rw [hkey] at hq
        cases hq
      rw [update_of_ne hne]
      exact h.sound.table key' q hq
    | some p =>
      dsimp only at hadd
      split_ifs at hadd with hused
      have hp : c.heap p = none := Option.not_isSome_iff_eq_none.1 hused
      cases hadd
      have hopen := h.insert hkey hp nodeID
      have hfiled := hopen.addEntry (fun q _ hq => hq) (update_self _ _ _)
      refine ⟨hfiled.sound, fun q hq => ?_⟩
      obtain ⟨e, he, -⟩ := h.waits q hq
      have hqp : q ≠ p := by
        rintro rfl
        rw [hp] at he
        cases he
      refine EntryCache.Keeps.trans (fun e he _ => ?_) (hfiled.keeps q hqp)
      refine ⟨⟨e, (update_of_ne hqp _ _).trans he, rfl, rfl⟩, fun key' => ?_⟩
      show update c.fEntries key (some p) key' = some q ↔ _
      by_cases hk : key' = key
      · subst hk
        rw [update_self, hkey]
        exact ⟨fun hq' => absurd (Option.some.inj hq').symm hqp, nofun⟩
      · rw [update_of_ne hk]

end

/-! ## `Remove()` -/

lemma EntryCache.Open.drop (h : c.Open latest loose p) (hkey : c.fEntries key = some p)
    {heap : ℕ → Option Entry} (hheap : ∀ q ≠ p, heap q = c.heap q) : ({ c with
      fEntries := fun key => if c.fEntries key = some p then none else c.fEntries key
      heap := heap } : EntryCache).Sound (update latest key none) (fun _ _ => False)
        loose := by
  have hentries : ∀ key' q, (if c.fEntries key' = some p then none else c.fEntries key') = some q →
      c.fEntries key' = some q ∧ q ≠ p := by
    intro key' q hq
    by_cases hk : c.fEntries key' = some p
    · rw [if_pos hk] at hq
      cases hq
    · rw [if_neg hk] at hq
      exact ⟨hq, fun hc => hk (hc ▸ hq)⟩
  refine ⟨h.fault, h.current, fun key' q hq => ?_, fun g i q hq => ?_,
    fun g g' i i' q hq hq' => ?_, fun key' q e hq he => ?_, h.full, h.next⟩
  · obtain ⟨hq', hqp⟩ := hentries key' q hq
    have hne : key' ≠ key := by
      rintro rfl
      rw [hkey] at hq'
      exact hqp (Option.some.inj hq').symm
    rw [update_of_ne hne]
    obtain ⟨e, he, hk, hl⟩ := h.table key' q hq'
    exact ⟨e, (hheap q hqp).trans he, hk, hl⟩
  · obtain ⟨hg, hi, hqp, e, he, hk, hindex, hgen⟩ := h.slots g i q hq
    refine ⟨hg, hi, e, (hheap q hqp).trans he, ?_, hindex, .inl hgen⟩
    show (if c.fEntries e.key = some p then none else c.fEntries e.key) = some q
    rw [if_neg]
    · exact hk
    · intro hc
      rw [hk] at hc
      exact hqp (Option.some.inj hc)
  · obtain ⟨-, -, -, e, he, -, -, hgen⟩ := h.slots g i q hq
    obtain ⟨-, -, -, e', he', -, -, hgen'⟩ := h.slots g' i' q hq'
    rw [he] at he'
    cases he'
    exact hgen.symm.trans hgen'
  · obtain ⟨hq', hqp⟩ := hentries key' q hq
    have he' : c.heap q = some e := (hheap q hqp).symm.trans he
    exact (h.placed key' q e hq' he' hqp).imp_left fun hwhere => ⟨hwhere.1, .inl hwhere.2⟩

lemma EntryCache.Quiet.remove (h : c.Quiet latest loose) (key : Key) :
    (c.remove key).Sound (update latest key none) (fun _ _ => False) loose ∧
      ∀ key' q, loose q → c.At latest (.relock key' q) →
        (c.remove key).At (update latest key none) (.relock key' q) := by
  unfold EntryCache.remove
  cases hkey : c.fEntries key with
  | none =>
    refine ⟨⟨h.sound.fault, h.sound.current, fun key' q hq => ?_, h.sound.slots, h.sound.once,
      h.sound.placed, h.sound.full, h.sound.next⟩, fun key' q _ hat => hat⟩
    have hne : key' ≠ key := by
      rintro rfl
      rw [hkey] at hq
      cases hq
    rw [update_of_ne hne]
    exact h.sound.table key' q hq
  | some p =>
    obtain ⟨entry, hp, hk, -⟩ := h.sound.table key p hkey
    dsimp only
    rw [hp]
    dsimp only
    have hremoved : (c.removeEntry p).heap p = some entry := by
      rw [removeEntry_eq hp]
      exact hp
    have hentry : c.fEntries entry.key = some p := by rw [hk]; exact hkey
    -- the table has an entry once, under its key
    have hdrop : ∀ q ≠ p, ∀ key', (if c.fEntries key' = some p then none else c.fEntries key') =
        some q ↔ c.fEntries key' = some q := by
      intro q hqp key'
      by_cases hc : c.fEntries key' = some p
      · rw [if_pos hc, hc]
        exact ⟨nofun, fun hq => absurd (Option.some.inj hq).symm hqp⟩
      · rw [if_neg hc]
    by_cases hpos : 0 ≤ entry.index
    · rw [if_pos hpos, removeEntry_eq hp]
      have hopen := h.take hp hentry hpos
      set taken := c.setSlot entry.generation entry.index none with htaken
      have hheap : taken.heap = c.heap := setSlot_heap _
      have hentries : taken.fEntries = c.fEntries := setSlot_entries _
      have heq : (({ c with
          fEntries := fun key' =>
            if c.fEntries key' = some p then none else c.fEntries key' } : EntryCache).setSlot
              entry.generation entry.index none).free p = { taken with
              fEntries := fun key' =>
                if taken.fEntries key' = some p then none else taken.fEntries key'
              heap := update taken.heap p none } := by
        rw [free_eq (show _ = some entry by rw [setSlot_heap]; exact hp), setSlot_heap, hentries,
          hheap]
        unfold EntryCache.setSlot at htaken ⊢
        split_ifs at htaken ⊢ <;> rw [htaken]
      rw [heq]
      refine ⟨hopen.drop (by rw [hentries]; exact hkey) fun q hqp =>
        update_of_ne hqp _ _, fun key' q hq hat => ?_⟩
      have hqp := h.ne hq hp hpos
      refine EntryCache.Keeps.relock (c := c) ?_ hat
      intro e he _
      refine ⟨⟨e, ?_, rfl, rfl⟩, fun key'' => ?_⟩
      · show update taken.heap p none q = some e
        rw [update_of_ne hqp, hheap, he]
      · show (if taken.fEntries key'' = some p then none else taken.fEntries key'') = some q ↔ _
        rw [hentries]
        exact hdrop q hqp key''
    · rw [if_neg hpos]
      have hneg : entry.index < 0 := by omega
      have hopen := h.open hp hentry hneg
      rw [modify_eq hremoved, removeEntry_eq hp]
      refine ⟨hopen.drop hkey fun q hqp => update_of_ne hqp _ _, fun key' q _ hat => ?_⟩
      by_cases hqp : q = p
      · -- the thread that waits finds that its entry has been removed
        subst hqp
        obtain ⟨e, he, hk', -⟩ := hat
        rw [hp] at he
        cases he
        refine ⟨_, update_self _ _ _, hk', .inr ⟨rfl, fun key'' => ?_⟩⟩
        show (if c.fEntries key'' = some q then none else c.fEntries key'') ≠ some q
        by_cases hc : c.fEntries key'' = some q
        · rw [if_pos hc]
          exact nofun
        · rw [if_neg hc]
          exact hc
      · refine EntryCache.Keeps.relock (c := c) ?_ hat
        exact fun e he _ => ⟨⟨e, (update_of_ne hqp _ _).trans he, rfl, rfl⟩,
          hdrop q hqp⟩

/-! ## The end of a `Lookup()` -/

lemma EntryCache.Quiet.finishMove (h : c.Quiet latest loose)
    (hat : c.At latest (.relock key p)) {loose' : ℕ → Prop}
    (hloose : ∀ q ≠ p, loose q → loose' q) :
    (c.finishMove key p).1.Sound latest (fun _ _ => False) loose' ∧
      (∀ q ≠ p, c.Keeps (c.finishMove key p).1 q) ∧
      ∃ answer, (c.finishMove key p).2 = .idle answer ∧
        ∀ key nodeID, answer = .found key nodeID → latest key = some nodeID := by
  obtain ⟨entry, hp, hk, hwhere⟩ := hat
  unfold EntryCache.finishMove
  rw [hp]
  dsimp only
  rcases hwhere with ⟨hindex, hkey⟩ | ⟨hindex, hnone⟩
  · rw [if_neg (by rw [hindex]; decide)]
    have hopen := h.open hp (by rw [hk]; exact hkey) (by rw [hindex]; decide)
    have hfiled := hopen.addEntry hloose hp
    obtain ⟨entry', hp', hnode⟩ := hfiled.node
    rw [hp']
    refine ⟨hfiled.sound, hfiled.keeps, _, rfl, fun key' nodeID hanswer => ?_⟩
    obtain ⟨e, he, -, hl⟩ := h.sound.table key p hkey
    rw [hp] at he
    cases he
    cases hanswer
    rw [hl, hnode]
  · rw [if_pos hindex, free_eq hp]
    have hne : ∀ key q, c.fEntries key = some q → q ≠ p := by
      rintro key q hq rfl
      exact hnone key hq
    refine ⟨⟨h.sound.fault, h.sound.current, fun key q hq => ?_, fun g i q hq => ?_, h.sound.once,
      fun key q e hq he => ?_, h.sound.full, h.sound.next⟩, fun q hqp => ?_, _, rfl, nofun⟩
    · obtain ⟨e, he, hrest⟩ := h.sound.table key q hq
      exact ⟨e, (update_of_ne (hne key q hq) _ _).trans he, hrest⟩
    · obtain ⟨hg, hi, e, he, hkey, hrest⟩ := h.sound.slots g i q hq
      exact ⟨hg, hi, e, (update_of_ne (hne e.key q hkey) _ _).trans he, hkey, hrest⟩
    · have hqp := hne key q hq
      have he' : c.heap q = some e := (update_of_ne hqp _ _).symm.trans he
      exact (h.sound.placed key q e hq he').imp_right (hloose q hqp)
    · exact .of_eq (update_of_ne hqp _ _) rfl

end Haiku.Vfs
