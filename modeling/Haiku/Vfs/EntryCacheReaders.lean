import Haiku.Vfs.EntryCache

/-!
# Lookups with the lock held for reading

Each step of a `Lookup()` keeps the invariant. The exchange of the generation decides which of
several threads moves an entry: only one of them finds another generation than the current one.
-/

namespace Haiku.Vfs

open Function Lib

lemma exists_update {ι κ : Type} [DecidableEq ι] {q : κ → Prop} {f : ι → κ} {t : ι} {x : κ}
    (h : ∃ i, q (f i)) (hx : q (f t) → q x) : ∃ i, q (update f t x i) := by
  obtain ⟨i, hi⟩ := h
  by_cases he : i = t
  · exact ⟨t, by rw [update_self]; exact hx (he ▸ hi)⟩
  · exact ⟨i, by rw [update_of_ne he]; exact hi⟩

variable {T : Type} [DecidableEq T]

/-- The system after a step of `t` that adds and removes nothing -/
def System.move (s : System T) (t : T) (cache : EntryCache) (phase : Phase) : System T :=
  ⟨cache, update s.threads t phase, s.latest⟩

variable {s : System T} {t : T} {x : Phase}

variable {cache : EntryCache} {p : ℕ}

lemma source_move {g : ℕ} (h : s.source p g)
    (hx : (s.threads t).source = some (p, g) → x.source = some (p, g)) :
    (s.move t cache x).source p g :=
  exists_update (q := fun y : Phase => y.source = some (p, g)) h hx

lemma loose_move (h : s.loose p) (hx : (s.threads t).loose = some p → x.loose = some p) :
    (s.move t cache x).loose p :=
  exists_update (q := fun y : Phase => y.loose = some p) h hx

lemma System.Inv.move
    (hsound : cache.Sound s.latest (s.move t cache x).source (s.move t cache x).loose)
    (hself : cache.At s.latest x) (hothers : ∀ t' ≠ t, cache.At s.latest (s.threads t'))
    (hone : ∀ t' ≠ t, ∀ p, cache.Carries p x → ¬cache.Carries p (s.threads t'))
    (htwo : ∀ t' ≠ t, ∀ t'' ≠ t, ∀ p, t' ≠ t'' → cache.Carries p (s.threads t') →
      ¬cache.Carries p (s.threads t'')) : (s.move t cache x).Inv := by
  have hthread : (s.move t cache x).threads t = x := update_self _ _ _
  have hother : ∀ t' ≠ t, (s.move t cache x).threads t' = s.threads t' :=
    fun t' h => update_of_ne h _ _
  refine ⟨hsound, fun t' => ?_, fun t' t'' p hne => ?_⟩
  · by_cases he : t' = t
    · rw [he, hthread]
      exact hself
    · rw [hother t' he]
      exact hothers t' he
  · show cache.Carries p _ → ¬cache.Carries p _
    by_cases he : t' = t
    · have he'' : t'' ≠ t := fun h => hne (he.trans h.symm)
      rw [he, hthread, hother t'' he'']
      exact hone t'' he'' p
    · rw [hother t' he]
      by_cases he'' : t'' = t
      · rw [he'', hthread]
        exact fun h h' => hone t' he p h' h
      · rw [hother t'' he'']
        exact htwo t' he t'' he'' p hne

lemma System.Inv.stay (hs : s.Inv) (hself : s.cache.At s.latest x)
    (hsource : ∀ p g, (s.threads t).source = some (p, g) → x.source = some (p, g) ∨
      ∀ entry, s.cache.heap p = some entry → entry.index < 0)
    (hloose : ∀ p, (s.threads t).loose = some p → x.loose = some p)
    (hcarries : ∀ p, s.cache.Carries p x → s.cache.Carries p (s.threads t)) :
    (s.move t s.cache x).Inv := by
  have hsound := hs.sound
  have hmono : ∀ p g, s.source p g → (s.move t s.cache x).source p g ∨
      ∀ entry, s.cache.heap p = some entry → entry.index < 0 := by
    intro p g h
    by_cases hx : (s.threads t).source = some (p, g) → x.source = some (p, g)
    · exact .inl (source_move h hx)
    · obtain ⟨hold, hnew⟩ := Classical.not_imp.1 hx
      exact .inr ((hsource p g hold).resolve_left hnew)
  apply System.Inv.move ?_ hself (fun t' _ => hs.place t')
    (fun t' ht' p h => hs.unique t t' p ht'.symm (hcarries p h))
    (fun t' _ t'' _ p hne => hs.unique t' t'' p hne)
  refine ⟨hsound.fault, hsound.current, hsound.table, fun g i p h => ?_, hsound.once,
    fun key p entry hkey hp => ?_, hsound.full, hsound.next⟩
  · obtain ⟨hg, hi, entry, hp, hkey, hindex, hgen⟩ := hsound.slots g i p h
    refine ⟨hg, hi, entry, hp, hkey, hindex, ?_⟩
    rcases hgen with hgen | hgen
    · exact .inl hgen
    · rcases hmono p g hgen with h' | h'
      · exact .inr h'
      · have hneg := h' entry hp
        omega
  · rcases hsound.placed key p entry hkey hp with ⟨hpos, hslot⟩ | h'
    · refine .inl ⟨hpos, ?_⟩
      rcases hslot with hslot | ⟨g, hgen⟩
      · exact .inl hslot
      · rcases hmono p g hgen with h' | h'
        · exact .inr ⟨g, h'⟩
        · have hneg := h' entry hp
          omega
    · exact .inr (loose_move h' (hloose p))

omit [DecidableEq T] in
lemma System.Inv.source_entry (hs : s.Inv) {g : ℕ} (h : s.source p g) :
    ∃ entry, s.cache.heap p = some entry ∧ entry.generation = s.cache.fCurrentGeneration := by
  obtain ⟨t, ht⟩ := h
  have hat := hs.place t
  cases hx : s.threads t with
  | test key q old =>
    rw [hx] at hat ht
    cases ht
    obtain ⟨-, -, entry, hp, hgen, -⟩ := hat
    exact ⟨entry, hp, hgen⟩
  | readIndex key q old =>
    rw [hx] at hat ht
    cases ht
    obtain ⟨-, -, -, entry, hp, hgen, -⟩ := hat
    exact ⟨entry, hp, hgen⟩
  | clear key q old index =>
    rw [hx] at hat ht
    cases ht
    obtain ⟨-, -, -, entry, hp, hgen, -⟩ := hat
    exact ⟨entry, hp, hgen⟩
  | _ => rw [hx] at ht; cases ht

omit [DecidableEq T] in
lemma System.Inv.loose_entry (hs : s.Inv) (h : s.loose p) :
    ∃ entry, s.cache.heap p = some entry ∧
      (entry.index < 0 ∨ entry.generation = s.cache.fCurrentGeneration) := by
  obtain ⟨t, ht⟩ := h
  have hat := hs.place t
  cases hx : s.threads t with
  | unindex key q old =>
    rw [hx] at hat ht
    cases ht
    obtain ⟨-, -, -, ⟨entry, hp, hgen, -⟩, -⟩ := hat
    exact ⟨entry, hp, .inr hgen⟩
  | claim key q old =>
    rw [hx] at hat ht
    cases ht
    obtain ⟨-, -, -, entry, hp, hindex⟩ := hat
    exact ⟨entry, hp, .inl (by rw [hindex]; decide)⟩
  | unlock key q =>
    rw [hx] at hat ht
    cases ht
    obtain ⟨-, entry, hp, hindex⟩ := hat
    exact ⟨entry, hp, .inl (by rw [hindex]; decide)⟩
  | relock key q =>
    rw [hx] at hat ht
    cases ht
    obtain ⟨entry, hp, -, hindex⟩ := hat
    refine ⟨entry, hp, .inl ?_⟩
    rcases hindex with ⟨hindex, -⟩ | ⟨hindex, -⟩ <;> rw [hindex] <;> decide
  | _ => rw [hx] at ht; cases ht

variable {entry : Entry}

omit [DecidableEq T] in
lemma System.Inv.carries_entry (hs : s.Inv) (h : s.cache.Carries p (s.threads t))
    (hp : s.cache.heap p = some entry) (hpos : 0 ≤ entry.index) :
    entry.generation = s.cache.fCurrentGeneration := by
  have hsource : ∀ g, (s.threads t).source = some (p, g) →
      entry.generation = s.cache.fCurrentGeneration := by
    intro g hg
    obtain ⟨e, he, hgen⟩ := hs.source_entry ⟨t, hg⟩
    rw [hp] at he
    cases he
    exact hgen
  have hloose : (s.threads t).loose = some p → entry.generation = s.cache.fCurrentGeneration := by
    intro hl
    obtain ⟨e, he, hgen⟩ := hs.loose_entry ⟨t, hl⟩
    rw [hp] at he
    cases he
    exact hgen.resolve_left (by omega)
  cases hx : s.threads t with
  | test key q old => rw [hx] at h hsource; exact hsource old (by rw [← h.1]; rfl)
  | readIndex key q old => rw [hx] at h hsource; exact hsource old (by rw [← h]; rfl)
  | clear key q old index => rw [hx] at h hsource; exact hsource old (by rw [← h]; rfl)
  | unindex key q old => rw [hx] at h hloose; exact hloose (by rw [← h]; rfl)
  | claim key q old => rw [hx] at h hloose; exact hloose (by rw [← h]; rfl)
  | unlock key q => rw [hx] at h hloose; exact hloose (by rw [← h]; rfl)
  | relock key q => rw [hx] at h hloose; exact hloose (by rw [← h]; rfl)
  | _ => rw [hx] at h; cases h

/-! ## The steps that change the cache -/

variable {c : EntryCache} {y : Phase}

lemma at_exchange {latest : Key → Option Ino} (hp : c.heap p = some entry) (h : c.At latest y) :
    ({ c with
        heap := update c.heap p
          (some { entry with generation := c.fCurrentGeneration }) } : EntryCache).At latest y := by
  have hheap : ∀ q e, c.heap q = some e → ∃ e', update c.heap p
      (some { entry with generation := c.fCurrentGeneration }) q = some e' ∧ e'.key = e.key ∧
        e'.index = e.index ∧ (e.generation = c.fCurrentGeneration →
          e'.generation = c.fCurrentGeneration) := by
    intro q e he
    by_cases hq : q = p
    · subst hq
      rw [hp] at he
      cases he
      exact ⟨_, update_self _ _ _, rfl, rfl, fun _ => rfl⟩
    · exact ⟨e, by rw [update_of_ne hq, he], rfl, rfl, id⟩
  cases y with
  | test key q old =>
    obtain ⟨hkey, hold, e, he, hgen, hslot⟩ := h
    obtain ⟨e', he', -, hindex, hgen'⟩ := hheap q e he
    exact ⟨hkey, hold, e', he', hgen' hgen, by rw [hindex]; exact hslot⟩
  | readIndex key q old =>
    obtain ⟨hkey, hold, hfull, e, he, hgen, hslot⟩ := h
    obtain ⟨e', he', -, hindex, hgen'⟩ := hheap q e he
    exact ⟨hkey, hold, hfull, e', he', hgen' hgen, by rw [hindex]; exact hslot⟩
  | clear key q old index =>
    obtain ⟨hkey, hold, hfull, e, he, hgen, hslot⟩ := h
    obtain ⟨e', he', -, hindex, hgen'⟩ := hheap q e he
    exact ⟨hkey, hold, hfull, e', he', hgen' hgen, by rw [hindex]; exact hslot⟩
  | unindex key q old =>
    obtain ⟨hkey, hold, hfull, ⟨e, he, hgen, hpos⟩, hnone⟩ := h
    obtain ⟨e', he', -, hindex, hgen'⟩ := hheap q e he
    exact ⟨hkey, hold, hfull, ⟨e', he', hgen' hgen, by rw [hindex]; exact hpos⟩, hnone⟩
  | claim key q old =>
    obtain ⟨hkey, hold, hfull, e, he, hneg⟩ := h
    obtain ⟨e', he', -, hindex, -⟩ := hheap q e he
    exact ⟨hkey, hold, hfull, e', he', by rw [hindex]; exact hneg⟩
  | unlock key q =>
    obtain ⟨hkey, e, he, hneg⟩ := h
    obtain ⟨e', he', -, hindex, -⟩ := hheap q e he
    exact ⟨hkey, e', he', by rw [hindex]; exact hneg⟩
  | relock key q =>
    obtain ⟨e, he, hkey, hneg⟩ := h
    obtain ⟨e', he', hkey', hindex, -⟩ := hheap q e he
    exact ⟨e', he', hkey'.trans hkey, by rw [hindex]; exact hneg⟩
  | _ => exact h

lemma carries_congr {c' : EntryCache} (h : ∀ entry, c'.heap p = some entry → 0 ≤ entry.index →
      ∃ entry', c.heap p = some entry' ∧ 0 ≤ entry'.index) (hc : c'.Carries p y) :
    c.Carries p y := by
  cases y with
  | test key q old =>
    obtain ⟨hq, entry, hp, hpos⟩ := hc
    exact ⟨hq, h entry hp hpos⟩
  | _ => exact hc

variable {key : Key}

lemma System.Inv.exchange (hs : s.Inv) (hx : s.threads t = .exchange key p)
    (hp : s.cache.heap p = some entry) (hgen : entry.generation ≠ s.cache.fCurrentGeneration) :
    (s.move t (s.cache.modify p fun entry =>
      { entry with generation := s.cache.fCurrentGeneration })
        (.test key p entry.generation)).Inv := by
  rw [modify_eq hp]
  have hsound := hs.sound
  have hkey : s.cache.fEntries key = some p := by
    have hat := hs.place t
    rw [hx] at hat
    exact hat
  set cache : EntryCache := { s.cache with
    heap := update s.cache.heap p
      (some { entry with generation := s.cache.fCurrentGeneration }) } with hcache
  have hself : cache.heap p = some { entry with generation := s.cache.fCurrentGeneration } :=
    update_self _ _ _
  have hother : ∀ q ≠ p, cache.heap q = s.cache.heap q := fun q h => update_of_ne h _ _
  have hsource : ∀ q g, s.source q g → (s.move t cache (.test key p entry.generation)).source q g :=
    fun q g h => source_move h (by rw [hx]; exact nofun)
  have hloose : ∀ q, s.loose q → (s.move t cache (.test key p entry.generation)).loose q :=
    fun q h => loose_move h (by rw [hx]; exact nofun)
  have hnew : (s.move t cache (.test key p entry.generation)).source p entry.generation := by
    refine ⟨t, ?_⟩
    show (update s.threads t (.test key p entry.generation) t).source = _
    rw [update_self]
    rfl
  -- an entry with an index is in the array that its generation names
  have hslot : 0 ≤ entry.index → s.cache.slot entry.generation entry.index.toNat = some p := by
    intro hpos
    rcases hsound.placed key p entry hkey hp with ⟨-, hslot | ⟨g, hg⟩⟩ | hl
    · exact hslot
    · obtain ⟨e, he, hgen'⟩ := hs.source_entry hg
      rw [hp] at he
      cases he
      exact absurd hgen' hgen
    · obtain ⟨e, he, hgen'⟩ := hs.loose_entry hl
      rw [hp] at he
      cases he
      exact absurd (hgen'.resolve_left (by omega)) hgen
  have hcarries : ∀ q y, cache.Carries q y → s.cache.Carries q y := by
    intro q y h
    apply carries_congr _ h
    intro e he hpos
    by_cases hq : q = p
    · subst hq
      rw [hself] at he
      cases he
      exact ⟨entry, hp, hpos⟩
    · rw [hother q hq] at he
      exact ⟨e, he, hpos⟩
  apply System.Inv.move
  · refine ⟨hsound.fault, hsound.current, fun key' q h => ?_, fun g i q h => ?_, hsound.once,
      fun key' q e h he => ?_, hsound.full, hsound.next⟩
    · obtain ⟨e, he, hk, hl⟩ := hsound.table key' q h
      by_cases hq : q = p
      · subst hq
        rw [hp] at he
        cases he
        exact ⟨_, hself, hk, hl⟩
      · exact ⟨e, by rw [hother q hq, he], hk, hl⟩
    · obtain ⟨hg, hi, e, he, hk, hindex, hwhere⟩ := hsound.slots g i q h
      by_cases hq : q = p
      · subst hq
        rw [hp] at he
        cases he
        refine ⟨hg, hi, _, hself, hk, hindex, .inr ?_⟩
        rcases hwhere with hwhere | hwhere
        · rw [← hwhere]
          exact hnew
        · exact hsource q g hwhere
      · exact ⟨hg, hi, e, by rw [hother q hq, he], hk, hindex, hwhere.imp_right (hsource q g)⟩
    · by_cases hq : q = p
      · subst hq
        rw [hself] at he
        cases he
        rcases hsound.placed key' q entry h hp with ⟨hpos, -⟩ | hl
        · exact .inl ⟨hpos, .inr ⟨_, hnew⟩⟩
        · exact .inr (hloose q hl)
      · rw [hother q hq] at he
        rcases hsound.placed key' q e h he with ⟨hpos, hwhere⟩ | hl
        · refine .inl ⟨hpos, hwhere.imp_right ?_⟩
          rintro ⟨g, hg⟩
          exact ⟨g, hsource q g hg⟩
        · exact .inr (hloose q hl)
  · refine ⟨hkey, hgen, _, hself, rfl, fun hpos => ⟨?_, hslot hpos⟩⟩
    rcases hsound.full entry.generation hgen with hfull | hnone
    · exact hfull
    · have hsome := hslot hpos
      rw [hnone] at hsome
      cases hsome
  · exact fun t' _ => at_exchange hp (hs.place t')
  · rintro t' - q ⟨rfl, e, he, hpos⟩ h'
    rw [hself] at he
    cases he
    exact hgen (hs.carries_entry (hcarries _ _ h') hp hpos)
  · intro t' _ t'' _ q hne h h'
    exact hs.unique t' t'' q hne (hcarries _ _ h) (hcarries _ _ h')

def Phase.target : Phase → Option ℕ
  | .test _ p _ | .readIndex _ p _ | .clear _ p _ _ | .unindex _ p _ | .claim _ p _ => some p
  | .unlock _ p | .relock _ p => some p
  | _ => none

lemma at_keep {c' : EntryCache} {latest : Key → Option Ino} (h : c.At latest y)
    (hentries : c'.fEntries = c.fEntries)
    (hcurrent : c'.fCurrentGeneration = c.fCurrentGeneration)
    (hnext : ∀ g, (c.fGenerations g).nextIndex ≤ (c'.fGenerations g).nextIndex)
    (hheap : ∀ q, y.target = some q → c'.heap q = c.heap q)
    (hslot : ∀ g j q, y.target = some q → (c'.slot g j = some q ↔ c.slot g j = some q)) :
    c'.At latest y := by
  have hfull : ∀ g, kEntriesPerGeneration ≤ (c.fGenerations g).nextIndex →
      kEntriesPerGeneration ≤ (c'.fGenerations g).nextIndex := fun g hg => hg.trans (hnext g)
  cases y with
  | test key q old =>
    obtain ⟨hk, ho, e, he, hgen, hpos⟩ := h
    refine ⟨hentries ▸ hk, hcurrent ▸ ho, e, (hheap q rfl).trans he, hcurrent ▸ hgen, fun h0 => ?_⟩
    exact ⟨hfull old (hpos h0).1, (hslot old _ q rfl).2 (hpos h0).2⟩
  | readIndex key q old =>
    obtain ⟨hk, ho, hf, e, he, hgen, hpos, hs⟩ := h
    exact ⟨hentries ▸ hk, hcurrent ▸ ho, hfull old hf, e, (hheap q rfl).trans he, hcurrent ▸ hgen,
      hpos, (hslot old _ q rfl).2 hs⟩
  | clear key q old index =>
    obtain ⟨hk, ho, hf, e, he, hgen, hpos, hi, hs⟩ := h
    exact ⟨hentries ▸ hk, hcurrent ▸ ho, hfull old hf, e, (hheap q rfl).trans he, hcurrent ▸ hgen,
      hpos, hi, (hslot old _ q rfl).2 hs⟩
  | unindex key q old =>
    obtain ⟨hk, ho, hf, ⟨e, he, hgen, hpos⟩, hnone⟩ := h
    exact ⟨hentries ▸ hk, hcurrent ▸ ho, hfull old hf, ⟨e, (hheap q rfl).trans he,
      hcurrent ▸ hgen, hpos⟩, fun g j hj => hnone g j ((hslot g j q rfl).1 hj)⟩
  | claim key q old =>
    obtain ⟨hk, ho, hf, e, he, hneg⟩ := h
    exact ⟨hentries ▸ hk, hcurrent ▸ ho, hfull old hf, e, (hheap q rfl).trans he, hneg⟩
  | unlock key q =>
    obtain ⟨hk, e, he, hneg⟩ := h
    exact ⟨hentries ▸ hk, e, (hheap q rfl).trans he, hneg⟩
  | relock key q =>
    obtain ⟨e, he, hkey, hneg⟩ := h
    exact ⟨e, (hheap q rfl).trans he, hkey, by rw [hentries]; exact hneg⟩
  | exchange key q =>
    show c'.fEntries key = some q
    rw [hentries]
    exact h
  | fetch key q =>
    show c'.fEntries key = some q
    rw [hentries]
    exact h
  | _ => exact h

omit [DecidableEq T] in
lemma System.Inv.target_ne (hs : s.Inv) (hmine : s.cache.Carries p (s.threads t))
    (hp : s.cache.heap p = some entry) (hpos : 0 ≤ entry.index) {t' : T} (ht : t' ≠ t) {q : ℕ}
    (hq : (s.threads t').target = some q) : q ≠ p := by
  rintro rfl
  apply hs.unique t' t q ht _ hmine
  cases hy : s.threads t' with
  | test key r old =>
    rw [hy] at hq
    cases hq
    exact ⟨rfl, entry, hp, hpos⟩
  | readIndex | clear | unindex | claim | unlock | relock => rw [hy] at hq; cases hq; rfl
  | _ => rw [hy] at hq; cases hq

variable {old : ℕ}

lemma System.Inv.clear (hs : s.Inv) {index : ℤ} (hx : s.threads t = .clear key p old index) :
    (s.move t (s.cache.setSlot old index none) (.unindex key p old)).Inv := by
  have hsound := hs.sound
  have hat := hs.place t
  rw [hx] at hat
  obtain ⟨hkey, hold, hfull, entry, hp, hgen, hpos, hindex, hslot⟩ := hat
  obtain ⟨hg, hi, -⟩ := hsound.slots old entry.index.toNat p hslot
  have hcast : index = (entry.index.toNat : ℤ) := by omega
  rw [hcast]
  set i := entry.index.toNat
  set cache := s.cache.setSlot old (i : ℤ) none with hcache
  have hslots : ∀ g j, cache.slot g j = if g = old ∧ j = i then none else s.cache.slot g j :=
    setSlot_slot hg hi
  have hnext : ∀ g, (cache.fGenerations g).nextIndex = (s.cache.fGenerations g).nextIndex :=
    setSlot_nextIndex hg hi
  have hentries : cache.fEntries = s.cache.fEntries := setSlot_entries _
  have hheap : cache.heap = s.cache.heap := setSlot_heap _
  have hcurrent : cache.fCurrentGeneration = s.cache.fCurrentGeneration := setSlot_current _
  have hfault : cache.fault = s.cache.fault := setSlot_fault hg hi
  have hsome : ∀ g j q, cache.slot g j = some q →
      s.cache.slot g j = some q ∧ ¬(g = old ∧ j = i) := by
    intro g j q h
    rw [hslots] at h
    split_ifs at h with hc
    exact ⟨h, hc⟩
  have hkept : ∀ g j q, s.cache.slot g j = some q → q ≠ p → cache.slot g j = some q := by
    intro g j q h hq
    rw [hslots, if_neg]
    · exact h
    · rintro ⟨rfl, rfl⟩
      rw [hslot] at h
      exact hq (Option.some.inj h).symm
  have hnone : ∀ g j, cache.slot g j ≠ some p := by
    intro g j h
    obtain ⟨h', hne⟩ := hsome g j p h
    have hgo := hsound.once g old j i p h' hslot
    obtain ⟨-, -, e, he, -, hj, -⟩ := hsound.slots g j p h'
    rw [hp] at he
    cases he
    exact hne ⟨hgo, by omega⟩
  have hcarries : ∀ q y, cache.Carries q y → s.cache.Carries q y := by
    intro q y h
    apply carries_congr _ h
    intro e he hpos'
    rw [hheap] at he
    exact ⟨e, he, hpos'⟩
  have hmine : s.cache.Carries p (s.threads t) := by rw [hx]; rfl
  apply System.Inv.move
  · refine ⟨by rw [hfault]; exact hsound.fault, by rw [hcurrent]; exact hsound.current,
      fun key' q h => ?_, fun g j q h => ?_, fun g g' j j' q h h' =>
        hsound.once g g' j j' q (hsome g j q h).1 (hsome g' j' q h').1, fun key' q e h he => ?_,
      fun g hg' => ?_, fun j hj => ?_⟩
    · rw [hentries] at h
      rw [hheap]
      exact hsound.table key' q h
    · obtain ⟨h', hne⟩ := hsome g j q h
      obtain ⟨hg', hj, e, he, hk, hij, hwhere⟩ := hsound.slots g j q h'
      rw [hheap, hentries]
      refine ⟨hg', hj, e, he, hk, hij, hwhere.imp_right fun hsrc => ?_⟩
      apply source_move hsrc
      rw [hx]
      intro hq
      cases hq
      exact absurd h (hnone _ _)
    · rw [hentries] at h
      rw [hheap] at he
      by_cases hq : q = p
      · refine .inr ⟨t, ?_⟩
        show (update s.threads t (.unindex key p old) t).loose = _
        rw [update_self, hq]
        rfl
      · rcases hsound.placed key' q e h he with ⟨hpos', hwhere⟩ | hl
        · refine .inl ⟨hpos', ?_⟩
          rcases hwhere with hwhere | ⟨g, hsrc⟩
          · exact .inl (hkept _ _ q hwhere hq)
          · refine .inr ⟨g, source_move hsrc ?_⟩
            rw [hx]
            intro hq'
            cases hq'
            exact absurd rfl hq
        · exact .inr (loose_move hl (by rw [hx]; exact nofun))
    · rw [hcurrent] at hg'
      rw [hnext]
      refine (hsound.full g hg').imp_right fun hall j => ?_
      rw [hslots]
      split_ifs
      · rfl
      · exact hall j
    · rw [hcurrent, hnext] at hj
      rw [hcurrent, hslots]
      split_ifs
      · rfl
      · exact hsound.next j hj
  · refine ⟨by rw [hentries]; exact hkey, by rw [hcurrent]; exact hold, by rw [hnext]; exact hfull,
      ⟨entry, by rw [hheap]; exact hp, by rw [hcurrent]; exact hgen, hpos⟩, hnone⟩
  · -- the slots of the entries that others move are different ones
    intro t' ht'
    apply at_keep (hs.place t') hentries hcurrent (fun g => (hnext g).ge) (fun q _ => by rw [hheap])
    intro g j q hq
    have hne := hs.target_ne hmine hp hpos ht' hq
    exact ⟨fun h => (hsome g j q h).1, fun h => hkept g j q h hne⟩
  · intro t' ht' q h h'
    have hq : p = q := h
    rw [← hq] at h'
    exact hs.unique t' t p ht' (hcarries _ _ h') hmine
  · intro t' _ t'' _ q hne h h'
    exact hs.unique t' t'' q hne (hcarries _ _ h) (hcarries _ _ h')

lemma System.Inv.unindex (hs : s.Inv) (hx : s.threads t = .unindex key p old) :
    (s.move t (s.cache.modify p fun entry => { entry with index := kEntryNotInArray })
      (.claim key p old)).Inv := by
  have hsound := hs.sound
  have hat := hs.place t
  rw [hx] at hat
  obtain ⟨hkey, hold, hfull, ⟨entry, hp, hgen, hpos⟩, hnone⟩ := hat
  rw [modify_eq hp]
  set cache : EntryCache := { s.cache with
    heap := update s.cache.heap p (some { entry with index := kEntryNotInArray }) }
    with hcache
  have hself : cache.heap p = some { entry with index := kEntryNotInArray } :=
    update_self _ _ _
  have hother : ∀ q ≠ p, cache.heap q = s.cache.heap q := fun q h => update_of_ne h _ _
  have hmine : s.cache.Carries p (s.threads t) := by rw [hx]; rfl
  have hcarries : ∀ q y, cache.Carries q y → s.cache.Carries q y := by
    intro q y h
    apply carries_congr _ h
    intro e he hpos'
    by_cases hq : q = p
    · subst hq
      exact ⟨entry, hp, hpos⟩
    · rw [hother q hq] at he
      exact ⟨e, he, hpos'⟩
  have hsource : ∀ q g, s.source q g → (s.move t cache (.claim key p old)).source q g :=
    fun q g h => source_move h (by rw [hx]; exact nofun)
  have hloose : ∀ q, s.loose q → (s.move t cache (.claim key p old)).loose q :=
    fun q h => loose_move h (by rw [hx]; exact id)
  apply System.Inv.move
  · refine ⟨hsound.fault, hsound.current, fun key' q h => ?_, fun g i q h => ?_, hsound.once,
      fun key' q e h he => ?_, hsound.full, hsound.next⟩
    · obtain ⟨e, he, hk, hl⟩ := hsound.table key' q h
      by_cases hq : q = p
      · subst hq
        rw [hp] at he
        cases he
        exact ⟨_, hself, hk, hl⟩
      · exact ⟨e, by rw [hother q hq, he], hk, hl⟩
    · obtain ⟨hg, hi, e, he, hk, hindex, hwhere⟩ := hsound.slots g i q h
      have hq : q ≠ p := by
        rintro rfl
        exact hnone g i h
      exact ⟨hg, hi, e, by rw [hother q hq, he], hk, hindex, hwhere.imp_right (hsource q g)⟩
    · by_cases hq : q = p
      · refine .inr ⟨t, ?_⟩
        show (update s.threads t (.claim key p old) t).loose = _
        rw [update_self, hq]
        rfl
      · rw [hother q hq] at he
        rcases hsound.placed key' q e h he with ⟨hpos', hwhere⟩ | hl
        · refine .inl ⟨hpos', hwhere.imp_right ?_⟩
          rintro ⟨g, hg⟩
          exact ⟨g, hsource q g hg⟩
        · exact .inr (hloose q hl)
  · exact ⟨hkey, hold, hfull, _, hself, rfl⟩
  · intro t' ht'
    have hne : ∀ q, (s.threads t').target = some q → cache.heap q = s.cache.heap q :=
      fun q hq => hother q (hs.target_ne hmine hp hpos ht' hq)
    exact at_keep (hs.place t') rfl rfl (fun g => Nat.le_refl _) hne fun g j q _ => Iff.rfl
  · intro t' ht' q h h'
    have hq : p = q := h
    rw [← hq] at h'
    exact hs.unique t' t p ht' (hcarries _ _ h') hmine
  · intro t' _ t'' _ q hne h h'
    exact hs.unique t' t'' q hne (hcarries _ _ h) (hcarries _ _ h')

lemma System.Inv.claim (hs : s.Inv) (hx : s.threads t = .claim key p old) :
    (s.move t (s.cache.setNextIndex old ((s.cache.fGenerations old).nextIndex + 1))
      (.unlock key p)).Inv := by
  have hsound := hs.sound
  have hat := hs.place t
  rw [hx] at hat
  obtain ⟨hkey, hold, hfull, entry, hp, hneg⟩ := hat
  set n := (s.cache.fGenerations old).nextIndex + 1 with hn
  set cache := s.cache.setNextIndex old n
  have hslots : ∀ g j, cache.slot g j = s.cache.slot g j := setNextIndex_slot n
  have hnext : ∀ g, (cache.fGenerations g).nextIndex =
      if g = old then n else (s.cache.fGenerations g).nextIndex := setNextIndex_nextIndex n
  have hle : ∀ g, (s.cache.fGenerations g).nextIndex ≤ (cache.fGenerations g).nextIndex := by
    intro g
    rw [hnext]
    split_ifs with hg
    · rw [hg, hn]
      exact Nat.le_succ _
    · exact Nat.le_refl _
  have hmine : s.cache.Carries p (s.threads t) := by rw [hx]; rfl
  have hsource : ∀ q g, s.source q g → (s.move t cache (.unlock key p)).source q g :=
    fun q g h => source_move h (by rw [hx]; exact nofun)
  have hloose : ∀ q, s.loose q → (s.move t cache (.unlock key p)).loose q :=
    fun q h => loose_move h (by rw [hx]; exact id)
  apply System.Inv.move
  · refine ⟨hsound.fault, hsound.current, hsound.table, fun g i q h => ?_,
      fun g g' i i' q h h' => ?_, fun key' q e h he => ?_, fun g hg => ?_, fun i hi => ?_⟩
    · rw [hslots] at h
      obtain ⟨hg, hi, e, he, hk, hindex, hwhere⟩ := hsound.slots g i q h
      exact ⟨hg, hi, e, he, hk, hindex, hwhere.imp_right (hsource q g)⟩
    · rw [hslots] at h h'
      exact hsound.once g g' i i' q h h'
    · rw [hslots]
      rcases hsound.placed key' q e h he with ⟨hpos', hwhere⟩ | hl
      · refine .inl ⟨hpos', hwhere.imp_right ?_⟩
        rintro ⟨g, hg⟩
        exact ⟨g, hsource q g hg⟩
      · exact .inr (hloose q hl)
    · rcases hsound.full g hg with hf | hall
      · exact .inl (hf.trans (hle g))
      · exact .inr fun i => by rw [hslots]; exact hall i
    · have hg : s.cache.fCurrentGeneration ≠ old := hold.symm
      have hcur : (cache.fGenerations s.cache.fCurrentGeneration).nextIndex =
          (s.cache.fGenerations s.cache.fCurrentGeneration).nextIndex := by
        rw [hnext, if_neg hg]
      show cache.slot s.cache.fCurrentGeneration i = none
      rw [hslots]
      exact hsound.next i (hcur ▸ hi)
  · exact ⟨hkey, entry, hp, hneg⟩
  · intro t' _
    exact at_keep (hs.place t') rfl rfl hle (fun _ _ => rfl) fun g j q _ => by rw [hslots]
  · intro t' ht' q h h'
    have hq : p = q := h
    rw [← hq] at h'
    exact hs.unique t' t p ht' h' hmine
  · intro t' _ t'' _ q hne h h'
    exact hs.unique t' t'' q hne h h'

/-! ## All steps -/

lemma System.Inv.look (hs : s.Inv) (h : s.cache.look (s.threads t) = some (cache, x)) :
    (s.move t cache x).Inv := by
  have hsound := hs.sound
  have hat := hs.place t
  unfold EntryCache.look at h
  cases hx : s.threads t with
  | idle => rw [hx] at h; cases h
  | search key =>
    rw [hx] at h
    dsimp only at h
    cases hf : s.cache.fEntries key with
    | none =>
      rw [hf] at h
      cases h
      exact hs.stay trivial (by rw [hx]; exact nofun) (by rw [hx]; exact nofun) nofun
    | some p =>
      rw [hf] at h
      cases h
      exact hs.stay hf (by rw [hx]; exact nofun) (by rw [hx]; exact nofun) nofun
  | miss key =>
    rw [hx] at h
    cases h
    exact hs.stay trivial (by rw [hx]; exact nofun) (by rw [hx]; exact nofun) nofun
  | exchange key p =>
    rw [hx] at h hat
    obtain ⟨entry, hp, -, -⟩ := hsound.table key p hat
    dsimp only at h
    rw [hp] at h
    dsimp only at h
    by_cases hgen : entry.generation = s.cache.fCurrentGeneration
    · have hsame : ({ entry with generation := s.cache.fCurrentGeneration } : Entry) = entry := by
        rw [← hgen]
      have hkept : s.cache.modify p (fun entry =>
          { entry with generation := s.cache.fCurrentGeneration }) = s.cache := by
        rw [modify_eq hp, hsame, ← hp, update_eq_self]
      rw [if_pos hgen, hkept] at h
      cases h
      exact hs.stay hat (by rw [hx]; exact nofun) (by rw [hx]; exact nofun) nofun
    · rw [if_neg hgen] at h
      cases h
      exact hs.exchange hx hp hgen
  | test key p old =>
    rw [hx] at h hat
    obtain ⟨hkey, hold, entry, hp, hgen, hpos⟩ := hat
    dsimp only at h
    rw [hp] at h
    dsimp only at h
    by_cases hneg : entry.index < 0
    · rw [if_pos hneg] at h
      cases h
      refine hs.stay hkey (fun q g hq => .inr ?_) (by rw [hx]; exact nofun) nofun
      rw [hx] at hq
      cases hq
      intro e he
      rw [hp] at he
      cases he
      exact hneg
    · rw [if_neg hneg] at h
      cases h
      have h0 : 0 ≤ entry.index := by omega
      refine hs.stay ⟨hkey, hold, (hpos h0).1, entry, hp, hgen, h0, (hpos h0).2⟩
        (fun q g hq => .inl ?_) (by rw [hx]; exact nofun) fun q hq => ?_
      · rw [hx] at hq
        exact hq
      · rw [hx]
        exact ⟨hq, entry, hq ▸ hp, h0⟩
  | fetch key p =>
    rw [hx] at h hat
    obtain ⟨entry, hp, -, hl⟩ := hsound.table key p hat
    dsimp only at h
    rw [hp] at h
    cases h
    exact hs.stay hl (by rw [hx]; exact nofun) (by rw [hx]; exact nofun) nofun
  | hit key nodeID =>
    rw [hx] at h
    cases h
    exact hs.stay trivial (by rw [hx]; exact nofun) (by rw [hx]; exact nofun) nofun
  | readIndex key p old =>
    rw [hx] at h hat
    obtain ⟨hkey, hold, hfull, entry, hp, hgen, hpos, hslot⟩ := hat
    dsimp only at h
    rw [hp] at h
    cases h
    refine hs.stay ⟨hkey, hold, hfull, entry, hp, hgen, hpos, rfl, hslot⟩
      (fun q g hq => .inl ?_) (by rw [hx]; exact nofun) fun q hq => ?_
    · rw [hx] at hq
      exact hq
    · rw [hx]
      exact hq
  | clear key p old index =>
    rw [hx] at h
    cases h
    exact hs.clear hx
  | unindex key p old =>
    rw [hx] at h
    cases h
    exact hs.unindex hx
  | claim key p old =>
    rw [hx] at h hat
    dsimp only at h
    rw [if_neg (Nat.not_lt.2 hat.2.2.1)] at h
    cases h
    exact hs.claim hx
  | store => rw [hx] at hat; exact hat.elim
  | setIndex => rw [hx] at hat; exact hat.elim
  | unlock key p =>
    rw [hx] at h hat
    cases h
    obtain ⟨hkey, entry, hp, hneg⟩ := hat
    obtain ⟨e, he, hk, -⟩ := hsound.table key p hkey
    rw [hp] at he
    cases he
    refine hs.stay ⟨entry, hp, hk, .inl ⟨hneg, hkey⟩⟩ (by rw [hx]; exact nofun) (fun q hq => ?_)
      fun q hq => ?_
    · rw [hx] at hq
      exact hq
    · rw [hx]
      exact hq
  | relock => rw [hx] at h; cases h

end Haiku.Vfs
