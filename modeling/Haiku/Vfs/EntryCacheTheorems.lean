import Haiku.Vfs.EntryCacheCalls

/-!
# The entry cache in every run

While no call is in progress, the entries of the table and the slots of the arrays name each other.
Memory that has been freed is never used, and a `Lookup()` that finds an entry returns the node that
has been added last.
-/

namespace Haiku.Vfs

open Function Lib

def Phase.entry : Phase → Option ℕ
  | .exchange _ p | .test _ p _ | .fetch _ p | .readIndex _ p _ | .clear _ p _ _ => some p
  | .unindex _ p _ | .claim _ p _ | .store _ p _ | .setIndex _ p _ => some p
  | .unlock _ p | .relock _ p => some p
  | _ => none

variable {T : Type}

def System.Resting (s : System T) : Prop := ∀ t, ∃ answer, s.threads t = .idle answer

structure System.Right [Fintype T] [DecidableEq T] (s : System T) : Prop where
  /-- No use of memory that is not allocated, no second `free()` and no index outside an array -/
  fault : s.cache.fault = false
  held : ∀ t p, (s.threads t).entry = some p → (s.cache.heap p).isSome = true
  table : s.Resting → ∀ key p, s.cache.fEntries key = some p → ∃ entry,
    s.cache.heap p = some entry ∧ entry.key = key ∧ 0 ≤ entry.index ∧
      s.cache.slot entry.generation entry.index.toNat = some p
  slots : s.Resting → ∀ g i p, s.cache.slot g i = some p → ∃ entry,
    s.cache.heap p = some entry ∧ s.cache.fEntries entry.key = some p ∧ entry.generation = g ∧
      entry.index = i
  answer : ∀ t input s', step s (t, input) = some s' → ∀ key nodeID,
    s'.threads t = .idle (.found key nodeID) → s'.latest key = some nodeID

variable {s s' : System T} {t : T}

lemma System.Inv.init : (System.init T).Inv := by
  have hslot : ∀ g i p, EntryCache.init.slot g i ≠ some p := nofun
  have hcurrent : EntryCache.init.fCurrentGeneration < kGenerationCount := by decide
  refine ⟨⟨rfl, hcurrent, nofun, fun g i p h => absurd h (hslot g i p),
    fun g g' i i' p h => absurd h (hslot g i p), nofun, fun g _ => .inr fun i => rfl,
    fun i _ => rfl⟩, fun t => trivial, nofun⟩

lemma System.Inv.held (hs : s.Inv) {p : ℕ} (h : (s.threads t).entry = some p) :
    (s.cache.heap p).isSome = true := by
  have hat := hs.place t
  have hkey : ∀ key, s.cache.fEntries key = some p → (s.cache.heap p).isSome = true := by
    intro key hk
    obtain ⟨entry, hp, -⟩ := hs.sound.table key p hk
    rw [hp]
    rfl
  cases hx : s.threads t with
  | exchange key q => rw [hx] at h hat; cases h; exact hkey key hat
  | fetch key q => rw [hx] at h hat; cases h; exact hkey key hat
  | test key q old => rw [hx] at h hat; cases h; exact hkey key hat.1
  | readIndex key q old => rw [hx] at h hat; cases h; exact hkey key hat.1
  | clear key q old index => rw [hx] at h hat; cases h; exact hkey key hat.1
  | unindex key q old => rw [hx] at h hat; cases h; exact hkey key hat.1
  | claim key q old => rw [hx] at h hat; cases h; exact hkey key hat.1
  | store => rw [hx] at hat; exact hat.elim
  | setIndex => rw [hx] at hat; exact hat.elim
  | unlock key q => rw [hx] at h hat; cases h; exact hkey key hat.1
  | relock key q =>
    rw [hx] at h hat
    cases h
    obtain ⟨entry, hp, -⟩ := hat
    rw [hp]
    rfl
  | _ => rw [hx] at h; cases h

/-! ## Steps with the lock held for writing -/

section

variable [Fintype T]

lemma unread_iff : s.unread = true ↔ ∀ t, (s.threads t).reads = false := decide_eq_true_iff

variable {x : Phase}

lemma reads_eq_false (h : x.reads = false) :
    (∃ answer, x = .idle answer) ∨ ∃ key p, x = .relock key p := by
  cases x with
  | idle answer => exact .inl ⟨answer, rfl⟩
  | relock key p => exact .inr ⟨key, p, rfl⟩
  | _ => cases h

lemma System.Inv.quiet (hs : s.Inv) (hunread : s.unread = true) :
    s.cache.Quiet s.latest s.loose := by
  refine ⟨hs.sound.mono (fun p g h => ?_) fun p h => h, fun q hq => ?_⟩
  · obtain ⟨t, ht⟩ := h
    rcases reads_eq_false (unread_iff.1 hunread t) with ⟨answer, hx⟩ | ⟨key, q, hx⟩ <;>
      rw [hx] at ht <;> cases ht
  · obtain ⟨t, ht⟩ := hq
    have hat := hs.place t
    rcases reads_eq_false (unread_iff.1 hunread t) with ⟨answer, hx⟩ | ⟨key, q', hx⟩
    · rw [hx] at ht
      cases ht
    · rw [hx] at ht hat
      cases ht
      obtain ⟨entry, hp, -, hwhere⟩ := hat
      refine ⟨entry, hp, ?_⟩
      rcases hwhere with ⟨hindex, -⟩ | ⟨hindex, -⟩ <;> rw [hindex] <;> decide

variable [DecidableEq T]

variable {answer : Answer}

lemma System.Inv.write (hs : s.Inv) (hunread : s.unread = true) {cache : EntryCache}
    {latest : Key → Option Ino} {loose : ℕ → Prop}
    (hsound : cache.Sound latest (fun _ _ => False) loose)
    (hloose : ∀ q, loose q → ∃ t' ≠ t, (s.threads t').loose = some q)
    (hothers : ∀ t' ≠ t, ∀ key q, s.threads t' = .relock key q → cache.At latest (.relock key q)) :
    (⟨cache, update s.threads t (.idle answer), latest⟩ : System T).Inv := by
  have hself : update s.threads t (.idle answer) t = .idle answer :=
    update_self _ _ _
  have hother : ∀ t' ≠ t, update s.threads t (.idle answer) t' = s.threads t' :=
    fun t' h => update_of_ne h _ _
  refine ⟨hsound.mono (fun _ _ h => h.elim) fun q hq => ?_, fun t' => ?_, fun t' t'' q hne => ?_⟩
  · obtain ⟨t', ht', hq'⟩ := hloose q hq
    refine ⟨t', ?_⟩
    show (update s.threads t (.idle answer) t').loose = some q
    rw [hother t' ht', hq']
  · show cache.At latest (update s.threads t (.idle answer) t')
    by_cases he : t' = t
    · rw [he, hself]
      exact trivial
    · rw [hother t' he]
      rcases reads_eq_false (unread_iff.1 hunread t') with ⟨_, hx⟩ | ⟨key, q, hx⟩
      · rw [hx]
        exact trivial
      · rw [hx]
        exact hothers t' he key q hx
  · show cache.Carries q (update s.threads t (.idle answer) t') →
      ¬cache.Carries q (update s.threads t (.idle answer) t'')
    by_cases he : t' = t
    · rw [he, hself]
      exact False.elim
    · by_cases he' : t'' = t
      · rw [he', hself]
        exact fun _ h => h
      · rw [hother t' he, hother t'' he']
        have hunique := hs.unique t' t'' q hne
        -- whether a thread that waits carries an entry does not depend on the cache
        have hsame :
            ∀ t''', cache.Carries q (s.threads t''') → s.cache.Carries q (s.threads t''') := by
          intro t''' h
          rcases reads_eq_false (unread_iff.1 hunread t''') with ⟨_, hx⟩ | ⟨key, q', hx⟩
          · rw [hx] at h
            exact h.elim
          · rw [hx] at h ⊢
            exact h
        exact fun h h' => hunique (hsame t' h) (hsame t'' h')

omit [Fintype T] [DecidableEq T] in
lemma loose_of_idle (hx : s.threads t = .idle answer) {q : ℕ} (h : s.loose q) :
    ∃ t' ≠ t, (s.threads t').loose = some q := by
  obtain ⟨t', ht'⟩ := h
  refine ⟨t', ?_, ht'⟩
  rintro rfl
  rw [hx] at ht'
  cases ht'

lemma System.Inv.add (hs : s.Inv) (hunread : s.unread = true)
    (hx : s.threads t = .idle answer) {key : Key} {nodeID : Ino} {memory : Option ℕ}
    {cache : EntryCache} (hadd : s.cache.add key nodeID memory = some cache) :
    (⟨cache, update s.threads t (.idle .none),
      update s.latest key (some nodeID)⟩ : System T).Inv := by
  obtain ⟨hsound, hkeeps⟩ := (hs.quiet hunread).add hadd
  refine hs.write hunread hsound (fun q hq => loose_of_idle hx hq) fun t' _ key' q hy => ?_
  have hat := hs.place t'
  rw [hy] at hat
  exact (hkeeps q ⟨t', by rw [hy]; rfl⟩).relock hat

lemma System.Inv.remove (hs : s.Inv) (hunread : s.unread = true)
    (hx : s.threads t = .idle answer) (key : Key) :
    (⟨s.cache.remove key, update s.threads t (.idle .none),
      update s.latest key none⟩ : System T).Inv := by
  obtain ⟨hsound, hwaits⟩ := (hs.quiet hunread).remove key
  refine hs.write hunread hsound (fun q hq => loose_of_idle hx hq) fun t' _ key' q hy => ?_
  have hat := hs.place t'
  rw [hy] at hat
  exact hwaits key' q ⟨t', by rw [hy]; rfl⟩ hat

lemma System.Inv.finishMove (hs : s.Inv) (hunread : s.unread = true) {key : Key} {p : ℕ}
    (hx : s.threads t = .relock key p) :
    (s.move t (s.cache.finishMove key p).1 (s.cache.finishMove key p).2).Inv ∧
      ∃ answer, (s.cache.finishMove key p).2 = .idle answer ∧
        ∀ key nodeID, answer = .found key nodeID → s.latest key = some nodeID := by
  have hat := hs.place t
  rw [hx] at hat
  have hcarries : s.cache.Carries p (s.threads t) := by rw [hx]; rfl
  have hothers : ∀ q ≠ p, s.loose q → (fun q => q ≠ p ∧ s.loose q) q := fun q hq hl => ⟨hq, hl⟩
  obtain ⟨hsound, hkeeps, answer, hanswer, hnode⟩ := (hs.quiet hunread).finishMove hat hothers
  refine ⟨?_, answer, hanswer, hnode⟩
  rw [hanswer]
  refine hs.write hunread hsound (fun q hq => ?_) fun t' ht' key' q hy => ?_
  · obtain ⟨hne, t', ht'⟩ := hq
    refine ⟨t', ?_, ht'⟩
    rintro rfl
    rw [hx] at ht'
    cases ht'
    exact hne rfl
  · have hat' := hs.place t'
    rw [hy] at hat'
    -- no other thread waits with the same entry
    have hne : q ≠ p := by
      rintro rfl
      exact hs.unique t t' q ht'.symm hcarries (by rw [hy]; rfl)
    exact (hkeeps q hne).relock hat'

/-! ## Runs -/

omit [Fintype T] [DecidableEq T] in
lemma look_found {c c' : EntryCache} {key : Key} {nodeID : Ino}
    (h : c.look x = some (c', .idle (.found key nodeID))) : x = .hit key nodeID := by
  unfold EntryCache.look at h
  cases x with
  | hit key' nodeID' => cases h; rfl
  | search key' => dsimp only at h; split at h <;> cases h
  | exchange key' p | test key' p old =>
    dsimp only at h
    split at h
    · cases h
    · split_ifs at h <;> cases h
  | claim key' p old => dsimp only at h; split_ifs at h <;> cases h
  | fetch key' p | readIndex key' p old => dsimp only at h; split at h <;> cases h
  | _ => cases h

omit [DecidableEq T] in
lemma act_go (hidle : ∀ answer, x ≠ .idle answer) (hrelock : ∀ key p, x ≠ .relock key p) :
    s.act x .go = s.cache.look x := by
  cases x with
  | idle answer => exact absurd rfl (hidle answer)
  | relock key p => exact absurd rfl (hrelock key p)
  | _ => rfl

lemma System.Inv.step (hs : s.Inv) {input : Input} (h : step s (t, input) = some s') :
    s'.Inv ∧ ∀ key nodeID, s'.threads t = .idle (.found key nodeID) →
      s'.latest key = some nodeID := by
  obtain ⟨⟨cache, x⟩, hact, rfl⟩ := Option.map_eq_some_iff.1 h
  dsimp only at hact ⊢
  rw [update_self]
  cases input with
  | lookup key =>
    cases hx : s.threads t with
    | idle answer =>
      rw [hx] at hact
      cases hact
      refine ⟨hs.stay trivial ?_ ?_ nofun, nofun⟩ <;> rw [hx] <;> exact nofun
    | _ => rw [hx] at hact; cases hact
  | add key nodeID memory =>
    cases hx : s.threads t with
    | idle answer =>
      rw [hx] at hact
      unfold System.act at hact
      dsimp only at hact
      split_ifs at hact with hunread
      obtain ⟨cache', hadd, he⟩ := Option.map_eq_some_iff.1 hact
      cases he
      exact ⟨hs.add hunread hx hadd, nofun⟩
    | _ => rw [hx] at hact; cases hact
  | remove key =>
    cases hx : s.threads t with
    | idle answer =>
      rw [hx] at hact
      unfold System.act at hact
      dsimp only at hact
      split_ifs at hact with hunread
      cases hact
      exact ⟨hs.remove hunread hx key, nofun⟩
    | _ => rw [hx] at hact; cases hact
  | go =>
    have hlook : ∀ y, s.threads t = y → s.cache.look y = some (cache, x) →
        (∀ key nodeID, x = .idle (.found key nodeID) → s.latest key = some nodeID) →
        (s.move t cache x).Inv ∧ ∀ key nodeID, x = .idle (.found key nodeID) →
          s.latest key = some nodeID :=
      fun y hy hl hanswer => ⟨hs.look (hy ▸ hl), hanswer⟩
    cases hx : s.threads t with
    | idle => rw [hx] at hact; cases hact
    | relock key p =>
      rw [hx] at hact
      unfold System.act at hact
      dsimp only at hact
      split_ifs at hact with hunread
      obtain ⟨hinv, answer, hanswer, hnode⟩ := hs.finishMove hunread hx
      rw [Option.some.inj hact] at hinv hanswer
      refine ⟨hinv, fun key' nodeID he => hnode key' nodeID ?_⟩
      have hidle : x = .idle answer := hanswer
      rw [hidle] at he
      cases he
      rfl
    | hit key nodeID =>
      rw [hx] at hact
      have hat := hs.place t
      rw [hx] at hat
      refine hlook _ hx hact fun key' nodeID' he => ?_
      cases hact
      cases he
      exact hat
    | _ =>
      rw [hx] at hact
      refine hlook _ hx hact fun key' nodeID' he => ?_
      have hlooked := (act_go (by nofun) (by nofun)).symm.trans hact
      rw [he] at hlooked
      cases look_found hlooked

lemma inv_of_run {h : History (System T) (T × Input)}
    (hr : Run step (fun _ _ => True) (.init T) h s) : s.Inv :=
  hr.invariant .init fun hs _ ht => (hs.step ht).1

/-- The entry cache is right after every run of any number of threads. -/
theorem entry_cache_right {h : History (System T) (T × Input)}
    (hr : Run step (fun _ _ => True) (.init T) h s) : s.Right := by
  have hs := inv_of_run hr
  have hquiet : s.Resting → s.cache.Quiet s.latest s.loose := by
    intro hrest
    apply hs.quiet
    rw [unread_iff]
    intro t
    obtain ⟨answer, hx⟩ := hrest t
    rw [hx]
    rfl
  refine ⟨hs.sound.fault, fun t p => hs.held, fun hrest key p hkey => ?_,
    fun hrest g i p hslot => ?_, fun t input s' ht => (hs.step ht).2⟩
  · obtain ⟨entry, hp, hk, -⟩ := hs.sound.table key p hkey
    have hpos : 0 ≤ entry.index := by
      rcases hs.sound.placed key p entry hkey hp with ⟨hpos, -⟩ | ⟨t, ht⟩
      · exact hpos
      · obtain ⟨answer, hx⟩ := hrest t
        rw [hx] at ht
        cases ht
    exact ⟨entry, hp, hk, hpos, (hquiet hrest).slot_eq hkey hp hpos⟩
  · obtain ⟨-, -, entry, hp, hkey, hindex, hgen⟩ := (hquiet hrest).sound.slots g i p hslot
    exact ⟨entry, hp, hkey, hgen.resolve_right id, hindex⟩

/-- A thread adds two entries, looks one of them up and removes the other. -/
theorem entry_cache_right_run : (outcome step (System.init Unit)
    [((), .add ⟨1, []⟩ 5 (some 0)), ((), .add ⟨2, []⟩ 6 (some 1)), ((), .lookup ⟨1, []⟩), ((), .go),
      ((), .go), ((), .go), ((), .go), ((), .remove ⟨2, []⟩)]).Right := by
  obtain ⟨h, hr, -⟩ := @run_outcome _ _ (fun _ _ => True) step (fun _ _ => true)
    (fun _ _ _ => trivial) (System.init Unit)
    [((), .add ⟨1, []⟩ 5 (some 0)), ((), .add ⟨2, []⟩ 6 (some 1)), ((), .lookup ⟨1, []⟩), ((), .go),
      ((), .go), ((), .go), ((), .go), ((), .remove ⟨2, []⟩)] (fun _ => true) (by decide)
  exact entry_cache_right hr

end

end Haiku.Vfs
