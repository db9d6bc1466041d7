import Haiku.Log.RingTheorems

/-!
# The log as a ring of pending entries

`LogOk` says what a log looks like as long as no entry was written that `Fits` does not allow: the
entries from the oldest unfinished one on lie in the ring one after the other, and
`FreeLogBlocks()` is what they leave.
-/

namespace Haiku.Log

open Lib

variable {D : Type} {v : Volume} {p₀ : ℕ} {s s' : System D} {j j' : Journal D}

/-! ## Positions of entries -/

/-- The log blocks of several entries, one after the other. -/
def layouts (v : Volume) (cs : List (Commit D)) : List (LogBlock D) := cs.flatMap (Commit.layout v)

/-- Where the next entry after the given ones begins, not reduced to the ring, when the first one
begins at `p₀`. -/
def position (v : Volume) (p₀ : ℕ) (cs : List (Commit D)) : ℕ := p₀ + (layouts v cs).length

@[simp]
lemma layouts_append (cs cs' : List (Commit D)) :
    layouts v (cs ++ cs') = layouts v cs ++ layouts v cs' := by
  simp [layouts]

@[simp]
lemma layouts_singleton (c : Commit D) : layouts v [c] = c.layout v := by
  simp [layouts]

lemma position_append (cs cs' : List (Commit D)) :
    position v p₀ (cs ++ cs') = position v p₀ cs + (layouts v cs').length := by
  simp [position, Nat.add_assoc]

/-! ## Free blocks -/

/-- `FreeLogBlocks()` in terms of the two positions. -/
def freeBetween (size start stop : ℕ) : ℕ :=
  if start ≤ stop then size + start - stop else start - stop

lemma freeLogBlocks_eq (v : Volume) (j : Journal D) :
    j.freeLogBlocks v = freeBetween v.logSize j.logStart j.logEnd := rfl

lemma freeBetween_cases (size start stop : ℕ) :
    start ≤ stop ∧ freeBetween size start stop = size + start - stop ∨
      stop < start ∧ freeBetween size start stop = start - stop := by
  unfold freeBetween
  split <;> omega

lemma freeBetween_of_start {size start stop used : ℕ} (hstart : start < size)
    (hstop : stop ≤ size) (hpos : 0 < used) (hused : used < size)
    (hmod : stop ≡ start + used [MOD size]) : freeBetween size start stop + used = size := by
  have hcases := freeBetween_cases size start stop
  have hstop' := ring_position hmod hstop (by omega) (by omega)
  omega

/-- The condition under which an entry may be added: it leaves a block free, unless the log starts
at position 0; and where the start lies behind the log area, as it does in a new volume, the entry
does not wrap around. -/
def FitsBetween (size start stop length : ℕ) : Prop :=
  start + length ≤ size + freeBetween size start stop ∧
    (length = freeBetween size start stop → start = 0)

lemma freeBetween_of_stop {size start stop used length stop' : ℕ}
    (hfree : freeBetween size start stop + used = size)
    (hpos : 0 < length)
    (hle : length ≤ freeBetween size start stop) (hfits : FitsBetween size start stop length)
    (hpos' : 0 < stop') (hstop' : stop' ≤ size) (hmod : stop' ≡ stop + length [MOD size]) :
    freeBetween size start stop' + (used + length) = size := by
  obtain ⟨hround, hfull⟩ := hfits
  have hold := freeBetween_cases size start stop
  have hnew := freeBetween_cases size start stop'
  by_cases hlt : stop < size
  · -- the end is a position of the ring
    have hend := ring_position hmod hstop' (by omega) (by omega)
    omega
  · -- the end is a round too large, or it is the end of the log area
    have hsub : stop' ≡ stop - size + length [MOD size] := by
      refine hmod.trans ?_
      have hself : stop + length = stop - size + length + size := by omega
      rw [hself]
      exact Nat.add_modEq_right
    have hend := ring_position hsub hstop' (by omega) (by omega)
    omega

/-! ## The invariant -/

/-- An entry logged at least one block, and only blocks of the volume. -/
structure CommitOk (v : Volume) (c : Commit D) : Prop where
  arrays : ∃ blocks, ArraysFor v c.arrays blocks ∧ ∀ b ∈ blocks, 0 < b ∧ b < v.numBlocks
  ne_nil : c.arrays ≠ []

/-- An entry of the list describes where its blocks are in the log. -/
structure EntryOk (v : Volume) (p₀ : ℕ) (commits : List (Commit D)) (e : LogEntry) : Prop where
  lt : e.id < commits.length
  start : e.start ≡ position v p₀ (commits.take e.id) [MOD v.logSize]
  length : e.length = (layouts v ((commits.drop e.id).take 1)).length

structure LogOk (v : Volume) (p₀ : ℕ) (s : System D) : Prop where
  commits : ∀ c ∈ s.commits, CommitOk v c
  sorted : s.journal.entries.Pairwise fun a b => a.id < b.id
  entries : ∀ e ∈ s.journal.entries, EntryOk v p₀ s.commits e
  start : s.journal.logStart ≡ position v p₀ (s.commits.take s.oldest) [MOD v.logSize]
  stop : s.journal.logEnd ≡ position v p₀ s.commits [MOD v.logSize]
  free : s.journal.freeLogBlocks v + (layouts v s.pending).length = v.logSize
  stop_le : s.journal.entries ≠ [] → s.journal.logEnd ≤ v.logSize
  empty : s.journal.entries = [] → s.journal.logStart = s.journal.logEnd
  holds : RingHolds s.journal.disk.log v.logSize (position v p₀ (s.commits.take s.oldest))
    (layouts v s.pending)
  superBlock : s.journal.disk.superBlock = s.journal.superBlock
  superStart : s.journal.superBlock.logStart = s.journal.logStart
  superEnd : s.journal.superBlock.logEnd = s.journal.logEnd

lemma CommitOk.layout_pos {c : Commit D} (h : CommitOk v c) : 0 < (c.layout v).length := by
  obtain ⟨a, ha⟩ := List.exists_mem_of_ne_nil _ h.ne_nil
  refine List.length_pos_of_mem (a := .array a) (List.mem_flatMap.2 ⟨a, ha, ?_⟩)
  exact List.mem_cons_self ..

lemma mounted_ok (v : Volume) (p₀ : ℕ) (log : ℕ → LogBlock D) : LogOk v p₀ (mounted p₀ log) where
  commits := by simp [mounted]
  sorted := .nil
  entries := by simp [mounted]
  start := by simp [mounted, position, layouts, Nat.ModEq.rfl]
  stop := by simp [mounted, position, layouts, Nat.ModEq.rfl]
  free := by simp [mounted, Journal.freeLogBlocks, System.pending, layouts]
  stop_le := by simp [mounted]
  empty := by simp [mounted]
  holds := by
    simp only [System.pending, mounted, List.drop_nil]
    exact .nil
  superBlock := rfl
  superStart := rfl
  superEnd := rfl

/-! ## Entries reported written -/

variable {e : LogEntry} {es : List LogEntry}

lemma oldest_of_cons (h : s.journal.entries = e :: es) : s.oldest = e.id := by
  simp [System.oldest, h]

lemma oldest_of_nil (h : s.journal.entries = []) : s.oldest = s.commits.length := by
  simp [System.oldest, h]

lemma layouts_pos {cs : List (Commit D)} (h : ∀ c ∈ cs, CommitOk v c) (hne : cs ≠ []) :
    0 < (layouts v cs).length := by
  obtain ⟨c, cs, rfl⟩ := List.exists_cons_of_ne_nil hne
  have hc := (h c (by simp)).layout_pos
  simp only [layouts, List.flatMap_cons, List.length_append]
  omega

lemma LogOk.drop_pos (h : LogOk v p₀ s) (he : e ∈ s.journal.entries) :
    0 < (layouts v (s.commits.drop e.id)).length := by
  have hlt := (h.entries e he).lt
  refine layouts_pos (fun c hc => h.commits c (List.mem_of_mem_drop hc)) ?_
  exact List.ne_nil_of_length_pos (by rw [List.length_drop]; omega)

lemma LogOk.pending_nil (hnil : s.journal.entries = []) : s.pending = [] := by
  rw [System.pending, oldest_of_nil hnil, List.drop_length]

lemma position_take (v : Volume) (p₀ : ℕ) (cs : List (Commit D)) (i : ℕ) :
    position v p₀ cs = position v p₀ (cs.take i) + (layouts v (cs.drop i)).length := by
  rw [← position_append, List.take_append_drop]

lemma layouts_drop (v : Volume) (cs : List (Commit D)) {i k : ℕ} (h : i ≤ k) :
    layouts v (cs.drop i) = layouts v ((cs.drop i).take (k - i)) ++ layouts v (cs.drop k) := by
  have hsplit : (cs.drop i).take (k - i) ++ cs.drop k = cs.drop i := by
    have hdrop : cs.drop k = (cs.drop i).drop (k - i) := by
      rw [List.drop_drop]
      congr 1
      omega
    rw [hdrop, List.take_append_drop]
  rw [← layouts_append, hsplit]

lemma transactionWritten_other (h : j.entries.head? ≠ some e) :
    transactionWritten v j e = { j with entries := j.entries.erase e } := by
  simp [transactionWritten, h]

structure StartMoved (v : Volume) (j j' : Journal D) (es : List LogEntry) : Prop where
  entries : j'.entries = es
  start : j'.logStart = (es.head?.map fun next => next.start % v.logSize).getD j.logEnd
  stop : j'.logEnd = j.logEnd
  log : j'.disk.log = j.disk.log
  superBlock : j'.disk.superBlock = j'.superBlock
  superStart : j'.superBlock.logStart = j'.logStart
  superEnd : j'.superBlock.logEnd = j.superBlock.logEnd

lemma transactionWritten_oldest (h : j.entries = e :: es) :
    StartMoved v j (transactionWritten v j e) es := by
  have herase : j.entries.erase e = es := by rw [h, List.erase_cons_head]
  have hhead : j.entries.head? = some e := by rw [h, List.head?_cons]
  cases es with
  | nil =>
    simp only [transactionWritten, hhead, if_true, herase, List.head?_nil, Journal.writeSuperBlock]
    constructor <;> first | rfl | (split <;> rfl)
  | cons next es =>
    simp only [transactionWritten, hhead, if_true, herase, List.head?_cons, Journal.writeSuperBlock]
    constructor <;> first | rfl | (split <;> rfl)

section

variable (h : LogOk v p₀ s)
include h

lemma LogOk.finish_other (he : e ∈ s.journal.entries) (hne : s.journal.entries.head? ≠ some e) :
    LogOk v p₀ { s with journal := transactionWritten v s.journal e } := by
  obtain ⟨e₀, es, hes⟩ := List.exists_cons_of_ne_nil (List.ne_nil_of_mem he)
  have hne₀ : e₀ ≠ e := by
    rintro rfl
    exact hne (by rw [hes, List.head?_cons])
  have herase : s.journal.entries.erase e = e₀ :: es.erase e := by
    rw [hes, List.erase_cons_tail (by simpa using hne₀)]
  have hold : System.oldest { s with journal := transactionWritten v s.journal e } = s.oldest := by
    rw [transactionWritten_other hne, oldest_of_cons hes]
    exact oldest_of_cons herase
  have hpend :
    System.pending { s with journal := transactionWritten v s.journal e } = s.pending := by
    unfold System.pending
    rw [hold]
  constructor
  case start => rw [hold]; simpa only [transactionWritten_other hne] using h.start
  case free => rw [hpend, transactionWritten_other hne]; exact h.free
  case holds => rw [hold, hpend]; simpa only [transactionWritten_other hne] using h.holds
  all_goals simp only [transactionWritten_other hne]
  case commits => exact h.commits
  case sorted => exact h.sorted.sublist List.erase_sublist
  case entries => exact fun e' he' => h.entries e' (List.mem_of_mem_erase he')
  case stop => exact h.stop
  case stop_le => exact fun _ => h.stop_le (List.ne_nil_of_mem he)
  case empty => exact fun hnil => absurd hnil (by rw [herase]; exact List.cons_ne_nil _ _)
  case superBlock => exact h.superBlock
  case superStart => exact h.superStart
  case superEnd => exact h.superEnd

lemma LogOk.finish_last (hes : s.journal.entries = [e]) :
    LogOk v p₀ { s with journal := transactionWritten v s.journal e } := by
  have hm : StartMoved v s.journal _ _ := transactionWritten_oldest hes
  have hnil := hm.entries
  have hpend : System.pending { s with journal := transactionWritten v s.journal e } = [] :=
    LogOk.pending_nil hnil
  have hold : System.oldest { s with journal := transactionWritten v s.journal e } =
      s.commits.length := oldest_of_nil hnil
  have hstart : (transactionWritten v s.journal e).logStart = s.journal.logEnd := hm.start
  constructor
  case commits => exact h.commits
  case sorted => simp [hnil]
  case entries => simp [hnil]
  case start =>
    rw [hold, List.take_length, hstart]
    exact h.stop
  case stop => simpa only [hm.stop] using h.stop
  case free =>
    rw [hpend]
    simp [Journal.freeLogBlocks, hstart, hm.stop, layouts]
  case stop_le => exact fun hne => absurd hnil hne
  case empty => exact fun _ => by rw [hstart, hm.stop]
  case holds => rw [hpend]; exact .nil
  case superBlock => exact hm.superBlock
  case superStart => exact hm.superStart
  case superEnd => rw [hm.superEnd, hm.stop, h.superEnd]

lemma LogOk.finish_first {next : LogEntry} (hes : s.journal.entries = e :: next :: es) :
    LogOk v p₀ { s with journal := transactionWritten v s.journal e } := by
  have hm : StartMoved v s.journal _ _ := transactionWritten_oldest hes
  have hsorted := h.sorted
  rw [hes] at hsorted
  have hlt : e.id < next.id := (List.pairwise_cons.1 hsorted).1 next (by simp)
  have hnext : EntryOk v p₀ s.commits next := h.entries next (by simp [hes])
  have hold : System.oldest { s with journal := transactionWritten v s.journal e } = next.id :=
    oldest_of_cons hm.entries
  have hpend : System.pending { s with journal := transactionWritten v s.journal e } =
      s.commits.drop next.id := by
    unfold System.pending
    rw [hold]
  have hstart : (transactionWritten v s.journal e).logStart = next.start % v.logSize := hm.start
  have hmod : next.start % v.logSize ≡ position v p₀ (s.commits.take next.id) [MOD v.logSize] :=
    (Nat.mod_modEq _ _).trans hnext.start
  -- what was between the two entries is free now
  have hparts := layouts_drop v s.commits (Nat.le_of_lt hlt)
  have hpending : s.pending = s.commits.drop e.id := by rw [System.pending, oldest_of_cons hes]
  have hfirst : 0 < (layouts v ((s.commits.drop e.id).take (next.id - e.id))).length := by
    have hid := hnext.lt
    refine layouts_pos
      (fun c hc => h.commits c (List.mem_of_mem_drop (List.mem_of_mem_take hc))) ?_
    exact List.ne_nil_of_length_pos (by rw [List.length_take, List.length_drop]; omega)
  have hpos : position v p₀ (s.commits.take next.id) = position v p₀ (s.commits.take e.id) +
      (layouts v ((s.commits.drop e.id).take (next.id - e.id))).length := by
    have hi := position_take v p₀ s.commits e.id
    have hk := position_take v p₀ s.commits next.id
    rw [hparts, List.length_append] at hi
    omega
  have hstop := h.stop
  have hfree := h.free
  rw [hpending, hparts, List.length_append] at hfree
  constructor
  case commits => exact h.commits
  case sorted => simpa only [hm.entries] using (List.pairwise_cons.1 hsorted).2
  case entries =>
    intro e' he'
    simp only [hm.entries] at he'
    exact h.entries e' (by rw [hes]; exact List.mem_cons_of_mem _ he')
  case start =>
    rw [hold, hstart]
    exact hmod
  case stop => simpa only [hm.stop] using h.stop
  case free =>
    rw [hpend, freeLogBlocks_eq, hstart, hm.stop]
    refine freeBetween_of_start (Nat.mod_lt _ v.logSize_pos) (h.stop_le (by simp [hes]))
      (h.drop_pos (by simp [hes])) (by omega) ?_
    rw [position_take v p₀ s.commits next.id] at hstop
    exact hstop.trans (hmod.symm.add_right _)
  case stop_le => exact fun _ => by rw [hm.stop]; exact h.stop_le (by simp [hes])
  case empty => exact fun hnil => absurd (hm.entries.symm.trans hnil) (List.cons_ne_nil _ _)
  case holds =>
    have hholds := h.holds
    rw [hpending, oldest_of_cons hes, hparts] at hholds
    rw [hold, hpend, hm.log, hpos]
    exact hholds.right
  case superBlock => exact hm.superBlock
  case superStart => exact hm.superStart
  case superEnd => rw [hm.superEnd, hm.stop, h.superEnd]

lemma LogOk.written {id : ℕ} (hw : written v s.journal id = some j) :
    LogOk v p₀ { s with journal := j } := by
  obtain ⟨e, hfind, rfl⟩ := Option.map_eq_some_iff.1 hw
  have he : e ∈ s.journal.entries := List.mem_of_find?_eq_some hfind
  by_cases hhead : s.journal.entries.head? = some e
  · cases hes : s.journal.entries with
    | nil => simp [hes] at he
    | cons e₀ es =>
      obtain rfl : e₀ = e := by simpa [hes] using hhead
      cases es with
      | nil => exact h.finish_last hes
      | cons next es => exact h.finish_first hes
  · exact h.finish_other he hhead

lemma LogOk.syncedFor {length : ℕ} {ids : List ℕ}
    (hsync : syncedFor v s.journal length ids = some j) : LogOk v p₀ { s with journal := j } := by
  have hfold : ∀ (ids : List ℕ) (s : System D), LogOk v p₀ s →
      ids.foldlM (Log.written v) s.journal = some j → LogOk v p₀ { s with journal := j } := by
    intro ids
    induction ids with
    | nil =>
      intro s h hj
      obtain rfl : s.journal = j := by simpa using hj
      exact h
    | cons id ids ih =>
      intro s h hj
      rw [List.foldlM_cons] at hj
      obtain ⟨j₁, hj₁, hj⟩ := Option.bind_eq_some_iff.1 hj
      exact ih { s with journal := j₁ } (h.written hj₁) hj
  unfold Log.syncedFor at hsync
  split at hsync
  next => exact hfold ids s h hsync
  next =>
    obtain rfl := Option.some.inj hsync
    exact h

/-! ## A new entry -/

lemma LogOk.oldest_le : s.oldest ≤ s.commits.length := by
  cases hes : s.journal.entries with
  | nil => exact (oldest_of_nil hes).le
  | cons e es =>
    rw [oldest_of_cons hes]
    exact (h.entries e (by simp [hes])).lt.le

end

lemma EntryOk.append {commits : List (Commit D)} (h : EntryOk v p₀ commits e) (c : Commit D) :
    EntryOk v p₀ (commits ++ [c]) e where
  lt := by
    rw [List.length_append]
    exact Nat.lt_add_right _ h.lt
  start := by
    rw [List.take_append_of_le_length h.lt.le]
    exact h.start
  length := by
    have hlt : 0 < (commits.drop e.id).length := by
      rw [List.length_drop]
      exact Nat.sub_pos_of_lt h.lt
    rw [List.drop_append_of_le_length h.lt.le, List.take_append_of_le_length (by omega)]
    exact h.length

variable {arrays : List RunArray}

lemma LogOk.writes (h : LogOk v p₀ s) {get : ℕ → D} (hne : arrays ≠ [])
    (hlen : ((Commit.mk arrays get).layout v).length ≤ v.logSize) :
    WritesRing (writeArrays v get s.journal.logEnd arrays).writes v.logSize
      (position v p₀ s.commits) ((Commit.mk arrays get).layout v) :=
  (writeArrays_spec hne hlen _).1.modEq h.stop

lemma LogOk.append (h : LogOk v p₀ s) {get : ℕ → D} (hc : CommitOk v ⟨arrays, get⟩)
    (hle : logEntryLength arrays ≤ s.journal.freeLogBlocks v)
    (hfits : FitsBetween v.logSize s.journal.logStart s.journal.logEnd (logEntryLength arrays)) :
    LogOk v p₀
      ⟨appendEntry v s.journal s.commits.length get arrays, s.commits ++ [⟨arrays, get⟩]⟩ := by
  obtain ⟨blocks, harrays, hvalid⟩ := hc.arrays
  have hlen : ((Commit.mk arrays get).layout v).length = logEntryLength arrays :=
    harrays.layout_length get
  have hpos := hc.layout_pos
  have hfree := h.free
  have hfits_log : ((Commit.mk arrays get).layout v).length ≤ v.logSize := by omega
  obtain ⟨-, hpos', hle', hmod'⟩ := writeArrays_spec hc.ne_nil hfits_log s.journal.logEnd
  have hring : WritesRing (writeArrays v get s.journal.logEnd arrays).writes v.logSize
      (position v p₀ s.commits) ((Commit.mk arrays get).layout v) := h.writes hc.ne_nil hfits_log
  have hold : System.oldest ⟨appendEntry v s.journal s.commits.length get arrays,
      s.commits ++ [⟨arrays, get⟩]⟩ = s.oldest := by
    cases hes : s.journal.entries with
    | nil =>
      rw [oldest_of_nil hes]
      simp [System.oldest, appendEntry, hes]
    | cons e es =>
      rw [oldest_of_cons hes]
      simp [System.oldest, appendEntry, hes]
  have hpend : System.pending ⟨appendEntry v s.journal s.commits.length get arrays,
      s.commits ++ [⟨arrays, get⟩]⟩ = s.pending ++ [⟨arrays, get⟩] := by
    unfold System.pending
    rw [hold]
    exact List.drop_append_of_le_length h.oldest_le
  have htake : (s.commits ++ [Commit.mk arrays get]).take s.oldest = s.commits.take s.oldest :=
    List.take_append_of_le_length h.oldest_le
  constructor
  case commits =>
    intro c hmem
    rcases List.mem_append.1 hmem with hmem | hmem
    · exact h.commits c hmem
    · obtain rfl := List.mem_singleton.1 hmem
      exact hc
  case sorted =>
    show (s.journal.entries ++
      [LogEntry.mk s.commits.length s.journal.logEnd (logEntryLength arrays)]).Pairwise _
    refine List.pairwise_append.2 ⟨h.sorted, List.pairwise_singleton _ _, ?_⟩
    intro e he e' he'
    obtain rfl := List.mem_singleton.1 he'
    exact (h.entries e he).lt
  case entries =>
    intro e he
    rcases List.mem_append.1 he with he | he
    · exact (h.entries e he).append _
    · obtain rfl := List.mem_singleton.1 he
      exact ⟨by simp, by simpa using h.stop, by simpa using hlen.symm⟩
  case start =>
    rw [hold, htake]
    exact h.start
  case stop =>
    rw [position_append, layouts_singleton]
    exact hmod'.trans (h.stop.add_right _)
  case free =>
    rw [hpend, layouts_append, layouts_singleton, List.length_append, hlen]
    rw [hlen] at hmod'
    exact freeBetween_of_stop h.free (by omega) hle hfits hpos' hle' hmod'
  case stop_le => exact fun _ => hle'
  case empty =>
    intro hnil
    exact absurd hnil (by simp [appendEntry])
  case holds =>
    rw [hold, hpend, htake, layouts_append, layouts_singleton]
    have hmid : position v p₀ s.commits = position v p₀ (s.commits.take s.oldest) +
        (layouts v s.pending).length := position_take v p₀ s.commits s.oldest
    have hkeep := hring.keeps (by rw [hmid]) (by omega) h.holds
    refine hkeep.append ?_
    rw [← hmid]
    exact hring.holds _
  case superBlock => rfl
  case superStart => exact h.superStart
  case superEnd => rfl

/-! ## Steps -/

variable {t : Transaction D}

lemma loggedArrays_spec (h : loggedArrays v t = some arrays) :
    ∃ detached, detaches v t = some detached ∧
      runArraysOf v (t.blocks detached) = some arrays ∧ countBlocks arrays ≠ 0 ∧
      ArraysFor v arrays (t.blocks detached) ∧ arrays ≠ [] := by
  obtain ⟨detached, hdet, h⟩ := Option.bind_eq_some_iff.1 h
  obtain ⟨arrays', hruns, h⟩ := Option.bind_eq_some_iff.1 h
  rw [Option.ite_none_left_eq_some, Option.some.injEq] at h
  obtain ⟨hcount, rfl⟩ := h
  obtain ⟨arrays, hruns', hfor⟩ := runArraysOf_spec v (t.blocks detached)
  obtain rfl : arrays' = arrays := Option.some.inj (hruns.symm.trans hruns')
  refine ⟨detached, hdet, hruns, hcount, hfor, ?_⟩
  rintro rfl
  exact hcount rfl

lemma write_cases {ids : List ℕ} (h : step v s (.write t ids) = some s') :
    t.Valid v ∧ (s' = s ∨ ∃ arrays j, loggedArrays v t = some arrays ∧
      syncedFor v s.journal (logEntryLength arrays) ids = some j ∧
      logEntryLength arrays ≤ j.freeLogBlocks v ∧
      s' = ⟨appendEntry v j s.commits.length t.get arrays, s.commits ++ [⟨arrays, t.get⟩]⟩) := by
  simp only [step, Option.ite_none_right_eq_some, Option.map_eq_some_iff] at h
  obtain ⟨hvalid, ⟨j', status⟩, hw, rfl⟩ := h
  refine ⟨hvalid, ?_⟩
  cases hlog : loggedArrays v t with
  | none =>
    left
    suffices hj : j' = s.journal by rw [hj]
    unfold writeTransactionToLog at hw
    simp only [loggedArrays, Option.bind_eq_none_iff] at hlog
    cases hdet : detaches v t with
    | none =>
      simp only [hdet, Option.some.injEq, Prod.mk.injEq] at hw
      exact hw.1.symm
    | some detached =>
      simp only [hdet] at hw
      cases hruns : runArraysOf v (t.blocks detached) with
      | none =>
        simp only [hruns, Option.some.injEq, Prod.mk.injEq] at hw
        exact hw.1.symm
      | some arrays =>
        have hzero := hlog detached hdet arrays hruns
        simp only [ite_eq_left_iff, reduceCtorEq, imp_false, not_not] at hzero
        simp only [hruns, hzero, if_true, Option.some.injEq, Prod.mk.injEq] at hw
        exact hw.1.symm
  | some arrays =>
    right
    obtain ⟨detached, hdet, hruns, hcount, -, -⟩ := loggedArrays_spec hlog
    simp only [writeTransactionToLog, hdet, hruns, hcount, if_false] at hw
    obtain ⟨j, hsync, hw⟩ := Option.bind_eq_some_iff.1 hw
    rw [Option.ite_none_left_eq_some, Option.some.injEq, Prod.mk.injEq] at hw
    obtain ⟨hle, rfl, -⟩ := hw
    exact ⟨arrays, j, rfl, hsync, Nat.not_lt.1 hle, rfl⟩

/-- The condition on a call: the entry it adds, if any, may be added to the log as it is after the
cache was synced. -/
def Fits (v : Volume) (s : System D) : Call D → Prop
  | .write t ids => ∀ arrays j, loggedArrays v t = some arrays →
      syncedFor v s.journal (logEntryLength arrays) ids = some j →
      FitsBetween v.logSize j.logStart j.logEnd (logEntryLength arrays)
  | .written _ => True

lemma commitOk_of_logged (hvalid : t.Valid v) (h : loggedArrays v t = some arrays) :
    CommitOk v ⟨arrays, t.get⟩ := by
  obtain ⟨detached, -, -, -, hfor, hne⟩ := loggedArrays_spec h
  exact ⟨⟨_, hfor, hvalid detached⟩, hne⟩

lemma LogOk.step (h : LogOk v p₀ s) {c : Call D} (hfits : Fits v s c)
    (hstep : step v s c = some s') : LogOk v p₀ s' := by
  cases c with
  | write t ids =>
    obtain ⟨hvalid, rfl | ⟨arrays, j, hlog, hsync, hle, rfl⟩⟩ := write_cases hstep
    · exact h
    · have hj : LogOk v p₀ { s with journal := j } := h.syncedFor hsync
      exact hj.append (commitOk_of_logged hvalid hlog) hle (hfits arrays j hlog hsync)
  | written id =>
    obtain ⟨j, hj, rfl⟩ := Option.map_eq_some_iff.1 hstep
    exact h.written hj

lemma logOk_of_run {log : ℕ → LogBlock D} {hist : History (System D) (Call D)}
    (hr : Run (step v) (Fits v) (mounted p₀ log) hist s) : LogOk v p₀ s :=
  hr.invariant (mounted_ok v p₀ log) fun h hfits hstep => h.step hfits hstep

end Haiku.Log
