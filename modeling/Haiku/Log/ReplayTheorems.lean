import Haiku.Log.SafetyTheorems

/-!
# Recovering from the log

What `ReplayLog()` does after the machine stopped: it writes the blocks of all pending entries, in
the order in which they were logged. It cannot do so when the log ends at the end of the log area,
since it reduces its position to the log area and never arrives there.
-/

namespace Haiku.Log

open Lib

variable {D : Type} {v : Volume} {f : Format D} {log : ℕ → LogBlock D} {get : ℕ → D} {p₀ : ℕ}
  {s : System D}

/-! ## One array -/

lemma checkBlocks_of_ne_zero : ∀ {bs : List ℕ} {p : ℕ}, (∀ b ∈ bs, b ≠ 0) →
    checkBlocks v f log bs p = true := by
  intro bs
  induction bs with
  | nil => intro p _; rfl
  | cons b bs ih =>
    intro p h
    have hb : b ≠ 0 := h b (List.mem_cons_self ..)
    simp only [checkBlocks, hb, ne_eq, not_false_eq_true, decide_true, Bool.true_or, Bool.true_and]
    exact ih fun b hb => h b (List.mem_cons_of_mem _ hb)

lemma copyBlocks_of_holds : ∀ {bs : List ℕ} {p : ℕ},
    RingHolds log v.logSize p (bs.map fun b => .data (get b)) →
    copyBlocks v f log bs (p % v.logSize) = bs.map fun b => (b, get b) := by
  intro bs
  induction bs with
  | nil => intro p _; rfl
  | cons b bs ih =>
    intro p h
    rw [List.map_cons] at h
    have hnext : (p % v.logSize + 1) % v.logSize = (p + 1) % v.logSize := by
      rw [Nat.mod_add_mod]
    simp only [copyBlocks, h.head, Format.readData, List.map_cons, hnext]
    rw [ih h.tail]

lemma replayRunArray_of_holds {a : RunArray} {start : ℕ} (hok : ArrayOk v a)
    (hblocks : ∀ b ∈ a.blocks v, 0 < b ∧ b < v.numBlocks)
    (h : RingHolds log v.logSize start (arrayLayout v get a)) :
    replayRunArray v f log start = some ((a.blocks v).map fun b => (b, get b),
      start + (arrayLayout v get a).length) := by
  have hread : f.readArray (log (start % v.logSize)) = a := by
    rw [h.head]
    rfl
  have hcheck : checkRunArray v a = true := hok.check fun b hb => (hblocks b hb).2
  have hfirst : checkBlocks v f log (a.blocks v) ((start % v.logSize + 1) % v.logSize) = true :=
    checkBlocks_of_ne_zero fun b hb => (hblocks b hb).1.ne'
  have hcopy : copyBlocks v f log (a.blocks v) ((start % v.logSize + 1) % v.logSize) =
      (a.blocks v).map fun b => (b, get b) := by
    rw [Nat.mod_add_mod]
    exact copyBlocks_of_holds h.tail
  simp only [replayRunArray, hread, hcheck, hfirst, hcopy, Bool.not_true, Bool.false_eq_true,
    if_false, arrayLayout, List.length_cons, List.length_map]

/-! ## All arrays -/

/-- The arrays of several entries, with the contents of their blocks. -/
def parts (cs : List (Commit D)) : List (RunArray × (ℕ → D)) :=
  cs.flatMap fun c => c.arrays.map fun a => (a, c.get)

def partLayout (v : Volume) (part : RunArray × (ℕ → D)) : List (LogBlock D) :=
  arrayLayout v part.2 part.1

def partLogged (v : Volume) (part : RunArray × (ℕ → D)) : List (ℕ × D) :=
  (part.1.blocks v).map fun b => (b, part.2 b)

lemma layouts_eq_parts (cs : List (Commit D)) :
    layouts v cs = (parts cs).flatMap (partLayout v) := by
  simp only [layouts, parts, List.flatMap_assoc]
  exact List.flatMap_congr fun c _ => by rw [List.flatMap_map]; rfl

lemma logged_eq_parts (cs : List (Commit D)) :
    cs.flatMap (Commit.logged v) = (parts cs).flatMap (partLogged v) := by
  simp only [parts, List.flatMap_assoc]
  exact List.flatMap_congr fun c _ => by rw [List.flatMap_map]; rfl

def PartsOk (v : Volume) (ps : List (RunArray × (ℕ → D))) : Prop :=
  ∀ part ∈ ps, ArrayOk v part.1 ∧ ∀ b ∈ part.1.blocks v, 0 < b ∧ b < v.numBlocks

lemma partsOk_of_commits {cs : List (Commit D)} (h : ∀ c ∈ cs, CommitOk v c) :
    PartsOk v (parts cs) := by
  intro part hpart
  obtain ⟨c, hc, hmem⟩ := List.mem_flatMap.1 hpart
  obtain ⟨a, ha, rfl⟩ := List.mem_map.1 hmem
  obtain ⟨blocks, harrays, hvalid⟩ := (h c hc).arrays
  exact ⟨harrays.ok a ha, fun b hb => hvalid b (harrays.blocks_mem ha hb)⟩

lemma replayLoop_round {logEnd start next : ℕ} {last : Option ℕ} {blocks : List (ℕ × D)}
    (hne : start ≠ logEnd) (hlast : last ≠ some start)
    (h : replayRunArray v f log start = some (blocks, next)) (writes : List (ℕ × D)) (rounds : ℕ) :
    replayLoop v f log logEnd (rounds + 1) start last writes =
      replayLoop v f log logEnd rounds (next % v.logSize) (some start) (writes ++ blocks) := by
  simp only [replayLoop, hne, hlast, if_false, h]

lemma add_mod_ne {start n : ℕ} (hn : 0 < n) (hn' : n < v.logSize) :
    (start + n) % v.logSize ≠ start := by
  intro heq
  have hstart : start < v.logSize := by
    rw [← heq]
    exact Nat.mod_lt _ v.logSize_pos
  have heq' : (start + n) % v.logSize = (start + 0) % v.logSize := by
    rw [heq, Nat.add_zero, Nat.mod_eq_of_lt hstart]
  have := ring_offset_inj hn' v.logSize_pos heq'
  omega

lemma replayLoop_of_holds {logEnd : ℕ} (f : Format D) (hlt : logEnd < v.logSize) :
    ∀ {ps : List (RunArray × (ℕ → D))} {start : ℕ}, PartsOk v ps →
      RingHolds log v.logSize start (ps.flatMap (partLayout v)) →
      (ps.flatMap (partLayout v)).length < v.logSize →
      logEnd ≡ start + (ps.flatMap (partLayout v)).length [MOD v.logSize] →
      (ps = [] → start < v.logSize) →
      ∀ (last : Option ℕ) (writes : List (ℕ × D)) (rounds : ℕ), last ≠ some start →
        ps.length < rounds → replayLoop v f log logEnd rounds start last writes =
          some (.ok, writes ++ ps.flatMap (partLogged v)) := by
  intro ps
  induction ps with
  | nil =>
    intro start _ _ _ hmod hstart last writes rounds _ hrounds
    obtain ⟨rounds, rfl⟩ := Nat.exists_eq_add_of_lt hrounds
    have heq : start = logEnd := (hmod.eq_of_lt_of_lt hlt (hstart rfl)).symm
    simp [replayLoop, heq]
  | cons part ps ih =>
    intro start hok hholds hlen hmod _ last writes rounds hlast hrounds
    rw [List.flatMap_cons] at hholds
    rw [List.flatMap_cons, List.length_append] at hlen hmod
    obtain ⟨hpart, hblocks⟩ := hok part (List.mem_cons_self ..)
    have hpos : 0 < (partLayout v part).length := by simp [partLayout, arrayLayout]
    have hne : start ≠ logEnd := by
      intro heq
      have hmoved : (start + _) % v.logSize ≠ start := add_mod_ne (by omega) hlen
      rw [← hmod, ← heq, Nat.mod_eq_of_lt (by omega)] at hmoved
      exact hmoved rfl
    have hreplay : replayRunArray v f log start = some (partLogged v part,
        start + (partLayout v part).length) := replayRunArray_of_holds hpart hblocks hholds.left
    have hnext : (start + (partLayout v part).length) % v.logSize ≡
        start + (partLayout v part).length [MOD v.logSize] := Nat.mod_modEq _ _
    have hend : logEnd ≡ (start + (partLayout v part).length) % v.logSize +
        (ps.flatMap (partLayout v)).length [MOD v.logSize] := by
      rw [← Nat.add_assoc] at hmod
      exact hmod.trans (hnext.add_right _).symm
    cases rounds with
    | zero => omega
    | succ rounds =>
      rw [replayLoop_round hne hlast hreplay, List.flatMap_cons, ← List.append_assoc]
      refine ih (fun p hp => hok p (List.mem_cons_of_mem _ hp)) (hholds.right.modEq hnext.symm)
        (by omega) hend (fun _ => Nat.mod_lt _ v.logSize_pos) _ _ _ ?_ ?_
      · exact fun heq => add_mod_ne hpos (by omega) (Option.some.inj heq).symm
      · rw [List.length_cons] at hrounds
        omega

lemma replayLoop_at_end : ∀ {rounds start : ℕ} {last : Option ℕ} {writes ws : List (ℕ × D)},
    start ≠ v.logSize → replayLoop v f log v.logSize rounds start last writes ≠ some (.ok, ws) := by
  intro rounds
  induction rounds with
  | zero => intro start last writes ws _ h; simp [replayLoop] at h
  | succ rounds ih =>
    intro start last writes ws hne h
    simp only [replayLoop, hne, if_false] at h
    split at h
    next => simp at h
    next =>
      split at h
      next => simp at h
      next blocks next _ => exact ih (Nat.mod_lt _ v.logSize_pos).ne h

/-! ## Recovery -/

/-- `ReplayLog()` comes to an end on what is on the disk, reports success, and has written the
blocks of all pending entries in the order of the log. -/
def Recovers (v : Volume) (f : Format D) (s : System D) : Prop :=
  ∃ n, ∀ rounds ≥ n, ∃ r, replayLog v f s.journal.disk false rounds = some r ∧
    r.status = .ok ∧ r.writes = s.pending.flatMap (Commit.logged v)

section

variable (h : LogOk v p₀ s)
include h

lemma LogOk.superBlock_start : s.journal.disk.superBlock.logStart = s.journal.logStart := by
  rw [h.superBlock, h.superStart]

lemma LogOk.superBlock_end : s.journal.disk.superBlock.logEnd = s.journal.logEnd := by
  rw [h.superBlock, h.superEnd]

lemma LogOk.recovers_of_empty (hnil : s.journal.entries = []) : Recovers v f s := by
  refine ⟨0, fun rounds _ => ⟨⟨.ok, [], s.journal.disk.superBlock⟩, ?_, rfl, ?_⟩⟩
  · have heq := h.empty hnil
    simp [replayLog, h.superBlock_start, h.superBlock_end, heq]
  · rw [LogOk.pending_nil hnil]
    rfl

lemma LogOk.recovers_of_end_lt (hne : s.journal.entries ≠ [])
    (hend : s.journal.logEnd ≠ v.logSize) : Recovers v f s := by
  have hdiff : s.journal.logStart ≠ s.journal.logEnd := fun heq => hne (h.empty_of_eq heq)
  have hlt : s.journal.logEnd < v.logSize := by
    have := h.stop_le hne
    omega
  have hcommits : ∀ c ∈ s.pending, CommitOk v c := fun c hc => h.commits c (List.mem_of_mem_drop hc)
  have hfree : 0 < s.journal.freeLogBlocks v := by
    have := freeBetween_cases v.logSize s.journal.logStart s.journal.logEnd
    rw [freeLogBlocks_eq]
    omega
  have hlen : (layouts v s.pending).length < v.logSize := by
    have := h.free
    omega
  have hstop : s.journal.logEnd ≡ s.journal.logStart + (layouts v s.pending).length
      [MOD v.logSize] := by
    have hstop := h.stop
    rw [position_take v p₀ s.commits s.oldest] at hstop
    exact hstop.trans (h.start.symm.add_right _)
  have hholds : RingHolds s.journal.disk.log v.logSize s.journal.logStart (layouts v s.pending) :=
    h.holds.modEq h.start.symm
  have hpos := h.pending_pos hne
  rw [layouts_eq_parts] at hlen hstop hholds hpos
  have hnonempty : parts s.pending ≠ [] := by
    intro hnil
    rw [hnil] at hpos
    exact absurd hpos (by simp)
  refine ⟨(parts s.pending).length + 1, fun rounds hrounds => ?_⟩
  have hloop := replayLoop_of_holds f hlt (partsOk_of_commits hcommits) hholds hlen hstop
    (fun hnil => absurd hnil hnonempty) none [] rounds (by simp) (by omega)
  refine ⟨⟨.ok, (parts s.pending).flatMap (partLogged v),
    { s.journal.disk.superBlock with logStart := s.journal.logEnd, flags := .clean }⟩, ?_, rfl, ?_⟩
  · simp only [replayLog, h.superBlock_start, h.superBlock_end, hdiff, if_false,
      Bool.false_eq_true, hloop, List.nil_append, Option.map_some, if_true]
  · exact (logged_eq_parts s.pending).symm

lemma LogOk.not_recovers_of_end_eq (hne : s.journal.entries ≠ [])
    (hend : s.journal.logEnd = v.logSize) : ¬Recovers v f s := by
  rintro ⟨n, hn⟩
  obtain ⟨r, hr, hok, -⟩ := hn n le_rfl
  have hdiff :
    s.journal.logStart ≠ v.logSize := fun heq => hne (h.empty_of_eq (heq.trans hend.symm))
  simp only [replayLog, h.superBlock_start, h.superBlock_end, hend, hdiff, if_false,
    Bool.false_eq_true, Option.map_eq_some_iff] at hr
  obtain ⟨⟨status, ws⟩, hloop, rfl⟩ := hr
  cases status <;> simp at hok
  exact replayLoop_at_end hdiff hloop

end

/-- In every run in which each new entry fits, the log can be replayed after any step exactly when
no entry is unfinished or the log does not end at the end of the log area. -/
theorem recovers_iff (f : Format D) (p₀ : ℕ) (log : ℕ → LogBlock D)
    {hist : History (System D) (Call D)}
    (hr : Run (step v) (Fits v) (mounted p₀ log) hist s) :
    Recovers v f s ↔ s.journal.entries = [] ∨ s.journal.logEnd ≠ v.logSize := by
  have h := logOk_of_run hr
  constructor
  · intro hrec
    by_contra hnot
    rw [not_or, not_not] at hnot
    exact h.not_recovers_of_end_eq hnot.1 hnot.2 hrec
  · rintro (hnil | hend)
    · exact h.recovers_of_empty hnil
    · by_cases hnil : s.journal.entries = []
      · exact h.recovers_of_empty hnil
      · exact h.recovers_of_end_lt hnil hend

/-- The contents are numbers, none of which is a run array or a super block. -/
def numbers : Format ℕ where
  decode := fun _ => ⟨0, []⟩
  encode := fun _ => 0
  checkSuperBlock := fun _ => false

/-- An entry in the middle of the log. -/
theorem recovers_middle : ∃ hist s, Run (step smallVolume) (Fits smallVolume)
    (mounted 1 fun _ => .data 0) hist s ∧ s.journal.entries ≠ [] ∧ Recovers smallVolume numbers s := by
  obtain ⟨hist, hr, -⟩ := run_outcome (step smallVolume) (fits_of_check smallVolume)
    (mounted 1 fun _ => .data 0) [.write (changed [20]) []] (fun _ => true) (by decide)
  exact ⟨hist, _, hr, by decide, (recovers_iff numbers 1 _ hr).2 (.inr (by decide))⟩

/-- The first entry is finished and the second one ends at the end of the log: replaying it goes on
with what is left of the first entry, and does not stop. -/
theorem entry_at_end_not_recovered : ∃ hist s, Run (step smallVolume) (fun _ _ => True)
    (mounted 0 fun _ => .data 0) hist s ∧ s.journal.entries ≠ [] ∧
    ¬Recovers smallVolume numbers s := by
  obtain ⟨hist, hr, -⟩ := run_outcome (step smallVolume) (fits_of_check smallVolume)
    (mounted 0 fun _ => .data 0) [.write (changed [20]) [], .written 0, .write (changed [21]) []]
    (fun _ => true) (by decide)
  have h := logOk_of_run hr
  exact ⟨hist, _, hr.mono fun _ _ _ => trivial, by decide,
    h.not_recovers_of_end_eq (by decide) (by decide)⟩

end Haiku.Log
