import Haiku.Log.ArrayTheorems

/-!
# The estimate for the length of a log entry

`_TransactionSize()` reckons with one run more in an array than `_AddRun()` puts there.
-/

namespace Haiku.Log

variable {v : Volume} {arrays arrays' : List RunArray}

/-- All arrays are full, apart from the last one, which is not empty. -/
def Packed (arrays : List RunArray) : Prop :=
  arrays = [] ∨ ∃ init last, arrays = init ++ [last] ∧ last.maxRuns = 127 ∧
    0 < last.runs.length ∧ last.runs.length ≤ 126 ∧
    countBlocks arrays = 126 * init.length + last.runs.length

lemma countBlocks_concat (init : List RunArray) (last : RunArray) :
    countBlocks (init ++ [last]) = countBlocks init + last.runs.length := by
  simp [countBlocks]

lemma Packed.length_eq (h : Packed arrays) :
    arrays.length = (countBlocks arrays + 125) / 126 := by
  rcases h with rfl | ⟨init, last, rfl, _, hpos, hle, hcount⟩
  · rfl
  · rw [hcount, List.length_append, List.length_singleton]
    omega

lemma Packed.insertBlock (h : Packed arrays) {b : ℕ}
    (hnew : containsRun arrays (v.toBlockRun b) = false)
    (hins : insertBlock v arrays b = some arrays') :
    Packed arrays' ∧ countBlocks arrays' = countBlocks arrays + 1 := by
  have hlength : ∀ last : RunArray,
      (last.insert (v.toBlockRun b)).runs.length = last.runs.length + 1 :=
    fun last => (insert_runs_perm last _).length_eq
  have hfirst : (RunArray.insert ⟨127, []⟩ (v.toBlockRun b)).runs.length = 1 := hlength _
  unfold Log.insertBlock at hins
  dsimp only at hins
  rw [hnew, if_neg Bool.false_ne_true] at hins
  rcases h with rfl | ⟨init, last, rfl, hmax, hpos, hle, hcount⟩
  · have heq : [RunArray.insert ⟨127, []⟩ (v.toBlockRun b)] = arrays' := by
      simpa [addRun, addArray, maxRuns_eq] using hins
    rw [← heq]
    refine ⟨.inr ⟨[], _, rfl, insert_maxRuns _ _, ?_⟩, ?_⟩
    · simp [countBlocks, hfirst]
    · simp [countBlocks, hfirst]
  · by_cases hfull : last.runs.length = 126
    · -- the last array is full
      have heq : init ++ [last] ++ [RunArray.insert ⟨127, []⟩ (v.toBlockRun b)] = arrays' := by
        simpa [addRun, addArray, maxRuns_eq, hmax, hfull] using hins
      have hsum : countBlocks arrays' = countBlocks (init ++ [last]) + 1 := by
        rw [← heq, countBlocks_concat, hfirst]
      refine ⟨.inr ⟨init ++ [last], _, heq.symm, insert_maxRuns _ _, ?_⟩, hsum⟩
      rw [hsum, hfirst, hcount, List.length_append, List.length_singleton]
      omega
    · have heq : init ++ [last.insert (v.toBlockRun b)] = arrays' := by
        simpa [addRun, hmax, hfull] using hins
      have hsum : countBlocks arrays' = countBlocks (init ++ [last]) + 1 := by
        rw [← heq, countBlocks_concat, countBlocks_concat, hlength, Nat.add_assoc]
      refine ⟨.inr ⟨init, _, heq.symm, (insert_maxRuns _ _).trans hmax, ?_⟩, hsum⟩
      rw [hsum, hlength, hcount]
      omega

lemma runArraysOf_packed {blocks : List ℕ} (hnodup : blocks.Nodup)
    (h : runArraysOf v blocks = some arrays) :
    Packed arrays ∧ countBlocks arrays = blocks.length := by
  have hfold : ∀ bs seen before, ArraysFor v before seen → Packed before →
      (seen ++ bs).Nodup → bs.foldlM (Log.insertBlock v) before = some arrays →
      Packed arrays ∧ countBlocks arrays = countBlocks before + bs.length := by
    intro bs
    induction bs with
    | nil =>
      intro seen before _ hp _ hrest
      have heq : before = arrays := Option.some.inj hrest
      exact heq ▸ ⟨hp, rfl⟩
    | cons b bs ih =>
      intro seen before hfor hp hnodup hrest
      obtain ⟨next, hins, hnext⟩ := insertBlock_spec hfor b
      rw [List.foldlM_cons, hins] at hrest
      have hnew : containsRun before (v.toBlockRun b) = false := by
        rw [Bool.eq_false_iff, ne_eq, containsRun_iff hfor.ok, hfor.mem_iff]
        exact fun hb => (List.nodup_append.1 hnodup).2.2 b hb b List.mem_cons_self rfl
      have hstep := hp.insertBlock hnew hins
      have hlast := ih (seen ++ [b]) next hnext hstep.1 (by simpa using hnodup) hrest
      rw [hlast.2, hstep.2, List.length_cons]
      exact ⟨hlast.1, by omega⟩
  have hall := hfold blocks [] [] (.nil v) (.inl rfl) hnodup h
  rw [hall.2]
  exact ⟨hall.1, Nat.zero_add _⟩

/-- The log entry for the blocks is not longer than estimated, so that it fits into an empty log if
the transaction was accepted. -/
def Estimated (v : Volume) (blocks : List ℕ) : Prop :=
  ∃ arrays, runArraysOf v blocks = some arrays ∧
    logEntryLength arrays ≤ transactionSize v blocks.length ∧
    ∀ {D : Type} (j : Journal D), j.logStart = j.logEnd →
      transactionSize v blocks.length ≤ v.logSize → logEntryLength arrays ≤ j.freeLogBlocks v

/-- The estimate is an upper bound if and only if the blocks fill as many arrays of 126 runs as of
127 runs. -/
theorem estimated_iff (v : Volume) {blocks : List ℕ} (hnodup : blocks.Nodup) :
    Estimated v blocks ↔ (blocks.length + 125) / 126 = (blocks.length + 126) / 127 := by
  obtain ⟨arrays, hrun, _⟩ := runArraysOf_spec v blocks
  obtain ⟨hpacked, hcount⟩ := runArraysOf_packed hnodup hrun
  have hlength : logEntryLength arrays = blocks.length + (blocks.length + 125) / 126 := by
    unfold logEntryLength
    rw [hpacked.length_eq, hcount]
  have hsize : transactionSize v blocks.length =
      blocks.length + (blocks.length + 126) / 127 := by
    unfold transactionSize
    rw [maxRuns_eq]
    split_ifs with hzero
    · rw [hzero]
    · rfl
  have hle : (blocks.length + 126) / 127 ≤ (blocks.length + 125) / 126 := by omega
  constructor
  · rintro ⟨arrays', hrun', hbound, _⟩
    have heq : arrays = arrays' := Option.some.inj (hrun.symm.trans hrun')
    rw [← heq, hlength, hsize] at hbound
    omega
  · intro hsame
    refine ⟨arrays, hrun, by omega, ?_⟩
    intro D j hempty hfits
    unfold Journal.freeLogBlocks
    rw [if_pos (by omega)]
    omega

def smallLog : Volume where
  blockSize := 1024
  allocationGroupShift := 13
  numBlocks := 8192
  logSize := 128
  blockSize_ge := example_blockSize_ge
  shift_pos := example_shift_pos
  shift_le := example_shift_le
  logSize_pos := by decide

theorem estimated_iff_twoHundred : Estimated smallLog (List.range 200) :=
  (estimated_iff smallLog List.nodup_range).2 (by simp)

/-- 127 blocks are taken to need one array, and need two. -/
theorem not_estimated : ¬ Estimated smallLog (List.range 127) := by
  rintro ⟨arrays, hrun, hbound, _⟩
  obtain ⟨hpacked, hcount⟩ := runArraysOf_packed List.nodup_range hrun
  have hsize : transactionSize smallLog (List.range 127).length = 128 := by
    rw [List.length_range]
    rfl
  unfold logEntryLength at hbound
  rw [hpacked.length_eq, hcount, hsize, List.length_range] at hbound
  omega

end Haiku.Log
