import Mathlib.Data.Finset.Card
import Haiku.Log.Invariant

/-!
# Entries do not overlap

As long as no entry takes the last free block of the log, the log blocks of unfinished entries are
never written again, and the two positions tell an empty log from one with unfinished entries.
-/

namespace Haiku.Log

open Lib

variable {D : Type} {v : Volume} {p₀ : ℕ} {s s' : System D} {j : Journal D}

/-! ## Where the unfinished entries are -/

section

variable (h : LogOk v p₀ s)
include h

lemma LogOk.oldest_le_id {e : LogEntry} (he : e ∈ s.journal.entries) : s.oldest ≤ e.id := by
  cases hes : s.journal.entries with
  | nil => simp [hes] at he
  | cons e₀ es =>
    have hsorted := h.sorted
    rw [hes] at he hsorted
    rw [oldest_of_cons hes]
    rcases List.mem_cons.1 he with rfl | he
    · exact le_rfl
    · exact ((List.pairwise_cons.1 hsorted).1 e he).le

lemma LogOk.entry_offset {e : LogEntry} (he : e ∈ s.journal.entries) :
    ∃ d, d + e.length ≤ (layouts v s.pending).length ∧
      e.start ≡ position v p₀ (s.commits.take s.oldest) + d [MOD v.logSize] := by
  have hok := h.entries e he
  have hle := h.oldest_le_id he
  have hparts : layouts v s.pending = _ := layouts_drop v s.commits hle
  have hmid := layouts_drop v s.commits (Nat.le_succ e.id)
  refine ⟨(layouts v ((s.commits.drop s.oldest).take (e.id - s.oldest))).length, ?_, ?_⟩
  · have hlen := hok.length
    rw [hparts, hmid, List.length_append, List.length_append, hlen]
    simp only [Nat.succ_eq_add_one, Nat.add_sub_cancel_left]
    omega
  · have hi := position_take v p₀ s.commits s.oldest
    have hk := position_take v p₀ s.commits e.id
    have hpos : position v p₀ (s.commits.take e.id) = position v p₀ (s.commits.take s.oldest) +
        (layouts v ((s.commits.drop s.oldest).take (e.id - s.oldest))).length := by
      have hlen := congrArg List.length hparts
      rw [List.length_append] at hlen
      unfold System.pending at hlen
      omega
    rw [← hpos]
    exact hok.start

lemma LogOk.mem_blocks {e : LogEntry} (he : e ∈ s.journal.entries) {q : ℕ}
    (hq : q ∈ e.blocks v) : ∃ i < (layouts v s.pending).length,
      q = (position v p₀ (s.commits.take s.oldest) + i) % v.logSize := by
  obtain ⟨d, hd, hmod⟩ := h.entry_offset he
  obtain ⟨i, hi, rfl⟩ := Finset.mem_image.1 hq
  have hlt := Finset.mem_range.1 hi
  refine ⟨d + i, by omega, ?_⟩
  rw [← Nat.add_assoc]
  exact hmod.add_right i

lemma LogOk.pending_pos (hne : s.journal.entries ≠ []) : 0 < (layouts v s.pending).length := by
  obtain ⟨e, es, hes⟩ := List.exists_cons_of_ne_nil hne
  rw [System.pending, oldest_of_cons hes]
  exact h.drop_pos (by simp [hes])

lemma LogOk.empty_of_eq (heq : s.journal.logStart = s.journal.logEnd) : s.journal.entries = [] := by
  by_contra hne
  have hfree := h.free
  have hpos := h.pending_pos hne
  simp only [Journal.freeLogBlocks, heq, le_refl, if_true] at hfree
  omega

end

/-! ## Blocks outside the unfinished entries -/

/-- The log blocks that belong to no unfinished entry. -/
def Journal.outside (v : Volume) (j : Journal D) : Finset ℕ :=
  (Finset.range v.logSize).filter fun q => ∀ e ∈ j.entries, q ∉ e.blocks v

lemma LogOk.free_le_outside (h : LogOk v p₀ s) :
    s.journal.freeLogBlocks v ≤ (s.journal.outside v).card := by
  let p := position v p₀ (s.commits.take s.oldest)
  let used := (Finset.range (layouts v s.pending).length).image fun i => (p + i) % v.logSize
  have hsub : Finset.range v.logSize \ used ⊆ s.journal.outside v := by
    intro q hq
    obtain ⟨hlt, hnot⟩ := Finset.mem_sdiff.1 hq
    refine Finset.mem_filter.2 ⟨hlt, fun e he hmem => hnot ?_⟩
    obtain ⟨i, hi, rfl⟩ := h.mem_blocks he hmem
    exact Finset.mem_image.2 ⟨i, Finset.mem_range.2 hi, rfl⟩
  have hused : used.card ≤ (layouts v s.pending).length := by
    calc used.card ≤ (Finset.range (layouts v s.pending).length).card := Finset.card_image_le
      _ = (layouts v s.pending).length := Finset.card_range _
  have hdiff : v.logSize - used.card ≤ (Finset.range v.logSize \ used).card := by
    simpa using Finset.le_card_sdiff used (Finset.range v.logSize)
  have hcard := Finset.card_le_card hsub
  have hfree := h.free
  omega

/-! ## New entries -/

lemma LogOk.not_mem_of_covered (h : LogOk v p₀ s) {arrays : List RunArray} {get : ℕ → D}
    (hc : CommitOk v ⟨arrays, get⟩) (hle : logEntryLength arrays ≤ s.journal.freeLogBlocks v)
    {q : ℕ} (hq : Covered (writeArrays v get s.journal.logEnd arrays).writes q) :
    q < v.logSize ∧ ∀ e ∈ s.journal.entries, q ∉ e.blocks v := by
  obtain ⟨blocks, harrays, -⟩ := hc.arrays
  have hlen : ((Commit.mk arrays get).layout v).length = logEntryLength arrays :=
    harrays.layout_length get
  have hfree := h.free
  have hring : WritesRing (writeArrays v get s.journal.logEnd arrays).writes v.logSize
      (position v p₀ s.commits) ((Commit.mk arrays get).layout v) := h.writes hc.ne_nil (by omega)
  obtain ⟨i, hi, rfl⟩ := hring.only q hq
  refine ⟨Nat.mod_lt _ v.logSize_pos, fun e he hmem => ?_⟩
  obtain ⟨k, hk, heq⟩ := h.mem_blocks he hmem
  have hpos : position v p₀ s.commits = position v p₀ (s.commits.take s.oldest) +
      (layouts v s.pending).length := position_take v p₀ s.commits s.oldest
  rw [hpos, Nat.add_assoc] at heq
  have := ring_offset_inj (by omega) (by omega) heq
  omega

/-- In every run in which each new entry fits, the log is safe: nothing that is written for a new
entry hits an unfinished one, the two positions agree only when no entry is unfinished, and no
block of an unfinished entry is counted as free. -/
theorem ring_safe (p₀ : ℕ) (log : ℕ → LogBlock D) {hist : History (System D) (Call D)}
    (hr : Run (step v) (Fits v) (mounted p₀ log) hist s) :
    (∀ (t : Transaction D) ids arrays j, t.Valid v → loggedArrays v t = some arrays →
      syncedFor v s.journal (logEntryLength arrays) ids = some j →
      logEntryLength arrays ≤ j.freeLogBlocks v →
      ∀ q, Covered (writeArrays v t.get j.logEnd arrays).writes q →
        q < v.logSize ∧ ∀ e ∈ j.entries, q ∉ e.blocks v) ∧
    (s.journal.logStart = s.journal.logEnd → s.journal.entries = []) ∧
    s.journal.freeLogBlocks v ≤ (s.journal.outside v).card := by
  have h := logOk_of_run hr
  refine ⟨?_, h.empty_of_eq, h.free_le_outside⟩
  intro t ids arrays j hvalid hlog hsync hle q hq
  have hj : LogOk v p₀ { s with journal := j } := h.syncedFor hsync
  exact hj.not_mem_of_covered (commitOk_of_logged hvalid hlog) hle hq

/-! ## An entry that takes the last free block -/

def smallVolume : Volume where
  blockSize := 1024
  allocationGroupShift := 13
  numBlocks := 8192
  logSize := 4
  blockSize_ge := example_blockSize_ge
  shift_pos := example_shift_pos
  shift_le := example_shift_le
  logSize_pos := by decide

/-- A transaction that changed the given blocks, with their numbers as contents. -/
def changed (blocks : List ℕ) : Transaction ℕ where
  size := blocks.length
  mainSize := none
  detachedSize := 0
  blocks := fun _ => blocks
  get := id

instance (size start stop length : ℕ) : Decidable (FitsBetween size start stop length) :=
  inferInstanceAs (Decidable (_ ∧ (_ → _)))

def fits (v : Volume) (s : System D) : Call D → Bool
  | .write t ids => (loggedArrays v t).all fun arrays =>
      (syncedFor v s.journal (logEntryLength arrays) ids).all fun j =>
        decide (FitsBetween v.logSize j.logStart j.logEnd (logEntryLength arrays))
  | .written _ => true

lemma fits_of_check (v : Volume) (s : System D) (c : Call D) (h : fits v s c = true) :
    Fits v s c := by
  cases c with
  | write t ids =>
    intro arrays j hlog hsync
    simpa [fits, hlog, hsync] using h
  | written id => trivial

/-- One entry that is finished, and a second one that ends at the end of the log. -/
theorem ring_safe_two : ∃ hist s, Run (step smallVolume) (Fits smallVolume)
    (mounted 0 fun _ => .data 0) hist s ∧ s.journal.entries.length = 1 ∧
    s.journal.freeLogBlocks smallVolume ≤ (s.journal.outside smallVolume).card := by
  obtain ⟨hist, hr, -⟩ := run_outcome (step smallVolume) (fits_of_check smallVolume)
    (mounted 0 fun _ => .data 0)
    [.write (changed [20]) [], .written 0, .write (changed [21]) []] (fun _ => true)
    (by decide)
  exact ⟨hist, _, hr, by decide, (ring_safe 0 _ hr).2.2⟩

/-- From position 1, an entry of four blocks fills the log and both positions are 1 again: all four
blocks count as free. -/
theorem full_log_looks_empty : ∃ hist s, Run (step smallVolume) (fun _ _ => True)
    (mounted 1 fun _ => .data 0) hist s ∧ s.journal.logStart = s.journal.logEnd ∧
    s.journal.entries ≠ [] ∧
    ¬s.journal.freeLogBlocks smallVolume ≤ (s.journal.outside smallVolume).card := by
  obtain ⟨hist, hr, -⟩ := @run_outcome _ _ (fun _ _ => True) (step smallVolume) (fun _ _ => true)
    (fun _ _ _ => trivial) (mounted 1 fun _ => .data 0) [.write (changed [20, 21, 22]) []]
    (fun _ => true) (by decide)
  refine ⟨hist, _, hr, ?_, ?_, ?_⟩ <;> decide

end Haiku.Log
