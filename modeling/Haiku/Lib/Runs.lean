import Mathlib.Algebra.Order.Ring.Int

/-!
# Runs of free bits

A search that reads bits one after the other and keeps the length of the run it is in and of
the longest run it has seen. The search begins at `lo` and has read the bits before `c`.
-/

namespace Haiku.Lib

variable {used : ℕ → Bool} {lo c l start length : ℕ} {k k' : ℤ}

def IsFree (used : ℕ → Bool) (start length : ℕ) : Prop :=
  ∀ i, start ≤ i → i < start + length → used i = false

lemma IsFree.sub {start' length' : ℕ} (h : IsFree used start length) (hstart : start ≤ start')
    (hend : start' + length' ≤ start + length) : IsFree used start' length' :=
  fun i hi hi' => h i (by omega) (by omega)

lemma IsFree.zero (start : ℕ) : IsFree used start 0 :=
  fun i hi hi' => by omega

/-- The run of free bits the search is in has the length `l`. -/
structure InRun (used : ℕ → Bool) (lo c l : ℕ) : Prop where
  le : lo + l ≤ c
  free : IsFree used (c - l) l
  cut : lo + l = c ∨ used (c - l - 1) = true

lemma InRun.begin (used : ℕ → Bool) (lo : ℕ) : InRun used lo lo 0 :=
  ⟨le_rfl, IsFree.zero _, .inl rfl⟩

lemma InRun.free_step (h : InRun used lo c l) (hc : used c = false) :
    InRun used lo (c + 1) (l + 1) := by
  have hle := h.le
  have hsub : c + 1 - (l + 1) = c - l := by omega
  refine ⟨by omega, ?_, ?_⟩
  · rw [hsub]
    intro i hi hi'
    by_cases heq : i = c
    · rw [heq]
      exact hc
    · exact h.free i hi (by omega)
  · rw [hsub]
    rcases h.cut with hcut | hcut
    · exact .inl (by omega)
    · exact .inr hcut

lemma InRun.used_step (h : InRun used lo c l) (hc : used c = true) :
    InRun used lo (c + 1) 0 := by
  have hle := h.le
  exact ⟨by omega, IsFree.zero _, .inr hc⟩

lemma InRun.length_le (h : InRun used lo c l) (hlo : lo ≤ start) (hend : start + length = c)
    (hfree : IsFree used start length) : length ≤ l := by
  rcases h.cut with hcut | hcut
  · omega
  · by_contra hcon
    have hbit := hfree (c - l - 1) (by omega) (by omega)
    rw [hcut] at hbit
    cases hbit

/-- No free range that has been read is longer than `k`. -/
def AtMost (used : ℕ → Bool) (lo c : ℕ) (k : ℤ) : Prop :=
  ∀ start length, lo ≤ start → start + length ≤ c → 0 < length → IsFree used start length →
    (length : ℤ) ≤ k

lemma AtMost.begin (used : ℕ → Bool) (lo : ℕ) (k : ℤ) : AtMost used lo lo k :=
  fun start length hlo hend hpos _ => by omega

lemma AtMost.mono (h : AtMost used lo c k) (hk : k ≤ k') : AtMost used lo c k' :=
  fun start length hlo hend hpos hfree => (h start length hlo hend hpos hfree).trans hk

lemma AtMost.free_step (h : AtMost used lo c (max k l)) (hrun : InRun used lo c l)
    (hc : used c = false) : AtMost used lo (c + 1) (max k ((l + 1 : ℕ) : ℤ)) := by
  intro start length hlo hend hpos hfree
  by_cases heq : start + length = c + 1
  · have hle := (hrun.free_step hc).length_le hlo heq hfree
    omega
  · have hle := h start length hlo (by omega) hpos hfree
    omega

lemma AtMost.used_step (h : AtMost used lo c k) (hc : used c = true) :
    AtMost used lo (c + 1) k := by
  intro start length hlo hend hpos hfree
  by_cases heq : start + length = c + 1
  · have hbit := hfree c (by omega) (by omega)
    rw [hc] at hbit
    cases hbit
  · exact h start length hlo (by omega) hpos hfree

lemma AtMost.skip {hi : ℕ} (h : AtMost used lo c k) (hc : used c = true)
    (hleft : (hi : ℤ) - c ≤ k) : AtMost used lo hi k := by
  intro start length hlo hend hpos hfree
  by_cases hbefore : start + length ≤ c
  · exact h start length hlo hbefore hpos hfree
  · by_cases hbehind : c < start
    · omega
    · have hbit := hfree c (by omega) (by omega)
      rw [hc] at hbit
      cases hbit

end Haiku.Lib
