import Mathlib.Algebra.Order.Group.Nat
import Mathlib.Tactic.Common

/-!
# Lists of disjoint spans

A span is a pair of its first position and the position behind it. `Spans lo l hi` says that the
spans of `l` are not empty, sorted and disjoint, that the first one does not start before `lo`, and
that the last one ends at `hi`.

* `InSpans` says which positions are in the list; two lists that cover the same positions have the
  same gap-free prefix (`gapFree_eq`);
* `trimPrevious` and `swallow` make room for a new span: the first lets it give way to the span
  before it, the second lets it replace or give way to the spans behind it.
-/

namespace Haiku.Lib

abbrev Span := ℕ × ℕ

/-- Sorted and disjoint spans from `lo` on, the last of which ends at `hi`. -/
def Spans : ℕ → List Span → ℕ → Prop
  | lo, [], hi => hi = lo
  | lo, s :: l, hi => lo ≤ s.1 ∧ s.1 < s.2 ∧ Spans s.2 l hi

def InSpans (l : List Span) (x : ℕ) : Prop := ∃ s ∈ l, s.1 ≤ x ∧ x < s.2

def total : List Span → ℕ
  | [] => 0
  | s :: l => s.2 - s.1 + total l

def gapFree : ℕ → List Span → ℕ
  | lo, [] => lo
  | lo, s :: l => if s.1 = lo then gapFree s.2 l else lo

variable {lo hi x : ℕ} {l l' : List Span} {s : Span}

@[simp] lemma inSpans_nil : ¬ InSpans [] x := by simp [InSpans]

lemma inSpans_cons : InSpans (s :: l) x ↔ (s.1 ≤ x ∧ x < s.2) ∨ InSpans l x := by
  simp [InSpans]

lemma inSpans_append : InSpans (l ++ l') x ↔ InSpans l x ∨ InSpans l' x := by
  simp [InSpans, or_and_right, exists_or]

lemma inSpans_reverse : InSpans l.reverse x ↔ InSpans l x := by
  simp [InSpans]

lemma total_append : total (l ++ l') = total l + total l' := by
  induction l with
  | nil => simp [total]
  | cons s l ih => simp [total, ih, Nat.add_assoc]

lemma total_reverse : total l.reverse = total l := by
  induction l with
  | nil => rfl
  | cons s l ih => simp [total_append, total, ih, Nat.add_comm]

/-! ## Sorted lists -/

lemma spans_append : Spans lo (l ++ l') hi ↔ ∃ m, Spans lo l m ∧ Spans m l' hi := by
  induction l generalizing lo with
  | nil => simp [Spans]
  | cons s l ih => simp [Spans, ih, and_assoc]

section

variable (h : Spans lo l hi)
include h

lemma Spans.le : lo ≤ hi := by
  induction l generalizing lo with
  | nil => exact h.ge
  | cons s l ih =>
    have := ih h.2.2
    have := h.1
    have := h.2.1
    omega

lemma Spans.bounds (hx : InSpans l x) : lo ≤ x ∧ x < hi := by
  induction l generalizing lo with
  | nil => exact absurd hx inSpans_nil
  | cons s l ih =>
    obtain ⟨hlo, hs, hl⟩ := h
    have hle := hl.le
    rcases inSpans_cons.1 hx with hx | hx
    · omega
    · have := ih hl hx
      omega

lemma Spans.start_ge (hs : s ∈ l) : lo ≤ s.1 ∧ s.1 < s.2 ∧ s.2 ≤ hi := by
  induction l generalizing lo with
  | nil => cases hs
  | cons a l ih =>
    obtain ⟨hlo, ha, hl⟩ := h
    have hle := hl.le
    rcases List.mem_cons.1 hs with rfl | hs
    · omega
    · have := ih hl hs
      omega

lemma Spans.total_le : total l ≤ hi - lo := by
  induction l generalizing lo with
  | nil => simp [total]
  | cons s l ih =>
    obtain ⟨hlo, hs, hl⟩ := h
    have := ih hl
    have := hl.le
    rw [total]
    omega

/-! ## The gap-free prefix -/

lemma Spans.gapFree_bounds : lo ≤ gapFree lo l ∧ gapFree lo l ≤ hi := by
  induction l generalizing lo with
  | nil => exact ⟨le_rfl, h.ge⟩
  | cons s l ih =>
    obtain ⟨hlo, hs, hl⟩ := h
    have hle := hl.le
    have hrest := ih hl
    rw [gapFree]
    split <;> omega

lemma Spans.covered_of_lt (hlo : lo ≤ x) (hx : x < gapFree lo l) : InSpans l x := by
  induction l generalizing lo with
  | nil =>
    rw [gapFree] at hx
    omega
  | cons s l ih =>
    obtain ⟨-, hs, hl⟩ := h
    rw [gapFree] at hx
    split at hx
    · rename_i heq
      by_cases hin : x < s.2
      · exact inSpans_cons.2 (.inl ⟨by omega, hin⟩)
      · exact inSpans_cons.2 (.inr (ih hl (by omega) hx))
    · omega

lemma Spans.not_covered_gapFree : ¬ InSpans l (gapFree lo l) := by
  induction l generalizing lo with
  | nil => exact inSpans_nil
  | cons s l ih =>
    obtain ⟨hlo, hs, hl⟩ := h
    rw [gapFree]
    split
    · have hge := hl.gapFree_bounds.1
      rw [inSpans_cons, not_or]
      exact ⟨by omega, ih hl⟩
    · rename_i hne
      rw [inSpans_cons, not_or]
      refine ⟨by omega, fun hc => ?_⟩
      have := (hl.bounds hc).1
      omega

end

lemma Spans.gapFree_eq {g : ℕ} (h : Spans lo l hi) (hlo : lo ≤ g)
    (hin : ∀ x, lo ≤ x → x < g → InSpans l x) (hout : ¬ InSpans l g) : gapFree lo l = g := by
  have hbounds := h.gapFree_bounds
  rcases lt_trichotomy (gapFree lo l) g with hlt | heq | hgt
  · exact absurd (hin _ hbounds.1 hlt) h.not_covered_gapFree
  · exact heq
  · exact absurd (h.covered_of_lt hlo hgt) hout

lemma Spans.total_eq_iff (h : Spans lo l hi) : total l = hi - lo ↔ gapFree lo l = hi := by
  induction l generalizing lo with
  | nil =>
    have : hi = lo := h
    simp [total, gapFree, this]
  | cons s l ih =>
    obtain ⟨hlo, hs, hl⟩ := h
    have hle := hl.le
    have htotal := hl.total_le
    rw [total, gapFree]
    split
    · rw [← ih hl]
      omega
    · omega

def lastFree : ℕ → List Span → Option Span
  | _, [] => none
  | lo, s :: l => if s.1 = lo then (lastFree s.2 l).or (some s) else none

/-- There is a gap that ends behind the given position. -/
def gapBehind (stop : ℕ) : ℕ → List Span → Bool
  | _, [] => false
  | lo, s :: l => (s.1 ≠ lo && s.1 > stop) || gapBehind stop s.2 l

lemma Spans.lastFree_spec (h : Spans lo l hi) :
    (lastFree lo l = none ∧ gapFree lo l = lo) ∨
      ∃ s ∈ l, lastFree lo l = some s ∧ s.2 = gapFree lo l := by
  induction l generalizing lo with
  | nil => exact .inl ⟨rfl, rfl⟩
  | cons s l ih =>
    obtain ⟨hlo, hs, hl⟩ := h
    rw [lastFree, gapFree]
    by_cases heq : s.1 = lo
    · rw [if_pos heq, if_pos heq]
      right
      rcases ih hl with ⟨hnone, hfree⟩ | ⟨q, hq, hsome, hfree⟩
      · exact ⟨s, List.mem_cons_self, by rw [hnone]; rfl, hfree.symm⟩
      · exact ⟨q, List.mem_cons_of_mem _ hq, by rw [hsome]; rfl, hfree⟩
    · rw [if_neg heq, if_neg heq]
      exact .inl ⟨rfl, rfl⟩

lemma Spans.covered_of_gapBehind {stop : ℕ} (h : Spans lo l hi)
    (hgap : gapBehind stop lo l = false) (hlo : lo ≤ x) (hstop : stop ≤ x) (hx : x < hi) :
    InSpans l x := by
  induction l generalizing lo with
  | nil =>
    have : hi = lo := h
    omega
  | cons s l ih =>
    obtain ⟨-, hs, hl⟩ := h
    simp only [gapBehind, Bool.or_eq_false_iff, Bool.and_eq_false_iff, decide_eq_false_iff_not,
      not_not] at hgap
    rw [inSpans_cons]
    by_cases hbefore : x < s.1
    · omega
    · by_cases hin : x < s.2
      · exact .inl ⟨by omega, hin⟩
      · exact .inr (ih hl hgap.2 (by omega))

/-! ## Making room for a span -/

/-- Walks back to the first span, from the end, that does not start behind `x`. The spans before the
place found come in reverse order. -/
def place (x : ℕ) : List Span → List Span → List Span × List Span
  | [], after => ([], after)
  | p :: before, after => if x ≥ p.1 then (p :: before, after) else place x before (p :: after)

/-- The new span gives way to the one before it, or replaces it if both start at the same position.
The number is the total of the spans. -/
def trimPrevious (new : Span) : List Span → ℕ → Option Span × List Span × ℕ
  | [], n => (some new, [], n)
  | p :: before, n =>
    if new.1 = p.1 then
      if p.2 - p.1 ≥ new.2 - new.1 then (none, p :: before, n)
      else (some new, before, n - (p.2 - p.1))
    else if p.2 ≥ new.2 then (none, p :: before, n)
    else if p.2 > new.1 then (some (p.2, new.2), p :: before, n)
    else (some new, p :: before, n)

/-- The new span replaces the spans behind it that it covers, and gives way to the next one. -/
def swallow (new : Span) : List Span → ℕ → Option Span × List Span × ℕ
  | [], n => (some new, [], n)
  | p :: after, n =>
    if new.2 > p.1 then
      if p.2 ≤ new.2 then swallow new after (n - (p.2 - p.1))
      else if p.1 > new.1 then (some (new.1, p.1), p :: after, n)
      else (none, p :: after, n)
    else (some new, p :: after, n)

lemma place_spec (x : ℕ) (before after : List Span) :
    (place x before after).1.reverse ++ (place x before after).2 = before.reverse ++ after ∧
      (∀ p ∈ (place x before after).1.head?, p.1 ≤ x) ∧
      ((∀ p ∈ after, x < p.1) → ∀ p ∈ (place x before after).2, x < p.1) := by
  induction before generalizing after with
  | nil => exact ⟨rfl, by simp [place], fun h => h⟩
  | cons p before ih =>
    rw [place]
    split
    · exact ⟨rfl, by simp; omega, fun h => h⟩
    · rename_i hlt
      obtain ⟨heq, hhead, hafter⟩ := ih (p :: after)
      refine ⟨by rw [heq]; simp, hhead, fun h => hafter ?_⟩
      intro q hq
      rcases List.mem_cons.1 hq with rfl | hq
      · omega
      · exact h q hq

/-- What is left when the new span makes room for the spans before it, which end at `m`. -/
structure Trimmed (lo m : ℕ) (new new' : Span) (before before' : List Span) (n n' : ℕ) :
    Prop where
  spans : ∃ m', Spans lo before'.reverse m' ∧ m' ≤ new'.1
  ge : new.1 ≤ new'.1
  lt : new'.1 < new'.2
  stop : new'.2 = new.2
  behind : m < new.2
  /-- the new span starts where it did, or behind the spans that cover its start -/
  start : new'.1 = new.1 ∨ new'.1 = m ∧ before' = before ∧ n' = n ∧
    ∀ x, new.1 ≤ x → x < m → InSpans before x
  total : n' + total before = n + total before'
  kept : ∀ p ∈ before, p.1 ≠ new.1 → p ∈ before'
  covered : ∀ x, InSpans before' x ∨ new'.1 ≤ x ∧ x < new'.2 ↔
    InSpans before x ∨ new.1 ≤ x ∧ x < new.2

lemma trimPrevious_some {new new' : Span} {before before' : List Span} {n n' m : ℕ}
    (hspans : Spans lo before.reverse m) (hlo : lo ≤ new.1) (hnew : new.1 < new.2)
    (hhead : ∀ p ∈ before.head?, p.1 ≤ new.1) (hn : total before ≤ n)
    (heq : trimPrevious new before n = (some new', before', n')) :
    Trimmed lo m new new' before before' n n' := by
  cases before with
  | nil =>
    have hm : m = lo := hspans
    cases heq
    exact ⟨⟨m, hspans, by omega⟩, le_rfl, hnew, rfl, by omega, .inl rfl, rfl, fun p hp _ => hp,
      fun x => Iff.rfl⟩
  | cons p before =>
    have hp := hhead p rfl
    rw [List.reverse_cons] at hspans
    obtain ⟨m₀, hbefore, hlo₀, hpp, hm⟩ := spans_append.1 hspans
    have hm : m = p.2 := hm
    have hall : Spans lo (p :: before).reverse m := by
      rw [List.reverse_cons]
      exact hspans
    simp only [total] at hn
    rw [trimPrevious] at heq
    split at heq
    · rename_i hsame
      split at heq
      · cases heq
      · -- the new span is longer and replaces the old one
        rename_i hlonger
        cases heq
        refine ⟨⟨m₀, hbefore, by omega⟩, le_rfl, hnew, rfl, by omega, .inl rfl,
          by simp only [total]; omega, fun q hq hne => ?_, fun x => ?_⟩
        · rcases List.mem_cons.1 hq with rfl | hq
          · exact absurd hsame.symm hne
          · exact hq
        · rw [inSpans_cons]
          constructor
          · rintro (h | h)
            · exact .inl (.inr h)
            · exact .inr h
          · rintro ((h | h) | h)
            · exact .inr (by omega)
            · exact .inl h
            · exact .inr h
    · split at heq
      · cases heq
      · split at heq
        · cases heq
          have hcovers : ∀ x, new.1 ≤ x → x < m → InSpans (p :: before) x :=
            fun x hx hx' => inSpans_cons.2 (.inl ⟨by omega, by omega⟩)
          refine ⟨⟨m, hall, hm.le⟩, by simp; omega, by simp; omega, rfl, by omega,
            .inr ⟨hm.symm, rfl, rfl, hcovers⟩, rfl, fun q hq _ => hq, fun x => ?_⟩
          constructor
          · rintro (h | h)
            · exact .inl h
            · exact .inr ⟨by omega, h.2⟩
          · rintro (h | h)
            · exact .inl h
            · by_cases hx : x < p.2
              · exact .inl (hcovers x h.1 (by omega))
              · exact .inr ⟨by omega, h.2⟩
        · cases heq
          exact ⟨⟨m, hall, by omega⟩, le_rfl, hnew, rfl, by omega, .inl rfl, rfl, fun q hq _ => hq,
            fun x => Iff.rfl⟩

lemma trimPrevious_none {new : Span} {before before' : List Span} {n n' : ℕ}
    (hnew : new.1 < new.2) (hhead : ∀ p ∈ before.head?, p.1 ≤ new.1)
    (heq : trimPrevious new before n = (none, before', n')) :
    before' = before ∧ n' = n ∧ ∀ x, new.1 ≤ x → x < new.2 → InSpans before x := by
  cases before with
  | nil => cases heq
  | cons p before =>
    have hp := hhead p rfl
    have hcovers : new.2 ≤ p.2 → ∀ x, new.1 ≤ x → x < new.2 → InSpans (p :: before) x :=
      fun hle x hx hx' => inSpans_cons.2 (.inl ⟨by omega, by omega⟩)
    rw [trimPrevious] at heq
    split at heq
    · split at heq
      · cases heq
        exact ⟨rfl, rfl, hcovers (by omega)⟩
      · cases heq
    · split at heq
      · cases heq
        exact ⟨rfl, rfl, hcovers (by omega)⟩
      · split at heq <;> cases heq

lemma swallow_none {new : Span} {after after' : List Span} {n n' : ℕ}
    (hspans : Spans lo after hi) (hlo : ∀ p ∈ after, new.1 ≤ p.1)
    (heq : swallow new after n = (none, after', n')) :
    after' = after ∧ n' = n ∧ (∀ x, new.1 ≤ x → x < new.2 → InSpans after x) ∧
      ∃ p ∈ after, p.1 = new.1 := by
  induction after generalizing lo n with
  | nil => cases heq
  | cons p after ih =>
    obtain ⟨hlop, hpp, hrest⟩ := hspans
    have hp := hlo p List.mem_cons_self
    rw [swallow] at heq
    split at heq
    · split at heq
      · -- the spans behind the swallowed one start behind the new one
        obtain ⟨-, -, -, q, hq, hqs⟩ := ih hrest
          (fun q hq => hlo q (List.mem_cons_of_mem _ hq)) heq
        have := hrest.start_ge hq
        omega
      · split at heq
        · cases heq
        · cases heq
          refine ⟨rfl, rfl, fun x hx hx' => inSpans_cons.2 (.inl ⟨by omega, by omega⟩), p,
            List.mem_cons_self, by omega⟩
    · cases heq

lemma swallow_some {new new' : Span} {after after' : List Span} {n n' m : ℕ}
    (hspans : Spans m after hi) (hnew : new.1 < new.2) (hlo : ∀ p ∈ after, new.1 ≤ p.1)
    (hn : total after ≤ n) (heq : swallow new after n = (some new', after', n')) :
    new'.1 = new.1 ∧ new'.1 < new'.2 ∧ new'.2 ≤ new.2 ∧
      Spans new'.2 after' (if after = [] then new.2 else max hi new.2) ∧
      n' + total after = n + total after' ∧
      (∀ x, InSpans after' x ∨ new'.1 ≤ x ∧ x < new'.2 ↔
        InSpans after x ∨ new.1 ≤ x ∧ x < new.2) := by
  induction after generalizing m n with
  | nil =>
    cases heq
    exact ⟨rfl, hnew, le_rfl, rfl, rfl, fun x => Iff.rfl⟩
  | cons p after ih =>
    obtain ⟨hmp, hpp, hrest⟩ := hspans
    have hp := hlo p List.mem_cons_self
    have hle := hrest.le
    simp only [total] at hn ⊢
    rw [swallow] at heq
    split at heq
    · rename_i hover
      split at heq
      · -- swallowed
        rename_i hcovered
        obtain ⟨h₁, h₂, h₃, h₄, h₅, h₆⟩ := ih hrest
          (fun q hq => hlo q (List.mem_cons_of_mem _ hq)) (by omega) heq
        refine ⟨h₁, h₂, h₃, ?_, by omega, fun x => ?_⟩
        · cases after with
          | nil =>
            have hend : hi = p.2 := hrest
            have hmax : max hi new.2 = new.2 := by omega
            simpa [hmax] using h₄
          | cons q after => simpa using h₄
        · rw [h₆ x, inSpans_cons]
          constructor
          · rintro (h | h)
            · exact .inl (.inr h)
            · exact .inr h
          · rintro ((h | h) | h)
            · exact .inr (by omega)
            · exact .inl h
            · exact .inr h
      · split at heq
        · cases heq
          have hmax : max hi new.2 = hi := by omega
          refine ⟨rfl, by simpa using by omega, by simp; omega, ?_, rfl, fun x => ?_⟩
          · simp only [reduceCtorEq, if_false, hmax]
            exact ⟨le_rfl, hpp, hrest⟩
          · rw [inSpans_cons]
            constructor
            · rintro (h | h)
              · exact .inl h
              · exact .inr (by simp at h; omega)
            · rintro (h | h)
              · exact .inl h
              · by_cases hx : x < p.1
                · exact .inr ⟨h.1, hx⟩
                · exact .inl (.inl ⟨by omega, by omega⟩)
        · cases heq
    · cases heq
      have hmax : max hi new.2 = hi := by omega
      refine ⟨rfl, hnew, le_rfl, ?_, rfl, fun x => Iff.rfl⟩
      simp only [reduceCtorEq, if_false, hmax]
      exact ⟨by omega, hpp, hrest⟩

end Haiku.Lib
