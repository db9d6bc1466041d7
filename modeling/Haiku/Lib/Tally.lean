import Mathlib.Algebra.Order.BigOperators.Group.Finset
import Mathlib.Data.Fintype.BigOperators

/-!
# Counting over the members of a system

A system of finitely many members gives each member `i` a local state `x i`. A measure `f` of local
states is added up over all members by `tally f x`. The lemmas say how the sum changes when the
state of one member, or of a list of members, is replaced.
-/

namespace Haiku.Lib

open Function

variable {ι κ : Type}

def tally [Fintype ι] (f : κ → ℕ) (x : ι → κ) : ℕ := ∑ i, f (x i)

def indicator (p : κ → Bool) (k : κ) : ℕ := if p k then 1 else 0

variable {f : κ → ℕ} {x : ι → κ} {i j : ι}

section

variable [Fintype ι]

lemma le_tally (f : κ → ℕ) (x : ι → κ) (i : ι) : f (x i) ≤ tally f x :=
  Finset.single_le_sum (f := fun i => f (x i)) (fun _ _ => Nat.zero_le _) (Finset.mem_univ i)

lemma tally_eq_zero : tally f x = 0 ↔ ∀ i, f (x i) = 0 := by
  simp [tally]

lemma tally_add {g h : κ → ℕ} (heq : ∀ i, h (x i) = f (x i) + g (x i)) :
    tally h x = tally f x + tally g x := by
  simp only [tally, heq, Finset.sum_add_distrib]

lemma tally_mono {g : κ → ℕ} (hle : ∀ i, f (x i) ≤ g (x i)) : tally f x ≤ tally g x :=
  Finset.sum_le_sum fun i _ => hle i

end

variable [DecidableEq ι]

/-- The members of the list `l` change their states by `g`. -/
def changeAll (g : κ → κ) : List ι → (ι → κ) → ι → κ
  | [], x => x
  | i :: l, x => changeAll g l (update x i (g (x i)))

variable {l : List ι}

lemma changeAll_of_notMem (g : κ → κ) (x : ι → κ) (h : i ∉ l) : changeAll g l x i = x i := by
  induction l generalizing x with
  | nil => rfl
  | cons j l ih =>
    have hne : i ≠ j := fun he => h (he ▸ List.mem_cons_self)
    rw [changeAll, ih _ fun hi => h (List.mem_cons_of_mem _ hi), update_of_ne hne]

lemma changeAll_of_mem (g : κ → κ) (x : ι → κ) (hl : l.Nodup) (h : i ∈ l) :
    changeAll g l x i = g (x i) := by
  induction l generalizing x with
  | nil => cases h
  | cons j l ih =>
    rw [List.nodup_cons] at hl
    rw [changeAll]
    by_cases he : i = j
    · rw [he, changeAll_of_notMem g _ hl.1, update_self]
    · have hi : i ∈ l := (List.mem_cons.1 h).resolve_left he
      rw [ih _ hl.2 hi, update_of_ne he]

variable [Fintype ι]

lemma tally_update (f : κ → ℕ) (x : ι → κ) (i : ι) (k : κ) :
    tally f (update x i k) + f (x i) = tally f x + f k := by
  have hnew : tally f (update x i k) = f k + ∑ j ∈ Finset.univ.erase i, f (x j) := by
    rw [tally, ← Finset.add_sum_erase _ _ (Finset.mem_univ i), update_self]
    congr 1
    apply Finset.sum_congr rfl
    intro j hj
    rw [update_of_ne (Finset.ne_of_mem_erase hj)]
  have hold : tally f x = f (x i) + ∑ j ∈ Finset.univ.erase i, f (x j) := by
    rw [tally, ← Finset.add_sum_erase _ _ (Finset.mem_univ i)]
  omega

lemma tally_changeAll (f : κ → ℕ) (g : κ → κ) (x : ι → κ) (hl : l.Nodup) {a b : ℕ}
    (h : ∀ i ∈ l, f (g (x i)) + a = f (x i) + b) :
    tally f (changeAll g l x) + a * l.length = tally f x + b * l.length := by
  induction l generalizing x with
  | nil => simp [changeAll]
  | cons i l ih =>
    rw [List.nodup_cons] at hl
    have hsame : ∀ j ∈ l, update x i (g (x i)) j = x j := fun j hj =>
      update_of_ne (fun he : j = i => hl.1 (he ▸ hj)) _ _
    have hrest := ih (update x i (g (x i))) hl.2 fun j hj => by
      rw [hsame j hj]
      exact h j (List.mem_cons_of_mem _ hj)
    have hfirst := tally_update f x i (g (x i))
    have hmoved := h i List.mem_cons_self
    rw [changeAll, List.length_cons, Nat.mul_succ, Nat.mul_succ]
    omega

lemma tally_indicator {p : κ → Bool} (hl : l.Nodup) (h : ∀ i, i ∈ l ↔ p (x i) = true) :
    tally (indicator p) x = l.length := by
  have hset : (Finset.univ.filter fun i => p (x i) = true) = l.toFinset := by
    ext i
    simp [h i]
  rw [← List.toFinset_card_of_nodup hl, ← hset, Finset.card_filter]
  rfl

end Haiku.Lib
