import Mathlib.Data.List.Nodup

/-!
# Walks that mark what they visit

A walk visits the elements of a list one after the other, marks them, and counts the visits of
elements that are marked already.

* `marksAfter` and `marksAfter_iff`: the marks after the walk;
* `revisits` and `revisits_eq_zero_iff`: nothing is counted if and only if no element was marked
  before and none is visited twice.
-/

namespace Haiku.Lib

open Function

variable {α : Type*} [DecidableEq α] {marked : α → Bool} {l : List α} {x y : α}

def marksAfter (marked : α → Bool) : List α → α → Bool
  | [] => marked
  | x :: l => marksAfter (update marked x true) l

/-- The visits of elements that are marked already. -/
def revisits (marked : α → Bool) : List α → ℕ
  | [] => 0
  | x :: l => (if marked x then 1 else 0) + revisits (update marked x true) l

lemma update_true_iff : update marked x true y = true ↔ marked y = true ∨ y = x := by
  by_cases h : y = x
  · rw [h, update_self]
    simp
  · rw [update_of_ne h]
    simp [h]

lemma marksAfter_iff : marksAfter marked l y = true ↔ marked y = true ∨ y ∈ l := by
  induction l generalizing marked with
  | nil => simp [marksAfter]
  | cons x l ih =>
    unfold marksAfter
    rw [ih, update_true_iff, List.mem_cons, or_assoc]

lemma revisits_eq_zero_iff :
    revisits marked l = 0 ↔ l.Nodup ∧ ∀ y ∈ l, marked y = false := by
  induction l generalizing marked with
  | nil => simp [revisits]
  | cons x l ih =>
    unfold revisits
    rw [Nat.add_eq_zero_iff, ih, List.nodup_cons]
    -- The marks of the rest tell that the first element is not in it.
    constructor
    · rintro ⟨hx, hnodup, hfresh⟩
      have hxfalse : marked x = false := by
        by_contra htrue
        rw [if_pos (by simpa using htrue)] at hx
        omega
      refine ⟨⟨fun hmem => ?_, hnodup⟩, fun y hy => ?_⟩
      · have hself := hfresh x hmem
        rw [update_self] at hself
        cases hself
      · rcases List.mem_cons.1 hy with rfl | hmem
        · exact hxfalse
        · by_contra htrue
          have hupdate : update marked x true y = true :=
            update_true_iff.2 (.inl (by simpa using htrue))
          rw [hfresh y hmem] at hupdate
          cases hupdate
    · rintro ⟨⟨hnot, hnodup⟩, hfresh⟩
      refine ⟨if_neg (by rw [hfresh x List.mem_cons_self]; exact Bool.false_ne_true), hnodup,
        fun y hy => ?_⟩
      have hne : y ≠ x := fun heq => hnot (heq ▸ hy)
      rw [update_of_ne hne]
      exact hfresh y (List.mem_cons_of_mem x hy)

end Haiku.Lib
