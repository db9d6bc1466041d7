import Mathlib.Data.List.Nodup
import Mathlib.Algebra.Order.Group.Nat
import Mathlib.Algebra.BigOperators.Group.List.Basic
import Mathlib.Algebra.Order.Ring.Int

/-!
# Lists of extents

The elements of a list stand for pieces of one long range that lie one behind the other.

* `Locates len l pos x offset`: the position lies in the piece `x`, which starts at `offset`;
* `exists_locates` and `Locates.unique`: every position of the range lies in exactly one piece;
* `locates_of_uniform`: pieces of one size are found by a division;
* `Locates.getElem_flatMap`: a position of the range is a position of the piece.
-/

namespace Haiku.Lib

variable {α β : Type*} {len : α → ℕ} {l l' : List α} {x y : α} {pos offset n : ℕ}

def extent (len : α → ℕ) (l : List α) : ℕ := (l.map len).sum

@[simp] lemma extent_nil : extent len [] = 0 := rfl

@[simp] lemma extent_cons : extent len (x :: l) = len x + extent len l := by
  unfold extent
  rw [List.map_cons, List.sum_cons]

@[simp] lemma extent_append : extent len (l ++ l') = extent len l + extent len l' := by
  unfold extent
  rw [List.map_append, List.sum_append]

lemma extent_uniform (h : ∀ x ∈ l, len x = n) : extent len l = l.length * n := by
  induction l with
  | nil => rw [extent_nil, List.length_nil, Nat.zero_mul]
  | cons x l ih =>
    rw [extent_cons, h x List.mem_cons_self, ih fun y hy => h y (List.mem_cons_of_mem x hy),
      List.length_cons, Nat.succ_mul, Nat.add_comm]

/-- The position lies in the piece `x`, and `offset` is the length of the pieces before it. -/
def Locates (len : α → ℕ) (l : List α) (pos : ℕ) (x : α) (offset : ℕ) : Prop :=
  ∃ l₁ l₂, l = l₁ ++ x :: l₂ ∧ offset = extent len l₁ ∧ offset ≤ pos ∧ pos < offset + len x

lemma Locates.mem (h : Locates len l pos x offset) : x ∈ l := by
  obtain ⟨l₁, l₂, rfl, _⟩ := h
  exact List.mem_append_right l₁ List.mem_cons_self

lemma Locates.lt (h : Locates len l pos x offset) : pos < extent len l := by
  obtain ⟨l₁, l₂, rfl, hoffset, -, hlt⟩ := h
  rw [extent_append, extent_cons]
  omega

lemma locates_head (h : pos < len x) : Locates len (x :: l) pos x 0 :=
  ⟨[], l, rfl, rfl, Nat.zero_le _, by omega⟩

lemma Locates.cons (y : α) (h : Locates len l pos x offset) :
    Locates len (y :: l) (len y + pos) x (len y + offset) := by
  obtain ⟨l₁, l₂, rfl, rfl, hle, hlt⟩ := h
  exact ⟨y :: l₁, l₂, rfl, extent_cons.symm, by omega, by omega⟩

lemma Locates.append_right (l' : List α) (h : Locates len l pos x offset) :
    Locates len (l ++ l') pos x offset := by
  obtain ⟨l₁, l₂, rfl, hrest⟩ := h
  exact ⟨l₁, l₂ ++ l', by rw [List.append_assoc, List.cons_append], hrest⟩

lemma Locates.append_left (l' : List α) (h : Locates len l pos x offset) :
    Locates len (l' ++ l) (extent len l' + pos) x (extent len l' + offset) := by
  induction l' with
  | nil => simpa using h
  | cons y l' ih =>
    rw [extent_cons, Nat.add_assoc, Nat.add_assoc]
    exact ih.cons y

lemma exists_locates (h : pos < extent len l) : ∃ x offset, Locates len l pos x offset := by
  induction l generalizing pos with
  | nil => exact absurd h (Nat.not_lt_zero _)
  | cons y l ih =>
    by_cases hy : pos < len y
    · exact ⟨y, 0, locates_head hy⟩
    · rw [extent_cons] at h
      have hrest : pos - len y < extent len l := by omega
      obtain ⟨x, offset, hx⟩ := ih hrest
      refine ⟨x, len y + offset, ?_⟩
      have hcons := hx.cons y
      rwa [Nat.add_sub_cancel' (Nat.le_of_not_lt hy)] at hcons

lemma Locates.unique {x' : α} {offset' : ℕ} (h : Locates len l pos x offset)
    (h' : Locates len l pos x' offset') : x = x' ∧ offset = offset' := by
  obtain ⟨l₁, l₂, rfl, rfl, hle, hlt⟩ := h
  obtain ⟨l₁', l₂', heq, rfl, hle', hlt'⟩ := h'
  -- The prefixes are compared piece by piece; the longer one would reach beyond the position.
  induction l₁ generalizing l₁' pos with
  | nil =>
    cases l₁' with
    | nil =>
      rw [List.nil_append, List.nil_append] at heq
      exact ⟨(List.cons.inj heq).1, rfl⟩
    | cons y l₁' =>
      have hy : x = y := (List.cons.inj heq).1
      rw [extent_nil] at hlt
      rw [extent_cons, ← hy] at hle'
      omega
  | cons y l₁ ih =>
    cases l₁' with
    | nil =>
      have hy : y = x' := (List.cons.inj heq).1
      rw [extent_nil] at hlt'
      rw [extent_cons, hy] at hle
      omega
    | cons y' l₁' =>
      have hy : y = y' := (List.cons.inj heq).1
      subst hy
      rw [extent_cons] at hle hlt hle' hlt'
      have hle₁ : extent len l₁ ≤ pos - len y := by omega
      have hrest := ih hle₁ (by omega) l₁' (List.cons.inj heq).2 (by omega) (by omega)
      exact ⟨hrest.1, by rw [extent_cons, extent_cons, hrest.2]⟩

lemma locates_of_uniform (hlen : ∀ x ∈ l, len x = n) (hn : 0 < n) (hi : pos / n < l.length) :
    Locates len l pos l[pos / n] (pos / n * n) := by
  have hdiv := Nat.div_add_mod pos n
  have hmod := Nat.mod_lt pos hn
  rw [Nat.mul_comm] at hdiv
  refine ⟨l.take (pos / n), l.drop (pos / n + 1), ?_, ?_, by omega, ?_⟩
  · rw [← List.drop_eq_getElem_cons, List.take_append_drop]
  · rw [extent_uniform fun x hx => hlen x (List.mem_of_mem_take hx), List.length_take,
      Nat.min_eq_left (Nat.le_of_lt hi)]
  · rw [hlen _ (List.getElem_mem hi)]
    omega

lemma extent_mul : extent (fun x => len x * n) l = extent len l * n := by
  induction l with
  | nil => rw [extent_nil, extent_nil, Nat.zero_mul]
  | cons x l ih => rw [extent_cons, extent_cons, ih, Nat.add_mul]

lemma Locates.div (hn : 0 < n) (h : Locates (fun x => len x * n) l pos x offset) :
    Locates len l (pos / n) x (offset / n) ∧ offset / n * n = offset := by
  obtain ⟨l₁, l₂, rfl, hoffset, hle, hlt⟩ := h
  rw [extent_mul] at hoffset
  have hdiv : offset / n = extent len l₁ := by rw [hoffset, Nat.mul_div_cancel _ hn]
  refine ⟨⟨l₁, l₂, rfl, hdiv, Nat.div_le_div_right hle, ?_⟩, by rw [hdiv, hoffset]⟩
  rw [Nat.div_lt_iff_lt_mul hn, Nat.add_mul, hdiv, ← hoffset]
  exact hlt

lemma Locates.getElem_flatMap {f : α → List β} (hf : ∀ x, (f x).length = len x)
    (h : Locates len l pos x offset) : (l.flatMap f)[pos]? = (f x)[pos - offset]? := by
  obtain ⟨l₁, l₂, rfl, rfl, hle, hlt⟩ := h
  have hlength : (l₁.flatMap f).length = extent len l₁ := by
    rw [List.length_flatMap]
    unfold extent
    congr 1
    exact List.map_congr_left fun y _ => hf y
  rw [List.flatMap_append, List.flatMap_cons,
    List.getElem?_append_right (by rw [hlength]; exact hle), hlength, List.getElem?_append_left]
  rw [hf]
  omega

end Haiku.Lib
