import Haiku.Radix.Basic
import Mathlib.Algebra.Order.BigOperators.Group.Finset
import Mathlib.Tactic.Ring

/-!
# The tree of a radix bitmap

The nodes of level `k` lie above `span k` slots and take up at most `width k` elements of the array.
`Tree` says that the part of the array that belongs to a node describes which of its slots are free:
the bitmaps of the leaves, the numbers of available slots, hints that are not too low, and a
terminator behind the last child that has slots.
-/

namespace Haiku.Radix

open Lib

variable {k : ℕ}

def span (k : ℕ) : ℕ := 32 * 16 ^ k

/-- The array elements of a node and everything below it. -/
def width : ℕ → ℕ
  | 0 => 1
  | k + 1 => 16 * width k + 1

lemma span_succ (k : ℕ) : span (k + 1) = 16 * span k := by
  rw [span, span, pow_succ]
  ring

lemma span_pos (k : ℕ) : 0 < span k := by
  rw [span]
  exact Nat.mul_pos (by decide) (Nat.pow_pos (by decide))

lemma width_pos (k : ℕ) : 0 < width k := by
  cases k <;> simp [width]

lemma dvd_span (k : ℕ) : 32 ∣ span k := Dvd.intro _ rfl

lemma span_succ_ne (k : ℕ) : ¬span (k + 1) = bitmapRadix := by
  have hne : span (k + 1) ≠ 32 := by
    rw [span, pow_succ]
    omega
  exact hne

lemma span_le (hk : k ≤ 6) : span k ≤ 2 ^ 29 := by
  have hpow : 16 ^ k ≤ 16 ^ 6 := Nat.pow_le_pow_right (by decide) hk
  rw [span]
  omega

lemma int32_of_lt {x : ℤ} (h : 0 ≤ x) (h' : x < 2 ^ 31) : int32 x = x := by
  rw [int32, Int.bmod_eq_of_le] <;> omega

/-! ## The array -/

def Nodes.set (nodes : Nodes) (i : ℕ) (node : RadixNode) : Nodes :=
  { nodes with at_ := Function.update nodes.at_ i node }

section Array
variable {nodes : Nodes} {i j : ℕ} {node : RadixNode}

@[simp]
lemma Nodes.size_set : (nodes.set i node).size = nodes.size := rfl

@[simp]
lemma Nodes.set_self : (nodes.set i node).at_ i = node := by
  simp [Nodes.set]

lemma Nodes.set_of_ne (h : j ≠ i) : (nodes.set i node).at_ j = nodes.at_ j := by
  simp [Nodes.set, h]

lemma Nodes.read_of_lt (h : i < nodes.size) : nodes.read i = some (nodes.at_ i) := by
  rw [Nodes.read, if_pos h]

lemma Nodes.write_of_lt (h : i < nodes.size) : nodes.write i node = some (nodes.set i node) := by
  rw [Nodes.write, if_pos h, Nodes.set]

end Array

/-! ## Runs of free slots -/

/-- There is a leaf among the slots of the node with `c` free slots in a row. -/
def Runs (free : ℕ → Bool) : ℕ → ℕ → ℕ → Prop
  | 0, base, c => ∃ j, j + c ≤ 32 ∧ ∀ i < c, free (base + j + i) = true
  | k + 1, base, c => ∃ j < 16, Runs free k (base + j * span k) c

def freeBelow (free : ℕ → Bool) (k base : ℕ) : ℕ :=
  Nat.count (fun j => free (base + j) = true) (span k)

variable {free free' : ℕ → Bool} {base c c' : ℕ}

lemma freeBelow_le : freeBelow free k base ≤ span k := Nat.count_le _

lemma Runs.mono (h : Runs free k base c)
    (hle : ∀ x, base ≤ x → x < base + span k → free x = true → free' x = true) (hc : c' ≤ c) :
    Runs free' k base c' := by
  induction k generalizing base with
  | zero =>
    obtain ⟨j, hj, hrun⟩ := h
    refine ⟨j, by omega, fun i hi => hle _ (by omega) ?_ (hrun i (by omega))⟩
    show base + j + i < base + 32
    omega
  | succ k ih =>
    obtain ⟨j, hj, hrun⟩ := h
    refine ⟨j, hj, ih hrun fun x hx hx' => hle x (by omega) ?_⟩
    rw [span_succ]
    have : j * span k + span k ≤ 16 * span k := by
      rw [← Nat.succ_mul]
      exact Nat.mul_le_mul_right _ hj
    omega

lemma freeBelow_succ : freeBelow free (k + 1) base =
    ∑ j ∈ Finset.range 16, freeBelow free k (base + j * span k) := by
  have hpart : ∀ n, Nat.count (fun j => free (base + j) = true) (n * span k) =
      ∑ j ∈ Finset.range n, freeBelow free k (base + j * span k) := by
    intro n
    induction n with
    | zero => simp
    | succ n ih =>
      rw [Nat.succ_mul, Nat.count_add, ih, Finset.sum_range_succ, freeBelow]
      simp only [Nat.add_assoc]
  rw [freeBelow, span_succ]
  exact hpart 16

lemma Runs.le_freeBelow (h : Runs free k base c) : c ≤ freeBelow free k base := by
  induction k generalizing base with
  | zero =>
    obtain ⟨j, hj, hrun⟩ := h
    have hall : Nat.count (fun i => free (base + (j + i)) = true) c = c := by
      rw [Nat.count_iff_forall]
      intro i hi
      rw [← Nat.add_assoc]
      exact hrun i hi
    have hle : Nat.count (fun i => free (base + i) = true) (j + c) ≤ freeBelow free 0 base :=
      Nat.count_monotone _ hj
    rw [Nat.count_add, hall] at hle
    omega
  | succ k ih =>
    obtain ⟨j, hj, hrun⟩ := h
    rw [freeBelow_succ]
    have hsum := Finset.single_le_sum (s := Finset.range 16)
      (f := fun j => freeBelow free k (base + j * span k))
      (fun _ _ => Nat.zero_le _) (Finset.mem_range.2 hj)
    exact (ih hrun).trans hsum

lemma Runs.exists_free (h : Runs free k base c) (hc : 1 ≤ c) : ∃ x, base ≤ x ∧ free x = true := by
  induction k generalizing base with
  | zero =>
    obtain ⟨j, _, hrun⟩ := h
    exact ⟨base + j + 0, by omega, hrun 0 hc⟩
  | succ k ih =>
    obtain ⟨j, _, hrun⟩ := h
    obtain ⟨x, hx, hfree⟩ := ih hrun
    exact ⟨x, by omega, hfree⟩

/-! ## The tree -/

def Hinted (hint : ℤ) (free : ℕ → Bool) (k base : ℕ) : Prop :=
  0 ≤ hint ∧ ∀ c, Runs free k base c → c ≤ hint

variable {hint : ℤ}

section

variable (h : Hinted hint free k base)
include h

lemma Hinted.of_le (hle : ∀ x, free' x = true → free x = true) : Hinted hint free' k base :=
  ⟨h.1, fun c hrun => h.2 c (hrun.mono (fun x _ _ => hle x) le_rfl)⟩

lemma Hinted.lower (hc : 1 ≤ c) (hnone : ¬Runs free k base c) :
    Hinted (if hint ≥ (c : ℤ) then (c : ℤ) - 1 else hint) free k base := by
  have hshort : ∀ d, Runs free k base d → d < c := by
    intro d hrun
    by_contra hd
    exact hnone (hrun.mono (fun _ _ _ hx => hx) (by omega))
  split
  · refine ⟨by omega, fun d hrun => ?_⟩
    have := hshort d hrun
    omega
  · exact h

lemma Hinted.limit :
    Hinted (if hint > (freeBelow free k base : ℤ) then (freeBelow free k base : ℤ) else hint) free
      k base := by
  split
  · refine ⟨by omega, fun d hrun => ?_⟩
    have := hrun.le_freeBelow
    omega
  · exact h

end

/-- The children of a node: a tree for each child that has slots, and a terminator behind the
last one. -/
def Children (tree : ℕ → ℕ → Prop) (nodes : Nodes) (slots k o base : ℕ) : Prop :=
  ∀ j < 16, (base + j * span k < slots → tree (o + 1 + j * width k) (base + j * span k)) ∧
    (slots ≤ base + j * span k → base + j * span k < slots + span k →
      o + 1 + j * width k < nodes.size ∧ (nodes.at_ (o + 1 + j * width k)).bigHint = -1)

/-- The node at `o` describes the free slots from `base` on. -/
def Tree (nodes : Nodes) (free : ℕ → Bool) (slots : ℕ) : ℕ → ℕ → ℕ → Prop
  | 0, o, base => o < nodes.size ∧ Hinted (nodes.at_ o).bigHint free 0 base ∧
      ∀ j < 32, (nodes.at_ o).bitmap.getLsbD j = !free (base + j)
  | k + 1, o, base => o < nodes.size ∧ Hinted (nodes.at_ o).bigHint free (k + 1) base ∧
      (nodes.at_ o).available = freeBelow free (k + 1) base ∧
      Children (Tree nodes free slots k) nodes slots k o base

lemma Tree.hinted {nodes : Nodes} {slots o : ℕ} (h : Tree nodes free slots k o base) :
    o < nodes.size ∧ Hinted (nodes.at_ o).bigHint free k base := by
  cases k with
  | zero => exact ⟨h.1, h.2.1⟩
  | succ k => exact ⟨h.1, h.2.1⟩

/-- Nothing outside of a part of the array changes. -/
structure Frame (nodes nodes' : Nodes) (o w : ℕ) : Prop where
  size : nodes'.size = nodes.size
  same : ∀ i, i < o ∨ o + w ≤ i → nodes'.at_ i = nodes.at_ i

variable {nodes nodes' nodes'' : Nodes} {slots o w o' w' : ℕ}

lemma Frame.refl : Frame nodes nodes o w := ⟨rfl, fun _ _ => rfl⟩

lemma Frame.trans (h : Frame nodes nodes' o w) (h' : Frame nodes' nodes'' o w) :
    Frame nodes nodes'' o w :=
  ⟨h'.size.trans h.size, fun i hi => (h'.same i hi).trans (h.same i hi)⟩

lemma Frame.mono (h : Frame nodes nodes' o' w') (ho : o ≤ o') (hw : o' + w' ≤ o + w) :
    Frame nodes nodes' o w :=
  ⟨h.size, fun i hi => h.same i (by omega)⟩

lemma Frame.set {i : ℕ} {node : RadixNode} : Frame nodes (nodes.set i node) i 1 :=
  ⟨rfl, fun _ _ => Nodes.set_of_ne (by omega)⟩

lemma child_in {j : ℕ} (hj : j < 16) : o + 1 + j * width k + width k ≤ o + width (k + 1) := by
  have : j * width k + width k ≤ 16 * width k := by
    rw [← Nat.succ_mul]
    exact Nat.mul_le_mul_right _ hj
  rw [width]
  omega

lemma child_slots {j : ℕ} (hj : j < 16) : base + j * span k + span k ≤ base + span (k + 1) := by
  have : j * span k + span k ≤ 16 * span k := by
    rw [← Nat.succ_mul]
    exact Nat.mul_le_mul_right _ hj
  rw [span_succ]
  omega

lemma child_disjoint {i j : ℕ} (w : ℕ) (hij : i ≠ j) : i * w + w ≤ j * w ∨ j * w + w ≤ i * w := by
  rcases Nat.lt_or_gt_of_ne hij with h | h
  · left
    rw [← Nat.succ_mul]
    exact Nat.mul_le_mul_right _ h
  · right
    rw [← Nat.succ_mul]
    exact Nat.mul_le_mul_right _ h

lemma Hinted.congr (h : Hinted hint free k base)
    (hfree : ∀ x, base ≤ x → x < base + span k → free' x = free x) : Hinted hint free' k base :=
  ⟨h.1, fun c hr => h.2 c (hr.mono (fun x hx hx' hf => by rw [← hfree x hx hx']; exact hf) le_rfl)⟩

lemma count_congr {p q : ℕ → Prop} [DecidablePred p] [DecidablePred q] {n : ℕ}
    (h : ∀ i < n, p i ↔ q i) : Nat.count p n = Nat.count q n := by
  rw [Nat.count_eq_card_filter_range, Nat.count_eq_card_filter_range]
  congr 1
  apply Finset.filter_congr
  intro i hi
  exact h i (Finset.mem_range.1 hi)

lemma freeBelow_congr (hfree : ∀ x, base ≤ x → x < base + span k → free' x = free x) :
    freeBelow free' k base = freeBelow free k base := by
  apply count_congr
  intro j hj
  rw [hfree _ (by omega) (by omega)]

lemma Tree.congr (h : Tree nodes free slots k o base) (hsize : nodes'.size = nodes.size)
    (hnodes : ∀ i, o ≤ i → i < o + width k → nodes'.at_ i = nodes.at_ i)
    (hfree : ∀ x, base ≤ x → x < base + span k → free' x = free x) :
    Tree nodes' free' slots k o base := by
  induction k generalizing o base with
  | zero =>
    obtain ⟨ho, hhint, hbits⟩ := h
    have heq := hnodes o le_rfl (by simp [width])
    refine ⟨by omega, by rw [heq]; exact hhint.congr hfree, fun j hj => ?_⟩
    rw [heq, hbits j hj, hfree _ (by omega) (by simp [span]; omega)]
  | succ k ih =>
    obtain ⟨ho, hhint, havailable, hchildren⟩ := h
    have heq := hnodes o le_rfl (by simp [width])
    refine ⟨by omega, by rw [heq]; exact hhint.congr hfree, ?_,
      fun j hj => ⟨fun hin => ?_, fun hout hfirst => ?_⟩⟩
    · rw [heq, havailable, freeBelow_congr hfree]
    · have hwidth : o + 1 + j * width k + width k ≤ o + width (k + 1) := child_in hj
      have hspan : base + j * span k + span k ≤ base + span (k + 1) := child_slots hj
      exact ih ((hchildren j hj).1 hin) (fun i hi hi' => hnodes i (by omega) (by omega))
        fun x hx hx' => hfree x (by omega) (by omega)
    · have hwidth : o + 1 + j * width k + width k ≤ o + width (k + 1) := child_in hj
      have hpos := width_pos k
      obtain ⟨hlt, hterm⟩ := (hchildren j hj).2 hout hfirst
      exact ⟨by omega, by rw [hnodes _ (by omega) (by omega)]; exact hterm⟩

lemma Children.congr_head (h : Children (Tree nodes free slots k) nodes slots k o base)
    (hframe : Frame nodes nodes' o 1) :
    Children (Tree nodes' free slots k) nodes' slots k o base := by
  intro j hj
  constructor
  · intro hin
    exact ((h j hj).1 hin).congr hframe.size (fun i hi _ => hframe.same i (by omega))
      fun _ _ _ => rfl
  · intro hout hfirst
    have hterm := (h j hj).2 hout hfirst
    rw [hframe.size, hframe.same _ (by omega)]
    exact hterm

lemma Children.update {j : ℕ} (h : Children (Tree nodes free slots k) nodes slots k o base)
    (hin : base + j * span k < slots)
    (hframe : Frame nodes nodes' (o + 1 + j * width k) (width k))
    (htree : Tree nodes' free' slots k (o + 1 + j * width k) (base + j * span k))
    (hfree : ∀ x, x < base + j * span k ∨ base + j * span k + span k ≤ x → free' x = free x) :
    Children (Tree nodes' free' slots k) nodes' slots k o base := by
  intro i hi
  by_cases hij : i = j
  · subst hij
    exact ⟨fun _ => htree, fun hout => absurd hin (by omega)⟩
  · have hwidth := child_disjoint (width k) hij
    have hspan := child_disjoint (span k) hij
    constructor
    · intro hin'
      exact ((h i hi).1 hin').congr hframe.size (fun x hx hx' => hframe.same x (by omega))
        fun x hx hx' => hfree x (by omega)
    · intro hout hfirst
      have hterm := (h i hi).2 hout hfirst
      rw [hframe.size, hframe.same _ (by omega)]
      exact hterm

end Haiku.Radix
