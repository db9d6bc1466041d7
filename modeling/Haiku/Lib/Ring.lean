import Mathlib.Data.Nat.ModEq
import Mathlib.Data.List.Basic

/-!
# Lists in a ring of cells

A ring is an array of `size` cells whose last cell is followed by the first. Its contents are
given by a function on positions.

* `RingHolds` says that a list lies in the ring from some position on, wrapping around the end;
* `applyWrites` is what a sequence of plain writes, each to consecutive positions, does;
* `WritesRing` is the specification of such a sequence: wherever it is applied, a given list lies
  in the ring afterwards, and no other cell was written. `WritesRing.append` composes two of them.
-/

namespace Haiku.Lib

variable {β : Type}

/-! ## Positions -/

lemma ring_offset_inj {size p i j : ℕ} (hi : i < size) (hj : j < size)
    (h : (p + i) % size = (p + j) % size) : i = j := by
  have hmod : i ≡ j [MOD size] := Nat.ModEq.add_left_cancel' p h
  exact hmod.eq_of_lt_of_lt hi hj

lemma ring_position {size e x : ℕ} (h : e ≡ x [MOD size]) (he : e ≤ size) (hx₀ : 0 < x)
    (hx : x < 2 * size) : e = x ∨ e + size = x := by
  have hxm : x % size = if x < size then x else x - size := by
    split
    next hlt => exact Nat.mod_eq_of_lt hlt
    next hge =>
      rw [Nat.mod_eq_sub_mod (by omega)]
      exact Nat.mod_eq_of_lt (by omega)
  have hem : e % size = if e < size then e else 0 := by
    split
    next hlt => exact Nat.mod_eq_of_lt hlt
    next hge =>
      have : e = size := by omega
      rw [this, Nat.mod_self]
  unfold Nat.ModEq at h
  rw [hxm, hem] at h
  split at h <;> split at h <;> omega

/-! ## Lists in the ring -/

/-- The cells from position `p` on hold the list. -/
def RingHolds (ring : ℕ → β) (size p : ℕ) (xs : List β) : Prop :=
  ∀ i (hi : i < xs.length), ring ((p + i) % size) = xs[i]

variable {ring ring' : ℕ → β} {size p q : ℕ} {xs ys : List β}

lemma RingHolds.nil : RingHolds ring size p [] := by
  intro i hi
  simp at hi

lemma RingHolds.modEq (h : RingHolds ring size p xs) (hpq : p ≡ q [MOD size]) :
    RingHolds ring size q xs := by
  intro i hi
  have hi' : p + i ≡ q + i [MOD size] := hpq.add_right i
  rw [← hi', h i hi]

lemma RingHolds.left (h : RingHolds ring size p (xs ++ ys)) : RingHolds ring size p xs := by
  intro i hi
  rw [h i (by simp; omega), List.getElem_append_left hi]

lemma RingHolds.right (h : RingHolds ring size p (xs ++ ys)) :
    RingHolds ring size (p + xs.length) ys := by
  intro i hi
  have hget := h (xs.length + i) (by simp; omega)
  rw [List.getElem_append_right (by omega)] at hget
  simpa [Nat.add_assoc] using hget

lemma RingHolds.append (hx : RingHolds ring size p xs)
    (hy : RingHolds ring size (p + xs.length) ys) : RingHolds ring size p (xs ++ ys) := by
  intro i hi
  by_cases hlt : i < xs.length
  · rw [hx i hlt, List.getElem_append_left hlt]
  · have hi' : i - xs.length < ys.length := by
      rw [List.length_append] at hi
      omega
    rw [List.getElem_append_right (by omega), ← hy (i - xs.length) hi']
    congr 2
    omega

lemma RingHolds.head {x : β} (h : RingHolds ring size p (x :: xs)) : ring (p % size) = x := by
  have hget := h 0 (by simp)
  simpa using hget

lemma RingHolds.tail {x : β} (h : RingHolds ring size p (x :: xs)) :
    RingHolds ring size (p + 1) xs := by
  have h' : RingHolds ring size p ([x] ++ xs) := h
  exact h'.right

lemma RingHolds.congr (h : RingHolds ring size p xs)
    (heq : ∀ i < xs.length, ring' ((p + i) % size) = ring ((p + i) % size)) :
    RingHolds ring' size p xs := by
  intro i hi
  rw [heq i hi, h i hi]

/-! ## Writing -/

/-- Writes a list to consecutive positions. -/
def writeAt (ring : ℕ → β) (p : ℕ) (xs : List β) : ℕ → β := fun q =>
  if p ≤ q then xs[q - p]?.getD (ring q) else ring q

/-- A sequence of writes, each given by its position and what is written there. -/
def applyWrites (ring : ℕ → β) (ws : List (ℕ × List β)) : ℕ → β :=
  ws.foldl (fun r w => writeAt r w.1 w.2) ring

/-- The position is written by one of the writes. -/
def Covered (ws : List (ℕ × List β)) (q : ℕ) : Prop :=
  ∃ w ∈ ws, ∃ i < w.2.length, q = w.1 + i

lemma writeAt_of_lt {i : ℕ} (hi : i < xs.length) : writeAt ring p xs (p + i) = xs[i] := by
  simp [writeAt, hi]

lemma writeAt_of_not (h : ∀ i < xs.length, q ≠ p + i) : writeAt ring p xs q = ring q := by
  unfold writeAt
  split
  next hle =>
    have hlen : xs.length ≤ q - p := by
      by_contra hlt
      exact h (q - p) (by omega) (by omega)
    rw [List.getElem?_eq_none hlen, Option.getD_none]
  next => rfl

lemma applyWrites_append (ws ws' : List (ℕ × List β)) :
    applyWrites ring (ws ++ ws') = applyWrites (applyWrites ring ws) ws' := by
  simp [applyWrites]

lemma applyWrites_of_not_covered : ∀ {ws : List (ℕ × List β)} {ring : ℕ → β},
    ¬Covered ws q → applyWrites ring ws q = ring q := by
  intro ws
  induction ws with
  | nil => intro ring _; rfl
  | cons w ws ih =>
    intro ring h
    have hrest : ¬Covered ws q := fun ⟨w', hw', hi⟩ => h ⟨w', List.mem_cons_of_mem _ hw', hi⟩
    show applyWrites (writeAt ring w.1 w.2) ws q = ring q
    rw [ih hrest]
    exact writeAt_of_not fun i hi heq => h ⟨w, List.mem_cons_self .., i, hi, heq⟩

lemma covered_append {ws ws' : List (ℕ × List β)} :
    Covered (ws ++ ws') q ↔ Covered ws q ∨ Covered ws' q := by
  constructor
  · rintro ⟨w, hw, hi⟩
    rcases List.mem_append.1 hw with hw | hw
    · exact .inl ⟨w, hw, hi⟩
    · exact .inr ⟨w, hw, hi⟩
  · rintro (⟨w, hw, hi⟩ | ⟨w, hw, hi⟩)
    · exact ⟨w, List.mem_append_left _ hw, hi⟩
    · exact ⟨w, List.mem_append_right _ hw, hi⟩

/-- The writes put the list into the ring, from position `p` on, and change nothing else. -/
structure WritesRing (ws : List (ℕ × List β)) (size p : ℕ) (xs : List β) : Prop where
  holds : ∀ ring, RingHolds (applyWrites ring ws) size p xs
  only : ∀ q, Covered ws q → ∃ i < xs.length, q = (p + i) % size

lemma WritesRing.nil : WritesRing (β := β) [] size p [] where
  holds _ := .nil
  only := by rintro q ⟨w, hw, -⟩; cases hw

lemma WritesRing.single (h : p + xs.length ≤ size) : WritesRing [(p, xs)] size p xs where
  holds ring i hi := by
    rw [Nat.mod_eq_of_lt (by omega)]
    exact writeAt_of_lt hi
  only := by
    rintro q ⟨w, hw, i, hi, rfl⟩
    obtain rfl := List.mem_singleton.1 hw
    exact ⟨i, hi, (Nat.mod_eq_of_lt (by simp only at hi ⊢; omega)).symm⟩

lemma WritesRing.modEq {ws : List (ℕ × List β)} (h : WritesRing ws size p xs)
    (hpq : p ≡ q [MOD size]) : WritesRing ws size q xs where
  holds ring := (h.holds ring).modEq hpq
  only r hr := by
    obtain ⟨i, hi, rfl⟩ := h.only r hr
    exact ⟨i, hi, hpq.add_right i⟩

lemma WritesRing.keeps {ws : List (ℕ × List β)} (h : WritesRing ws size p ys) {s : ℕ}
    (hend : p ≡ s + xs.length [MOD size]) (hlen : xs.length + ys.length ≤ size)
    (hx : RingHolds ring size s xs) : RingHolds (applyWrites ring ws) size s xs := by
  refine hx.congr fun i hi => applyWrites_of_not_covered fun hc => ?_
  obtain ⟨j, hj, heq⟩ := h.only _ hc
  have hp : (p + j) % size = (s + (xs.length + j)) % size := by
    rw [← Nat.add_assoc]
    exact hend.add_right j
  have := ring_offset_inj (by omega) (by omega) (heq.trans hp)
  omega

lemma WritesRing.append {ws ws' : List (ℕ × List β)} (h : WritesRing ws size p xs)
    (h' : WritesRing ws' size (p + xs.length) ys) (hlen : xs.length + ys.length ≤ size) :
    WritesRing (ws ++ ws') size p (xs ++ ys) where
  holds ring := by
    rw [applyWrites_append]
    exact (h'.keeps rfl hlen (h.holds ring)).append (h'.holds _)
  only q hq := by
    rcases covered_append.1 hq with hq | hq
    · obtain ⟨i, hi, rfl⟩ := h.only q hq
      exact ⟨i, by simp; omega, rfl⟩
    · obtain ⟨i, hi, rfl⟩ := h'.only q hq
      exact ⟨xs.length + i, by simp; omega, by rw [Nat.add_assoc]⟩

end Haiku.Lib
