import Haiku.UserSpace.Basic
import Mathlib.Tactic.Ring

/-!
# The layout of the area list

`Laid` says that areas lie one behind the other. The searches keep it when the addresses they compute
do not leave the address space, and when no hole is short by exactly one byte: the searches compare
the last address of the new area with the first address of the next one.
-/

namespace Haiku.UserSpace

open AddressSpace (AddressSpec Restrictions pageSize roundDown reservedAvoidBase)

/-- The areas lie one behind the other between `lo` and `hi`, and none of them is empty. -/
def Laid : ℕ → List VMUserArea → ℕ → Prop
  | lo, [], hi => lo ≤ hi
  | lo, a :: rest, hi => lo ≤ a.base ∧ 0 < a.size ∧ Laid (a.base + a.size) rest hi

section Laid
variable {lo lo' hi : ℕ} {xs ys zs : List VMUserArea} {a : VMUserArea}

lemma Laid.le (h : Laid lo xs hi) : lo ≤ hi := by
  induction xs generalizing lo with
  | nil => exact h
  | cons a xs ih =>
    obtain ⟨hlo, hpos, hrest⟩ := h
    have := ih hrest
    omega

lemma Laid.mono (h : Laid lo xs hi) (hle : lo' ≤ lo) : Laid lo' xs hi := by
  cases xs with
  | nil => exact hle.trans h
  | cons a xs => exact ⟨hle.trans h.1, h.2⟩

lemma Laid.mem (h : Laid lo xs hi) (ha : a ∈ xs) :
    lo ≤ a.base ∧ 0 < a.size ∧ a.base + a.size ≤ hi := by
  induction xs generalizing lo with
  | nil => cases ha
  | cons x xs ih =>
    obtain ⟨hlo, hpos, hrest⟩ := h
    have hle := hrest.le
    rcases List.mem_cons.1 ha with rfl | ha
    · exact ⟨hlo, hpos, hle⟩
    · have := ih hrest ha
      omega

lemma laid_append_cons : Laid lo (xs ++ a :: ys) hi ↔
    Laid lo xs a.base ∧ 0 < a.size ∧ Laid (a.base + a.size) ys hi := by
  induction xs generalizing lo with
  | nil => exact Iff.rfl
  | cons x xs ih =>
    rw [List.cons_append, Laid, Laid, ih]
    constructor
    · intro h
      exact ⟨⟨h.1, h.2.1, h.2.2.1⟩, h.2.2.2⟩
    · intro h
      exact ⟨h.1.1, h.1.2.1, h.1.2.2, h.2⟩

lemma Laid.append {mid : ℕ} (h : Laid lo xs mid) (h' : Laid mid ys hi) :
    Laid lo (xs ++ ys) hi := by
  induction xs generalizing lo with
  | nil => exact h'.mono h
  | cons x xs ih => exact ⟨h.1, h.2.1, ih h.2.2⟩

lemma Laid.replace (h : Laid lo (xs ++ a :: ys) hi) (h' : Laid (a.base + a.size) zs hi) :
    Laid lo (xs ++ a :: zs) hi :=
  laid_append_cons.2 ⟨(laid_append_cons.1 h).1, (laid_append_cons.1 h).2.1, h'⟩

lemma Laid.sublist (h : Laid lo xs hi) (hsub : ys.Sublist xs) : Laid lo ys hi := by
  induction hsub generalizing lo with
  | slnil => exact h
  | cons a _ ih =>
    obtain ⟨hlo, hpos, hrest⟩ := h
    exact (ih hrest).mono (by omega)
  | cons_cons a _ ih => exact ⟨h.1, h.2.1, ih h.2.2⟩

end Laid

/-! ## Address arithmetic -/

section Arithmetic
variable {b : Space} {x y size : ℕ}

lemma Space.add_of_lt (h : x + y < 2 ^ b.addressBits) : b.add x y = x + y :=
  Nat.mod_eq_of_lt h

lemma Space.sub_of_le (hle : y ≤ x) (hlt : x - y < 2 ^ b.addressBits) : b.sub x y = x - y := by
  have heq : x + 2 ^ b.addressBits - y = x - y + 2 ^ b.addressBits := by omega
  rw [Space.sub, heq, Nat.add_mod_right, Nat.mod_eq_of_lt hlt]

lemma Space.sub_one (hpos : 0 < x) (hx : x ≤ 2 ^ b.addressBits) : b.sub x 1 = x - 1 :=
  b.sub_of_le hpos (by omega)

lemma Space.lt_of_mod (b : Space) (x : ℕ) : x % 2 ^ b.addressBits < 2 ^ b.addressBits :=
  Nat.mod_lt _ (Nat.two_pow_pos _)

lemma Space.sub_add {z : ℕ} (hxy : x + y ≤ 2 ^ b.addressBits) (hz : z ≤ x + y) (hpos : 0 < z) :
    b.sub (b.add x y) z = x + y - z := by
  by_cases hlt : x + y < 2 ^ b.addressBits
  · rw [b.add_of_lt hlt, b.sub_of_le hz (by omega)]
  · have heq : x + y = 2 ^ b.addressBits := by omega
    have hzero : b.add x y = 0 := by rw [Space.add, heq, Nat.mod_self]
    rw [hzero, Space.sub, Nat.mod_eq_of_lt (by omega)]
    omega

lemma Space.lastOf_eq {a : VMUserArea} (hpos : 0 < a.size)
    (hend : a.base + a.size ≤ 2 ^ b.addressBits) : b.lastOf a = a.base + a.size - 1 := by
  have hsize : b.sub a.size 1 = a.size - 1 := b.sub_one hpos (by omega)
  rw [Space.lastOf, hsize, b.add_of_lt (by omega)]
  omega

lemma Space.roundUp_lt (b : Space) (x y : ℕ) : b.roundUp x y < 2 ^ b.addressBits := by
  have hle := Nat.div_mul_le_self (b.sub (b.add x y) 1) y
  have hlt : b.sub (b.add x y) 1 < 2 ^ b.addressBits := b.lt_of_mod _
  exact lt_of_le_of_lt hle hlt

lemma lt_roundDown_add (hy : 0 < y) : x < roundDown x y + y := by
  have hdiv := Nat.div_add_mod' x y
  have hmod := Nat.mod_lt x hy
  rw [roundDown]
  omega

lemma roundDown_le (x y : ℕ) : roundDown x y ≤ x := Nat.div_mul_le_self x y

lemma le_roundDown {z : ℕ} (hy : 0 < y) (hz : roundDown z y ≤ x) :
    roundDown z y ≤ roundDown x y := by
  rw [roundDown] at hz ⊢
  exact Nat.mul_le_mul_right _ ((Nat.le_div_iff_mul_le hy).2 hz)

lemma Space.le_roundUp (hx : x ≤ 2 ^ b.addressBits) (hy : 0 < y) (hy' : y < 2 ^ b.addressBits)
    (h : x ≤ b.roundUp (x % 2 ^ b.addressBits) y + 1) :
    x ≤ b.roundUp (x % 2 ^ b.addressBits) y := by
  have hle := roundDown_le (b.sub (b.add (x % 2 ^ b.addressBits) y) 1) y
  have hlt := @lt_roundDown_add (b.sub (b.add (x % 2 ^ b.addressBits) y) 1) y hy
  rw [Space.roundUp] at h ⊢
  have hadd : b.add (x % 2 ^ b.addressBits) y = (x + y) % 2 ^ b.addressBits := by
    rw [Space.add, Nat.mod_add_mod]
  rw [hadd] at h hle hlt ⊢
  by_cases hsmall : x + y ≤ 2 ^ b.addressBits
  · -- nothing wraps around
    have hsub : b.sub ((x + y) % 2 ^ b.addressBits) 1 = x + y - 1 :=
      b.sub_add hsmall (by omega) (by omega)
    rw [hsub] at h hle hlt ⊢
    omega
  · have hmod : (x + y) % 2 ^ b.addressBits = x + y - 2 ^ b.addressBits := by
      rw [Nat.mod_eq_sub_mod (by omega), Nat.mod_eq_of_lt (by omega)]
    have hsub : b.sub ((x + y) % 2 ^ b.addressBits) 1 = x + y - 2 ^ b.addressBits - 1 := by
      rw [hmod]
      exact b.sub_of_le (by omega) (by omega)
    rw [hsub] at h hle hlt ⊢
    omega

lemma Space.isValidSpot_iff {base aligned limit : ℕ} (hsize : 0 < size)
    (hsize' : size < 2 ^ b.addressBits) (haligned : aligned < 2 ^ b.addressBits)
    (h : b.isValidSpot base aligned size limit = true) :
    base ≤ aligned ∧ aligned + size ≤ limit + 1 ∧ aligned + size ≤ 2 ^ b.addressBits ∧ 1 < size := by
  rw [Space.isValidSpot, Bool.and_eq_true, Bool.and_eq_true, decide_eq_true_eq, decide_eq_true_eq,
    decide_eq_true_eq, b.sub_one hsize hsize'.le] at h
  obtain ⟨⟨hbase, hgt⟩, hle⟩ := h
  have hwrap : aligned + (size - 1) < 2 ^ b.addressBits := by
    by_contra hge
    have hadd : b.add aligned (size - 1) = aligned + (size - 1) - 2 ^ b.addressBits := by
      rw [Space.add, Nat.mod_eq_sub_mod (by omega), Nat.mod_eq_of_lt (by omega)]
    omega
  rw [b.add_of_lt hwrap] at hgt hle
  omega

end Arithmetic

/-! ## Reserved regions -/

section Search
variable {b : Space} {start size alignment lo : ℕ} {new : NewArea} {memory : Bool}
  {areas areas' : List VMUserArea} {last : VMUserArea} {refs : ℤ}

lemma Space.end_le (b : Space) : b.endAddress + 1 ≤ 2 ^ b.addressBits := b.end_lt

@[simp]
lemma NewArea.base_place {base : ℕ} : (new.place base size).base = base := by
  cases new <;> rfl

@[simp]
lemma NewArea.size_place {base : ℕ} : (new.place base size).size = size := by
  cases new <;> rfl

lemma Space.last_eq (hsize : 0 < size) (hsize' : size < 2 ^ b.addressBits)
    (hwrap : start + size ≤ 2 ^ b.addressBits) :
    b.add start (b.sub size 1) = start + (size - 1) := by
  rw [b.sub_one hsize hsize'.le, b.add_of_lt (by omega)]

lemma insertAreaIntoReservedRegion_laid (h : Laid lo areas (b.endAddress + 1))
    (hsize : 0 < size) (hsize' : size < 2 ^ b.addressBits)
    (hwrap : start + size ≤ 2 ^ b.addressBits)
    (hok : insertAreaIntoReservedRegion b start size new memory areas = .ok (areas', refs)) :
    Laid lo areas' (b.endAddress + 1) := by
  induction areas generalizing lo areas' with
  | nil => cases hok
  | cons next rest ih =>
    obtain ⟨hlo, hpos, hrest⟩ := h
    have hend := hrest.le
    have hmax := b.end_le
    have hlast : b.lastOf next = next.base + next.size - 1 := b.lastOf_eq hpos (by omega)
    rw [insertAreaIntoReservedRegion, hlast, b.last_eq hsize hsize' hwrap] at hok
    split at hok
    next hcovers =>
      have hbase : next.base ≤ start := hcovers.1
      have hcover : start + size ≤ next.base + next.size := by
        have := hcovers.2
        omega
      split at hok
      next => cases hok
      next protection cacheOffset hkind =>
        split at hok
        next hstart =>
          split at hok
          next =>
            cases hok
            refine ⟨by simp only [NewArea.base_place]; omega, by simpa using hsize, ?_⟩
            exact hrest.mono (by simp only [NewArea.base_place, NewArea.size_place]; omega)
          next hne =>
            cases hok
            have hadd : b.add next.base size = next.base + size := b.add_of_lt (by omega)
            have hsub : b.sub next.size size = next.size - size := b.sub_of_le (by omega) (by omega)
            refine ⟨by simp only [NewArea.base_place]; omega, by simpa using hsize, ?_⟩
            simp only [NewArea.base_place, NewArea.size_place, hadd, hsub]
            exact ⟨by simp only; omega, by simp only; omega, hrest.mono (by simp only; omega)⟩
        next hstart =>
          have hbefore : b.sub start next.base = start - next.base := b.sub_of_le hbase (by omega)
          split at hok
          next =>
            cases hok
            simp only [hbefore]
            refine ⟨hlo, by simp only; omega, ?_⟩
            refine ⟨by simp only [NewArea.base_place]; omega, by simpa using hsize, ?_⟩
            exact hrest.mono (by simp only [NewArea.base_place, NewArea.size_place]; omega)
          next hmiddle =>
            split at hok
            next => cases hok
            next =>
              cases hok
              -- a reserved area is left on both sides
              have hne : start + size ≠ next.base + next.size := by
                intro heq
                apply hmiddle
                rw [Space.add, heq, Space.add]
              have hadd : b.add start size = start + size := b.add_of_lt (by omega)
              have hsub : b.sub (b.sub (b.add next.base next.size) start) size =
                  next.base + next.size - start - size := by
                rw [b.sub_add (by omega) (by omega) (by omega), b.sub_of_le (by omega) (by omega)]
              simp only [hbefore, hadd, hsub]
              refine ⟨hlo, by simp only; omega, ?_⟩
              refine ⟨by simp only [NewArea.base_place]; omega, by simpa using hsize, ?_⟩
              simp only [NewArea.base_place, NewArea.size_place]
              exact ⟨le_rfl, by simp only; omega, hrest.mono (by simp only; omega)⟩
    next =>
      split at hok
      next r heq =>
        cases hok
        exact ⟨hlo, hpos, ih hrest heq⟩
      next => cases hok

end Search

end Haiku.UserSpace
