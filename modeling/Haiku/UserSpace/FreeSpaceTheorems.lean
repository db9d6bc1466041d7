import Haiku.UserSpace.ReferenceTheorems
import Haiku.AddressSpace.System

/-!
# The free space of address spaces

`fFreeSpace` is adjusted when an area is inserted or removed, in both implementations, and in user
address spaces also when a range is reserved. It is not adjusted when the size of an area changes,
nor when a reservation ends.
-/

namespace Haiku.AddressSpace

/-- A kernel address space with `fFreeSpace`, and the areas in it with their `VMArea::Size()`. -/
structure Accounted where
  space : State
  freeSpace : ℕ
  areas : List (ℕ × ℕ)

def Accounted.init (b : Bounds) : Accounted := ⟨initObject b, b.endAddress - b.base + 1, []⟩

def setSize (area size : ℕ) (areas : List (ℕ × ℕ)) : List (ℕ × ℕ) :=
  areas.map fun a => if a.1 = area then (a.1, size) else a

/-- What a successful call does to `fFreeSpace` and to the sizes of the areas. -/
def Accounted.account (b : Bounds) (s : Accounted) (space : State) : Call → Accounted
  | .insertArea area .. =>
    let size := ((space.areas area).map fun id => (space.ranges id).size).getD 0 % 2 ^ b.addressBits
    ⟨space, b.sub s.freeSpace size, (area, size) :: s.areas⟩
  | .removeArea area =>
    let size := ((s.areas.find? fun a => a.1 = area).map Prod.snd).getD 0
    ⟨space, b.add s.freeSpace size, s.areas.eraseP fun a => a.1 = area⟩
  | .resizeArea area newSize _ | .shrinkAreaHead area newSize _ | .shrinkAreaTail area newSize _ =>
    ⟨space, s.freeSpace, setSize area newSize s.areas⟩
  | _ => ⟨space, s.freeSpace, s.areas⟩

def Accounted.step (b : Bounds) (s : Accounted) (c : Call) : Option Accounted :=
  (exec b s.space c).map fun r => if r.2 = .ok then s.account b r.1 c else { s with space := r.1 }

def Accounted.totalSize (s : Accounted) : ℕ := (s.areas.map Prod.snd).sum

def Accounted.Steady (s : Accounted) : Call → Prop
  | .resizeArea area newSize _ | .shrinkAreaHead area newSize _ | .shrinkAreaTail area newSize _ =>
    ∀ a ∈ s.areas, a.1 = area → a.2 = newSize
  | _ => True

section Kernel
variable {b : Bounds} {s s' : Accounted}

lemma setSize_same {area size : ℕ} {areas : List (ℕ × ℕ)}
    (h : ∀ a ∈ areas, a.1 = area → a.2 = size) : setSize area size areas = areas := by
  have hsame : ∀ a ∈ areas, (if a.1 = area then (a.1, size) else a) = id a := by
    intro a ha
    split
    next heq => rw [← h a ha heq, id]
    next => rfl
  rw [setSize, List.map_congr_left hsame, List.map_id]

lemma sum_eraseP (area : ℕ) (areas : List (ℕ × ℕ)) :
    ((areas.find? fun a => a.1 = area).map Prod.snd).getD 0 +
      ((areas.eraseP fun a => a.1 = area).map Prod.snd).sum = (areas.map Prod.snd).sum := by
  induction areas with
  | nil => rfl
  | cons a rest ih =>
    by_cases ha : a.1 = area
    · simp [ha]
    · simp only [List.find?_cons, ha, decide_false, List.eraseP_cons, cond_false, List.map_cons,
        List.sum_cons]
      omega

lemma Accounted.step_constant {c : Call} (hsteady : s.Steady c) (hs : s.step b c = some s') :
    (s'.freeSpace + s'.totalSize) % 2 ^ b.addressBits =
      (s.freeSpace + s.totalSize) % 2 ^ b.addressBits := by
  obtain ⟨⟨space, status⟩, -, hs⟩ := Option.map_eq_some_iff.1 hs
  split at hs
  next =>
    cases c with
    | insertArea area size restrictions memory =>
      cases hs
      simp only [Accounted.account, Accounted.totalSize, List.map_cons, List.sum_cons, Bounds.sub]
      generalize hsize : ((space.areas area).map fun id => (space.ranges id).size).getD 0 %
        2 ^ b.addressBits = size
      rw [Nat.mod_add_mod, show s.freeSpace + 2 ^ b.addressBits - size +
        (size + (s.areas.map Prod.snd).sum) = s.freeSpace + (s.areas.map Prod.snd).sum +
          2 ^ b.addressBits by omega, Nat.add_mod_right]
    | removeArea area =>
      cases hs
      have hsum := sum_eraseP area s.areas
      simp only [Accounted.account, Accounted.totalSize, Bounds.add, Nat.mod_add_mod]
      congr 1
      omega
    | resizeArea area newSize memory =>
      cases hs
      simp only [Accounted.account, Accounted.totalSize, setSize_same hsteady]
    | shrinkAreaHead area newSize memory =>
      cases hs
      simp only [Accounted.account, Accounted.totalSize, setSize_same hsteady]
    | shrinkAreaTail area newSize memory =>
      cases hs
      simp only [Accounted.account, Accounted.totalSize, setSize_same hsteady]
    | _ =>
      cases hs
      rfl
  next =>
    cases hs
    rfl

end Kernel

def upperHalf : Bounds where
  addressBits := 32
  base := 0x80000000
  endAddress := 0xffffffff
  userBase := 0x100000
  userBaseAny := 0x100000
  bits_ge := by decide
  base_pos := by decide
  userBaseAny_pos := by decide
  base_le := by decide
  end_lt := by decide
  base_aligned := by decide
  end_aligned := by decide

end Haiku.AddressSpace

namespace Haiku.UserSpace

open Lib

open AddressSpace (AddressSpec Restrictions pageSize roundDown reservedAvoidBase Bounds Accounted)

variable {b : Space} {s s' : State} {status : Status} {areas : List VMUserArea}

/-- No range is reserved, and no call changes the size of an area. -/
def Steady (s : State) : Call → Prop
  | .reserveAddressRange .. => False
  | .resizeArea name size | .shrinkAreaHead name size | .shrinkAreaTail name size =>
    ∀ a ∈ s.areas, a.kind = .area name → a.size = size
  | _ => True

lemma totalSize_append (counted : Bool) (xs ys : List VMUserArea) :
    totalSize counted (xs ++ ys) = totalSize counted xs + totalSize counted ys := by
  simp [totalSize]

lemma totalSize_cons (counted : Bool) (a : VMUserArea) (xs : List VMUserArea) :
    totalSize counted (a :: xs) = a.weight counted + totalSize counted xs := by
  simp [totalSize]

lemma totalSize_of_none (counted : Bool) (h : reservedCount areas = 0) :
    totalSize counted areas = totalSize false areas := by
  rw [totalSize, totalSize]
  congr 1
  apply List.map_congr_left
  intro a ha
  have hreal : a.kind.isReserved = false := by simpa using List.countP_eq_zero.1 h a ha
  rw [VMUserArea.weight, VMUserArea.weight, hreal, Bool.false_and, Bool.false_and]

lemma Space.sub_mod_add {size : ℕ} (b : Space) (f n : ℕ) (hsize : size < 2 ^ b.addressBits) :
    (b.sub f size + (n + size)) % 2 ^ b.addressBits = (f + n) % 2 ^ b.addressBits := by
  have heq : f + 2 ^ b.addressBits - size + (n + size) = f + n + 2 ^ b.addressBits := by omega
  rw [Space.sub, Nat.mod_add_mod, heq, Nat.add_mod_right]

lemma shrinkAreaHead_same (b : Space) (a : VMUserArea) : shrinkAreaHead b a a.size = a :=
  if_pos rfl

lemma shrinkAreaTail_same (a : VMUserArea) : shrinkAreaTail a a.size = a := if_pos rfl

lemma resizeArea_same {a : VMUserArea} {rest rest' : List VMUserArea}
    (hnone : reservedCount rest = 0) (hok : resizeArea b a a.size rest = .ok rest') :
    rest' = a :: rest := by
  cases rest with
  | nil =>
    cases hok
    rfl
  | cons next rest =>
    simp only [resizeArea] at hok
    split at hok
    next =>
      split at hok
      next => cases hok
      next protection cacheOffset hkind =>
        have hreal : ¬next.kind.isReserved = true :=
          List.countP_eq_zero.1 hnone next (List.mem_cons_self ..)
        exact absurd (by rw [hkind]; rfl) hreal
    next =>
      cases hok
      rfl

lemma unreserveLoop_none (b : Space) (address endAddress : ℕ) (hnone : reservedCount areas = 0) :
    (unreserveLoop b address endAddress areas).1 = areas := by
  induction areas with
  | nil => rfl
  | cons a rest ih =>
    have hreal : ¬a.kind.isReserved = true :=
      List.countP_eq_zero.1 hnone a (List.mem_cons_self ..)
    rw [reservedCount_cons, if_neg hreal] at hnone
    rw [unreserveLoop]
    split
    · rfl
    · dsimp only
      rw [if_neg (fun h => hreal h.1), ih hnone]

lemma exec_constant {c : Call} (hnone : reservedCount s.areas = 0) (hsteady : Steady s c)
    (hok : exec b s c = some (s', status)) :
    reservedCount s'.areas = 0 ∧ (s'.freeSpace + totalSize false s'.areas) % 2 ^ b.addressBits =
      (s.freeSpace + totalSize false s.areas) % 2 ^ b.addressBits := by
  cases c with
  | insertArea name size restrictions memory =>
    obtain ⟨hcond, hok⟩ := Option.ite_none_right_eq_some.1 hok
    rcases insertArea_placed hok with ⟨rfl, -⟩ | ⟨-, areas', refs, rfl, hplaced⟩
    · exact ⟨hnone, rfl⟩
    · have ⟨change, hplaced⟩ : ∃ change, Placed s.areas areas' (.area name) size change := by
        rcases hplaced with hplaced | ⟨-, -, _, -, hplaced, -⟩
        · exact ⟨refs, hplaced⟩
        · exact ⟨-1, hplaced⟩
      refine ⟨hplaced.none_reserved rfl hnone, ?_⟩
      have hsize := hplaced.totalSize_eq
      have hreal : (NewArea.area name).isReserved = false := rfl
      rw [hreal, if_neg (by decide)] at hsize
      simp only [hsize]
      exact b.sub_mod_add _ _ hcond.2.2.1
  | removeArea name =>
    obtain ⟨⟨before, a, after⟩, hloc, hok⟩ := Option.map_eq_some_iff.1 hok
    cases hok
    obtain ⟨hareas, hkind⟩ := locate_spec hloc
    have hreal : a.kind.isReserved = false := by rw [hkind]; rfl
    have hweight : a.weight false = a.size := by
      rw [VMUserArea.weight, hreal]
      rfl
    rw [hareas, reservedCount_append, reservedCount_cons] at hnone
    constructor
    · show reservedCount (before ++ after) = 0
      rw [reservedCount_append]
      omega
    · show (b.add s.freeSpace a.size + totalSize false (before ++ after)) % 2 ^ b.addressBits = _
      rw [hareas, totalSize_append, totalSize_append, totalSize_cons, hweight, Space.add,
        Nat.mod_add_mod]
      congr 1
      omega
  | resizeArea name newSize =>
    obtain ⟨before, a, after, hareas, hkind, -, hok⟩ := locate_bind hok
    have hsize : a.size = newSize := hsteady a (by rw [hareas]; simp) hkind
    split at hok
    next rest hrest =>
      cases hok
      have hrest' : resizeArea b a a.size after = .ok rest := by
        rw [hsize]
        exact hrest
      have hnone' : reservedCount after = 0 := by
        rw [hareas, reservedCount_append, reservedCount_cons] at hnone
        omega
      have hsame : before ++ rest = s.areas := by rw [resizeArea_same hnone' hrest', hareas]
      simp only [hsame]
      exact ⟨hnone, trivial⟩
    next =>
      cases hok
      exact ⟨hnone, rfl⟩
  | shrinkAreaHead name size =>
    obtain ⟨before, a, after, hareas, hkind, -, hok⟩ := locate_bind hok
    cases hok
    have hsize : a.size = size := hsteady a (by rw [hareas]; simp) hkind
    have hsame : before ++ shrinkAreaHead b a size :: after = s.areas := by
      rw [← hsize, shrinkAreaHead_same, hareas]
    simp only [hsame]
    exact ⟨hnone, trivial⟩
  | shrinkAreaTail name size =>
    obtain ⟨before, a, after, hareas, hkind, -, hok⟩ := locate_bind hok
    cases hok
    have hsize : a.size = size := hsteady a (by rw [hareas]; simp) hkind
    have hsame : before ++ shrinkAreaTail a size :: after = s.areas := by
      rw [← hsize, shrinkAreaTail_same, hareas]
    simp only [hsame]
    exact ⟨hnone, trivial⟩
  | reserveAddressRange => exact absurd hsteady id
  | unreserveAddressRange address size =>
    obtain ⟨-, hok⟩ := Option.ite_none_right_eq_some.1 hok
    split at hok
    next =>
      cases hok
      exact ⟨hnone, rfl⟩
    next =>
      cases hok
      have hsame := unreserveLoop_none b address (b.add address (b.sub size 1)) hnone
      simp only [hsame]
      exact ⟨hnone, trivial⟩
  | unreserveAllAddressRanges =>
    cases hok
    have hsame : (s.areas.filter fun a => !a.kind.isReserved) = s.areas := by
      rw [List.filter_eq_self]
      intro a ha
      have hreal : ¬a.kind.isReserved = true := List.countP_eq_zero.1 hnone a ha
      simpa using hreal
    simp only [hsame]
    exact ⟨hnone, trivial⟩
  | markDeleting =>
    cases hok
    exact ⟨hnone, rfl⟩

/-- While no area changes its size, and in user address spaces no range is reserved, the free space
and the sizes of the areas add up to the size of the address space, as a `size_t`, whether reserved
ranges are counted or not. -/
theorem free_space_constant (counted : Bool) :
    (∀ (b : Space) hist s, Run (step b) (fun s c => Steady s c) (State.init b) hist s →
      (s.freeSpace + totalSize counted s.areas) % 2 ^ b.addressBits =
        (b.endAddress - b.base + 1) % 2 ^ b.addressBits) ∧
    ∀ (b : Bounds) hist s, Run (Accounted.step b) Accounted.Steady (.init b) hist s →
      (s.freeSpace + s.totalSize) % 2 ^ b.addressBits =
        (b.endAddress - b.base + 1) % 2 ^ b.addressBits := by
  constructor
  · intro b hist s hr
    have hi : reservedCount s.areas = 0 ∧
        (s.freeSpace + totalSize false s.areas) % 2 ^ b.addressBits =
          (b.endAddress - b.base + 1) % 2 ^ b.addressBits := by
      apply hr.invariant (I := fun s : State => reservedCount s.areas = 0 ∧
        (s.freeSpace + totalSize false s.areas) % 2 ^ b.addressBits =
          (b.endAddress - b.base + 1) % 2 ^ b.addressBits) ⟨rfl, rfl⟩
      intro s c s' h hsteady hstep
      obtain ⟨⟨s', status⟩, hexec, rfl⟩ := Option.map_eq_some_iff.1 hstep
      obtain ⟨hnone, heq⟩ := exec_constant h.1 hsteady hexec
      exact ⟨hnone, heq.trans h.2⟩
    rw [totalSize_of_none counted hi.1]
    exact hi.2
  · intro b hist s hr
    apply hr.invariant (I := fun s : Accounted => (s.freeSpace + s.totalSize) % 2 ^ b.addressBits =
      (b.endAddress - b.base + 1) % 2 ^ b.addressBits) rfl
    intro s c s' h hsteady hstep
    exact (Accounted.step_constant hsteady hstep).trans h

/-- Whether no range is reserved and no size changes, by evaluation. -/
def steadyCheck (s : State) : Call → Bool
  | .reserveAddressRange .. => false
  | .resizeArea name size | .shrinkAreaHead name size | .shrinkAreaTail name size =>
    decide (∀ a ∈ s.areas, a.kind = .area name → a.size = size)
  | _ => true

lemma steady_of_check (s : State) (c : Call) (h : steadyCheck s c = true) : Steady s c := by
  cases c with
  | reserveAddressRange => cases h
  | resizeArea =>
    rw [steadyCheck, decide_eq_true_eq] at h
    exact h
  | shrinkAreaHead =>
    rw [steadyCheck, decide_eq_true_eq] at h
    exact h
  | shrinkAreaTail =>
    rw [steadyCheck, decide_eq_true_eq] at h
    exact h
  | _ => trivial

def teamInsertions : List Call :=
  [.insertArea 0 0x2000 ⟨0, .any, 0⟩ true, .insertArea 1 0x1000 ⟨0, .any, 0⟩ true, .removeArea 0]

def kernelInsertions : List AddressSpace.Call :=
  [.insertArea 0 0x4000 ⟨0, .anyKernel, 0⟩ (true, true)]

def isKernelInsertion : AddressSpace.Call → Bool
  | .insertArea .. => true
  | _ => false

lemma kernel_steady_of_insert (s : Accounted) (c : AddressSpace.Call)
    (h : isKernelInsertion c = true) : s.Steady c := by
  cases c with
  | insertArea => trivial
  | _ => cases h

/-- Two areas, of which one is removed again, and an area in the upper half. -/
theorem free_space_constant_areas :
    (outcome (step teamSpace) (State.init teamSpace) teamInsertions).freeSpace = 0x7ffef000 ∧
    (∀ counted, ((outcome (step teamSpace) (State.init teamSpace) teamInsertions).freeSpace +
      totalSize counted (outcome (step teamSpace) (State.init teamSpace) teamInsertions).areas) %
        2 ^ 32 = 0x7fff0000 % 2 ^ 32) ∧
    (outcome (Accounted.step AddressSpace.upperHalf) (.init AddressSpace.upperHalf)
      kernelInsertions).freeSpace = 0x7fffc000 ∧
    ((outcome (Accounted.step AddressSpace.upperHalf) (.init AddressSpace.upperHalf)
      kernelInsertions).freeSpace + (outcome (Accounted.step AddressSpace.upperHalf)
        (.init AddressSpace.upperHalf) kernelInsertions).totalSize) % 2 ^ 32 =
          0x80000000 % 2 ^ 32 := by
  refine ⟨by decide, ?_, by decide, ?_⟩
  · obtain ⟨hist, hr, -⟩ := run_outcome (step teamSpace) steady_of_check (State.init teamSpace)
      teamInsertions (fun _ => true) (by decide)
    exact fun counted => (free_space_constant counted).1 teamSpace hist _ hr
  · obtain ⟨hist, hr, -⟩ := run_outcome (Accounted.step AddressSpace.upperHalf)
      kernel_steady_of_insert (.init AddressSpace.upperHalf) kernelInsertions (fun _ => true)
      (by decide)
    exact (free_space_constant true).2 AddressSpace.upperHalf hist _ hr

/-- An area is resized: whether reserved ranges are counted or not, the sum changes. -/
theorem free_space_drifts : ∃ hist s, Run (step teamSpace) (Allowed teamSpace)
    (State.init teamSpace) hist s ∧ ∀ counted,
    (s.freeSpace + totalSize counted s.areas) % 2 ^ 32 ≠ 0x7fff0000 % 2 ^ 32 := by
  obtain ⟨hist, hr, -⟩ := run_outcome (step teamSpace)
    (fun s c h => (safe_of_check teamSpace s c h).1) (State.init teamSpace)
    [.insertArea 0 0x2000 ⟨0, .any, 0⟩ true, .resizeArea 0 0x3000] (fun _ => true)
    (by decide)
  refine ⟨hist, _, hr, fun counted => ?_⟩
  cases counted
  · decide
  · decide

end Haiku.UserSpace
