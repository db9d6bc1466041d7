import Haiku.UserSpace.PlacementTheorems
import Haiku.UserSpace.SafetyTheorems

/-!
# One reference for each reserved area

An address space takes a reference for each of its reserved areas. Two branches remove a reserved
area and keep its reference: the search that replaces a reserved area by a new area of the same
size, and the resizing of an area over the whole of the reserved area behind it.
-/

namespace Haiku.UserSpace

open Lib
open AddressSpace (AddressSpec Restrictions pageSize roundDown reservedAvoidBase)

variable {b : Space} {s s' : State} {status : Status} {new : NewArea} {size : ℕ}
  {restrictions : Restrictions} {memory : Bool} {areas before after : List VMUserArea}

def Paired (b : Space) (s : State) : Call → Prop
  | .insertArea _ size restrictions _ => restrictions.spec ≠ .exact →
    ∀ alignment, slotAlignment b restrictions.spec restrictions.alignment size = some alignment →
      ¬Replaceable b size alignment s.areas
  | .resizeArea name newSize => ∀ before a next after,
    locate name s.areas = some (before, a, next :: after) → next.kind.isReserved = true →
    next.base ≤ b.add a.base (b.sub newSize 1) →
    b.sub (b.add a.base newSize) next.base < next.size
  | _ => True

lemma reservedCount_append (xs ys : List VMUserArea) :
    reservedCount (xs ++ ys) = reservedCount xs + reservedCount ys :=
  List.countP_append

lemma reservedCount_cons (a : VMUserArea) (xs : List VMUserArea) :
    reservedCount (a :: xs) = reservedCount xs + (if a.kind.isReserved then 1 else 0) :=
  List.countP_cons

/-! ## Inserting -/

lemma findAny_error {start alignment limit : ℕ} {e : Status}
    (h : findAny b start size alignment limit new areas = some (.error e)) : e ≠ .ok := by
  obtain ⟨hole, -, h⟩ := Option.map_eq_some_iff.1 h
  match hole with
  | some found => cases h
  | none =>
    dsimp only at h
    split at h
    next => cases h
    next =>
      cases h
      decide

lemma insertAreaSlot_error {start limit a : ℕ} {spec : AddressSpec} {e : Status}
    (h : insertAreaSlot b start size limit spec a new memory areas = some (.error e)) :
    e ≠ .ok := by
  rw [insertAreaSlot] at h
  split at h
  next =>
    cases h
    decide
  next =>
    split at h
    next => cases h
    next =>
      cases h
      decide
    next =>
      obtain ⟨alignment, -, h⟩ := Option.bind_eq_some_iff.1 h
      obtain ⟨found, hfound, h⟩ := Option.map_eq_some_iff.1 h
      split at h
      next => cases h
      next e' =>
        cases h
        cases spec with
        | any => exact findAny_error hfound
        | anyKernel => exact findAny_error hfound
        | anyKernelBlock => exact findAny_error hfound
        | base =>
          obtain ⟨hole, -, hfound⟩ := Option.bind_eq_some_iff.1 hfound
          cases hole with
          | some found => cases hfound
          | none => exact findAny_error hfound
        | exact =>
          rw [findSlot] at hfound
          split at hfound
          next => cases hfound
          next =>
            cases hfound
            decide
        | other =>
          cases hfound
          decide

lemma insertArea_placed (hok : insertArea b s new size restrictions memory = some (s', status)) :
    s' = s ∧ status ≠ .ok ∨ status = .ok ∧ ∃ areas' refs,
      s' = { s with
        areas      := areas'
        freeSpace  := b.sub s.freeSpace size
        references := s.references + refs } ∧
      (Placed s.areas areas' new size refs ∨ restrictions.spec ≠ .exact ∧ new.isReserved = false ∧
        ∃ alignment, slotAlignment b restrictions.spec restrictions.alignment size = some alignment ∧
          Placed s.areas areas' new size (-1) ∧ Replaceable b size alignment s.areas) := by
  rw [insertArea] at hok
  split at hok
  next =>
    cases hok
    exact .inl ⟨rfl, by decide⟩
  next start limit hrange =>
    obtain ⟨r, hr, hok⟩ := Option.map_eq_some_iff.1 hok
    rcases r with e | ⟨found, refs⟩
    · cases hok
      exact .inl ⟨rfl, insertAreaSlot_error hr⟩
    · cases hok
      exact .inr ⟨rfl, found, refs, rfl, insertAreaSlot_placed hr⟩

/-! ## The other calls -/

lemma unreserveLoop_count (b : Space) (address endAddress : ℕ) (areas : List VMUserArea) :
    reservedCount (unreserveLoop b address endAddress areas).1 +
      (unreserveLoop b address endAddress areas).2 = reservedCount areas := by
  induction areas with
  | nil => rfl
  | cons a rest ih =>
    rw [unreserveLoop]
    split
    · rfl
    · dsimp only
      split
      next hreserved =>
        rw [reservedCount_cons, if_pos hreserved.1]
        dsimp only
        omega
      next =>
        rw [reservedCount_cons, reservedCount_cons]
        omega

lemma reservedCount_filter (areas : List VMUserArea) :
    reservedCount (areas.filter fun a => !a.kind.isReserved) = 0 := by
  apply List.countP_eq_zero.2
  intro a ha
  have := (List.mem_filter.1 ha).2
  simpa using this

lemma resizeArea_count {a : VMUserArea} {newSize : ℕ} {rest rest' : List VMUserArea}
    (hkept : ∀ next after, rest = next :: after → next.kind.isReserved = true →
      next.base ≤ b.add a.base (b.sub newSize 1) →
      b.sub (b.add a.base newSize) next.base < next.size)
    (hok : resizeArea b a newSize rest = .ok rest') :
    reservedCount rest' = reservedCount (a :: rest) := by
  cases rest with
  | nil =>
    cases hok
    rfl
  | cons next rest =>
    simp only [resizeArea] at hok
    split at hok
    next hreach =>
      split at hok
      next => cases hok
      next protection cacheOffset hkind =>
        split at hok
        next => cases hok
        next =>
          have hnext : next.kind.isReserved = true := by rw [hkind]; rfl
          have hlt := hkept next rest rfl hnext hreach
          rw [if_neg (by omega)] at hok
          cases hok
          have hshrunk : (shrinkAreaHead b next (b.sub next.size
              (b.sub (b.add a.base newSize) next.base))).kind = next.kind := by
            rw [shrinkAreaHead]
            split <;> rfl
          rw [reservedCount_cons, reservedCount_cons, reservedCount_cons, reservedCount_cons, hshrunk]
    next =>
      cases hok
      rfl

/-! ## Runs -/

lemma exec_references {c : Call} (h : s.references = reservedCount s.areas)
    (hpaired : Paired b s c) (hok : exec b s c = some (s', status)) :
    s'.references = reservedCount s'.areas := by
  cases c with
  | insertArea name size restrictions memory =>
    obtain ⟨-, hok⟩ := Option.ite_none_right_eq_some.1 hok
    rcases insertArea_placed hok with ⟨rfl, -⟩ | ⟨-, areas', refs, rfl, hplaced⟩
    · exact h
    · rcases hplaced with hplaced | ⟨hspec, -, alignment, halign, -, hfound⟩
      · have hcount := hplaced.reservedCount_eq
        have hreal : (NewArea.area name).isReserved = false := rfl
        rw [hreal, if_neg (by decide)] at hcount
        show s.references + refs = reservedCount areas'
        omega
      · exact absurd hfound (hpaired hspec alignment halign)
  | removeArea name =>
    obtain ⟨⟨before, a, after⟩, hloc, hok⟩ := Option.map_eq_some_iff.1 hok
    cases hok
    obtain ⟨hareas, hkind⟩ := locate_spec hloc
    have hreal : a.kind.isReserved = false := by rw [hkind]; rfl
    rw [hareas, reservedCount_append, reservedCount_cons, hreal, if_neg (by decide)] at h
    show s.references = (reservedCount (before ++ after) : ℕ)
    rw [reservedCount_append]
    exact h
  | resizeArea name newSize =>
    obtain ⟨⟨before, a, after⟩, hloc, hok⟩ := Option.bind_eq_some_iff.1 hok
    obtain ⟨-, hok⟩ := Option.ite_none_right_eq_some.1 hok
    obtain ⟨hareas, hkind⟩ := locate_spec hloc
    split at hok
    next rest hrest =>
      cases hok
      have hrest' : resizeArea b a newSize after = .ok rest := hrest
      have hcount := resizeArea_count (fun next after' heq =>
        hpaired before a next after' (by rw [hloc, heq])) hrest'
      rw [hareas, reservedCount_append] at h
      show s.references = (reservedCount (before ++ rest) : ℕ)
      rw [reservedCount_append, hcount]
      exact h
    next =>
      cases hok
      exact h
  | shrinkAreaHead name size =>
    obtain ⟨before, a, after, hareas, hkind, -, hok⟩ := locate_bind hok
    cases hok
    have hshrunk : (shrinkAreaHead b a size).kind = a.kind := by
      rw [shrinkAreaHead]
      split <;> rfl
    rw [hareas, reservedCount_append, reservedCount_cons] at h
    show s.references = (reservedCount (before ++ shrinkAreaHead b a size :: after) : ℕ)
    rw [reservedCount_append, reservedCount_cons, hshrunk]
    exact h
  | shrinkAreaTail name size =>
    obtain ⟨before, a, after, hareas, hkind, -, hok⟩ := locate_bind hok
    cases hok
    have hshrunk : (shrinkAreaTail a size).kind = a.kind := by
      rw [shrinkAreaTail]
      split <;> rfl
    rw [hareas, reservedCount_append, reservedCount_cons] at h
    show s.references = (reservedCount (before ++ shrinkAreaTail a size :: after) : ℕ)
    rw [reservedCount_append, reservedCount_cons, hshrunk]
    exact h
  | reserveAddressRange size restrictions flags memory =>
    obtain ⟨-, hok⟩ := Option.ite_none_right_eq_some.1 hok
    split at hok
    next =>
      cases hok
      exact h
    next =>
      split at hok
      next =>
        cases hok
        exact h
      next =>
        obtain ⟨⟨s₁, status₁⟩, hinsert, hres⟩ := Option.map_eq_some_iff.1 hok
        rcases insertArea_placed hinsert with ⟨rfl, hne⟩ | ⟨rfl, areas', refs, rfl, hplaced⟩
        · rw [if_neg hne] at hres
          cases hres
          exact h
        · rw [if_pos rfl] at hres
          cases hres
          rcases hplaced with hplaced | ⟨-, hreal, -⟩
          · have hcount := hplaced.reservedCount_eq
            have hnew : (NewArea.reserved flags).isReserved = true := rfl
            rw [hnew, if_pos rfl] at hcount
            show s.references + refs + 1 = reservedCount areas'
            omega
          · cases hreal
  | unreserveAddressRange address size =>
    obtain ⟨-, hok⟩ := Option.ite_none_right_eq_some.1 hok
    split at hok
    next =>
      cases hok
      exact h
    next =>
      cases hok
      have hcount := unreserveLoop_count b address (b.add address (b.sub size 1)) s.areas
      simp only
      omega
  | unreserveAllAddressRanges =>
    cases hok
    show s.references - (reservedCount s.areas : ℕ) =
      (reservedCount (s.areas.filter fun a => !a.kind.isReserved) : ℕ)
    rw [reservedCount_filter]
    omega
  | markDeleting =>
    cases hok
    exact h

/-- In every run in which the two branches are not taken, there is one reference for each reserved
area. -/
theorem references_paired {hist : History State Call}
    (hr : Run (step b) (Paired b) (State.init b) hist s) :
    s.references = reservedCount s.areas :=
  hr.invariant (I := fun s : State => s.references = reservedCount s.areas) rfl
    fun h hpaired hstep => by
      obtain ⟨⟨s', status⟩, hexec, rfl⟩ := Option.map_eq_some_iff.1 hstep
      exact exec_references h hpaired hexec

/-- Whether the two branches are not taken, by evaluation. -/
def pairedCheck (b : Space) (s : State) : Call → Bool
  | .insertArea _ size restrictions _ => restrictions.spec = .exact ||
    (slotAlignment b restrictions.spec restrictions.alignment size).all fun alignment =>
      s.areas.all fun a => !(a.kind.isReserved && decide (a.size = size) &&
        decide (b.roundUp a.base alignment = a.base))
  | .resizeArea name newSize => (locate name s.areas).all fun r => r.2.2.head?.all fun next =>
    !next.kind.isReserved || decide (next.base > b.add r.2.1.base (b.sub newSize 1)) ||
      decide (b.sub (b.add r.2.1.base newSize) next.base < next.size)
  | _ => true

lemma paired_of_check (b : Space) (s : State) (c : Call) (h : pairedCheck b s c = true) :
    Paired b s c := by
  cases c with
  | insertArea name size restrictions memory =>
    intro hspec alignment halign hfound
    obtain ⟨a, ha, hreserved, hsize, hbase⟩ := hfound
    simp only [pairedCheck, halign, Option.all_some, Bool.or_eq_true, decide_eq_true_eq,
      List.all_eq_true] at h
    rcases h with h | h
    · exact hspec h
    · have := h a ha
      simp [hreserved, hsize, hbase] at this
  | resizeArea name newSize =>
    intro before a next after hloc hreserved hreach
    have hne : ¬next.base > b.add a.base (b.sub newSize 1) := by omega
    simpa [pairedCheck, hloc, hreserved, hne] using h
  | _ => trivial

/-- A reservation is split and given back in parts. -/
theorem references_paired_team :
    let s := outcome (step teamSpace) (State.init teamSpace) (teamCalls.take 7)
    s.areas.length = 5 ∧ s.references = 2 ∧
      s.references = reservedCount s.areas := by
  refine ⟨by decide, by decide, ?_⟩
  obtain ⟨hist, hr, -⟩ := run_outcome (step teamSpace) (paired_of_check teamSpace)
    (State.init teamSpace) (teamCalls.take 7) (fun _ => true) (by decide)
  exact references_paired hr

/-- The whole address space is reserved, and an area of that size takes the place of the
reservation. -/
def leakingCalls : List Call :=
  [.reserveAddressRange 0x7fef0000 ⟨0x100000, .exact, 0⟩ 0 true,
    .reserveAddressRange 0x100000 ⟨0, .exact, 0⟩ 0 true,
    .insertArea 0 0x100000 ⟨0, .any, 0⟩ true, .unreserveAllAddressRanges]

/-- All ranges are unreserved, but a reference is left. -/
theorem references_leak : ∃ hist s, Run (step teamSpace) (fun _ _ => True) (State.init teamSpace)
    hist s ∧ s.references = 1 ∧ reservedCount s.areas = 0 ∧
    s.references ≠ reservedCount s.areas := by
  obtain ⟨hist, hr, -⟩ := @run_outcome _ _ (fun _ _ => True) (step teamSpace) (fun _ _ => true)
    (fun _ _ _ => trivial) (State.init teamSpace) leakingCalls (fun _ => true) (by decide)
  exact ⟨hist, _, hr, by decide, by decide, by decide⟩

end Haiku.UserSpace
