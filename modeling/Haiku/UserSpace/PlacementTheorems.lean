import Haiku.UserSpace.Basic
import Mathlib.Algebra.BigOperators.Group.List.Basic

/-!
# What an insertion changes

Every insertion adds one area to the list. The other real areas stay as they are; at most one
reserved area is replaced by what is left of it.
-/

namespace Haiku.UserSpace

open AddressSpace (AddressSpec Restrictions pageSize roundDown reservedAvoidBase)

/-- The new area takes the place of some reserved areas, of which others are left on both sides;
`change` is the change of their number. -/
def Placed (areas areas' : List VMUserArea) (new : NewArea) (size : ℕ) (change : ℤ) : Prop :=
  ∃ xs old ys left right base, areas = xs ++ old ++ ys ∧
    areas' = xs ++ (left ++ new.place base size :: right) ++ ys ∧
    (∀ a ∈ old, a.kind.isReserved = true) ∧ (∀ a ∈ left, a.kind.isReserved = true) ∧
    (∀ a ∈ right, a.kind.isReserved = true) ∧
    change = left.length + right.length - old.length ∧ (old = [] → left = [] ∧ right = [])

variable {b : Space} {start size alignment limit base : ℕ} {new : NewArea} {memory : Bool}
  {areas areas' xs ys : List VMUserArea} {next last : VMUserArea} {refs change : ℤ}

lemma Placed.cons (h : Placed areas areas' new size change) (a : VMUserArea) :
    Placed (a :: areas) (a :: areas') new size change := by
  obtain ⟨xs, old, ys, left, right, base, rfl, rfl, hrest⟩ := h
  exact ⟨a :: xs, old, ys, left, right, base, rfl, rfl, hrest⟩

lemma Placed.append (h : Placed areas areas' new size change) (before : List VMUserArea) :
    Placed (before ++ areas) (before ++ areas') new size change := by
  induction before with
  | nil => exact h
  | cons a before ih => exact ih.cons a

lemma Placed.hole (xs ys : List VMUserArea) :
    Placed (xs ++ ys) (xs ++ new.place base size :: ys) new size 0 := by
  refine ⟨xs, [], ys, [], [], base, by simp, by simp, ?_, ?_, ?_, by simp, by simp⟩ <;> simp

lemma Placed.reserved {left right : List VMUserArea} (hnext : next.kind.isReserved = true)
    (hleft : ∀ a ∈ left, a.kind.isReserved = true)
    (hright : ∀ a ∈ right, a.kind.isReserved = true) :
    Placed (next :: ys) (left ++ new.place base size :: right ++ ys) new size
      (left.length + right.length - 1) := by
  refine ⟨[], [next], ys, left, right, base, rfl, rfl, ?_, hleft, hright, by simp, by simp⟩
  intro a ha
  rw [List.mem_singleton.1 ha]
  exact hnext

/-! ## The searches -/

lemma insertAreaIntoReservedRegion_placed
    (hok : insertAreaIntoReservedRegion b start size new memory areas = .ok (areas', refs)) :
    Placed areas areas' new size refs := by
  induction areas generalizing areas' with
  | nil => cases hok
  | cons next rest ih =>
    rw [insertAreaIntoReservedRegion] at hok
    split at hok
    next =>
      split at hok
      next => cases hok
      next protection cacheOffset hkind =>
        have hnext : next.kind.isReserved = true := by rw [hkind]; rfl
        have hone :
            ∀ base' size', ∀ a ∈ [({ next with base := base', size := size' } : VMUserArea)],
            a.kind.isReserved = true := by
          intro base' size' a ha
          rw [List.mem_singleton.1 ha]
          exact hnext
        split at hok
        next =>
          split at hok
          next =>
            cases hok
            exact @Placed.reserved size start new rest next [] [] hnext (by simp) (by simp)
          next =>
            cases hok
            exact @Placed.reserved size start new rest next [] [_] hnext (by simp) (hone _ _)
        next =>
          split at hok
          next =>
            cases hok
            exact @Placed.reserved size start new rest next [_] [] hnext (hone _ _) (by simp)
          next =>
            split at hok
            next => cases hok
            next =>
              cases hok
              refine @Placed.reserved size start new rest next [_] [_] hnext (hone _ _) ?_
              intro a ha
              rw [List.mem_singleton.1 ha]
              rfl
    next =>
      split at hok
      next r heq =>
        cases hok
        exact (ih heq).cons next
      next => cases hok

lemma anyHole_placed (hok : anyHole b size alignment limit new last areas = some areas') :
    Placed areas areas' new size 0 := by
  induction areas generalizing last areas' with
  | nil =>
    rw [anyHole] at hok
    split at hok
    next =>
      cases hok
      exact Placed.hole [] []
    next => cases hok
  | cons next rest ih =>
    rw [anyHole] at hok
    split at hok
    next =>
      cases hok
      exact Placed.hole [] (next :: rest)
    next =>
      obtain ⟨rest', hrest', rfl⟩ := Option.map_eq_some_iff.1 hok
      exact (ih hrest').cons next

lemma baseHole_placed (hok : baseHole b start size limit new last areas = some areas') :
    Placed areas areas' new size 0 := by
  induction areas generalizing last areas' with
  | nil =>
    rw [baseHole] at hok
    split at hok
    next =>
      cases hok
      exact Placed.hole [] []
    next => cases hok
  | cons next rest ih =>
    rw [baseHole] at hok
    split at hok
    next =>
      cases hok
      exact Placed.hole [] (next :: rest)
    next =>
      obtain ⟨rest', hrest', rfl⟩ := Option.map_eq_some_iff.1 hok
      exact (ih hrest').cons next

/-- A reserved area of the list that has the size and the alignment of a request. -/
def Replaceable (b : Space) (size alignment : ℕ) (areas : List VMUserArea) : Prop :=
  ∃ a ∈ areas, a.kind.isReserved = true ∧ a.size = size ∧ b.roundUp a.base alignment = a.base

lemma anyReserved_placed (hok : anyReserved b size alignment new areas = some areas') :
    Placed areas areas' new size 0 ∨
      Placed areas areas' new size (-1) ∧ Replaceable b size alignment areas := by
  induction areas generalizing areas' with
  | nil => cases hok
  | cons next rest ih =>
    have hlater : ∀ rest', anyReserved b size alignment new rest = some rest' →
        Placed (next :: rest) (next :: rest') new size 0 ∨
          Placed (next :: rest) (next :: rest') new size (-1) ∧
            Replaceable b size alignment (next :: rest) := by
      intro rest' hrest'
      rcases ih hrest' with hplaced | ⟨hplaced, a, ha, hfound⟩
      · exact .inl (hplaced.cons next)
      · exact .inr ⟨hplaced.cons next, a, List.mem_cons_of_mem _ ha, hfound⟩
    rw [anyReserved] at hok
    split at hok
    next =>
      obtain ⟨rest', hrest', rfl⟩ := Option.map_eq_some_iff.1 hok
      exact hlater rest' hrest'
    next protection cacheOffset hkind =>
      have hnext : next.kind.isReserved = true := by rw [hkind]; rfl
      have hone : ∀ base' size', ∀ a ∈ [({ next with base := base', size := size' } : VMUserArea)],
          a.kind.isReserved = true := by
        intro base' size' a ha
        rw [List.mem_singleton.1 ha]
        exact hnext
      dsimp only at hok
      split at hok
      next hcovered =>
        cases hok
        right
        refine ⟨@Placed.reserved size _ new rest next [] [] hnext (by simp) (by simp), next, ?_, hnext,
          hcovered.2, hcovered.1.symm⟩
        exact List.mem_cons_self ..
      next =>
        split at hok
        next =>
          cases hok
          exact .inl (@Placed.reserved size _ new rest next [] [_] hnext (by simp) (hone _ _))
        next =>
          split at hok
          next =>
            cases hok
            exact .inl (@Placed.reserved size _ new rest next [_] [] hnext (hone _ _) (by simp))
          next =>
            obtain ⟨rest', hrest', rfl⟩ := Option.map_eq_some_iff.1 hok
            exact hlater rest' hrest'

lemma anySlot_placed
    (hok : anySlot b start size alignment limit new areas = some (some areas')) :
    Placed areas areas' new size 0 := by
  have happend : upTo b start size areas ++ behind b start size areas = areas :=
    List.takeWhile_append_dropWhile
  simp only [anySlot] at hok
  split at hok
  next last hlast =>
    obtain ⟨rest, hrest, rfl⟩ := Option.map_eq_some_iff.1 (Option.some.inj hok)
    have hplaced := (anyHole_placed hrest).append (upTo b start size areas)
    rw [happend] at hplaced
    exact hplaced
  next hlast =>
    rw [List.getLast?_eq_none_iff.1 hlast, List.nil_append] at happend
    rw [happend] at hok
    cases areas with
    | nil =>
      dsimp only at hok
      split at hok
      next =>
        cases hok
        exact Placed.hole [] []
      next => cases hok
    | cons next rest =>
      dsimp only at hok
      split at hok
      next =>
        cases hok
        exact Placed.hole [] (next :: rest)
      next =>
        obtain ⟨rest', hrest', rfl⟩ := Option.map_eq_some_iff.1 (Option.some.inj hok)
        exact (anyHole_placed hrest').cons next

lemma baseSlot_placed (hok : baseSlot b start size limit new areas = some (some areas')) :
    Placed areas areas' new size 0 := by
  have happend : upTo b start size areas ++ behind b start size areas = areas :=
    List.takeWhile_append_dropWhile
  simp only [baseSlot] at hok
  split at hok
  next last hlast =>
    obtain ⟨rest, hrest, rfl⟩ := Option.map_eq_some_iff.1 (Option.some.inj hok)
    have hplaced := (baseHole_placed hrest).append (upTo b start size areas)
    rw [happend] at hplaced
    exact hplaced
  next hlast =>
    rw [List.getLast?_eq_none_iff.1 hlast, List.nil_append] at happend
    rw [happend] at hok
    split at hok
    next =>
      cases hok
      exact Placed.hole [] areas
    next =>
      cases areas with
      | nil => cases hok
      | cons next rest =>
        obtain ⟨rest', hrest', rfl⟩ := Option.map_eq_some_iff.1 (Option.some.inj hok)
        exact (baseHole_placed hrest').cons next

lemma exactSlot_placed (hok : exactSlot b start size new areas = some areas') :
    Placed areas areas' new size 0 := by
  have happend : upTo b start size areas ++ behind b start size areas = areas :=
    List.takeWhile_append_dropWhile
  simp only [exactSlot] at hok
  split at hok
  next =>
    cases hok
    have hplaced := @Placed.hole size start new (upTo b start size areas) (behind b start size areas)
    rw [happend] at hplaced
    exact hplaced
  next => cases hok

lemma findAny_placed (hok : findAny b start size alignment limit new areas = some (.ok areas')) :
    Placed areas areas' new size 0 ∨ new.isReserved = false ∧ Placed areas areas' new size (-1) ∧
      Replaceable b size alignment areas := by
  obtain ⟨hole, hhole, hok⟩ := Option.map_eq_some_iff.1 hok
  match hole with
  | some found =>
    cases hok
    exact .inl (anySlot_placed hhole)
  | none =>
    dsimp only at hok
    split at hok
    next found hfound =>
      cases hok
      split at hfound
      next => cases hfound
      next hreal =>
        rcases anyReserved_placed hfound with hplaced | hplaced
        · exact .inl hplaced
        · exact .inr ⟨by simpa using hreal, hplaced⟩
    next => cases hok

lemma findSlot_placed {spec : AddressSpec}
    (hok : findSlot b start size alignment limit spec new areas = some (.ok areas')) :
    Placed areas areas' new size 0 ∨ spec ≠ .exact ∧ new.isReserved = false ∧
      Placed areas areas' new size (-1) ∧ Replaceable b size alignment areas := by
  cases spec with
  | any => exact (findAny_placed hok).imp_right fun h => ⟨by decide, h⟩
  | anyKernel => exact (findAny_placed hok).imp_right fun h => ⟨by decide, h⟩
  | anyKernelBlock => exact (findAny_placed hok).imp_right fun h => ⟨by decide, h⟩
  | base =>
    obtain ⟨hole, hhole, hok⟩ := Option.bind_eq_some_iff.1 hok
    match hole with
    | some found =>
      cases hok
      exact .inl (baseSlot_placed hhole)
    | none => exact (findAny_placed hok).imp_right fun h => ⟨by decide, h⟩
  | exact =>
    rw [findSlot] at hok
    split at hok
    next found hfound =>
      cases hok
      exact .inl (exactSlot_placed hfound)
    next => cases hok
  | other => cases hok

lemma insertAreaSlot_placed {spec : AddressSpec} {a : ℕ}
    (hok : insertAreaSlot b start size limit spec a new memory areas = some (.ok (areas', refs))) :
    Placed areas areas' new size refs ∨ spec ≠ .exact ∧ new.isReserved = false ∧
      ∃ alignment, slotAlignment b spec a size = some alignment ∧
        Placed areas areas' new size (-1) ∧ Replaceable b size alignment areas := by
  rw [insertAreaSlot] at hok
  split at hok
  next => cases hok
  next =>
    split at hok
    next r hr =>
      cases hok
      split at hr
      next => exact .inl (insertAreaIntoReservedRegion_placed hr)
      next => cases hr
    next => cases hok
    next =>
      obtain ⟨alignment, halign, hok⟩ := Option.bind_eq_some_iff.1 hok
      obtain ⟨found, hfound, hok⟩ := Option.map_eq_some_iff.1 hok
      split at hok
      next found =>
        cases hok
        rcases findSlot_placed hfound with hplaced | ⟨hspec, hreal, hplaced⟩
        · exact .inl hplaced
        · exact .inr ⟨hspec, hreal, alignment, halign, hplaced⟩
      next => cases hok

/-! ## Counting -/

def reservedCount (areas : List VMUserArea) : ℕ := areas.countP fun a => a.kind.isReserved

/-- What an area contributes to the sizes; reserved areas are counted or not. -/
def VMUserArea.weight (counted : Bool) (a : VMUserArea) : ℕ :=
  if a.kind.isReserved && !counted then 0 else a.size

def totalSize (counted : Bool) (areas : List VMUserArea) : ℕ :=
  (areas.map (VMUserArea.weight counted)).sum

lemma isReserved_place : (new.place base size).kind.isReserved = new.isReserved := by
  cases new <;> rfl

lemma reservedCount_of_all (h : ∀ a ∈ xs, a.kind.isReserved = true) :
    reservedCount xs = xs.length :=
  List.countP_eq_length.2 h

lemma totalSize_of_all (h : ∀ a ∈ xs, a.kind.isReserved = true) : totalSize false xs = 0 := by
  apply List.sum_eq_zero
  intro n hn
  obtain ⟨a, ha, rfl⟩ := List.mem_map.1 hn
  rw [VMUserArea.weight, h a ha]
  rfl

section

variable (h : Placed areas areas' new size change)
include h

lemma Placed.reservedCount_eq :
    (reservedCount areas' : ℤ) = reservedCount areas + change + (if new.isReserved then 1 else 0) := by
  obtain ⟨xs, old, ys, left, right, base, rfl, rfl, hold, hleft, hright, hchange, -⟩ := h
  have hold' := reservedCount_of_all hold
  have hleft' := reservedCount_of_all hleft
  have hright' := reservedCount_of_all hright
  rw [reservedCount] at hold' hleft' hright'
  simp only [reservedCount, List.countP_append, List.countP_cons, isReserved_place, hold', hleft',
    hright', hchange]
  split <;> push_cast <;> omega

lemma Placed.none_reserved (hnew : new.isReserved = false) (hnone : reservedCount areas = 0) :
    reservedCount areas' = 0 := by
  obtain ⟨xs, old, ys, left, right, base, rfl, rfl, hold, -, -, -, hnil⟩ := h
  have hold' := reservedCount_of_all hold
  rw [reservedCount] at hold' hnone
  rw [List.countP_append, List.countP_append, hold'] at hnone
  have hempty : old = [] := List.eq_nil_of_length_eq_zero (by omega)
  rw [(hnil hempty).1, (hnil hempty).2]
  simp only [reservedCount, List.countP_append, List.countP_cons, List.countP_nil, List.nil_append,
    isReserved_place, hnew, Bool.false_eq_true, if_false]
  omega

lemma Placed.totalSize_eq :
    totalSize false areas' = totalSize false areas + (if new.isReserved then 0 else size) := by
  obtain ⟨xs, old, ys, left, right, base, rfl, rfl, hold, hleft, hright, -⟩ := h
  have hold' := totalSize_of_all hold
  have hleft' := totalSize_of_all hleft
  have hright' := totalSize_of_all hright
  have hsize : (new.place base size).size = size := by cases new <;> rfl
  rw [totalSize] at hold' hleft' hright'
  simp only [totalSize, List.map_append, List.map_cons, List.sum_append, List.sum_cons, hold',
    hleft', hright', VMUserArea.weight, isReserved_place, Bool.not_false, Bool.and_true, hsize]
  omega

end

end Haiku.UserSpace
