import Haiku.UserSpace.SlotTheorems

/-!
# The areas of a user address space do not overlap

What the operations rely on without checking it, and the layout of the list in every run of
operations that keep to it.
-/

namespace Haiku.UserSpace

open Lib
open AddressSpace (AddressSpec Restrictions pageSize roundDown reservedAvoidBase)

/-! ## Inserting -/

/-- The range, rounded up to the alignment, lies in the address space. -/
def InRange (b : Space) (address size alignment : ℕ) : Prop :=
  b.base ≤ b.roundUp address alignment ∧ b.roundUp address alignment + size ≤ b.endAddress + 1

/-- The first-fit search of the list meets no branch that goes wrong. -/
def AnyOk (b : Space) (areas : List VMUserArea) (new : NewArea) (size alignment : ℕ) : Prop :=
  NoTouch b size alignment b.base areas ∧ (new.isReserved = false → NoEmpty size alignment areas)

/-- What an insertion relies on: requests at an address that pass the sanity checks do not wrap
around and are still in the address space after they have been aligned, and searches find no hole
that is short by exactly one byte and no reserved area that they would shrink to nothing. -/
def RequestOk (b : Space) (areas : List VMUserArea) (new : NewArea) (size : ℕ)
    (restrictions : Restrictions) : Prop :=
  ∀ alignment, slotAlignment b restrictions.spec restrictions.alignment size = some alignment →
    match restrictions.spec with
    | .exact => b.sane restrictions.address size (b.add restrictions.address (b.sub size 1)) = true →
        restrictions.address + size ≤ 2 ^ b.addressBits ∧
          InRange b restrictions.address size alignment
    | .base => (b.sane restrictions.address size b.endAddress = true →
        InRange b restrictions.address size alignment) ∧ AnyOk b areas new size alignment
    | _ => AnyOk b areas new size alignment

variable {b : Space} {start size alignment lo : ℕ} {new : NewArea} {restrictions : Restrictions}
  {memory : Bool} {areas areas' : List VMUserArea} {refs : ℤ} {s s' : State} {status : Status}

variable {a : ℕ}

lemma blockAlignment_bounds {rounds : ℕ} (hsize : 0 < size) (ha : a < 2 ^ b.addressBits)
    (h : blockAlignment b size rounds a = some alignment) :
    0 < alignment ∧ alignment < 2 ^ b.addressBits := by
  induction rounds generalizing a with
  | zero =>
    rw [blockAlignment] at h
    split at h
    next => cases h
    next hge =>
      cases h
      omega
  | succ rounds ih =>
    rw [blockAlignment] at h
    split at h
    next => exact ih (b.lt_of_mod _) h
    next hge =>
      cases h
      omega

variable {spec : AddressSpec}

lemma slotAlignment_bounds (hsize : 0 < size) (ha : a < 2 ^ b.addressBits)
    (h : slotAlignment b spec a size = some alignment) :
    0 < alignment ∧ alignment < 2 ^ b.addressBits := by
  have hpage := b.page_lt
  have hinit : 0 < (if a = 0 then pageSize else a) ∧
      (if a = 0 then pageSize else a) < 2 ^ b.addressBits := by
    split
    · exact ⟨by decide, hpage⟩
    · omega
  simp only [slotAlignment] at h
  generalize (if a = 0 then pageSize else a) = a' at h hinit
  split at h
  · exact blockAlignment_bounds hsize hinit.2 h
  · cases h
    exact hinit

lemma findAny_laid (h : Laid b.base areas (b.endAddress + 1)) (hsize : 0 < size)
    (hsize' : size < 2 ^ b.addressBits) (halign : 0 < alignment)
    (halign' : alignment < 2 ^ b.addressBits) (hany : AnyOk b areas new size alignment)
    (hok : findAny b start size alignment b.endAddress new areas = some (.ok areas')) :
    Laid b.base areas' (b.endAddress + 1) := by
  obtain ⟨hole, hhole, hok⟩ := Option.map_eq_some_iff.1 hok
  match hole with
  | some found =>
    cases hok
    exact anySlot_laid h hsize hsize' halign halign' hany.1 hhole
  | none =>
    dsimp only at hok
    split at hok
    next found hfound =>
      cases hok
      split at hfound
      next => cases hfound
      next hreal =>
        exact anyReserved_laid h hsize hsize' halign (hany.2 (by simpa using hreal)) hfound
    next => cases hok

/-- What the search relies on, after the start has been aligned. -/
def SlotOk (b : Space) (areas : List VMUserArea) (new : NewArea) (start size alignment : ℕ) :
    AddressSpec → Prop
  | .exact => b.base ≤ start ∧ start + size ≤ b.endAddress + 1
  | .base => (b.base ≤ start ∧ start + size ≤ b.endAddress + 1) ∧ AnyOk b areas new size alignment
  | _ => AnyOk b areas new size alignment

variable {limit : ℕ}

lemma findSlot_laid (h : Laid b.base areas (b.endAddress + 1)) (hsize : 0 < size)
    (hsize' : size < 2 ^ b.addressBits) (halign : 0 < alignment)
    (halign' : alignment < 2 ^ b.addressBits)
    (hslot : SlotOk b areas new start size alignment spec)
    (hlimit : spec ≠ .exact → limit = b.endAddress)
    (hok : findSlot b start size alignment limit spec new areas = some (.ok areas')) :
    Laid b.base areas' (b.endAddress + 1) := by
  cases spec with
  | any =>
    rw [hlimit (by decide)] at hok
    exact findAny_laid h hsize hsize' halign halign' hslot hok
  | anyKernel =>
    rw [hlimit (by decide)] at hok
    exact findAny_laid h hsize hsize' halign halign' hslot hok
  | anyKernelBlock =>
    rw [hlimit (by decide)] at hok
    exact findAny_laid h hsize hsize' halign halign' hslot hok
  | base =>
    rw [hlimit (by decide)] at hok
    obtain ⟨⟨hbase, hend⟩, hany⟩ := hslot
    obtain ⟨hole, hhole, hok⟩ := Option.bind_eq_some_iff.1 hok
    match hole with
    | some found =>
      cases hok
      exact baseSlot_laid h hsize hsize' hbase hend hhole
    | none => exact findAny_laid h hsize hsize' halign halign' hany hok
  | exact =>
    obtain ⟨hbase, hend⟩ := hslot
    rw [findSlot] at hok
    split at hok
    next found hfound =>
      cases hok
      exact exactSlot_laid h hsize hsize' hbase hend hfound
    next => cases hok
  | other => cases hok

lemma insertAreaSlot_laid (h : Laid b.base areas (b.endAddress + 1)) (hsize : 0 < size)
    (hsize' : size < 2 ^ b.addressBits) (ha : a < 2 ^ b.addressBits)
    (hlimit : spec ≠ .exact → limit = b.endAddress)
    (hwrap : spec = .exact → b.sane start size limit = true → start + size ≤ 2 ^ b.addressBits)
    (hslot : ∀ alignment, slotAlignment b spec a size = some alignment →
      b.sane start size limit = true →
      SlotOk b areas new (b.roundUp start alignment) size alignment spec)
    (hok : insertAreaSlot b start size limit spec a new memory areas = some (.ok (areas', refs))) :
    Laid b.base areas' (b.endAddress + 1) := by
  rw [insertAreaSlot] at hok
  split at hok
  next => cases hok
  next hsane =>
    have hsane : b.sane start size limit = true := by simpa using hsane
    split at hok
    next r hr =>
      cases hok
      split at hr
      next hexact =>
        exact insertAreaIntoReservedRegion_laid h hsize hsize' (hwrap hexact.1 hsane) hr
      next => cases hr
    next => cases hok
    next =>
      obtain ⟨alignment, halign, hok⟩ := Option.bind_eq_some_iff.1 hok
      obtain ⟨found, hfound, hok⟩ := Option.map_eq_some_iff.1 hok
      obtain ⟨hpos, hlt⟩ := slotAlignment_bounds hsize ha halign
      split at hok
      next found =>
        cases hok
        exact findSlot_laid h hsize hsize' hpos hlt (hslot alignment halign hsane) hlimit hfound
      next => cases hok

lemma RequestOk.slotOk (hreq : RequestOk b areas new size restrictions)
    (hrange : searchRange b size restrictions = some (start, limit)) :
    (restrictions.spec ≠ .exact → limit = b.endAddress) ∧
    (restrictions.spec = .exact → b.sane start size limit = true →
      start + size ≤ 2 ^ b.addressBits) ∧
    ∀ alignment, slotAlignment b restrictions.spec restrictions.alignment size = some alignment →
      b.sane start size limit = true →
      SlotOk b areas new (b.roundUp start alignment) size alignment restrictions.spec := by
  obtain ⟨address, spec, a⟩ := restrictions
  have halign :
    spec ≠ .anyKernelBlock → ∃ alignment, slotAlignment b spec a size = some alignment := by
    intro hne
    cases spec <;> first | exact ⟨_, rfl⟩ | exact absurd rfl hne
  cases spec with
  | exact =>
    cases hrange
    refine ⟨fun hne => absurd rfl hne, fun _ hsane => ?_, fun alignment hal hsane => ?_⟩
    · obtain ⟨alignment, hal⟩ := halign (by decide)
      exact (hreq alignment hal hsane).1
    · exact (hreq alignment hal hsane).2
  | base =>
    cases hrange
    refine ⟨fun _ => rfl, fun heq => (by cases heq), fun alignment hal hsane => ?_⟩
    exact ⟨(hreq alignment hal).1 hsane, (hreq alignment hal).2⟩
  | any =>
    cases hrange
    exact ⟨fun _ => rfl, fun heq => (by cases heq), fun alignment hal _ => hreq alignment hal⟩
  | anyKernel =>
    cases hrange
    exact ⟨fun _ => rfl, fun heq => (by cases heq), fun alignment hal _ => hreq alignment hal⟩
  | anyKernelBlock =>
    cases hrange
    exact ⟨fun _ => rfl, fun heq => (by cases heq), fun alignment hal _ => hreq alignment hal⟩
  | other => cases hrange

lemma insertArea_laid (h : Laid b.base s.areas (b.endAddress + 1)) (hsize : 0 < size)
    (hsize' : size < 2 ^ b.addressBits) (ha : restrictions.alignment < 2 ^ b.addressBits)
    (hreq : RequestOk b s.areas new size restrictions)
    (hok : insertArea b s new size restrictions memory = some (s', status)) :
    Laid b.base s'.areas (b.endAddress + 1) := by
  rw [insertArea] at hok
  split at hok
  next =>
    cases hok
    exact h
  next start limit hrange =>
    obtain ⟨hlimit, hwrap, hslot⟩ := hreq.slotOk hrange
    obtain ⟨r, hr, hok⟩ := Option.map_eq_some_iff.1 hok
    match r with
    | .error _ =>
      cases hok
      exact h
    | .ok (found, refs) =>
      cases hok
      exact insertAreaSlot_laid h hsize hsize' ha hlimit hwrap hslot hr

/-! ## Resizing -/

lemma locate_spec {name : ℕ} {before after : List VMUserArea} {a : VMUserArea}
    (h : locate name areas = some (before, a, after)) :
    areas = before ++ a :: after ∧ a.kind = .area name := by
  induction areas generalizing before with
  | nil => cases h
  | cons x rest ih =>
    rw [locate] at h
    split at h
    next hx =>
      cases h
      exact ⟨rfl, hx⟩
    next =>
      obtain ⟨⟨before', r⟩, hr, heq⟩ := Option.map_eq_some_iff.1 h
      cases heq
      obtain ⟨hareas, hkind⟩ := ih hr
      exact ⟨by rw [hareas]; rfl, hkind⟩

lemma locate_bind {name : ℕ} {p : Prop} [Decidable p] {r : State × Status}
    {f : List VMUserArea × VMUserArea × List VMUserArea → Option (State × Status)}
    (h : ((locate name areas).bind fun x => if p then f x else none) = some r) :
    ∃ before a after, areas = before ++ a :: after ∧ a.kind = .area name ∧ p ∧
      f (before, a, after) = some r := by
  obtain ⟨⟨before, a, after⟩, hloc, hif⟩ := Option.bind_eq_some_iff.1 h
  obtain ⟨hareas, hkind⟩ := locate_spec hloc
  exact ⟨before, a, after, hareas, hkind, Option.ite_none_right_eq_some.1 hif⟩

lemma resizeArea_laid {a : VMUserArea} {rest rest' : List VMUserArea} {newSize : ℕ}
    (hpos : 0 < a.size) (h : Laid (a.base + a.size) rest (b.endAddress + 1)) (hnew : 0 < newSize)
    (hnew' : newSize < 2 ^ b.addressBits) (hwrap : a.base + newSize ≤ 2 ^ b.addressBits)
    (hcan : canResizeArea b a rest.head? newSize = some true)
    (hok : resizeArea b a newSize rest = .ok rest') :
    Laid a.base rest' (b.endAddress + 1) := by
  have hend : b.add a.base (b.sub newSize 1) = a.base + (newSize - 1) :=
    b.last_eq hnew hnew' hwrap
  have hmax := b.end_le
  cases rest with
  | nil =>
    cases hok
    simp only [canResizeArea, List.head?_nil, hend] at hcan
    split at hcan
    next hle =>
      refine ⟨le_rfl, hnew, ?_⟩
      show a.base + newSize ≤ b.endAddress + 1
      omega
    next => cases hcan
  | cons next rest =>
    obtain ⟨hlo, hpos', hrest⟩ := h
    have hle := hrest.le
    simp only [resizeArea, hend] at hok
    split at hok
    next hreach =>
      split at hok
      next => cases hok
      next protection cacheOffset hkind =>
        split at hok
        next => cases hok
        next hinside =>
          -- part of the reserved area behind it is taken
          rw [b.lastOf_eq hpos' (by omega)] at hinside
          have hoffset : b.sub (b.add a.base newSize) next.base = a.base + newSize - next.base :=
            b.sub_add hwrap (by omega) (by omega)
          rw [hoffset] at hok
          split at hok
          next =>
            cases hok
            exact ⟨le_rfl, hnew, hrest.mono (by simp only; omega)⟩
          next hleft =>
            cases hok
            have hsize : b.sub next.size (a.base + newSize - next.base) =
                next.size - (a.base + newSize - next.base) := b.sub_of_le (by omega) (by omega)
            have hbase : b.sub (b.add next.base next.size)
                (next.size - (a.base + newSize - next.base)) = a.base + newSize := by
              rw [b.sub_add (by omega) (by omega) (by omega)]
              omega
            have hne : ¬next.size - (a.base + newSize - next.base) = next.size := by omega
            rw [hsize, shrinkAreaHead, if_neg hne, hbase]
            refine ⟨le_rfl, hnew, le_rfl, by simp only; omega, ?_⟩
            exact hrest.mono (by simp only; omega)
    next =>
      cases hok
      exact ⟨le_rfl, hnew, by simp only; omega, hpos', hrest⟩

/-! ## Unreserving -/

lemma unreserveLoop_sublist (b : Space) (address endAddress : ℕ) (areas : List VMUserArea) :
    (unreserveLoop b address endAddress areas).1.Sublist areas := by
  induction areas with
  | nil => exact List.Sublist.refl _
  | cons a rest ih =>
    rw [unreserveLoop]
    split
    · exact List.Sublist.refl _
    · dsimp only
      split
      · exact ih.cons a
      · exact ih.cons_cons a

/-! ## Runs -/

/-- Areas are resized after `CanResizeArea()` allowed it. -/
def Allowed (b : Space) (s : State) : Call → Prop
  | .resizeArea name newSize => ∀ r, locate name s.areas = some r →
    canResizeArea b r.2.1 r.2.2.head? newSize = some true
  | _ => True

def Safe (b : Space) (s : State) : Call → Prop
  | .insertArea name size restrictions _ => RequestOk b s.areas (.area name) size restrictions
  | .reserveAddressRange size restrictions flags _ =>
    RequestOk b s.areas (.reserved flags) size restrictions
  | .resizeArea name newSize => 0 < newSize ∧
    ∀ a ∈ s.areas, a.kind = .area name → a.base + newSize ≤ 2 ^ b.addressBits
  | .shrinkAreaHead name size | .shrinkAreaTail name size => 0 < size ∧
    ∀ a ∈ s.areas, a.kind = .area name → size ≤ a.size
  | _ => True

lemma exec_laid {c : Call} (h : Laid b.base s.areas (b.endAddress + 1))
    (hallowed : Allowed b s c) (hsafe : Safe b s c)
    (hok : exec b s c = some (s', status)) : Laid b.base s'.areas (b.endAddress + 1) := by
  have hmax := b.end_le
  cases c with
  | insertArea name size restrictions memory =>
    obtain ⟨hcond, hok⟩ := Option.ite_none_right_eq_some.1 hok
    exact insertArea_laid h hcond.2.1 hcond.2.2.1 hcond.2.2.2.2 hsafe hok
  | removeArea name =>
    obtain ⟨⟨before, a, after⟩, hloc, hok⟩ := Option.map_eq_some_iff.1 hok
    cases hok
    obtain ⟨hareas, _⟩ := locate_spec hloc
    rw [hareas] at h
    exact h.sublist ((List.sublist_cons_self a after).append_left before)
  | resizeArea name newSize =>
    obtain ⟨⟨before, a, after⟩, hloc, hok⟩ := Option.bind_eq_some_iff.1 hok
    obtain ⟨hcond, hok⟩ := Option.ite_none_right_eq_some.1 hok
    obtain ⟨hareas, hkind⟩ := locate_spec hloc
    obtain ⟨hnew, hwrap⟩ := hsafe
    have hwrap' := hwrap a (by rw [hareas]; simp) hkind
    split at hok
    next rest hrest =>
      cases hok
      rw [hareas] at h
      obtain ⟨hbefore, hpos, hafter⟩ := laid_append_cons.1 h
      exact hbefore.append (resizeArea_laid hpos hafter hnew hcond hwrap' (hallowed _ hloc) hrest)
    next =>
      cases hok
      exact h
  | shrinkAreaHead name size =>
    obtain ⟨before, a, after, hareas, hkind, hcond, hok⟩ := locate_bind hok
    cases hok
    obtain ⟨hnew, hle⟩ := hsafe
    have hle' := hle a (by rw [hareas]; simp) hkind
    rw [hareas] at h
    obtain ⟨hbefore, hpos, hafter⟩ := laid_append_cons.1 h
    have hend := hafter.le
    show Laid b.base (before ++ shrinkAreaHead b a size :: after) (b.endAddress + 1)
    rw [shrinkAreaHead]
    split
    · exact h
    · have hbase : b.sub (b.add a.base a.size) size = a.base + a.size - size :=
        b.sub_add (by omega) (by omega) hnew
      rw [hbase]
      refine hbefore.append ⟨by simp only; omega, hnew, hafter.mono (by simp only; omega)⟩
  | shrinkAreaTail name size =>
    obtain ⟨before, a, after, hareas, hkind, hcond, hok⟩ := locate_bind hok
    cases hok
    obtain ⟨hnew, hle⟩ := hsafe
    have hle' := hle a (by rw [hareas]; simp) hkind
    rw [hareas] at h
    obtain ⟨hbefore, hpos, hafter⟩ := laid_append_cons.1 h
    show Laid b.base (before ++ shrinkAreaTail a size :: after) (b.endAddress + 1)
    rw [shrinkAreaTail]
    split
    · exact h
    · exact hbefore.append ⟨le_rfl, hnew, hafter.mono (by simp only; omega)⟩
  | reserveAddressRange size restrictions flags memory =>
    obtain ⟨hcond, hok⟩ := Option.ite_none_right_eq_some.1 hok
    split at hok
    next =>
      cases hok
      exact h
    next =>
      split at hok
      next =>
        cases hok
        exact h
      next =>
        obtain ⟨⟨s₁, status₁⟩, hinsert, hok⟩ := Option.map_eq_some_iff.1 hok
        have hlaid := insertArea_laid h hcond.1 hcond.2.1 hcond.2.2.2 hsafe hinsert
        split at hok
        next =>
          cases hok
          exact hlaid
        next =>
          cases hok
          exact hlaid
  | unreserveAddressRange address size =>
    obtain ⟨hcond, hok⟩ := Option.ite_none_right_eq_some.1 hok
    split at hok
    next =>
      cases hok
      exact h
    next =>
      cases hok
      exact h.sublist (unreserveLoop_sublist b _ _ _)
  | unreserveAllAddressRanges =>
    cases hok
    exact h.sublist List.filter_sublist
  | markDeleting =>
    cases hok
    exact h

def VMUserArea.Contains (a : VMUserArea) (x : ℕ) : Prop := a.base ≤ x ∧ x < a.base + a.size

/-- The areas are sorted by base, not empty, in the address space, and do not overlap. -/
structure Layout (b : Space) (areas : List VMUserArea) : Prop where
  sorted : areas.Pairwise fun a a' => a.base < a'.base
  nonempty : ∀ a ∈ areas, 0 < a.size
  inside : ∀ a ∈ areas, b.base ≤ a.base ∧ a.base + (a.size - 1) ≤ b.endAddress
  apart : areas.Pairwise fun a a' => ∀ x, ¬(a.Contains x ∧ a'.Contains x)

lemma Laid.pairwise {hi : ℕ} (h : Laid lo areas hi) :
    areas.Pairwise fun a a' => a.base + a.size ≤ a'.base := by
  induction areas generalizing lo with
  | nil => exact List.Pairwise.nil
  | cons a rest ih =>
    exact List.pairwise_cons.2 ⟨fun a' ha' => (h.2.2.mem ha').1, ih h.2.2⟩

lemma Laid.layout (h : Laid b.base areas (b.endAddress + 1)) : Layout b areas where
  sorted := h.pairwise.imp_of_mem fun ha _ hle => by
    have := (h.mem ha).2.1
    omega
  nonempty := fun a ha => (h.mem ha).2.1
  inside := fun a ha => by
    have := h.mem ha
    omega
  apart := h.pairwise.imp fun hle x hx => by
    have := hx.1.2
    have := hx.2.1
    omega

lemma laid_init (b : Space) : Laid b.base (State.init b).areas (b.endAddress + 1) := by
  have hle := b.base_le
  show b.base ≤ b.endAddress + 1
  omega

/-- In every run whose calls keep to what the operations rely on, the areas do not overlap. -/
theorem user_areas_apart {hist : History State Call}
    (hr : Run (step b) (fun s c => Allowed b s c ∧ Safe b s c) (State.init b) hist s) :
    Layout b s.areas := by
  have hlaid : Laid b.base s.areas (b.endAddress + 1) :=
    hr.invariant (I := fun s => Laid b.base s.areas (b.endAddress + 1)) (laid_init b)
      fun h hcond hstep => by
        obtain ⟨⟨s', status⟩, hexec, rfl⟩ := Option.map_eq_some_iff.1 hstep
        exact exec_laid h hcond.1 hcond.2 hexec
  exact hlaid.layout

/-! ## A run -/

def teamSpace : Space where
  addressBits := 32
  base := 0
  endAddress := 0x7ffeffff
  userBase := 0
  userBaseAny := 0x100000
  page_lt := by decide
  base_le := by decide
  end_lt := by decide

def noTouchCheck (b : Space) (size alignment : ℕ) : ℕ → List VMUserArea → Bool
  | _, [] => true
  | lo, next :: rest =>
    decide (b.roundUp (lo % 2 ^ b.addressBits) alignment + (size - 1) ≠ next.base) &&
      noTouchCheck b size alignment (next.base + next.size) rest

lemma noTouch_of_check (h : noTouchCheck b size alignment lo areas = true) :
    NoTouch b size alignment lo areas := by
  induction areas generalizing lo with
  | nil => trivial
  | cons next rest ih =>
    rw [noTouchCheck, Bool.and_eq_true, decide_eq_true_eq] at h
    exact ⟨h.1, ih h.2⟩

/-- Whether a request is in order, by evaluation; no base of a reserved area is to be avoided. -/
def requestCheck (b : Space) (areas : List VMUserArea) (size : ℕ) (restrictions : Restrictions) :
    Bool :=
  (slotAlignment b restrictions.spec restrictions.alignment size).all fun alignment =>
    decide (restrictions.address + size ≤ 2 ^ b.addressBits) &&
    (decide (b.base ≤ b.roundUp restrictions.address alignment) &&
    decide (b.roundUp restrictions.address alignment + size ≤ b.endAddress + 1)) &&
    noTouchCheck b size alignment b.base areas &&
    areas.all fun a =>
      match a.kind with
      | .area _ => true
      | .reserved protection _ => protection &&& reservedAvoidBase = 0

lemma requestOk_of_check (h : requestCheck b areas size restrictions = true) :
    RequestOk b areas new size restrictions := by
  intro alignment halign
  rw [requestCheck, halign, Option.all_some, Bool.and_eq_true, Bool.and_eq_true, Bool.and_eq_true,
    Bool.and_eq_true, decide_eq_true_eq, decide_eq_true_eq, decide_eq_true_eq, List.all_eq_true] at h
  obtain ⟨⟨⟨hwrap, hrange⟩, htouch⟩, havoid⟩ := h
  have hany : AnyOk b areas new size alignment := by
    refine ⟨noTouch_of_check htouch, fun _ a ha protection cacheOffset hkind hne => ?_⟩
    have hzero := havoid a ha
    rw [hkind] at hzero
    exact absurd (of_decide_eq_true hzero) hne
  split
  · exact fun _ => ⟨hwrap, hrange⟩
  · exact ⟨fun _ => hrange, hany⟩
  · exact hany

def safeCheck (b : Space) (s : State) : Call → Bool
  | .insertArea _ size restrictions _ | .reserveAddressRange size restrictions _ _ =>
    requestCheck b s.areas size restrictions
  | .resizeArea name newSize => (locate name s.areas).all (fun r =>
      canResizeArea b r.2.1 r.2.2.head? newSize = some true) && decide (0 < newSize ∧
    ∀ a ∈ s.areas, a.kind = .area name → a.base + newSize ≤ 2 ^ b.addressBits)
  | .shrinkAreaHead name size | .shrinkAreaTail name size => decide (0 < size ∧
    ∀ a ∈ s.areas, a.kind = .area name → size ≤ a.size)
  | _ => true

lemma safe_of_check (b : Space) (s : State) (c : Call) (h : safeCheck b s c = true) :
    Allowed b s c ∧ Safe b s c := by
  cases c with
  | insertArea => exact ⟨trivial, requestOk_of_check h⟩
  | reserveAddressRange => exact ⟨trivial, requestOk_of_check h⟩
  | resizeArea =>
    rw [safeCheck, Bool.and_eq_true, decide_eq_true_eq] at h
    refine ⟨fun r hr => ?_, h.2⟩
    have hcan := h.1
    rw [hr, Option.all_some, decide_eq_true_eq] at hcan
    exact hcan
  | shrinkAreaHead =>
    rw [safeCheck, decide_eq_true_eq] at h
    exact ⟨trivial, h⟩
  | shrinkAreaTail =>
    rw [safeCheck, decide_eq_true_eq] at h
    exact ⟨trivial, h⟩
  | _ => exact ⟨trivial, trivial⟩

/-- Areas in a reserved range, behind it and in front of it, which are resized and shrunk. -/
def teamCalls : List Call :=
  [.reserveAddressRange 0x8000 ⟨0x200000, .exact, 0⟩ 0 true,
    .insertArea 0 0x2000 ⟨0x202000, .exact, 0⟩ true, .insertArea 1 0x1000 ⟨0x200000, .base, 0⟩ true,
    .insertArea 2 0x3000 ⟨0, .any, 0⟩ true, .resizeArea 0 0x3000, .shrinkAreaHead 2 0x2000,
    .shrinkAreaTail 2 0x1000, .unreserveAddressRange 0x200000 0x3000, .removeArea 1]

theorem user_areas_apart_team :
    let s := outcome (step teamSpace) (State.init teamSpace) teamCalls
    s.areas = [⟨0x1000, 0x1000, .area 2⟩, ⟨0x202000, 0x3000, .area 0⟩,
      ⟨0x205000, 0x3000, .reserved 0 0x200000⟩] ∧ Layout teamSpace s.areas := by
  refine ⟨by decide, ?_⟩
  obtain ⟨hist, hr, -⟩ := run_outcome (step teamSpace) (safe_of_check teamSpace)
    (State.init teamSpace) teamCalls (fun _ => true) (by decide)
  exact user_areas_apart hr

def isInsertion : Call → Bool
  | .insertArea .. => true
  | _ => false

lemma allowed_of_insert (b : Space) (s : State) (c : Call) (h : isInsertion c = true) :
    Allowed b s c := by
  cases c with
  | insertArea => trivial
  | _ => cases h

/-- A hole of `0x1000` bytes is taken for an area of `0x1001` bytes. -/
theorem user_areas_touch : ∃ hist s, Run (step teamSpace) (Allowed teamSpace) (State.init teamSpace)
    hist s ∧ ¬Layout teamSpace s.areas := by
  obtain ⟨hist, hr, -⟩ := run_outcome (step teamSpace) (allowed_of_insert teamSpace)
    (State.init teamSpace)
    [.insertArea 0 0x1000 ⟨0x100000, .exact, 0⟩ true,
      .insertArea 1 0x1000 ⟨0x102000, .exact, 0⟩ true,
      .insertArea 2 0x1001 ⟨0, .any, 0⟩ true] (fun _ => true) (by decide)
  refine ⟨hist, _, hr, fun hlayout => ?_⟩
  have hareas : (outcome (step teamSpace) (State.init teamSpace)
      [.insertArea 0 0x1000 ⟨0x100000, .exact, 0⟩ true,
        .insertArea 1 0x1000 ⟨0x102000, .exact, 0⟩ true,
        .insertArea 2 0x1001 ⟨0, .any, 0⟩ true]).areas =
      [⟨0x100000, 0x1000, .area 0⟩, ⟨0x101000, 0x1001, .area 2⟩, ⟨0x102000, 0x1000, .area 1⟩] := by
    decide
  have hapart := hlayout.apart
  rw [hareas] at hapart
  have hpair := List.rel_of_pairwise_cons (List.Pairwise.of_cons hapart) (List.mem_cons_self ..)
  exact hpair 0x102000 ⟨⟨by decide, by decide⟩, ⟨by decide, by decide⟩⟩

end Haiku.UserSpace
