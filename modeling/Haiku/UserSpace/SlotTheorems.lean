import Haiku.UserSpace.LayoutTheorems

/-!
# The searches of `_InsertAreaSlot()`

Each case of the search keeps the layout of the list, under a condition on the list and the request
that rules out the branches that go wrong.
-/

namespace Haiku.UserSpace

open AddressSpace (AddressSpec Restrictions pageSize roundDown reservedAvoidBase)

/-! ## What the searches rely on -/

/-- No hole of the list is short by exactly one byte: the area, aligned, does not end on the first
byte of the next area. -/
def NoTouch (b : Space) (size alignment : ℕ) : ℕ → List VMUserArea → Prop
  | _, [] => True
  | lo, next :: rest =>
    b.roundUp (lo % 2 ^ b.addressBits) alignment + (size - 1) ≠ next.base ∧
      NoTouch b size alignment (next.base + next.size) rest

/-- An area whose base is to be avoided is larger than what is taken from its end. -/
def NoEmpty (size alignment : ℕ) (areas : List VMUserArea) : Prop :=
  ∀ a ∈ areas, ∀ protection cacheOffset, a.kind = .reserved protection cacheOffset →
    protection &&& reservedAvoidBase ≠ 0 → size < a.size →
    roundDown (a.base + a.size - size) alignment ≠ a.base

variable {b : Space} {start size alignment lo : ℕ} {new : NewArea}
  {areas areas' before after : List VMUserArea} {last : VMUserArea}

lemma NoTouch.behind (h : NoTouch b size alignment lo (before ++ last :: after)) :
    NoTouch b size alignment (last.base + last.size) after := by
  induction before generalizing lo with
  | nil => exact h.2
  | cons a before ih => exact ih h.2

/-! ## Holes -/

lemma Space.spot_behind {limit : ℕ} (hpos : 0 < last.size)
    (hend : last.base + last.size ≤ 2 ^ b.addressBits) (hsize : 0 < size)
    (hsize' : size < 2 ^ b.addressBits) (halign : 0 < alignment)
    (halign' : alignment < 2 ^ b.addressBits)
    (h : b.isValidSpot (b.lastOf last) (b.roundUp (b.add last.base last.size) alignment) size limit =
      true) :
    last.base + last.size ≤ b.roundUp (b.add last.base last.size) alignment ∧
      b.roundUp (b.add last.base last.size) alignment + size ≤ limit + 1 := by
  obtain ⟨hle, hlimit, _⟩ := b.isValidSpot_iff hsize hsize' (b.roundUp_lt _ _) h
  rw [b.lastOf_eq hpos hend] at hle
  refine ⟨b.le_roundUp hend halign halign' ?_, hlimit⟩
  have : last.base + last.size - 1 ≤ b.roundUp ((last.base + last.size) % 2 ^ b.addressBits)
      alignment := hle
  omega

lemma anyHole_laid (hpos : 0 < last.size)
    (h : Laid (last.base + last.size) areas (b.endAddress + 1)) (hsize : 0 < size)
    (hsize' : size < 2 ^ b.addressBits) (halign : 0 < alignment)
    (halign' : alignment < 2 ^ b.addressBits)
    (htouch : NoTouch b size alignment (last.base + last.size) areas)
    (hok : anyHole b size alignment b.endAddress new last areas = some areas') :
    Laid (last.base + last.size) areas' (b.endAddress + 1) := by
  induction areas generalizing last areas' with
  | nil =>
    have hend := h.le
    have hmax := b.end_le
    rw [anyHole] at hok
    split at hok
    next hvalid =>
      cases hok
      obtain ⟨hbase, hlimit⟩ := b.spot_behind hpos (by omega) hsize hsize' halign halign' hvalid
      refine ⟨by simpa using hbase, by simpa using hsize, ?_⟩
      show _ ≤ _
      simpa using hlimit
    next => cases hok
  | cons next rest ih =>
    obtain ⟨hlo, hpos', hrest⟩ := h
    have hend := hrest.le
    have hmax := b.end_le
    rw [anyHole] at hok
    split at hok
    next hvalid =>
      cases hok
      obtain ⟨hbase, hlimit⟩ := b.spot_behind hpos (by omega) hsize hsize' halign halign' hvalid
      have hne :
          b.roundUp (b.add last.base last.size) alignment + (size - 1) ≠ next.base := htouch.1
      refine ⟨by simpa using hbase, by simpa using hsize, ?_⟩
      refine ⟨?_, hpos', hrest⟩
      simp only [NewArea.base_place, NewArea.size_place]
      omega
    next =>
      obtain ⟨rest', hrest', rfl⟩ := Option.map_eq_some_iff.1 hok
      exact ⟨hlo, hpos', ih hpos' hrest htouch.2 hrest'⟩

lemma Space.base_spot {limit : ℕ} (hpos : 0 < last.size) (hsize : 0 < size)
    (hlimit : limit ≤ b.endAddress + 1) (hfit : last.base + last.size + size ≤ limit)
    (hstart : start + size ≤ limit) :
    last.base + last.size ≤ (if b.lastOf last < start then start else b.add (b.lastOf last) 1) ∧
      (if b.lastOf last < start then start else b.add (b.lastOf last) 1) + size ≤ limit := by
  have hmax := b.end_le
  rw [b.lastOf_eq hpos (by omega)]
  split
  · omega
  · rw [b.add_of_lt (by omega)]
    omega

lemma baseHole_laid (hpos : 0 < last.size)
    (h : Laid (last.base + last.size) areas (b.endAddress + 1)) (hsize : 0 < size)
    (hstart : start + size ≤ b.endAddress + 1)
    (hnext : ∀ next ∈ areas.head?, start + size ≤ next.base)
    (hok : baseHole b start size b.endAddress new last areas = some areas') :
    Laid (last.base + last.size) areas' (b.endAddress + 1) := by
  induction areas generalizing last areas' with
  | nil =>
    have hend := h.le
    have hmax := b.end_le
    have hlast : b.lastOf last = last.base + last.size - 1 := b.lastOf_eq hpos (by omega)
    rw [baseHole] at hok
    split at hok
    next hvalid =>
      cases hok
      rw [b.sub_of_le (by omega) (by omega), hlast] at hvalid
      obtain ⟨hbase, hlimit⟩ := @Space.base_spot b start size last _ hpos hsize le_rfl (by omega) hstart
      refine ⟨by simpa using hbase, by simpa using hsize, ?_⟩
      show _ ≤ _
      simpa using hlimit
    next => cases hok
  | cons next rest ih =>
    obtain ⟨hlo, hpos', hrest⟩ := h
    have hend := hrest.le
    have hmax := b.end_le
    rw [baseHole] at hok
    split at hok
    next hvalid =>
      cases hok
      have hfit : last.base + last.size + size ≤ next.base := by
        rw [b.add_of_lt (by omega), b.sub_of_le hlo (by omega)] at hvalid
        omega
      obtain ⟨hbase, hlimit⟩ := @Space.base_spot b start size last _ hpos hsize (by omega) hfit
        (hnext next rfl)
      refine ⟨by simpa using hbase, by simpa using hsize, ?_⟩
      exact ⟨by simpa using hlimit, hpos', hrest⟩
    next =>
      obtain ⟨rest', hrest', rfl⟩ := Option.map_eq_some_iff.1 hok
      have hstart' := hnext next rfl
      refine ⟨hlo, hpos', ih hpos' hrest ?_ hrest'⟩
      intro next' hnext'
      have := (hrest.mem (List.mem_of_mem_head? hnext')).1
      omega

/-! ## Reserved areas -/

lemma anyReserved_laid (h : Laid lo areas (b.endAddress + 1)) (hsize : 0 < size)
    (hsize' : size < 2 ^ b.addressBits) (halign : 0 < alignment)
    (hempty : NoEmpty size alignment areas)
    (hok : anyReserved b size alignment new areas = some areas') :
    Laid lo areas' (b.endAddress + 1) := by
  induction areas generalizing lo areas' with
  | nil => cases hok
  | cons next rest ih =>
    obtain ⟨hlo, hpos, hrest⟩ := h
    have hend := hrest.le
    have hmax := b.end_le
    have hlater : ∀ rest', anyReserved b size alignment new rest = some rest' →
        Laid lo (next :: rest') (b.endAddress + 1) := fun rest' hok' =>
      ⟨hlo, hpos, ih hrest (fun a ha => hempty a (List.mem_cons_of_mem _ ha)) hok'⟩
    rw [anyReserved] at hok
    split at hok
    next =>
      obtain ⟨rest', hrest', rfl⟩ := Option.map_eq_some_iff.1 hok
      exact hlater rest' hrest'
    next protection cacheOffset hkind =>
      dsimp only at hok
      split at hok
      next hcovered =>
        -- the reserved area is replaced
        cases hok
        have hbase := hcovered.1
        refine ⟨by simp only [NewArea.base_place]; omega, by simpa using hsize, ?_⟩
        exact hrest.mono (by simp only [NewArea.base_place, NewArea.size_place]; omega)
      next hcovered =>
        split at hok
        next hfront =>
          -- the new area takes its beginning
          cases hok
          have hbase := hfront.2.1
          have hle := hfront.2.2
          have hne : next.size ≠ size := fun heq => hcovered ⟨hbase.symm, heq⟩
          have hadd : b.add next.base size = next.base + size := b.add_of_lt (by omega)
          have hsub : b.sub next.size size = next.size - size := b.sub_of_le hle (by omega)
          refine ⟨by simp only [NewArea.base_place]; omega, by simpa using hsize, ?_⟩
          simp only [NewArea.base_place, NewArea.size_place, hadd, hsub]
          exact ⟨by simp only; omega, by simp only; omega, hrest.mono (by simp only; omega)⟩
        next hfront =>
          split at hok
          next hvalid =>
            -- the new area takes its end
            cases hok
            obtain ⟨hbase, hlimit, _⟩ := b.isValidSpot_iff hsize hsize' (b.roundUp_lt _ _) hvalid
            rw [b.lastOf_eq hpos (by omega)] at hlimit
            have hfrom : b.sub (b.add next.base next.size) size = next.base + next.size - size :=
              b.sub_add (by omega) (by omega) hsize
            have hup : b.roundUp next.base alignment ≤
                roundDown (next.base + next.size - size) alignment :=
              le_roundDown halign (by rw [Space.roundUp] at hlimit; omega)
            have hdown := roundDown_le (next.base + next.size - size) alignment
            have hleft : roundDown (next.base + next.size - size) alignment ≠ next.base := by
              intro heq
              have haligned : b.roundUp next.base alignment = next.base := by omega
              have hne : next.size ≠ size := fun heq' => hcovered ⟨haligned.symm, heq'⟩
              have havoid : protection &&& reservedAvoidBase ≠ 0 := fun hzero =>
                hfront ⟨hzero, haligned, by omega⟩
              exact hempty next (List.mem_cons_self ..) protection cacheOffset hkind havoid
                (by omega) heq
            rw [hfrom]
            have hsub : b.sub (roundDown (next.base + next.size - size) alignment) next.base =
                roundDown (next.base + next.size - size) alignment - next.base :=
              b.sub_of_le (by omega) (by omega)
            simp only [hsub]
            refine ⟨hlo, by simp only; omega, ?_⟩
            refine ⟨by simp only [NewArea.base_place]; omega, by simpa using hsize, ?_⟩
            exact hrest.mono (by simp only [NewArea.base_place, NewArea.size_place]; omega)
          next =>
            obtain ⟨rest', hrest', rfl⟩ := Option.map_eq_some_iff.1 hok
            exact hlater rest' hrest'

/-! ## Slots -/

lemma upTo_append_behind (b : Space) (start size : ℕ) (areas : List VMUserArea) :
    upTo b start size areas ++ behind b start size areas = areas :=
  List.takeWhile_append_dropWhile

lemma behind_head {next : VMUserArea} (h : next ∈ (behind b start size areas).head?) :
    b.add start (b.sub size 1) < next.base := by
  have hnot := List.head?_dropWhile_not
    (fun next : VMUserArea => !decide (next.base > b.add start (b.sub size 1))) areas
  rw [behind] at h
  rw [h] at hnot
  simpa using hnot

section

variable (h : Laid b.base areas (b.endAddress + 1))
include h

lemma anySlot_laid (hsize : 0 < size) (hsize' : size < 2 ^ b.addressBits) (halign : 0 < alignment)
    (halign' : alignment < 2 ^ b.addressBits) (htouch : NoTouch b size alignment b.base areas)
    (hok : anySlot b start size alignment b.endAddress new areas = some (some areas')) :
    Laid b.base areas' (b.endAddress + 1) := by
  have happend := upTo_append_behind b start size areas
  have hbase : b.base % 2 ^ b.addressBits = b.base := by
    have hle := b.base_le
    have hlt := b.end_lt
    exact Nat.mod_eq_of_lt (by omega)
  simp only [anySlot] at hok
  split at hok
  next last hlast =>
    obtain ⟨before, hbefore⟩ := List.getLast?_eq_some_iff.1 hlast
    obtain ⟨rest, hrest, rfl⟩ := Option.map_eq_some_iff.1 (Option.some.inj hok)
    rw [hbefore, List.append_assoc, List.singleton_append] at happend
    rw [← happend] at h htouch
    obtain ⟨_, hpos, hbehind⟩ := laid_append_cons.1 h
    rw [hbefore, List.append_assoc, List.singleton_append]
    exact h.replace (anyHole_laid hpos hbehind hsize hsize' halign halign' htouch.behind hrest)
  next hlast =>
    have hnil : upTo b start size areas = [] := List.getLast?_eq_none_iff.1 hlast
    rw [hnil, List.nil_append] at happend
    rw [happend] at hok
    cases areas with
    | nil =>
      dsimp only at hok
      split at hok
      next hvalid =>
        cases hok
        obtain ⟨hle, hlimit, _⟩ := b.isValidSpot_iff hsize hsize' (b.roundUp_lt _ _) hvalid
        refine ⟨by simpa using hle, by simpa using hsize, ?_⟩
        show _ ≤ _
        simpa using hlimit
      next => cases hok
    | cons next rest =>
      dsimp only at hok
      split at hok
      next hvalid =>
        -- at the beginning of the address space
        cases hok
        obtain ⟨hle, hlimit, _⟩ := b.isValidSpot_iff hsize hsize' (b.roundUp_lt _ _) hvalid
        have hne : b.roundUp b.base alignment + (size - 1) ≠ next.base := by
          have := htouch.1
          rwa [hbase] at this
        refine ⟨by simpa using hle, by simpa using hsize, ?_⟩
        refine ⟨?_, h.2⟩
        simp only [NewArea.base_place, NewArea.size_place]
        omega
      next =>
        obtain ⟨rest', hrest', rfl⟩ := Option.map_eq_some_iff.1 (Option.some.inj hok)
        exact ⟨h.1, h.2.1, anyHole_laid h.2.1 h.2.2 hsize hsize' halign halign' htouch.2 hrest'⟩

lemma baseSlot_laid (hsize : 0 < size) (hsize' : size < 2 ^ b.addressBits) (hbase : b.base ≤ start)
    (hstart : start + size ≤ b.endAddress + 1)
    (hok : baseSlot b start size b.endAddress new areas = some (some areas')) :
    Laid b.base areas' (b.endAddress + 1) := by
  have happend := upTo_append_behind b start size areas
  have hmax := b.end_le
  have hend : b.add start (b.sub size 1) = start + (size - 1) :=
    b.last_eq hsize hsize' (by omega)
  have hnext : ∀ next ∈ (behind b start size areas).head?, start + size ≤ next.base := by
    intro next hmem
    have hlt := behind_head hmem
    rw [hend] at hlt
    omega
  simp only [baseSlot] at hok
  split at hok
  next last hlast =>
    obtain ⟨before, hbefore⟩ := List.getLast?_eq_some_iff.1 hlast
    obtain ⟨rest, hrest, rfl⟩ := Option.map_eq_some_iff.1 (Option.some.inj hok)
    rw [hbefore, List.append_assoc, List.singleton_append] at happend
    rw [← happend] at h
    obtain ⟨_, hpos, hbehind⟩ := laid_append_cons.1 h
    rw [hbefore, List.append_assoc, List.singleton_append]
    exact h.replace (baseHole_laid hpos hbehind hsize hstart hnext hrest)
  next hlast =>
    have hnil : upTo b start size areas = [] := List.getLast?_eq_none_iff.1 hlast
    rw [hnil, List.nil_append] at happend
    rw [happend] at hok hnext
    split at hok
    next =>
      cases hok
      refine ⟨by simpa using hbase, by simpa using hsize, ?_⟩
      cases areas with
      | nil =>
        show _ ≤ _
        simpa using hstart
      | cons next rest => exact ⟨by simpa using hnext next rfl, h.2⟩
    next =>
      cases areas with
      | nil => cases hok
      | cons last rest =>
        obtain ⟨rest', hrest', rfl⟩ := Option.map_eq_some_iff.1 (Option.some.inj hok)
        have hafter := hnext last rfl
        refine ⟨h.1, h.2.1, baseHole_laid h.2.1 h.2.2 hsize hstart ?_ hrest'⟩
        intro next' hnext'
        have := (h.2.2.mem (List.mem_of_mem_head? hnext')).1
        omega

lemma exactSlot_laid (hsize : 0 < size) (hsize' : size < 2 ^ b.addressBits) (hbase : b.base ≤ start)
    (hstart : start + size ≤ b.endAddress + 1)
    (hok : exactSlot b start size new areas = some areas') :
    Laid b.base areas' (b.endAddress + 1) := by
  have happend := upTo_append_behind b start size areas
  have hmax := b.end_le
  have hend : b.add start (b.sub size 1) = start + (size - 1) :=
    b.last_eq hsize hsize' (by omega)
  simp only [exactSlot] at hok
  split at hok
  next hfree =>
    cases hok
    rw [Bool.and_eq_true] at hfree
    -- the areas behind the new one
    have hafter : ∀ lo, Laid lo (behind b start size areas) (b.endAddress + 1) →
        Laid (start + size) (behind b start size areas) (b.endAddress + 1) := by
      intro lo hlaid
      cases hbehind : behind b start size areas with
      | nil => exact hstart
      | cons next rest =>
        have hlt : b.add start (b.sub size 1) < next.base := behind_head (by rw [hbehind]; rfl)
        rw [hend] at hlt
        rw [hbehind] at hlaid
        exact ⟨by omega, hlaid.2⟩
    refine laid_append_cons.2 ⟨?_, by simpa using hsize, ?_⟩
    · simp only [NewArea.base_place]
      cases hlast : (upTo b start size areas).getLast? with
      | none =>
        rw [List.getLast?_eq_none_iff.1 hlast]
        exact hbase
      | some last =>
        obtain ⟨before, hbefore⟩ := List.getLast?_eq_some_iff.1 hlast
        rw [hbefore, List.append_assoc, List.singleton_append] at happend
        rw [← happend] at h
        obtain ⟨hlaid, hpos, hbehind⟩ := laid_append_cons.1 h
        have hle := hbehind.le
        have hlt : b.lastOf last < start := by
          have := hfree.1
          rw [hlast] at this
          simpa using this
        rw [b.lastOf_eq hpos (by omega)] at hlt
        rw [hbefore]
        refine laid_append_cons.2 ⟨hlaid, hpos, ?_⟩
        show last.base + last.size ≤ start
        omega
    · simp only [NewArea.base_place, NewArea.size_place]
      cases hlast : (upTo b start size areas).getLast? with
      | none =>
        rw [List.getLast?_eq_none_iff.1 hlast, List.nil_append] at happend
        exact hafter b.base (by rw [happend]; exact h)
      | some last =>
        obtain ⟨before, hbefore⟩ := List.getLast?_eq_some_iff.1 hlast
        rw [hbefore, List.append_assoc, List.singleton_append] at happend
        rw [← happend] at h
        exact hafter _ (laid_append_cons.1 h).2.2
  next => cases hok

end

end Haiku.UserSpace
