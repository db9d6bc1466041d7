import Haiku.FileMapping.TranslateTheorems

/-!
# Runs

Whatever calls came before, a map caches what the file system reports for the file, as long as the code
can deal with the portions that are added, and with the changes of the size.
-/

namespace Haiku.FileMapping

open Lib

variable {s s' : State} {map : FileMap} {memory : Memory} {list cached : List FileIoVec}
  {portions : ℕ → Fin 8} {offset : ℤ} {size maxVecs align : ℕ}

lemma FileMap.Caches.of_eq (h : map.Caches list cached) (size : ℤ) (all : Bool) :
    FileMap.Caches { map with fSize := size, fCacheAll := all } list cached :=
  ⟨⟨h.holds.slot, h.holds.count, h.holds.room, h.holds.direct⟩, h.count, h.maps⟩

lemma FileMap.Caches.of_sameBelow {list' : List FileIoVec} (h : map.Caches list cached)
    (hlist : ∀ vec ∈ list', vec.Sound) (hsame : SameBelow list list' offset)
    (hle : total cached ≤ offset) : map.Caches list' cached := by
  have htotal := h.maps.le
  refine ⟨h.holds, h.count, h.maps.of_same hlist ?_⟩
  intro x hx hlt
  exact hsame x hx (by omega) (by omega)

namespace State

lemma Inv.setSize (h : s.Inv) {size : ℤ} (hallowed : Allowed s (.setSize size list))
    (hsafe : Safe s (.setSize size list)) : State.Inv ⟨s.map.setSize memory size, list⟩ := by
  obtain ⟨cached, hcaches⟩ := h.caches
  obtain ⟨hsize, hcovers, hsame⟩ := hallowed
  refine ⟨hcovers, hsize, ?_⟩
  unfold FileMap.setSize
  dsimp only
  by_cases hlt : size < s.map.fSize
  · obtain ⟨cached', hcaches', hle⟩ := @FileMap.Caches.invalidateAfter _ memory _ _ _ hcaches hsize
    rw [if_pos hlt]
    exact ⟨cached', (hcaches'.of_sameBelow hcovers.1 hsame hle).of_eq _ _⟩
  · have hbelow : SameBelow s.list list s.map.mapEnd := hsafe.resolve_left hlt
    rw [hcaches.holds.mapEnd_eq hcaches.count] at hbelow
    rw [if_neg hlt]
    exact ⟨cached, (hcaches.of_sameBelow hcovers.1 hbelow (le_refl _)).of_eq _ _⟩

lemma Inv.invalidate (h : s.Inv) {size : ℤ} (hallowed : Allowed s (.invalidate offset size list)) :
    State.Inv ⟨s.map.invalidate memory offset, list⟩ := by
  obtain ⟨cached, hcaches⟩ := h.caches
  obtain ⟨hoffset, hcovers, hsame⟩ := hallowed
  have hsize : (s.map.invalidate memory offset).fSize = s.map.fSize := by
    unfold FileMap.invalidate
    split_ifs
    · rfl
    · exact (FileMap.invalidateAfter_same _ memory offset).1
  obtain ⟨cached', hcaches', hle⟩ :=
    @FileMap.Caches.invalidate _ memory _ _ _ hcaches hoffset h.covers.1
  refine ⟨?_, ?_, cached', hcaches'.of_sameBelow hcovers.1 hsame hle⟩
  · show Covers list (s.map.invalidate memory offset).fSize
    rw [hsize]
    exact hcovers
  · show 0 ≤ (s.map.invalidate memory offset).fSize
    rw [hsize]
    exact h.size

lemma Inv.setMode (h : s.Inv) {mode : ℕ} (hsafe : Safe s (.setMode mode portions))
    {status : Status} {map' : FileMap}
    (hmode : s.map.setMode memory s.list portions mode = some (status, map')) :
    State.Inv ⟨map', s.list⟩ := by
  obtain ⟨cached, hcaches⟩ := h.caches
  have hsize := h.size
  unfold FileMap.setMode at hmode
  by_cases hbad : mode ≠ fileMapCacheAll ∧ mode ≠ fileMapCacheOnDemand
  · rw [if_pos hbad] at hmode
    cases hmode
    exact h
  rw [if_neg hbad] at hmode
  by_cases hsame : mode = fileMapCacheAll ∧ s.map.fCacheAll ∨
      mode = fileMapCacheOnDemand ∧ !s.map.fCacheAll
  · rw [if_pos hsame] at hmode
    cases hmode
    exact h
  rw [if_neg hsame] at hmode
  by_cases hall : mode = fileMapCacheAll
  · -- all is cached before the mode changes
    have hondemand : s.map.fCacheAll = false := by
      rw [← Bool.not_eq_true]
      exact fun htrue => hsame (Or.inl ⟨hall, htrue⟩)
    obtain ⟨hlt, hportions⟩ := hsafe hall hondemand
    obtain ⟨map₁, cached', hcache, hcaches', _, _, hsize', _⟩ :=
      @Inv.cache s memory portions 0 h s.map.fSize (by omega) (by omega) (by omega)
        (by rw [hondemand]; exact fun hfalse => absurd hfalse (by decide))
        (by rw [Int.zero_add]; exact hportions)
    rw [if_pos hall, hcache] at hmode
    cases hmode
    refine ⟨?_, ?_, cached', hcaches'.of_eq _ _⟩
    · show Covers s.list map₁.fSize
      rw [hsize']
      exact h.covers
    · show 0 ≤ map₁.fSize
      rw [hsize']
      exact hsize
  · rw [if_neg hall] at hmode
    cases hmode
    exact ⟨h.covers, hsize, cached, hcaches.of_eq _ _⟩

lemma Inv.step (h : s.Inv) {call : Call} (hallowed : Allowed s call) (hsafe : Safe s call)
    (hstep : s.step memory call = some s') : s'.Inv := by
  cases call with
  | translate offset size maxVecs align portions =>
    obtain ⟨t, map', htranslate, _, hinv⟩ := @Inv.translate s memory portions offset maxVecs align h
      hallowed.1 hallowed.2 size hsafe
    unfold State.step at hstep
    dsimp only at hstep
    rw [htranslate] at hstep
    cases hstep
    exact hinv
  | setSize size list =>
    cases hstep
    exact h.setSize hallowed hsafe
  | invalidate offset size list =>
    cases hstep
    exact h.invalidate hallowed
  | setMode mode portions =>
    obtain ⟨⟨status, map'⟩, hmode, heq⟩ := Option.map_eq_some_iff.1 hstep
    rw [← heq]
    exact h.setMode hsafe hmode

end State

lemma inv_create {size : ℤ} (hlist : Covers list size) (hsize : 0 ≤ size) :
    State.Inv ⟨.create memory size, list⟩ where
  covers := hlist
  size := hsize
  caches := ⟨[], FileMap.holds_create memory size, rfl, maps_nil hlist.1⟩

/-- In every run of calls that the code can deal with, a request that it can deal with is translated
exactly. -/
theorem translate_right {fileSize : ℤ} (hlist : Covers list fileSize) (hsize : 0 ≤ fileSize)
    {hist : History State Call} (hr : Run (State.step memory)
      (fun s call => Allowed s call ∧ Safe s call) ⟨.create memory fileSize, list⟩ hist s)
    (hallowed : Allowed s (.translate offset size maxVecs align portions))
    (hsafe : Safe s (.translate offset size maxVecs align portions)) :
    ∃ t map', s.map.translate memory s.list portions offset size maxVecs align = some (t, map') ∧
      Right s offset size maxVecs align t := by
  have hinv : s.Inv := hr.invariant (inv_create hlist hsize) fun h hok hstep =>
    h.step hok.1 hok.2 hstep
  obtain ⟨t, map', htranslate, hright, _⟩ := @State.Inv.translate s memory portions offset maxVecs align
    hinv hallowed.1 hallowed.2 size hsafe
  exact ⟨t, map', htranslate, hright⟩

instance (list : List FileIoVec) (size : ℤ) : Decidable (Covers list size) :=
  inferInstanceAs (Decidable (_ ∧ _))

instance decidableJoinSafe : ∀ cached vecs : List FileIoVec, Decidable (JoinSafe cached vecs)
  | _, [] => .isTrue trivial
  | cached, vec :: vecs =>
    have := decidableJoinSafe (joinOne cached vec) vecs
    inferInstanceAs (Decidable ((∀ last ∈ cached.getLast?, _) ∧ JoinSafe (joinOne cached vec) vecs))

instance decidablePortionsSafe (portions : ℕ → Fin 8) (stop : ℤ) :
    ∀ (fuel n : ℕ) (cached vecs : List FileIoVec),
      Decidable (PortionsSafe portions stop fuel n cached vecs)
  | 0, _, _, _ => .isTrue trivial
  | fuel + 1, n, cached, vecs =>
    have := decidablePortionsSafe portions stop fuel (n + 1)
      (join cached (vecs.take ((portions n : ℕ) + 1))) (vecs.drop ((portions n : ℕ) + 1))
    inferInstanceAs (Decidable (_ → _ ∧ PortionsSafe portions stop fuel (n + 1) _ _))

instance (s : State) (portions : ℕ → Fin 8) (stop : ℤ) : Decidable (s.CachesSafely portions stop) :=
  inferInstanceAs (Decidable (PortionsSafe _ _ _ _ _ _))

def keptMemory : Memory := ⟨fun _ => ⟨0, ⟨0, 0⟩⟩, id⟩

/-- Three extents, the second of which is a hole -/
def threeExtents : List FileIoVec := [⟨8192, 4096⟩, ⟨-1, 4096⟩, ⟨65536, 4096⟩]

/-- The first extents are retrieved one by one, and then the file is cut off within the second one. -/
def cutFile : State := outcome (State.step keptMemory) ⟨.create keptMemory 12000, threeExtents⟩
  [.translate 0 12000 8 512 (fun _ => 0), .setSize 6000 threeExtents]

theorem translate_right_cutFile : ∃ t map',
    cutFile.map.translate keptMemory cutFile.list (fun _ => 1) 100 7000 8 512 = some (t, map') ∧
      Right cutFile 100 7000 8 512 t := by
  have halign : 512 ≤ 1 ∨ ∃ k < 64, 512 = 2 ^ k := Or.inr ⟨9, by decide, by decide⟩
  have htranslate : Run (State.step keptMemory) (fun s call => Allowed s call ∧ Safe s call)
      ⟨.create keptMemory 12000, threeExtents⟩
      [(⟨.create keptMemory 12000, threeExtents⟩, .translate 0 12000 8 512 (fun _ => 0))] _ :=
    .snoc .nil ⟨⟨by decide, halign⟩, fun _ _ => ⟨by decide, by decide, by decide,
      by decide, by decide, Or.inl (by decide)⟩⟩ (step_outcome (by decide))
  have hcut : Run (State.step keptMemory) (fun s call => Allowed s call ∧ Safe s call)
      ⟨.create keptMemory 12000, threeExtents⟩ ((_, .setSize 6000 threeExtents) :: _) cutFile :=
    htranslate.snoc ⟨⟨by decide, by decide, fun x _ _ _ => by rfl⟩, Or.inl (by decide)⟩
      (step_outcome (by decide))
  exact translate_right (s := cutFile) (by decide) (by decide) hcut
    ⟨by decide, halign⟩ fun _ _ => ⟨by decide, by decide, by decide, by decide,
      by decide, Or.inl (by decide)⟩

/-- A request for two extents and with room for one vec: the code writes two. -/
theorem not_translate_right : ¬ ∀ (memory : Memory) (list : List FileIoVec) (fileSize : ℤ),
    Covers list fileSize → 0 ≤ fileSize → ∀ (hist : History State Call) (s : State),
      Run (State.step memory) Allowed ⟨.create memory fileSize, list⟩ hist s →
        ∀ (offset : ℤ) (size maxVecs align : ℕ) (portions : ℕ → Fin 8),
          Allowed s (.translate offset size maxVecs align portions) →
            ∃ t map', s.map.translate memory s.list portions offset size maxVecs align =
              some (t, map') ∧ Right s offset size maxVecs align t := by
  intro hall
  obtain ⟨t, map', htranslate, hright⟩ := hall keptMemory [⟨8192, 4096⟩, ⟨65536, 4096⟩] 8192
    (by decide) (by decide) [] _ .nil 0 8192 1 1 (fun _ => 7) ⟨by decide, Or.inl (by decide)⟩
  have hfits := hright.fits
  have hwritten : ((FileMap.create keptMemory 8192).translate keptMemory
      [⟨8192, 4096⟩, ⟨65536, 4096⟩] (fun _ => 7) 0 8192 1 1).map (fun r => r.1.vecs.length) =
        some 2 := by decide
  rw [htranslate] at hwritten
  have htwo : t.vecs.length = 2 := Option.some.inj hwritten
  omega

-- Three extents that follow each other on disk: the length of the third is added to freed memory.
example : ((FileMap.create keptMemory 12288).translate keptMemory
    [⟨4096, 4096⟩, ⟨8192, 4096⟩, ⟨12288, 4096⟩] (fun _ => 7) 0 12288 2 1).map (fun r => r.1.vecs) =
      some [⟨4096, 8192⟩, ⟨0, 0⟩] := by decide

end Haiku.FileMapping
