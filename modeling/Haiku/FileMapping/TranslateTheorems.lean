import Mathlib.Data.Nat.Bitwise
import Haiku.Lib.Run
import Haiku.FileMapping.CacheTheorems

/-!
# Translating

`Translate()` describes the bytes that are asked for by vecs of their disk locations, or by as many as
there is room for.
-/

namespace Haiku.FileMapping

open Lib

/-! ## What is claimed -/

def requestEnd (fSize offset : ℤ) (size : ℕ) : ℤ := min (offset + size) fSize

/-- The first multiple of the alignment from the size on -/
def roundUp (fSize : ℤ) (align : ℕ) : ℤ := (fSize + align - 1) / align * align

/-- A request that goes on behind the end of the file, up to the next multiple of the alignment, is
padded up to there. -/
def padding (fSize offset : ℤ) (size align : ℕ) : ℤ :=
  if fSize < offset + size ∧ 1 < align ∧ roundUp fSize align ≤ offset + size then
    roundUp fSize align - fSize
  else 0

/-- The first bytes of the vecs are those of the file from the offset on. -/
def Describes (vecs list : List FileIoVec) (offset stop : ℤ) : Prop :=
  ∀ x, 0 ≤ x → x < stop → locate vecs x = locate list (offset + x)

/-- What `Translate()` is to return -/
structure Right (s : State) (offset : ℤ) (size maxVecs align : ℕ) (t : Translated) : Prop where
  fits : t.vecs.length ≤ maxVecs
  negative : offset < 0 → t = ⟨.badValue, maxVecs, []⟩
  behind : 0 ≤ offset → s.map.fSize ≤ offset → t = ⟨.ok, 0, []⟩
  inside : 0 ≤ offset → offset < s.map.fSize → t.count = t.vecs.length ∧
    (t.status = .ok ∧
        total t.vecs = requestEnd s.map.fSize offset size - offset +
          padding s.map.fSize offset size align ∧
        Describes t.vecs s.list offset (requestEnd s.map.fSize offset size - offset) ∨
      t.status = .bufferOverflow ∧ t.vecs.length = maxVecs ∧
        total t.vecs < requestEnd s.map.fSize offset size - offset ∧
        Describes t.vecs s.list offset (total t.vecs))

/-- The vecs are sound, and there are enough of them for the size of the file. -/
def Covers (list : List FileIoVec) (size : ℤ) : Prop :=
  (∀ vec ∈ list, vec.Sound) ∧ size ≤ total list

def SameBelow (list list' : List FileIoVec) (offset : ℤ) : Prop :=
  ∀ x, 0 ≤ x → x < offset → x < total list → locate list' x = locate list x

/-- The extents of the file cover it, and change together with a call at the changed position only.
There is room for a vec, and an alignment is a power of two. -/
def Allowed (s : State) : Call → Prop
  | .translate _ _ maxVecs align _ => 1 ≤ maxVecs ∧ (align ≤ 1 ∨ ∃ k < 64, align = 2 ^ k)
  | .setSize size list => 0 ≤ size ∧ Covers list size ∧ SameBelow s.list list size
  | .invalidate offset _ list =>
    0 ≤ offset ∧ Covers list s.map.fSize ∧ SameBelow s.list list offset
  | .setMode _ _ => True

/-! ## When it holds -/

def Follows (place place' : ℤ) : Prop :=
  place = -1 ∧ place' = -1 ∨ place ≠ -1 ∧ place' = place + 1

/-- The bytes follow each other on disk, or are all in holes. -/
def OneRun (list : List FileIoVec) (start stop : ℤ) : Prop :=
  ∀ x, start ≤ x → x + 1 < stop → ∀ place place', locate list x = some place →
    locate list (x + 1) = some place' → Follows place place'

/-- The portions that a map needs to reach an offset are safe. -/
def State.CachesSafely (s : State) (portions : ℕ → Fin 8) (stop : ℤ) : Prop :=
  PortionsSafe portions stop (s.list.length + 1) 0 s.map.cachedVecs (rest s.list s.map.mapEnd)

/-- A request that lies in the file, and that the code can deal with -/
structure SafeRequest (s : State) (offset : ℤ) (size maxVecs align : ℕ) (portions : ℕ → Fin 8) :
    Prop where
  sum : offset + size < 2 ^ 63
  aligned : 1 < align → s.map.fSize < offset + size → s.map.fSize + align ≤ 2 ^ 63
  /-- if all is to be cached, then all that is needed is -/
  cached : s.map.fCacheAll → requestEnd s.map.fSize offset size ≤ s.map.mapEnd
  portions : s.CachesSafely portions (requestEnd s.map.fSize offset size)
  nonempty : 0 < size ∨ offset < s.map.mapEnd
  /-- one vec is used for one run only -/
  room : 2 ≤ maxVecs ∨ OneRun s.list offset (requestEnd s.map.fSize offset size)

def Safe (s : State) : Call → Prop
  | .translate offset size maxVecs align portions =>
    0 ≤ offset → offset < s.map.fSize → SafeRequest s offset size maxVecs align portions
  | .setSize size list => size < s.map.fSize ∨ SameBelow s.list list s.map.mapEnd
  | .invalidate _ _ _ => True
  | .setMode mode portions =>
    mode = fileMapCacheAll → s.map.fCacheAll = false →
      s.map.fSize < 2 ^ 63 ∧ s.CachesSafely portions s.map.fSize

variable {s : State} {map : FileMap} {memory : Memory} {vecs list cached : List FileIoVec}
  {portions : ℕ → Fin 8} {x offset size pad stop : ℤ} {maxVecs align : ℕ}

/-! ## Requests -/

lemma toOff_of_lt (h : 0 ≤ x) (hlt : x < 2 ^ 63) : toOff x = x := by
  unfold toOff
  rw [Int.bmod_def]
  omega

lemma and_not_mask (n k : ℕ) :
    (BitVec.ofNat 64 n &&& ~~~BitVec.ofNat 64 (2 ^ k - 1)) = BitVec.ofNat 64 (n / 2 ^ k * 2 ^ k) := by
  apply BitVec.eq_of_getLsbD_eq
  intro i hi
  simp only [BitVec.getLsbD_and, BitVec.getLsbD_not, BitVec.getLsbD_ofNat, Nat.testBit_two_pow_sub_one,
    Nat.testBit_mul_two_pow, Nat.testBit_div_two_pow, hi, decide_true, Bool.true_and]
  by_cases hki : k ≤ i
  · rw [Nat.sub_add_cancel hki]
    simp [hki]
  · have hlt : i < k := by omega
    simp [hki, hlt]

lemma alignedSize_eq {fSize : ℤ} {k : ℕ} (hsize : 0 ≤ fSize)
    (hlt : fSize + (2 ^ k : ℕ) ≤ 2 ^ 63) : alignedSize fSize (2 ^ k) = roundUp fSize (2 ^ k) := by
  have hpos : 0 < 2 ^ k := Nat.two_pow_pos k
  have hsum : fSize + (2 ^ k : ℕ) - 1 = ((fSize + (2 ^ k : ℕ) - 1).toNat : ℤ) := by omega
  have hmask : ((2 ^ k : ℕ) : ℤ) - 1 = ((2 ^ k - 1 : ℕ) : ℤ) := by omega
  unfold alignedSize roundUp
  rw [hmask, hsum]
  generalize hn : (fSize + (2 ^ k : ℕ) - 1).toNat = n
  have hle : n / 2 ^ k * 2 ^ k ≤ n := Nat.div_mul_le_self n (2 ^ k)
  rw [BitVec.ofInt_natCast, BitVec.ofInt_natCast, and_not_mask n k, BitVec.toInt_ofNat',
    Int.bmod_def, ← Int.natCast_ediv, ← Int.natCast_mul]
  omega

lemma clip_eq {fSize : ℤ} {size : ℕ} (hsize : 0 ≤ fSize) (hoffset : 0 ≤ offset)
    (hsum : offset + size < 2 ^ 63) (halign : align ≤ 1 ∨ ∃ k < 64, align = 2 ^ k)
    (haligned : 1 < align → fSize < offset + size → fSize + align ≤ 2 ^ 63) :
    clip fSize offset size align =
      (requestEnd fSize offset size - offset, padding fSize offset size align) := by
  unfold clip requestEnd padding
  rw [toOff_of_lt (by omega) hsum]
  by_cases hgt : fSize < offset + size
  · have hmin : min (offset + size) fSize = fSize := by omega
    rw [if_pos hgt, hmin]
    by_cases hone : 1 < align
    · have hround : alignedSize fSize align = roundUp fSize align := by
        rcases halign with hle | ⟨k, _, rfl⟩
        · omega
        · exact alignedSize_eq hsize (haligned hone hgt)
      rw [hround]
      by_cases hle : roundUp fSize align ≤ offset + size
      · rw [if_pos ⟨hone, hle⟩, if_pos ⟨hgt, hone, hle⟩]
      · rw [if_neg fun h => hle h.2, if_neg fun h => hle h.2.2]
    · rw [if_neg fun h => hone h.1, if_neg fun h => hone h.2.1]
  · rw [if_neg hgt, if_neg fun h => hgt h.1]
    congr 1
    omega

/-! ## Copying vecs -/

lemma rest_of_index {i : ℕ} (hi : i < list.length) (hsound : ∀ vec ∈ list, vec.Sound)
    (hstart : total (list.take i) ≤ x) (hend : x < total (list.take i) + list[i].length) :
    rest list x = list[i].advance (x - total (list.take i)) :: list.drop (i + 1) := by
  induction i generalizing list x with
  | zero =>
    cases list with
    | nil => cases hi
    | cons vec list =>
      have hzero : x - total (List.take 0 (vec :: list)) = x := Int.sub_zero x
      rw [hzero]
      rw [List.take_zero, total] at hend
      rw [rest, if_pos (by simpa using hend)]
      rfl
  | succ i ih =>
    cases list with
    | nil => cases hi
    | cons vec list =>
      rw [List.forall_mem_cons] at hsound
      have hnonneg := total_nonneg (sound_take hsound.2 i)
      rw [List.take_succ_cons, total] at hstart hend ⊢
      rw [List.getElem_cons_succ] at hend ⊢
      rw [rest, if_neg (by omega), ih (by simpa using hi) hsound.2 (by omega) (by omega),
        List.drop_succ_cons, Int.sub_sub]

lemma locate_of_index {i : ℕ} (hi : i < list.length) (hsound : ∀ vec ∈ list, vec.Sound)
    (hstart : total (list.take i) ≤ x) (hend : x < total (list.take i) + list[i].length) :
    locate list x = some (list[i].place (x - total (list.take i))) := by
  have hnonneg := total_nonneg (sound_take hsound i)
  have hvec := hsound _ (List.getElem_mem hi)
  have hrest := locate_rest hsound (by omega : 0 ≤ x) (le_refl 0)
  rw [Int.add_zero] at hrest
  rw [← hrest, rest_of_index hi hsound hstart hend, locate, if_pos (hvec.advance (by omega) (by omega)).1,
    hvec.place_advance (by omega), Int.add_zero]

lemma Maps.le_of_oneRun {i : ℕ} (h : Maps cached list) (hrun : OneRun list offset stop)
    (hi : i < cached.length) (hnonneg : 0 ≤ offset)
    (hend : offset < total (cached.take i) + cached[i].length) (hstop : stop ≤ total cached) :
    stop ≤ total (cached.take i) + cached[i].length := by
  by_contra hlt
  have hnext := total_take_succ hi
  have hi' : i + 1 < cached.length := by
    by_contra hge
    rw [List.take_of_length_le (by omega)] at hnext
    omega
  have hvec := h.sound _ (List.getElem_mem hi)
  have hvec' := h.sound _ (List.getElem_mem hi')
  have hlength := hvec.1
  have hlength' := hvec'.1
  -- the last byte of the extent, and the first one of the next extent
  have hlast := locate_of_index hi h.sound (x := total (cached.take (i + 1)) - 1) (by omega) (by omega)
  have hfirst := locate_of_index hi' h.sound (le_refl (total (cached.take (i + 1)))) (by omega)
  rw [h.same _ (by omega) (by omega)] at hlast hfirst
  have hfollows := hrun (total (cached.take (i + 1)) - 1) (by omega) (by omega) _ _ hlast
    (by rw [Int.sub_add_cancel]; exact hfirst)
  have hapart := List.isChain_iff_getElem.1 h.apart i hi'
  apply hapart
  have hoffset := hvec.2
  have hoffset' := hvec'.2
  unfold FileIoVec.place Follows at hfollows
  unfold Continues
  split_ifs at hfollows <;> omega

/-- What is copied of the vecs that describe a request: all of them up to where it ends, or as many as
there is room for -/
inductive Copies (vecs : List FileIoVec) (size pad : ℤ) (maxVecs : ℕ) : Translated → Prop
  | all (j : ℕ) (hj : j < vecs.length) (hfits : j + 1 ≤ maxVecs) (hstart : total (vecs.take j) ≤ size)
      (hend : size ≤ total (vecs.take j) + vecs[j].length) :
      Copies vecs size pad maxVecs
        ⟨.ok, j + 1, vecs.take j ++ [⟨vecs[j].offset, size - total (vecs.take j) + pad⟩]⟩
  | some (hle : maxVecs ≤ vecs.length) (hlt : total (vecs.take maxVecs) < size) :
      Copies vecs size pad maxVecs ⟨.bufferOverflow, maxVecs, vecs.take maxVecs⟩

namespace FileMap

lemma copyLoop_copies {fuel index j : ℕ} (hj : j < maxVecs) (hfuel : maxVecs - j < fuel)
    (hlt : total (vecs.take j) < size) (hle : size ≤ total vecs) (hlength : j ≤ vecs.length)
    (hdisk : ∀ i, ∀ hi : j + i < vecs.length, (map.extents.get (index + i)).disk = vecs[j + i]) :
    ∃ t, map.copyLoop maxVecs pad fuel index (size - total (vecs.take j)) (vecs.take j) = some t ∧
      Copies vecs size pad maxVecs t := by
  induction fuel generalizing index j with
  | zero => omega
  | succ fuel ih =>
    -- the request does not end yet, so that there is another vec
    have hin : j < vecs.length := by
      by_contra hge
      rw [List.take_of_length_le (by omega)] at hlt
      omega
    have hhead := hdisk 0 hin
    have htake : (vecs.take j).length = j := by
      rw [List.length_take]
      omega
    rw [Nat.add_zero, getElem_congr_idx (Nat.add_zero j)] at hhead
    rw [copyLoop, hhead, htake]
    by_cases hends : size - total (vecs.take j) ≤ vecs[j].length
    · rw [if_pos hends]
      exact ⟨_, rfl, .all j hin hj (by omega) (by omega)⟩
    · have hnext := total_take_succ hin
      rw [if_neg hends, ← List.take_succ_eq_append_getElem hin]
      by_cases hfull : j + 1 ≥ maxVecs
      · have hlast : j + 1 = maxVecs := by omega
        rw [if_pos hfull, hlast]
        rw [hlast] at hnext
        exact ⟨_, rfl, .some (by omega) (by omega)⟩
      · rw [if_neg hfull]
        have hloop := @ih (index + 1) (j + 1) (by omega) (by omega) (by omega) (by omega)
          (fun i hi => by
            rw [Nat.add_assoc, Nat.add_comm 1 i, hdisk (i + 1) (by omega)]
            exact getElem_congr_idx (by omega))
        rw [hnext, ← Int.sub_sub] at hloop
        exact hloop

lemma firstVec_eq (start : ℤ) (vec : FileIoVec) (offset : ℤ) :
    firstVec ⟨start, vec⟩ offset = vec.advance (offset - start) := by
  unfold firstVec FileIoVec.advance FileIoVec.place
  rw [ite_not]

lemma Caches.copyVecs (h : map.Caches list cached) (hoffset : 0 ≤ offset)
    (hlt : offset < total cached) (hsize : 0 ≤ size) (hle : offset + size ≤ total cached)
    (hmax : 1 ≤ maxVecs) (hroom : 2 ≤ maxVecs ∨ OneRun list offset (offset + size)) :
    ∃ t, map.copyVecs offset size pad maxVecs = some t ∧
      Copies (rest cached offset) size pad maxVecs t := by
  obtain ⟨i, hi, hfound, hstart, hend⟩ := h.findExtent hoffset hlt
  have hsound := h.maps.sound
  have hslot := h.holds.slot i hi
  have hrest := rest_of_index hi hsound hstart hend
  have htotal := total_rest hoffset (by omega : offset ≤ total cached)
  unfold FileMap.copyVecs
  rw [hfound]
  dsimp only
  rw [hslot]
  rw [firstVec_eq]
  have hlength : (cached[i].advance (offset - total (cached.take i))).length =
    cached[i].length - (offset - total (cached.take i)) := rfl
  rw [hrest] at htotal ⊢
  generalize hfirst : cached[i].advance (offset - total (cached.take i)) = first at hlength htotal ⊢
  by_cases hone : first.length ≥ size
  · rw [if_pos hone]
    refine ⟨_, rfl, ?_⟩
    have hall := @Copies.all (first :: cached.drop (i + 1)) size pad maxVecs 0 (Nat.zero_lt_succ _)
      hmax hsize (by show size ≤ 0 + first.length; omega)
    rw [List.take_zero, total, Int.sub_zero] at hall
    exact hall
  · -- with one vec only, the bytes would be in one extent
    have htwo : 1 < maxVecs := by
      rcases hroom with htwo | hrun
      · omega
      · have hin := h.maps.le_of_oneRun hrun hi hoffset hend hle
        omega
    have htake : (first :: cached.drop (i + 1)).take 1 = [first] := rfl
    have hdisk : ∀ k, ∀ hk : 1 + k < (first :: cached.drop (i + 1)).length,
        (map.extents.get (i + 1 + k)).disk = (first :: cached.drop (i + 1))[1 + k] := by
      intro k hk
      rw [List.length_cons, List.length_drop] at hk
      have hslot' := h.holds.slot (i + 1 + k) (by omega)
      rw [hslot', getElem_congr_idx (Nat.add_comm 1 k), List.getElem_cons_succ, List.getElem_drop]
    have hloop := @copyLoop_copies map (first :: cached.drop (i + 1)) size pad maxVecs (maxVecs + 1)
      (i + 1) 1 htwo (by omega) (by rw [htake, total_singleton]; omega) (by omega) (by simp) hdisk
    rw [htake, total_singleton] at hloop
    rw [if_neg hone]
    exact hloop

end FileMap

/-! ## What is copied -/

lemma le_roundUp (fSize : ℤ) (halign : 1 ≤ align) : fSize ≤ roundUp fSize align := by
  unfold roundUp
  have hdiv := Int.ediv_mul_add_emod (fSize + align - 1) align
  have hlt := Int.emod_lt_of_pos (fSize + align - 1) (by omega : (0 : ℤ) < align)
  omega

lemma padding_nonneg (fSize offset : ℤ) (size align : ℕ) :
    0 ≤ padding fSize offset size align := by
  unfold padding
  split_ifs with hpad
  · have hle := le_roundUp fSize (by omega : 1 ≤ align)
    omega
  · exact le_refl 0

lemma locate_take {i : ℕ} (hx : 0 ≤ x) (hlt : x < total (vecs.take i)) :
    locate (vecs.take i) x = locate vecs x := by
  conv_rhs => rw [← List.take_append_drop i vecs]
  rw [locate_append_left hx hlt]

lemma Copies.length_le {t : Translated} (h : Copies vecs size pad maxVecs t) :
    t.vecs.length ≤ maxVecs ∧ t.count = t.vecs.length := by
  cases h with
  | all j hj hfits hstart hend =>
    dsimp only
    rw [List.length_append, List.length_singleton, List.length_take, Nat.min_eq_left (by omega)]
    exact ⟨hfits, rfl⟩
  | some hle hlt =>
    dsimp only
    rw [List.length_take, Nat.min_eq_left hle]
    exact ⟨le_refl _, rfl⟩

lemma Copies.describes {t : Translated} (h : Copies vecs size pad maxVecs t)
    (hvecs : ∀ vec ∈ vecs, vec.Sound) (hpad : 0 ≤ pad) :
    t.status = .ok ∧ total t.vecs = size + pad ∧
        (∀ x, 0 ≤ x → x < size → locate t.vecs x = locate vecs x) ∨
      t.status = .bufferOverflow ∧ t.vecs.length = maxVecs ∧ total t.vecs < size ∧
        ∀ x, 0 ≤ x → x < total t.vecs → locate t.vecs x = locate vecs x := by
  cases h with
  | all j hj hfits hstart hend =>
    left
    refine ⟨rfl, ?_, ?_⟩
    · dsimp only
      rw [total_append, total_singleton]
      dsimp only
      omega
    · intro x hx hlt
      dsimp only
      by_cases hin : x < total (vecs.take j)
      · rw [locate_append_left hx hin, locate_take hx hin]
      · rw [locate_append_right (sound_take hvecs j) (by omega),
          locate_of_index hj hvecs (by omega) (by omega), locate, if_pos (by dsimp only; omega)]
        rfl
  | some hle hlt =>
    right
    refine ⟨rfl, ?_, hlt, ?_⟩
    · dsimp only
      rw [List.length_take, Nat.min_eq_left hle]
    · intro x hx hlt'
      exact locate_take hx hlt'

/-! ## Runs -/

/-- The map caches what the file system reports for the file, which covers it. -/
structure State.Inv (s : State) : Prop where
  covers : Covers s.list s.map.fSize
  size : 0 ≤ s.map.fSize
  caches : ∃ cached, s.map.Caches s.list cached

lemma State.Inv.cache (h : s.Inv) {size : ℤ} (hoffset : 0 ≤ offset + size)
    (hlt : offset + size < 2 ^ 63) (hstop : offset + size ≤ s.map.fSize)
    (hall : s.map.fCacheAll → offset + size ≤ s.map.mapEnd)
    (hsafe : s.CachesSafely portions (offset + size)) :
    ∃ map' cached', s.map.cache memory s.list portions offset size = some (.ok, map') ∧
      map'.Caches s.list cached' ∧ offset + size ≤ total cached' ∧ s.map.mapEnd ≤ total cached' ∧
      map'.fSize = s.map.fSize ∧ map'.fCacheAll = s.map.fCacheAll := by
  obtain ⟨cached, hcaches⟩ := h.caches
  have hend := hcaches.holds.mapEnd_eq hcaches.count
  have hvecs := hcaches.holds.cachedVecs_eq hcaches.count
  have hcovers := h.covers.2
  unfold State.CachesSafely at hsafe
  rw [hvecs, hend] at hsafe
  obtain ⟨map', cached', hloop, hcaches', hreach, hle, hsame⟩ :=
    @FileMap.Caches.cacheLoop _ memory _ _ _ _ _ 0 hcaches h.covers.1 (by omega)
      (Nat.lt_succ_of_le (length_rest_le _ _)) hsafe
  refine ⟨map', cached', ?_, hcaches', hreach, by rw [hend]; exact hle, hsame⟩
  unfold FileMap.cache
  rw [toOff_of_lt hoffset hlt]
  dsimp only
  rw [if_neg, hend, hloop]
  · rfl
  · intro hbefore
    have hin := hall hbefore.1
    omega

lemma State.Inv.translate (h : s.Inv) (hmax : 1 ≤ maxVecs)
    (halign : align ≤ 1 ∨ ∃ k < 64, align = 2 ^ k) {size : ℕ}
    (hsafe : 0 ≤ offset → offset < s.map.fSize → SafeRequest s offset size maxVecs align portions) :
    ∃ t map', s.map.translate memory s.list portions offset size maxVecs align = some (t, map') ∧
      Right s offset size maxVecs align t ∧ State.Inv ⟨map', s.list⟩ := by
  unfold FileMap.translate
  by_cases hnegative : offset < 0
  · rw [if_pos hnegative]
    refine ⟨_, _, rfl, ⟨Nat.zero_le _, fun _ => rfl, ?_, ?_⟩, h⟩
    · intro hnonneg
      omega
    · intro hnonneg
      omega
  rw [if_neg hnegative]
  by_cases hbehind : offset ≥ s.map.fSize
  · rw [if_pos hbehind]
    refine ⟨_, _, rfl, ⟨Nat.zero_le _, ?_, fun _ _ => rfl, ?_⟩, h⟩
    · intro hlt
      omega
    · intro _ hlt
      omega
  rw [if_neg hbehind]
  have hrequest := hsafe (by omega) (by omega)
  have hpad := padding_nonneg s.map.fSize offset size align
  have hendle : requestEnd s.map.fSize offset size ≤ s.map.fSize := min_le_right _ _
  have hendle' : requestEnd s.map.fSize offset size ≤ offset + size := min_le_left _ _
  have hsum := hrequest.sum
  have hbegin : offset ≤ requestEnd s.map.fSize offset size := by
    unfold requestEnd
    omega
  have hstop : offset + (requestEnd s.map.fSize offset size - offset) =
    requestEnd s.map.fSize offset size := by omega
  rw [clip_eq h.size (by omega) hrequest.sum halign hrequest.aligned]
  obtain ⟨map', cached', hcache, hcaches, hreach, hgrows, hsize, _⟩ :=
    @State.Inv.cache s memory portions offset h (requestEnd s.map.fSize offset size - offset)
      (by omega) (by omega) (by omega) (by rw [hstop]; exact hrequest.cached)
      (by rw [hstop]; exact hrequest.portions)
  rw [hstop] at hreach
  have hin : offset < total cached' := by
    have hnonempty := hrequest.nonempty
    unfold requestEnd at hreach
    omega
  obtain ⟨t, hcopy, hcopies⟩ := @FileMap.Caches.copyVecs map' s.list cached' offset
    (requestEnd s.map.fSize offset size - offset) (padding s.map.fSize offset size align) maxVecs
    hcaches (by omega) hin (by omega) (by omega) hmax (by rw [hstop]; exact hrequest.room)
  have hlength := hcopies.length_le
  have hsound := hcaches.maps.sound
  have hsame : ∀ x, 0 ≤ x → x < requestEnd s.map.fSize offset size - offset →
      locate (rest cached' offset) x = locate s.list (offset + x) := by
    intro x hx hlt
    rw [locate_rest hsound (by omega) hx]
    exact hcaches.maps.same _ (by omega) (by omega)
  refine ⟨t, map', ?_, ⟨hlength.1, ?_, ?_, ?_⟩, ⟨?_, ?_, cached', hcaches⟩⟩
  · dsimp only
    rw [hcache]
    dsimp only [Option.bind_some]
    rw [if_neg (by decide), hcopy]
    rfl
  · intro hlt
    omega
  · intro _ hge
    omega
  · intro _ _
    refine ⟨hlength.2, ?_⟩
    rcases hcopies.describes (sound_rest hsound (by omega)) hpad with hall | hsome
    · left
      refine ⟨hall.1, hall.2.1, ?_⟩
      intro x hx hlt
      rw [hall.2.2 x hx hlt]
      exact hsame x hx hlt
    · right
      refine ⟨hsome.1, hsome.2.1, hsome.2.2.1, ?_⟩
      intro x hx hlt
      rw [hsome.2.2.2 x hx hlt]
      exact hsame x hx (by omega)
  · show Covers s.list map'.fSize
    rw [hsize]
    exact h.covers
  · show 0 ≤ map'.fSize
    rw [hsize]
    exact h.size

end Haiku.FileMapping
