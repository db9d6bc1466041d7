import Haiku.FileMapping.JoinTheorems

/-!
# Caching extents

`_MakeSpace()` keeps the extents that there is still room for, `_Add()` joins vecs to those that are
cached, and `_Cache()` goes on until the map reaches as far as it is to.
-/

namespace Haiku.FileMapping

/-- The first extents of the map are these vecs, and there is room for all it counts. -/
structure FileMap.Holds (map : FileMap) (cached : List FileIoVec) : Prop where
  slot : ∀ i (h : i < cached.length), map.extents.get i = ⟨total (cached.take i), cached[i]⟩
  count : cached.length ≤ map.fCount
  room : map.fCount ≤ map.extents.room
  direct : map.fCount ≤ cachedFileExtents → map.extents.room = cachedFileExtents

variable {map : FileMap} {memory : Memory} {vec last : FileIoVec} {vecs list cached : List FileIoVec}
  {portions : ℕ → Fin 8} {stop : ℤ}

/-! ## Space -/

lemma le_growMaxCount {count fuel maxCount : ℕ} (hpos : 0 < maxCount)
    (hfuel : count ≤ fuel + maxCount) : count ≤ growMaxCount count fuel maxCount := by
  induction fuel generalizing maxCount with
  | zero =>
    rw [growMaxCount]
    omega
  | succ fuel ih =>
    rw [growMaxCount]
    split_ifs with hlt hsmall
    · exact ih (by omega) (by omega)
    · exact ih (by omega) (by omega)
    · omega

namespace FileMap

lemma get_set_self (extents : Extents) (i : ℕ) (extent : FileExtent) :
    (extents.set i extent).get i = extent := by
  cases extents <;> exact Function.update_self _ _ _

lemma get_set_of_ne (extents : Extents) {i j : ℕ} (hne : j ≠ i) (extent : FileExtent) :
    (extents.set i extent).get j = extents.get j := by
  cases extents <;> exact Function.update_of_ne hne _ _

lemma room_set (extents : Extents) (i : ℕ) (extent : FileExtent) :
    (extents.set i extent).room = extents.room := by
  cases extents <;> rfl

lemma holds_create (memory : Memory) (size : ℤ) : (create memory size).Holds [] where
  slot i h := by cases h
  count := Nat.zero_le _
  room := Nat.zero_le _
  direct _ := rfl

lemma makeSpace_same (map : FileMap) (memory : Memory) (count : ℕ) :
    (map.makeSpace memory count).fCount = count ∧ (map.makeSpace memory count).fSize = map.fSize ∧
      (map.makeSpace memory count).fCacheAll = map.fCacheAll := by
  unfold makeSpace
  dsimp only
  split_ifs <;> exact ⟨rfl, rfl, rfl⟩

lemma Holds.makeSpace (h : map.Holds cached) {count : ℕ} (hcount : cached.length ≤ count) :
    (map.makeSpace memory count).Holds cached := by
  have hlength := h.count
  have hroom := h.room
  unfold FileMap.makeSpace cachedFileExtents
  dsimp only
  split_ifs with hsmall hmany hmany hgrow hgrow
  · -- the extents move to the map
    constructor
    · intro i hi
      show (if i < count then map.extents.get i else memory.fresh i) = _
      rw [if_pos (by omega)]
      exact h.slot i hi
    · exact hcount
    · exact hsmall
    · intro _
      rfl
  · constructor
    · exact h.slot
    · exact hcount
    · show count ≤ map.extents.room
      rw [h.direct (by unfold cachedFileExtents; omega)]
      exact hsmall
    · intro _
      exact h.direct (by unfold cachedFileExtents; omega)
  · -- the array gets larger
    constructor
    · intro i hi
      show (if i < map.extents.room then map.extents.get i else memory.fresh i) = _
      rw [if_pos (by omega)]
      exact h.slot i hi
    · exact hcount
    · show count ≤ growMaxCount count count map.extents.room
      exact le_growMaxCount (by omega) (by omega)
    · intro hle
      exact absurd hle hsmall
  · constructor
    · exact h.slot
    · exact hcount
    · show count ≤ map.extents.room
      omega
    · intro hle
      exact absurd hle hsmall
  · -- the extents move to an array
    constructor
    · intro i hi
      show (if i < map.fCount then map.extents.get i else memory.fresh i) = _
      rw [if_pos (by omega)]
      exact h.slot i hi
    · exact hcount
    · show count ≤ growMaxCount count count 2
      exact le_growMaxCount (by omega) (by omega)
    · intro hle
      exact absurd hle hsmall
  · exact absurd hgrow (by omega)

/-! ## Adding -/

lemma Holds.take (h : map.Holds cached) (i : ℕ) : map.Holds (cached.take i) where
  slot j hj := by
    rw [List.length_take] at hj
    rw [h.slot j (by omega), List.take_take, Nat.min_eq_left (by omega), List.getElem_take]
  count := by
    have hcount := h.count
    rw [List.length_take]
    omega
  room := h.room
  direct := h.direct

lemma Holds.write (h : map.Holds cached) (hlt : cached.length < map.fCount) (vec : FileIoVec) :
    Holds { map with extents := map.extents.set cached.length ⟨total cached, vec⟩ }
      (cached ++ [vec]) where
  slot i hi := by
    rw [List.length_append, List.length_singleton] at hi
    by_cases hne : i = cached.length
    · subst hne
      rw [get_set_self, List.take_left, List.getElem_concat_length rfl]
    · rw [get_set_of_ne _ hne, h.slot i (by omega), List.take_append_of_le_length (by omega),
        List.getElem_append_left (by omega)]
  count := by
    rw [List.length_append, List.length_singleton]
    exact hlt
  room := by
    rw [room_set]
    exact h.room
  direct hle := by
    rw [room_set]
    exact h.direct hle

lemma Holds.mergeLast (h : map.Holds (cached ++ [last])) (hlt : cached.length + 1 < map.fCount)
    (length : ℤ) : (map.mergeLast memory (.at cached.length) length).1.Holds
      (cached ++ [⟨last.offset, last.length + length⟩]) := by
  have hslot := h.slot cached.length (by simp)
  have hheld := h.take cached.length
  rw [List.take_left] at hslot hheld
  rw [List.getElem_concat_length rfl] at hslot
  have hwrite := hheld.write (by omega) ⟨last.offset, last.length + length⟩
  unfold FileMap.mergeLast readLast
  dsimp only
  rw [hslot]
  apply hwrite.makeSpace
  rw [List.length_append, List.length_singleton]
  show cached.length + 1 ≤ map.fCount - 1
  omega

lemma mergeLast_same (map : FileMap) (memory : Memory) (i : ℕ) (length : ℤ) :
    (map.mergeLast memory (.at i) length).1.fCount = map.fCount - 1 ∧
      (map.mergeLast memory (.at i) length).1.fSize = map.fSize ∧
      (map.mergeLast memory (.at i) length).1.fCacheAll = map.fCacheAll := by
  unfold mergeLast
  exact makeSpace_same _ memory _

lemma merges_iff (h : ¬ (last.offset = -1 ∧ vec.offset = last.length - 1)) :
    Merges last vec ↔ Continues last vec := by
  unfold Merges Continues
  omega

/-- What `lastExtent` is, when some extents are held -/
def lastOf (cached : List FileIoVec) : Option LastExtent :=
  if cached = [] then none else some (.at (cached.length - 1))

lemma lastOf_concat (cached : List FileIoVec) (last : FileIoVec) :
    lastOf (cached ++ [last]) = some (.at cached.length) := by
  unfold lastOf
  rw [if_neg (by simp), List.length_append, List.length_singleton, Nat.add_sub_cancel]

/-- The map ends up with these vecs, and reports where they end. -/
structure Reaches (map : FileMap) (cached : List FileIoVec) (added : FileMap × ℤ) : Prop where
  holds : added.1.Holds cached
  count : added.1.fCount = cached.length
  stop : added.2 = total cached
  size : added.1.fSize = map.fSize
  cacheAll : added.1.fCacheAll = map.fCacheAll

lemma Holds.addLoop {start : ℤ} {i : ℕ} {lastExtent : Option LastExtent} (h : map.Holds cached)
    (hcount : map.fCount = cached.length + vecs.length) (hstart : start + i = cached.length)
    (hlast : vecs ≠ [] → lastExtent = lastOf cached) (hsafe : JoinSafe cached vecs) :
    map.Reaches (join cached vecs) (addLoop memory vecs start i lastExtent (total cached) map) := by
  induction vecs generalizing map cached start i lastExtent with
  | nil => exact ⟨h, hcount, rfl, rfl, rfl⟩
  | cons vec vecs ih =>
    rw [List.length_cons] at hcount
    rw [hlast (by simp)]
    have hindex : (start + i).toNat = cached.length := by omega
    -- the vec becomes an extent of its own
    have hadded := h.write (by omega) vec
    have hlength : (cached ++ [vec]).length = cached.length + 1 := by simp
    have hnew := @ih { map with extents := map.extents.set cached.length ⟨total cached, vec⟩ }
      (cached ++ [vec]) start (i + 1) (some (.at cached.length)) hadded
      (by rw [hlength]; show map.fCount = _; omega) (by rw [hlength]; push_cast; omega)
      (fun _ => (lastOf_concat cached vec).symm)
    rw [total_append, total_singleton] at hnew
    cases cached using List.reverseRecOn with
    | nil =>
      have hstep : FileMap.addLoop memory (vec :: vecs) start i (lastOf []) (total []) map =
          FileMap.addLoop memory vecs start (i + 1) (some (.at 0)) (total [] + vec.length)
            { map with extents := map.extents.set 0 ⟨total [], vec⟩ } := by
        show FileMap.addLoop memory (vec :: vecs) start i none (total []) map = _
        rw [FileMap.addLoop, hindex]
        rfl
      have hreaches := hnew hsafe.2
      rw [hstep]
      exact ⟨hreaches.holds, hreaches.count, hreaches.stop, hreaches.size, hreaches.cacheAll⟩
    | append_singleton cached last =>
      obtain ⟨hhole, hmerge⟩ := hsafe.1 last List.getLast?_concat
      have hrest := hsafe.2
      have hslot := h.slot cached.length (by simp)
      rw [List.take_left, List.getElem_concat_length rfl] at hslot
      rw [joinOne_concat] at hrest
      have hfirst : join (cached ++ [last]) (vec :: vecs) =
          join (joinOne (cached ++ [last]) vec) vecs := rfl
      have hread : map.readLast (.at cached.length) = ⟨total cached, last⟩ := hslot
      rw [hfirst, joinOne_concat, lastOf_concat, FileMap.addLoop, hread, hindex]
      by_cases hcontinues : Continues last vec
      · rw [if_pos ((merges_iff hhole).2 hcontinues), if_pos hcontinues]
        rw [if_pos hcontinues] at hrest
        rw [List.length_append, List.length_singleton] at hcount hmerge hstart
        have hone := hmerge hcontinues
        have hmerged := @Holds.mergeLast map memory last cached h (by omega) vec.length
        have hsame := mergeLast_same map memory cached.length vec.length
        have hlength' : (cached ++ [(⟨last.offset, last.length + vec.length⟩ : FileIoVec)]).length =
            cached.length + 1 := by simp
        -- the array is not freed before the last vec is added
        have hpointer : vecs ≠ [] →
            some (map.mergeLast memory (.at cached.length) vec.length).2 =
              lastOf (cached ++ [⟨last.offset, last.length + vec.length⟩]) := by
          intro hne
          have hpos := List.length_pos_iff.2 hne
          rw [lastOf_concat]
          unfold FileMap.mergeLast cachedFileExtents
          dsimp only
          rw [if_neg (by omega)]
        have hjoin := ih hmerged (by rw [hsame.1, hlength']; omega)
          (by rw [hlength']; push_cast; omega : start - 1 + ((i + 1 : ℕ) : ℤ) = _) hpointer hrest
        have htotal : total (cached ++ [(⟨last.offset, last.length + vec.length⟩ : FileIoVec)]) =
            total (cached ++ [last]) + vec.length := by
          rw [total_append, total_append, total_singleton, total_singleton]
          dsimp only
          omega
        rw [htotal] at hjoin
        exact ⟨hjoin.holds, hjoin.count, hjoin.stop, hjoin.size.trans hsame.2.1,
          hjoin.cacheAll.trans hsame.2.2⟩
      · rw [if_neg fun hmerges => hcontinues ((merges_iff hhole).1 hmerges), if_neg hcontinues]
        rw [if_neg hcontinues] at hrest
        have hreaches := hnew hrest
        exact ⟨hreaches.holds, hreaches.count, hreaches.stop, hreaches.size, hreaches.cacheAll⟩

lemma Holds.add (h : map.Holds cached) (hcount : map.fCount = cached.length)
    (hsafe : JoinSafe cached vecs) : map.Reaches (join cached vecs) (map.add memory vecs) := by
  have hsame := makeSpace_same map memory (map.fCount + vecs.length)
  have hspace := @Holds.makeSpace map memory cached h (map.fCount + vecs.length) (by omega)
  have hloop : ∀ lastExtent, (vecs ≠ [] → lastExtent = lastOf cached) →
      map.Reaches (join cached vecs) (FileMap.addLoop memory vecs map.fCount 0 lastExtent
        (total cached) (map.makeSpace memory (map.fCount + vecs.length))) := by
    intro lastExtent hlast
    have hreaches := @Holds.addLoop _ memory vecs cached map.fCount 0 lastExtent hspace
      (by rw [hsame.1, hcount]) (by omega) hlast hsafe
    exact ⟨hreaches.holds, hreaches.count, hreaches.stop, hreaches.size.trans hsame.2.1,
      hreaches.cacheAll.trans hsame.2.2⟩
  unfold FileMap.add
  dsimp only
  cases cached using List.reverseRecOn with
  | nil =>
    rw [if_neg (by rw [hcount]; simp)]
    exact hloop none fun _ => rfl
  | append_singleton cached last =>
    rw [List.length_append, List.length_singleton] at hcount
    have hslot := hspace.slot cached.length (by simp)
    rw [List.take_left, List.getElem_concat_length rfl] at hslot
    have hlast : map.fCount - 1 = cached.length := by omega
    rw [if_pos (by omega), hlast, hslot]
    have hreaches := hloop (some (.at cached.length)) fun _ => (lastOf_concat cached last).symm
    rw [total_append, total_singleton] at hreaches
    exact hreaches

lemma Holds.mapEnd_eq (h : map.Holds cached) (hcount : map.fCount = cached.length) :
    map.mapEnd = total cached := by
  unfold FileMap.mapEnd
  cases cached using List.reverseRecOn with
  | nil =>
    rw [if_neg (by rw [hcount]; simp)]
    rfl
  | append_singleton cached last =>
    rw [List.length_append, List.length_singleton] at hcount
    have hslot := h.slot cached.length (by simp)
    rw [List.take_left, List.getElem_concat_length rfl] at hslot
    have hlast : map.fCount - 1 = cached.length := by omega
    rw [if_pos (by omega), hlast, hslot, total_append, total_singleton]

/-! ## Caching -/

def cachedVecs (map : FileMap) : List FileIoVec :=
  (List.range map.fCount).map fun i => (map.extents.get i).disk

lemma Holds.cachedVecs_eq (h : map.Holds cached) (hcount : map.fCount = cached.length) :
    map.cachedVecs = cached := by
  unfold FileMap.cachedVecs
  apply List.ext_getElem
  · rw [List.length_map, List.length_range, hcount]
  · intro i hi hi'
    rw [List.getElem_map, List.getElem_range, h.slot i hi']

structure Caches (map : FileMap) (list cached : List FileIoVec) : Prop where
  holds : map.Holds cached
  count : map.fCount = cached.length
  maps : Maps cached list

end FileMap

/-- The portions that are added until the map reaches an offset are safe. -/
def PortionsSafe (portions : ℕ → Fin 8) (stop : ℤ) :
    ℕ → ℕ → List FileIoVec → List FileIoVec → Prop
  | 0, _, _, _ => True
  | fuel + 1, n, cached, vecs =>
    total cached < stop → JoinSafe cached (vecs.take ((portions n : ℕ) + 1)) ∧
      PortionsSafe portions stop fuel (n + 1) (join cached (vecs.take ((portions n : ℕ) + 1)))
        (vecs.drop ((portions n : ℕ) + 1))

lemma length_rest_le (list : List FileIoVec) (p : ℤ) : (rest list p).length ≤ list.length := by
  induction list generalizing p with
  | nil => exact le_refl 0
  | cons vec list ih =>
    rw [rest]
    split_ifs
    · exact le_refl _
    · exact Nat.le_succ_of_le (ih _)

namespace FileMap

lemma Caches.cacheLoop {fuel n : ℕ} (h : map.Caches list cached) (hlist : ∀ vec ∈ list, vec.Sound)
    (hstop : stop ≤ total list) (hfuel : (rest list (total cached)).length < fuel)
    (hsafe : PortionsSafe portions stop fuel n cached (rest list (total cached))) :
    ∃ map' cached', cacheLoop memory list portions stop fuel n map (total cached) = some map' ∧
      map'.Caches list cached' ∧ stop ≤ total cached' ∧ total cached ≤ total cached' ∧
      map'.fSize = map.fSize ∧ map'.fCacheAll = map.fCacheAll := by
  induction fuel generalizing map cached n with
  | zero => omega
  | succ fuel ih =>
    rw [FileMap.cacheLoop]
    by_cases hlt : total cached < stop
    · obtain ⟨hjoin, hrest⟩ := hsafe hlt
      have hadd := @Holds.add map memory _ cached h.holds h.count hjoin
      obtain ⟨hmaps, hdrop⟩ := h.maps.join hlist ((portions n : ℕ) + 1)
      have hnonneg := total_nonneg h.maps.sound
      have htotal := total_rest hnonneg h.maps.le
      -- the list goes on, so that at least one vec is added
      have hne : 0 < (rest list (total cached)).length := by
        rw [List.length_pos_iff]
        intro hnil
        rw [hnil, total] at htotal
        omega
      rw [if_pos hlt]
      show ∃ map' cached', FileMap.cacheLoop memory list portions stop fuel (n + 1)
        (map.add memory ((rest list (total cached)).take ((portions n : ℕ) + 1))).1
        (map.add memory ((rest list (total cached)).take ((portions n : ℕ) + 1))).2 = some map' ∧ _
      rw [hadd.stop]
      have hcaches :
          (map.add memory ((rest list (total cached)).take ((portions n : ℕ) + 1))).1.Caches
          list (join cached ((rest list (total cached)).take ((portions n : ℕ) + 1))) :=
        ⟨hadd.holds, hadd.count, hmaps⟩
      obtain ⟨map', cached', hmap', hcaches', hreach, hle, hsize, hall⟩ := ih (n := n + 1) hcaches
        (by rw [hdrop, List.length_drop]; omega) (by rw [hdrop]; exact hrest)
      exact ⟨map', cached', hmap', hcaches', hreach, by omega, hsize.trans hadd.size,
        hall.trans hadd.cacheAll⟩
    · rw [if_neg hlt]
      exact ⟨map, cached, rfl, h, by omega, le_refl _, rfl, rfl⟩

end FileMap

/-!
## Finding and removing extents

`_FindExtent()` finds the extent of a byte that is cached. What `_InvalidateAfter()` leaves is cached as
before, and ends where the map was cut.
-/

variable {map : FileMap} {memory : Memory} {vec last : FileIoVec} {list list' cached : List FileIoVec}
  {x y offset : ℤ}

/-! ## Parts of what is cached -/

lemma Maps.take (h : Maps cached list) (i : ℕ) : Maps (cached.take i) list where
  sound := sound_take h.sound i
  apart := h.apart.take i
  le := (total_take_le h.sound i).trans h.le
  same x hx hlt := by
    have hle := total_take_le h.sound i
    rw [← h.same x hx (by omega)]
    conv_rhs => rw [← List.take_append_drop i cached]
    rw [locate_append_left hx hlt]

lemma Maps.shorten (h : Maps (cached ++ [last]) list) (hy : 0 < y) (hle : y ≤ last.length) :
    Maps (cached ++ [⟨last.offset, y⟩]) list := by
  have hsound := h.sound
  rw [List.forall_mem_append, List.forall_mem_singleton] at hsound
  have htotal : total (cached ++ [(⟨last.offset, y⟩ : FileIoVec)]) = total cached + y := by
    rw [total_append, total_singleton]
  have htotal' : total (cached ++ [last]) = total cached + last.length := by
    rw [total_append, total_singleton]
  have hlist := h.le
  constructor
  · rw [List.forall_mem_append, List.forall_mem_singleton]
    exact ⟨hsound.1, hy, hsound.2.2⟩
  · have hapart := h.apart
    rw [List.isChain_append] at hapart ⊢
    refine ⟨hapart.1, List.IsChain.singleton _, ?_⟩
    intro before hbefore after hafter
    rw [← Option.some.inj hafter]
    exact hapart.2.2 before hbefore last rfl
  · omega
  · intro x hx hlt
    rw [htotal] at hlt
    rw [← h.same x hx (by omega)]
    by_cases hin : x < total cached
    · rw [locate_append_left hx hin, locate_append_left hx hin]
    · rw [locate_append_right hsound.1 (by omega), locate_append_right hsound.1 (by omega)]
      rw [locate, if_pos (by dsimp only; omega), locate, if_pos (by omega)]
      rfl

lemma lt_total_of_locate (h : ∀ vec ∈ list, vec.Sound) (hsome : (locate list x).isSome) :
    x < total list := by
  by_contra hle
  have hright := locate_append_right h (by omega : total list ≤ x) []
  rw [List.append_nil] at hright
  rw [hright] at hsome
  cases hsome

lemma Maps.of_same (h : Maps cached list) (hlist : ∀ vec ∈ list', vec.Sound)
    (hsame : ∀ x, 0 ≤ x → x < total cached → locate list' x = locate list x) :
    Maps cached list' := by
  refine ⟨h.sound, h.apart, ?_, ?_⟩
  · have hnonneg := total_nonneg h.sound
    by_cases hpos : 0 < total cached
    · have hlast := hsame (total cached - 1) (by omega) (by omega)
      have hlocated : (locate cached (total cached - 1)).isSome :=
        locate_isSome (by omega) (by omega)
      rw [h.same _ (by omega) (by omega), ← hlast] at hlocated
      have hlt := lt_total_of_locate hlist hlocated
      omega
    · have hnonneg' := total_nonneg hlist
      omega
  · intro x hx hlt
    rw [hsame x hx hlt]
    exact h.same x hx hlt

/-! ## Finding -/

namespace FileMap

lemma findLoop_sound {fuel i : ℕ} {left right : ℤ} (hleft : 0 ≤ left)
    (hfound : map.findLoop x fuel left right = some i) :
    (i : ℤ) ≤ right ∧ (map.extents.get i).offset ≤ x ∧
      x < (map.extents.get i).offset + (map.extents.get i).disk.length := by
  induction fuel generalizing left right with
  | zero => cases hfound
  | succ fuel ih =>
    rw [findLoop] at hfound
    dsimp only at hfound
    split_ifs at hfound with hle hless hgreater
    · have hin := ih hleft hfound
      omega
    · exact ih (by omega) hfound
    · rw [← Option.some.inj hfound]
      omega

lemma Holds.findLoop {fuel j : ℕ} {left right : ℤ} (h : map.Holds cached)
    (hsound : ∀ vec ∈ cached, vec.Sound) (hj : j < cached.length)
    (hstart : total (cached.take j) ≤ x) (hend : x < total (cached.take j) + cached[j].length)
    (hleft : 0 ≤ left) (hlj : left ≤ j) (hjr : j ≤ right) (hright : right < cached.length)
    (hfuel : right - left < fuel) : map.findLoop x fuel left right = some j := by
  induction fuel generalizing left right with
  | zero => omega
  | succ fuel ih =>
    have hindex : (left + right) / 2 = (((left + right) / 2).toNat : ℤ) := by omega
    generalize hm : ((left + right) / 2).toNat = m at hindex
    have hml : left ≤ m := by omega
    have hmr : (m : ℤ) ≤ right := by omega
    have hslot := h.slot m (by omega)
    rw [FileMap.findLoop, if_pos (by omega)]
    dsimp only
    rw [hm, hslot, hindex]
    dsimp only
    rw [← total_take_succ hj] at hend
    rw [← total_take_succ]
    split_ifs with hless hgreater
    · have hjm : j < m := by
        by_contra hle
        have hmono := total_take_mono hsound (by omega : m ≤ j)
        omega
      exact ih hleft hlj (by omega) (by omega) (by omega)
    · have hjm : m < j := by
        by_contra hle
        have hmono := total_take_mono hsound (by omega : j + 1 ≤ m + 1)
        omega
      exact ih (by omega) (by omega) hjr hright (by omega)
    · -- neither can be before the other
      have hle : ¬ j < m := by
        intro hlt
        have hmono := total_take_mono hsound (by omega : j + 1 ≤ m)
        omega
      have hge : ¬ m < j := by
        intro hlt
        have hmono := total_take_mono hsound (by omega : m + 1 ≤ j)
        omega
      rw [show m = j by omega]

lemma Caches.findExtent (h : map.Caches list cached) (hx : 0 ≤ x) (hlt : x < total cached) :
    ∃ i, ∃ hi : i < cached.length, map.findExtent x = some i ∧ total (cached.take i) ≤ x ∧
      x < total (cached.take i) + cached[i].length := by
  obtain ⟨i, hi, hstart, hend⟩ := exists_index hx hlt
  have hcount := h.count
  refine ⟨i, hi, ?_, hstart, hend⟩
  unfold FileMap.findExtent
  apply h.holds.findLoop h.maps.sound hi hstart hend
  · omega
  · omega
  · omega
  · omega
  · omega

lemma Caches.findExtent_none (h : map.Caches list cached) (hx : total cached ≤ x) :
    map.findExtent x = none := by
  cases hfound : map.findExtent x with
  | none => rfl
  | some i =>
    have hcount := h.count
    obtain ⟨hright, _, hend⟩ := findLoop_sound (le_refl 0) hfound
    have hi : i < cached.length := by omega
    have hle := total_take_le h.maps.sound (i + 1)
    rw [h.holds.slot i hi, ← total_take_succ hi] at hend
    omega

/-! ## Removing -/

lemma invalidateAfter_same (map : FileMap) (memory : Memory) (offset : ℤ) :
    (map.invalidateAfter memory offset).fSize = map.fSize ∧
      (map.invalidateAfter memory offset).fCacheAll = map.fCacheAll := by
  unfold invalidateAfter
  split
  · exact ⟨rfl, rfl⟩
  · dsimp only
    split_ifs <;> exact (makeSpace_same _ memory _).2

lemma Caches.invalidateAfter (h : map.Caches list cached) (hoffset : 0 ≤ offset) :
    ∃ cached', (map.invalidateAfter memory offset).Caches list cached' ∧ total cached' ≤ offset := by
  by_cases hlt : offset < total cached
  · obtain ⟨i, hi, hfound, hstart, hend⟩ := h.findExtent hoffset hlt
    have hslot := h.holds.slot i hi
    have hlength : (cached.take i).length = i := by
      rw [List.length_take]
      omega
    have hwrite := (h.holds.take i).write (by rw [hlength, h.count]; exact hi)
      ⟨cached[i].offset, offset - total (cached.take i)⟩
    rw [hlength] at hwrite
    unfold FileMap.invalidateAfter
    rw [hfound]
    dsimp only
    rw [hslot]
    dsimp only
    rw [if_pos (by omega)]
    split_ifs with hzero
    · -- nothing of the extent is left
      have htake := hwrite.take i
      rw [List.take_append_of_le_length (by omega), List.take_take, Nat.min_self] at htake
      exact ⟨cached.take i, ⟨htake.makeSpace (by omega), by rw [(makeSpace_same _ memory _).1, hlength],
        h.maps.take i⟩, by omega⟩
    · have hmaps := h.maps.take (i + 1)
      rw [List.take_succ_eq_append_getElem hi] at hmaps
      have hshort := hmaps.shorten (y := offset - total (cached.take i)) (by omega) (by omega)
      refine ⟨_, ⟨hwrite.makeSpace ?_, ?_, hshort⟩, ?_⟩
      · rw [List.length_append, List.length_singleton, hlength]
      · rw [(makeSpace_same _ memory _).1, List.length_append, List.length_singleton, hlength]
      · rw [total_append, total_singleton]
        dsimp only
        omega
  · have hsame : map.invalidateAfter memory offset = map := by
      unfold FileMap.invalidateAfter
      rw [h.findExtent_none (by omega)]
    rw [hsame]
    exact ⟨cached, h, by omega⟩

lemma Caches.invalidate (h : map.Caches list cached) (hoffset : 0 ≤ offset)
    (hlist : ∀ vec ∈ list, vec.Sound) :
    ∃ cached', (map.invalidate memory offset).Caches list cached' ∧ total cached' ≤ offset := by
  unfold FileMap.invalidate
  split_ifs with hzero
  · have hcreate := holds_create memory map.fSize
    exact ⟨[], ⟨⟨hcreate.slot, hcreate.count, hcreate.room, hcreate.direct⟩, rfl, maps_nil hlist⟩,
      hoffset⟩
  · exact h.invalidateAfter hoffset

end FileMap

end Haiku.FileMapping
