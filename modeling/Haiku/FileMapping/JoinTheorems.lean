import Haiku.FileMapping.Basic
import Mathlib.Data.List.Chain

/-!
# Locations

A list of vecs says where each byte of a file is on disk. Vecs that continue each other may be merged,
and a list may be cut off and go on elsewhere, as long as each byte stays where it is.
-/

namespace Haiku.FileMapping

def total : List FileIoVec → ℤ
  | [] => 0
  | vec :: vecs => vec.length + total vecs

def locate : List FileIoVec → ℤ → Option ℤ
  | [], _ => none
  | vec :: vecs, x =>
    if x < vec.length then some (vec.place x) else locate vecs (x - vec.length)

attribute [simp] total locate rest

/-- A vec that is not empty, and starts on the disk unless it is a hole -/
def FileIoVec.Sound (vec : FileIoVec) : Prop := 0 < vec.length ∧ -1 ≤ vec.offset

def Continues (last vec : FileIoVec) : Prop :=
  last.offset ≠ -1 ∧ last.offset + last.length = vec.offset ∨ last.offset = -1 ∧ vec.offset = -1

instance (vec : FileIoVec) : Decidable vec.Sound := inferInstanceAs (Decidable (_ ∧ _))

instance (last vec : FileIoVec) : Decidable (Continues last vec) :=
  inferInstanceAs (Decidable (_ ∨ _))

variable {vec last : FileIoVec} {vecs list cached : List FileIoVec} {x p : ℤ}

/-! ## Lists of vecs -/

lemma total_append (vecs vecs' : List FileIoVec) :
    total (vecs ++ vecs') = total vecs + total vecs' := by
  induction vecs with
  | nil => simp
  | cons vec vecs ih =>
    rw [List.cons_append, total, total, ih]
    omega

lemma total_nonneg (h : ∀ vec ∈ vecs, vec.Sound) : 0 ≤ total vecs := by
  induction vecs with
  | nil => exact le_refl 0
  | cons vec vecs ih =>
    rw [List.forall_mem_cons] at h
    have hlength := h.1.1
    have hrest := ih h.2
    rw [total]
    omega

lemma total_singleton (vec : FileIoVec) : total [vec] = vec.length := by
  show vec.length + 0 = vec.length
  omega

lemma locate_append_left (hx : 0 ≤ x) (hlt : x < total vecs) (vecs' : List FileIoVec) :
    locate (vecs ++ vecs') x = locate vecs x := by
  induction vecs generalizing x with
  | nil =>
    rw [total] at hlt
    omega
  | cons vec vecs ih =>
    rw [total] at hlt
    rw [List.cons_append, locate, locate]
    by_cases hlength : x < vec.length
    · rw [if_pos hlength, if_pos hlength]
    · rw [if_neg hlength, if_neg hlength]
      apply ih
      · omega
      · omega

lemma locate_append_right (h : ∀ vec ∈ vecs, vec.Sound) (hle : total vecs ≤ x)
    (vecs' : List FileIoVec) : locate (vecs ++ vecs') x = locate vecs' (x - total vecs) := by
  induction vecs generalizing x with
  | nil =>
    show locate vecs' x = locate vecs' (x - 0)
    rw [Int.sub_zero]
  | cons vec vecs ih =>
    rw [List.forall_mem_cons] at h
    have hnonneg := total_nonneg h.2
    rw [total] at hle ⊢
    rw [List.cons_append, locate, if_neg (by omega), ih h.2 (by omega)]
    congr 1
    omega

lemma locate_isSome (hx : 0 ≤ x) (hlt : x < total vecs) : (locate vecs x).isSome := by
  induction vecs generalizing x with
  | nil =>
    rw [total] at hlt
    omega
  | cons vec vecs ih =>
    rw [total] at hlt
    rw [locate]
    by_cases hlength : x < vec.length
    · rw [if_pos hlength]
      rfl
    · rw [if_neg hlength]
      apply ih
      · omega
      · omega

lemma total_take_succ {i : ℕ} (hi : i < vecs.length) :
    total (vecs.take (i + 1)) = total (vecs.take i) + vecs[i].length := by
  rw [List.take_succ_eq_append_getElem hi, total_append, total_singleton]

section

variable (h : ∀ vec ∈ vecs, vec.Sound)
include h

lemma sound_take (i : ℕ) : ∀ vec ∈ vecs.take i, vec.Sound :=
  fun vec hvec => h vec (List.mem_of_mem_take hvec)

lemma total_take_mono {i j : ℕ} (hij : i ≤ j) : total (vecs.take i) ≤ total (vecs.take j) := by
  have hsplit : vecs.take j = vecs.take i ++ (vecs.drop i).take (j - i) := by
    rw [← List.take_add, Nat.add_sub_cancel' hij]
  have hrest : 0 ≤ total ((vecs.drop i).take (j - i)) :=
    total_nonneg fun vec hvec => h vec (List.mem_of_mem_drop (List.mem_of_mem_take hvec))
  rw [hsplit, total_append]
  omega

lemma total_take_le (i : ℕ) : total (vecs.take i) ≤ total vecs := by
  have hmono := total_take_mono h (Nat.le_max_left i vecs.length)
  rw [List.take_of_length_le (Nat.le_max_right _ _)] at hmono
  exact hmono

end

lemma exists_index (hx : 0 ≤ x) (hlt : x < total vecs) : ∃ i, ∃ hi : i < vecs.length,
    total (vecs.take i) ≤ x ∧ x < total (vecs.take i) + vecs[i].length := by
  induction vecs generalizing x with
  | nil =>
    rw [total] at hlt
    omega
  | cons vec vecs ih =>
    rw [total] at hlt
    by_cases hlength : x < vec.length
    · refine ⟨0, Nat.zero_lt_succ _, ?_⟩
      show (0 : ℤ) ≤ x ∧ x < 0 + vec.length
      omega
    · obtain ⟨i, hi, hle, hlt'⟩ := @ih (x - vec.length) (by omega) (by omega)
      refine ⟨i + 1, Nat.succ_lt_succ hi, ?_⟩
      show vec.length + total (vecs.take i) ≤ x ∧
        x < vec.length + total (vecs.take i) + vecs[i].length
      omega

/-! ## The rest of a list -/

lemma FileIoVec.Sound.advance (h : vec.Sound) (hp : 0 ≤ p) (hlt : p < vec.length) :
    (vec.advance p).Sound := by
  have hoffset := h.2
  unfold FileIoVec.advance FileIoVec.place
  constructor
  · show 0 < vec.length - p
    omega
  · dsimp only
    split_ifs <;> omega

lemma FileIoVec.Sound.place_advance (h : vec.Sound) (hp : 0 ≤ p) (x : ℤ) :
    (vec.advance p).place x = vec.place (p + x) := by
  have hoffset := h.2
  unfold FileIoVec.advance FileIoVec.place
  dsimp only
  by_cases hhole : vec.offset = -1
  · rw [if_pos hhole, if_pos rfl, if_pos hhole]
  · rw [if_neg hhole, if_neg (by omega), if_neg hhole, Int.add_assoc]

lemma FileIoVec.advance_zero (vec : FileIoVec) : vec.advance 0 = vec := by
  unfold FileIoVec.advance FileIoVec.place
  rw [Int.sub_zero, Int.add_zero]
  split_ifs with hhole
  · rw [← hhole]
  · rfl

lemma sound_rest (h : ∀ vec ∈ list, vec.Sound) (hp : 0 ≤ p) : ∀ vec ∈ rest list p, vec.Sound := by
  induction list generalizing p with
  | nil => exact h
  | cons vec list ih =>
    rw [List.forall_mem_cons] at h
    rw [rest]
    split_ifs with hlt
    · rw [List.forall_mem_cons]
      exact ⟨h.1.advance hp hlt, h.2⟩
    · exact ih h.2 (by omega)

lemma total_rest (hp : 0 ≤ p) (hle : p ≤ total list) : total (rest list p) = total list - p := by
  induction list generalizing p with
  | nil =>
    rw [total] at hle
    rw [rest, total]
    omega
  | cons vec list ih =>
    rw [total] at hle
    rw [rest]
    split_ifs with hlt
    · show vec.length - p + total list = vec.length + total list - p
      omega
    · rw [ih (by omega) (by omega), total]
      omega

section

variable (h : ∀ vec ∈ list, vec.Sound)
include h

lemma locate_rest (hp : 0 ≤ p) (hx : 0 ≤ x) : locate (rest list p) x = locate list (p + x) := by
  induction list generalizing p with
  | nil => rfl
  | cons vec list ih =>
    rw [List.forall_mem_cons] at h
    have hlength : (vec.advance p).length = vec.length - p := rfl
    rw [rest, locate]
    by_cases hlt : p < vec.length
    · rw [if_pos hlt, locate, hlength]
      by_cases hin : p + x < vec.length
      · rw [if_pos hin, if_pos (by omega), h.1.place_advance hp]
      · rw [if_neg hin, if_neg (by omega)]
        congr 1
        omega
    · rw [if_neg hlt, if_neg (by omega), ih h.2 (by omega)]
      congr 1
      omega

lemma rest_total_take (k : ℕ) : rest list (total (list.take k)) = list.drop k := by
  induction k generalizing list with
  | zero =>
    cases list with
    | nil => rfl
    | cons vec list =>
      have hlength := (h vec List.mem_cons_self).1
      show rest (vec :: list) 0 = vec :: list
      rw [rest, if_pos hlength, FileIoVec.advance_zero]
  | succ k ih =>
    cases list with
    | nil => rfl
    | cons vec list =>
      rw [List.forall_mem_cons] at h
      have hnonneg := total_nonneg (sound_take h.2 k)
      show rest (vec :: list) (vec.length + total (list.take k)) = list.drop k
      rw [rest, if_neg (by omega), show vec.length + total (list.take k) - vec.length =
        total (list.take k) by omega]
      exact ih h.2

lemma rest_rest (hp : 0 ≤ p) (hx : 0 ≤ x) : rest (rest list p) x = rest list (p + x) := by
  induction list generalizing p with
  | nil => rfl
  | cons vec list ih =>
    rw [List.forall_mem_cons] at h
    have hlength : (vec.advance p).length = vec.length - p := rfl
    rw [rest]
    by_cases hlt : p < vec.length
    · rw [if_pos hlt, rest, rest, hlength]
      by_cases hin : p + x < vec.length
      · have hplace := h.1.place_advance hp x
        rw [if_pos hin, if_pos (by omega)]
        unfold FileIoVec.advance at hplace ⊢
        rw [hplace, Int.sub_sub]
      · rw [if_neg hin, if_neg (by omega)]
        congr 1
        omega
    · rw [if_neg hlt, rest, if_neg (by omega), ih h.2 (by omega)]
      congr 1
      omega

end

/-!
## Joining vecs

What the map caches of a file: the vecs that describe its first bytes, with no two that could be one.
A vec that follows is joined to the last one if it continues it.
-/

/-- The vecs describe the first bytes of the list, as few as there can be. -/
structure Maps (cached list : List FileIoVec) : Prop where
  sound : ∀ vec ∈ cached, vec.Sound
  apart : cached.IsChain fun last vec => ¬ Continues last vec
  le : total cached ≤ total list
  same : ∀ x, 0 ≤ x → x < total cached → locate cached x = locate list x

def joinOne (cached : List FileIoVec) (vec : FileIoVec) : List FileIoVec :=
  match cached.getLast? with
  | none => [vec]
  | some last =>
    if Continues last vec then cached.dropLast ++ [⟨last.offset, last.length + vec.length⟩]
    else cached ++ [vec]

def join (cached vecs : List FileIoVec) : List FileIoVec := vecs.foldl joinOne cached

/-- No vec is mistaken for one that continues a hole, and no vec but the last one is added to the only
extent of the map when two are left to be added. -/
def JoinSafe : List FileIoVec → List FileIoVec → Prop
  | _, [] => True
  | cached, vec :: vecs =>
    (∀ last ∈ cached.getLast?, ¬ (last.offset = -1 ∧ vec.offset = last.length - 1) ∧
      (Continues last vec → ¬ (cached.length = 1 ∧ vecs.length = 1))) ∧
    JoinSafe (joinOne cached vec) vecs

variable {vec last : FileIoVec} {vecs list cached : List FileIoVec} {x p : ℤ}

lemma maps_nil (h : ∀ vec ∈ list, vec.Sound) : Maps [] list where
  sound vec hvec := by cases hvec
  apart := List.IsChain.nil
  le := total_nonneg h
  same x hx hlt := by
    rw [total] at hlt
    omega

lemma joinOne_concat (cached : List FileIoVec) (last vec : FileIoVec) :
    joinOne (cached ++ [last]) vec =
      if Continues last vec then cached ++ [⟨last.offset, last.length + vec.length⟩]
      else cached ++ [last] ++ [vec] := by
  unfold joinOne
  rw [List.getLast?_concat, List.dropLast_concat]

lemma total_joinOne (cached : List FileIoVec) (vec : FileIoVec) :
    total (joinOne cached vec) = total cached + vec.length := by
  cases cached using List.reverseRecOn with
  | nil =>
    show vec.length + 0 = 0 + vec.length
    omega
  | append_singleton cached last =>
    rw [joinOne_concat]
    split_ifs
    · rw [total_append, total_append, total_singleton, total_singleton]
      dsimp only
      omega
    · rw [total_append, total_singleton]

lemma place_of_continues (h : Continues last vec) (hlast : last.Sound) (x : ℤ) :
    last.place x = vec.place (x - last.length) := by
  have hlength := hlast.1
  have hoffset := hlast.2
  unfold FileIoVec.place
  rcases h with ⟨hne, heq⟩ | ⟨hhole, hhole'⟩
  · rw [if_neg hne, if_neg (by omega)]
    omega
  · rw [if_pos hhole, if_pos hhole']

lemma locate_joinOne (h : ∀ vec ∈ cached, vec.Sound) (hvec : vec.Sound) (hx : 0 ≤ x) :
    locate (joinOne cached vec) x = locate (cached ++ [vec]) x := by
  cases cached using List.reverseRecOn with
  | nil => rfl
  | append_singleton cached last =>
    rw [joinOne_concat]
    split_ifs with hcontinues
    · have hlast : last.Sound := h last (by simp)
      have hcached : ∀ vec ∈ cached, vec.Sound := fun v hv => h v (by simp [hv])
      have hlength' := hvec.1
      by_cases hlt : x < total cached
      · rw [locate_append_left hx hlt, List.append_assoc, locate_append_left hx hlt]
      · rw [locate_append_right hcached (by omega), List.append_assoc,
          locate_append_right hcached (by omega)]
        -- now the byte is looked for from the start of the last vec on
        have hy : 0 ≤ x - total cached := by omega
        generalize x - total cached = y at hy
        show locate [⟨last.offset, last.length + vec.length⟩] y = locate [last, vec] y
        rw [locate, locate, locate, locate]
        dsimp only
        have hplace :
            FileIoVec.place ⟨last.offset, last.length + vec.length⟩ y = last.place y := rfl
        rw [hplace]
        by_cases hin : y < last.length
        · rw [if_pos hin, if_pos (by omega)]
        · rw [if_neg hin, place_of_continues hcontinues hlast]
          by_cases hin' : y < last.length + vec.length
          · rw [if_pos hin', if_pos (by omega)]
          · rw [if_neg hin', if_neg (by omega)]
            rfl
    · rfl

lemma sound_joinOne (h : ∀ vec ∈ cached, vec.Sound) (hvec : vec.Sound) :
    ∀ vec' ∈ joinOne cached vec, vec'.Sound := by
  cases cached using List.reverseRecOn with
  | nil =>
    show ∀ vec' ∈ [vec], vec'.Sound
    rw [List.forall_mem_singleton]
    exact hvec
  | append_singleton cached last =>
    have hlast : last.Sound := h last (by simp)
    have hlength := hlast.1
    have hlength' := hvec.1
    rw [joinOne_concat]
    split_ifs
    · rw [List.forall_mem_append, List.forall_mem_singleton]
      refine ⟨fun v hv => h v (by simp [hv]), ?_, hlast.2⟩
      show 0 < last.length + vec.length
      omega
    · rw [List.forall_mem_append, List.forall_mem_singleton]
      exact ⟨h, hvec⟩

lemma isChain_joinOne (h : cached.IsChain fun last vec => ¬ Continues last vec) :
    (joinOne cached vec).IsChain fun last vec => ¬ Continues last vec := by
  cases cached using List.reverseRecOn with
  | nil => exact List.IsChain.singleton vec
  | append_singleton cached last =>
    rw [joinOne_concat]
    split_ifs with hcontinues
    · -- whether the last vec continues the one before depends on its offset only
      rw [List.isChain_append] at h ⊢
      refine ⟨h.1, List.IsChain.singleton _, ?_⟩
      intro before hbefore after hafter
      rw [← Option.some.inj hafter]
      exact h.2.2 before hbefore last rfl
    · rw [List.isChain_append]
      refine ⟨h, List.IsChain.singleton _, ?_⟩
      intro before hbefore after hafter
      rw [List.getLast?_concat] at hbefore
      rw [← Option.some.inj hafter, ← Option.some.inj hbefore]
      exact hcontinues

lemma Maps.joinOne (h : Maps cached list) (hlist : ∀ vec ∈ list, vec.Sound)
    (hrest : rest list (total cached) = vec :: vecs) :
    Maps (joinOne cached vec) list ∧ rest list (total (FileMapping.joinOne cached vec)) = vecs := by
  have hnonneg := total_nonneg h.sound
  have hsound := sound_rest hlist hnonneg
  have htotal := total_rest hnonneg h.le
  rw [hrest, List.forall_mem_cons] at hsound
  rw [hrest, total] at htotal
  have hlength := hsound.1.1
  have htail := total_nonneg hsound.2
  constructor
  · constructor
    · exact sound_joinOne h.sound hsound.1
    · exact isChain_joinOne h.apart
    · rw [total_joinOne]
      omega
    · intro x hx hlt
      rw [total_joinOne] at hlt
      rw [locate_joinOne h.sound hsound.1 hx]
      by_cases hin : x < total cached
      · rw [locate_append_left hx hin]
        exact h.same x hx hin
      · have hbehind : x = total cached + (x - total cached) := by omega
        rw [locate_append_right h.sound (by omega)]
        conv_rhs => rw [hbehind, ← locate_rest hlist hnonneg (by omega), hrest]
        rw [locate, if_pos (by omega), locate, if_pos (by omega)]
  · rw [total_joinOne, ← rest_rest hlist hnonneg (by omega), hrest, rest, if_neg (by omega),
      Int.sub_self]
    exact rest_total_take hsound.2 0

lemma Maps.join (h : Maps cached list) (hlist : ∀ vec ∈ list, vec.Sound) (k : ℕ) :
    Maps (join cached ((rest list (total cached)).take k)) list ∧
      rest list (total (FileMapping.join cached ((rest list (total cached)).take k))) =
        (rest list (total cached)).drop k := by
  induction k generalizing cached with
  | zero => exact ⟨h, rfl⟩
  | succ k ih =>
    cases hrest : rest list (total cached) with
    | nil => exact ⟨h, hrest⟩
    | cons vec vecs =>
      obtain ⟨hone, hrest'⟩ := h.joinOne hlist hrest
      have hmaps := ih hone
      rw [hrest'] at hmaps
      exact hmaps

end Haiku.FileMapping
