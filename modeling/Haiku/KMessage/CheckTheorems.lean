import Haiku.KMessage.Basic
import Haiku.Lock.ReadWriteInvariant

/-!
# What the checks of a message buffer promise

`_InitFromBuffer()` checks the fields from the first one on. What it accepts is read without leaving
the buffer, except that it does not compare the elements of a field with fixed element size with the
size of the field, and that it accepts values with a negative size.
-/

namespace Haiku.KMessage

open Lib Lock

variable {m : Memory} {size pos data d : ℤ} {header : FieldHeader} {n k : ℕ}

/-! ## Arithmetic of offsets -/

lemma roundUp_bounds (x : ℤ) : x ≤ roundUp x ∧ roundUp x ≤ x + 3 := by
  unfold roundUp
  omega

variable {x : ℤ}

lemma int32_congr {y : ℤ} (h : (x - y) % 2 ^ 32 = 0) : int32 x = int32 y := by
  unfold int32
  rw [Int.bmod_def, Int.bmod_def]
  have hmod : x % (2 ^ 32 : ℕ) = y % (2 ^ 32 : ℕ) := by
    push_cast
    omega
  rw [hmod]

lemma int32_sub_int32 {y : ℤ} (hlo : -0x80000000 ≤ x - y) (hhi : x - y ≤ 0x7fffffff) :
    int32 (x - int32 y) = x - y := by
  have hmod : (int32 y - y) % 2 ^ 32 = 0 := by
    have hself : (y.bmod 4294967296) % 4294967296 = y % 4294967296 := Int.bmod_emod
    show (y.bmod 4294967296 - y) % 4294967296 = 0
    omega
  rw [int32_congr (y := x - y) (by omega)]
  exact int32_eq hlo hhi

lemma firstFieldHeader_eq : firstFieldHeader = 28 := by decide

lemma align_spec (hx : 0 ≤ d) (hle : d ≤ 0x7fffffff) (hsize : 0 ≤ size)
    (hlt : size ≤ 0x7fffffff) :
    int32 (size - align d) = size - roundUp d ∧ (roundUp d ≤ 0x7fffffff → align d = roundUp d) := by
  have hbounds : d ≤ roundUp d ∧ roundUp d ≤ 0x80000000 := by
    unfold roundUp
    omega
  constructor
  · apply int32_sub_int32
    · omega
    · omega
  · intro h
    exact int32_eq (by omega) h

/-! ## Reading inside of the buffer -/

lemma int32At_bounds (h : int32At m pos = some x) : -0x80000000 ≤ x ∧ x ≤ 0x7fffffff := by
  obtain ⟨bytes, _, hx⟩ := Option.map_eq_some_iff.1 h
  have hlo := Int.le_bmod (x := number bytes) (m := 4294967296) (by decide)
  have hhi := Int.bmod_lt (x := number bytes) (m := 4294967296) (by decide)
  have heq : x = (number bytes : ℤ).bmod 4294967296 := hx.symm
  omega

section

variable {m' : Memory} (h : m'.Agree m size)

include h

lemma int32At_agree (hpos : 0 ≤ pos) (hle : pos + 4 ≤ size) :
    int32At m' pos = int32At m pos := by
  rw [int32At, int32At, h.read hpos (by omega)]

lemma uint32At_agree (hpos : 0 ≤ pos) (hle : pos + 4 ≤ size) :
    uint32At m' pos = uint32At m pos := by
  rw [uint32At, uint32At, h.read hpos (by omega)]

lemma int16At_agree (hpos : 0 ≤ pos) (hle : pos + 2 ≤ size) :
    int16At m' pos = int16At m pos := by
  rw [int16At, int16At, h.read hpos (by omega)]

lemma fieldHeaderAt_agree (hpos : 0 ≤ pos) (hle : pos + 18 ≤ size) :
    fieldHeaderAt m' pos = fieldHeaderAt m pos := by
  unfold fieldHeaderAt
  rw [uint32At_agree h (by omega) (by omega), int16At_agree h (by omega) (by omega),
    int32At_agree h (by omega) (by omega), int32At_agree h (by omega) (by omega),
    int32At_agree h (by omega) (by omega)]

lemma strnlen_agree {max : ℕ} (hpos : 0 ≤ pos) (hle : pos + max ≤ size) :
    strnlen m' pos max = strnlen m pos max := by
  induction max generalizing pos with
  | zero => rfl
  | succ max ih =>
    rw [strnlen, strnlen, h pos hpos (by omega), ih (by omega) (by omega)]

end

/-- What the parts of a field header are. -/
structure ReadsHeader (m : Memory) (pos : ℤ) (header : FieldHeader) : Prop where
  type : uint32At m pos = some header.type
  elementSize : int32At m (pos + 4) = some header.elementSize
  elementCount : int32At m (pos + 8) = some header.elementCount
  fieldSize : int32At m (pos + 12) = some header.fieldSize
  headerSize : int16At m (pos + 16) = some header.headerSize

lemma fieldHeaderAt_eq_some : fieldHeaderAt m pos = some header ↔ ReadsHeader m pos header := by
  constructor
  · intro h
    unfold fieldHeaderAt at h
    simp only [Option.bind_eq_bind, Option.bind_eq_some_iff] at h
    obtain ⟨type, htype, elementSize, hes, elementCount, hec, fieldSize, hfs, headerSize, hhs, h⟩ := h
    cases h
    exact ⟨htype, hes, hec, hfs, hhs⟩
  · intro h
    unfold fieldHeaderAt
    rw [h.type, h.elementSize, h.elementCount, h.fieldSize, h.headerSize]
    rfl

/-! ## What the checks accept -/

/-- What `_InitFromBuffer()` knows of a field that it accepted. -/
structure Checked (m : Memory) (size pos : ℤ) (header : FieldHeader) : Prop where
  reads : fieldHeaderAt m pos = some header
  type_ne : header.type ≠ anyType
  elementCount_nonneg : 0 ≤ header.elementCount
  fieldSize_ge : 20 ≤ header.fieldSize
  fieldSize_le : header.fieldSize ≤ size - pos
  headerSize_ge : 20 ≤ header.headerSize
  headerSize_le : header.headerSize ≤ header.fieldSize
  name : ∃ n : ℕ, strnlen m (pos + 18) (header.headerSize - 18).toNat = some n ∧ 0 < n ∧
    (n : ℤ) < header.headerSize - 18
  elements : header.hasFixedElementSize = false → ∃ fieldSize,
    checkElements m size pos header.elementCount.toNat (int32 (pos + header.headerSize))
      header.headerSize = some (some fieldSize) ∧ fieldSize ≤ header.fieldSize

/-- The fields from the offset `d` on, which the checks accept one after the other. -/
inductive Fields (m : Memory) (size : ℤ) : ℤ → List ℤ → Prop
  | nil {d : ℤ} (done : size ≤ d) : Fields m size d []
  | cons {d : ℤ} {header : FieldHeader} {ps : List ℤ} (lt : d < size)
      (checked : Checked m size d header) (rest : Fields m size (roundUp (d + header.fieldSize)) ps) :
      Fields m size d (d :: ps)

lemma strnlen_le {max : ℕ} (h : strnlen m pos max = some n) : n ≤ max := by
  induction max generalizing pos n with
  | zero =>
    cases h
    exact le_refl 0
  | succ max ih =>
    obtain ⟨b, _, h⟩ := Option.bind_eq_some_iff.1 h
    split at h
    · cases h
      omega
    · obtain ⟨k, hk, h⟩ := Option.map_eq_some_iff.1 h
      have hle := ih hk
      omega

lemma not_of_check {c : Prop} [Decidable c] {x : Option (Option ℤ)} {next : ℤ}
    (h : (if c then some none else x) = some (some next)) : ¬c ∧ x = some (some next) := by
  split_ifs at h with hc
  · cases h
  · exact ⟨hc, h⟩

lemma checkField_spec {next : ℤ} (hpos : 0 ≤ pos) (hlt : pos < size) (hsize : size ≤ 0x7fffffff)
    (h : checkField m size pos = some (some next)) :
    ∃ header, Checked m size pos header ∧ next = align (pos + header.fieldSize) := by
  have hremaining : int32 (size - pos) = size - pos := int32_eq (by omega) (by omega)
  unfold checkField at h
  dsimp only at h
  rw [hremaining] at h
  obtain ⟨_, h⟩ := not_of_check h
  obtain ⟨header, hreads, h⟩ := Option.bind_eq_some_iff.1 h
  obtain ⟨htype, h⟩ := not_of_check h
  obtain ⟨hcount, h⟩ := not_of_check h
  obtain ⟨hfieldSize, h⟩ := not_of_check h
  obtain ⟨hheaderSize, h⟩ := not_of_check h
  obtain ⟨nameLen, hname, h⟩ := Option.bind_eq_some_iff.1 h
  obtain ⟨hnameLen, h⟩ := not_of_check h
  have hge : fieldHeaderSize = 20 := rfl
  have hoffset : nameOffset = 18 := rfl
  rw [hge] at hfieldSize hheaderSize
  rw [hoffset] at hname hnameLen
  have hle := strnlen_le hname
  have hchecked : (header.hasFixedElementSize = false → ∃ fieldSize,
      checkElements m size pos header.elementCount.toNat (int32 (pos + header.headerSize))
        header.headerSize = some (some fieldSize) ∧ fieldSize ≤ header.fieldSize) →
      Checked m size pos header := fun helements =>
    ⟨hreads, htype, by omega, by omega, by omega, by omega, by omega,
      ⟨nameLen, hname, by omega, by omega⟩, helements⟩
  by_cases hfixed : header.hasFixedElementSize = true
  · rw [if_pos hfixed] at h
    cases h
    refine ⟨header, hchecked fun hnot => ?_, rfl⟩
    rw [hfixed] at hnot
    cases hnot
  · rw [if_neg hfixed] at h
    obtain ⟨result, hresult, h⟩ := Option.map_eq_some_iff.1 h
    cases result with
    | none => cases h
    | some fieldSize =>
      dsimp only at h
      split_ifs at h with hfits
      cases h
      exact ⟨header, hchecked fun _ => ⟨fieldSize, hresult, by omega⟩, rfl⟩

lemma checkFields_spec {fuel : ℕ} {last l : ℤ} (hd : 0 ≤ d) (hle : d ≤ 0x7fffffff)
    (hsize : 0 ≤ size) (hlt : size ≤ 0x7fffffff)
    (h : checkFields m size fuel (align d) last = some (.ok l)) :
    ∃ ps, Fields m size (roundUp d) ps ∧ l = ps.getLast?.getD last := by
  induction fuel generalizing d last with
  | zero => cases h
  | succ fuel ih =>
    obtain ⟨hremaining, halign⟩ := align_spec hd hle hsize hlt
    have hbounds := roundUp_bounds d
    unfold checkFields at h
    rw [hremaining] at h
    by_cases hpos : size - roundUp d > 0
    · rw [if_pos hpos, halign (by omega)] at h
      obtain ⟨result, hresult, h⟩ := Option.bind_eq_some_iff.1 h
      cases result with
      | none => cases h
      | some next =>
        obtain ⟨header, hchecked, hnext⟩ := checkField_spec (by omega) (by omega) hlt hresult
        have hfs := hchecked.fieldSize_ge
        have hfs' := hchecked.fieldSize_le
        rw [hnext] at h
        obtain ⟨ps, hps, hl⟩ := ih (by omega) (by omega) h
        refine ⟨roundUp d :: ps, .cons (by omega) hchecked hps, ?_⟩
        rw [hl, List.getLast?_cons]
        cases ps.getLast? <;> rfl
    · rw [if_neg hpos] at h
      cases h
      exact ⟨[], .nil (by omega), rfl⟩

/-! ## The elements of a field -/

/-- The first `k` values from a value header on have sizes that are not negative. -/
def SizesNonneg (m : Memory) (valueHeader : ℤ) (k : ℕ) : Prop :=
  ∀ i < k, ∀ v valueSize, skipValues m i valueHeader = some v → int32At m v = some valueSize →
    0 ≤ valueSize

variable {v : ℤ}

lemma SizesNonneg.mono (h : SizesNonneg m v n) (hle : k ≤ n) : SizesNonneg m v k :=
  fun i hi => h i (by omega)

lemma SizesNonneg.tail {valueSize : ℤ} (h : SizesNonneg m v (k + 1))
    (hv : int32At m v = some valueSize) : SizesNonneg m (nextFieldValueHeader v valueSize) k := by
  intro i hi w s hw hs
  apply h (i + 1) (by omega) w s _ hs
  rw [skipValues, hv]
  exact hw

variable {fieldSize result : ℤ}

lemma checkElements_succ (hdata : 0 ≤ data) (hv : data ≤ v) (hle : v ≤ 0x80000000)
    (hsize : size ≤ 0x7fffffff) (hnonneg : 0 ≤ size)
    (h : checkElements m size data (n + 1) (int32 v) fieldSize = some (some result)) :
    v + 4 ≤ size ∧ int32 v = v ∧ ∃ valueSize, int32At m v = some valueSize ∧
      valueSize ≤ size - roundUp (v + 4) ∧
      (0 ≤ valueSize → valueData v = roundUp (v + 4) ∧
        checkElements m size data n (int32 (roundUp (roundUp (v + 4) + valueSize)))
          (roundUp (v + 4) + valueSize - data) = some (some result)) := by
  have hremaining : int32 (size - int32 v) = size - v := int32_sub_int32 (by omega) (by omega)
  have hfour : valueHeaderSize = 4 := rfl
  unfold checkElements at h
  rw [hremaining, hfour] at h
  split at h
  · cases h
  next hheader =>
    have hself : int32 v = v := int32_eq (by omega) (by omega)
    rw [hself] at h
    obtain ⟨valueSize, hvalueSize, h⟩ := Option.bind_eq_some_iff.1 h
    split at h
    · cases h
    next hvalue =>
      obtain ⟨hleft, halign⟩ := align_spec (d := v + 4) (by omega) (by omega) hnonneg hsize
      have hbounds := roundUp_bounds (v + 4)
      rw [valueData, hfour, hleft] at hvalue
      refine ⟨by omega, hself, valueSize, hvalueSize, by omega, fun hpos => ?_⟩
      have hvalueData : valueData v = roundUp (v + 4) := halign (by omega)
      have hint : int32 (roundUp (v + 4) + valueSize - data) = roundUp (v + 4) + valueSize - data :=
        int32_eq (by omega) (by omega)
      rw [nextFieldValueHeader, hvalueData, hint] at h
      exact ⟨hvalueData, h⟩

lemma roundUp_le (h : x ≤ 0x7fffffff) : roundUp x ≤ 0x80000000 := by
  unfold roundUp
  omega

lemma checkElements_skip {m' : Memory} (hagree : m'.Agree m size) (hdata : 0 ≤ data)
    (hv : data ≤ v) (hle : v ≤ 0x80000000) (hsize : size ≤ 0x7fffffff) (hnonneg : 0 ≤ size)
    (hk : k ≤ n) (hsizes : SizesNonneg m (int32 v) k)
    (h : checkElements m size data n (int32 v) fieldSize = some (some result)) :
    ∃ w fieldSize', skipValues m k (int32 v) = some (int32 w) ∧
      skipValues m' k (int32 v) = some (int32 w) ∧ v ≤ w ∧ w ≤ 0x80000000 ∧
      checkElements m size data (n - k) (int32 w) fieldSize' = some (some result) := by
  induction k generalizing n v fieldSize with
  | zero => exact ⟨v, fieldSize, rfl, rfl, le_refl v, hle, h⟩
  | succ k ih =>
    have hn : n = n - 1 + 1 := by omega
    rw [hn] at h
    obtain ⟨hin, hself, valueSize, hvalueSize, hfits, hrest⟩ :=
      checkElements_succ hdata hv hle hsize hnonneg h
    have hpos : 0 ≤ valueSize := hsizes 0 (by omega) v valueSize (by rw [hself]; rfl) hvalueSize
    obtain ⟨hvalueData, hnext⟩ := hrest hpos
    have hbounds := roundUp_bounds (v + 4)
    have hbounds' := roundUp_bounds (roundUp (v + 4) + valueSize)
    have hto : nextFieldValueHeader v valueSize =
        int32 (roundUp (roundUp (v + 4) + valueSize)) := by
      rw [nextFieldValueHeader, hvalueData]
      rfl
    rw [hself] at hsizes
    have htail := hsizes.tail hvalueSize
    rw [hto] at htail
    obtain ⟨w, fieldSize', hw, hwl, hge, hwle, hcheck⟩ :=
      ih (by omega) (roundUp_le (by omega)) (by omega) htail hnext
    refine ⟨w, fieldSize', ?_, ?_, by omega, hwle, ?_⟩
    · rw [hself, skipValues, hvalueSize, Option.bind_some, hto, hw]
    · rw [hself, skipValues, int32At_agree hagree (by omega) hin, hvalueSize, Option.bind_some, hto, hwl]
    · have hsub : n - (k + 1) = n - 1 - k := by omega
      rw [hsub]
      exact hcheck

lemma checkElements_end {valueSize : ℤ} (hdata : 0 ≤ data) (hv : data ≤ v)
    (hle : v ≤ 0x80000000) (hsize : size ≤ 0x7fffffff) (hnonneg : 0 ≤ size)
    (hsizes : SizesNonneg m (int32 v) (n + 1)) (hvalueSize : int32At m v = some valueSize)
    (h : checkElements m size data (n + 1) (int32 v) fieldSize = some (some result)) :
    roundUp (v + 4) + valueSize - data ≤ result := by
  induction n generalizing v valueSize fieldSize with
  | zero =>
    obtain ⟨_, hself, s, hs, _, hrest⟩ := checkElements_succ hdata hv hle hsize hnonneg h
    rw [hvalueSize] at hs
    cases hs
    have hpos := hsizes 0 (by omega) v valueSize (by rw [hself]; rfl) hvalueSize
    obtain ⟨_, hnext⟩ := hrest hpos
    rw [checkElements] at hnext
    cases hnext
    exact le_refl _
  | succ n ih =>
    obtain ⟨_, hself, s, hs, _, hrest⟩ := checkElements_succ hdata hv hle hsize hnonneg h
    rw [hvalueSize] at hs
    cases hs
    have hpos := hsizes 0 (by omega) v valueSize (by rw [hself]; rfl) hvalueSize
    obtain ⟨hvalueData, hnext⟩ := hrest hpos
    have hbounds := roundUp_bounds (v + 4)
    have hbounds' := roundUp_bounds (roundUp (v + 4) + valueSize)
    rw [hself] at hsizes
    have htail := hsizes.tail hvalueSize
    rw [nextFieldValueHeader, hvalueData] at htail
    have hle' := roundUp_le (x := roundUp (v + 4) + valueSize) (by omega)
    obtain ⟨_, hself', s', hs', _, _⟩ :=
      checkElements_succ hdata (by omega) hle' hsize hnonneg hnext
    have hpos' := htail 0 (by omega) _ s' (congrArg some hself') hs'
    have hlast := ih (by omega) hle' htail hs' hnext
    have hbounds'' := roundUp_bounds (roundUp (roundUp (v + 4) + valueSize) + 4)
    omega

end Haiku.KMessage
