import Haiku.KMessage.Contents
import Haiku.KMessage.SafetyTheorems

/-!
# How the contents lie in the buffer

A buffer in which the fields lie one behind the other is one that `_InitFromBuffer()` accepts, and
the functions that read a message find in it what lies there.
-/

namespace Haiku.KMessage

open Lib Lock

variable {m m' : Memory} {size pos d e : ℤ} {f : Field} {fs gs : List Field}
  {xs ys : List (List UInt8)} {n k : ℕ}

/-! ## Numbers in the buffer -/

lemma int32_number (x : ℤ) : int32 (number (int32Bytes x)) = int32 x := by
  apply int32_congr
  rw [int32Bytes, number_digits]
  omega

lemma int16_congr {x y : ℤ} (h : (x - y) % 2 ^ 16 = 0) : int16 x = int16 y := by
  unfold int16
  rw [Int.bmod_def, Int.bmod_def]
  have hmod : x % (2 ^ 16 : ℕ) = y % (2 ^ 16 : ℕ) := by
    push_cast
    omega
  rw [hmod]

lemma int16_number (x : ℤ) : int16 (number (int16Bytes x)) = int16 x := by
  apply int16_congr
  rw [int16Bytes, number_digits]
  omega

lemma length_int32Bytes (x : ℤ) : (int32Bytes x).length = 4 := length_digits _ _

lemma length_int16Bytes (x : ℤ) : (int16Bytes x).length = 2 := length_digits _ _

lemma int32At_of_read {x : ℤ} (h : m.read pos 4 = some (int32Bytes x))
    (hlo : -0x80000000 ≤ x) (hhi : x ≤ 0x7fffffff) : int32At m pos = some x := by
  rw [int32At, h, Option.map_some, int32_number, int32_eq hlo hhi]

lemma int16At_of_read {x : ℤ} (h : m.read pos 2 = some (int16Bytes x)) (hlo : 0 ≤ x)
    (hhi : x ≤ 0x7fff) : int16At m pos = some x := by
  rw [int16At, h, Option.map_some, int16_number, int16_eq hlo hhi]

lemma uint32At_of_read {x : ℕ} (h : m.read pos 4 = some (digits 4 x)) (hlt : x < 2 ^ 32) :
    uint32At m pos = some x := by
  have hmod : x % 256 ^ 4 = x := Nat.mod_eq_of_lt (by omega)
  rw [uint32At, h, Option.map_some, number_digits, hmod]

/-! ## Sizes -/

lemma roundUp_add (hpos : pos % 4 = 0) (e : ℤ) : roundUp (pos + e) = pos + roundUp e := by
  unfold roundUp
  omega

lemma roundUp_mod (x : ℤ) : roundUp x % 4 = 0 := by
  unfold roundUp
  omega

lemma roundUp_of_mod (h : pos % 4 = 0) : roundUp pos = pos := by
  unfold roundUp
  omega

lemma valuesEnd_ge (e : ℤ) (xs : List (List UInt8)) : e ≤ valuesEnd e xs := by
  induction xs generalizing e with
  | nil => exact le_refl e
  | cons x xs ih =>
    have hrest := ih (roundUp e + 4 + x.length)
    have hbounds := roundUp_bounds e
    rw [valuesEnd]
    omega

lemma valuesEnd_append (e : ℤ) (xs ys : List (List UInt8)) :
    valuesEnd e (xs ++ ys) = valuesEnd (valuesEnd e xs) ys := by
  induction xs generalizing e with
  | nil => rfl
  | cons x xs ih =>
    rw [List.cons_append, valuesEnd, valuesEnd, ih]

lemma valuesEnd_add (hpos : pos % 4 = 0) (e : ℤ) (xs : List (List UInt8)) :
    valuesEnd (pos + e) xs = pos + valuesEnd e xs := by
  induction xs generalizing e with
  | nil => rfl
  | cons x xs ih =>
    rw [valuesEnd, valuesEnd, roundUp_add hpos, ← ih]
    congr 1
    omega

lemma Field.headerSize_bounds (f : Field) :
    20 + f.name.bytes.length ≤ f.headerSize ∧ f.headerSize ≤ 23 + f.name.bytes.length := by
  have hbounds := roundUp_bounds (20 + f.name.bytes.length)
  rw [Field.headerSize]
  omega

lemma Field.headerSize_le_size (f : Field) : f.headerSize ≤ f.size := by
  rw [Field.size]
  split
  case isTrue h =>
    have hproduct : 0 ≤ f.elementSize * (f.elements.length : ℤ) := Int.mul_nonneg h (by omega)
    omega
  case isFalse => exact valuesEnd_ge _ _

lemma fieldsEnd_append (d : ℤ) (fs gs : List Field) :
    fieldsEnd d (fs ++ gs) = fieldsEnd (fieldsEnd d fs) gs := by
  induction fs generalizing d with
  | nil => rfl
  | cons f fs ih => rw [List.cons_append, fieldsEnd, fieldsEnd, ih]

lemma offsets_append (d : ℤ) (fs gs : List Field) :
    offsets d (fs ++ gs) = offsets d fs ++ offsets (fieldsEnd d fs) gs := by
  induction fs generalizing d with
  | nil => rfl
  | cons f fs ih => rw [List.cons_append, offsets, offsets, ih, fieldsEnd, List.cons_append]

lemma length_offsets (d : ℤ) (fs : List Field) : (offsets d fs).length = fs.length := by
  induction fs generalizing d with
  | nil => rfl
  | cons f fs ih => rw [offsets, List.length_cons, List.length_cons, ih]

lemma fieldsEnd_ge (d : ℤ) (fs : List Field) : d ≤ fieldsEnd d fs := by
  induction fs generalizing d with
  | nil => exact le_refl d
  | cons f fs ih =>
    have hrest := ih (roundUp d + f.size)
    have hbounds := roundUp_bounds d
    have hsize := f.headerSize_le_size
    have hheader := f.headerSize_bounds
    rw [fieldsEnd]
    omega

/-! ## What lies there does not change by a write elsewhere -/

lemma int32At_congr (h : ∀ p, pos ≤ p → p < pos + 4 → m' p = m p) :
    int32At m' pos = int32At m pos := by
  rw [int32At, int32At, Memory.read_congr h]

lemma ValuesLaid.congr (hlaid : ValuesLaid m e xs)
    (h : ∀ p, e ≤ p → p < valuesEnd e xs → m' p = m p) : ValuesLaid m' e xs := by
  induction xs generalizing e with
  | nil => trivial
  | cons x xs ih =>
    have hbounds := roundUp_bounds e
    have hend := valuesEnd_ge (roundUp e + 4 + x.length) xs
    obtain ⟨hsize, hbytes, hrest⟩ := hlaid
    rw [valuesEnd] at h
    refine ⟨?_, ?_, ih hrest fun p hp hlt => h p (by omega) hlt⟩
    · rw [int32At_congr fun p hp hlt => h p (by omega) (by omega)]
      exact hsize
    · rw [Memory.read_congr fun p hp hlt => h p (by omega) (by omega)]
      exact hbytes

lemma valuesLaid_append :
    ValuesLaid m e (xs ++ ys) ↔ ValuesLaid m e xs ∧ ValuesLaid m (valuesEnd e xs) ys := by
  induction xs generalizing e with
  | nil => simp [ValuesLaid, valuesEnd]
  | cons x xs ih =>
    rw [List.cons_append, ValuesLaid, ValuesLaid, valuesEnd, ih]
    simp only [and_assoc]

lemma laid_append : Laid m d (fs ++ gs) ↔ Laid m d fs ∧ Laid m (fieldsEnd d fs) gs := by
  induction fs generalizing d with
  | nil => simp [Laid, fieldsEnd]
  | cons f fs ih => rw [List.cons_append, Laid, Laid, fieldsEnd, ih, and_assoc]

structure Field.Proper (f : Field) : Prop where
  name_ne : f.name.bytes ≠ []
  name_lt : f.name.bytes.length < 32000
  type_ne : f.type ≠ anyType
  type_lt : f.type < 2 ^ 32
  elementSize_ge : -0x80000000 ≤ f.elementSize
  elementSize_le : f.elementSize ≤ 0x7fffffff
  count_lt : f.elements.length < 0x80000000
  lengths : 0 ≤ f.elementSize → ∀ x ∈ f.elements, (x.length : ℤ) = f.elementSize

lemma length_flatten {s : ℤ} (h : ∀ x ∈ xs, (x.length : ℤ) = s) :
    (xs.flatten.length : ℤ) = s * xs.length := by
  induction xs with
  | nil => simp
  | cons x xs ih =>
    have hx := h x List.mem_cons_self
    have hrest := ih fun y hy => h y (List.mem_cons_of_mem _ hy)
    rw [List.flatten_cons, List.length_append, List.length_cons]
    push_cast
    rw [hrest, hx]
    ring

lemma FieldLaid.congr (hlaid : FieldLaid m pos f) (hproper : f.Proper) (hpos : pos % 4 = 0)
    (h : ∀ p, pos ≤ p → p < pos + f.size → m' p = m p) : FieldLaid m' pos f := by
  have hsize := f.headerSize_le_size
  have hheader := f.headerSize_bounds
  have hread : ∀ p n, pos ≤ p → p + (n : ℕ) ≤ pos + f.size → m'.read p n = m.read p n :=
    fun p n hp hle => Memory.read_congr fun q hq hlt => h q (by omega) (by omega)
  constructor
  · rw [← hlaid.header]
    unfold fieldHeaderAt uint32At int32At int16At
    rw [hread pos 4 (by omega) (by omega), hread (pos + 4) 4 (by omega) (by omega),
      hread (pos + 8) 4 (by omega) (by omega), hread (pos + 12) 4 (by omega) (by omega),
      hread (pos + 16) 2 (by omega) (by omega)]
  · rw [hread _ _ (by omega) (by omega)]
    exact hlaid.name
  · intro hfixed
    have hlength := length_flatten (hproper.lengths hfixed)
    have heq : f.size = f.headerSize + f.elementSize * f.elements.length := by
      rw [Field.size, if_pos hfixed]
    rw [hread _ _ (by omega) (by omega)]
    exact hlaid.fixed hfixed
  · intro hvalues
    have heq : f.size = valuesEnd f.headerSize f.elements := by
      rw [Field.size, if_neg (by omega)]
    apply (hlaid.values hvalues).congr
    intro p hp hlt
    rw [valuesEnd_add hpos] at hlt
    exact h p (by omega) (by omega)

lemma Laid.congr (hlaid : Laid m d fs) (hproper : ∀ f ∈ fs, f.Proper)
    (h : ∀ p, d ≤ p → p < fieldsEnd d fs → m' p = m p) : Laid m' d fs := by
  induction fs generalizing d with
  | nil => trivial
  | cons f fs ih =>
    have hbounds := roundUp_bounds d
    have hend := fieldsEnd_ge (roundUp d + f.size) fs
    have hsize := f.headerSize_le_size
    have hheader := f.headerSize_bounds
    rw [fieldsEnd] at h
    refine ⟨hlaid.1.congr (hproper f List.mem_cons_self) (roundUp_mod d) fun p hp hlt =>
      h p (by omega) (by omega), ih hlaid.2 (fun g hg => hproper g (List.mem_cons_of_mem _ hg))
      fun p hp hlt => h p (by omega) hlt⟩

/-! ## The checks accept it -/

lemma strnlen_of_read {bytes : List UInt8} {max : ℕ} (h : m.read pos (bytes.length + 1) =
    some (bytes ++ [0])) (hne : ∀ b ∈ bytes, b ≠ 0) (hlt : bytes.length < max) :
    strnlen m pos max = some bytes.length := by
  induction bytes generalizing pos max with
  | nil =>
    obtain ⟨b, hb, h⟩ := Option.bind_eq_some_iff.1 h
    have hmax : max = max - 1 + 1 := by omega
    cases h
    rw [hmax, strnlen, hb]
    rfl
  | cons c bytes ih =>
    obtain ⟨b, hb, h⟩ := Option.bind_eq_some_iff.1 h
    obtain ⟨rest, hrest, h⟩ := Option.map_eq_some_iff.1 h
    cases h
    have hmax : max = max - 1 + 1 := by omega
    rw [List.length_cons] at hlt
    have hn := ih hrest (fun b hb => hne b (List.mem_cons_of_mem _ hb)) (by omega : _ < max - 1)
    rw [hmax, strnlen, hb, Option.bind_some, if_neg (hne c List.mem_cons_self), hn]
    rfl

lemma valueData_roundUp (he : 0 ≤ e) (hle : e < 0x40000000) :
    valueData (roundUp e) = roundUp e + 4 := by
  have hbounds := roundUp_bounds e
  have hmod := roundUp_mod e
  have hfour : valueHeaderSize = 4 := rfl
  have hround : roundUp (roundUp e + 4) = roundUp e + 4 := roundUp_of_mod (by omega)
  rw [valueData, hfour, align, hround]
  exact int32_eq (by omega) (by omega)

lemma checkElements_of_laid {data : ℤ} (fieldSize : ℤ) (hlaid : ValuesLaid m e xs) (hdata : 0 ≤ data)
    (he : data ≤ e) (hend : valuesEnd e xs ≤ size) (hsize : size < 0x40000000) :
    checkElements m size data xs.length (roundUp e) fieldSize =
      some (some (if xs = [] then fieldSize else valuesEnd e xs - data)) := by
  induction xs generalizing e fieldSize with
  | nil => rfl
  | cons x xs ih =>
    obtain ⟨hvalueSize, _, hrest⟩ := hlaid
    have hbounds := roundUp_bounds e
    have hge := valuesEnd_ge (roundUp e + 4 + x.length) xs
    rw [valuesEnd] at hend
    have hdataAt := valueData_roundUp (e := e) (by omega) (by omega)
    have hfour : valueHeaderSize = 4 := rfl
    have hleft : int32 (size - roundUp e) = size - roundUp e := int32_eq (by omega) (by omega)
    have hvalue : int32 (size - (roundUp e + 4)) = size - (roundUp e + 4) :=
      int32_eq (by omega) (by omega)
    have hnext : nextFieldValueHeader (roundUp e) x.length =
        roundUp (roundUp e + 4 + x.length) := by
      have hbounds' := roundUp_bounds (roundUp e + 4 + x.length)
      rw [nextFieldValueHeader, hdataAt, align]
      exact int32_eq (by omega) (by omega)
    have hfieldSize : int32 (roundUp e + 4 + x.length - data) = roundUp e + 4 + x.length - data :=
      int32_eq (by omega) (by omega)
    rw [List.length_cons, checkElements, hleft, hfour, if_neg (by omega), hvalueSize,
      Option.bind_some, hdataAt, hvalue, if_neg (by omega), hnext, hfieldSize,
      ih _ hrest (by omega) hend, if_neg (List.cons_ne_nil x xs), valuesEnd]
    by_cases hxs : xs = []
    · rw [if_pos hxs, hxs]
      rfl
    · rw [if_neg hxs]

lemma FieldLaid.checked (hlaid : FieldLaid m pos f) (hproper : f.Proper) (hpos : 0 ≤ pos)
    (hmod : pos % 4 = 0) (hle : pos + f.size ≤ size) (hsize : size < 0x40000000) :
    Checked m size pos ⟨f.type, f.elementSize, f.elements.length, f.size, f.headerSize⟩ := by
  have hheader := f.headerSize_bounds
  have hheaderLe := f.headerSize_le_size
  have hname := hproper.name_ne
  have hlength : 0 < f.name.bytes.length := List.length_pos_iff.2 hname
  constructor
  · exact hlaid.header
  · exact hproper.type_ne
  · show (0 : ℤ) ≤ f.elements.length
    omega
  · show 20 ≤ f.size
    omega
  · show f.size ≤ size - pos
    omega
  · show 20 ≤ f.headerSize
    omega
  · exact hheaderLe
  · refine ⟨f.name.bytes.length, strnlen_of_read hlaid.name f.name.nonzero ?_, hlength, ?_⟩
    · show f.name.bytes.length < (f.headerSize - 18).toNat
      omega
    · show (f.name.bytes.length : ℤ) < f.headerSize - 18
      omega
  · intro hfixed
    have hnegative : f.elementSize < 0 := by
      simpa using hfixed
    have hsizeEq : f.size = valuesEnd f.headerSize f.elements := by
      rw [Field.size, if_neg (by omega)]
    have hvalues := hlaid.values hnegative
    have hmodHeader : f.headerSize % 4 = 0 := roundUp_mod _
    have hstart : int32 (pos + f.headerSize) = roundUp (pos + f.headerSize) := by
      rw [roundUp_of_mod (by omega)]
      exact int32_eq (by omega) (by omega)
    have hend : valuesEnd (pos + f.headerSize) f.elements = pos + f.size := by
      rw [valuesEnd_add hmod, hsizeEq]
    have hcheck := checkElements_of_laid f.headerSize hvalues hpos (by omega) (by omega) hsize
    refine ⟨if f.elements = [] then f.headerSize else
      valuesEnd (pos + f.headerSize) f.elements - pos, ?_, ?_⟩
    · show checkElements m size pos (f.elements.length : ℤ).toNat (int32 (pos + f.headerSize))
        f.headerSize = _
      rw [hstart, Int.toNat_natCast]
      exact hcheck
    · show (if f.elements = [] then f.headerSize else
        valuesEnd (pos + f.headerSize) f.elements - pos) ≤ f.size
      split
      · exact hheaderLe
      · omega

lemma Laid.fields (hlaid : Laid m d fs) (hproper : ∀ f ∈ fs, f.Proper) (hd : 0 ≤ d)
    (hsize : size < 0x40000000) (hend : fieldsEnd d fs = size) :
    Fields m size (roundUp d) (offsets d fs) := by
  induction fs generalizing d with
  | nil =>
    have hbounds := roundUp_bounds d
    have hdone : d = size := hend
    exact .nil (by omega)
  | cons f fs ih =>
    have hbounds := roundUp_bounds d
    have hge := fieldsEnd_ge (roundUp d + f.size) fs
    have hheader := f.headerSize_bounds
    have hheaderLe := f.headerSize_le_size
    rw [fieldsEnd] at hend
    have hchecked := hlaid.1.checked (hproper f List.mem_cons_self) (by omega) (roundUp_mod d)
      (by omega) hsize
    have hrest := ih (d := roundUp d + f.size) hlaid.2
      (fun g hg => hproper g (List.mem_cons_of_mem _ hg)) (by omega) hend
    exact .cons (by omega) hchecked hrest

lemma Checked.checkField {header : FieldHeader} (h : Checked m size pos header) (hpos : 0 ≤ pos)
    (hlt : pos < size) (hsize : size ≤ 0x7fffffff) :
    checkField m size pos = some (some (align (pos + header.fieldSize))) := by
  have hremaining : int32 (size - pos) = size - pos := int32_eq (by omega) (by omega)
  have hge : fieldHeaderSize = 20 := rfl
  have hoffset : nameOffset = 18 := rfl
  have hfs := h.fieldSize_ge
  have hfs' := h.fieldSize_le
  have hhs := h.headerSize_ge
  have hhs' := h.headerSize_le
  have hcount := h.elementCount_nonneg
  obtain ⟨n, hn, hpositive, hname⟩ := h.name
  unfold KMessage.checkField
  dsimp only
  rw [hremaining, hge, hoffset, if_neg (by omega), h.reads, Option.bind_some, if_neg h.type_ne,
    if_neg (by omega), if_neg (by omega), if_neg (by omega), hn, Option.bind_some,
    if_neg (by omega)]
  split
  · rfl
  next hfixed =>
    obtain ⟨fieldSize, hcheck, hle⟩ := h.elements (by simpa using hfixed)
    rw [hcheck, Option.map_some]
    dsimp only
    rw [if_neg (by omega)]

lemma Fields.checkFields {fuel : ℕ} (last : ℤ) {ps : List ℤ} (h : Fields m size (roundUp d) ps)
    (hd : 0 ≤ d) (hle : d ≤ 0x7fffffff) (hsize : 0 ≤ size) (hlt : size ≤ 0x7fffffff)
    (hfuel : ps.length < fuel) :
    checkFields m size fuel (align d) last = some (.ok (ps.getLast?.getD last)) := by
  induction fuel generalizing d last ps with
  | zero => omega
  | succ fuel ih =>
    obtain ⟨hremaining, halign⟩ := align_spec hd hle hsize hlt
    unfold KMessage.checkFields
    rw [hremaining]
    have hbounds := roundUp_bounds d
    cases h with
    | nil hdone =>
      rw [if_neg (by omega)]
      rfl
    | @cons _ header ps hltd hchecked hrest =>
      have hfs := hchecked.fieldSize_ge
      have hfs' := hchecked.fieldSize_le
      rw [if_pos (by omega), halign (by omega), hchecked.checkField (by omega) hltd hlt,
        Option.bind_some]
      rw [List.length_cons] at hfuel
      have hnext := ih (roundUp d) hrest (by omega) (by omega) (by omega)
      dsimp only
      rw [hnext, List.getLast?_cons]
      cases ps.getLast? <;> rfl

lemma Fields.length_le {ps : List ℤ} (h : Fields m size d ps) (hd : 0 ≤ d) (hsize : d ≤ size) :
    (ps.length : ℤ) ≤ size - d := by
  induction h with
  | nil => simpa using hsize
  | @cons d header ps hlt hchecked hrest ih =>
    have hfs := hchecked.fieldSize_ge
    have hbounds := roundUp_bounds (d + header.fieldSize)
    rw [List.length_cons]
    push_cast
    by_cases hdone : size ≤ roundUp (d + header.fieldSize)
    · cases hrest with
      | nil => simp; omega
      | cons hlt' => omega
    · have hrestLe := ih (by omega) (by omega)
      omega

/-! ## The readers find it -/

structure Contains (m : Memory) (size last : ℤ) (fs : List Field) : Prop where
  accepted : Accepted m m size last (offsets 28 fs)
  laid : Laid m 28 fs
  proper : ∀ f ∈ fs, f.Proper
  size_lt : size < 0x40000000
  end_eq : fieldsEnd 28 fs = size

variable {last : ℤ} {as bs : List Field}

structure At (m : Memory) (size last : ℤ) (fs as : List Field) (f : Field) (pos : ℤ) : Prop where
  mem : pos ∈ offsets 28 fs
  laid : FieldLaid m pos f
  proper : f.Proper
  mod : pos % 4 = 0
  ge : 28 ≤ pos
  end_le : pos + f.size ≤ size
  offset : (⟨m, last⟩ : Message).fieldHeaderForOffset pos = some (some pos)
  checked : Checked m size pos ⟨f.type, f.elementSize, f.elements.length, f.size, f.headerSize⟩

lemma Contains.at (h : Contains m size last (as ++ f :: bs)) :
    At m size last (as ++ f :: bs) as f (roundUp (fieldsEnd 28 as)) := by
  have hmem : roundUp (fieldsEnd 28 as) ∈ offsets 28 (as ++ f :: bs) := by
    rw [offsets_append, offsets]
    simp
  have hlaid := (laid_append.1 h.laid).2.1
  have hproper := h.proper f (by simp)
  have hge := fieldsEnd_ge 28 as
  have hbounds := roundUp_bounds (fieldsEnd 28 as)
  have hend := h.end_eq
  rw [fieldsEnd_append, fieldsEnd] at hend
  have hrest := fieldsEnd_ge (roundUp (fieldsEnd 28 as) + f.size) bs
  exact ⟨hmem, hlaid, hproper, roundUp_mod _, by omega, by omega,
    h.accepted.fieldHeaderForOffset hmem,
    hlaid.checked hproper (by omega) (roundUp_mod _) (by omega) h.size_lt⟩

lemma strEqual_of_read {bytes name : List UInt8} (h : m.read pos (bytes.length + 1) =
    some (bytes ++ [0])) (hbytes : ∀ b ∈ bytes, b ≠ 0) (hname : ∀ b ∈ name, b ≠ 0) :
    strEqual m pos name = some (decide (bytes = name)) := by
  induction name generalizing pos bytes with
  | nil =>
    obtain ⟨b, hb, h⟩ := Option.bind_eq_some_iff.1 h
    rw [strEqual, hb, Option.map_some]
    cases bytes with
    | nil =>
      cases h
      rfl
    | cons c bytes =>
      obtain ⟨rest, _, h⟩ := Option.map_eq_some_iff.1 h
      cases h
      simp [hbytes b List.mem_cons_self]
  | cons c name ih =>
    obtain ⟨b, hb, h⟩ := Option.bind_eq_some_iff.1 h
    rw [strEqual, hb, Option.bind_some]
    cases bytes with
    | nil =>
      cases h
      rw [if_neg (hname c List.mem_cons_self).symm]
      rfl
    | cons b' bytes =>
      obtain ⟨rest, hrest, h⟩ := Option.map_eq_some_iff.1 h
      cases h
      have hn := ih hrest (fun b hb => hbytes b (List.mem_cons_of_mem _ hb))
        (fun b hb => hname b (List.mem_cons_of_mem _ hb))
      by_cases hbc : b = c
      · rw [if_pos hbc, hn, hbc]
        simp
      · rw [if_neg hbc]
        simp [hbc]

section

variable (h : At m size last fs as f pos)
include h

lemma At.typeCode : (⟨m, last⟩ : Message).typeCode pos = some f.type := by
  unfold Message.typeCode
  rw [h.offset]
  exact (fieldHeaderAt_eq_some.1 h.laid.header).type

lemma At.elementSize : (⟨m, last⟩ : Message).elementSize pos = some f.elementSize := by
  unfold Message.elementSize
  rw [h.offset]
  exact (fieldHeaderAt_eq_some.1 h.laid.header).elementSize

lemma At.hasName (name : CString) :
    (⟨m, last⟩ : Message).hasName pos name = some (decide (f.name = name)) := by
  have hequal := strEqual_of_read h.laid.name f.name.nonzero name.nonzero
  have hname : f.name = name ↔ f.name.bytes = name.bytes := by
    constructor
    · intro he
      rw [he]
    · intro he
      cases hf : f.name
      cases name
      rw [hf] at he
      cases he
      rfl
  unfold Message.hasName
  rw [h.offset]
  show strEqual m (pos + nameOffset) name.bytes = _
  rw [show nameOffset = 18 from rfl, hequal]
  simp [hname]

lemma At.name : (⟨m, last⟩ : Message).name pos = some f.name.bytes := by
  have hlt := h.proper.name_lt
  have hn : strnlen m (pos + 18) 0x8000 = some f.name.bytes.length :=
    strnlen_of_read h.laid.name f.name.nonzero (by omega)
  have hread := h.laid.name
  rw [Memory.read_add] at hread
  obtain ⟨bytes, hbytes, hread⟩ := Option.bind_eq_some_iff.1 hread
  obtain ⟨zero, _, heq⟩ := Option.map_eq_some_iff.1 hread
  have hbytesEq := (List.append_inj heq (Memory.read_length hbytes)).1
  unfold Message.name
  rw [h.offset]
  show (strnlen m (pos + nameOffset) 0x8000).bind _ = _
  rw [show nameOffset = 18 from rfl, hn, Option.bind_some, ← hbytesEq]
  rw [hbytesEq]
  rw [hbytesEq] at hbytes
  exact hbytes

end

lemma read_flatten {x : List UInt8} {s : ℤ}
    (h : m.read pos (xs ++ x :: ys).flatten.length = some (xs ++ x :: ys).flatten)
    (hlength : ∀ y ∈ xs, (y.length : ℤ) = s) :
    m.read (pos + s * xs.length) x.length = some x := by
  rw [List.flatten_append, List.flatten_cons, Memory.read_append, Memory.read_append] at h
  rw [← length_flatten hlength]
  exact h.2.1

lemma skipValues_of_laid {x : List UInt8} (hlaid : ValuesLaid m e (xs ++ x :: ys)) (he : 0 ≤ e)
    (hend : valuesEnd e (xs ++ x :: ys) < 0x40000000) :
    skipValues m xs.length (roundUp e) = some (roundUp (valuesEnd e xs)) := by
  induction xs generalizing e with
  | nil => rfl
  | cons y xs ih =>
    obtain ⟨hvalueSize, _, hrest⟩ := hlaid
    have hbounds := roundUp_bounds e
    rw [List.cons_append, valuesEnd] at hend
    have hge := valuesEnd_ge (roundUp e + 4 + y.length) (xs ++ x :: ys)
    have hdataAt := valueData_roundUp (e := e) (by omega) (by omega)
    have hnext : nextFieldValueHeader (roundUp e) y.length =
        roundUp (roundUp e + 4 + y.length) := by
      have hbounds' := roundUp_bounds (roundUp e + 4 + y.length)
      rw [nextFieldValueHeader, hdataAt, align]
      exact int32_eq (by omega) (by omega)
    rw [List.length_cons, skipValues, hvalueSize, Option.bind_some, hnext, valuesEnd]
    exact ih hrest (by omega) hend

lemma Contains.elementAt {x : List UInt8}
    (h : Contains m size last fs) (hat : At m size last fs as f pos)
    (hx : f.elements = xs ++ x :: ys) :
    ∃ p s, (⟨m, last⟩ : Message).elementAt pos xs.length = some (some (p, s)) ∧
      m.read p s.toNat = some x := by
  have hproper := hat.proper
  have hsizeLt := h.size_lt
  have hge := hat.ge
  have hendLe := hat.end_le
  have hlt : (xs.length : ℤ) < f.elements.length := by
    rw [hx, List.length_append, List.length_cons]
    push_cast
    omega
  by_cases hfixed : 0 ≤ f.elementSize
  · have hxlength : (x.length : ℤ) = f.elementSize :=
      hproper.lengths hfixed x (by rw [hx]; simp)
    have hxs : ∀ y ∈ xs, (y.length : ℤ) = f.elementSize := fun y hy =>
      hproper.lengths hfixed y (by rw [hx]; simp [hy])
    have hread := hat.laid.fixed hfixed
    rw [hx] at hread
    have hle : f.elementSize * xs.length ≤ f.elementSize * f.elements.length :=
      Int.mul_le_mul_of_nonneg_left hlt.le hfixed
    have hsizeEq : f.size = f.headerSize + f.elementSize * f.elements.length := by
      rw [Field.size, if_pos hfixed]
    refine ⟨_, _, h.accepted.elementAt_fixed hat.mem hat.checked (by
      simpa using hfixed) (by omega) hlt (by
      show f.headerSize + f.elementSize * xs.length ≤ f.size
      omega), ?_⟩
    show m.read (pos + f.headerSize + f.elementSize * xs.length) f.elementSize.toNat = some x
    have hlength : f.elementSize.toNat = x.length := by omega
    rw [hlength]
    exact read_flatten hread hxs
  · have hlaid := hat.laid.values (by omega)
    rw [hx] at hlaid
    have hheader := f.headerSize_bounds
    have hheaderMod : f.headerSize % 4 = 0 := roundUp_mod _
    have hmod := hat.mod
    have hsizeEq : f.size = valuesEnd f.headerSize f.elements := by
      rw [Field.size, if_neg hfixed]
    have hvaluesEnd : valuesEnd (pos + f.headerSize) (xs ++ x :: ys) = pos + f.size := by
      rw [valuesEnd_add hmod, hsizeEq, hx]
    have hskip := skipValues_of_laid hlaid (by omega) (by omega)
    rw [roundUp_of_mod (by omega)] at hskip
    obtain ⟨hvalueSize, hbytes, _⟩ := (valuesLaid_append.1 hlaid).2
    have hbefore := valuesEnd_ge (pos + f.headerSize) xs
    rw [valuesEnd_append, valuesEnd] at hvaluesEnd
    have hafter := valuesEnd_ge (roundUp (valuesEnd (pos + f.headerSize) xs) + 4 + x.length) ys
    have hround := roundUp_bounds (valuesEnd (pos + f.headerSize) xs)
    have hdataAt := valueData_roundUp (e := valuesEnd (pos + f.headerSize) xs) (by omega) (by omega)
    have hself : int32 (pos + f.headerSize) = pos + f.headerSize := int32_eq (by omega) (by omega)
    refine ⟨roundUp (valuesEnd (pos + f.headerSize) xs) + 4, x.length, ?_, hbytes⟩
    rw [h.accepted.elementAt_eq hat.mem hat.laid.header]
    show (if (xs.length : ℤ) < 0 ∨ (xs.length : ℤ) ≥ (f.elements.length : ℤ) then some none else
      if (decide (f.elementSize ≥ 0)) = true then _ else _) = _
    rw [if_neg (by omega), if_neg (by simpa using hfixed)]
    show ((skipValues m (xs.length : ℤ).toNat (int32 (pos + f.headerSize))).bind fun v =>
      (int32At m v).map fun valueSize => some (valueData v, valueSize)) = _
    rw [Int.toNat_natCast, hself, hskip, Option.bind_some, hvalueSize, Option.map_some, hdataAt]

lemma Contains.elementAt_none (h : Contains m size last fs)
    (hat : At m size last fs as f pos) (index : ℤ) (hindex : index < 0 ∨ index ≥ f.elements.length) :
    (⟨m, last⟩ : Message).elementAt pos index = some none := by
  rw [h.accepted.elementAt_eq hat.mem hat.laid.header, if_pos hindex]

lemma Contains.elementsFrom (xs : List (List UInt8)) (h : Contains m size last fs)
    (hat : At m size last fs as f pos) (hx : f.elements = xs ++ ys) (hn : ys.length < n) :
    (⟨m, last⟩ : Message).elementsFrom pos n xs.length = some ys := by
  induction ys generalizing xs n with
  | nil =>
    have hsucc : n = n - 1 + 1 := by
      have : 0 < n := hn
      omega
    have hnone := h.elementAt_none hat xs.length (.inr (by
      rw [hx, List.append_nil]))
    rw [hsucc, Message.elementsFrom, hnone]
    rfl
  | cons y ys ih =>
    have hsucc : n = n - 1 + 1 := by omega
    obtain ⟨p, s, helement, hbytes⟩ := h.elementAt hat hx
    rw [List.length_cons] at hn
    have hrest := ih (xs ++ [y]) (n := n - 1) (by rw [hx]; simp) (by omega)
    rw [List.length_append, List.length_singleton] at hrest
    rw [hsucc, Message.elementsFrom, helement]
    simp only [Option.bind_eq_bind, Option.bind_some, Message.bytesOf, hbytes, hrest]

lemma last_offset (as : List Field) (f : Field) :
    (offsets 28 (as ++ [f])).getLast?.getD 0 = roundUp (fieldsEnd 28 as) := by
  rw [offsets_append, offsets, offsets, List.getLast?_concat]
  rfl

lemma Contains.getNextField (h : Contains m size last (as ++ f :: bs)) :
    (⟨m, last⟩ : Message).getNextField ((offsets 28 as).getLast?.getD 0) =
      some (.ok, roundUp (fieldsEnd 28 as)) := by
  have haccepted := h.accepted
  rw [offsets_append, offsets] at haccepted
  exact haccepted.getNextField

lemma Contains.fieldsFrom (as : List Field) (h : Contains m size last (as ++ bs)) {elementFuel : ℕ}
    (hfuel : bs.length < n) (helementFuel : ∀ f ∈ bs, f.elements.length < elementFuel) :
    (⟨m, last⟩ : Message).fieldsFrom elementFuel n ((offsets 28 as).getLast?.getD 0) =
      some (bs.map Field.view) := by
  induction bs generalizing as n with
  | nil =>
    have hsucc : n = n - 1 + 1 := by
      have : 0 < n := hfuel
      omega
    have hend := h.accepted.getNextField_end
    rw [List.append_nil] at hend
    rw [hsucc, Message.fieldsFrom, hend]
    rfl
  | cons f bs ih =>
    have hsucc : n = n - 1 + 1 := by omega
    have hat := h.at
    have helements := h.elementsFrom [] hat rfl (helementFuel f List.mem_cons_self)
    have hnext := h.getNextField
    have hassoc : as ++ f :: bs = (as ++ [f]) ++ bs := by simp
    rw [List.length_cons] at hfuel
    rw [hassoc] at h
    have hrest := ih (as ++ [f]) h (n := n - 1) (by omega) fun g hg =>
      helementFuel g (List.mem_cons_of_mem _ hg)
    rw [last_offset] at hrest
    rw [hsucc, Message.fieldsFrom, hnext]
    simp only [Option.bind_eq_bind, Option.bind_some, ne_eq, not_true_eq_false, if_false,
      hat.name, hat.typeCode, hat.elementSize]
    rw [show (⟨m, last⟩ : Message).elementsFrom (roundUp (fieldsEnd 28 as)) elementFuel 0 =
      some f.elements from helements, Option.bind_some, hrest]
    rfl

lemma Contains.findFieldLoop_cons (h : Contains m size last (as ++ f :: bs)) (name : CString)
    (type n : ℕ) : (⟨m, last⟩ : Message).findFieldLoop name type (n + 1)
      ((offsets 28 as).getLast?.getD 0) =
      if f.matching name type then some (.ok, roundUp (fieldsEnd 28 as))
      else (⟨m, last⟩ : Message).findFieldLoop name type n
        ((offsets 28 (as ++ [f])).getLast?.getD 0) := by
  have hat := h.at
  rw [last_offset, Message.findFieldLoop, h.getNextField]
  simp only [Option.bind_eq_bind, Option.bind_some, ne_eq, not_true_eq_false, if_false,
    hat.typeCode, hat.hasName, Option.map_some, Field.matching]
  by_cases hany : type = anyType
  · simp [hany]
  · by_cases htypes : f.type = type
    · simp [hany, htypes]
    · simp [hany, htypes]

lemma Contains.findFieldLoop (as : List Field) (h : Contains m size last (as ++ bs))
    (name : CString) (type : ℕ) :
    ∃ r, (∀ fuel > bs.length, (⟨m, last⟩ : Message).findFieldLoop name type fuel
      ((offsets 28 as).getLast?.getD 0) = some r) ∧
      match bs.find? (Field.matching · name type) with
      | none => r.1 = .nameNotFound
      | some f => r.1 = .ok ∧ ∃ cs ds, bs = cs ++ f :: ds ∧
        r.2 = roundUp (fieldsEnd 28 (as ++ cs)) := by
  induction bs generalizing as with
  | nil =>
    refine ⟨(.nameNotFound, (offsets 28 as).getLast?.getD 0), ?_, rfl⟩
    intro fuel hfuel
    have hsucc : fuel = fuel - 1 + 1 := by
      have : 0 < fuel := hfuel
      omega
    have hend := h.accepted.getNextField_end
    rw [List.append_nil] at hend
    rw [hsucc, Message.findFieldLoop, hend]
    rfl
  | cons f bs ih =>
    have hround := h.findFieldLoop_cons name type
    have hassoc : as ++ f :: bs = (as ++ [f]) ++ bs := by simp
    rw [hassoc] at h
    obtain ⟨r, hr, hfound⟩ := ih (as ++ [f]) h
    rw [List.find?_cons]
    cases hmatch : f.matching name type with
    | true =>
      refine ⟨(.ok, roundUp (fieldsEnd 28 as)), ?_, rfl, [], bs, rfl, by rw [List.append_nil]⟩
      intro fuel hfuel
      have hsucc : fuel = fuel - 1 + 1 := by omega
      rw [hsucc, hround, if_pos hmatch]
    | false =>
      refine ⟨r, ?_, ?_⟩
      · intro fuel hfuel
        rw [List.length_cons] at hfuel
        have hsucc : fuel = fuel - 1 + 1 := by omega
        rw [hsucc, hround, if_neg (by rw [hmatch]; exact Bool.false_ne_true)]
        exact hr (fuel - 1) (by omega)
      · dsimp only
        cases hfind : bs.find? (Field.matching · name type) with
        | none =>
          rw [hfind] at hfound
          exact hfound
        | some g =>
          rw [hfind] at hfound
          obtain ⟨hok, cs, ds, hbs, hoff⟩ := hfound
          refine ⟨hok, f :: cs, ds, by rw [hbs]; rfl, ?_⟩
          rw [hoff, List.append_assoc]
          rfl

lemma Contains.yields (h : Contains m size last fs) : Yields ⟨m, last⟩ fs where
  contents := by
    have hmax : ∀ f ∈ fs, f.elements.length ≤ (fs.map fun f => f.elements.length).sum := by
      intro f hf
      exact List.single_le_sum (fun _ _ => Nat.zero_le _) _ (List.mem_map_of_mem hf)
    refine ⟨fs.length + (fs.map fun f => f.elements.length).sum + 1, ?_⟩
    intro elementFuel helementFuel fuel hfuel
    exact Contains.fieldsFrom [] h (by omega) fun f hf => by
      have hle := hmax f hf
      omega
  findData name type index := by
    obtain ⟨⟨status, field⟩, hr, hfound⟩ := Contains.findFieldLoop [] h name type
    refine ⟨fs.length + 1, ?_⟩
    intro fuel hfuel
    have hfind : (⟨m, last⟩ : Message).findField fuel (some name) type = some (status, field) :=
      hr fuel (by omega)
    unfold Message.findBytes Message.findData lookup
    simp only [Option.bind_eq_bind, hfind, Option.bind_some]
    cases hmatch : fs.find? (Field.matching · name type) with
    | none =>
      rw [hmatch] at hfound
      dsimp only at hfound
      rw [hfound]
      rfl
    | some f =>
      rw [hmatch] at hfound
      obtain ⟨hok, cs, ds, hfs, hfield⟩ := hfound
      subst hfs
      have hat := h.at
      dsimp only at hok hfield
      rw [List.nil_append] at hfield
      rw [hok, hfield]
      dsimp only
      rw [if_neg (by simp)]
      by_cases hneg : index < 0
      · rw [if_pos hneg, h.elementAt_none hat _ (.inl hneg)]
        rfl
      · rw [if_neg hneg]
        cases hx : f.elements[index.toNat]? with
        | none =>
          have hle := List.getElem?_eq_none_iff.1 hx
          rw [h.elementAt_none hat _ (.inr (by omega))]
          rfl
        | some x =>
          obtain ⟨hlt, hget⟩ := List.getElem?_eq_some_iff.1 hx
          have hsplit : f.elements = f.elements.take index.toNat ++
              x :: f.elements.drop (index.toNat + 1) := by
            rw [← hget, List.cons_getElem_drop_succ, List.take_append_drop]
          obtain ⟨p, s, helement, hbytes⟩ := h.elementAt hat hsplit
          have hlength : ((f.elements.take index.toNat).length : ℤ) = index := by
            rw [List.length_take, min_eq_left (by omega)]
            omega
          rw [hlength] at helement
          rw [helement]
          simp only [Option.bind_some, Message.bytesOf, hbytes, Option.map_some]

lemma Contains.setTo (h : Contains m size last fs) {address : ℕ} (haddress : address % 4 = 0)
    (hmagic : uint32At m 0 = some messageHeaderMagic) :
    ∃ last', setTo m address size = some (.ok last') ∧ Yields ⟨m, last'⟩ fs := by
  have hsize := h.accepted.size_ge
  have hlt := h.size_lt
  have hheader : headerSize = 28 := rfl
  have hlength := h.accepted.fields.length_le (by omega) hsize
  have hcheck : checkFields m size (size.toNat + 1) firstFieldHeader (-1) =
      some (.ok ((offsets 28 fs).getLast?.getD (-1))) :=
    Fields.checkFields (d := 28) (-1) h.accepted.fields (by omega) (by omega) (by omega)
      (by omega) (by omega)
  have hset : KMessage.setTo m address size =
      some (.ok ((offsets 28 fs).getLast?.getD (-1))) := by
    unfold KMessage.setTo bufferCapacity
    rw [hheader, if_neg (by omega), if_neg (by omega), if_neg (by omega)]
    simp only [Option.bind_eq_bind, Option.bind_some, hmagic, h.accepted.size_eq]
    rw [if_neg (by omega), if_neg (by simp), if_neg (by omega)]
    exact hcheck
  refine ⟨_, hset, Contains.yields ⟨⟨Memory.Agree.refl m size, h.accepted.size_eq,
    hsize, h.accepted.fields, ?_, ?_⟩, h.laid, h.proper, hlt, h.end_eq⟩⟩
  · intro l hl
    rw [hl]
    rfl
  · intro hnil
    rw [hnil]
    decide

end Haiku.KMessage
