import Haiku.KMessage.LayoutTheorems

/-!
# What is added to a message is found in it

A message that owns its buffer `Holds` the fields that were added to it: they lie one behind the
other in the buffer, up to `ContentSize()`. Every successful call changes them as `record` says,
and every other call leaves them alone.
-/

namespace Haiku.KMessage

open Lib Lock

variable {msg msg' : FullMessage} {fields as bs : List Field} {f f' : Field} {garbage : ℤ → UInt8}
  {m : Memory} {pos : ℤ} {name : CString} {type : ℕ} {xs ys : List (List UInt8)}

structure Holds (msg : FullMessage) (fields : List Field) : Prop where
  magic : uint32At msg.buffer 0 = some messageHeaderMagic
  size : int32At msg.buffer 4 = some (fieldsEnd 28 fields)
  laid : Laid msg.buffer 28 fields
  last : msg.lastFieldOffset = (offsets 28 fields).getLast?.getD 0
  proper : ∀ f ∈ fields, f.Proper
  nodup : (fields.map Field.name).Nodup
  size_lt : fieldsEnd 28 fields < 0x40000000
  capacity : fieldsEnd 28 fields ≤ msg.capacity
  owns : msg.inHeader = false → msg.ownsBuffer = true
  writable : msg.readOnly = false

lemma Holds.contains (h : Holds msg fields) (hagree : m.Agree msg.buffer (fieldsEnd 28 fields)) :
    Contains m (fieldsEnd 28 fields) msg.lastFieldOffset fields := by
  have hge := fieldsEnd_ge 28 fields
  have hlaid : Laid m 28 fields :=
    h.laid.congr h.proper fun p hp hlt => hagree p (by omega) hlt
  have hsize : int32At m 4 = some (fieldsEnd 28 fields) := by
    rw [int32At_congr fun p hp hlt => hagree p (by omega) (by omega)]
    exact h.size
  refine ⟨⟨Memory.Agree.refl m _, hsize, hge, ?_, ?_, ?_⟩, hlaid, h.proper, h.size_lt, rfl⟩
  · exact hlaid.fields h.proper (by omega) h.size_lt rfl
  · intro l hl
    rw [h.last, hl]
    rfl
  · intro hnil
    rw [h.last, hnil]
    exact le_refl 0

/-! ## Making space -/

/-- The buffer has grown up to `newSize`, and what was in it up to `size` is still there, except
for the size in the header. -/
structure Extended (msg msg' : FullMessage) (size newSize : ℤ) : Prop where
  same : ∀ p, p < size → p < 4 ∨ 8 ≤ p → msg'.buffer p = msg.buffer p
  size_eq : int32At msg'.buffer 4 = some newSize
  last : msg'.lastFieldOffset = msg.lastFieldOffset
  capacity : newSize ≤ msg'.capacity
  owns : msg'.inHeader = false → msg'.ownsBuffer = true
  writable : msg'.readOnly = false

lemma grow_same (garbage : ℤ → UInt8) (newCapacity : ℤ) {p : ℤ} (hp : p < msg.capacity) :
    (msg.grow garbage newCapacity).buffer p = msg.buffer p := by
  show (if p < msg.capacity then msg.buffer p else malloc garbage newCapacity p) = msg.buffer p
  rw [if_pos hp]

lemma Extended.of_write {size newSize : ℤ}
    (hsame : ∀ p, p < size → msg'.buffer p = msg.buffer p)
    (hlast : msg'.lastFieldOffset = msg.lastFieldOffset) (hcapacity : newSize ≤ msg'.capacity)
    (howns : msg'.inHeader = false → msg'.ownsBuffer = true) (hwritable : msg'.readOnly = false)
    (hge : 0 ≤ newSize) (hlt : newSize < 0x40000000) :
    Extended msg (msg'.write 4 (int32Bytes newSize)) size newSize where
  same p hp hout := by
    have hlength := length_int32Bytes newSize
    have helsewhere : (msg'.write 4 (int32Bytes newSize)).buffer p = msg'.buffer p :=
      Memory.write_apply_of_not (by omega)
    rw [helsewhere, hsame p hp]
  size_eq := by
    have hread : (msg'.write 4 (int32Bytes newSize)).buffer.read 4 (int32Bytes newSize).length =
        some (int32Bytes newSize) := Memory.read_write
    rw [length_int32Bytes] at hread
    exact int32At_of_read hread (by omega) (by omega)
  last := hlast
  capacity := hcapacity
  owns := howns
  writable := hwritable

lemma align_eq {x : ℤ} (hge : 0 ≤ x) (hlt : roundUp x < 0x40000000) : align x = roundUp x := by
  have hbounds := roundUp_bounds x
  exact int32_eq (by omega) (by omega)

lemma Holds.allocateSpace (h : Holds msg fields) (garbage : ℤ → UInt8) (size : ℤ)
    (alignAddress alignSize : Bool) {offset newSize : ℤ}
    (hoffset : offset = if alignAddress then roundUp (fieldsEnd 28 fields) else fieldsEnd 28 fields)
    (hnewSize : newSize = if alignSize then roundUp (offset + size) else offset + size)
    (hsize : 0 ≤ size) (hlt : newSize < 0x40000000) :
    ∃ msg', msg.allocateSpace garbage size alignAddress alignSize =
      some (msg', .ok (offset, newSize - offset)) ∧
      Extended msg msg' (fieldsEnd 28 fields) newSize := by
  have hge := fieldsEnd_ge 28 fields
  have hbounds := roundUp_bounds (fieldsEnd 28 fields)
  have hbounds' := roundUp_bounds (offset + size)
  have hcontent : msg.contentSize = some (fieldsEnd 28 fields) := h.size
  have hoffsetGe : fieldsEnd 28 fields ≤ offset := by
    rw [hoffset]
    split <;> omega
  have hnewGe : offset + size ≤ newSize := by
    rw [hnewSize]
    split <;> omega
  have hoffsetEq : (if alignAddress then align (fieldsEnd 28 fields) else fieldsEnd 28 fields) =
      offset := by
    cases alignAddress with
    | false => exact hoffset.symm
    | true =>
      have hround : offset = roundUp (fieldsEnd 28 fields) := hoffset
      rw [if_pos rfl, align_eq (by omega) (by omega), hround]
  have hnewEq : (if alignSize then align (offset + size) else int32 (offset + size)) =
      newSize := by
    cases alignSize with
    | false =>
      have hsum : newSize = offset + size := hnewSize
      rw [if_neg Bool.false_ne_true, int32_eq (by omega) (by omega), hsum]
    | true =>
      have hround : newSize = roundUp (offset + size) := hnewSize
      rw [if_pos rfl, align_eq (by omega) (by omega), hround]
  have hspace : int32 (newSize - offset) = newSize - offset := int32_eq (by omega) (by omega)
  unfold FullMessage.allocateSpace
  rw [if_neg (by simp [h.writable]), hcontent, Option.map_some]
  dsimp only
  rw [hoffsetEq, hnewEq, hspace, if_neg (by
    intro hover
    have howns := h.owns hover.1
    rw [howns] at hover
    exact Bool.false_ne_true hover.2.2.symm)]
  refine ⟨_, rfl, ?_⟩
  by_cases hgrow : msg.inHeader = true ∨ newSize > msg.capacity
  · -- a new buffer, with what was in the old one
    rw [if_pos hgrow]
    have hcapacity : newSize ≤ capacityFor newSize := by
      unfold capacityFor
      omega
    have hold := h.capacity
    exact .of_write (fun p hp => grow_same garbage _ (by omega)) rfl hcapacity (fun _ => rfl)
      h.writable (by omega) hlt
  · rw [if_neg hgrow]
    exact .of_write (fun _ _ => rfl) rfl (by omega) h.owns h.writable (by omega) hlt

/-! ## The last field -/

lemma Holds.replaceLast (h : Holds msg (as ++ bs))
    (hsame : ∀ p, p < fieldsEnd 28 as → p < 4 ∨ 8 ≤ p → msg'.buffer p = msg.buffer p)
    (hsize : int32At msg'.buffer 4 = some (fieldsEnd 28 (as ++ [f'])))
    (hlaid : FieldLaid msg'.buffer (roundUp (fieldsEnd 28 as)) f')
    (hlast : msg'.lastFieldOffset = roundUp (fieldsEnd 28 as)) (hproper : f'.Proper)
    (hname : f'.name ∉ as.map Field.name) (hlt : fieldsEnd 28 (as ++ [f']) < 0x40000000)
    (hcapacity : fieldsEnd 28 (as ++ [f']) ≤ msg'.capacity)
    (howns : msg'.inHeader = false → msg'.ownsBuffer = true) (hwritable : msg'.readOnly = false) :
    Holds msg' (as ++ [f']) := by
  have hge := fieldsEnd_ge 28 as
  have hbefore := (laid_append.1 h.laid).1
  have hproperBefore : ∀ f ∈ as, f.Proper := fun f hf => h.proper f (List.mem_append_left _ hf)
  have hnodup := h.nodup
  rw [List.map_append] at hnodup
  constructor
  · -- the magic is in front of the size
    have hread : msg'.buffer.read 0 4 = msg.buffer.read 0 4 :=
      Memory.read_congr fun p hp hlt => hsame p (by omega) (by omega)
    rw [← h.magic, uint32At, uint32At, hread]
  · exact hsize
  · exact laid_append.2 ⟨hbefore.congr hproperBefore fun p hp hlt => hsame p hlt (by omega),
      hlaid, trivial⟩
  · rw [hlast, last_offset]
  · intro g hg
    rcases List.mem_append.1 hg with hg | hg
    · exact hproperBefore g hg
    · rw [List.mem_singleton.1 hg]
      exact hproper
  · rw [List.map_append]
    apply List.Nodup.append hnodup.of_append_left (List.nodup_singleton _)
    intro n hn hn'
    rw [List.mem_singleton] at hn'
    rw [hn'] at hn
    exact hname hn
  · exact hlt
  · exact hcapacity
  · exact howns
  · exact hwritable

lemma fieldsEnd_concat (as : List Field) (f : Field) :
    fieldsEnd 28 (as ++ [f]) = roundUp (fieldsEnd 28 as) + f.size := by
  rw [fieldsEnd_append]
  rfl

lemma size_of_empty (hf : f.elements = []) : f.size = f.headerSize := by
  rw [Field.size, hf]
  split
  · simp
  · rfl

variable {elementSize : ℤ}

lemma fieldLaid_of_header (hproper : (⟨name, type, elementSize, []⟩ : Field).Proper)
    (hread : m.read pos (digits 4 type ++ (int32Bytes elementSize ++ (int32Bytes 0 ++
      (int32Bytes (roundUp (20 + name.bytes.length)) ++
        (int16Bytes (roundUp (20 + name.bytes.length)) ++ (name.bytes ++ [0])))))).length =
      some (digits 4 type ++ (int32Bytes elementSize ++ (int32Bytes 0 ++
      (int32Bytes (roundUp (20 + name.bytes.length)) ++
        (int16Bytes (roundUp (20 + name.bytes.length)) ++ (name.bytes ++ [0]))))))) :
    FieldLaid m pos ⟨name, type, elementSize, []⟩ := by
  have hnameLt : name.bytes.length < 32000 := hproper.name_lt
  have hbounds := roundUp_bounds (20 + name.bytes.length)
  have hsize : (⟨name, type, elementSize, []⟩ : Field).size = roundUp (20 + name.bytes.length) :=
    size_of_empty rfl
  simp only [Memory.read_append, length_int32Bytes, length_int16Bytes, length_digits] at hread
  obtain ⟨htype, helementSize, hcount, hfieldSize, hheaderSize, hname, hzero⟩ := hread
  constructor
  · rw [fieldHeaderAt_eq_some, hsize]
    constructor
    · exact uint32At_of_read htype hproper.type_lt
    · exact int32At_of_read helementSize hproper.elementSize_ge hproper.elementSize_le
    · have hpos : pos + 8 = pos + (4 : ℕ) + (4 : ℕ) := by omega
      show int32At m (pos + 8) = some 0
      rw [hpos]
      exact int32At_of_read hcount (by omega) (by omega)
    · have hpos : pos + 12 = pos + (4 : ℕ) + (4 : ℕ) + (4 : ℕ) := by omega
      show int32At m (pos + 12) = some (roundUp (20 + name.bytes.length))
      rw [hpos]
      exact int32At_of_read hfieldSize (by omega) (by omega)
    · have hpos : pos + 16 = pos + (4 : ℕ) + (4 : ℕ) + (4 : ℕ) + (4 : ℕ) := by omega
      show int16At m (pos + 16) = some (roundUp (20 + name.bytes.length))
      rw [hpos]
      exact int16At_of_read hheaderSize (by omega) (by omega)
  · have hpos : pos + 18 = pos + (4 : ℕ) + (4 : ℕ) + (4 : ℕ) + (4 : ℕ) + (2 : ℕ) := by omega
    have hlength : name.bytes.length + 1 = (name.bytes ++ [0]).length := by simp
    show m.read (pos + 18) (name.bytes.length + 1) = some (name.bytes ++ [0])
    rw [hpos, hlength, Memory.read_append]
    exact ⟨hname, hzero⟩
  · intro _
    rfl
  · intro _
    trivial

lemma Holds.addNewField (h : Holds msg fields) (garbage : ℤ → UInt8)
    (hproper : (⟨name, type, elementSize, []⟩ : Field).Proper)
    (hname : name ∉ fields.map Field.name)
    (hlt : fieldsEnd 28 (fields ++ [⟨name, type, elementSize, []⟩]) < 0x40000000) :
    ∃ msg', msg.addNewField garbage name type elementSize =
      some (msg', .ok, roundUp (fieldsEnd 28 fields)) ∧
      Holds msg' (fields ++ [⟨name, type, elementSize, []⟩]) := by
  have hge := fieldsEnd_ge 28 fields
  have hround := roundUp_bounds (fieldsEnd 28 fields)
  have hroundMod := roundUp_mod (fieldsEnd 28 fields)
  have hsize : (⟨name, type, elementSize, []⟩ : Field).size = roundUp (20 + name.bytes.length) :=
    size_of_empty rfl
  have hend := fieldsEnd_concat fields ⟨name, type, elementSize, []⟩
  rw [hsize] at hend
  rw [hend] at hlt
  have hnewSize : roundUp (roundUp (fieldsEnd 28 fields) + (20 + name.bytes.length)) =
      roundUp (fieldsEnd 28 fields) + roundUp (20 + name.bytes.length) := roundUp_add hroundMod _
  obtain ⟨msg₁, hspace, hext⟩ := h.allocateSpace garbage (20 + name.bytes.length) true true rfl
    hnewSize.symm (by omega) hlt
  have halignedSize : roundUp (fieldsEnd 28 fields) + roundUp (20 + name.bytes.length) -
      roundUp (fieldsEnd 28 fields) = roundUp (20 + name.bytes.length) := by omega
  rw [if_pos rfl, halignedSize] at hspace
  unfold FullMessage.addNewField
  rw [show fieldHeaderSize = 20 from rfl, hspace]
  refine ⟨_, rfl, ?_⟩
  have helsewhere : ∀ p, p < roundUp (fieldsEnd 28 fields) →
      (msg₁.write (roundUp (fieldsEnd 28 fields)) (digits 4 type ++ int32Bytes elementSize ++
        int32Bytes 0 ++ int32Bytes (roundUp (20 + name.bytes.length)) ++
        int16Bytes (roundUp (20 + name.bytes.length)) ++ name.bytes ++ [0])).buffer p =
        msg₁.buffer p := fun p hp => Memory.write_apply_of_not (.inl hp)
  have hfields : Holds msg (fields ++ []) := by rwa [List.append_nil]
  apply hfields.replaceLast
  · intro p hp hout
    rw [← hext.same p hp hout]
    exact helsewhere p (by omega)
  · rw [hend, ← hext.size_eq]
    exact int32At_congr fun p _ hp => helsewhere p (by omega)
  · apply fieldLaid_of_header hproper
    simp only [← List.append_assoc]
    exact Memory.read_write
  · rfl
  · exact hproper
  · exact hname
  · rw [hend]
    exact hlt
  · rw [hend]
    exact hext.capacity
  · exact hext.owns
  · exact hext.writable

/-! ## Elements of the last field -/

lemma Holds.appendElements (h : Holds msg (as ++ [f])) (hproper : (f.append ys).Proper)
    (hpos : pos = roundUp (fieldsEnd 28 as))
    (hlt : fieldsEnd 28 (as ++ [f.append ys]) < 0x40000000)
    (hsame : ∀ p, p < pos + f.size → p < 4 ∨ 8 ≤ p → p < pos + 8 ∨ pos + 16 ≤ p →
      msg'.buffer p = msg.buffer p)
    (hsize : int32At msg'.buffer 4 = some (fieldsEnd 28 (as ++ [f.append ys])))
    (hcount : int32At msg'.buffer (pos + 8) = some (f.append ys).elements.length)
    (hfieldSize : int32At msg'.buffer (pos + 12) = some (f.append ys).size)
    (hfixed : 0 ≤ f.elementSize →
      msg'.buffer.read (pos + f.size) ys.flatten.length = some ys.flatten)
    (hvalues : f.elementSize < 0 → ValuesLaid msg'.buffer (pos + f.size) ys)
    (hlast : msg'.lastFieldOffset = msg.lastFieldOffset)
    (hcapacity : fieldsEnd 28 (as ++ [f.append ys]) ≤ msg'.capacity)
    (howns : msg'.inHeader = false → msg'.ownsBuffer = true) (hwritable : msg'.readOnly = false) :
    Holds msg' (as ++ [f.append ys]) := by
  have hge := fieldsEnd_ge 28 as
  have hround := roundUp_bounds (fieldsEnd 28 as)
  have hmod := roundUp_mod (fieldsEnd 28 as)
  rw [← hpos] at hround hmod
  have hheader := f.headerSize_bounds
  have hheaderLe := f.headerSize_le_size
  have hlaid : FieldLaid msg.buffer pos f := by
    rw [hpos]
    exact (laid_append.1 h.laid).2.1
  have hread : ∀ p n, pos ≤ p → p + (n : ℕ) ≤ pos + f.size →
      p + (n : ℕ) ≤ pos + 8 ∨ pos + 16 ≤ p → msg'.buffer.read p n = msg.buffer.read p n :=
    fun p n hp hle hout =>
      Memory.read_congr fun q hq hlt => hsame q (by omega) (by omega) (by omega)
  have hold := fieldHeaderAt_eq_some.1 hlaid.header
  have hnodup := h.nodup
  rw [List.map_append] at hnodup
  apply h.replaceLast
  · intro p hp hout
    exact hsame p (by omega) hout (by omega)
  · exact hsize
  · rw [← hpos]
    constructor
    · -- only the number of elements and the size of the field have changed
      rw [fieldHeaderAt_eq_some]
      constructor
      · rw [uint32At, hread pos 4 (by omega) (by omega) (by omega)]
        exact hold.type
      · rw [int32At, hread (pos + 4) 4 (by omega) (by omega) (by omega)]
        exact hold.elementSize
      · exact hcount
      · exact hfieldSize
      · rw [int16At, hread (pos + 16) 2 (by omega) (by omega) (by omega)]
        exact hold.headerSize
    · show msg'.buffer.read (pos + 18) (f.name.bytes.length + 1) = some (f.name.bytes ++ [0])
      rw [hread _ _ (by omega) (by omega) (by omega)]
      exact hlaid.name
    · intro hfixedSize
      have hfixedSize : 0 ≤ f.elementSize := hfixedSize
      have hlengths := (h.proper f (by simp)).lengths hfixedSize
      have hlength := length_flatten hlengths
      have hsizeEq : f.size = f.headerSize + f.elementSize * f.elements.length := by
        rw [Field.size, if_pos hfixedSize]
      show msg'.buffer.read (pos + f.headerSize) (f.elements ++ ys).flatten.length =
        some (f.elements ++ ys).flatten
      rw [List.flatten_append, Memory.read_append]
      constructor
      · rw [hread _ _ (by omega) (by omega) (by omega)]
        exact hlaid.fixed hfixedSize
      · have hstart : pos + f.headerSize + f.elements.flatten.length = pos + f.size := by omega
        rw [hstart]
        exact hfixed hfixedSize
    · intro hnegative
      have hnegative : f.elementSize < 0 := hnegative
      have hsizeEq : pos + f.size = valuesEnd (pos + f.headerSize) f.elements := by
        rw [valuesEnd_add hmod, Field.size, if_neg (by omega)]
      have hnew := hvalues hnegative
      rw [hsizeEq] at hnew
      refine valuesLaid_append.2 ⟨?_, hnew⟩
      apply (hlaid.values hnegative).congr
      intro p hp hlt
      exact hsame p (by omega) (by omega) (by omega)
  · rw [hlast, h.last, last_offset]
  · exact hproper
  · intro hmem
    have hdisjoint := List.disjoint_of_nodup_append hnodup
    exact hdisjoint hmem (by simp [Field.append])
  · exact hlt
  · exact hcapacity
  · exact howns
  · exact hwritable

/-! ### The data of elements -/

lemma Data.length_bytes (data : Data) (start n : ℕ) : (data.bytes start n).length = n := by
  simp [Data.bytes]

lemma Data.bytes_add (data : Data) (start n k : ℕ) :
    data.bytes start (n + k) = data.bytes start n ++ data.bytes (start + n) k := by
  unfold Data.bytes
  rw [List.range_add, List.map_append, List.map_map]
  congr 1
  apply List.map_congr_left
  intro i _
  show data (start + (n + i)) = data (start + n + i)
  rw [Nat.add_assoc]

def Data.elementsFrom (data : Data) (elementSize : ℤ) (i n : ℕ) : List (List UInt8) :=
  (List.range' i n).map fun i => data.bytes (i * elementSize.toNat) elementSize.toNat

lemma Data.elements_eq (data : Data) (elementSize elementCount : ℤ) :
    data.elements elementSize elementCount =
      data.elementsFrom elementSize 0 elementCount.toNat := by
  unfold Data.elements Data.elementsFrom
  rw [List.range_eq_range']

lemma Data.elementsFrom_succ (data : Data) (elementSize : ℤ) (i n : ℕ) :
    data.elementsFrom elementSize i (n + 1) =
      data.bytes (i * elementSize.toNat) elementSize.toNat ::
        data.elementsFrom elementSize (i + 1) n := by
  unfold Data.elementsFrom
  rw [List.range'_succ, List.map_cons]

lemma Data.length_elementsFrom (data : Data) (elementSize : ℤ) (i n : ℕ) :
    (data.elementsFrom elementSize i n).length = n := by
  simp [Data.elementsFrom]

lemma Data.length_of_mem {data : Data} {i n : ℕ} (helementSize : 0 ≤ elementSize)
    {x : List UInt8} (hx : x ∈ data.elementsFrom elementSize i n) :
    (x.length : ℤ) = elementSize := by
  obtain ⟨j, _, hj⟩ := List.mem_map.1 hx
  rw [← hj, Data.length_bytes]
  omega

lemma Data.flatten_elementsFrom (data : Data) (elementSize : ℤ) (i n : ℕ) :
    (data.elementsFrom elementSize i n).flatten =
      data.bytes (i * elementSize.toNat) (n * elementSize.toNat) := by
  induction n generalizing i with
  | zero => simp [Data.elementsFrom, Data.bytes]
  | succ n ih =>
    have hlength : (n + 1) * elementSize.toNat = elementSize.toNat + n * elementSize.toNat := by
      ring
    have hnext : (i + 1) * elementSize.toNat = i * elementSize.toNat + elementSize.toNat := by
      ring
    rw [Data.elementsFrom_succ, List.flatten_cons, ih, hlength, hnext, Data.bytes_add]

lemma Field.Proper.append (h : f.Proper) (hcount : f.elements.length + ys.length < 0x80000000)
    (hlengths : 0 ≤ f.elementSize → ∀ y ∈ ys, (y.length : ℤ) = f.elementSize) :
    (f.append ys).Proper where
  name_ne := h.name_ne
  name_lt := h.name_lt
  type_ne := h.type_ne
  type_lt := h.type_lt
  elementSize_ge := h.elementSize_ge
  elementSize_le := h.elementSize_le
  count_lt := by
    show (f.elements ++ ys).length < 0x80000000
    rw [List.length_append]
    exact hcount
  lengths hfixed x hx := by
    rcases List.mem_append.1 hx with hx | hx
    · exact h.lengths hfixed x hx
    · exact hlengths hfixed x hx

lemma Field.append_append (f : Field) (xs ys : List (List UInt8)) :
    (f.append xs).append ys = f.append (xs ++ ys) := by
  unfold Field.append
  rw [List.append_assoc]

lemma Field.size_append_of_fixed (hfixed : 0 ≤ f.elementSize)
    (hlengths : ∀ y ∈ ys, (y.length : ℤ) = f.elementSize) :
    (f.append ys).size = f.size + ys.flatten.length := by
  have hlength := length_flatten hlengths
  show (if 0 ≤ f.elementSize then f.headerSize + f.elementSize * (f.elements ++ ys).length else _) =
    (if 0 ≤ f.elementSize then f.headerSize + f.elementSize * f.elements.length else _) + _
  rw [if_pos hfixed, if_pos hfixed, hlength, List.length_append]
  push_cast
  ring

lemma Field.size_append_of_values (hnegative : f.elementSize < 0) :
    (f.append ys).size = valuesEnd f.size ys := by
  show (if 0 ≤ f.elementSize then _ else valuesEnd f.headerSize (f.elements ++ ys)) =
    valuesEnd (if 0 ≤ f.elementSize then _ else valuesEnd f.headerSize f.elements) ys
  rw [if_neg (by omega), if_neg (by omega), valuesEnd_append]

lemma Field.size_le_append (hlengths : 0 ≤ f.elementSize →
    ∀ y ∈ ys, (y.length : ℤ) = f.elementSize) : f.size ≤ (f.append ys).size := by
  by_cases hfixed : 0 ≤ f.elementSize
  · rw [Field.size_append_of_fixed hfixed (hlengths hfixed)]
    omega
  · rw [Field.size_append_of_values (by omega)]
    exact valuesEnd_ge _ _

/-! ### `_AddFieldData()` -/

lemma updateField_spec (msg : FullMessage) (pos elementCount fieldSize : ℤ)
    (hcount : 0 ≤ elementCount) (hcountLt : elementCount < 0x80000000) (hsize : 0 ≤ fieldSize)
    (hsizeLt : fieldSize < 0x40000000) :
    int32At (msg.updateField pos elementCount fieldSize).buffer (pos + 8) = some elementCount ∧
      int32At (msg.updateField pos elementCount fieldSize).buffer (pos + 12) = some fieldSize ∧
      ∀ p, p < pos + 8 ∨ pos + 16 ≤ p →
        (msg.updateField pos elementCount fieldSize).buffer p = msg.buffer p := by
  have hread : (msg.updateField pos elementCount fieldSize).buffer.read (pos + 8)
      (int32Bytes elementCount ++ int32Bytes fieldSize).length =
      some (int32Bytes elementCount ++ int32Bytes fieldSize) := Memory.read_write
  rw [Memory.read_append, length_int32Bytes, length_int32Bytes] at hread
  have hpos : pos + 12 = pos + 8 + (4 : ℕ) := by omega
  refine ⟨int32At_of_read hread.1 (by omega) (by omega), ?_, ?_⟩
  · rw [hpos]
    exact int32At_of_read hread.2 (by omega) (by omega)
  · intro p hp
    apply Memory.write_apply_of_not
    rw [List.length_append, length_int32Bytes, length_int32Bytes]
    omega

lemma writeValue_spec (msg : FullMessage) (address : ℤ) (x : List UInt8)
    (helementSize : 0 ≤ elementSize) (hlt : elementSize < 0x40000000) :
    (∀ p, p < address → ((msg.write address (int32Bytes elementSize)).write (address + 4) x).buffer p =
        msg.buffer p) ∧
      int32At ((msg.write address (int32Bytes elementSize)).write (address + 4) x).buffer address =
        some elementSize ∧
      ((msg.write address (int32Bytes elementSize)).write (address + 4) x).buffer.read
        (address + 4) x.length = some x := by
  have hlength := length_int32Bytes elementSize
  refine ⟨?_, ?_, Memory.read_write⟩
  · intro p hp
    have hvalue : ((msg.buffer.write address (int32Bytes elementSize)).write (address + 4) x) p =
        (msg.buffer.write address (int32Bytes elementSize)) p :=
      Memory.write_apply_of_not (.inl (by omega))
    have hvalueHeader : (msg.buffer.write address (int32Bytes elementSize)) p = msg.buffer p :=
      Memory.write_apply_of_not (.inl hp)
    exact hvalue.trans hvalueHeader
  · have hread : ((msg.buffer.write address (int32Bytes elementSize)).write (address + 4) x).read
        address (int32Bytes elementSize).length = some (int32Bytes elementSize) := by
      rw [← Memory.read_write (m := msg.buffer)]
      exact Memory.read_write_of_disjoint (.inl (by omega))
    rw [hlength] at hread
    exact int32At_of_read hread (by omega) (by omega)

lemma Holds.addValue (h : Holds msg (as ++ [f])) (garbage : ℤ → UInt8) (data : Data) (n i : ℕ)
    (hpos : pos = roundUp (fieldsEnd 28 as)) (hnegative : f.elementSize < 0)
    (helementSize : 0 ≤ elementSize) (hcount : f.elements.length + 1 < 0x80000000)
    (hlt : fieldsEnd 28 (as ++ [f.append
      [data.bytes (i * elementSize.toNat) elementSize.toNat]]) < 0x40000000) :
    ∃ msg', FullMessage.addValues garbage pos data elementSize (n + 1) i msg =
      FullMessage.addValues garbage pos data elementSize n (i + 1) msg' ∧
      Holds msg' (as ++ [f.append [data.bytes (i * elementSize.toNat) elementSize.toNat]]) := by
  generalize hx : data.bytes (i * elementSize.toNat) elementSize.toNat = x at hlt ⊢
  have hxlength : (x.length : ℤ) = elementSize := by
    rw [← hx, Data.length_bytes]
    omega
  have hproper : (f.append [x]).Proper := (h.proper f (by simp)).append hcount fun _ => by omega
  have hge := fieldsEnd_ge 28 as
  have hround := roundUp_bounds (fieldsEnd 28 as)
  have hmod := roundUp_mod (fieldsEnd 28 as)
  rw [← hpos] at hround hmod
  have hheader := f.headerSize_bounds
  have hheaderLe := f.headerSize_le_size
  have hold : fieldsEnd 28 (as ++ [f]) = pos + f.size := by
    rw [fieldsEnd_concat, hpos]
  have hnew : fieldsEnd 28 (as ++ [f.append [x]]) = roundUp (pos + f.size) + 4 + elementSize := by
    rw [fieldsEnd_concat, ← hpos, Field.size_append_of_values hnegative, ← valuesEnd_add hmod,
      valuesEnd, valuesEnd, hxlength]
  have hsizeEq : (f.append [x]).size = roundUp (pos + f.size) + 4 + elementSize - pos := by
    rw [fieldsEnd_concat, ← hpos] at hnew
    omega
  have hbounds := roundUp_bounds (pos + f.size)
  rw [hnew] at hlt
  -- the space for the value
  have hoffset : roundUp (pos + f.size) =
      if true = true then roundUp (fieldsEnd 28 (as ++ [f])) else fieldsEnd 28 (as ++ [f]) := by
    rw [hold, if_pos rfl]
  have hnewSize : roundUp (pos + f.size) + 4 + elementSize =
      if false = true then roundUp (roundUp (pos + f.size) + (4 + elementSize))
      else roundUp (pos + f.size) + (4 + elementSize) := by
    rw [if_neg Bool.false_ne_true]
    ring
  obtain ⟨msg₁, hspace, hext⟩ := h.allocateSpace garbage (4 + elementSize) true false hoffset hnewSize
    (by omega) hlt
  rw [hold] at hext
  -- the value header, and the value
  have hfour : valueHeaderSize = 4 := rfl
  have hdata : valueData (roundUp (pos + f.size)) = roundUp (pos + f.size) + 4 :=
    valueData_roundUp (by omega) (by omega)
  obtain ⟨hwrites, hvalueSize, hbytes⟩ := writeValue_spec msg₁ (roundUp (pos + f.size)) x
    helementSize (by omega)
  generalize hmsg₃ : (msg₁.write (roundUp (pos + f.size)) (int32Bytes elementSize)).write
    (roundUp (pos + f.size) + 4) x = msg₃ at hwrites hvalueSize hbytes
  have hsame : ∀ p, p < pos + f.size → p < 4 ∨ 8 ≤ p → msg₃.buffer p = msg.buffer p := by
    intro p hp hout
    rw [hwrites p (by omega), hext.same p hp hout]
  have hlaid : FieldLaid msg.buffer pos f := by
    rw [hpos]
    exact (laid_append.1 h.laid).2.1
  have hlaid₃ : FieldLaid msg₃.buffer pos f :=
    hlaid.congr (h.proper f (by simp)) hmod fun p hp hlt => hsame p hlt (by omega)
  have hfieldSize : roundUp (pos + f.size) + (roundUp (pos + f.size) + 4 + elementSize -
      roundUp (pos + f.size)) - pos = roundUp (pos + f.size) + 4 + elementSize - pos := by omega
  obtain ⟨hcountAt, hfieldSizeAt, hkept⟩ := updateField_spec msg₃ pos (f.elements.length + 1)
    (roundUp (pos + f.size) + 4 + elementSize - pos) (by omega) (by omega) (by omega) (by omega)
  refine ⟨msg₃.updateField pos (f.elements.length + 1)
    (roundUp (pos + f.size) + 4 + elementSize - pos), ?_, ?_⟩
  · rw [FullMessage.addValues, hfour, hspace]
    simp only [Option.bind_eq_bind, Option.bind_some, hdata, hx, hmsg₃, hlaid₃.header, hfieldSize]
  · apply h.appendElements hproper hpos
    · rw [hnew]
      exact hlt
    · intro p hp hout hout'
      rw [hkept p hout', hsame p hp hout]
    · rw [hnew, ← hext.size_eq]
      exact int32At_congr fun p _ hp => (hkept p (by omega)).trans (hwrites p (by omega))
    · rw [hcountAt]
      simp [Field.append]
    · rw [hfieldSizeAt, hsizeEq]
    · intro hfixed
      omega
    · intro _
      refine ⟨?_, ?_, trivial⟩
      · rw [hxlength, ← hvalueSize]
        exact int32At_congr fun p hp _ => hkept p (by omega)
      · rw [← hbytes]
        exact Memory.read_congr fun p hp _ => hkept p (by omega)
    · rw [← hext.last, ← hmsg₃]
      rfl
    · rw [hnew, ← hmsg₃]
      exact hext.capacity
    · rw [← hmsg₃]
      exact hext.owns
    · rw [← hmsg₃]
      exact hext.writable

lemma Field.append_nil (f : Field) : f.append [] = f := by
  unfold Field.append
  rw [List.append_nil]

lemma Holds.addValues (h : Holds msg (as ++ [f])) (garbage : ℤ → UInt8) (data : Data) (n i : ℕ)
    (hpos : pos = roundUp (fieldsEnd 28 as)) (hnegative : f.elementSize < 0)
    (helementSize : 0 ≤ elementSize) (hcount : f.elements.length + n < 0x80000000)
    (hlt : fieldsEnd 28 (as ++ [f.append (data.elementsFrom elementSize i n)]) < 0x40000000) :
    ∃ msg', FullMessage.addValues garbage pos data elementSize n i msg = some (msg', .ok) ∧
      Holds msg' (as ++ [f.append (data.elementsFrom elementSize i n)]) := by
  induction n generalizing i f msg with
  | zero =>
    refine ⟨msg, rfl, ?_⟩
    show Holds msg (as ++ [f.append []])
    rw [Field.append_nil]
    exact h
  | succ n ih =>
    rw [Data.elementsFrom_succ] at hlt ⊢
    generalize hfirst : data.bytes (i * elementSize.toNat) elementSize.toNat = x at hlt ⊢
    generalize hrest : data.elementsFrom elementSize (i + 1) n = xs at hlt ⊢
    have happend : f.append (x :: xs) = (f.append [x]).append xs := by
      rw [Field.append_append]
      rfl
    rw [happend] at hlt ⊢
    have hle : fieldsEnd 28 (as ++ [f.append [x]]) < 0x40000000 := by
      have hmono : (f.append [x]).size ≤ ((f.append [x]).append xs).size :=
        Field.size_le_append fun hfixed => by
          have hfixed : 0 ≤ f.elementSize := hfixed
          omega
      rw [fieldsEnd_concat] at hlt ⊢
      omega
    have hround := h.addValue garbage data n i hpos hnegative helementSize (by omega)
    rw [hfirst] at hround
    obtain ⟨msg₁, hstep, hholds⟩ := hround hle
    rw [← hrest] at hlt ⊢
    have hlength : (f.append [x]).elements.length = f.elements.length + 1 := by
      simp [Field.append]
    rw [hstep]
    exact ih hholds (i + 1) hnegative (by omega) hlt

variable {elementCount : ℤ}

lemma Holds.addFixed (h : Holds msg (as ++ [f])) (garbage : ℤ → UInt8) (data : Data)
    (hpos : pos = roundUp (fieldsEnd 28 as)) (hfixed : 0 ≤ f.elementSize)
    (hpositive : 0 < elementCount) (hcount : f.elements.length + elementCount < 0x80000000)
    (hlt : fieldsEnd 28 (as ++ [f.append (data.elements f.elementSize elementCount)]) <
      0x40000000) :
    ∃ msg₁ size, int32 (f.elementSize * elementCount) = size ∧
      msg.allocateSpace garbage size ((f.elements.length : ℤ) = 0) false =
        some (msg₁, .ok (pos + f.size, size)) ∧
      Holds ((msg₁.write (pos + f.size) (data.bytes 0 size.toNat)).updateField pos
        (f.elements.length + elementCount) (pos + f.size + size - pos))
        (as ++ [f.append (data.elements f.elementSize elementCount)]) := by
  have hlengths :
    ∀ y ∈ data.elements f.elementSize elementCount, (y.length : ℤ) = f.elementSize := by
    rw [Data.elements_eq]
    exact fun y hy => Data.length_of_mem hfixed hy
  have hflatten : (data.elements f.elementSize elementCount).flatten =
      data.bytes 0 (f.elementSize * elementCount).toNat := by
    rw [Data.elements_eq, Data.flatten_elementsFrom, Nat.zero_mul,
      Int.toNat_mul hfixed (by omega), Nat.mul_comm]
  have hnumber : (data.elements f.elementSize elementCount).length = elementCount.toNat := by
    rw [Data.elements_eq, Data.length_elementsFrom]
  generalize hys : data.elements f.elementSize elementCount = ys at hlt hlengths hflatten hnumber ⊢
  have hproper : (f.append ys).Proper :=
    (h.proper f (by simp)).append (by omega) fun _ => hlengths
  have hproduct : 0 ≤ f.elementSize * elementCount := Int.mul_nonneg hfixed (by omega)
  have hge := fieldsEnd_ge 28 as
  have hround := roundUp_bounds (fieldsEnd 28 as)
  have hmod := roundUp_mod (fieldsEnd 28 as)
  rw [← hpos] at hround hmod
  have hheader := f.headerSize_bounds
  have hheaderLe := f.headerSize_le_size
  have hold : fieldsEnd 28 (as ++ [f]) = pos + f.size := by
    rw [fieldsEnd_concat, hpos]
  have hflattenLength : (ys.flatten.length : ℤ) = f.elementSize * elementCount := by
    rw [hflatten, Data.length_bytes]
    omega
  have hsizeEq : (f.append ys).size = f.size + f.elementSize * elementCount := by
    rw [Field.size_append_of_fixed hfixed hlengths, hflattenLength]
  have hnew : fieldsEnd 28 (as ++ [f.append ys]) =
      pos + f.size + f.elementSize * elementCount := by
    rw [fieldsEnd_concat, ← hpos, hsizeEq]
    ring
  rw [hnew] at hlt
  have hsize : int32 (f.elementSize * elementCount) = f.elementSize * elementCount :=
    int32_eq (by omega) (by omega)
  generalize hs : f.elementSize * elementCount = size at *
  -- the first element comes after the header, whose end is aligned anyway
  have hoffset : pos + f.size = if decide ((f.elements.length : ℤ) = 0) = true then
      roundUp (fieldsEnd 28 (as ++ [f])) else fieldsEnd 28 (as ++ [f]) := by
    rw [hold]
    split
    next hempty =>
      have hnil : f.elements = [] := List.eq_nil_of_length_eq_zero (by simpa using hempty)
      have hheaderMod : f.headerSize % 4 = 0 := roundUp_mod _
      have hsizeNil := size_of_empty hnil
      rw [roundUp_of_mod (by omega)]
    · rfl
  have hnewSize : pos + f.size + size = if false = true then roundUp (pos + f.size + size)
      else pos + f.size + size := by
    rw [if_neg Bool.false_ne_true]
  obtain ⟨msg₁, hspace, hext⟩ := h.allocateSpace garbage size _ false hoffset hnewSize hproduct hlt
  have haligned : pos + f.size + size - (pos + f.size) = size := by omega
  have hfieldSize : pos + f.size + size - pos = f.size + size := by omega
  rw [haligned] at hspace
  rw [hold] at hext
  refine ⟨msg₁, size, hsize, hspace, ?_⟩
  rw [hfieldSize]
  obtain ⟨hcountAt, hfieldSizeAt, hkept⟩ := updateField_spec
    (msg₁.write (pos + f.size) (data.bytes 0 size.toNat)) pos (f.elements.length + elementCount)
    (f.size + size) (by omega) (by omega) (by omega) (by omega)
  have hwrites : ∀ p, p < pos + f.size →
      (msg₁.write (pos + f.size) (data.bytes 0 size.toNat)).buffer p = msg₁.buffer p :=
    fun p hp => Memory.write_apply_of_not (.inl hp)
  apply h.appendElements hproper hpos
  · rw [hnew]
    exact hlt
  · intro p hp hout hout'
    rw [hkept p hout', hwrites p hp, hext.same p hp hout]
  · rw [hnew, ← hext.size_eq]
    exact int32At_congr fun p _ hp => (hkept p (by omega)).trans (hwrites p (by omega))
  · rw [hcountAt]
    show some _ = some ((f.elements ++ ys).length : ℤ)
    rw [List.length_append, hnumber]
    push_cast
    congr 1
    omega
  · rw [hfieldSizeAt, hsizeEq]
  · intro _
    have hread : (msg₁.write (pos + f.size) (data.bytes 0 size.toNat)).buffer.read (pos + f.size)
        (data.bytes 0 size.toNat).length = some (data.bytes 0 size.toNat) := Memory.read_write
    rw [hflatten, ← hread]
    exact Memory.read_congr fun p hp _ => hkept p (by omega)
  · intro hnegative
    omega
  · rw [← hext.last]
    rfl
  · rw [hnew]
    exact hext.capacity
  · exact hext.owns
  · exact hext.writable

lemma Holds.self (h : Holds msg fields) :
    Contains msg.buffer (fieldsEnd 28 fields) msg.lastFieldOffset fields :=
  h.contains (Memory.Agree.refl _ _)

lemma Holds.headerForOffset (h : Holds msg (as ++ f :: bs))
    (hpos : pos = roundUp (fieldsEnd 28 as)) :
    msg.fieldHeaderForOffset pos = some (some pos) ∧
      fieldHeaderAt msg.buffer pos =
        some ⟨f.type, f.elementSize, f.elements.length, f.size, f.headerSize⟩ := by
  have hat := h.self.at
  rw [← hpos] at hat
  exact ⟨hat.offset, hat.laid.header⟩

lemma Holds.last_eq (h : Holds msg (as ++ [f])) :
    msg.lastFieldOffset = roundUp (fieldsEnd 28 as) := by
  rw [h.last, last_offset]

lemma Holds.addFieldData_last (h : Holds msg (as ++ [f])) (garbage : ℤ → UInt8) (data : Data)
    (hpos : pos = roundUp (fieldsEnd 28 as)) (helementSize : 0 ≤ elementSize)
    (helementCount : 0 ≤ elementCount)
    (hmatch : 0 ≤ f.elementSize → elementCount ≠ 0 → elementSize = f.elementSize)
    (hcount : f.elements.length + elementCount < 0x80000000)
    (hlt : fieldsEnd 28 (as ++ [f.append (data.elements elementSize elementCount)]) < 0x40000000) :
    ∃ msg', msg.addFieldData garbage pos (some data) elementSize elementCount =
        some (msg', .ok) ∧
      Holds msg' (as ++ [f.append (data.elements elementSize elementCount)]) := by
  obtain ⟨hoffset, hheader⟩ := h.headerForOffset hpos
  have hlast : msg.lastFieldOffset = pos := by
    rw [h.last_eq, hpos]
  unfold FullMessage.addFieldData
  simp only [Option.bind_eq_bind, hlast, hoffset, Option.bind_some, hheader]
  rw [if_neg (by simp; omega)]
  by_cases hzero : elementCount = 0
  · rw [if_pos hzero, hzero]
    refine ⟨msg, rfl, ?_⟩
    have hnil : data.elements elementSize 0 = [] := rfl
    rw [hnil, Field.append_nil]
    exact h
  · rw [if_neg hzero]
    by_cases hfixed : 0 ≤ f.elementSize
    · have hsame := hmatch hfixed hzero
      subst hsame
      obtain ⟨msg₁, size, hsize, hspace, hholds⟩ :=
        h.addFixed garbage data hpos hfixed (by omega) hcount hlt
      rw [if_pos (by simpa using hfixed), if_neg (by simp), hsize,
        hspace]
      exact ⟨_, rfl, hholds⟩
    · rw [if_neg (by simpa using hfixed)]
      rw [Data.elements_eq] at hlt ⊢
      exact h.addValues garbage data _ 0 hpos (by omega) helementSize (by omega) hlt

lemma Field.size_pos (f : Field) : 0 < f.size := by
  have hheader := f.headerSize_bounds
  have hle := f.headerSize_le_size
  omega

/-! ## What a call gives -/

/-- A call is carried out, and the message holds what it should afterwards: other fields if the
call was successful, and the same fields otherwise. -/
def Gives (fields fields' : List Field) (result : Option (FullMessage × Status)) : Prop :=
  ∃ msg' status, result = some (msg', status) ∧
    Holds msg' (if status = .ok then fields' else fields)

lemma Holds.fails (h : Holds msg fields) {status : Status} (hstatus : status ≠ .ok)
    (fields' : List Field) : Gives fields fields' (some (msg, status)) := by
  refine ⟨msg, status, rfl, ?_⟩
  rw [if_neg hstatus]
  exact h

lemma Gives.of_ok {fields' : List Field} {result : Option (FullMessage × Status)}
    (h : ∃ msg', result = some (msg', .ok) ∧ Holds msg' fields') : Gives fields fields' result := by
  obtain ⟨msg', hresult, hholds⟩ := h
  exact ⟨msg', .ok, hresult, hholds⟩

lemma Holds.addFieldData_notLast {cs : List Field} {g : Field}
    (h : Holds msg (as ++ f :: (cs ++ [g]))) (garbage : ℤ → UInt8) (data : Option Data)
    (elementSize elementCount : ℤ) (hpos : pos = roundUp (fieldsEnd 28 as)) :
    msg.addFieldData garbage pos data elementSize elementCount = some (msg, .badValue) := by
  obtain ⟨hoffset, _⟩ := h.headerForOffset hpos
  have hassoc : as ++ f :: (cs ++ [g]) = (as ++ f :: cs) ++ [g] := by simp
  rw [hassoc] at h
  obtain ⟨hlastOffset, _⟩ := h.headerForOffset rfl
  have hend : fieldsEnd 28 (as ++ f :: cs) = fieldsEnd (pos + f.size) cs := by
    rw [fieldsEnd_append, hpos]
    rfl
  have hge := fieldsEnd_ge (pos + f.size) cs
  have hsize := f.size_pos
  have hbounds := roundUp_bounds (fieldsEnd 28 (as ++ f :: cs))
  have hne : some (roundUp (fieldsEnd 28 (as ++ f :: cs))) ≠ some pos := by
    intro heq
    have heq := Option.some.inj heq
    omega
  unfold FullMessage.addFieldData
  simp only [Option.bind_eq_bind, h.last_eq, hoffset, hlastOffset, Option.bind_some]
  cases data with
  | none => rfl
  | some data => exact if_pos (.inl hne)

lemma Holds.addFieldData_null (h : Holds msg (as ++ f :: bs)) (garbage : ℤ → UInt8)
    (elementSize elementCount : ℤ) (hpos : pos = roundUp (fieldsEnd 28 as)) :
    msg.addFieldData garbage pos none elementSize elementCount = some (msg, .badValue) := by
  obtain ⟨hoffset, _⟩ := h.headerForOffset hpos
  have ⟨last, hlast⟩ : ∃ last, msg.fieldHeaderForOffset msg.lastFieldOffset = some last := by
    unfold Message.fieldHeaderForOffset
    split
    · exact ⟨_, rfl⟩
    · exact ⟨_, by rw [h.size]; rfl⟩
  unfold FullMessage.addFieldData
  simp only [Option.bind_eq_bind, hlast, hoffset, Option.bind_some]

lemma Holds.addFieldData (h : Holds msg (as ++ f :: bs)) (garbage : ℤ → UInt8)
    (data : Option Data) (elementSize elementCount : ℤ) (hpos : pos = roundUp (fieldsEnd 28 as))
    (hcount : (f.append (elementsOf data elementSize elementCount)).elements.length < 0x80000000)
    (hlt : fieldsEnd 28 (as ++ f.append (elementsOf data elementSize elementCount) :: bs) <
      0x40000000) :
    Gives (as ++ f :: bs) (as ++ f.append (elementsOf data elementSize elementCount) :: bs)
      (msg.addFieldData garbage pos data elementSize elementCount) := by
  obtain ⟨hoffset, hheader⟩ := h.headerForOffset hpos
  rcases List.eq_nil_or_concat bs with hbs | ⟨cs, g, hbs⟩
  · subst hbs
    have hlast : msg.lastFieldOffset = pos := by
      rw [h.last_eq, hpos]
    cases data with
    | none =>
      rw [h.addFieldData_null garbage elementSize elementCount hpos]
      exact h.fails (by decide) _
    | some data =>
      by_cases hnegative : elementSize < 0 ∨ elementCount < 0
      · unfold FullMessage.addFieldData
        simp only [Option.bind_eq_bind, hlast, hoffset, Option.bind_some]
        rw [if_pos (.inr hnegative)]
        exact h.fails (by decide) _
      · by_cases hmatch : 0 ≤ f.elementSize → elementCount ≠ 0 → elementSize = f.elementSize
        · have hcount : f.elements.length + elementCount < 0x80000000 := by
            have hlength : (f.append (data.elements elementSize elementCount)).elements.length =
                f.elements.length + elementCount.toNat := by
              show (f.elements ++ _).length = _
              rw [List.length_append, Data.elements_eq, Data.length_elementsFrom]
            have hbound : (f.append (data.elements elementSize elementCount)).elements.length <
                0x80000000 := hcount
            omega
          exact Gives.of_ok (h.addFieldData_last garbage data hpos (by omega) (by omega) hmatch
            hcount hlt)
        · -- the size is wrong for this field
          rw [Classical.not_imp, Classical.not_imp] at hmatch
          obtain ⟨hfixed, hne, hsize⟩ := hmatch
          unfold FullMessage.addFieldData
          simp only [Option.bind_eq_bind, hlast, hoffset, Option.bind_some, hheader]
          rw [if_neg (by simp; omega), if_neg hne,
            if_pos (by simpa using hfixed), if_pos hsize]
          exact h.fails (by decide) _
  · rw [List.concat_eq_append] at hbs
    subst hbs
    rw [h.addFieldData_notLast garbage data elementSize elementCount hpos]
    exact h.fails (by decide) _

/-! ### Finding the field with a name -/

lemma Holds.findField (h : Holds msg fields) (name : CString) :
    (∃ field, msg.findField msg.fuel (some name) anyType = some (.nameNotFound, field) ∧
      name ∉ fields.map Field.name) ∨
    ∃ as f bs, fields = as ++ f :: bs ∧ f.name = name ∧
      msg.findField msg.fuel (some name) anyType = some (.ok, roundUp (fieldsEnd 28 as)) := by
  have hcontent : msg.contentSize = some (fieldsEnd 28 fields) := h.size
  have hge := fieldsEnd_ge 28 fields
  have hlength := h.self.accepted.fields.length_le (by omega) hge
  rw [length_offsets] at hlength
  obtain ⟨⟨status, field⟩, hr, hfound⟩ := Contains.findFieldLoop [] h.self name anyType
  have hfind : msg.findField msg.fuel (some name) anyType = some (status, field) := by
    have hfuel : msg.fuel = (fieldsEnd 28 fields).toNat := by
      rw [FullMessage.fuel, hcontent]
      rfl
    exact hr msg.fuel (by omega)
  cases hmatch : fields.find? (Field.matching · name anyType) with
  | none =>
    rw [hmatch] at hfound
    have hstatus : status = .nameNotFound := hfound
    refine .inl ⟨field, by rw [hfind, hstatus], ?_⟩
    intro hmem
    obtain ⟨g, hg, hname⟩ := List.mem_map.1 hmem
    have hnot := List.find?_eq_none.1 hmatch g hg
    exact hnot (by simp [Field.matching, hname])
  | some f =>
    rw [hmatch] at hfound
    obtain ⟨hstatus, as, bs, hfields, hfield⟩ := hfound
    have hstatus : status = .ok := hstatus
    have hfield : field = roundUp (fieldsEnd 28 as) := hfield
    have hname := List.find?_some hmatch
    refine .inr ⟨as, f, bs, hfields, by simpa [Field.matching] using hname, ?_⟩
    rw [hfind, hstatus, hfield]

lemma changeOrAdd_of_notMem (hname : name ∉ fields.map Field.name) (change : Field → Field)
    (new : Field) : changeOrAdd fields name change new = fields ++ [new] := by
  unfold changeOrAdd
  rw [if_neg]
  simpa using fun f hf hfname => hname (List.mem_map.2 ⟨f, hf, hfname⟩)

lemma changeOrAdd_of_split (hnodup : ((as ++ f :: bs).map Field.name).Nodup)
    (hname : f.name = name) (change : Field → Field) (new : Field) :
    changeOrAdd (as ++ f :: bs) name change new = as ++ change f :: bs := by
  rw [List.map_append, List.map_cons] at hnodup
  have hne : ∀ g ∈ as ++ bs, g.name ≠ name := by
    intro g hg hgname
    have hmiddle := List.nodup_middle.1 hnodup
    rw [← List.map_append] at hmiddle
    have hnot := (List.nodup_cons.1 hmiddle).1
    exact hnot (List.mem_map.2 ⟨g, hg, by rw [hgname, hname]⟩)
  have hsame : ∀ gs : List Field, (∀ g ∈ gs, g.name ≠ name) →
      gs.map (fun g => if g.name = name then change g else g) = gs := by
    intro gs hgs
    rw [List.map_congr_left fun g hg => if_neg (hgs g hg), List.map_id']
  unfold changeOrAdd
  rw [if_pos (by simp [hname]), List.map_append, List.map_cons, if_pos hname,
    hsame as fun g hg => hne g (List.mem_append_left _ hg),
    hsame bs fun g hg => hne g (List.mem_append_right _ hg)]

/-! ### The offset of a field -/

lemma exists_of_mem_offsets {d : ℤ} (h : pos ∈ offsets d fields) :
    ∃ as f bs, fields = as ++ f :: bs ∧ pos = roundUp (fieldsEnd d as) := by
  induction fields generalizing d with
  | nil => cases h
  | cons f fs ih =>
    rcases List.mem_cons.1 h with h | h
    · exact ⟨[], f, fs, rfl, h⟩
    · obtain ⟨as, g, bs, hfs, hpos⟩ := ih h
      exact ⟨f :: as, g, bs, by rw [hfs]; rfl, hpos⟩

lemma lt_of_mem_offsets {d : ℤ} (h : pos ∈ offsets d fields) : pos < fieldsEnd d fields := by
  obtain ⟨as, f, bs, hfields, hpos⟩ := exists_of_mem_offsets h
  have hge := fieldsEnd_ge (pos + f.size) bs
  have hsize := f.size_pos
  have hend : fieldsEnd d (as ++ f :: bs) = fieldsEnd (pos + f.size) bs := by
    rw [fieldsEnd_append, hpos]
    rfl
  rw [hfields, hend]
  omega

lemma modify_offset (as : List Field) (f : Field) (bs : List Field) (change : Field → Field) :
    (as ++ f :: bs).modify ((offsets 28 (as ++ f :: bs)).idxOf (roundUp (fieldsEnd 28 as))) change =
      as ++ change f :: bs := by
  have hnot : roundUp (fieldsEnd 28 as) ∉ offsets 28 as := by
    intro hmem
    have hlt := lt_of_mem_offsets hmem
    have hbounds := roundUp_bounds (fieldsEnd 28 as)
    omega
  have hindex : (offsets 28 (as ++ f :: bs)).idxOf (roundUp (fieldsEnd 28 as)) = as.length := by
    rw [offsets_append, List.idxOf_append_of_notMem hnot, length_offsets, offsets,
      List.idxOf_cons_self, Nat.add_zero]
  rw [hindex, List.modify_eq_take_drop, List.take_left, List.drop_left]
  rfl

/-! ## The calls -/

def IsInt32 (x : ℤ) : Prop := -0x80000000 ≤ x ∧ x ≤ 0x7fffffff

def CString.Fits (name : CString) : Prop := name.bytes ≠ [] ∧ name.bytes.length < 32000

/-- What the arguments of a call are, by their types, for a message with these fields: a
`KMessageField` is not set, or it is one of the fields. -/
def Call.Typed (fields : List Field) : Call → Prop
  | .setWhat _ => True
  | .addField name type elementSize => name.Fits ∧ type < 2 ^ 32 ∧ IsInt32 elementSize
  | .addData name type _ numBytes _ => name.Fits ∧ type < 2 ^ 32 ∧ IsInt32 numBytes
  | .addArray name type _ elementSize elementCount =>
    name.Fits ∧ type < 2 ^ 32 ∧ IsInt32 elementSize ∧ IsInt32 elementCount
  | .setData name type _ numBytes => name.Fits ∧ type < 2 ^ 32 ∧ IsInt32 numBytes
  | .addElement field _ size => (field = 0 ∨ field ∈ offsets 28 fields) ∧ IsInt32 size
  | .addElements field _ count elementSize =>
    (field = 0 ∨ field ∈ offsets 28 fields) ∧ IsInt32 count ∧ IsInt32 elementSize

/-- A call of `SetData()` does not replace an element, and it adds a field only with a type, and
data, that fields have. -/
def Call.Sound (fields : List Field) : Call → Prop
  | .setData name type data numBytes =>
    (name ∉ fields.map Field.name → type ≠ anyType ∧ data.isSome ∧ 0 ≤ numBytes) ∧
      ∀ f ∈ fields, f.name = name → f.type = type → f.elementSize = numBytes →
        0 ≤ f.elementSize → f.elements = []
  | _ => True

/-- The numbers of elements after the call are `int32` numbers. -/
def CountsFit (fields : List Field) : Prop := ∀ f ∈ fields, f.elements.length < 0x80000000

lemma Field.proper_of_new (hname : name.Fits) (htype : type < 2 ^ 32) (hne : type ≠ anyType)
    (helementSize : IsInt32 elementSize) :
    (⟨name, type, elementSize, []⟩ : Field).Proper where
  name_ne := hname.1
  name_lt := hname.2
  type_ne := hne
  type_lt := htype
  elementSize_ge := helementSize.1
  elementSize_le := helementSize.2
  count_lt := by
    show 0 < 0x80000000
    omega
  lengths _ x hx := by cases hx

section

variable (h : Holds msg fields)
include h

lemma Holds.setWhat (what : ℕ) : Holds (msg.write 8 (digits 4 what)) fields := by
  have hlength := length_digits 4 what
  have hsame : ∀ p, p < 8 ∨ 12 ≤ p →
      (msg.write 8 (digits 4 what)).buffer p = msg.buffer p := fun p hp =>
    Memory.write_apply_of_not (by omega)
  refine ⟨?_, ?_, ?_, h.last, h.proper, h.nodup, h.size_lt, h.capacity, h.owns, h.writable⟩
  · have hread : (msg.write 8 (digits 4 what)).buffer.read 0 4 = msg.buffer.read 0 4 :=
      Memory.read_congr fun p _ hp => hsame p (by omega)
    rw [← h.magic, uint32At, uint32At, hread]
  · rw [← h.size]
    exact int32At_congr fun p _ hp => hsame p (by omega)
  · exact h.laid.congr h.proper fun p hp _ => hsame p (by omega)

lemma Holds.addFieldWithData (garbage : ℤ → UInt8) (data : Data)
    {fieldElementSize : ℤ} (hnot : name ∉ fields.map Field.name)
    (hproper : (⟨name, type, fieldElementSize, []⟩ : Field).Proper)
    (helementSize : 0 ≤ elementSize) (helementCount : 0 ≤ elementCount)
    (hmatch : 0 ≤ fieldElementSize → elementSize = fieldElementSize)
    (hcount : elementCount < 0x80000000)
    (hlt : fieldsEnd 28 (fields ++ [⟨name, type, fieldElementSize,
      data.elements elementSize elementCount⟩]) < 0x40000000) :
    ∃ msg', msg.addFieldWithData garbage name type fieldElementSize (some data) elementSize
        elementCount = some (msg', .ok) ∧
      Holds msg' (fields ++ [⟨name, type, fieldElementSize,
        data.elements elementSize elementCount⟩]) := by
  have hle : fieldsEnd 28 (fields ++ [⟨name, type, fieldElementSize, []⟩]) < 0x40000000 := by
    have hmono : (⟨name, type, fieldElementSize, []⟩ : Field).size ≤
        (⟨name, type, fieldElementSize, data.elements elementSize elementCount⟩ : Field).size := by
      rw [Data.elements_eq]
      exact Field.size_le_append (f := ⟨name, type, fieldElementSize, []⟩) fun hfixed y hy =>
        (Data.length_of_mem helementSize hy).trans (hmatch hfixed)
    rw [fieldsEnd_concat] at hlt ⊢
    omega
  obtain ⟨msg₁, hnew, hholds⟩ := h.addNewField garbage hproper hnot hle
  obtain ⟨msg₂, hadd, hholds'⟩ := hholds.addFieldData_last garbage data rfl helementSize helementCount
    (fun hfixed _ => hmatch hfixed) (by
      show ((0 : ℕ) : ℤ) + elementCount < 0x80000000
      omega) hlt
  refine ⟨msg₂, ?_, hholds'⟩
  unfold FullMessage.addFieldWithData
  rw [hnew]
  exact hadd

lemma Holds.addOrNew (garbage : ℤ → UInt8) (data : Data)
    {fieldElementSize : ℤ} (hname : name.Fits) (htype : type < 2 ^ 32) (hne : type ≠ anyType)
    (helementSize : 0 ≤ elementSize) (helementCount : 0 ≤ elementCount)
    (hfits : IsInt32 fieldElementSize)
    (hmatch : 0 ≤ fieldElementSize → elementSize = fieldElementSize)
    (hcount : CountsFit (changeOrAdd fields name
      (Field.append · (data.elements elementSize elementCount))
      ⟨name, type, fieldElementSize, data.elements elementSize elementCount⟩))
    (hlt : fieldsEnd 28 (changeOrAdd fields name
      (Field.append · (data.elements elementSize elementCount))
      ⟨name, type, fieldElementSize, data.elements elementSize elementCount⟩) < 0x40000000) :
    Gives fields (changeOrAdd fields name (Field.append · (data.elements elementSize elementCount))
        ⟨name, type, fieldElementSize, data.elements elementSize elementCount⟩)
      (do
        let (status, field) ← msg.findField msg.fuel (some name) anyType
        if status = .ok then
          let fieldType ← msg.typeCode field
          if fieldType ≠ type then some (msg, .badType)
          else msg.addFieldData garbage field (some data) elementSize elementCount
        else
          msg.addFieldWithData garbage name type fieldElementSize (some data) elementSize elementCount :
        Option (FullMessage × Status)) := by
  rcases h.findField name with ⟨field, hfind, hnot⟩ | ⟨as, f, bs, hfields, hfname, hfind⟩
  · rw [changeOrAdd_of_notMem hnot] at hcount hlt ⊢
    have hbound : elementCount < 0x80000000 := by
      have hlength : (data.elements elementSize elementCount).length < 0x80000000 :=
        hcount ⟨name, type, fieldElementSize, data.elements elementSize elementCount⟩ (by simp)
      rw [Data.elements_eq, Data.length_elementsFrom] at hlength
      omega
    simp only [hfind, Option.bind_eq_bind, Option.bind_some]
    rw [if_neg (by decide)]
    exact Gives.of_ok (h.addFieldWithData garbage data hnot
      (Field.proper_of_new hname htype hne hfits) helementSize helementCount hmatch hbound hlt)
  · subst hfields
    rw [changeOrAdd_of_split h.nodup hfname] at hcount hlt ⊢
    have hat := h.self.at
    have htypeCode : msg.typeCode (roundUp (fieldsEnd 28 as)) = some f.type := hat.typeCode
    simp only [hfind, Option.bind_eq_bind, Option.bind_some, htypeCode, if_true]
    by_cases hsame : f.type ≠ type
    · rw [if_pos hsame]
      exact h.fails (by decide) _
    · rw [if_neg hsame]
      have hlength := hcount (f.append (data.elements elementSize elementCount)) (by simp)
      exact h.addFieldData garbage (some data) elementSize elementCount rfl hlength hlt

lemma Holds.addElements (garbage : ℤ → UInt8) {field : ℤ}
    {data : Option Data} {count : ℤ} (hfield : field = 0 ∨ field ∈ offsets 28 fields)
    (hcount : CountsFit (record fields (.addElements field data count elementSize)))
    (hlt : fieldsEnd 28 (record fields (.addElements field data count elementSize)) < 0x40000000) :
    Gives fields (record fields (.addElements field data count elementSize))
      (msg.addElements garbage field data count elementSize) := by
  unfold FullMessage.addElements
  rcases hfield with hzero | hmem
  · have hnone : msg.fieldHeaderForOffset field = some none := by
      unfold Message.fieldHeaderForOffset
      rw [if_pos (by omega)]
    simp only [Option.bind_eq_bind, hnone, Option.bind_some, true_or, if_true]
    exact h.fails (by decide) _
  · obtain ⟨as, f, bs, hfields, hpos⟩ := exists_of_mem_offsets hmem
    subst hfields
    obtain ⟨hoffset, hheader⟩ := h.headerForOffset hpos
    have hfieldSize : msg.elementSize field = some f.elementSize := by
      unfold FullMessage.elementSize
      rw [hoffset]
      exact (fieldHeaderAt_eq_some.1 hheader).elementSize
    have hrecord : record (as ++ f :: bs) (.addElements field data count elementSize) =
        as ++ f.append (elementsOf data (if elementSize < 0 then f.elementSize else elementSize)
          count) :: bs := by
      rw [hpos]
      exact modify_offset as f bs _
    rw [hrecord] at hcount hlt ⊢
    simp only [Option.bind_eq_bind, hoffset, Option.bind_some, hfieldSize]
    generalize (if elementSize < 0 then f.elementSize else elementSize) = size at hcount hlt ⊢
    have hbadValue : Status.badValue ≠ .ok := by decide
    split
    · exact h.fails hbadValue _
    · split
      · exact h.fails hbadValue _
      · exact h.addFieldData garbage data size count hpos (hcount _ (by simp)) hlt

lemma Holds.exec (garbage : ℤ → UInt8) {call : Call}
    (htyped : call.Typed fields) (hsound : call.Sound fields)
    (hcount : CountsFit (record fields call))
    (hlt : fieldsEnd 28 (record fields call) < 0x40000000) :
    Gives fields (record fields call) (msg.exec garbage call) := by
  cases call with
  | setWhat what => exact Gives.of_ok ⟨_, rfl, h.setWhat what⟩
  | addField name type elementSize =>
    obtain ⟨hname, htype, hfits⟩ := htyped
    show Gives _ _ (msg.addField garbage name type elementSize)
    unfold FullMessage.addField
    by_cases hne : type = anyType
    · rw [if_pos hne]
      exact h.fails (by decide) _
    · rw [if_neg hne]
      rcases h.findField name with ⟨field, hfind, hnot⟩ | ⟨as, f, bs, hfields, hfname, hfind⟩
      · obtain ⟨msg', hnew, hholds⟩ :=
          h.addNewField garbage (Field.proper_of_new hname htype hne hfits) hnot hlt
        simp only [hfind, Option.bind_eq_bind, Option.bind_some, hnew]
        exact Gives.of_ok ⟨msg', rfl, hholds⟩
      · simp only [hfind, Option.bind_eq_bind, Option.bind_some, if_true]
        exact h.fails (by decide) _
  | addData name type data numBytes isFixedSize =>
    obtain ⟨hname, htype, hfits⟩ := htyped
    show Gives _ _ (msg.addData garbage name type data numBytes isFixedSize)
    unfold FullMessage.addData
    by_cases hbad : type = anyType ∨ data.isNone ∨ numBytes < 0
    · rw [if_pos hbad]
      exact h.fails (by decide) _
    · rw [if_neg hbad]
      rw [not_or, not_or] at hbad
      obtain ⟨hne, hsome, hnonneg⟩ := hbad
      obtain ⟨bytes, hdata⟩ := Option.ne_none_iff_exists'.1 (by simpa using hsome : data ≠ none)
      subst hdata
      have hsize : IsInt32 (if isFixedSize then numBytes else -1) := by
        split
        · exact hfits
        · exact ⟨by omega, by omega⟩
      exact h.addOrNew garbage bytes hname htype hne (by omega) (by omega) hsize
        (by split <;> omega) hcount hlt
  | addArray name type data elementSize elementCount =>
    obtain ⟨hname, htype, hfits, _⟩ := htyped
    show Gives _ _ (msg.addArray garbage name type data elementSize elementCount)
    unfold FullMessage.addArray
    by_cases hbad : type = anyType ∨ data.isNone ∨ elementSize < 0 ∨ elementCount < 0
    · rw [if_pos hbad]
      exact h.fails (by decide) _
    · rw [if_neg hbad]
      rw [not_or, not_or, not_or] at hbad
      obtain ⟨hne, hsome, hnonneg, hnonneg'⟩ := hbad
      obtain ⟨bytes, hdata⟩ := Option.ne_none_iff_exists'.1 (by simpa using hsome : data ≠ none)
      subst hdata
      exact h.addOrNew garbage bytes hname htype hne (by omega) (by omega) hfits (fun _ => rfl)
        hcount hlt
  | setData name type data numBytes =>
    obtain ⟨hname, htype, hfits⟩ := htyped
    obtain ⟨hnew, hold⟩ := hsound
    show Gives _ _ (msg.setData garbage name type data numBytes)
    unfold FullMessage.setData
    rw [if_neg (by simp [h.writable])]
    rcases h.findField name with ⟨field, hfind, hnot⟩ | ⟨as, f, bs, hfields, hfname, hfind⟩
    · obtain ⟨hne, hsome, hnonneg⟩ := hnew hnot
      obtain ⟨bytes, hdata⟩ := Option.isSome_iff_exists.1 hsome
      subst hdata
      have hrecord : record fields (.setData name type (some bytes) numBytes) =
          fields ++ [⟨name, type, numBytes, bytes.elements numBytes 1⟩] :=
        changeOrAdd_of_notMem hnot _ _
      rw [hrecord] at hlt ⊢
      simp only [hfind, Option.bind_eq_bind, Option.bind_some]
      rw [if_neg (by decide)]
      exact Gives.of_ok (h.addFieldWithData garbage bytes hnot
        (Field.proper_of_new hname htype hne hfits) hnonneg (by omega) (fun _ => rfl) (by omega) hlt)
    · subst hfields
      obtain ⟨hoffset, hheader⟩ := h.headerForOffset rfl
      simp only [hfind, Option.bind_eq_bind, Option.bind_some, if_true, hoffset, hheader]
      split
      · exact h.fails (by decide : Status.badValue ≠ .ok) _
      next hgood =>
        obtain ⟨htypeEq, hfixed, hsizeEq⟩ : f.type = type ∧ 0 ≤ f.elementSize ∧
            f.elementSize = numBytes := by
          simpa [not_or] using hgood
        have hempty := hold f (by simp) hfname htypeEq hsizeEq hfixed
        rw [if_neg (by simp [hempty])]
        cases data with
        | none =>
          rw [h.addFieldData_null garbage numBytes 1 rfl]
          exact h.fails (by decide) _
        | some bytes =>
          have hfirst : f.setFirst ((bytes.elements numBytes 1).headD []) =
              f.append (bytes.elements numBytes 1) := by
            unfold Field.setFirst Field.append
            rw [hempty]
            rfl
          have hrecord : record (as ++ f :: bs) (.setData name type (some bytes) numBytes) =
              as ++ f.append (bytes.elements numBytes 1) :: bs := by
            rw [← hfirst]
            exact changeOrAdd_of_split h.nodup hfname _ _
          rw [hrecord] at hcount hlt ⊢
          exact h.addFieldData garbage (some bytes) numBytes 1 rfl
            (hcount (f.append (bytes.elements numBytes 1)) (by simp)) hlt
  | addElement field data size =>
    exact h.addElements garbage htyped.1 hcount hlt
  | addElements field data count elementSize =>
    exact h.addElements garbage htyped.1 hcount hlt

end

/-! ## Runs -/

/-- A message with what was added to it so far. -/
structure State where
  msg : FullMessage
  fields : List Field

abbrev Action := (ℤ → UInt8) × Call

/-- Carries out a call, and notes what a successful one adds. -/
def step (s : State) (a : Action) : Option State :=
  (s.msg.exec a.1 a.2).map fun r =>
    ⟨r.1, if r.2 = .ok then record s.fields a.2 else s.fields⟩

/-- An empty message that has its own buffer, or will have one with the first field. -/
inductive Initial : State → Prop
  | init (what : ℕ) : Initial ⟨.init what, []⟩
  | initWithBuffer (garbage : ℤ → UInt8) {bufferSize : ℤ} (hge : 28 ≤ bufferSize) (what : ℕ) :
    Initial ⟨.initWithBuffer garbage bufferSize what, []⟩

/-- The calls that are considered: with arguments of the right types, and sizes that are not too
large. -/
def Fits (s : State) (a : Action) : Prop :=
  a.2.Typed s.fields ∧ fieldsEnd 28 (record s.fields a.2) < 0x40000000

def Sound (s : State) (a : Action) : Prop :=
  Fits s a ∧ a.2.Sound s.fields ∧ CountsFit (record s.fields a.2)

/-- The message yields what was added to it, and so does a second message that is initialized from
a copy of the content of its buffer, at any address. -/
structure State.RoundTrip (s : State) : Prop where
  first : Yields s.msg.toMessage s.fields
  second : ∃ size, s.msg.contentSize = some size ∧ ∀ copy : Memory, copy.Agree s.msg.buffer size →
    ∀ address, address % 4 = 0 →
      ∃ last, setTo copy address size = some (.ok last) ∧ Yields ⟨copy, last⟩ s.fields

lemma Holds.toRoundTrip (h : Holds msg fields) : State.RoundTrip ⟨msg, fields⟩ where
  first := h.self.yields
  second := by
    refine ⟨fieldsEnd 28 fields, h.size, fun copy hagree address haddress => ?_⟩
    have hge := fieldsEnd_ge 28 fields
    have hmagic : uint32At copy 0 = some messageHeaderMagic := by
      rw [← h.magic, uint32At, uint32At, hagree.read (le_refl 0) (by omega)]
    exact (h.contains hagree).setTo haddress hmagic

lemma initBuffer_spec (m : Memory) (what : ℕ) :
    uint32At (initBuffer m what) 0 = some messageHeaderMagic ∧
      int32At (initBuffer m what) 4 = some 28 := by
  have hread : (initBuffer m what).read 0 (digits 4 messageHeaderMagic ++ (int32Bytes headerSize ++
      (digits 4 what ++ int32Bytes (-1) ++ int32Bytes (-1) ++ int32Bytes (-1) ++
        int32Bytes (-1)))).length = some (digits 4 messageHeaderMagic ++ (int32Bytes headerSize ++
      (digits 4 what ++ int32Bytes (-1) ++ int32Bytes (-1) ++ int32Bytes (-1) ++
        int32Bytes (-1)))) := by
    unfold initBuffer
    simp only [← List.append_assoc]
    exact Memory.read_write
  rw [Memory.read_append, Memory.read_append, length_digits, length_int32Bytes] at hread
  have hlt : messageHeaderMagic < 2 ^ 32 := by decide
  exact ⟨uint32At_of_read hread.1 hlt, int32At_of_read hread.2.1 (by omega) (by omega)⟩

lemma holds_init {s : State} (h : Initial s) : Holds s.msg s.fields := by
  have hnone : ∀ f ∈ ([] : List Field), f.Proper := fun f hf => by cases hf
  have hlt : (28 : ℤ) < 0x40000000 := by omega
  cases h with
  | init what =>
    obtain ⟨hmagic, hsize⟩ := initBuffer_spec (malloc (fun _ => 0) headerSize) what
    exact ⟨hmagic, hsize, trivial, rfl, hnone, List.nodup_nil, hlt, le_refl 28,
      fun hin => Bool.noConfusion hin, rfl⟩
  | initWithBuffer garbage hge what =>
    rename_i bufferSize
    obtain ⟨hmagic, hsize⟩ := initBuffer_spec (malloc garbage bufferSize) what
    exact ⟨hmagic, hsize, trivial, rfl, hnone, List.nodup_nil, hlt, hge, fun _ => rfl, rfl⟩

lemma Holds.step {s s' : State} {a : Action} (h : Holds s.msg s.fields) (ha : Sound s a)
    (hstep : step s a = some s') : Holds s'.msg s'.fields := by
  obtain ⟨⟨htyped, hlt⟩, hsound, hcount⟩ := ha
  obtain ⟨msg', status, hexec, hholds⟩ := h.exec a.1 htyped hsound hcount hlt
  unfold KMessage.step at hstep
  rw [hexec, Option.map_some] at hstep
  cases hstep
  exact hholds

/-- In every run of sound calls, what was added by the successful ones is what both messages
yield, and every further call that is sound can be carried out. -/
theorem roundTrip {initial s : State} (h : Initial initial) {hist : History State Action}
    (hr : Run step Sound initial hist s) :
    s.RoundTrip ∧ ∀ a, Sound s a → ∃ s', step s a = some s' := by
  have hholds : Holds s.msg s.fields :=
    hr.invariant (I := fun s => Holds s.msg s.fields) (holds_init h) Holds.step
  refine ⟨hholds.toRoundTrip, fun a ha => ?_⟩
  obtain ⟨⟨htyped, hlt⟩, hsound, hcount⟩ := ha
  obtain ⟨msg', status, hexec, _⟩ := hholds.exec a.1 htyped hsound hcount hlt
  unfold step
  rw [hexec]
  exact ⟨_, rfl⟩

/-! ## Examples of runs -/

instance (name : CString) : Decidable name.Fits := inferInstanceAs (Decidable (_ ∧ _))

instance (x : ℤ) : Decidable (IsInt32 x) := inferInstanceAs (Decidable (_ ∧ _))

instance (fields : List Field) : (call : Call) → Decidable (call.Typed fields)
  | .setWhat _ => .isTrue trivial
  | .addField name type size => inferInstanceAs (Decidable (name.Fits ∧ type < 2 ^ 32 ∧ IsInt32 size))
  | .addData name type _ size _ =>
    inferInstanceAs (Decidable (name.Fits ∧ type < 2 ^ 32 ∧ IsInt32 size))
  | .addArray name type _ size count =>
    inferInstanceAs (Decidable (name.Fits ∧ type < 2 ^ 32 ∧ IsInt32 size ∧ IsInt32 count))
  | .setData name type _ size => inferInstanceAs (Decidable (name.Fits ∧ type < 2 ^ 32 ∧ IsInt32 size))
  | .addElement field _ size =>
    inferInstanceAs (Decidable ((field = 0 ∨ field ∈ offsets 28 fields) ∧ IsInt32 size))
  | .addElements field _ count size => inferInstanceAs
    (Decidable ((field = 0 ∨ field ∈ offsets 28 fields) ∧ IsInt32 count ∧ IsInt32 size))

instance (fields : List Field) : (call : Call) → Decidable (call.Sound fields)
  | .setData name type data size => inferInstanceAs (Decidable
    ((name ∉ fields.map Field.name → type ≠ anyType ∧ data.isSome ∧ 0 ≤ size) ∧
      ∀ f ∈ fields, f.name = name → f.type = type → f.elementSize = size →
        0 ≤ f.elementSize → f.elements = []))
  | .setWhat _ | .addField _ _ _ | .addData _ _ _ _ _ | .addArray _ _ _ _ _ | .addElement _ _ _
  | .addElements _ _ _ _ => .isTrue trivial

instance (fields : List Field) : Decidable (CountsFit fields) :=
  inferInstanceAs (Decidable (∀ f ∈ fields, f.elements.length < 0x80000000))

instance (s : State) (a : Action) : Decidable (Fits s a) := inferInstanceAs (Decidable (_ ∧ _))

instance (s : State) (a : Action) : Decidable (Sound s a) := inferInstanceAs (Decidable (_ ∧ _))

lemma sound_of_decide (s : State) (a : Action) (h : decide (Sound s a) = true) : Sound s a :=
  of_decide_eq_true h

lemma fits_of_decide (s : State) (a : Action) (h : decide (Fits s a) = true) : Fits s a :=
  of_decide_eq_true h

def nameA : CString := ⟨[97], by simp⟩

def nameB : CString := ⟨[98], by simp⟩

def someData : Data := fun i => UInt8.ofNat (7 * i + 1)

def noGarbage : ℤ → UInt8 := fun _ => 0

/-- An element without fixed size, two elements of another field, an element for the field that is
not the last one anymore, and one for the last one. -/
def someCalls : List Action :=
  [(noGarbage, .setWhat 5), (noGarbage, .addData nameA 1 (some someData) 3 false),
    (noGarbage, .addArray nameB 2 (some someData) 4 2), (noGarbage, .addElement 28 (some someData) 2),
    (noGarbage, .addElement 60 (some someData) (-1))]

/-- The element for the field that is not the last one is missing, as the call failed. -/
theorem roundTrip_someCalls :
    (outcome step ⟨.init 0, []⟩ someCalls).fields.map Field.view =
      [([97], 1, -1, [[1, 8, 15]]),
        ([98], 2, 4, [[1, 8, 15, 22], [29, 36, 43, 50], [1, 8, 15, 22]])] ∧
      (outcome step ⟨.init 0, []⟩ someCalls).RoundTrip := by
  refine ⟨by decide, ?_⟩
  obtain ⟨hist, hr, _⟩ := run_outcome step sound_of_decide ⟨.init 0, []⟩ someCalls (fun _ => true)
    (by decide)
  exact (roundTrip (.init 0) hr).1

def anyTypeCalls : List Action := [(noGarbage, .setData nameA anyType (some someData) 1)]

/-- `SetData()` adds a field with the type `B_ANY_TYPE`, and the buffer is rejected. -/
theorem anyType_rejected : ∃ (initial s : State) (hist : History State Action),
    Initial initial ∧ Run step Fits initial hist s ∧ ¬s.RoundTrip := by
  obtain ⟨hist, hr, _⟩ := run_outcome step fits_of_decide ⟨.init 0, []⟩ anyTypeCalls (fun _ => true)
    (by decide)
  refine ⟨_, _, hist, .init 0, hr, ?_⟩
  intro hround
  obtain ⟨size, hsize, hset⟩ := hround.second
  have hcontent : (outcome step ⟨.init 0, []⟩ anyTypeCalls).msg.contentSize = some 53 := by
    decide
  rw [hcontent] at hsize
  cases hsize
  obtain ⟨last, haccepted, _⟩ := hset _ (Memory.Agree.refl _ _) 0 rfl
  have hrejected : ((setTo (outcome step ⟨.init 0, []⟩ anyTypeCalls).msg.buffer 0 53).any
    fun result => result.isOk) = false := by
    decide
  rw [haccepted] at hrejected
  cases hrejected

end Haiku.KMessage
