import Mathlib.Data.UInt

/-!
# The vecs of I/O requests

`IOBuffer::SetVecs()` and the functions of `IORequest` that walk the vecs of a request, of
`src/system/kernel/device_manager/IORequest.cpp`: `Advance()`, `CreateSubRequest()` and
`_CopyData()`. Allocations succeed. Where the kernel panics or would read behind the vecs, a
function fails (`none`).
-/

namespace Haiku.IORequest

inductive Status
  | ok
  | error
  deriving DecidableEq

/-- `generic_io_vec` -/
structure Vec where
  base : UInt64
  length : ℕ

def Vec.skip (v : Vec) (n : ℕ) : Vec := ⟨v.base + UInt64.ofNat n, v.length - n⟩

def Vec.addresses (v : Vec) : List UInt64 :=
  (List.range v.length).map fun i => v.base + UInt64.ofNat i

def addresses (vecs : List Vec) : List UInt64 := (vecs.map Vec.addresses).flatten

structure IOBuffer where
  vecs : List Vec
  physical : Bool
  user : Bool

def isUserAddress (address : UInt64) : Bool := address < 0x800000000000

/-- `SetVecs()`: only the first vec is trimmed. -/
def setVecs (firstVecOffset : ℕ) (vecs : List Vec) (physical : Bool) : IOBuffer where
  vecs := vecs.modifyHead (·.skip firstVecOffset)
  physical := physical
  user := !physical && vecs.head?.any (isUserAddress ·.base)

structure Request where
  buffer : IOBuffer
  offset : ℤ
  length : ℕ
  relativeParentOffset : ℤ
  transferSize : ℕ
  isWrite : Bool
  -- these are for iteration
  vecIndex : ℕ
  vecOffset : ℕ
  remainingBytes : ℕ

def Request.vecs (r : Request) : List Vec := r.buffer.vecs

def init (offset : ℤ) (firstVecOffset : ℕ) (vecs : List Vec) (length : ℕ) (write physical : Bool) :
    Request where
  buffer               := setVecs firstVecOffset vecs physical
  offset               := offset
  length               := length
  relativeParentOffset := 0
  transferSize         := 0
  isWrite              := write
  vecIndex             := 0
  vecOffset            := 0
  remainingBytes       := length

/-- The search of `CreateSubRequest()` for the vec to start with, and the offset there -/
def findStart : List Vec → ℕ → ℕ × ℕ
  | [], vecOffset => (0, vecOffset)
  | vec :: vecs, vecOffset =>
    if vecOffset < vec.length then (0, vecOffset)
    else
      let next := findStart vecs (vecOffset - vec.length)
      (next.1 + 1, next.2)

/-- The search of `CreateSubRequest()` for the last vec -/
def findEnd : List Vec → ℕ → ℕ → ℕ
  | [], _, _ => 0
  | vec :: vecs, currentVecOffset, remainingLength =>
    if vec.length - currentVecOffset ≥ remainingLength then 0
    else findEnd vecs 0 (remainingLength - (vec.length - currentVecOffset)) + 1

def Request.createSubRequest (r : Request) (parentOffset offset : ℤ) (length : ℕ) :
    Option Request :=
  if parentOffset ≥ r.offset ∧ length ≤ r.length ∧ parentOffset - r.offset ≤ r.length - length then
    let (startVec, vecOffset) := findStart r.vecs (parentOffset - r.offset).toNat
    let vecs := r.vecs.drop startVec
    let endVec := findEnd vecs vecOffset length
    if endVec < vecs.length then
      some { init offset vecOffset (vecs.take (endVec + 1)) length r.isWrite r.buffer.physical with
        relativeParentOffset := parentOffset - r.offset }
    else none
  else none

/-- The loop of `Advance()`: how many vecs it leaves behind, and the offset in the next one -/
def advanceVec : List Vec → ℕ → ℕ → ℕ × ℕ
  | [], vecOffset, bySize => (0, vecOffset + bySize)
  | vec :: vecs, vecOffset, bySize =>
    if vec.length - vecOffset ≤ bySize then
      let next := advanceVec vecs 0 (bySize - (vec.length - vecOffset))
      (next.1 + 1, next.2)
    else (0, vecOffset + bySize)

def Request.advance (r : Request) (bySize : ℕ) : Request :=
  let next := advanceVec (r.vecs.drop r.vecIndex) r.vecOffset bySize
  { r with
    remainingBytes := r.remainingBytes - bySize
    transferSize   := r.transferSize + bySize
    vecIndex       := r.vecIndex + next.1
    vecOffset      := next.2 }

/-- What `_CopyData()` copies with -/
inductive CopyFunction
  | physical
  | user
  | simple

/-- A call of such a function: the position in the other buffer, the address and the size -/
structure Copy where
  buffer : ℕ
  external : UInt64
  size : ℕ

def skipVecs (vecs : List Vec) (skipBytes : ℕ) : Option (List Vec × ℕ) :=
  if skipBytes = 0 then some (vecs, 0)
  else match vecs with
    | [] => none
    | vec :: rest =>
      if vec.length > skipBytes then some (vecs, skipBytes)
      else skipVecs rest (skipBytes - vec.length)

def copyVecs (copyFunction : Copy → Status) (vecs : List Vec) (vecOffset buffer size : ℕ) :
    Option (Status × List Copy) :=
  if size = 0 then some (.ok, [])
  else match vecs with
    | [] => none
    | vec :: vecs =>
      let toCopy := min size (vec.length - vecOffset)
      let copy := ⟨buffer, vec.base + UInt64.ofNat vecOffset, toCopy⟩
      if copyFunction copy ≠ .ok then some (copyFunction copy, [])
      else (copyVecs copyFunction vecs 0 (buffer + toCopy) (size - toCopy)).map
        fun (status, copies) => (status, copy :: copies)

/-- `_CopyData()`, with what has been copied -/
def Request.copyData (r : Request) (copyFunction : CopyFunction → Copy → Status) (buffer : ℕ)
    (offset : ℤ) (size : ℕ) : Option (Status × List Copy) :=
  if size = 0 then some (.ok, [])
  else if offset < r.offset ∨ offset + size > r.offset + r.length then none
  else
    let copyFunction := copyFunction <|
      if r.buffer.physical then .physical else if r.buffer.user then .user else .simple
    (skipVecs r.vecs (offset - r.offset).toNat).bind fun (vecs, vecOffset) =>
      copyVecs copyFunction vecs vecOffset buffer size

/-! ## Slices -/

/-- The bytes of the buffer, cut to the length of the request -/
def Request.bytes (r : Request) : List UInt64 := (addresses r.vecs).take r.length

/-- The bytes that a call copies, with their positions in the other buffer -/
def Copy.bytes (c : Copy) : List (ℕ × UInt64) :=
  (List.range' c.buffer c.size).zip (Vec.addresses ⟨c.external, c.size⟩)

section
variable {vec : Vec} {vecs : List Vec} {n pos vecOffset size : ℕ}

@[simp] lemma Vec.length_addresses (v : Vec) : v.addresses.length = v.length := by
  unfold Vec.addresses
  rw [List.length_map, List.length_range]

@[simp] lemma addresses_nil : addresses [] = [] := rfl

lemma addresses_cons (vec : Vec) (vecs : List Vec) :
    addresses (vec :: vecs) = vec.addresses ++ addresses vecs := rfl

lemma length_addresses_cons (vec : Vec) (vecs : List Vec) :
    (addresses (vec :: vecs)).length = vec.length + (addresses vecs).length := by
  rw [addresses_cons, List.length_append, Vec.length_addresses]

lemma addresses_take_append (vecs : List Vec) (k : ℕ) :
    addresses (vecs.take k) ++ addresses (vecs.drop k) = addresses vecs := by
  unfold addresses
  rw [← List.flatten_append, ← List.map_append, List.take_append_drop]

lemma drop_addresses {k : ℕ} (h : (addresses (vecs.take k)).length + vecOffset = pos) :
    (addresses vecs).drop pos = (addresses (vecs.drop k)).drop vecOffset := by
  rw [← addresses_take_append vecs k, ← h, ← List.drop_drop, List.drop_left]

lemma Vec.addresses_slice (v : Vec) (h : pos + n ≤ v.length) :
    (v.addresses.drop pos).take n = Vec.addresses ⟨v.base + UInt64.ofNat pos, n⟩ := by
  apply List.ext_getElem
  · rw [List.length_take, List.length_drop, Vec.length_addresses, Vec.length_addresses]
    exact Nat.min_eq_left (by omega)
  · intro i _ _
    simp only [Vec.addresses, List.getElem_take, List.getElem_drop, List.getElem_map,
      List.getElem_range, UInt64.ofNat_add]
    rw [UInt64.add_assoc]

lemma Vec.addresses_skip (v : Vec) (h : pos ≤ v.length) :
    (v.skip pos).addresses = v.addresses.drop pos := by
  rw [skip, ← v.addresses_slice (by omega), List.take_of_length_le]
  rw [List.length_drop, Vec.length_addresses]

lemma addresses_setVecs {physical : Bool} (h : ∀ v ∈ vecs.head?, pos ≤ v.length) :
    addresses (setVecs pos vecs physical).vecs = (addresses vecs).drop pos := by
  cases vecs with
  | nil => simp [setVecs]
  | cons vec vecs =>
    have hle : pos ≤ vec.length := h vec rfl
    show addresses (vec.skip pos :: vecs) = _
    rw [addresses_cons, addresses_cons, vec.addresses_skip hle,
      List.drop_append_of_le_length (by rwa [Vec.length_addresses])]

lemma findStart_spec (h : pos < (addresses vecs).length) :
    (addresses (vecs.take (findStart vecs pos).1)).length + (findStart vecs pos).2 = pos ∧
      ∃ vec ∈ (vecs.drop (findStart vecs pos).1).head?, (findStart vecs pos).2 < vec.length := by
  induction vecs generalizing pos with
  | nil => simp at h
  | cons vec vecs ih =>
    rw [length_addresses_cons] at h
    rw [findStart]
    split_ifs with hlt
    · exact ⟨by simp, vec, rfl, hlt⟩
    · obtain ⟨hpos, hin⟩ := @ih (pos - vec.length) (by omega)
      refine ⟨?_, hin⟩
      rw [List.take_succ_cons, length_addresses_cons]
      dsimp only
      omega

lemma findEnd_spec (h : vecOffset + size ≤ (addresses vecs).length) (hpos : 0 < size)
    (hoffset : ∀ v ∈ vecs.head?, vecOffset ≤ v.length) :
    findEnd vecs vecOffset size < vecs.length ∧
      vecOffset + size ≤ (addresses (vecs.take (findEnd vecs vecOffset size + 1))).length := by
  induction vecs generalizing vecOffset size with
  | nil =>
    rw [addresses_nil, List.length_nil] at h
    omega
  | cons vec vecs ih =>
    have hle : vecOffset ≤ vec.length := hoffset vec rfl
    rw [length_addresses_cons] at h
    rw [findEnd, List.take_succ_cons, length_addresses_cons, List.length_cons]
    split_ifs with hlast
    · exact ⟨by omega, by omega⟩
    · obtain ⟨hlt, hcover⟩ := @ih 0 (size - (vec.length - vecOffset))
        (by omega) (by omega) (fun _ _ => Nat.zero_le _)
      exact ⟨by omega, by omega⟩

lemma advanceVec_spec (hoffset : ∀ v ∈ vecs.head?, vecOffset ≤ v.length) :
    (addresses (vecs.take (advanceVec vecs vecOffset n).1)).length +
        (advanceVec vecs vecOffset n).2 = vecOffset + n ∧
      ∀ v ∈ (vecs.drop (advanceVec vecs vecOffset n).1).head?,
        (advanceVec vecs vecOffset n).2 < v.length := by
  induction vecs generalizing vecOffset n with
  | nil => exact ⟨Nat.zero_add _, fun v hv => by simp at hv⟩
  | cons vec vecs ih =>
    have hle : vecOffset ≤ vec.length := hoffset vec rfl
    rw [advanceVec]
    split_ifs with hpast
    · obtain ⟨hpos, hin⟩ := @ih (n - (vec.length - vecOffset)) 0
        (fun _ _ => Nat.zero_le _)
      refine ⟨?_, hin⟩
      rw [List.take_succ_cons, length_addresses_cons]
      dsimp only
      omega
    · refine ⟨by simp, fun v hv => ?_⟩
      cases hv
      omega

lemma skipVecs_spec (h : pos < (addresses vecs).length) :
    ∃ vec rest vecOffset, skipVecs vecs pos = some (vec :: rest, vecOffset) ∧
      vecOffset ≤ vec.length ∧
      (addresses (vec :: rest)).drop vecOffset = (addresses vecs).drop pos := by
  induction vecs generalizing pos with
  | nil => simp at h
  | cons vec vecs ih =>
    rw [length_addresses_cons] at h
    rw [skipVecs]
    split_ifs with hzero hin
    · exact ⟨vec, vecs, 0, rfl, Nat.zero_le _, by rw [hzero]⟩
    · exact ⟨vec, vecs, pos, rfl, by omega, rfl⟩
    · obtain ⟨next, rest, vecOffset, hskip, hle, hdrop⟩ := @ih (pos - vec.length) (by omega)
      have hlen : vec.addresses.length ≤ pos := by
        rw [Vec.length_addresses]
        omega
      refine ⟨next, rest, vecOffset, hskip, hle, hdrop.trans ?_⟩
      rw [addresses_cons, List.drop_append, Vec.length_addresses, List.drop_of_length_le hlen,
        List.nil_append]

lemma zip_addresses_cons {buffer toCopy : ℕ} (hle : vecOffset ≤ vec.length)
    (hcopy : min size (vec.length - vecOffset) = toCopy) :
    (List.range' buffer size).zip (((addresses (vec :: vecs)).drop vecOffset).take size) =
      Copy.bytes ⟨buffer, vec.base + UInt64.ofNat vecOffset, toCopy⟩ ++
        (List.range' (buffer + toCopy) (size - toCopy)).zip
          (((addresses vecs).drop 0).take (size - toCopy)) := by
  have hfirst : (vec.addresses.drop vecOffset).take size =
      Vec.addresses ⟨vec.base + UInt64.ofNat vecOffset, toCopy⟩ := by
    rw [← vec.addresses_slice (by omega), List.take_eq_take_iff, List.length_drop,
      Vec.length_addresses]
    omega
  have hrange : List.range' buffer size =
      List.range' buffer toCopy ++ List.range' (buffer + toCopy) (size - toCopy) := by
    rw [List.range'_append_1]
    congr 1
    omega
  rw [addresses_cons, List.drop_append_of_le_length (by rwa [Vec.length_addresses]),
    List.take_append, hfirst, List.length_drop, Vec.length_addresses, hrange,
    List.zip_append (by simp), List.drop_zero]
  congr 3
  omega

lemma copyVecs_spec {buffer : ℕ} (copyFunction : Copy → Status)
    (h : vecOffset + size ≤ (addresses vecs).length)
    (hoffset : ∀ v ∈ vecs.head?, vecOffset ≤ v.length) :
    ∃ status copies, copyVecs copyFunction vecs vecOffset buffer size = some (status, copies) ∧
      (copies.map Copy.bytes).flatten <+: (List.range' buffer size).zip
        (((addresses vecs).drop vecOffset).take size) ∧
      (status = .ok → (copies.map Copy.bytes).flatten = (List.range' buffer size).zip
        (((addresses vecs).drop vecOffset).take size)) ∧
      ((∀ c, copyFunction c = .ok) → status = .ok) := by
  induction vecs generalizing vecOffset buffer size with
  | nil =>
    have hzero : size = 0 := by
      rw [addresses_nil, List.length_nil] at h
      omega
    subst hzero
    exact ⟨.ok, [], by rw [copyVecs, if_pos rfl], by simp⟩
  | cons vec vecs ih =>
    have hle : vecOffset ≤ vec.length := hoffset vec rfl
    rw [length_addresses_cons] at h
    rw [copyVecs, zip_addresses_cons hle rfl]
    dsimp only
    split_ifs with hzero hfail
    · subst hzero
      exact ⟨.ok, [], rfl, by simp [Copy.bytes]⟩
    · exact ⟨_, _, rfl, List.nil_prefix, fun hok => absurd hok hfail,
        fun hall => absurd (hall _) hfail⟩
    · generalize hcopy : min size (vec.length - vecOffset) = toCopy
      obtain ⟨status, copies, hrest, hprefix, hall, hok⟩ := @ih 0 (size - toCopy)
        (buffer + toCopy) (by omega) (fun _ _ => Nat.zero_le _)
      rw [hrest]
      refine ⟨status, _ :: copies, rfl, ?_, ?_, hok⟩
      · rw [List.map_cons, List.flatten_cons]
        exact (List.prefix_append_right_inj _).2 hprefix
      · intro hstatus
        rw [List.map_cons, List.flatten_cons, hall hstatus]

end

/-! ## Requests -/

/-- The requests that `Init()`, `Advance()` and `CreateSubRequest()` can make, when the vecs given to
`Init()` cover the length. -/
inductive Reached : Request → Prop
  | init {offset : ℤ} {firstVecOffset length : ℕ} {vecs : List Vec} {write physical : Bool}
    (trim : ∀ v ∈ vecs.head?, firstVecOffset ≤ v.length)
    (cover : firstVecOffset + length ≤ (addresses vecs).length) :
    Reached (init offset firstVecOffset vecs length write physical)
  | advance {r : Request} {bySize : ℕ} : Reached r → bySize ≤ r.remainingBytes →
    Reached (r.advance bySize)
  | sub {r s : Request} {parentOffset offset : ℤ} {length : ℕ} : Reached r → 0 < length →
    r.createSubRequest parentOffset offset length = some s → Reached s

/-- The vecs cover the request, and the cursor stands where the remaining bytes begin. -/
structure Request.Inv (r : Request) : Prop where
  cover : r.length ≤ (addresses r.vecs).length
  remaining : r.remainingBytes ≤ r.length
  position : (addresses (r.vecs.take r.vecIndex)).length + r.vecOffset =
    r.length - r.remainingBytes
  inside : ∀ v ∈ (r.vecs.drop r.vecIndex).head?, r.vecOffset ≤ v.length

section
variable {r s : Request} {parentOffset offset : ℤ} {length firstVecOffset : ℕ} {vecs : List Vec}

lemma Request.Inv.init {write physical : Bool}
    (trim : ∀ v ∈ vecs.head?, firstVecOffset ≤ v.length)
    (cover : firstVecOffset + length ≤ (addresses vecs).length) :
    (init offset firstVecOffset vecs length write physical).Inv where
  cover := by
    show length ≤ (addresses (setVecs firstVecOffset vecs physical).vecs).length
    rw [addresses_setVecs trim, List.length_drop]
    omega
  remaining := le_rfl
  position := by simp [IORequest.init]
  inside := fun _ _ => Nat.zero_le _

lemma Request.Inv.advance (h : r.Inv) {bySize : ℕ} (hle : bySize ≤ r.remainingBytes) :
    (r.advance bySize).Inv := by
  obtain ⟨hpos, hin⟩ := advanceVec_spec (n := bySize) h.inside
  have hposition := h.position
  have hremaining := h.remaining
  have htake : ∀ i, (addresses (r.vecs.take (r.vecIndex + i))).length =
      (addresses (r.vecs.take r.vecIndex)).length +
        (addresses ((r.vecs.drop r.vecIndex).take i)).length := by
    intro i
    rw [List.take_add]
    unfold addresses
    rw [List.map_append, List.flatten_append, List.length_append]
  unfold Request.advance
  refine ⟨h.cover, (Nat.sub_le _ _).trans hremaining, ?_, fun v hv => ?_⟩
  · have hnext := htake (advanceVec (r.vecs.drop r.vecIndex) r.vecOffset bySize).1
    unfold Request.vecs at *
    dsimp only
    omega
  · unfold Request.vecs at hv
    dsimp only at hv
    rw [← List.drop_drop] at hv
    exact (hin v hv).le

lemma Request.Inv.createSubRequest (h : r.Inv) (hpos : 0 < length) (hle : r.offset ≤ parentOffset)
    (hin : parentOffset + length ≤ r.offset + r.length) :
    ∃ s, r.createSubRequest parentOffset offset length = some s ∧ s.Inv ∧
      s.bytes = (r.bytes.drop (parentOffset - r.offset).toNat).take length := by
  have hcover := h.cover
  obtain ⟨hstart, vec, hvec, hlt⟩ :=
    @findStart_spec r.vecs (parentOffset - r.offset).toNat (by omega)
  unfold Request.createSubRequest
  rw [if_pos ⟨hle, by omega, by omega⟩]
  generalize findStart r.vecs (parentOffset - r.offset).toNat = start at hstart hvec hlt ⊢
  obtain ⟨startVec, vecOffset⟩ := start
  dsimp only at hstart hvec hlt ⊢
  have hsplit := addresses_take_append r.vecs startVec
  have hlen := congrArg List.length hsplit
  rw [List.length_append] at hlen
  have hin : ∀ v ∈ (r.vecs.drop startVec).head?, vecOffset ≤ v.length := by
    intro v hv
    rw [Option.mem_def] at hv hvec
    cases hv.symm.trans hvec
    exact hlt.le
  obtain ⟨hend, hpart⟩ := @findEnd_spec (r.vecs.drop startVec) vecOffset length
    (by omega) hpos hin
  rw [if_pos hend]
  have htrim : ∀ v ∈ ((r.vecs.drop startVec).take (findEnd (r.vecs.drop startVec) vecOffset length
      + 1)).head?, vecOffset ≤ v.length := by
    intro v hv
    rw [List.head?_take, if_neg (Nat.succ_ne_zero _)] at hv
    exact hin v hv
  have hinv : (IORequest.init offset vecOffset _ length r.isWrite r.buffer.physical).Inv :=
    .init htrim hpart
  refine ⟨_, rfl, ⟨hinv.cover, hinv.remaining, hinv.position, hinv.inside⟩, ?_⟩
  show (addresses (setVecs _ _ _).vecs).take length = _
  rw [addresses_setVecs htrim]
  unfold Request.bytes
  rw [List.drop_take, List.take_take, Nat.min_eq_left (by omega), drop_addresses hstart,
    ← addresses_take_append (r.vecs.drop startVec)
      (findEnd (r.vecs.drop startVec) vecOffset length + 1),
    List.drop_append_of_le_length (by omega), List.take_append_of_le_length]
  rw [List.length_drop]
  omega

lemma Reached.inv (h : Reached r) : r.Inv := by
  induction h with
  | init trim cover => exact .init trim cover
  | advance _ hle ih => exact ih.advance hle
  | sub _ hpos hsub ih =>
    have hguard := hsub
    unfold Request.createSubRequest at hguard
    split_ifs at hguard with hin
    obtain ⟨s', hsub', hinv, _⟩ := ih.createSubRequest hpos hin.1 (by omega)
    cases hsub'.symm.trans hsub
    exact hinv

end

/-- The cursor, the sub-requests and the copies of every request agree about its bytes. -/
theorem slices_right {r : Request} (h : Reached r) :
    -- the cursor is at the position of the first remaining byte
    ((addresses (r.vecs.take r.vecIndex)).length + r.vecOffset = r.length - r.remainingBytes ∧
      ∀ v ∈ r.vecs[r.vecIndex]?, r.vecOffset < v.length → 0 < r.remainingBytes →
        r.bytes[r.length - r.remainingBytes]? = some (v.base + UInt64.ofNat r.vecOffset)) ∧
    (∀ (parentOffset offset : ℤ) (length : ℕ), 0 < length → r.offset ≤ parentOffset →
      parentOffset + length ≤ r.offset + r.length →
      ∃ s, r.createSubRequest parentOffset offset length = some s ∧
        s.bytes = (r.bytes.drop (parentOffset - r.offset).toNat).take length) ∧
    ∀ (copyFunction : CopyFunction → Copy → Status) (buffer : ℕ) (offset : ℤ) (size : ℕ),
      r.offset ≤ offset → offset + size ≤ r.offset + r.length →
      ∃ status copies, r.copyData copyFunction buffer offset size = some (status, copies) ∧
        (copies.map Copy.bytes).flatten <+: (List.range' buffer size).zip
          ((r.bytes.drop (offset - r.offset).toNat).take size) ∧
        (status = .ok → (copies.map Copy.bytes).flatten = (List.range' buffer size).zip
          ((r.bytes.drop (offset - r.offset).toNat).take size)) ∧
        ((∀ f c, copyFunction f c = .ok) → status = .ok) := by
  have hinv := h.inv
  have hcover := hinv.cover
  refine ⟨⟨hinv.position, fun v hv hlt hpos => ?_⟩,
    fun parentOffset offset length hpos hle hend => ?_,
    fun copyFunction buffer offset size hle hend => ?_⟩
  · have hremaining := hinv.remaining
    obtain ⟨hlen, hget⟩ := List.getElem?_eq_some_iff.1 hv
    have hdrop := drop_addresses hinv.position
    rw [List.drop_eq_getElem_cons hlen, hget, addresses_cons,
      List.drop_append_of_le_length (by rw [Vec.length_addresses]; omega)] at hdrop
    have hbyte : ((addresses r.vecs).drop (r.length - r.remainingBytes))[0]? = _ :=
      congrArg (·[0]?) hdrop
    rw [List.getElem?_drop, Nat.add_zero,
      List.getElem?_append_left (by rw [List.length_drop, Vec.length_addresses]; omega),
      List.getElem?_drop, Nat.add_zero] at hbyte
    unfold Request.bytes
    rw [List.getElem?_take_of_lt (by omega), hbyte]
    simp [Vec.addresses, hlt]
  · exact (hinv.createSubRequest hpos hle hend).imp fun s ⟨hs, _, hbytes⟩ => ⟨hs, hbytes⟩
  · unfold Request.copyData
    rcases Nat.eq_zero_or_pos size with hzero | hpos
    · subst hzero
      exact ⟨.ok, [], rfl, by simp⟩
    · obtain ⟨vec, rest, vecOffset, hskip, hle', hdrop⟩ :=
        @skipVecs_spec r.vecs (offset - r.offset).toNat (by omega)
      rw [if_neg (by omega), if_neg (by omega), hskip]
      have hslice : (r.bytes.drop (offset - r.offset).toNat).take size =
          ((addresses (vec :: rest)).drop vecOffset).take size := by
        unfold Request.bytes
        rw [List.drop_take, List.take_take, Nat.min_eq_left (by omega), hdrop]
      have hlen := congrArg List.length hdrop
      rw [List.length_drop, List.length_drop] at hlen
      have hfull : vecOffset ≤ (addresses (vec :: rest)).length := by
        rw [length_addresses_cons]
        omega
      rw [hslice]
      obtain ⟨status, copies, hcopies, hprefix, hall, hok⟩ :=
        @copyVecs_spec (vec :: rest) vecOffset size buffer
          (copyFunction <| if r.buffer.physical then .physical
            else if r.buffer.user then .user else .simple) (by omega)
          (fun v hv => by cases hv; exact hle')
      exact ⟨status, copies, hcopies, hprefix, hall, fun hsuccess => hok (hsuccess _)⟩

theorem slices_right_advanced :
    let r := (init 0 0 [⟨100, 2⟩, ⟨0, 0⟩, ⟨200, 3⟩] 5 true false).advance 2
    ((addresses (r.vecs.take r.vecIndex)).length + r.vecOffset = r.length - r.remainingBytes ∧
      ∀ v ∈ r.vecs[r.vecIndex]?, r.vecOffset < v.length → 0 < r.remainingBytes →
        r.bytes[r.length - r.remainingBytes]? = some (v.base + UInt64.ofNat r.vecOffset)) ∧
    (∀ (parentOffset offset : ℤ) (length : ℕ), 0 < length → r.offset ≤ parentOffset →
      parentOffset + length ≤ r.offset + r.length →
      ∃ s, r.createSubRequest parentOffset offset length = some s ∧
        s.bytes = (r.bytes.drop (parentOffset - r.offset).toNat).take length) ∧
    ∀ (copyFunction : CopyFunction → Copy → Status) (buffer : ℕ) (offset : ℤ) (size : ℕ),
      r.offset ≤ offset → offset + size ≤ r.offset + r.length →
      ∃ status copies, r.copyData copyFunction buffer offset size = some (status, copies) ∧
        (copies.map Copy.bytes).flatten <+: (List.range' buffer size).zip
          ((r.bytes.drop (offset - r.offset).toNat).take size) ∧
        (status = .ok → (copies.map Copy.bytes).flatten = (List.range' buffer size).zip
          ((r.bytes.drop (offset - r.offset).toNat).take size)) ∧
        ((∀ f c, copyFunction f c = .ok) → status = .ok) :=
  slices_right (.advance (.init (by simp) (by decide)) (by decide))

end Haiku.IORequest
