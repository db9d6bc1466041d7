import Haiku.KMessage.CheckTheorems

/-!
# When a message buffer is read safely

A buffer that `SetTo()` accepts is read without leaving it, and with elements inside of their
fields, exactly when the elements of every field fit into it: the checks do not compare the elements
of a field with fixed element size with the size of the field, and accept values with a negative
size.
-/

namespace Haiku.KMessage

open Lib Lock

variable {m : Memory} {size pos d : ℤ} {header : FieldHeader} {n k : ℕ}

/-! ## What the readers of a message see -/

/-- The `KMessageField`s that callers can have: one that is not set, and those that
`GetNextField()` made of one they had. -/
inductive Reached (msg : Message) : ℤ → Prop
  | unset : Reached msg 0
  | next {field next : ℤ} (reached : Reached msg field)
      (eq : msg.getNextField field = some (.ok, next)) : Reached msg next

/-- `size` bytes at the offset `pos` lie inside of the field. -/
def Inside (m : Memory) (field pos size : ℤ) : Prop :=
  ∃ header, fieldHeaderAt m field = some header ∧ field + header.headerSize ≤ pos ∧ 0 ≤ size ∧
    pos + size ≤ field + header.fieldSize

/-- Where only the first `size` bytes may be accessed, every call ends without another access, and
the elements it gives lie inside of their fields. -/
structure Safe (msg : Message) : Prop where
  getNextField : ∀ field, Reached msg field → ∃ r, msg.getNextField field = some r
  findField : ∀ name type, ∃ r n, ∀ fuel ≥ n, msg.findField fuel name type = some r
  elementAt : ∀ field index, Reached msg field → ∃ r, msg.elementAt field index = some r ∧
    ∀ pos size, r = some (pos, size) → Inside msg.buffer field pos size
  findData : ∀ name type index, ∃ r n, ∀ fuel ≥ n, msg.findData fuel name type index = some r ∧
    ∀ pos size, r.2 = some (pos, size) → ∃ field,
      msg.findField fuel name type = some (.ok, field) ∧ Inside msg.buffer field pos size

/-- The elements of a field fit into it: those with a fixed size by their number, the others by
having no size below zero. -/
def ElementsFit (m : Memory) (pos : ℤ) (header : FieldHeader) : Prop :=
  if header.hasFixedElementSize then
    header.headerSize + header.elementSize * header.elementCount ≤ header.fieldSize
  else SizesNonneg m (pos + header.headerSize) header.elementCount.toNat

/-- The offsets of the fields, one behind the other as their sizes say. -/
inductive FieldAt (m : Memory) (size : ℤ) : ℤ → Prop
  | first (lt : 28 < size) : FieldAt m size 28
  | next {pos : ℤ} {header : FieldHeader} (fieldAt : FieldAt m size pos)
      (reads : fieldHeaderAt m pos = some header) (lt : roundUp (pos + header.fieldSize) < size) :
      FieldAt m size (roundUp (pos + header.fieldSize))

def FieldsFit (m : Memory) (size : ℤ) : Prop :=
  ∀ pos header, FieldAt m size pos → fieldHeaderAt m pos = some header → ElementsFit m pos header

/-- A message with a buffer that the checks accept: its fields, with the last one. The memory `m'`
that it is read from has the bytes of the buffer. -/
structure Accepted (m m' : Memory) (size last : ℤ) (ps : List ℤ) : Prop where
  agree : m'.Agree m size
  size_eq : int32At m 4 = some size
  size_ge : 28 ≤ size
  fields : Fields m size 28 ps
  last_eq : ∀ l, ps.getLast? = some l → last = l
  last_nil : ps = [] → last ≤ 0

lemma setTo_spec {address : ℕ} {bufferSize last : ℤ}
    (h : setTo m address bufferSize = some (.ok last)) :
    ∃ size ps, Accepted m (m.limit size) size last ps := by
  unfold setTo at h
  split at h
  · cases h
  split at h
  · cases h
  obtain ⟨capacity, _, h⟩ := Option.bind_eq_some_iff.1 h
  split at h
  · cases h
  obtain ⟨magic, _, h⟩ := Option.bind_eq_some_iff.1 h
  split at h
  · cases h
  obtain ⟨size, hsize, h⟩ := Option.bind_eq_some_iff.1 h
  split at h
  · cases h
  next hbounds =>
    have hheader : headerSize = 28 := rfl
    obtain ⟨_, hlt⟩ := int32At_bounds hsize
    rw [hheader] at hbounds
    obtain ⟨ps, hps, hlast⟩ := checkFields_spec (d := 28) (by omega) (by omega) (by omega) hlt h
    refine ⟨size, ps, m.agree_limit size, hsize, by omega, hps, fun l hl => ?_, fun hnil => ?_⟩
    · rw [hlast, hl]
      rfl
    · rw [hlast, hnil]
      decide

variable {m' : Memory} {last : ℤ} {ps : List ℤ}

lemma Fields.mem (h : Fields m size d ps) (hpos : pos ∈ ps) :
    d ≤ pos ∧ pos < size ∧ ∃ header, Checked m size pos header := by
  induction h with
  | nil => cases hpos
  | @cons d header ps hlt hchecked _ ih =>
    have hbounds := roundUp_bounds (d + header.fieldSize)
    have hfs := hchecked.fieldSize_ge
    rcases List.mem_cons.1 hpos with rfl | hpos
    · exact ⟨le_refl _, hlt, header, hchecked⟩
    · obtain ⟨hge, hlt', hex⟩ := ih hpos
      exact ⟨by omega, hlt', hex⟩

lemma Fields.next {as bs : List ℤ} {p q : ℤ} (h : Fields m size d (as ++ p :: q :: bs)) :
    ∃ header, Checked m size p header ∧ q = roundUp (p + header.fieldSize) := by
  induction as generalizing d with
  | nil =>
    cases h with
    | @cons _ header _ _ hchecked hrest =>
      cases hrest with
      | cons => exact ⟨header, hchecked, rfl⟩
  | cons a as ih =>
    cases h with
    | cons _ _ hrest => exact ih hrest

lemma Fields.pairwise (h : Fields m size d ps) : ps.Pairwise (· < ·) := by
  induction h with
  | nil => exact List.Pairwise.nil
  | @cons d header ps _ hchecked hrest ih =>
    have hbounds := roundUp_bounds (d + header.fieldSize)
    have hfs := hchecked.fieldSize_ge
    refine List.Pairwise.cons (fun p hp => ?_) ih
    obtain ⟨hge, _⟩ := hrest.mem hp
    omega

lemma Accepted.mem (h : Accepted m m' size last ps) (hpos : pos ∈ ps) :
    28 ≤ pos ∧ pos < size ∧ pos + 20 ≤ size ∧ ∃ header, Checked m size pos header := by
  obtain ⟨hge, hlt, header, hchecked⟩ := h.fields.mem hpos
  have hfs := hchecked.fieldSize_ge
  have hfs' := hchecked.fieldSize_le
  exact ⟨hge, hlt, by omega, header, hchecked⟩

lemma Fields.of_fieldAt (h : Fields m size 28 ps) (hpos : FieldAt m size pos) : pos ∈ ps := by
  have hnext : ∀ d ps, Fields m size d ps → ∀ p ∈ ps, ∀ header, fieldHeaderAt m p = some header →
      roundUp (p + header.fieldSize) < size → roundUp (p + header.fieldSize) ∈ ps := by
    intro d ps h
    induction h with
    | nil =>
      intro p hp
      cases hp
    | @cons d header ps _ hchecked hrest ih =>
      intro p hp header' hreads hlt
      rcases List.mem_cons.1 hp with rfl | hp
      · have heq : header' = header := Option.some.inj (hreads.symm.trans hchecked.reads)
        rw [heq] at hlt ⊢
        cases hrest with
        | nil hdone => omega
        | cons => exact List.mem_cons_of_mem _ List.mem_cons_self
      · exact List.mem_cons_of_mem _ (ih p hp header' hreads hlt)
  induction hpos with
  | first hlt =>
    cases h with
    | nil hdone => omega
    | cons => exact List.mem_cons_self
  | next _ hreads hlt ih => exact hnext 28 ps h _ ih _ hreads hlt

lemma Fields.fieldAt (h : Fields m size 28 ps) (hpos : pos ∈ ps) : FieldAt m size pos := by
  have hall : ∀ d ps, Fields m size d ps → (d < size → FieldAt m size d) →
      ∀ p ∈ ps, FieldAt m size p := by
    intro d ps h
    induction h with
    | nil =>
      intro _ p hp
      cases hp
    | cons hlt hchecked _ ih =>
      intro hd p hp
      rcases List.mem_cons.1 hp with rfl | hp
      · exact hd hlt
      · exact ih (fun hlt' => .next (hd hlt) hchecked.reads hlt') p hp
  exact hall 28 ps h .first pos hpos

/-! ## Walking over the fields -/

lemma Accepted.fieldHeaderForOffset (h : Accepted m m' size last ps) (hpos : pos ∈ ps) :
    (⟨m', last⟩ : Message).fieldHeaderForOffset pos = some (some pos) := by
  obtain ⟨hge, hlt, _⟩ := h.mem hpos
  have hsize := h.size_ge
  unfold Message.fieldHeaderForOffset
  rw [if_neg (by omega)]
  show (int32At m' 4).map _ = _
  rw [int32At_agree h.agree (by omega) (by omega), h.size_eq, Option.map_some, if_neg (by omega)]

lemma fieldHeaderForOffset_of_le (msg : Message) (hpos : pos ≤ 0) :
    msg.fieldHeaderForOffset pos = some none := by
  unfold Message.fieldHeaderForOffset
  rw [if_pos hpos]

lemma Accepted.lastField {l : ℤ} (h : Accepted m m' size last ps) (hl : ps.getLast? = some l) :
    last = l ∧ (⟨m', last⟩ : Message).fieldHeaderForOffset last = some (some l) := by
  have hlast := h.last_eq l hl
  have hmem : l ∈ ps := List.mem_of_getLast? hl
  have hheader := h.fieldHeaderForOffset hmem
  rw [hlast] at hheader ⊢
  exact ⟨rfl, hheader⟩

lemma Accepted.getNextField_first {bs : List ℤ} (h : Accepted m m' size last (pos :: bs)) :
    (⟨m', last⟩ : Message).getNextField 0 = some (.ok, pos) := by
  have hpos : pos = 28 := by
    cases h.fields
    rfl
  obtain ⟨l, hl⟩ : ∃ l, (pos :: bs).getLast? = some l := ⟨_, List.getLast?_cons⟩
  obtain ⟨_, hlastField⟩ := h.lastField hl
  unfold Message.getNextField
  rw [fieldHeaderForOffset_of_le _ (le_refl 0)]
  show ((⟨m', last⟩ : Message).fieldHeaderForOffset last).bind _ = _
  rw [hlastField, hpos]
  rfl

lemma Accepted.getNextField_next {as bs : List ℤ} {p q : ℤ}
    (h : Accepted m m' size last (as ++ p :: q :: bs)) :
    (⟨m', last⟩ : Message).getNextField p = some (.ok, q) := by
  obtain ⟨header, hchecked, hq⟩ := h.fields.next
  have hpmem : p ∈ as ++ p :: q :: bs := by simp
  have hqmem : q ∈ as ++ p :: q :: bs := by simp
  obtain ⟨hp, _, hpsize, _⟩ := h.mem hpmem
  obtain ⟨_, hqsize, _⟩ := h.mem hqmem
  have hlt := (int32At_bounds h.size_eq).2
  have hbounds := roundUp_bounds (p + header.fieldSize)
  obtain ⟨l, hl⟩ : ∃ l, (q :: bs).getLast? = some l := ⟨_, List.getLast?_cons⟩
  have hlast : (as ++ p :: q :: bs).getLast? = some l := by
    rw [List.getLast?_append, List.getLast?_cons_cons, hl]
    rfl
  have hpl : p < l := by
    have hpairs := h.fields.pairwise
    rw [List.pairwise_append, List.pairwise_cons] at hpairs
    exact hpairs.2.1.1 l (List.mem_of_getLast? hl)
  obtain ⟨_, hlastField⟩ := h.lastField hlast
  have hnext : nextFieldHeader m' p = some q := by
    have hreads := fieldHeaderAt_eq_some.1 hchecked.reads
    have halign := (align_spec (d := p + header.fieldSize) (by omega)
      (by omega) (by omega) hlt).2 (by omega)
    rw [nextFieldHeader, int32At_agree h.agree (by omega) (by omega), hreads.fieldSize, Option.map_some,
      halign, hq]
  unfold Message.getNextField
  rw [h.fieldHeaderForOffset (by simp)]
  show ((⟨m', last⟩ : Message).fieldHeaderForOffset last).bind _ = _
  rw [hlastField]
  show (if p < firstFieldHeader ∨ p > l then _ else _) = _
  rw [firstFieldHeader_eq, if_neg (by omega), if_neg (by omega)]
  show (nextFieldHeader m' p).map _ = _
  rw [hnext]
  rfl

lemma Accepted.getNextField_last {l : ℤ} (h : Accepted m m' size last ps)
    (hl : ps.getLast? = some l) :
    (⟨m', last⟩ : Message).getNextField l = some (.nameNotFound, l) := by
  obtain ⟨_, hlastField⟩ := h.lastField hl
  have hmem : l ∈ ps := List.mem_of_getLast? hl
  obtain ⟨hge, _⟩ := h.mem hmem
  unfold Message.getNextField
  rw [h.fieldHeaderForOffset hmem]
  show ((⟨m', last⟩ : Message).fieldHeaderForOffset last).bind _ = _
  rw [hlastField]
  show (if l < firstFieldHeader ∨ l > l then _ else _) = _
  rw [firstFieldHeader_eq, if_neg (by omega), if_pos rfl]

lemma Accepted.getNextField_none (h : Accepted m m' size last []) :
    (⟨m', last⟩ : Message).getNextField 0 = some (.nameNotFound, 0) := by
  have hlast := h.last_nil rfl
  unfold Message.getNextField
  rw [fieldHeaderForOffset_of_le _ (le_refl 0)]
  show ((⟨m', last⟩ : Message).fieldHeaderForOffset last).bind _ = _
  rw [fieldHeaderForOffset_of_le _ hlast]
  rfl

lemma Accepted.reached_iff (h : Accepted m m' size last ps) (field : ℤ) :
    Reached (⟨m', last⟩ : Message) field ↔ field = 0 ∨ field ∈ ps := by
  constructor
  · intro hreached
    induction hreached with
    | unset => exact .inl rfl
    | @next field next _ heq ih =>
      right
      rcases ih with rfl | hfield
      · cases ps with
        | nil =>
          rw [h.getNextField_none] at heq
          cases heq
        | cons p ps =>
          rw [h.getNextField_first] at heq
          cases heq
          exact List.mem_cons_self
      · obtain ⟨as, bs, hps⟩ := List.append_of_mem hfield
        subst hps
        cases bs with
        | nil =>
          rw [h.getNextField_last (by simp)] at heq
          cases heq
        | cons q bs =>
          rw [h.getNextField_next] at heq
          cases heq
          simp
  · intro hor
    rcases hor with rfl | hfield
    · exact .unset
    · have hall : ∀ as bs, ps = as ++ bs → ∀ p ∈ as, Reached (⟨m', last⟩ : Message) p := by
        intro as
        induction as using List.reverseRecOn with
        | nil =>
          intro bs _ p hp
          cases hp
        | append_singleton as a ih =>
          intro bs hps p hp
          rw [List.append_assoc] at hps
          have hbefore := ih _ hps
          rcases List.mem_append.1 hp with hp | hp
          · exact hbefore p hp
          · rw [List.mem_singleton.1 hp]
            rcases List.eq_nil_or_concat as with rfl | ⟨as, b, rfl⟩
            · subst hps
              exact .next .unset h.getNextField_first
            · rw [List.concat_eq_append, List.append_assoc] at hps
              subst hps
              exact .next (hbefore b (by simp)) h.getNextField_next
      exact hall ps [] (List.append_nil ps).symm field hfield

lemma Accepted.getNextField {as : List ℤ} {q : ℤ} {bs : List ℤ}
    (h : Accepted m m' size last (as ++ q :: bs)) :
    (⟨m', last⟩ : Message).getNextField (as.getLast?.getD 0) = some (.ok, q) := by
  rcases List.eq_nil_or_concat as with rfl | ⟨as, p, rfl⟩
  · exact h.getNextField_first
  · rw [List.concat_eq_append, List.append_assoc] at h
    rw [List.concat_eq_append, List.getLast?_concat]
    exact h.getNextField_next

lemma Accepted.getNextField_end (h : Accepted m m' size last ps) :
    (⟨m', last⟩ : Message).getNextField (ps.getLast?.getD 0) =
      some (.nameNotFound, ps.getLast?.getD 0) := by
  cases hl : ps.getLast? with
  | none =>
    have hps : ps = [] := List.getLast?_eq_none_iff.1 hl
    subst hps
    exact h.getNextField_none
  | some l => exact h.getNextField_last hl

/-! ## Finding a field -/

lemma strEqual_of_strnlen {max : ℕ} {name : List UInt8} (hname : ∀ b ∈ name, b ≠ 0)
    (h : strnlen m pos max = some n) (hlt : n < max) : ∃ r, strEqual m pos name = some r := by
  induction max generalizing pos n name with
  | zero => omega
  | succ max ih =>
    obtain ⟨b, hb, h⟩ := Option.bind_eq_some_iff.1 h
    cases name with
    | nil => exact ⟨decide (b = 0), by rw [strEqual, hb]; rfl⟩
    | cons c name =>
      rw [strEqual, hb, Option.bind_some]
      by_cases hbc : b = c
      · have hc : c ≠ 0 := hname c List.mem_cons_self
        rw [if_neg (by rw [hbc]; exact hc)] at h
        obtain ⟨k, hk, hn⟩ := Option.map_eq_some_iff.1 h
        rw [if_pos hbc]
        exact ih (fun b hb => hname b (List.mem_cons_of_mem _ hb)) hk (by omega)
      · rw [if_neg hbc]
        exact ⟨false, rfl⟩

lemma Accepted.typeCode (h : Accepted m m' size last ps) (hpos : pos ∈ ps) :
    ∃ type, (⟨m', last⟩ : Message).typeCode pos = some type := by
  obtain ⟨hge, _, hle, header, hchecked⟩ := h.mem hpos
  have hreads := fieldHeaderAt_eq_some.1 hchecked.reads
  refine ⟨header.type, ?_⟩
  unfold Message.typeCode
  rw [h.fieldHeaderForOffset hpos]
  show uint32At m' pos = _
  rw [uint32At_agree h.agree (by omega) (by omega)]
  exact hreads.type

lemma Accepted.hasName (h : Accepted m m' size last ps) (hpos : pos ∈ ps) (name : CString) :
    ∃ r, (⟨m', last⟩ : Message).hasName pos name = some r := by
  obtain ⟨hge, _, _, header, hchecked⟩ := h.mem hpos
  obtain ⟨n, hn, _, hlt⟩ := hchecked.name
  have hhs := hchecked.headerSize_le
  have hfs := hchecked.fieldSize_le
  rw [← strnlen_agree h.agree (by omega) (by omega)] at hn
  obtain ⟨r, hr⟩ := strEqual_of_strnlen name.nonzero hn (by omega)
  refine ⟨r, ?_⟩
  unfold Message.hasName
  rw [h.fieldHeaderForOffset hpos]
  exact hr

lemma Accepted.findFieldLoop (as bs : List ℤ) (h : Accepted m m' size last (as ++ bs))
    (name : CString) (type : ℕ) :
    ∃ r, (∀ fuel > bs.length,
      (⟨m', last⟩ : Message).findFieldLoop name type fuel (as.getLast?.getD 0) = some r) ∧
      (r.1 = .ok → r.2 ∈ as ++ bs) := by
  induction bs generalizing as with
  | nil =>
    refine ⟨(.nameNotFound, as.getLast?.getD 0), ?_, fun hok => by cases hok⟩
    intro fuel hfuel
    have hend := h.getNextField_end
    rw [List.append_nil] at hend
    have hsucc : fuel = fuel - 1 + 1 := by
      have : 0 < fuel := hfuel
      omega
    rw [hsucc, Message.findFieldLoop, hend]
    rfl
  | cons q bs ih =>
    have hq : q ∈ as ++ q :: bs := by simp
    have hassoc : as ++ q :: bs = (as ++ [q]) ++ bs := by simp
    obtain ⟨fieldType, htype⟩ := h.typeCode hq
    obtain ⟨same, hname⟩ := h.hasName hq name
    have hnext := h.getNextField
    rw [hassoc] at h
    obtain ⟨r, hr, hmem⟩ := ih _ h
    rw [List.getLast?_concat] at hr
    rw [hassoc]
    -- the field is compared, and otherwise the search goes on behind it
    have hround : ∀ fuel, (⟨m', last⟩ : Message).findFieldLoop name type (fuel + 1)
        (as.getLast?.getD 0) = if (type = anyType ∨ fieldType = type) ∧ same = true
          then some (.ok, q) else (⟨m', last⟩ : Message).findFieldLoop name type fuel q := by
      intro fuel
      rw [Message.findFieldLoop, hnext]
      simp only [Option.bind_eq_bind, Option.bind_some, ne_eq, not_true_eq_false, if_false, htype,
        hname, Option.map_some]
      by_cases hany : type = anyType
      · simp [hany]
      · by_cases htypes : fieldType = type
        · simp [hany, htypes]
        · simp [hany, htypes]
    by_cases hfound : (type = anyType ∨ fieldType = type) ∧ same = true
    · refine ⟨(.ok, q), ?_, fun _ => by simp⟩
      intro fuel hfuel
      have hsucc : fuel = fuel - 1 + 1 := by
        have : 0 < fuel := Nat.lt_of_le_of_lt (Nat.zero_le _) hfuel
        omega
      rw [hsucc, hround, if_pos hfound]
    · refine ⟨r, ?_, hmem⟩
      intro fuel hfuel
      rw [List.length_cons] at hfuel
      have hsucc : fuel = fuel - 1 + 1 := by omega
      rw [hsucc, hround, if_neg hfound]
      exact hr (fuel - 1) (by omega)

/-! ## Elements -/

lemma Accepted.elementAt_eq (h : Accepted m m' size last ps) (hpos : pos ∈ ps)
    (hreads : fieldHeaderAt m pos = some header) (index : ℤ) :
    (⟨m', last⟩ : Message).elementAt pos index =
      if index < 0 ∨ index ≥ header.elementCount then some none
      else if header.hasFixedElementSize then
        some (some (int32 (int32 (pos + header.headerSize) + header.elementSize * index),
          header.elementSize))
      else (skipValues m' index.toNat (int32 (pos + header.headerSize))).bind fun v =>
        (int32At m' v).map fun valueSize => some (valueData v, valueSize) := by
  obtain ⟨hge, _, hle, _⟩ := h.mem hpos
  unfold Message.elementAt
  rw [h.fieldHeaderForOffset hpos]
  show (fieldHeaderAt m' pos).bind _ = _
  rw [fieldHeaderAt_agree h.agree (by omega) (by omega), hreads]
  rfl

lemma Accepted.elementAt_fixed {index : ℤ} (h : Accepted m m' size last ps) (hpos : pos ∈ ps)
    (hchecked : Checked m size pos header) (hfixed : header.hasFixedElementSize = true)
    (hindex : 0 ≤ index) (hlt : index < header.elementCount)
    (hfits : header.headerSize + header.elementSize * index ≤ header.fieldSize) :
    (⟨m', last⟩ : Message).elementAt pos index =
      some (some (pos + header.headerSize + header.elementSize * index, header.elementSize)) := by
  obtain ⟨hge, _⟩ := h.mem hpos
  have hsize := (int32At_bounds h.size_eq).2
  have hhs := hchecked.headerSize_ge
  have hhs' := hchecked.headerSize_le
  have hfs := hchecked.fieldSize_le
  have helementSize : 0 ≤ header.elementSize := by
    simpa using hfixed
  have hproduct : 0 ≤ header.elementSize * index := Int.mul_nonneg helementSize hindex
  rw [h.elementAt_eq hpos hchecked.reads, if_neg (by omega), if_pos hfixed]
  rw [int32_eq (x := pos + header.headerSize) (by omega) (by omega), int32_eq (by omega) (by omega)]

section

variable (h : Accepted m m' size last ps)
include h

lemma Accepted.elementAt_value (hpos : pos ∈ ps)
    (hchecked : Checked m size pos header) (hfixed : header.hasFixedElementSize = false)
    (hk : (k : ℤ) < header.elementCount) (hsizes : SizesNonneg m (pos + header.headerSize) k) :
    ∃ v valueSize, skipValues m k (pos + header.headerSize) = some v ∧
      int32At m v = some valueSize ∧
      (⟨m', last⟩ : Message).elementAt pos k = some (some (valueData v, valueSize)) ∧
      (SizesNonneg m (pos + header.headerSize) header.elementCount.toNat →
        pos + header.headerSize ≤ valueData v ∧
          valueData v + valueSize ≤ pos + header.fieldSize) := by
  obtain ⟨hge, _⟩ := h.mem hpos
  obtain ⟨_, hsize⟩ := int32At_bounds h.size_eq
  have hhs := hchecked.headerSize_ge
  have hhs' := hchecked.headerSize_le
  have hfs := hchecked.fieldSize_le
  have hself : int32 (pos + header.headerSize) = pos + header.headerSize :=
    int32_eq (by omega) (by omega)
  obtain ⟨fieldSize, hcheck, hle⟩ := hchecked.elements hfixed
  rw [← hself] at hsizes
  obtain ⟨w, fieldSize', hw, hwl, hgew, hwle, hrest⟩ := checkElements_skip h.agree (k := k) (by omega)
    (by omega) (by omega) hsize (by omega) (by omega) hsizes hcheck
  have hn : header.elementCount.toNat - k = header.elementCount.toNat - k - 1 + 1 := by omega
  rw [hn] at hrest
  obtain ⟨hin, hselfw, valueSize, hvalueSize, hfits, hnext⟩ :=
    checkElements_succ (by omega) (by omega) hwle hsize (by omega) hrest
  rw [hselfw, hself] at hw hwl
  refine ⟨w, valueSize, hw, hvalueSize, ?_, fun hall => ?_⟩
  · rw [h.elementAt_eq hpos hchecked.reads, if_neg (by omega), hfixed, if_neg Bool.false_ne_true,
      hself, Int.toNat_natCast, hwl, Option.bind_some, int32At_agree h.agree (by omega) hin, hvalueSize]
    rfl
  · have hpositive : 0 ≤ valueSize := hall k (by omega) w valueSize hw hvalueSize
    obtain ⟨hdata, _⟩ := hnext hpositive
    have hbounds := roundUp_bounds (w + 4)
    have hleft : SizesNonneg m (int32 w) (header.elementCount.toNat - k - 1 + 1) := by
      intro i hi v s hv hs
      have hskip : skipValues m (k + i) (pos + header.headerSize) = some v := by
        have hadd : ∀ k x w, skipValues m k x = some w →
            skipValues m (k + i) x = skipValues m i w := by
          intro k
          induction k with
          | zero =>
            intro x w hx
            cases hx
            rw [Nat.zero_add]
          | succ k ih =>
            intro x w hx
            obtain ⟨s, hs, hx⟩ := Option.bind_eq_some_iff.1 hx
            rw [Nat.succ_add, skipValues, hs, Option.bind_some]
            exact ih _ w hx
        rw [hadd k _ w hw, ← hselfw]
        exact hv
      exact hall (k + i) (by omega) v s hskip hs
    have hend := checkElements_end (by omega) (by omega) hwle hsize (by omega) hleft hvalueSize hrest
    omega

lemma Accepted.elementAt_inside (hfit : FieldsFit m size)
    (hpos : pos ∈ ps) (index : ℤ) : ∃ r, (⟨m', last⟩ : Message).elementAt pos index = some r ∧
      ∀ p s, r = some (p, s) → Inside m' pos p s := by
  obtain ⟨hge, _, hle, header, hchecked⟩ := h.mem hpos
  have helements := hfit pos header (h.fields.fieldAt hpos) hchecked.reads
  have hlimit : fieldHeaderAt m' pos = some header := by
    rw [fieldHeaderAt_agree h.agree (by omega) (by omega)]
    exact hchecked.reads
  by_cases hindex : index < 0 ∨ index ≥ header.elementCount
  · refine ⟨none, ?_, fun p s hr => by cases hr⟩
    rw [h.elementAt_eq hpos hchecked.reads, if_pos hindex]
  · rw [ElementsFit] at helements
    cases hfixed : header.hasFixedElementSize with
    | true =>
      rw [if_pos hfixed] at helements
      have helementSize : 0 ≤ header.elementSize := by
        simpa using hfixed
      -- the elements up to this one are no longer than all of them
      have hupto : header.elementSize * (index + 1) ≤ header.elementSize * header.elementCount :=
        Int.mul_le_mul_of_nonneg_left (by omega) helementSize
      rw [Int.mul_add, Int.mul_one] at hupto
      have hproduct : 0 ≤ header.elementSize * index := Int.mul_nonneg helementSize (by omega)
      refine ⟨_, h.elementAt_fixed hpos hchecked hfixed (by omega) (by omega) (by omega), ?_⟩
      intro p s hr
      cases hr
      exact ⟨header, hlimit, by omega, helementSize, by omega⟩
    | false =>
      rw [hfixed, if_neg Bool.false_ne_true] at helements
      have hk : index = (index.toNat : ℤ) := by omega
      obtain ⟨v, valueSize, hv, hvalueSize, heq, hinside⟩ := h.elementAt_value (k := index.toNat)
        hpos hchecked hfixed (by omega) (helements.mono (by omega))
      rw [← hk] at heq
      refine ⟨_, heq, ?_⟩
      intro p s hr
      cases hr
      obtain ⟨hfrom, hto⟩ := hinside helements
      exact ⟨header, hlimit, hfrom, helements index.toNat (by omega) v valueSize hv hvalueSize, hto⟩

lemma Accepted.safe (hfit : FieldsFit m size) : Safe (⟨m', last⟩ : Message) := by
  have hfind : ∀ name type, ∃ r, (∀ fuel > ps.length,
      (⟨m', last⟩ : Message).findField fuel name type = some r) ∧ (r.1 = .ok → r.2 ∈ ps) := by
    intro name type
    cases name with
    | none => exact ⟨(.badValue, 0), fun _ _ => rfl, fun hok => by cases hok⟩
    | some name => exact Accepted.findFieldLoop [] ps h name type
  constructor
  · intro field hreached
    rcases (h.reached_iff field).1 hreached with rfl | hfield
    · cases ps with
      | nil => exact ⟨_, h.getNextField_none⟩
      | cons p ps => exact ⟨_, h.getNextField_first⟩
    · obtain ⟨as, bs, hps⟩ := List.append_of_mem hfield
      subst hps
      cases bs with
      | nil => exact ⟨_, h.getNextField_last (by simp)⟩
      | cons q bs => exact ⟨_, h.getNextField_next⟩
  · intro name type
    obtain ⟨r, hr, _⟩ := hfind name type
    exact ⟨r, ps.length + 1, fun fuel hfuel => hr fuel (by omega)⟩
  · intro field index hreached
    rcases (h.reached_iff field).1 hreached with rfl | hfield
    · refine ⟨none, ?_, fun pos size hr => by cases hr⟩
      unfold Message.elementAt
      rw [fieldHeaderForOffset_of_le _ (le_refl 0)]
      rfl
    · exact h.elementAt_inside hfit hfield index
  · intro name type index
    cases name with
    | none => exact ⟨(.badValue, none), 0, fun _ _ => ⟨rfl, fun pos size hr => by cases hr⟩⟩
    | some name =>
      obtain ⟨⟨status, field⟩, hr, hmem⟩ := hfind (some name) type
      by_cases hok : status = .ok
      · subst hok
        obtain ⟨element, helement, hinside⟩ := h.elementAt_inside hfit (hmem rfl) index
        refine ⟨match element with | none => (.badIndex, none) | some e => (.ok, some e),
          ps.length + 1, ?_⟩
        intro fuel hfuel
        have hfound := hr fuel (by omega)
        constructor
        · unfold Message.findData
          simp only [Option.bind_eq_bind, hfound, Option.bind_some, helement]
          cases element <;> rfl
        · intro pos size hr
          cases element with
          | none => cases hr
          | some e =>
            cases hr
            exact ⟨field, hfound, hinside _ _ rfl⟩
      · refine ⟨(status, none), ps.length + 1, ?_⟩
        intro fuel hfuel
        have hfound := hr fuel (by omega)
        refine ⟨?_, fun pos size hr => by cases hr⟩
        unfold Message.findData
        simp only [Option.bind_eq_bind, hfound, Option.bind_some, ne_eq, hok, not_false_eq_true,
          if_true]

lemma Accepted.fieldsFit (hsafe : Safe (⟨m', last⟩ : Message)) : FieldsFit m size := by
  intro pos header hfieldAt hreads
  have hpos := h.fields.of_fieldAt hfieldAt
  obtain ⟨hge, _, hle, header', hchecked⟩ := h.mem hpos
  have heq : header' = header := Option.some.inj (hchecked.reads.symm.trans hreads)
  rw [heq] at hchecked
  have hreached := (h.reached_iff pos).2 (.inr hpos)
  have hlimit : fieldHeaderAt m' pos = some header := by
    rw [fieldHeaderAt_agree h.agree (by omega) (by omega)]
    exact hreads
  have hinside : ∀ index p s, (⟨m', last⟩ : Message).elementAt pos index = some (some (p, s)) →
      0 ≤ s ∧ p + s ≤ pos + header.fieldSize := by
    intro index p s helement
    obtain ⟨r, hr, hin⟩ := hsafe.elementAt pos index hreached
    rw [helement] at hr
    obtain ⟨header'', hreads'', _, hs, hend⟩ := hin p s (Option.some.inj hr).symm
    have heq' : header'' = header := Option.some.inj (hreads''.symm.trans hlimit)
    rw [heq'] at hend
    exact ⟨hs, hend⟩
  rw [ElementsFit]
  cases hfixed : header.hasFixedElementSize with
  | true =>
    rw [if_pos rfl]
    by_contra hmore
    have hhs := hchecked.headerSize_le
    have helementSize : 0 < header.elementSize := by
      have hnonneg : 0 ≤ header.elementSize := by
        simpa using hfixed
      by_contra hnot
      have hzero : header.elementSize = 0 := by omega
      rw [hzero, Int.zero_mul] at hmore
      omega
    -- the first element that does not fit
    generalize hroom : header.fieldSize - header.headerSize = room at hmore
    have hquotient := Int.mul_ediv_self_le (x := room) (k := header.elementSize) (by omega)
    have hnext := Int.lt_mul_ediv_self_add (x := room) helementSize
    have hindex : 0 ≤ room / header.elementSize := Int.ediv_nonneg (by omega) (by omega)
    have hlt : room / header.elementSize < header.elementCount := by
      by_contra hnot
      have hmul : header.elementSize * header.elementCount ≤
          header.elementSize * (room / header.elementSize) :=
        Int.mul_le_mul_of_nonneg_left (by omega) (by omega)
      omega
    have helement := h.elementAt_fixed hpos hchecked hfixed hindex hlt (by omega)
    obtain ⟨_, hend⟩ := hinside _ _ _ helement
    omega
  | false =>
    rw [if_neg Bool.false_ne_true]
    have hall : ∀ k : ℕ, (k : ℤ) ≤ header.elementCount →
        SizesNonneg m (pos + header.headerSize) k := by
      intro k
      induction k with
      | zero =>
        intro _ i hi
        omega
      | succ k ih =>
        intro hk i hi v s hv hs
        by_cases hik : i < k
        · exact ih (by omega) i hik v s hv hs
        · have hieq : i = k := by omega
          rw [hieq] at hv
          obtain ⟨w, valueSize, hw, hvalueSize, helement, _⟩ :=
            h.elementAt_value hpos hchecked hfixed (by omega) (ih (by omega))
          have hvw : v = w := Option.some.inj (hv.symm.trans hw)
          rw [hvw, hvalueSize] at hs
          cases hs
          exact (hinside _ _ _ helement).1
    have hcount := hchecked.elementCount_nonneg
    exact hall header.elementCount.toNat (by omega)

end

/-- A buffer that is accepted is read safely exactly when the elements of its fields fit. -/
theorem safe_iff_fieldsFit {address : ℕ} {bufferSize : ℤ}
    (h : setTo m address bufferSize = some (.ok last)) (hsize : int32At m 4 = some size) :
    Safe ⟨m.limit size, last⟩ ↔ FieldsFit m size := by
  obtain ⟨size', ps, haccepted⟩ := setTo_spec h
  have heq : size' = size := Option.some.inj (haccepted.size_eq.symm.trans hsize)
  rw [heq] at haccepted
  exact ⟨haccepted.fieldsFit, haccepted.safe⟩

/-! ## Examples of buffers -/

/-- The memory of a buffer with these bytes, and nothing around it. -/
def bufferOf (bytes : List UInt8) : Memory := fun p => if 0 ≤ p then bytes[p.toNat]? else none

/-- A message with a field "a" of two elements of 4 bytes, and a field "b" with one element of 3
bytes, which is not of fixed size. -/
def twoFields : List UInt8 :=
  digits 4 messageHeaderMagic ++ digits 4 83 ++ List.replicate 20 0 ++
    (digits 4 5 ++ digits 4 4 ++ digits 4 2 ++ digits 4 28 ++ digits 2 20 ++ [97, 0] ++
      digits 4 7 ++ digits 4 8) ++
    (digits 4 6 ++ digits 4 0xffffffff ++ digits 4 1 ++ digits 4 27 ++ digits 2 20 ++ [98, 0] ++
      digits 4 3 ++ [1, 2, 3])

lemma twoFields_fit : FieldsFit (bufferOf twoFields) 83 := by
  have hfirst : fieldHeaderAt (bufferOf twoFields) 28 = some ⟨5, 4, 2, 28, 20⟩ := by decide
  have hsecond : fieldHeaderAt (bufferOf twoFields) 56 = some ⟨6, -1, 1, 27, 20⟩ := by
    decide
  have hpos : ∀ pos, FieldAt (bufferOf twoFields) 83 pos → pos = 28 ∨ pos = 56 := by
    intro pos h
    induction h with
    | first => exact .inl rfl
    | next _ hreads hlt ih =>
      rcases ih with rfl | rfl
      · rw [hfirst] at hreads
        cases hreads
        exact .inr rfl
      · rw [hsecond] at hreads
        cases hreads
        exact absurd hlt (by decide)
  intro pos header hfieldAt hreads
  rcases hpos pos hfieldAt with rfl | rfl
  · rw [hfirst] at hreads
    cases hreads
    show (20 : ℤ) + 4 * 2 ≤ 28
    decide
  · rw [hsecond] at hreads
    cases hreads
    show SizesNonneg (bufferOf twoFields) 76 1
    intro i hi v valueSize hv hvalueSize
    have hzero : i = 0 := by omega
    have hthree : int32At (bufferOf twoFields) 76 = some 3 := by decide
    rw [hzero] at hv
    cases hv
    rw [hthree] at hvalueSize
    cases hvalueSize
    decide

theorem safe_iff_fieldsFit_twoFields :
    setTo (bufferOf twoFields) 0 83 = some (.ok 56) ∧
      Safe ⟨(bufferOf twoFields).limit 83, 56⟩ := by
  have haccepted : setTo (bufferOf twoFields) 0 83 = some (.ok 56) := by decide
  exact ⟨haccepted, (safe_iff_fieldsFit haccepted (by decide)).2 twoFields_fit⟩

/-- A message with a field "a" that says that it has 1000 elements of 4 bytes, and has one. -/
def oneOfThousand : List UInt8 :=
  digits 4 messageHeaderMagic ++ digits 4 52 ++ List.replicate 20 0 ++
    (digits 4 5 ++ digits 4 4 ++ digits 4 1000 ++ digits 4 24 ++ digits 2 20 ++ [97, 0] ++
      digits 4 7)

/-- The message of 52 bytes is accepted, and its last element is nearly 4000 bytes behind it. -/
theorem oneOfThousand_unsafe :
    setTo (bufferOf oneOfThousand) 0 52 = some (.ok 28) ∧
      (⟨(bufferOf oneOfThousand).limit 52, 28⟩ : Message).elementAt 28 999 =
        some (some (4044, 4)) ∧
      ¬Safe ⟨(bufferOf oneOfThousand).limit 52, 28⟩ := by
  have helement : (⟨(bufferOf oneOfThousand).limit 52, 28⟩ : Message).elementAt 28 999 =
      some (some (4044, 4)) := by decide
  refine ⟨by decide, helement, fun hsafe => ?_⟩
  have hreached : Reached ⟨(bufferOf oneOfThousand).limit 52, 28⟩ 28 :=
    .next .unset (by decide)
  obtain ⟨r, hr, hinside⟩ := hsafe.elementAt 28 999 hreached
  rw [helement] at hr
  obtain ⟨header, hreads, _, _, hend⟩ := hinside 4044 4 (Option.some.inj hr).symm
  have hheader : fieldHeaderAt ((bufferOf oneOfThousand).limit 52) 28 =
      some ⟨5, 4, 1000, 24, 20⟩ := by decide
  rw [hheader] at hreads
  cases hreads
  revert hend
  decide

end Haiku.KMessage
